import Mathlib.Data.List.Induction
import Mathlib.Data.List.Basic
import Mathlib.Data.List.Pairwise

/-! Register layouts: named fields of given sizes laid one after the other. The same
layout cuts a list of registers into fields and gives every field its span of addresses;
a consumer that slices fields off a list connects a layout when it cuts that layout. -/
namespace Layout

variable {κ ι α β γ : Type}

def sumOf (f : β → Nat) : List β → Nat
  | [] => 0
  | b :: bs => f b + sumOf f bs

def total (layout : List (κ × Nat)) : Nat := sumOf Prod.snd layout

def cut : List (κ × Nat) → List α → List (κ × List α)
  | [], _ => []
  | (k,n) :: layout, rs => (k,rs.take n) :: cut layout (rs.drop n)

/-- Every field with its first address and its size. -/
def spans : Nat → List (κ × Nat) → List (κ × Nat × Nat)
  | _, [] => []
  | base, (k,n) :: layout => (k,base,n) :: spans (base + n) layout

/-- The layouts of a list of parts, each with its index. -/
def layoutOf (f : Nat → β → List (κ × Nat)) (i : Nat) (bs : List β) : List (κ × Nat) :=
  (bs.zipIdx i).flatMap fun b => f b.2 b.1

@[simp] theorem sumOf_append (f : β → Nat) (front back : List β) :
    sumOf f (front ++ back) = sumOf f front + sumOf f back := by
  induction front with
  | nil => simp [sumOf]
  | cons b front ih => simp [sumOf,ih,Nat.add_assoc]

theorem sumOf_take_mono (f : β → Nat) (l : List β) {i j : Nat} (before : i ≤ j) :
    sumOf f (l.take i) ≤ sumOf f (l.take j) := by
  obtain ⟨k,rfl⟩ := Nat.exists_eq_add_of_le before
  rw [List.take_add,sumOf_append]
  exact Nat.le_add_right _ _

theorem sumOf_map (f : β → Nat) (g : γ → β) (l : List γ) : sumOf f (l.map g) = sumOf (f ∘ g) l := by
  induction l with
  | nil => rfl
  | cons c l ih => simp [sumOf,ih]

@[simp] theorem total_append (front back : List (κ × Nat)) :
    total (front ++ back) = total front + total back := sumOf_append _ _ _

@[simp] theorem total_rename (f : κ → ι) (layout : List (κ × Nat)) :
    total (layout.map fun x => (f x.1,x.2)) = total layout := sumOf_map _ _ _

theorem total_layoutOf (f : Nat → β → List (κ × Nat)) (size : β → Nat)
    (each : ∀ i b, total (f i b) = size b) (i : Nat) (bs : List β) :
    total (layoutOf f i bs) = sumOf size bs := by
  induction bs generalizing i with
  | nil => rfl
  | cons b bs ih =>
    have rest := ih (i + 1)
    simp only [layoutOf] at rest
    simp [layoutOf,List.zipIdx_cons,sumOf,each,rest]

theorem forall_mem_layoutOf {P : κ × Nat → Prop} {f : Nat → β → List (κ × Nat)} {i : Nat} {bs : List β}
    (each : ∀ i, ∀ b ∈ bs, ∀ x ∈ f i b, P x) : ∀ x ∈ layoutOf f i bs, P x := by
  intro x inside
  obtain ⟨⟨b,j⟩,member,held⟩ := List.mem_flatMap.mp inside
  exact each j b (List.fst_mem_of_mem_zipIdx member) x held

theorem cut_append (front back : List (κ × Nat)) (rs : List α) :
    cut (front ++ back) rs = cut front rs ++ cut back (rs.drop (total front)) := by
  induction front generalizing rs with
  | nil => simp [cut,total,sumOf]
  | cons x front ih =>
    have size : total (x :: front) = x.2 + total front := rfl
    simp [cut,ih,size,List.drop_drop]

theorem cut_rename (f : κ → ι) (layout : List (κ × Nat)) (rs : List α) :
    cut (layout.map fun x => (f x.1,x.2)) rs = (cut layout rs).map fun x => (f x.1,x.2) := by
  induction layout generalizing rs with
  | nil => rfl
  | cons x layout ih => simp [cut,ih]

theorem spans_append (base : Nat) (front back : List (κ × Nat)) :
    spans base (front ++ back) = spans base front ++ spans (base + total front) back := by
  induction front generalizing base with
  | nil => simp [spans,total,sumOf]
  | cons x front ih =>
    have size : total (x :: front) = x.2 + total front := rfl
    simp [spans,ih,size,Nat.add_assoc]

/-- Cutting a run of consecutive numbers gives every field the numbers of its span. -/
theorem cut_range' (layout : List (κ × Nat)) (base m : Nat) (room : total layout ≤ m) :
    cut layout (List.range' base m) = (spans base layout).map fun x => (x.1,List.range' x.2.1 x.2.2) := by
  induction layout generalizing base m with
  | nil => rfl
  | cons x layout ih =>
    have size : total (x :: layout) = x.2 + total layout := rfl
    rw [size] at room
    simp only [cut,spans,List.map_cons]
    rw [List.take_range'_of_length_ge (by omega),List.drop_range',Nat.mul_one,ih _ _ (by omega)]

theorem mem_spans_shift {layout : List (κ × Nat)} {base d a n : Nat} {k : κ} :
    (k,a,n) ∈ spans (d + base) layout ↔ ∃ a', a = d + a' ∧ (k,a',n) ∈ spans base layout := by
  induction layout generalizing base with
  | nil => simp [spans]
  | cons x layout ih =>
    simp only [spans,List.mem_cons,Prod.mk.injEq,Nat.add_assoc,ih]
    constructor
    · rintro (⟨rfl,rfl,rfl⟩ | ⟨a',rfl,later⟩)
      · exact ⟨base,rfl,.inl ⟨rfl,rfl,rfl⟩⟩
      · exact ⟨a',rfl,.inr later⟩
    · rintro ⟨a',rfl,⟨rfl,rfl,rfl⟩ | later⟩
      · exact .inl ⟨rfl,rfl,rfl⟩
      · exact .inr ⟨a',rfl,later⟩

/-- Every part starts after the sizes of the parts before it. -/
theorem spans_layoutOf (f : Nat → β → List (κ × Nat)) (size : β → Nat)
    (each : ∀ i b, total (f i b) = size b) (base : Nat) (bs : List β) :
    spans base (layoutOf f 0 bs) =
      bs.zipIdx.flatMap fun b => spans (base + sumOf size (bs.take b.2)) (f b.2 b.1) := by
  induction bs using List.reverseRecOn with
  | nil => rfl
  | append_singleton front b ih =>
    have before : (front.zipIdx.flatMap fun c =>
        spans (base + sumOf size ((front ++ [b]).take c.2)) (f c.2 c.1)) =
        spans base (layoutOf f 0 front) := by
      rw [ih]
      apply List.flatMap_congr
      rintro ⟨c,j⟩ inside
      have low : j < front.length := by
        have := List.mem_zipIdx inside
        omega
      rw [List.take_append_of_le_length (Nat.le_of_lt low)]
    have split : layoutOf f 0 (front ++ [b]) = layoutOf f 0 front ++ f front.length b := by
      simp [layoutOf,List.zipIdx_append]
    rw [split,spans_append,List.zipIdx_append,List.flatMap_append,before,
      total_layoutOf f size each]
    simp

theorem le_of_mem_spans {layout : List (κ × Nat)} {base : Nat} {x : κ × Nat × Nat}
    (inside : x ∈ spans base layout) : base ≤ x.2.1 := by
  induction layout generalizing base with
  | nil => cases inside
  | cons y layout ih =>
    rcases List.mem_cons.mp inside with rfl | later
    · exact Nat.le_refl _
    · exact Nat.le_trans (Nat.le_add_right _ _) (ih later)

theorem mem_of_mem_spans {layout : List (κ × Nat)} {base : Nat} {x : κ × Nat × Nat}
    (inside : x ∈ spans base layout) : (x.1,x.2.2) ∈ layout := by
  induction layout generalizing base with
  | nil => cases inside
  | cons y layout ih =>
    rcases List.mem_cons.mp inside with rfl | later
    · exact List.mem_cons_self
    · exact List.mem_cons_of_mem _ (ih later)

/-- Together the spans are all addresses of the layout. -/
theorem spans_flatten (base : Nat) (layout : List (κ × Nat)) :
    (spans base layout).flatMap (fun x => List.range' x.2.1 x.2.2) = List.range' base (total layout) := by
  induction layout generalizing base with
  | nil => rfl
  | cons x layout ih =>
    have size : total (x :: layout) = x.2 + total layout := rfl
    rw [spans,List.flatMap_cons,ih,size]
    exact List.range'_append_1

/-- Spans follow each other without overlap. -/
theorem spans_pairwise (base : Nat) (layout : List (κ × Nat)) :
    (spans base layout).Pairwise fun x y => x.2.1 + x.2.2 ≤ y.2.1 := by
  induction layout generalizing base with
  | nil => exact List.Pairwise.nil
  | cons x layout ih => exact List.Pairwise.cons (fun y later => le_of_mem_spans later) (ih _)

/-- One span ends before the other begins. -/
def Apart (x y : κ × Nat × Nat) : Prop := x.2.1 + x.2.2 ≤ y.2.1 ∨ y.2.1 + y.2.2 ≤ x.2.1

instance : Std.Symm (@Apart κ) := ⟨fun _ _ => Or.symm⟩

/-- Different spans of one layout share no address. -/
theorem spans_disjoint {layout : List (κ × Nat)} {base : Nat} {x y : κ × Nat × Nat}
    (left : x ∈ spans base layout) (right : y ∈ spans base layout) (different : x ≠ y) :
    (List.range' x.2.1 x.2.2).Disjoint (List.range' y.2.1 y.2.2) := by
  have ordered : (spans base layout).Pairwise Apart := (spans_pairwise base layout).imp Or.inl
  intro r inLeft inRight
  rw [List.mem_range'_1] at inLeft inRight
  rcases ordered.forall left right different with before | after
  · omega
  · omega

/-- A consumer that slices the fields of a layout off the low end of a list, after the
slices in `front`. -/
def Connects (front : List (κ × List α)) (p : StateT (List α) Option γ) (layout : List (κ × Nat))
    (slices : γ → List (κ × List α)) : Prop :=
  ∀ rs, total layout ≤ rs.length →
    ∃ c, p rs = some (c,rs.drop (total layout)) ∧ slices c = front ++ cut layout rs

theorem Connects.done {front : List (κ × List α)} {slices : γ → List (κ × List α)} {c : γ}
    (same : slices c = front) : Connects front (pure c) [] slices := by
  intro rs _
  exact ⟨c,rfl,by simp [same,cut]⟩

theorem Connects.bind {front : List (κ × List α)} {p : StateT (List α) Option β}
    {q : β → StateT (List α) Option γ} {layout later : List (κ × Nat)}
    {taken : β → List (κ × List α)} {slices : γ → List (κ × List α)}
    (first : Connects [] p layout taken)
    (next : ∀ b, Connects (front ++ taken b) (q b) later slices) :
    Connects front (p >>= q) (layout ++ later) slices := by
  intro rs long
  rw [total_append] at long ⊢
  obtain ⟨b,run,sliced⟩ := first rs (by omega)
  obtain ⟨c,runLater,slicedLater⟩ := next b (rs.drop (total layout)) (by simp; omega)
  refine ⟨c,?_,?_⟩
  · change (p rs).bind (fun x => q x.1 x.2) = _
    rw [run,Option.bind_some,runLater,List.drop_drop]
  · rw [slicedLater,sliced,List.nil_append,List.append_assoc,cut_append]

theorem Connects.rename {p : StateT (List α) Option γ} {layout : List (κ × Nat)}
    {slices : γ → List (κ × List α)} (f : κ → ι) (connects : Connects [] p layout slices) :
    Connects [] p (layout.map fun x => (f x.1,x.2)) (fun c => (slices c).map fun x => (f x.1,x.2)) := by
  intro rs long
  rw [total_rename] at long ⊢
  obtain ⟨c,run,sliced⟩ := connects rs long
  rw [List.nil_append] at sliced
  exact ⟨c,run,by rw [List.nil_append,cut_rename,← sliced]⟩

/-- One more field. -/
theorem Connects.step {front : List (κ × List α)} {p : StateT (List α) Option β}
    {q : β → StateT (List α) Option γ} {layout : List (κ × Nat)} {slices : γ → List (κ × List α)}
    {k : κ} {n : Nat} (taken : β → List α)
    (run : ∀ rs, n ≤ rs.length → ∃ b, p rs = some (b,rs.drop n) ∧ taken b = rs.take n)
    (next : ∀ b, Connects (front ++ [(k,taken b)]) (q b) layout slices) :
    Connects front (p >>= q) ((k,n) :: layout) slices := by
  have field : Connects [] p [(k,n)] fun b => [(k,taken b)] := by
    intro rs long
    obtain ⟨b,done,sliced⟩ := run rs long
    exact ⟨b,done,by simp [cut,sliced]⟩
  exact field.bind next

/-- A field that may be absent. -/
def optionally (present : Prop) [Decidable present] (p : StateT (List α) Option β) :
    StateT (List α) Option (Option β) := if present then some <$> p else pure none

theorem Connects.optional {front : List (κ × List α)} {p : StateT (List α) Option β}
    {q : Option β → StateT (List α) Option γ} {layout : List (κ × Nat)}
    {slices : γ → List (κ × List α)} {k : κ} {n : Nat} (present : Prop) [Decidable present]
    (taken : β → List α)
    (run : present → ∀ rs, n ≤ rs.length → ∃ b, p rs = some (b,rs.drop n) ∧ taken b = rs.take n)
    (next : ∀ b, Connects (front ++ (b.map fun b => (k,taken b)).toList) (q b) layout slices) :
    Connects front (optionally present p >>= q)
      ((if present then [(k,n)] else []) ++ layout) slices := by
  unfold optionally
  by_cases here : present
  · rw [if_pos here,if_pos here,bind_map_left]
    exact .step taken (run here) fun b => next (some b)
  · rw [if_neg here,if_neg here,pure_bind]
    simpa using next none

/-- Consumers of the parts, one after the other, consume the layout of the whole. -/
theorem Connects.mapM {p : β → StateT (List α) Option γ} {layout : Nat → β → List (κ × Nat)}
    {slices : Nat → γ → List (κ × List α)}
    (bs : List β) (each : ∀ i, ∀ b ∈ bs, Connects [] (p b) (layout i b) (slices i)) (i : Nat) :
    Connects [] (bs.mapM p) (layoutOf layout i bs)
      (fun cs => (cs.zipIdx i).flatMap fun c => slices c.2 c.1) := by
  induction bs generalizing i with
  | nil =>
    intro rs _
    exact ⟨[],rfl,rfl⟩
  | cons b bs ih =>
    intro rs long
    have split : layoutOf layout i (b :: bs) = layout i b ++ layoutOf layout (i + 1) bs := by
      simp [layoutOf,List.zipIdx_cons]
    rw [split,total_append] at long
    obtain ⟨c,first,sliced⟩ := each i b (by simp) rs (by omega)
    obtain ⟨cs,later,slicedLater⟩ := ih (fun i b inside => each i b (by simp [inside])) (i + 1) (rs.drop (total (layout i b))) (by simp; omega)
    refine ⟨c :: cs,?_,?_⟩
    · rw [List.mapM_cons]
      change (do let x ← p b rs; let y ← bs.mapM p x.2; pure (x.1 :: y.1,y.2) : Option _) = _
      rw [first]
      change (do let y ← bs.mapM p _; pure (c :: y.1,y.2) : Option _) = _
      rw [later,split,total_append,← List.drop_drop]
      rfl
    · rw [split,cut_append,List.nil_append,← List.nil_append (cut _ rs),← sliced,
        ← List.nil_append (cut _ (rs.drop _)),← slicedLater]
      simp [List.zipIdx_cons]

end Layout
