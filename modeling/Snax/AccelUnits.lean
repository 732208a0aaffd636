import Snax.AccelSteps

/-! The units of the engine in a fabric phase: what each of them posts, what its commit consults
and grants, and that it leaves the other units alone. -/
namespace Snax.AccelEngine

/-- Which lane of which unit. -/
def Request.key (r : Request) : UnitId × Nat := (r.unit,r.lane)

/-- The lanes of a unit. -/
def channels (e : AccelEngine) : UnitId → Nat
  | .reader id => (e.readers id).cfg.numChannel
  | .writer id => (e.writers id).cfg.numChannel
  | .dtBC => 4

/-- How far lane `l` has come: the groups it has been granted. -/
def laneCount (e : AccelEngine) (u : UnitId) (l : Nat) : Int :=
  match u with
  | .reader id => (e.readers id).laneIssued l
  | .writer id => (e.writers id).written + ((e.writers id).laneDone l).toNat
  | .dtBC => e.su.issued l

def unitPosts (e : AccelEngine) : UnitId → List Request
  | .reader id => e.readerPosts id
  | .writer id => e.writerPosts id
  | .dtBC => e.dtBCPosts

def commitUnit (g : List Bool) (x : Readback) : UnitId → Readback
  | .reader id => commitReader g x id
  | .writer id => commitWriter g x id
  | .dtBC => commitDtBC g x

/-- The condition under which a lane posts. -/
def wants (e : AccelEngine) : UnitId → Nat → Bool
  | .reader id, l => (e.readers id).active && CycReader.issues (e.readers id).cfg (e.readers id).toState l
  | .writer id, l => !((e.writers id).done || (e.writers id).fifoOcc ≤ 0) && !(e.writers id).laneDone l
  | .dtBC, l => e.wants7 l

def lanePost (e : AccelEngine) : UnitId → Nat → Post
  | .reader id, l => CycReader.lanePost (e.readers id).cfg (e.readers id).toState l
  | .writer id, l => CycWriter.lanePost (e.writers id).cfg (e.writers id).toState l
  | .dtBC, l => ⟨Agu.r7bank (e.shape.ports 7).toAgu (e.su.issued l) l,3 <<< 4 ||| l,
      if e.su.landed l - e.su.consumed7 ≤ 1 then 1 else 0⟩

theorem unitPosts_eq (e : AccelEngine) (u : UnitId) : e.unitPosts u =
    ((List.range (e.channels u)).filter (e.wants u)).map fun l => ⟨u,l,e.lanePost u l⟩ := by
  cases u with
  | reader id =>
    rw [unitPosts,readerPosts,CycReader.proposals]
    cases active : (e.readers id).active with
    | false => simp [wants,active]
    | true =>
      have all : e.wants (.reader id) =
          CycReader.issues (e.readers id).cfg (e.readers id).toState := by
        funext l
        rw [wants,active,Bool.true_and]
      rw [all,if_pos rfl,List.map_map]
      rfl
  | writer id =>
    rw [unitPosts,writerPosts,CycWriter.proposals]
    cases idle : (e.writers id).done || (e.writers id).fifoOcc ≤ 0 with
    | true =>
      have none : e.wants (.writer id) = fun _ => false := by
        funext l
        rw [wants,idle,Bool.not_true,Bool.false_and]
      simp [none]
    | false =>
      have all : e.wants (.writer id) = fun l => !(e.writers id).laneDone l := by
        funext l
        rw [wants,idle,Bool.not_false,Bool.true_and]
      rw [all,if_neg Bool.false_ne_true,List.map_map]
      rfl
  | dtBC => rfl

theorem unitPosts_length (e : AccelEngine) (u : UnitId) : (e.unitPosts u).length ≤ e.channels u := by
  rw [unitPosts_eq,List.length_map]
  simpa using List.length_filter_le (e.wants u) (List.range (e.channels u))

theorem unitPosts_unit {e : AccelEngine} {u : UnitId} {r : Request} (posted : r ∈ e.unitPosts u) :
    r.unit = u := by
  rw [unitPosts_eq] at posted
  obtain ⟨l,_,rfl⟩ := List.mem_map.mp posted
  rfl

/-- The flag that lane `l` of unit `u` reads, if it has posted. -/
def flag (e : AccelEngine) (g : List Bool) (base : Nat) (u : UnitId) (l : Nat) : Bool :=
  e.wants u l && g.getD (base + ((List.range l).filter (e.wants u)).length) false

/-! ### The dt_BC reader -/

/-- Of the lanes below `n`, those that are granted move on at once. -/
def grantAll7 (e : AccelEngine) (n : Nat) (answers : Nat → Bool) : AccelEngine :=
  { e with su := { e.su with
    issued := fun l => if decide (l < n) && answers l then e.su.issued l + 1 else e.su.issued l
    pend := fun l => if decide (l < n) && answers l then 1 else e.su.pend l } }

theorem grantAll7_succ (e : AccelEngine) (n : Nat) (answers : Nat → Bool) :
    e.grantAll7 (n + 1) answers =
      if answers n then (e.grantAll7 n answers).grant7 n else e.grantAll7 n answers := by
  have same (l : Nat) : (decide (l < n + 1) && answers l) =
      if l = n then answers n else decide (l < n) && answers l := by
    by_cases here : l = n
    · simp [here]
    · rw [if_neg here,show decide (l < n + 1) = decide (l < n) from decide_eq_decide.mpr (by omega)]
  cases won : answers n with
  | false =>
    simp only [grantAll7,same,won,Bool.false_eq_true,↓reduceIte]
    congr 2
    · funext l
      by_cases here : l = n <;> simp [here]
    · funext l
      by_cases here : l = n <;> simp [here]
  | true =>
    simp only [grantAll7,grant7,same,won,↓reduceIte]
    congr 2
    · funext l
      by_cases here : l = n <;> simp [here]
    · funext l
      by_cases here : l = n <;> simp [here]

theorem foldl_commitLane7 (g : List Bool) (x : Readback) (n : Nat) :
    (List.range n).foldl (commitLane7 g) x =
      ⟨x.engine.grantAll7 n (x.engine.flag g x.consulted.length .dtBC),
        x.consulted ++ ((List.range n).filter x.engine.wants7).map fun l => (.dtBC,l)⟩ := by
  induction n with
  | zero => simp [grantAll7]
  | succ n ih =>
    have unread : (x.engine.grantAll7 n (x.engine.flag g x.consulted.length .dtBC)).wants7 n =
        x.engine.wants7 n := by simp [wants7,grantAll7]
    rw [List.range_succ,List.foldl_append,ih,List.foldl_cons,List.foldl_nil,commitLane7,unread,
      grantAll7_succ,List.filter_append,List.filter_singleton]
    cases want : x.engine.wants7 n with
    | false => simp [flag,wants,want]
    | true =>
      have asked : x.engine.flag g x.consulted.length .dtBC n =
          g.getD (x.consulted.length + ((List.range n).filter x.engine.wants7).length) false := by
        rw [flag,wants,want,Bool.true_and]
        rfl
      simp [asked]

/-! ### A single commit -/

/-- A unit that a commit does not name keeps what its posts and its counts come from. -/
def Same (e e' : AccelEngine) : UnitId → Prop
  | .reader id => e'.readers id = e.readers id
  | .writer id => e'.writers id = e.writers id
  | .dtBC => e'.su.issued = e.su.issued ∧ e'.su.landed = e.su.landed ∧ e'.su.agu7 = e.su.agu7 ∧
      e'.su.consumed7 = e.su.consumed7

/-- Lane `l` of unit `u` has a request whose flag is set; the flags start at `base`. -/
def Hit (g : List Bool) (base : Nat) (requests : List Request) (u : UnitId) (l : Nat) : Prop :=
  ∃ k r, requests[k]? = some r ∧ r.key = (u,l) ∧ g.getD (base + k) false = true

/-- A lane moves on by one group if it is hit, and not otherwise. -/
def MovesBy (e e' : AccelEngine) (hit : UnitId → Nat → Prop) (u : UnitId) (l : Nat) : Prop :=
  hit u l ∧ e'.laneCount u l = e.laneCount u l + 1 ∨ ¬ hit u l ∧ e'.laneCount u l = e.laneCount u l

/-- `y` is `x` after the commits of the units `us`: they consult the lanes that post, in the order
of the posts, and move on by their own flags. -/
structure Answered (g : List Bool) (us : List UnitId) (x y : Readback) : Prop where
  consulted : y.consulted = x.consulted ++ (us.flatMap x.engine.unitPosts).map Request.key
  shape : y.engine.shape = x.engine.shape
  channels : ∀ u, y.engine.channels u = x.engine.channels u
  done : ∀ id, (y.engine.readers id).done = (x.engine.readers id).done
  pops : y.engine.simdRPops = x.engine.simdRPops
  frame : ∀ u ∉ us, Same x.engine y.engine u
  moved : ∀ u ∈ us, ∀ l < x.engine.channels u, MovesBy x.engine y.engine
    (Hit g x.consulted.length (us.flatMap x.engine.unitPosts)) u l

theorem Same.wants {e e' : AccelEngine} {u : UnitId} (same : Same e e' u) (shape : e'.shape = e.shape) :
    e'.wants u = e.wants u := by
  funext l
  cases u with
  | reader id => simp only [AccelEngine.wants,show e'.readers id = e.readers id from same]
  | writer id => simp only [AccelEngine.wants,show e'.writers id = e.writers id from same]
  | dtBC =>
    obtain ⟨issued,_,agu,consumed⟩ := same
    simp only [AccelEngine.wants,wants7,issued,agu,consumed,shape]

theorem Same.unitPosts {e e' : AccelEngine} {u : UnitId} (same : Same e e' u)
    (shape : e'.shape = e.shape) : e'.unitPosts u = e.unitPosts u := by
  cases u with
  | reader id =>
    simp only [AccelEngine.unitPosts,readerPosts,show e'.readers id = e.readers id from same]
  | writer id =>
    simp only [AccelEngine.unitPosts,writerPosts,show e'.writers id = e.writers id from same]
  | dtBC =>
    have wanted : e'.wants7 = e.wants7 := same.wants shape
    obtain ⟨issued,landed,agu,consumed⟩ := same
    simp only [AccelEngine.unitPosts,dtBCPosts,wanted,issued,landed,consumed,shape]

theorem Same.laneCount {e e' : AccelEngine} {u : UnitId} (same : Same e e' u) :
    e'.laneCount u = e.laneCount u := by
  funext l
  cases u with
  | reader id => simp only [AccelEngine.laneCount,show e'.readers id = e.readers id from same]
  | writer id => simp only [AccelEngine.laneCount,show e'.writers id = e.writers id from same]
  | dtBC => simp only [AccelEngine.laneCount,same.1]

theorem filter_range_getElem? {n l k : Nat} {p : Nat → Bool} (inside : l < n) (wanted : p l = true) :
    ((List.range n).filter p)[k]? = some l ↔ k = ((List.range l).filter p).length := by
  obtain ⟨m,rfl⟩ := Nat.exists_eq_add_of_lt inside
  have split : List.range (l + m + 1) = List.range l ++ l :: (List.range' (l + 1) m) := by
    rw [Nat.add_assoc,List.range_add,List.range_succ_eq_map,List.range'_eq_map_range]
    simp [Nat.add_comm,Nat.add_left_comm]
  have nodup : ((List.range (l + m + 1)).filter p).Nodup := List.nodup_range.filter p
  have here : ((List.range (l + m + 1)).filter p)[((List.range l).filter p).length]? = some l := by
    rw [split,List.filter_append,List.filter_cons,if_pos wanted,List.getElem?_append_right (Nat.le_refl _),
      Nat.sub_self]
    rfl
  constructor
  · intro found
    obtain ⟨there,same⟩ := List.getElem?_eq_some_iff.mp found
    obtain ⟨first,same'⟩ := List.getElem?_eq_some_iff.mp here
    exact (nodup.getElem_inj_iff).mp (same.trans same'.symm)
  · rintro rfl
    exact here

/-- The flag of a lane is that of its own request. -/
theorem hit_iff_flag (e : AccelEngine) (g : List Bool) (base : Nat) {u : UnitId} {l : Nat}
    (lane : l < e.channels u) : Hit g base (e.unitPosts u) u l ↔ e.flag g base u l = true := by
  rw [flag,Bool.and_eq_true,Hit,unitPosts_eq]
  constructor
  · rintro ⟨k,r,found,key,won⟩
    rw [List.getElem?_map] at found
    obtain ⟨m,atIndex,rfl⟩ := Option.map_eq_some_iff.mp found
    obtain rfl : m = l := (Prod.mk.inj key).2
    have wanted : e.wants u m = true := (List.mem_filter.mp (List.mem_of_getElem? atIndex)).2
    rw [(filter_range_getElem? lane wanted).mp atIndex] at won
    exact ⟨wanted,won⟩
  · rintro ⟨wanted,won⟩
    refine ⟨_,⟨u,l,e.lanePost u l⟩,?_,rfl,won⟩
    rw [List.getElem?_map,(filter_range_getElem? lane wanted).mpr rfl]
    rfl

/-- A lane whose flag says whether it moves on. -/
theorem movesBy_of_flag {e e' : AccelEngine} {g : List Bool} {base : Nat} {u : UnitId} {l : Nat}
    (lane : l < e.channels u)
    (count : e'.laneCount u l = e.laneCount u l + (e.flag g base u l).toNat) :
    MovesBy e e' (Hit g base (e.unitPosts u)) u l := by
  rw [MovesBy,hit_iff_flag e g base lane,count]
  cases e.flag g base u l with
  | true => exact .inl ⟨rfl,rfl⟩
  | false => exact .inr ⟨Bool.false_ne_true,Int.add_zero _⟩

theorem readerPosts_key (e : AccelEngine) (id : ReaderId) :
    (e.readerPosts id).map Request.key = ((e.readers id).proposals.map Prod.fst).map fun l => (.reader id,l) := by
  rw [readerPosts,List.map_map,List.map_map]
  rfl

theorem writerPosts_key (e : AccelEngine) (id : WriterId) :
    (e.writerPosts id).map Request.key = ((e.writers id).proposals.map Prod.fst).map fun l => (.writer id,l) := by
  rw [writerPosts,List.map_map,List.map_map]
  rfl

theorem flag_reader (e : AccelEngine) (g : List Bool) (base : Nat) (id : ReaderId) (l : Nat) :
    e.flag g base (.reader id) l = ((e.readers id).active && (e.readers id).answer g base l) := by
  rw [flag,CycReader.answer]
  cases active : (e.readers id).active with
  | false => rw [wants,active,Bool.false_and,Bool.false_and,Bool.false_and]
  | true =>
    have all : e.wants (.reader id) = CycReader.issues (e.readers id).cfg (e.readers id).toState := by
      funext l
      rw [wants,active,Bool.true_and]
    rw [all,Bool.true_and]

theorem laneIssued_commit (r : CycReader) (g : List Bool) (base : Nat) {l : Nat}
    (lane : l < r.cfg.numChannel) : (r.commit g base).1.laneIssued l =
      r.laneIssued l + (r.active && r.answer g base l).toNat := by
  rw [CycReader.commit_eq]
  cases r.active with
  | false => exact (Int.add_zero _).symm
  | true =>
    simp only [↓reduceIte,CycReader.grantAll,lane,decide_true,Bool.true_and]
    cases r.answer g base l with
    | true => rfl
    | false => exact (Int.add_zero _).symm

theorem flag_writer (e : AccelEngine) (g : List Bool) (base : Nat) (id : WriterId) (l : Nat) :
    e.flag g base (.writer id) l =
      (!((e.writers id).done || (e.writers id).fifoOcc ≤ 0) && (e.writers id).answer g base l) := by
  rw [flag,CycWriter.answer]
  cases idle : (e.writers id).done || (e.writers id).fifoOcc ≤ 0 with
  | true => rw [wants,idle,Bool.not_true,Bool.false_and,Bool.false_and,Bool.false_and]
  | false =>
    have all : e.wants (.writer id) = fun l => !(e.writers id).laneDone l := by
      funext l
      rw [wants,idle,Bool.not_false,Bool.true_and]
    rw [all,Bool.not_false,Bool.true_and]

/-- A lane that completes the group stands as it stood when it was done. -/
theorem written_commit (w : CycWriter) (g : List Bool) (base : Nat) {l : Nat}
    (lane : l < w.cfg.numChannel) :
    (w.commitFlags g base).1.written + ((w.commitFlags g base).1.laneDone l).toNat =
      w.written + (w.laneDone l).toNat + (!(w.done || w.fifoOcc ≤ 0) && w.answer g base l).toNat := by
  have once : (w.laneDone l || w.answer g base l).toNat =
      (w.laneDone l).toNat + (w.answer g base l).toNat := by
    unfold CycWriter.answer
    cases w.laneDone l <;> simp
  rw [CycWriter.commitFlags_eq,CycWriter.commit]
  cases w.done || w.fifoOcc ≤ 0 with
  | true => exact (Int.add_zero _).symm
  | false =>
    simp only [Bool.false_eq_true,↓reduceIte,Bool.not_false,Bool.true_and]
    split
    · rename_i all
      have finished := List.all_eq_true.mp all l (List.mem_range.mpr lane)
      rw [decide_eq_true lane,Bool.true_and] at finished
      rw [finished] at once
      simp only [Bool.toNat_true,Bool.toNat_false] at once ⊢
      omega
    · simp only [lane,decide_true,Bool.true_and,once]
      omega

theorem answered_reader (g : List Bool) (x : Readback) (id : ReaderId) :
    Answered g [.reader id] x (commitReader g x id) := by
  have object : (commitReader g x id).engine.readers id =
      ((x.engine.readers id).commit g x.consulted.length).1 := by simp [commitReader,setReader]
  refine ⟨?_,rfl,fun u => ?_,fun id' => ?_,rfl,fun u other => ?_,fun u here l lane => ?_⟩
  · rw [List.flatMap_cons,List.flatMap_nil,List.append_nil,unitPosts,readerPosts_key,commitReader,
      CycReader.commit_eq]
  · cases u with
    | reader id' =>
      by_cases here : id' = id
      · subst here
        rw [channels,object,CycReader.commit_eq]
        simp only
        split <;> rfl
      · simp [channels,commitReader,setReader,here]
    | writer id' => rfl
    | dtBC => rfl
  · by_cases here : id' = id
    · subst here
      rw [object,CycReader.commit_eq]
      simp only
      split <;> rfl
    · simp [commitReader,setReader,here]
  · cases u with
    | reader id' => simp_all [Same,commitReader,setReader]
    | writer id' => rfl
    | dtBC => exact ⟨rfl,rfl,rfl,rfl⟩
  · obtain rfl := List.mem_singleton.mp here
    rw [List.flatMap_cons,List.flatMap_nil,List.append_nil]
    refine movesBy_of_flag lane ?_
    rw [laneCount,object,laneIssued_commit _ _ _ lane,flag_reader]
    rfl

theorem answered_writer (g : List Bool) (x : Readback) (id : WriterId) :
    Answered g [.writer id] x (commitWriter g x id) := by
  have object : (commitWriter g x id).engine.writers id =
      ((x.engine.writers id).commitFlags g x.consulted.length).1 := by simp [commitWriter,setWriter]
  refine ⟨?_,rfl,fun u => ?_,fun _ => rfl,rfl,fun u other => ?_,fun u here l lane => ?_⟩
  · rw [List.flatMap_cons,List.flatMap_nil,List.append_nil,unitPosts,writerPosts_key,commitWriter,
      CycWriter.commitFlags_eq]
  · cases u with
    | writer id' =>
      by_cases here : id' = id
      · subst here
        rw [channels,object,CycWriter.commitFlags_eq]
        rfl
      · simp [channels,commitWriter,setWriter,here]
    | reader id' => rfl
    | dtBC => rfl
  · cases u with
    | writer id' => simp_all [Same,commitWriter,setWriter]
    | reader id' => rfl
    | dtBC => exact ⟨rfl,rfl,rfl,rfl⟩
  · obtain rfl := List.mem_singleton.mp here
    rw [List.flatMap_cons,List.flatMap_nil,List.append_nil]
    refine movesBy_of_flag lane ?_
    rw [laneCount,object,written_commit _ _ _ lane,flag_writer]
    rfl

theorem answered_dtBC (g : List Bool) (x : Readback) : Answered g [.dtBC] x (commitDtBC g x) := by
  have committed := foldl_commitLane7 g x 4
  rw [commitDtBC,committed]
  refine ⟨?_,rfl,fun u => ?_,fun _ => rfl,rfl,fun u other => ?_,fun u here l lane => ?_⟩
  · rw [List.flatMap_cons,List.flatMap_nil,List.append_nil,unitPosts,dtBCPosts,List.map_map]
    rfl
  · cases u <;> rfl
  · cases u with
    | reader id => rfl
    | writer id => rfl
    | dtBC => exact absurd (List.mem_singleton.mpr rfl) other
  · obtain rfl := List.mem_singleton.mp here
    rw [List.flatMap_cons,List.flatMap_nil,List.append_nil]
    refine movesBy_of_flag lane ?_
    have inside : l < 4 := lane
    simp only [laneCount,grantAll7,inside,decide_true,Bool.true_and]
    cases x.engine.flag g x.consulted.length .dtBC l with
    | true => rfl
    | false => exact (Int.add_zero _).symm

/-! ### A sequence of commits -/

theorem answered_none (g : List Bool) (x : Readback) : Answered g [] x x where
  consulted := by simp
  shape := rfl
  channels _ := rfl
  done _ := rfl
  pops := rfl
  frame u _ := by
    cases u with
    | reader id => rfl
    | writer id => rfl
    | dtBC => exact ⟨rfl,rfl,rfl,rfl⟩
  moved _ none := absurd none List.not_mem_nil

theorem Same.trans {e e' e'' : AccelEngine} {u : UnitId} (first : Same e e' u) (later : Same e' e'' u) :
    Same e e'' u := by
  cases u with
  | reader id => exact Eq.trans later first
  | writer id => exact Eq.trans later first
  | dtBC => exact ⟨later.1.trans first.1,later.2.1.trans first.2.1,later.2.2.1.trans first.2.2.1,
      later.2.2.2.trans first.2.2.2⟩

theorem hit_append_of_not_mem_right {g : List Bool} {base : Nat} {front back : List Request} {u : UnitId}
    {l : Nat} (other : ∀ r ∈ back, r.unit ≠ u) :
    Hit g base (front ++ back) u l ↔ Hit g base front u l := by
  constructor
  · rintro ⟨k,r,found,key,won⟩
    by_cases inside : k < front.length
    · exact ⟨k,r,by rwa [List.getElem?_append_left inside] at found,key,won⟩
    · rw [List.getElem?_append_right (Nat.le_of_not_lt inside)] at found
      exact absurd (congrArg Prod.fst key) (other r (List.mem_of_getElem? found))
  · rintro ⟨k,r,found,key,won⟩
    have inside : k < front.length := (List.getElem?_eq_some_iff.mp found).1
    exact ⟨k,r,by rwa [List.getElem?_append_left inside],key,won⟩

theorem hit_append_of_not_mem_left {g : List Bool} {base : Nat} {front back : List Request} {u : UnitId}
    {l : Nat} (other : ∀ r ∈ front, r.unit ≠ u) :
    Hit g base (front ++ back) u l ↔ Hit g (base + front.length) back u l := by
  constructor
  · rintro ⟨k,r,found,key,won⟩
    by_cases inside : k < front.length
    · rw [List.getElem?_append_left inside] at found
      exact absurd (congrArg Prod.fst key) (other r (List.mem_of_getElem? found))
    · rw [List.getElem?_append_right (Nat.le_of_not_lt inside)] at found
      refine ⟨k - front.length,r,found,key,?_⟩
      rwa [show base + front.length + (k - front.length) = base + k by omega]
  · rintro ⟨k,r,found,key,won⟩
    refine ⟨front.length + k,r,?_,key,by rwa [← Nat.add_assoc]⟩
    rw [List.getElem?_append_right (Nat.le_add_right _ _)]
    rwa [Nat.add_sub_cancel_left]

theorem flatMap_unitPosts_unit {e : AccelEngine} {us : List UnitId} {u : UnitId} (outside : u ∉ us) :
    ∀ r ∈ us.flatMap e.unitPosts, r.unit ≠ u := by
  rintro r member rfl
  obtain ⟨v,inside,posted⟩ := List.mem_flatMap.mp member
  rw [unitPosts_unit posted] at outside
  exact outside inside

theorem Answered.append {g : List Bool} {us vs : List UnitId} {x y z : Readback}
    (first : Answered g us x y) (later : Answered g vs y z) (apart : us.Disjoint vs) :
    Answered g (us ++ vs) x z := by
  have posts : vs.flatMap y.engine.unitPosts = vs.flatMap x.engine.unitPosts := by
    refine List.flatMap_congr fun v member => ?_
    exact (first.frame v fun mine => apart mine member).unitPosts first.shape
  have whole : (us ++ vs).flatMap x.engine.unitPosts =
      us.flatMap x.engine.unitPosts ++ vs.flatMap x.engine.unitPosts := List.flatMap_append
  have length : y.consulted.length = x.consulted.length + (us.flatMap x.engine.unitPosts).length := by
    rw [first.consulted,List.length_append,List.length_map]
  refine ⟨?_,later.shape.trans first.shape,fun u => (later.channels u).trans (first.channels u),
    fun id => (later.done id).trans (first.done id),later.pops.trans first.pops,?_,?_⟩
  · rw [later.consulted,first.consulted,posts,whole,List.map_append,List.append_assoc]
  · intro u outside
    rw [List.mem_append,not_or] at outside
    exact (first.frame u outside.1).trans (later.frame u outside.2)
  · intro u member l lane
    rw [whole]
    by_cases mine : u ∈ us
    · rw [MovesBy,hit_append_of_not_mem_right (flatMap_unitPosts_unit fun theirs => apart mine theirs),
        (later.frame u fun theirs => apart mine theirs).laneCount]
      exact first.moved u mine l lane
    · have theirs : u ∈ vs := (List.mem_append.mp member).resolve_left mine
      have moved := later.moved u theirs l (by rwa [first.channels])
      rw [MovesBy,length,posts,(first.frame u mine).laneCount] at moved
      rwa [MovesBy,hit_append_of_not_mem_left (flatMap_unitPosts_unit mine)]

/-- Marks beside the lanes do not matter. -/
theorem Answered.marked {g : List Bool} {us : List UnitId} {x y z : Readback} (answered : Answered g us x y)
    (consulted : z.consulted = y.consulted) (shape : z.engine.shape = y.engine.shape)
    (readers : z.engine.readers = y.engine.readers) (writers : z.engine.writers = y.engine.writers)
    (issued : z.engine.su.issued = y.engine.su.issued) (landed : z.engine.su.landed = y.engine.su.landed)
    (agu : z.engine.su.agu7 = y.engine.su.agu7) (taken : z.engine.su.consumed7 = y.engine.su.consumed7)
    (pops : z.engine.simdRPops = y.engine.simdRPops) : Answered g us x z := by
  have same (u : UnitId) : Same y.engine z.engine u := by
    cases u with
    | reader id => exact congrFun readers id
    | writer id => exact congrFun writers id
    | dtBC => exact ⟨issued,landed,agu,taken⟩
  have channels (u : UnitId) : z.engine.channels u = y.engine.channels u := by
    cases u with
    | reader id => simp only [AccelEngine.channels,readers]
    | writer id => simp only [AccelEngine.channels,writers]
    | dtBC => rfl
  refine ⟨consulted.trans answered.consulted,shape.trans answered.shape,
    fun u => (channels u).trans (answered.channels u),
    fun id => (congrArg CycReader.done (congrFun readers id)).trans (answered.done id),
    pops.trans answered.pops,fun u outside => (answered.frame u outside).trans (same u),fun u inside l lane => ?_⟩
  rw [MovesBy,(same u).laneCount]
  exact answered.moved u inside l lane

/-- The next commits, of units that depend on the configuration. -/
theorem Answered.next {g : List Bool} {us : List UnitId} {x y z : Readback} (first : Answered g us x y)
    (vs : Shape → List UnitId) (later : Answered g (vs y.engine.shape) y z)
    (once : (us ++ vs x.engine.shape).Nodup) : Answered g (us ++ vs x.engine.shape) x z := by
  rw [first.shape] at later
  exact first.append later (List.disjoint_of_nodup_append once)

theorem answered_ite (g : List Bool) (c : Bool) {us : List UnitId} {x y : Readback}
    (answered : Answered g us x y) : Answered g (if c then us else []) x (if c then y else x) := by
  cases c with
  | true => exact answered
  | false => exact answered_none g x

theorem answered_foldl (g : List Bool) {unit : Nat → UnitId} {commit : Readback → Nat → Readback}
    {c : AccelEngine → Nat → Bool} (single : ∀ x p, Answered g [unit p] x (commit x p))
    (distinct : unit.Injective)
    (stays : ∀ e e' p, Same e e' (unit p) → e'.shape = e.shape → e'.simdRPops = e.simdRPops →
      c e' p = c e p)
    (x : Readback) (ps : List Nat) (once : ps.Nodup) :
    Answered g ((ps.filter (c x.engine)).map unit) x
      (ps.foldl (fun x p => if c x.engine p then commit x p else x) x) := by
  induction ps using List.reverseRecOn with
  | nil => exact answered_none g x
  | append_singleton ps p ih =>
    obtain ⟨front,_,apart⟩ := List.nodup_append.mp once
    have answered := ih front
    have new : p ∉ ps := fun member => apart p member p (List.mem_singleton.mpr rfl) rfl
    have outside : unit p ∉ (ps.filter (c x.engine)).map unit := by
      intro member
      obtain ⟨q,inside,same⟩ := List.mem_map.mp member
      rw [distinct same] at inside
      exact new (List.mem_filter.mp inside).1
    have same := stays _ _ p (answered.frame _ outside) answered.shape answered.pops
    rw [List.foldl_append,List.foldl_cons,List.foldl_nil,List.filter_append,List.map_append,
      List.filter_singleton,same]
    cases wanted : c x.engine p with
    | false =>
      rw [if_neg Bool.false_ne_true,cond_false,List.map_nil,List.append_nil]
      exact answered
    | true =>
      rw [if_pos rfl,cond_true,List.map_singleton]
      exact answered.append (single _ p) (List.disjoint_singleton.mpr outside)

end Snax.AccelEngine
