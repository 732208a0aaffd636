/-! Replay: the words of a stream are delivered in order, each as often as its tag says,
one copy at a time. The ledger relates tags, finished words and deliveries; what is owed
is read off the tags and the number of deliveries alone. -/
namespace Sync.Replay

variable {α : Type}

/-- The deliveries of words under their tags. -/
def replayed : List Nat → List α → List α
  | tag :: tags, word :: words => List.replicate tag word ++ replayed tags words
  | _, _ => []

/-- The copies still owed of each unfinished word after `n` deliveries. -/
def owed : List Nat → Nat → List Nat
  | [], _ => []
  | tag :: tags, n => if n < tag then (tag - n) :: tags else owed tags (n - tag)

theorem replayed_nil (tags : List Nat) : replayed tags ([] : List α) = [] := by
  cases tags <;> rfl

theorem replayed_append {tags : List Nat} {words : List α} (room : words.length ≤ tags.length)
    (more : List Nat) : replayed (tags ++ more) words = replayed tags words := by
  induction words generalizing tags with
  | nil => simp [replayed_nil]
  | cons word words ih =>
    cases tags with
    | nil => simp at room
    | cons tag tags =>
      simp only [List.cons_append,replayed]
      rw [ih (by simpa using room)]

theorem replayed_finish {tags rest : List Nat} {words : List α} {tag : Nat}
    (due : tags.drop words.length = tag :: rest) (word : α) :
    replayed tags (words ++ [word]) = replayed tags words ++ List.replicate tag word := by
  induction words generalizing tags with
  | nil =>
    simp only [List.length_nil,List.drop_zero] at due
    simp [due,replayed,replayed_nil]
  | cons w words ih =>
    cases tags with
    | nil => simp at due
    | cons t tags =>
      simp only [List.cons_append,replayed]
      rw [ih (by simpa using due),List.append_assoc]

/-- Under one tag for all, every word is repeated that often. -/
theorem replayed_replicate {words : List α} {n : Nat} (room : words.length ≤ n) (times : Nat) :
    replayed (List.replicate n times) words = words.flatMap (List.replicate times) := by
  induction words generalizing n with
  | nil => simp [replayed_nil]
  | cons word words ih =>
    cases n with
    | zero => simp at room
    | succ n =>
      simp only [List.replicate_succ,replayed,List.flatMap_cons]
      rw [ih (by simpa using room)]

/-- Counting a loop of `times` iterations around each word is repeating the word. -/
theorem flatMap_replicate_range (f : Nat → α) {times : Nat} (positive : 0 < times) (n : Nat) :
    ((List.range n).map f).flatMap (List.replicate times) =
      (List.range (times * n)).map fun k => f (k / times) := by
  induction n with
  | zero => simp
  | succ n ih =>
    rw [List.range_succ,List.map_append,List.flatMap_append,ih,Nat.mul_succ,List.range_add,
      List.map_append]
    congr 1
    simp only [List.map_cons,List.map_nil,List.flatMap_cons,List.flatMap_nil,List.append_nil]
    symm
    rw [List.eq_replicate_iff]
    refine ⟨by simp,fun x member => ?_⟩
    simp only [List.mem_map,List.mem_range] at member
    obtain ⟨_,⟨j,inside,rfl⟩,rfl⟩ := member
    rw [Nat.mul_add_div positive,Nat.div_eq_of_lt inside,Nat.add_zero]

theorem owed_after {tags : List Nat} {words : List α} (room : words.length ≤ tags.length) (n : Nat) :
    owed tags ((replayed tags words).length + n) = owed (tags.drop words.length) n := by
  induction words generalizing tags with
  | nil => simp [replayed_nil]
  | cons word words ih =>
    cases tags with
    | nil => simp at room
    | cons tag tags =>
      simp only [replayed,List.length_append,List.length_replicate,owed,List.length_cons,
        List.drop_succ_cons]
      rw [if_neg (by omega),← ih (by simpa using room)]
      congr 1
      omega

/-- `part` holds the copies already delivered of the word in front. -/
structure Ledger (tags : List Nat) (words : List α) (head : Option α)
    (part delivered : List α) : Prop where
  log : delivered = replayed tags words ++ part
  copies : ∀ x ∈ part, head = some x
  room : words.length ≤ tags.length
  drained : tags.drop words.length = [] → part = []
  unfinished : ∀ tag rest, tags.drop words.length = tag :: rest → part.length < tag

/-- A counter under the common count `times` is in step with what is owed. -/
def Paced (times counter : Nat) : List Nat → Prop
  | [] => counter = 0
  | left :: rest => left + counter = times ∧ ∀ r ∈ rest, r = times

/-- One delivery against what is owed. -/
def spend (fire : Bool) (due : List Nat) : List Nat :=
  if fire then
    match due with
    | left :: rest => if left = 1 then rest else (left - 1) :: rest
    | [] => []
  else due

variable {tags rest : List Nat} {words part delivered : List α} {head : Option α} {word : α}

theorem empty (head : Option α) : Ledger [] [] head [] [] := by
  constructor <;> simp [replayed]

namespace Ledger

theorem owed_eq (ledger : Ledger tags words head part delivered) :
    owed tags delivered.length = owed (tags.drop words.length) part.length := by
  rw [ledger.log,List.length_append,owed_after ledger.room]

/-- Every copy still owed belongs to a word that is not finished. -/
theorem owed_cons (ledger : Ledger tags words head part delivered) {left : Nat}
    (due : owed tags delivered.length = left :: rest) :
    tags.drop words.length = (left + part.length) :: rest ∧ 0 < left := by
  rw [ledger.owed_eq] at due
  cases front : tags.drop words.length with
  | nil => simp [front,owed] at due
  | cons tag later =>
    have below := ledger.unfinished tag later front
    simp only [front,owed,below,↓reduceIte,List.cons.injEq] at due
    obtain ⟨rfl,rfl⟩ := due
    refine ⟨by rw [Nat.sub_add_cancel (Nat.le_of_lt below)],by omega⟩

theorem owed_nil (ledger : Ledger tags words head part delivered)
    (due : owed tags delivered.length = []) : tags.length = words.length := by
  rw [ledger.owed_eq] at due
  cases front : tags.drop words.length with
  | nil => exact Nat.le_antisymm (List.drop_eq_nil_iff.mp front) ledger.room
  | cons tag later =>
    have below := ledger.unfinished tag later front
    simp [front,owed,below] at due

theorem owed_of_drop (ledger : Ledger tags words head part delivered) {left : Nat}
    (due : tags.drop words.length = (left + part.length) :: rest) (positive : 0 < left) :
    owed tags delivered.length = left :: rest := by
  rw [ledger.owed_eq,due]
  simp only [owed]
  rw [if_pos (by omega),Nat.add_sub_cancel]

theorem push (ledger : Ledger tags words head part delivered) {tag : Nat} (positive : 0 < tag) :
    Ledger (tags ++ [tag]) words head part delivered where
  log := by rw [replayed_append ledger.room,ledger.log]
  copies := ledger.copies
  room := by have := ledger.room; simp; omega
  drained := by
    rw [List.drop_append_of_le_length ledger.room]
    simp
  unfinished := by
    intro front later due
    rw [List.drop_append_of_le_length ledger.room] at due
    cases old : tags.drop words.length with
    | nil =>
      rw [old,List.nil_append,List.cons.injEq] at due
      rw [ledger.drained old,← due.1]
      exact positive
    | cons t ts =>
      rw [old,List.cons_append,List.cons.injEq] at due
      rw [← due.1]
      exact ledger.unfinished t ts old

theorem owed_push (ledger : Ledger tags words head part delivered) {tag : Nat}
    (positive : 0 < tag) :
    owed (tags ++ [tag]) delivered.length = owed tags delivered.length ++ [tag] := by
  rw [(ledger.push positive).owed_eq,ledger.owed_eq,List.drop_append_of_le_length ledger.room]
  cases front : tags.drop words.length with
  | nil => simp [owed,ledger.drained front,positive]
  | cons t ts => simp [owed,ledger.unfinished t ts front]

/-- Another copy of the front word, of which more remain. -/
theorem copy (ledger : Ledger tags words (some word) part delivered) {left : Nat}
    (due : owed tags delivered.length = left :: rest) (more : 1 < left) :
    Ledger tags words (some word) (part ++ [word]) (delivered ++ [word]) where
  log := by rw [ledger.log,List.append_assoc]
  copies := by
    intro x member
    rcases List.mem_append.mp member with old | new
    · exact ledger.copies x old
    · rw [List.mem_singleton.mp new]
  room := ledger.room
  drained := by
    intro none
    rw [(ledger.owed_cons due).1] at none
    contradiction
  unfinished := by
    intro tag later front
    rw [(ledger.owed_cons due).1,List.cons.injEq] at front
    simp only [List.length_append,List.length_singleton]
    omega

theorem owed_copy (ledger : Ledger tags words (some word) part delivered) {left : Nat}
    (due : owed tags delivered.length = left :: rest) (more : 1 < left) :
    owed tags (delivered ++ [word]).length = (left - 1) :: rest := by
  refine (ledger.copy due more).owed_of_drop ?_ (by omega)
  rw [(ledger.owed_cons due).1,List.length_append,List.length_singleton]
  congr 1
  omega

/-- The last copy of the front word: the word is finished, any word may come next. -/
theorem finish (ledger : Ledger tags words (some word) part delivered)
    (due : owed tags delivered.length = 1 :: rest) (positive : ∀ r ∈ rest, 0 < r) (next : Option α) :
    Ledger tags (words ++ [word]) next [] (delivered ++ [word]) := by
  obtain ⟨front,_⟩ := ledger.owed_cons due
  have same : part ++ [word] = List.replicate (1 + part.length) word := by
    rw [List.eq_replicate_iff]
    refine ⟨by simp [Nat.add_comm],fun x member => ?_⟩
    rcases List.mem_append.mp member with old | new
    · exact (Option.some.inj (ledger.copies x old)).symm
    · exact List.mem_singleton.mp new
  have length := congrArg List.length front
  simp only [List.length_drop,List.length_cons] at length
  have later : tags.drop (words ++ [word]).length = rest := by
    rw [List.length_append,List.length_singleton,← List.drop_drop,front]
    rfl
  refine ⟨?_,by simp,?_,fun _ => rfl,?_⟩
  · rw [replayed_finish front,ledger.log,List.append_assoc,same,List.append_nil]
  · rw [List.length_append,List.length_singleton]
    omega
  · intro tag more due'
    rw [later] at due'
    exact positive tag (by simp [due'])

theorem owed_finish (ledger : Ledger tags words (some word) part delivered)
    (due : owed tags delivered.length = 1 :: rest) (positive : ∀ r ∈ rest, 0 < r) :
    owed tags (delivered ++ [word]).length = rest := by
  have finished := ledger.finish due positive none
  have length := congrArg List.length (ledger.owed_cons due).1
  rw [finished.owed_eq,List.length_append,List.length_singleton,← List.drop_drop,
    (ledger.owed_cons due).1]
  cases rest with
  | nil => rfl
  | cons r rs => simp [owed,positive r (by simp)]

/-- One delivery: the front word is finished exactly when one copy was owed. -/
theorem deliver (ledger : Ledger tags words (some word) part delivered) {left : Nat}
    (due : owed tags delivered.length = left :: rest) (positive : ∀ r ∈ rest, 0 < r)
    {done : Bool} (last : done = true ↔ left = 1) {next : Option α}
    (stays : done = false → next = some word) :
    (∃ part, Ledger tags (words ++ (if done then some word else none).toList) next part
      (delivered ++ [word])) ∧
    owed tags (delivered ++ [word]).length = if left = 1 then rest else (left - 1) :: rest := by
  cases done with
  | true =>
    obtain rfl := last.mp rfl
    exact ⟨⟨[],ledger.finish due positive next⟩,ledger.owed_finish due positive⟩
  | false =>
    have more : left ≠ 1 := fun one => by simpa using last.mpr one
    have positive := (ledger.owed_cons due).2
    rw [if_neg more,stays rfl]
    exact ⟨⟨_,by simpa using ledger.copy due (by omega)⟩,ledger.owed_copy due (by omega)⟩

/-- While no copy is out, the front word may still arrive. -/
theorem arrive (ledger : Ledger tags words head part delivered) {next : Option α}
    (same : ∀ x ∈ part, next = some x) : Ledger tags words next part delivered :=
  ⟨ledger.log,same,ledger.room,ledger.drained,ledger.unfinished⟩

/-- The copies already out are copies of the front word, fewer than its tag. -/
theorem part_within {n times : Nat} (ledger : Ledger (List.replicate n times) words head part delivered) :
    part <+: head.toList.flatMap (List.replicate times) := by
  cases part with
  | nil => exact List.nil_prefix
  | cons word rest =>
    have present := ledger.copies word (by simp)
    have same : word :: rest = List.replicate (word :: rest).length word := by
      rw [List.eq_replicate_iff]
      refine ⟨rfl,fun x member => ?_⟩
      exact (Option.some.inj (present.symm.trans (ledger.copies x member))).symm
    have short : (word :: rest).length ≤ times := by
      cases left : (List.replicate n times).drop words.length with
      | nil => simp [ledger.drained left]
      | cons tag later =>
        have below := ledger.unfinished tag later left
        have tagged : tag ∈ List.replicate n times := List.mem_of_mem_drop (by rw [left]; simp)
        rw [(List.mem_replicate.mp tagged).2] at below
        exact Nat.le_of_lt below
    rw [present,same]
    simp only [Option.toList_some,List.flatMap_cons,List.flatMap_nil,List.append_nil]
    refine ⟨List.replicate (times - (word :: rest).length) word,?_⟩
    rw [List.replicate_append_replicate,Nat.add_sub_cancel' short]

/-- Under one tag for all, a prefix of the words each repeated that often is delivered. -/
theorem delivered_within {n times : Nat}
    (ledger : Ledger (List.replicate n times) words head part delivered) :
    delivered <+: (words ++ head.toList).flatMap (List.replicate times) := by
  have room := ledger.room
  rw [List.length_replicate] at room
  rw [ledger.log,replayed_replicate room,List.flatMap_append]
  exact (List.prefix_append_right_inj _).mpr ledger.part_within

end Ledger

theorem paced_fresh {times : Nat} {due : List Nat} (whole : ∀ r ∈ due, r = times) :
    Paced times 0 due := by
  cases due with
  | nil => rfl
  | cons left rest => exact ⟨whole left (by simp),fun r member => whole r (by simp [member])⟩

/-- An undisturbed cycle keeps step: the counter wraps with the last copy. -/
theorem paced_spend {times counter : Nat} {due : List Nat} (fire : Bool)
    (paced : Paced times counter due) (stocked : fire = true → due ≠ [])
    (positive : ∀ left rest, due = left :: rest → 0 < left) :
    Paced times (if fire then (if counter + 1 < times then counter + 1 else 0) else counter)
      (spend fire due) := by
  cases fire with
  | false => exact paced
  | true =>
    cases due with
    | nil => exact absurd rfl (stocked rfl)
    | cons left rest =>
      obtain ⟨pace,later⟩ := paced
      have some_left := positive left rest rfl
      simp only [spend,↓reduceIte]
      by_cases last : left = 1
      · rw [if_pos last,if_neg (by omega)]
        exact paced_fresh later
      · rw [if_neg last,if_pos (by omega)]
        exact ⟨by omega,later⟩

theorem paced_push {times counter : Nat} {due : List Nat} (paced : Paced times counter due) :
    Paced times counter (due ++ [times]) := by
  cases due with
  | nil =>
    refine ⟨?_,by simp⟩
    rw [show counter = 0 from paced]
    rfl
  | cons left rest =>
    refine ⟨paced.1,fun r member => ?_⟩
    rcases List.mem_append.mp member with old | new
    · exact paced.2 r old
    · exact List.mem_singleton.mp new

end Sync.Replay
