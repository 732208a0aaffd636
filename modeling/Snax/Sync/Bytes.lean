import Mathlib.Algebra.Ring.Nat
import Mathlib.Data.Nat.Basic
import Mathlib.Data.List.Basic

/-! Little-endian bytes of a number, and a memory of bytes with a wrapping address: what is loaded
from where something was stored. -/
namespace Bytes

abbrev Byte := BitVec 8

/-! ### Numbers -/

/-- The `n` low bytes, the lowest one first. -/
def split : Nat → Nat → List Byte
  | 0, _ => []
  | n + 1, v => BitVec.ofNat 8 v :: split n (v / 256)

/-- The number of which these are the bytes. -/
def combine : List Byte → Nat
  | [] => 0
  | b :: bs => b.toNat + 256 * combine bs

@[simp] theorem length_split (n v : Nat) : (split n v).length = n := by
  induction n generalizing v with
  | zero => rfl
  | succ n ih => simp [split,ih]

theorem combine_split (n v : Nat) : combine (split n v) = v % 256 ^ n := by
  induction n generalizing v with
  | zero => simp [split,combine,Nat.mod_one]
  | succ n ih =>
    have byte : (BitVec.ofNat 8 v).toNat = v % 256 := BitVec.toNat_ofNat v 8
    rw [split,combine,ih,byte,Nat.pow_succ',Nat.mod_mul]

theorem combine_lt (bs : List Byte) : combine bs < 256 ^ bs.length := by
  induction bs with
  | nil => simp [combine]
  | cons b bs ih =>
    have byte := b.isLt
    rw [combine,List.length_cons,Nat.pow_succ]
    omega

theorem split_combine (bs : List Byte) : split bs.length (combine bs) = bs := by
  induction bs with
  | nil => rfl
  | cons b bs ih =>
    have byte := b.isLt
    rw [List.length_cons,split,combine]
    congr 1
    · apply BitVec.eq_of_toNat_eq
      rw [BitVec.toNat_ofNat]
      omega
    · rw [Nat.add_mul_div_left _ _ (by decide),Nat.div_eq_of_lt byte,Nat.zero_add,ih]

theorem combine_inj {bs bs' : List Byte} (same : bs.length = bs'.length)
    (equal : combine bs = combine bs') : bs = bs' := by
  rw [← split_combine bs,← split_combine bs',same,equal]

theorem split_mod (n v : Nat) : split n (v % 256 ^ n) = split n v :=
  combine_inj (by simp) (by simp only [combine_split,Nat.mod_mod])

theorem split_getElem? (n v k : Nat) :
    (split n v)[k]? = if k < n then some (BitVec.ofNat 8 (v / 256 ^ k)) else none := by
  induction n generalizing v k with
  | zero => simp [split]
  | succ n ih =>
    cases k with
    | zero => simp [split]
    | succ k =>
      rw [split,List.getElem?_cons_succ,ih,Nat.div_div_eq_div_mul,← Nat.pow_succ']
      simp only [Nat.add_lt_add_iff_right]

/-! ### Memories -/

/-- A byte for each address of `w` bits. -/
abbrev Memory (w : Nat) := BitVec w → Byte

variable {w : Nat}

def load (m : Memory w) (a : BitVec w) (n : Nat) : List Byte :=
  (List.range n).map fun i => m (a + BitVec.ofNat w i)

/-- The bytes go to the addresses from `a` on. -/
def store (m : Memory w) (a : BitVec w) (bs : List Byte) : Memory w :=
  fun x => bs.getD (x - a).toNat (m x)

@[simp] theorem length_load (m : Memory w) (a : BitVec w) (n : Nat) : (load m a n).length = n := by
  simp [load]

theorem load_getElem? (m : Memory w) (a : BitVec w) {n i : Nat} (inside : i < n) :
    (load m a n)[i]? = some (m (a + BitVec.ofNat w i)) := by
  simp [load,inside]

/-- The distance from the start of the `k`-th address. -/
theorem sub_start (a : BitVec w) {k : Nat} (inside : k < 2 ^ w) :
    (a + BitVec.ofNat w k - a).toNat = k := by
  rw [BitVec.add_comm,BitVec.add_sub_cancel,BitVec.toNat_ofNat,Nat.mod_eq_of_lt inside]

theorem start_add (a x : BitVec w) : a + BitVec.ofNat w (x - a).toNat = x := by
  rw [BitVec.ofNat_toNat,BitVec.setWidth_eq,BitVec.add_comm,BitVec.sub_add_cancel]

theorem store_inside (m : Memory w) (a : BitVec w) {bs : List Byte} {k : Nat} (inside : k < 2 ^ w) :
    store m a bs (a + BitVec.ofNat w k) = bs.getD k (m (a + BitVec.ofNat w k)) := by
  rw [store,sub_start a inside]

theorem store_outside (m : Memory w) {a x : BitVec w} {bs : List Byte}
    (far : bs.length ≤ (x - a).toNat) : store m a bs x = m x := by
  rw [store,List.getD_eq_getElem?_getD,List.getElem?_eq_none far,Option.getD_none]

theorem load_congr {m m' : Memory w} {a : BitVec w} {n : Nat}
    (same : ∀ i < n, m (a + BitVec.ofNat w i) = m' (a + BitVec.ofNat w i)) : load m a n = load m' a n :=
  List.map_congr_left fun i inside => same i (List.mem_range.mp inside)

theorem load_store (m : Memory w) (a : BitVec w) {bs : List Byte} (fits : bs.length ≤ 2 ^ w) :
    load (store m a bs) a bs.length = bs := by
  refine List.ext_getElem? fun i => ?_
  by_cases inside : i < bs.length
  · rw [load_getElem? _ _ inside,store_inside m a (Nat.lt_of_lt_of_le inside fits),List.getD_eq_getElem?_getD,
      List.getElem?_eq_getElem inside,Option.getD_some]
  · rw [List.getElem?_eq_none (by simpa using inside),List.getElem?_eq_none (Nat.le_of_not_lt inside)]

theorem store_byte (m : Memory w) (a : BitVec w) (b : Byte) (x : BitVec w) :
    store m a [b] x = if x = a then b else m x := by
  by_cases same : x = a
  · subst same
    simp [store]
  · have far : (x - a).toNat ≠ 0 := by
      intro none
      have met := start_add a x
      rw [none] at met
      exact same (by simpa using met.symm)
    rw [if_neg same,store_outside m (by simp only [List.length_singleton]; omega)]

theorem load_add (m : Memory w) (a : BitVec w) (k n : Nat) :
    load m a (k + n) = load m a k ++ load m (a + BitVec.ofNat w k) n := by
  rw [load,load,load,List.range_add,List.map_append,List.map_map]
  congr 1
  refine List.map_congr_left fun i _ => ?_
  rw [Function.comp_apply,BitVec.ofNat_add,BitVec.add_assoc]

/-- How far an address is from a later start, where it does not lie in between. -/
theorem sub_add_toNat {a x : BitVec w} {k : Nat} (beyond : k ≤ (x - a).toNat) :
    (x - (a + BitVec.ofNat w k)).toNat = (x - a).toNat - k := by
  have below := (x - a).isLt
  have small : k % 2 ^ w = k := Nat.mod_eq_of_lt (by omega)
  have turn : 2 ^ w - k + (x - a).toNat = ((x - a).toNat - k) + 2 ^ w := by omega
  rw [← BitVec.sub_sub,BitVec.toNat_sub,BitVec.toNat_ofNat,small,turn,Nat.add_mod_right,
    Nat.mod_eq_of_lt (by omega)]

/-- Between the two starts. -/
theorem sub_add_toNat_of_lt {a x : BitVec w} {k : Nat} (within : (x - a).toNat < k) (fits : k < 2 ^ w) :
    (x - (a + BitVec.ofNat w k)).toNat = (x - a).toNat + 2 ^ w - k := by
  rw [← BitVec.sub_sub,BitVec.toNat_sub,BitVec.toNat_ofNat,Nat.mod_eq_of_lt fits,
    Nat.mod_eq_of_lt (by omega)]
  omega

theorem store_append (m : Memory w) (a : BitVec w) {bs bs' : List Byte}
    (fits : bs.length + bs'.length ≤ 2 ^ w) :
    store (store m a bs) (a + BitVec.ofNat w bs.length) bs' = store m a (bs ++ bs') := by
  funext x
  have whole : store m a (bs ++ bs') x = (bs ++ bs').getD (x - a).toNat (m x) := rfl
  rw [whole,List.getD_eq_getElem?_getD]
  rcases Nat.lt_or_ge (x - a).toNat bs.length with first | second
  · rw [List.getElem?_append_left first,← List.getD_eq_getElem?_getD]
    rcases Nat.lt_or_eq_of_le (Nat.le_of_add_right_le fits) with short | full
    · have far := sub_add_toNat_of_lt first short
      exact store_outside _ (by omega)
    · exact store_outside _ (by omega)
  · rw [List.getElem?_append_right second,← List.getD_eq_getElem?_getD,store,
      sub_add_toNat second,store_outside m second]

end Bytes
