import Snax.AccelEngine
import Snax.Sync.Strides

/-! `sim/src/world.cpp`: the port descriptors that `decode_ports` reads from the streamer CSRs, and
the structural audit `verify_layout` of the addresses they walk. -/
namespace Snax

namespace SimWorld

/-! ### Ports -/

/-- `layout_[p].n_s`: R7 and W3 have two spatial strides. -/
def nSpatial (p : Nat) : Nat := if p = 7 ∨ p = 17 then 2 else 1

/-- The CSRs of a port: the base address, the spatial strides, four bounds, four strides, the remap. -/
def block (p : Nat) : Nat := 2 + nSpatial p + 4 + 4 + 1

/-- `layout_[p].base_csr`, from the first streamer CSR. -/
def baseCsr (p : Nat) : Nat := (List.range p).foldl (fun c q => c + block q) 0

/-- `decode_ports`. -/
def decodePorts (raw : Nat → BitVec 32) (p : Nat) : Port :=
  let i := baseCsr p
  let nS := nSpatial p
  let tBound := Vector.ofFn fun k : Fin 4 => raw (i + 2 + nS + k.val)
  { base := raw (i + 1) ++ raw i
    nS := nS
    sStride := Vector.ofFn fun k : Fin 2 => if k.val < nS then raw (i + 2 + k.val) else 0
    tBound := tBound
    tStride := Vector.ofFn fun k : Fin 4 => raw (i + 2 + nS + 4 + k.val)
    remap := raw (i + 2 + nS + 8)
    enabled := tBound.get 0 != 0 }

/-- `NCH`, the lanes of the ports. -/
def nch (p : Nat) : Nat := [2,4,1,1,1,1,1,4,1,1,1,1,4,4,1,1,1,4].getD p 1

/-! ### The audit -/

inductive LayoutError where
  | outOfBounds (port : Nat) (lo hi : BitVec 32)
  | beyondProducer (port : Nat) (lo hi : BitVec 32)
  | aliases (port : Nat) (addr : BitVec 32) (iter : Nat)
  deriving DecidableEq

/-- The TCDM is at `[LO, HI)`. -/
def LO : BitVec 32 := 0x10000000

def HI : BitVec 32 := 0x10080000

/-- `(s >= 0 ? mx : mn) += s`, on `mn` and `mx`. -/
def extend (m : Int × Int) (s : Int) : Int × Int :=
  if 0 ≤ s then (m.1,m.2 + s) else (m.1 + s,m.2)

/-- The spatial strides. -/
def s0 (a : Port) : Int := (a.sStride.toList.getD 0 0).toInt

def s1 (a : Port) : Int := (a.sStride.toList.getD 1 0).toInt

/-- The temporal dimensions, each with the bound that counts. -/
def temporal (a : Port) : List (Int × Int) := a.effectiveBounds.zip a.strides

/-- The distance to the far end of each dimension, as `extent` adds them up. -/
def reaches (a : Port) (lanes : Nat) : List Int :=
  (temporal a).map (fun d => (d.1 - 1) * d.2) ++
    if a.nS = 2 then [s0 a,s1 a] else [((lanes : Int) - 1) * s0 a]

/-- `mn` and `mx`. -/
def ends (a : Port) (lanes : Nat) : Int × Int := (reaches a lanes).foldl extend (0,0)

/-- `extent`: `lo` and `hi`. -/
def extent (a : Port) (lanes : Nat) : BitVec 32 × BitVec 32 :=
  (BitVec.ofInt 32 (a.base.toNat + (ends a lanes).1),BitVec.ofInt 32 (a.base.toNat + (ends a lanes).2))

def boundsErrors (ports : Nat → Port) : List LayoutError :=
  (List.range 18).filterMap fun p =>
    let e := extent (ports p) (nch p)
    if (ports p).enabled && (e.1 < LO || HI ≤ e.2) then some (.outOfBounds p e.1 e.2) else none

/-- A reader that overlaps a writer reads only what the writer covers. -/
def containmentErrors (ports : Nat → Port) : List LayoutError :=
  (List.range 14).flatMap fun r => (List.range' 14 4).filterMap fun w =>
    let er := extent (ports r) (nch r)
    let ew := extent (ports w) (nch w)
    if (ports r).enabled && (ports w).enabled && (er.1 < ew.2 && ew.1 < er.2) &&
        (er.1 < ew.1 || ew.2 < er.2) then some (.beyondProducer r er.1 er.2) else none

/-- `seen`, and the first address that is in it already. -/
def firstTwice : List (BitVec 32) → List (BitVec 32) → Nat → Option (BitVec 32 × Nat)
  | [], _, _ => none
  | a :: as, seen, iter => if a ∈ seen then some (a,iter) else firstTwice as (a :: seen) (iter + 1)

/-- A dimension that does not move is collapsed. -/
def collapse (d : Int × Int) : Int × Int := (if d.2 = 0 then 1 else d.1,d.2)

/-- The loops of the scan: four temporal ones and the lanes. -/
def scanned (a : Port) (lanes : Nat) : List (Int × Int) :=
  (temporal a ++ [((lanes : Int),s0 a)]).map collapse

def scanAddr (a : Port) (lanes : Nat) (t : List Int) : BitVec 32 :=
  BitVec.ofInt 32 (a.base.toNat + Strides.offset (scanned a lanes) t)

/-- `alias_scan`, which skips a writer of more than four million words. -/
def aliasScan (a : Port) (lanes : Nat) : Option (BitVec 32 × Nat) :=
  if 4000000 < ((scanned a lanes).map Prod.fst).foldl (· * ·) 1 then none
  else firstTwice ((Strides.walk (scanned a lanes)).map (scanAddr a lanes)) [] 0

def aliasErrors (ports : Nat → Port) : List LayoutError :=
  (List.range' 14 4).filterMap fun w =>
    if (ports w).enabled && (ports w).nS ≤ 1 then
      (aliasScan (ports w) (nch w)).map fun x => .aliases w x.1 x.2
    else none

/-- The errors that `verify_layout` reports. -/
def verifyLayout (ports : Nat → Port) : List LayoutError :=
  boundsErrors ports ++ containmentErrors ports ++ aliasErrors ports

/-! ### What a port emits -/

/-- The offset of a lane. -/
def soff (a : Port) (lane : Nat) : Int :=
  if a.nS = 2 then (lane % 2 : Nat) * s0 a + (lane / 2 : Nat) * s1 a
  else lane * s0 a

/-- An address that a lane of the port emits at some temporal indices, before the remapping of its
bank bits. -/
def Emits (a : Port) (lanes : Nat) (addr : Int) : Prop :=
  ∃ t, Strides.Inside (temporal a) t ∧ ∃ lane < lanes,
    addr = a.base.toNat + Agu.toff t a.strides + soff a lane

def InTcdm (addr : Int) : Prop := 0x10000000 ≤ addr ∧ addr < 0x10080000

/-- The spatial dimensions. -/
def spatial (a : Port) (lanes : Nat) : List (Int × Int) :=
  if a.nS = 2 then [(2,s0 a),(2,s1 a)] else [((lanes : Int),s0 a)]

/-- All dimensions of a port, with those that do not move collapsed. -/
def positions (a : Port) (lanes : Nat) : List (Int × Int) := (temporal a ++ spatial a lanes).map collapse

/-- Two positions have the same word of eight bytes. -/
def SharesWord (a : Port) (lanes : Nat) : Prop :=
  ∃ t u, Strides.Inside (positions a lanes) t ∧ Strides.Inside (positions a lanes) u ∧ t ≠ u ∧
    (a.base.toNat + Strides.offset (positions a lanes) t) / 8 =
      (a.base.toNat + Strides.offset (positions a lanes) u) / 8

/-- The audit says of every enabled port whether it leaves the TCDM, and of every enabled writer
whether two of its positions share a word. -/
def Exact (ports : Nat → Port) : Prop :=
  ∀ p < 18, (ports p).enabled = true →
    ((∃ lo hi, .outOfBounds p lo hi ∈ verifyLayout ports) ↔
      ∃ addr, Emits (ports p) (nch p) addr ∧ ¬ InTcdm addr) ∧
    (14 ≤ p → ((∃ addr iter, .aliases p addr iter ∈ verifyLayout ports) ↔ SharesWord (ports p) (nch p)))

/-! ### The remapping -/

theorem aguSwz_block (a remap : BitVec 32) : aguSwz a remap >>> 8 = a >>> 8 := by
  have outside (m : BitVec 32) (low : m >>> 8 = 0) : (a ^^^ ((a >>> 3) &&& m)) >>> 8 = a >>> 8 := by
    rw [BitVec.ushiftRight_xor_distrib,BitVec.ushiftRight_and_distrib,low]
    simp
  unfold aguSwz
  split
  · exact outside 0xE0 (by decide)
  · split
    · exact outside 0x60 (by decide)
    · rfl

/-- The remapping permutes the addresses. -/
theorem aguSwz_aguSwz (a remap : BitVec 32) : aguSwz (aguSwz a remap) remap = a := by
  have twice (m : BitVec 32) (narrow : (m >>> 3) &&& m = 0) :
      (a ^^^ ((a >>> 3) &&& m)) ^^^ (((a ^^^ ((a >>> 3) &&& m)) >>> 3) &&& m) = a := by
    have fixed : ((a ^^^ ((a >>> 3) &&& m)) >>> 3) &&& m = (a >>> 3) &&& m := by
      refine BitVec.eq_of_getLsbD_eq fun i _ => ?_
      have apart : (m.getLsbD (3 + i) && m.getLsbD i) = false := by
        rw [← BitVec.getLsbD_ushiftRight,← BitVec.getLsbD_and,narrow]
        exact BitVec.getLsbD_zero
      simp only [BitVec.getLsbD_xor,BitVec.getLsbD_and,BitVec.getLsbD_ushiftRight]
      cases present : m.getLsbD i with
      | false => simp only [Bool.and_false]
      | true =>
        rw [present,Bool.and_true] at apart
        simp only [apart,Bool.and_false,Bool.xor_false]
    rw [fixed,BitVec.xor_assoc,BitVec.xor_self,BitVec.xor_zero]
  unfold aguSwz
  split
  · exact twice 0xE0 (by decide)
  · split
    · exact twice 0x60 (by decide)
    · rfl

/-- The remapping neither leaves nor enters the TCDM. -/
theorem aguSwz_tcdm (a remap : BitVec 32) : LO ≤ aguSwz a remap ∧ aguSwz a remap < HI ↔ LO ≤ a ∧ a < HI := by
  have block := congrArg BitVec.toNat (aguSwz_block a remap)
  rw [BitVec.toNat_ushiftRight,BitVec.toNat_ushiftRight,Nat.shiftRight_eq_div_pow,
    Nat.shiftRight_eq_div_pow] at block
  simp only [BitVec.le_def,BitVec.lt_def]
  change 0x10000000 ≤ _ ∧ _ < 0x10080000 ↔ 0x10000000 ≤ _ ∧ _ < 0x10080000
  omega

/-! ### The ends -/

/-- All dimensions of a port. -/
def dims (a : Port) (lanes : Nat) : List (Int × Int) := temporal a ++ spatial a lanes

def lowestAddr (a : Port) (lanes : Nat) : Int := a.base.toNat + Strides.lowest (dims a lanes)

def highestAddr (a : Port) (lanes : Nat) : Int := a.base.toNat + Strides.highest (dims a lanes)

theorem foldl_extend (ds : List (Int × Int)) (m : Int × Int) :
    (ds.map fun d => (d.1 - 1) * d.2).foldl extend m =
      (m.1 + Strides.lowest ds,m.2 + Strides.highest ds) := by
  induction ds generalizing m with
  | nil => simp [Strides.lowest,Strides.highest]
  | cons d ds ih =>
    rw [List.map_cons,List.foldl_cons,ih,Strides.lowest,Strides.highest,extend]
    split
    · rename_i up
      rw [min_eq_left up,max_eq_right up]
      simp only [Int.zero_add,Int.add_assoc]
    · rename_i down
      rw [min_eq_right (by omega),max_eq_left (by omega)]
      simp only [Int.zero_add,Int.add_assoc]

theorem reaches_eq (a : Port) (lanes : Nat) :
    reaches a lanes = (dims a lanes).map fun d => (d.1 - 1) * d.2 := by
  rw [reaches,dims,List.map_append,spatial]
  congr 1
  split
  · simp
  · rfl

theorem extent_eq (a : Port) (lanes : Nat) : extent a lanes =
    (BitVec.ofInt 32 (lowestAddr a lanes),BitVec.ofInt 32 (highestAddr a lanes)) := by
  rw [extent,ends,reaches_eq,foldl_extend,lowestAddr,highestAddr]
  simp only [Int.zero_add]

theorem toff_eq {bounds : List Int} (t : List Int) {strides : List Int}
    (same : bounds.length = strides.length) : Agu.toff t strides = Strides.offset (bounds.zip strides) t := by
  induction t generalizing bounds strides with
  | nil => cases bounds <;> cases strides <;> rfl
  | cons x t ih =>
    cases bounds with
    | nil =>
      cases strides with
      | nil => rfl
      | cons s strides => exact nomatch same
    | cons b bounds =>
      cases strides with
      | nil => exact nomatch same
      | cons s strides =>
        rw [Agu.toff,List.zip_cons_cons,Strides.offset,ih (Nat.succ.inj same)]

theorem temporal_toff (a : Port) (t : List Int) :
    Agu.toff t a.strides = Strides.offset (temporal a) t :=
  toff_eq t (by simp [Agu.effectiveBounds,Agu.strides])

/-- The lanes are the positions of the spatial dimensions. -/
theorem spatial_iff {a : Port} {lanes : Nat} (square : a.nS = 2 → lanes = 4) (off : Int) :
    (∃ lane < lanes, off = soff a lane) ↔
      ∃ u, Strides.Inside (spatial a lanes) u ∧ off = Strides.offset (spatial a lanes) u := by
  unfold soff spatial
  split
  · rename_i two
    rw [square two]
    constructor
    · rintro ⟨lane,below,rfl⟩
      refine ⟨[((lane % 2 : Nat) : Int),((lane / 2 : Nat) : Int)],
        .cons ⟨by omega,by simp only; omega⟩ (.cons ⟨by omega,by simp only; omega⟩ .nil),?_⟩
      simp [Strides.offset]
    · rintro ⟨u,inside,rfl⟩
      cases inside with
      | @cons _ i _ _ first rest =>
        cases rest with
        | @cons _ j _ _ second none =>
          cases none
          simp only at first second
          refine ⟨(j * 2 + i).toNat,by omega,?_⟩
          have low : (((j * 2 + i).toNat % 2 : Nat) : Int) = i := by omega
          have high : (((j * 2 + i).toNat / 2 : Nat) : Int) = j := by omega
          rw [low,high]
          simp [Strides.offset]
  · constructor
    · rintro ⟨lane,below,rfl⟩
      exact ⟨[(lane : Int)],.cons ⟨by omega,by simp only; omega⟩ .nil,by simp [Strides.offset]⟩
    · rintro ⟨u,inside,rfl⟩
      cases inside with
      | @cons _ x _ _ first none =>
        cases none
        simp only at first
        refine ⟨x.toNat,by omega,?_⟩
        rw [Int.toNat_of_nonneg first.1]
        simp [Strides.offset]

theorem emits_iff {a : Port} {lanes : Nat} (square : a.nS = 2 → lanes = 4) (addr : Int) :
    Emits a lanes addr ↔
      ∃ t, Strides.Inside (dims a lanes) t ∧ addr = a.base.toNat + Strides.offset (dims a lanes) t := by
  constructor
  · rintro ⟨t,inside,lane,below,rfl⟩
    obtain ⟨u,within,same⟩ := (spatial_iff square _).mp ⟨lane,below,rfl⟩
    refine ⟨t ++ u,Strides.inside_append.mpr ⟨t,u,rfl,inside,within⟩,?_⟩
    rw [dims,Strides.offset_append inside,temporal_toff,same,Int.add_assoc]
  · rintro ⟨v,inside,rfl⟩
    obtain ⟨t,u,rfl,before,after⟩ := Strides.inside_append.mp inside
    obtain ⟨lane,below,same⟩ := (spatial_iff square _).mpr ⟨u,after,rfl⟩
    refine ⟨t,before,lane,below,?_⟩
    rw [dims,Strides.offset_append before,temporal_toff,same,Int.add_assoc]

/-- A port with indices leaves the TCDM if and only if one of its ends does. -/
theorem leaves_iff {a : Port} {lanes : Nat} (square : a.nS = 2 → lanes = 4)
    (nonempty : Strides.Open (dims a lanes)) : (∃ addr, Emits a lanes addr ∧ ¬ InTcdm addr) ↔
      lowestAddr a lanes < 0x10000000 ∨ 0x10080000 ≤ highestAddr a lanes := by
  have corner := Strides.corners nonempty (0x10000000 - a.base.toNat) (0x10080000 - a.base.toNat)
  rw [lowestAddr,highestAddr]
  constructor
  · rintro ⟨addr,emits,out⟩
    obtain ⟨t,inside,rfl⟩ := (emits_iff square addr).mp emits
    have := corner.mp ⟨t,inside,by unfold InTcdm at out; omega⟩
    omega
  · intro out
    obtain ⟨t,inside,beyond⟩ := corner.mpr (by omega)
    exact ⟨_,(emits_iff square _).mpr ⟨t,inside,rfl⟩,by unfold InTcdm; omega⟩

theorem emits_nothing {a : Port} {lanes : Nat} (square : a.nS = 2 → lanes = 4)
    (closed : ¬ Strides.Open (dims a lanes)) : ¬ ∃ addr, Emits a lanes addr ∧ ¬ InTcdm addr := by
  rintro ⟨addr,emits,_⟩
  obtain ⟨t,inside,_⟩ := (emits_iff square addr).mp emits
  exact closed (Strides.open_of_inside inside)

/-- A port that leaves the TCDM does not show ends within it modulo `2^32`; one without indices
shows such ends. -/
def Unfolded (a : Port) (lanes : Nat) : Prop :=
  if Strides.Open (dims a lanes) then
    InTcdm (lowestAddr a lanes) ∧ InTcdm (highestAddr a lanes) ∨
      lowestAddr a lanes % 2 ^ 32 < 0x10000000 ∨ 0x10080000 ≤ highestAddr a lanes % 2 ^ 32
  else 0x10000000 ≤ lowestAddr a lanes % 2 ^ 32 ∧ highestAddr a lanes % 2 ^ 32 < 0x10080000

theorem below_LO (x : Int) : BitVec.ofInt 32 x < LO ↔ x % 2 ^ 32 < 0x10000000 := by
  rw [BitVec.lt_def,BitVec.toNat_ofInt]
  change (x % ((2 ^ 32 : Nat) : Int)).toNat < 0x10000000 ↔ _
  omega

theorem above_HI (x : Int) : HI ≤ BitVec.ofInt 32 x ↔ 0x10080000 ≤ x % 2 ^ 32 := by
  rw [BitVec.le_def,BitVec.toNat_ofInt]
  change 0x10080000 ≤ (x % ((2 ^ 32 : Nat) : Int)).toNat ↔ _
  omega

theorem outOfBounds_iff (ports : Nat → Port) {p : Nat} (port : p < 18)
    (enabled : (ports p).enabled = true) : (∃ lo hi, .outOfBounds p lo hi ∈ verifyLayout ports) ↔
      lowestAddr (ports p) (nch p) % 2 ^ 32 < 0x10000000 ∨
        0x10080000 ≤ highestAddr (ports p) (nch p) % 2 ^ 32 := by
  rw [← below_LO,← above_HI]
  constructor
  · rintro ⟨lo,hi,reported⟩
    simp only [verifyLayout,boundsErrors,containmentErrors,aliasErrors,List.mem_append,
      List.mem_filterMap,List.mem_flatMap] at reported
    obtain (⟨q,_,found⟩ | ⟨r,_,w,_,found⟩) | ⟨w,_,found⟩ := reported
    · split at found
      · rename_i out
        obtain ⟨rfl,_⟩ := LayoutError.outOfBounds.inj (Option.some.inj found)
        simp only [enabled,Bool.true_and,Bool.or_eq_true,decide_eq_true_eq,extent_eq] at out
        exact out
      · exact nomatch found
    · split at found
      · exact nomatch Option.some.inj found
      · exact nomatch found
    · split at found
      · obtain ⟨x,_,same⟩ := Option.map_eq_some_iff.mp found
        exact nomatch same
      · exact nomatch found
  · intro out
    refine ⟨_,_,List.mem_append_left _ (List.mem_append_left _ (List.mem_filterMap.mpr
      ⟨p,List.mem_range.mpr port,if_pos ?_⟩))⟩
    simp only [enabled,Bool.true_and,Bool.or_eq_true,decide_eq_true_eq,extent_eq]
    exact out

theorem bounds_exact (ports : Nat → Port) {p : Nat} (port : p < 18) (enabled : (ports p).enabled = true)
    (square : (ports p).nS = 2 → nch p = 4) :
    ((∃ lo hi, .outOfBounds p lo hi ∈ verifyLayout ports) ↔
      ∃ addr, Emits (ports p) (nch p) addr ∧ ¬ InTcdm addr) ↔ Unfolded (ports p) (nch p) := by
  rw [outOfBounds_iff ports port enabled,Unfolded]
  split
  · rename_i nonempty
    have ordered : lowestAddr (ports p) (nch p) ≤ highestAddr (ports p) (nch p) := by
      obtain ⟨t,inside,_⟩ := Strides.lowest_attained nonempty
      have := Strides.lowest_le inside
      have := Strides.le_highest inside
      rw [lowestAddr,highestAddr]
      omega
    rw [leaves_iff square nonempty]
    unfold InTcdm
    omega
  · rename_i closed
    rw [iff_false_right (emits_nothing square closed)]
    omega

/-! ### The words of a writer -/

/-- Two positions have the same byte address modulo `2^32`. -/
def SharesByte (a : Port) (lanes : Nat) : Prop :=
  ∃ t u, Strides.Inside (scanned a lanes) t ∧ Strides.Inside (scanned a lanes) u ∧ t ≠ u ∧
    scanAddr a lanes t = scanAddr a lanes u

theorem firstTwice_none (as seen : List (BitVec 32)) (iter : Nat) :
    firstTwice as seen iter = none ↔ as.Nodup ∧ ∀ a ∈ as, a ∉ seen := by
  induction as generalizing seen iter with
  | nil => simp [firstTwice]
  | cons a as ih =>
    rw [firstTwice,List.nodup_cons]
    split
    · rename_i present
      exact ⟨nofun,fun both => absurd present (both.2 a List.mem_cons_self)⟩
    · rename_i new
      rw [ih]
      constructor
      · rintro ⟨apart,fresh⟩
        refine ⟨⟨fun again => fresh a again List.mem_cons_self,apart⟩,fun b member => ?_⟩
        rcases List.mem_cons.mp member with rfl | later
        · exact new
        · exact fun old => fresh b later (List.mem_cons_of_mem a old)
      · rintro ⟨⟨once,apart⟩,fresh⟩
        refine ⟨apart,fun b member old => ?_⟩
        rcases List.mem_cons.mp old with rfl | old
        · exact once member
        · exact fresh b (List.mem_cons_of_mem a member) old

/-- The product that the scan compares with its cap is the number of positions. -/
theorem total_eq {ds : List (Int × Int)} (nonempty : Strides.Open ds) :
    (ds.map Prod.fst).foldl (· * ·) 1 = ((Strides.walk ds).length : Int) := by
  have scaled (acc : Int) : (ds.map Prod.fst).foldl (· * ·) acc = acc * (Strides.walk ds).length := by
    induction ds generalizing acc with
    | nil => simp [Strides.walk]
    | cons d ds ih =>
      have here := nonempty d List.mem_cons_self
      rw [List.map_cons,List.foldl_cons,ih (fun e member => nonempty e (List.mem_cons_of_mem d member)),
        Strides.walk_length,Strides.walk_length,List.map_cons,List.prod_cons,Nat.cast_mul,
        Int.toNat_of_nonneg here.le,Int.mul_assoc]
  rw [scaled,Int.one_mul]

theorem aliasScan_iff (a : Port) {lanes : Nat} (few : (Strides.walk (scanned a lanes)).length ≤ 4000000) :
    (∃ x, aliasScan a lanes = some x) ↔ SharesByte a lanes := by
  rw [aliasScan]
  split
  · rename_i long
    refine iff_of_false (fun none => nomatch none.choose_spec) ?_
    rintro ⟨t,_,inside,_⟩
    rw [total_eq (Strides.open_of_inside inside)] at long
    omega
  · rw [← Option.ne_none_iff_exists']
    rw [Ne,firstTwice_none]
    simp only [List.not_mem_nil,not_false_eq_true,implies_true,and_true]
    rw [List.nodup_map_iff_inj_on (Strides.nodup_walk _)]
    simp only [Strides.mem_walk]
    unfold SharesByte
    grind

theorem aliases_iff (ports : Nat → Port) {p : Nat} (writer : 14 ≤ p) (port : p < 18)
    (enabled : (ports p).enabled = true) : (∃ addr iter, .aliases p addr iter ∈ verifyLayout ports) ↔
      (ports p).nS ≤ 1 ∧ ∃ x, aliasScan (ports p) (nch p) = some x := by
  constructor
  · rintro ⟨addr,iter,reported⟩
    simp only [verifyLayout,boundsErrors,containmentErrors,aliasErrors,List.mem_append,
      List.mem_filterMap,List.mem_flatMap] at reported
    obtain (⟨q,_,found⟩ | ⟨r,_,w,_,found⟩) | ⟨w,_,found⟩ := reported
    · split at found
      · exact nomatch Option.some.inj found
      · exact nomatch found
    · split at found
      · exact nomatch Option.some.inj found
      · exact nomatch found
    · split at found
      · rename_i scanned
        obtain ⟨x,hit,same⟩ := Option.map_eq_some_iff.mp found
        obtain ⟨rfl,_⟩ := LayoutError.aliases.inj same
        exact ⟨of_decide_eq_true (Bool.and_eq_true_iff.mp scanned).2,x,hit⟩
      · exact nomatch found
  · rintro ⟨flat,x,hit⟩
    refine ⟨x.1,x.2,List.mem_append_right _ (List.mem_filterMap.mpr
      ⟨p,List.mem_range'_1.mpr ⟨writer,port⟩,?_⟩)⟩
    rw [if_pos (by rw [enabled,Bool.true_and]; exact decide_eq_true flat),hit]
    rfl

/-- Where the scan looks at a writer, its positions have distinct words exactly where they have
distinct bytes; where it does not, they have distinct words. -/
structure Separated (a : Port) (lanes : Nat) : Prop where
  aligned : a.nS ≤ 1 → SharesWord a lanes → SharesByte a lanes
  near : a.nS ≤ 1 → SharesByte a lanes → SharesWord a lanes
  skipped : a.nS = 2 → ¬ SharesWord a lanes

theorem scanned_eq {a : Port} (lanes : Nat) (flat : a.nS ≤ 1) : scanned a lanes = positions a lanes := by
  rw [scanned,positions,spatial,if_neg (by omega)]

/-- Words that are aligned and within `2^32` bytes of each other are told apart by their bytes. -/
theorem separated_of_aligned {a : Port} {lanes : Nat} (flat : a.nS ≤ 1)
    (strides : ∀ d ∈ positions a lanes, 8 ∣ d.2)
    (short : Strides.highest (positions a lanes) - Strides.lowest (positions a lanes) < 2 ^ 32) :
    Separated a lanes := by
  have whole (t : List Int) : 8 ∣ Strides.offset (positions a lanes) t := Strides.dvd_offset strides t
  refine ⟨fun _ => ?_,fun _ => ?_,fun two => absurd two (by omega)⟩
  · rintro ⟨t,u,first,second,apart,same⟩
    have := whole t
    have := whole u
    have equal : Strides.offset (positions a lanes) t = Strides.offset (positions a lanes) u := by omega
    refine ⟨t,u,by rwa [scanned_eq lanes flat],by rwa [scanned_eq lanes flat],apart,?_⟩
    rw [scanAddr,scanAddr,scanned_eq lanes flat,equal]
  · rintro ⟨t,u,first,second,apart,same⟩
    rw [scanned_eq lanes flat] at first second
    rw [scanAddr,scanAddr,scanned_eq lanes flat] at same
    have bytes := congrArg BitVec.toNat same
    rw [BitVec.toNat_ofInt,BitVec.toNat_ofInt] at bytes
    have := Strides.lowest_le first
    have := Strides.le_highest first
    have := Strides.lowest_le second
    have := Strides.le_highest second
    exact ⟨t,u,first,second,apart,by omega⟩

theorem aliases_exact (ports : Nat → Port) {p : Nat} (writer : 14 ≤ p) (port : p < 18)
    (enabled : (ports p).enabled = true) (layout : (ports p).nS = 1 ∨ (ports p).nS = 2)
    (few : (Strides.walk (positions (ports p) (nch p))).length ≤ 4000000) :
    ((∃ addr iter, .aliases p addr iter ∈ verifyLayout ports) ↔ SharesWord (ports p) (nch p)) ↔
      Separated (ports p) (nch p) := by
  rcases layout with one | two
  · have flat : (ports p).nS ≤ 1 := by omega
    rw [aliases_iff ports writer port enabled,aliasScan_iff _ (by rwa [scanned_eq _ flat])]
    exact ⟨fun exact => ⟨fun _ shares => (exact.mpr shares).2,fun _ shares => exact.mp ⟨flat,shares⟩,
        fun two => absurd two (by omega)⟩,
      fun separated => ⟨fun shares => separated.near flat shares.2,
        fun shares => ⟨flat,separated.aligned flat shares⟩⟩⟩
  · have unscanned : ¬ ((ports p).nS ≤ 1 ∧ ∃ x, aliasScan (ports p) (nch p) = some x) := by omega
    rw [aliases_iff ports writer port enabled,iff_false_left unscanned]
    exact ⟨fun apart => ⟨fun flat => absurd flat (by omega),fun flat => absurd flat (by omega),fun _ => apart⟩,
      fun separated => separated.skipped two⟩

end SimWorld

open SimWorld in
/-- The audit is exact if and only if every enabled port shows where it lies by its ends modulo
`2^32`, the words of every scanned writer are told apart by their bytes, and W3, which is not
scanned, has no two positions in one word. -/
theorem layout_audit_exact (raw : Nat → BitVec 32) (few : ∀ p ∈ List.range' 14 4,
    (decodePorts raw p).enabled = true →
      (Strides.walk (positions (decodePorts raw p) (nch p))).length ≤ 4000000) :
    Exact (decodePorts raw) ↔ ∀ p < 18, (decodePorts raw p).enabled = true →
      Unfolded (decodePorts raw p) (nch p) ∧
      (14 ≤ p → Separated (decodePorts raw p) (nch p)) := by
  have layout (p : Nat) : (decodePorts raw p).nS = 1 ∨ (decodePorts raw p).nS = 2 := by
    change nSpatial p = 1 ∨ nSpatial p = 2
    unfold nSpatial
    split
    · exact .inr rfl
    · exact .inl rfl
  have square (p : Nat) : (decodePorts raw p).nS = 2 → nch p = 4 := by
    intro two
    have port : p = 7 ∨ p = 17 := by
      by_contra other
      exact absurd two (by change nSpatial p ≠ 2; rw [nSpatial,if_neg other]; decide)
    rcases port with rfl | rfl <;> rfl
  refine forall₃_congr fun p port enabled =>
    and_congr (bounds_exact (decodePorts raw) port enabled (square p)) (forall_congr' fun writer => ?_)
  exact aliases_exact (decodePorts raw) writer port enabled (layout p)
    (few p (List.mem_range'_1.mpr ⟨writer,port⟩) enabled)

namespace SimWorld

/-- The CSRs of W0 alone, with three words in a row. -/
def lineW0 (i : Nat) : BitVec 32 :=
  if i = 169 then 0x10000000 else if i = 171 ∨ i = 176 then 8 else if i = 172 then 3 else 0

/-- The CSRs of W3 alone: its base, two equal spatial strides and one group. -/
def squareW3 (i : Nat) : BitVec 32 :=
  if i = 205 then 0x10000000 else if i = 207 ∨ i = 208 then 8 else if i = 209 then 1 else 0

end SimWorld

open SimWorld

theorem layout_audit_exact_line : Exact (decodePorts lineW0) ↔
    ∀ p < 18, (decodePorts lineW0 p).enabled = true → Unfolded (decodePorts lineW0 p) (nch p) ∧
      (14 ≤ p → Separated (decodePorts lineW0 p) (nch p)) :=
  layout_audit_exact lineW0 (by decide +kernel)

/-- The second and the third lane of W3 write the same word, and nothing is reported. -/
theorem layout_audit_misses : ¬ ∀ raw : Nat → BitVec 32, (∀ p ∈ List.range' 14 4,
    (decodePorts raw p).enabled = true →
      (Strides.walk (positions (decodePorts raw p) (nch p))).length ≤ 4000000) →
    Exact (decodePorts raw) := by
  intro all
  have exact := all squareW3 (by decide +kernel) 17 (by decide) (by decide)
  have shares : SharesWord (decodePorts squareW3 17) (nch 17) := by
    refine ⟨[0,0,0,0,0,1],[0,0,0,0,1,0],?_,?_,by decide,by decide +kernel⟩
    · exact Strides.mem_walk.mp (by decide +kernel)
    · exact Strides.mem_walk.mp (by decide +kernel)
  obtain ⟨addr,iter,reported⟩ := (exact.2 (by decide)).mpr shares
  have silent : verifyLayout (decodePorts squareW3) = [] := by decide +kernel
  rw [silent] at reported
  exact nomatch reported

end Snax
