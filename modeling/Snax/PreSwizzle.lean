import Snax.SimBanks
import Snax.Sync.Bytes
import Snax.Sync.Chunks
import Mathlib.Data.Nat.Bitwise
import Mathlib.Data.List.Sort

/-! `apps/is-osgemm-tiled/data/datagen.py`: the DMA images and the sample indices that the host
permutes beforehand, against the XOR swizzle of the address generator on the addresses of the
running program. -/
namespace Snax

namespace PreSwizzle

open AddressGenUnit Bytes

/-! ### The generator -/

/-- The swizzle permutes chunks of 32 bytes within each row of so many. -/
def sb : Nat := 256

/-- `(a & ~0xE0) | ((((a >> 5) ^ (a >> 8)) & 0x7) << 5)`. -/
def swz (a : Nat) : Nat := Nat.ldiff a 0xE0 ||| (((a >>> 5) ^^^ (a >>> 8)) &&& 0x7) <<< 5

/-- Where the byte at `o` of a buffer at `base` goes, from the start of the buffer. -/
def place (base o : Nat) : Nat := swz (base + o) - base

/-- `out[p : p + 32] = chunk`. -/
def splice (out : List Byte) (p : Nat) (chunk : List Byte) : List Byte :=
  out.take p ++ chunk ++ out.drop (p + 32)

/-- `_swizzle_block`, which asserts that it works on whole rows. -/
def swizzleBlock (raw : List Byte) (base : Nat) : Option (List Byte) :=
  if base % sb = 0 ∧ raw.length % sb = 0 then
    some ((List.range ((raw.length + 31) / 32)).foldl
      (fun out c => splice out (place base (32 * c)) ((raw.drop (32 * c)).take 32))
      (List.replicate raw.length 0))
  else none

/-- `int(v).to_bytes(elem_bytes, "little")`, which overflows for a larger number. -/
def toBytes (elemBytes v : Nat) : Option (List Byte) :=
  if v < 256 ^ elemBytes then some (split elemBytes v) else none

/-- `xs[i * n : (i + 1) * n]`. -/
def slice (xs : List Byte) (n i : Nat) : List Byte := (xs.drop (i * n)).take n

/-- `emit_swizzled`: the elements of the array it emits. A division by an empty tile or a modulus by
no tile bases raises. -/
def emitSwizzled (elemBytes : Nat) (tileBases : List Nat) (tileLen : Option Nat) (vals : List Nat) :
    Option (List Nat) := do
  let raw := (← vals.mapM (toBytes elemBytes)).flatten
  let tl := tileLen.getD raw.length
  if tl = 0 ∨ raw.length % tl ≠ 0 then none
  else
    let blocks ← (List.range (raw.length / tl)).mapM fun i => do
      swizzleBlock (slice raw tl i) (← tileBases[i % tileBases.length]?)
    let out := blocks.flatten
    return (List.range vals.length).map fun i => combine (slice out elemBytes i)

/-- The swizzled twin of a logical index. -/
def twin (tileBases : List Nat) (tl k : Nat) : Option Nat := do
  let base ← tileBases[k / tl % tileBases.length]?
  return k / tl * tl + place base (k % tl)

/-- `emit_samples_swz`, with the indices that were drawn: the sorted indices and their twins. -/
def emitSamplesSwz (size : Nat) (tileBases : List Nat) (tileLen : Option Nat) (draws : List Nat) :
    Option (List Nat × List Nat) := do
  let idx := draws.mergeSort
  let tl := tileLen.getD size
  if tl = 0 then none
  else
    let idxSwz ← idx.mapM (twin tileBases tl)
    return (idx,idxSwz)

/-! ### The running program -/

/-- The bytes of an array of `elemBytes`-byte elements. -/
def image (elemBytes : Nat) (elems : List Nat) : List Byte := (elems.map (split elemBytes)).flatten

variable {w : Nat}

/-- The address of the buffer at an offset of the layout, above the runtime base. -/
def destination (base : BitVec w) (tileBases : List Nat) (tile : Nat) : BitVec w :=
  base + BitVec.ofNat w (tileBases.getD (tile % tileBases.length) 0)

/-- A swizzled writer stores one byte after the other. -/
def writeSwizzled (m : Memory w) (dest : BitVec w) (result : List Byte) : Memory w :=
  result.zipIdx.foldl
    (fun m (b,o) => store m (xorBankSwizzleMapping (dest + BitVec.ofNat w o)) [b]) m

/-- The tiles of a result, each copied out of its buffer after the writer has filled it, one after
the other. `before` is the memory that the writer of a tile finds. -/
def resultImage (base : BitVec w) (tileBases : List Nat) (tl tiles : Nat) (before : Nat → Memory w)
    (result : List Byte) : List Byte :=
  (List.range tiles).flatMap fun t =>
    load (writeSwizzled (before t) (destination base tileBases t) (slice result tl t))
      (destination base tileBases t) tl

/-! ### The swizzle -/

theorem swz_eq_cat (a : Nat) :
    swz a = cat (cat (a / 2 ^ 8) (field a 5 3 ^^^ field a 8 3) 3) (field a 0 5) 5 := by
  refine Nat.eq_of_testBit_eq fun i => ?_
  have mask : Nat.testBit 0xE0 i = decide (5 ≤ i ∧ i < 8) := by
    rw [show (0xE0 : Nat) = 7 <<< 5 by decide,Nat.testBit_shiftLeft,show (7 : Nat) = 2 ^ 3 - 1 by decide,
      Nat.testBit_two_pow_sub_one]
    by_cases low : 5 ≤ i <;> simp [low]
    omega
  rw [swz,Nat.testBit_or,Nat.testBit_ldiff,mask,Nat.testBit_shiftLeft,Nat.testBit_and,Nat.testBit_xor,
    Nat.testBit_shiftRight,Nat.testBit_shiftRight,show (0x7 : Nat) = 2 ^ 3 - 1 by decide,
    Nat.testBit_two_pow_sub_one,testBit_cat _ (field_lt _ _ _),testBit_cat _ (xor_field_lt _ _ _ _)]
  by_cases low : i < 5
  · simp [low,testBit_field,show ¬ 5 ≤ i by omega]
  · by_cases group : i < 8
    · have place : 5 + (i - 5) = i := by omega
      simp [low,group,place,testBit_field,show 5 ≤ i by omega,show i - 5 < 3 by omega]
    · have place : i - 5 - 3 + 8 = i := by omega
      have row : (a / 2 ^ 8).testBit (i - 5 - 3) = a.testBit i := by rw [Nat.testBit_div_two_pow,place]
      rw [row]
      simp [low,group,show ¬ i - 5 < 3 by omega]

/-- The three fields of a swizzled address: row, group of banks and byte. -/
theorem swz_eq (a : Nat) : swz a = 256 * (a / 256) + 32 * ((a / 32 % 8) ^^^ (a / 256 % 8)) + a % 32 := by
  rw [swz_eq_cat]
  simp only [cat,field,Nat.reducePow,Nat.div_one]
  omega

theorem group_lt (a : Nat) : (a / 32 % 8) ^^^ (a / 256 % 8) < 8 :=
  Nat.xor_lt_two_pow (n := 3) (Nat.mod_lt _ (by decide)) (Nat.mod_lt _ (by decide))

theorem swz_row (a : Nat) : swz a / 256 = a / 256 := by
  have group := group_lt a
  rw [swz_eq]
  omega

theorem swz_low (a : Nat) : swz a % 32 = a % 32 := by
  rw [swz_eq]
  omega

theorem swz_group (a : Nat) : swz a / 32 % 8 = (a / 32 % 8) ^^^ (a / 256 % 8) := by
  have group := group_lt a
  rw [swz_eq]
  omega

theorem swz_swz (a : Nat) : swz (swz a) = a := by
  rw [swz_eq (swz a),swz_row,swz_low,swz_group,Nat.xor_assoc,Nat.xor_self,Nat.xor_zero]
  omega

/-- The key repeats every 2 KiB. -/
theorem swz_add_period {b : Nat} (window : 2048 ∣ b) (a : Nat) : swz (b + a) = b + swz a := by
  obtain ⟨k,rfl⟩ := window
  have row : (2048 * k + a) / 256 = 8 * k + a / 256 := by omega
  have group : (2048 * k + a) / 32 % 8 = a / 32 % 8 := by omega
  rw [swz_eq,swz_eq,row,group,Nat.mul_add_mod]
  omega

theorem swz_add_low {a j : Nat} (chunk : a % 32 = 0) (inside : j < 32) : swz (a + j) = swz a + j := by
  have row : (a + j) / 256 = a / 256 := by omega
  have group : (a + j) / 32 = a / 32 := by omega
  rw [swz_eq,swz_eq,row,group]
  omega

theorem swz_lt (wide : 12 ≤ w) {a : Nat} (inside : a < 2 ^ w) : swz a < 2 ^ w := by
  have rows : 2 ^ w = 2 ^ (w - 8) * 256 := by
    rw [show (256 : Nat) = 2 ^ 8 by decide,← Nat.pow_add,show w - 8 + 8 = w by omega]
  rw [rows] at inside ⊢
  rw [← Nat.div_lt_iff_lt_mul (by decide)] at inside ⊢
  rwa [swz_row]

/-- The mapping wraps like the address. -/
theorem swz_mod (wide : 12 ≤ w) (a : Nat) : swz (a % 2 ^ w) = swz a % 2 ^ w := by
  have period : 2048 ∣ 2 ^ w * (a / 2 ^ w) :=
    Dvd.dvd.mul_right (Nat.pow_dvd_pow 2 (show 11 ≤ w by omega)) _
  have whole := swz_add_period period (a % 2 ^ w)
  rw [Nat.div_add_mod] at whole
  rw [whole,Nat.mul_add_mod,Nat.mod_eq_of_lt (swz_lt wide (Nat.mod_lt _ (Nat.two_pow_pos w)))]

/-- The hardware's mapping of an address of any width. -/
theorem toNat_xorBankSwizzle (wide : 12 ≤ w) (a : BitVec w) :
    (xorBankSwizzleMapping a).toNat = swz a.toNat := by
  have whole : field a.toNat 8 (w - 8) = a.toNat / 2 ^ 8 := by
    refine Nat.mod_eq_of_lt (Nat.div_lt_of_lt_mul ?_)
    rw [← Nat.pow_add,show 8 + (w - 8) = w by omega]
    exact a.isLt
  rw [xorBankSwizzleMapping,BitVec.toNat_ofNat,whole,← swz_eq_cat,Nat.mod_eq_of_lt (swz_lt wide a.isLt)]

/-! ### Places in a buffer -/

theorem le_swz {base : Nat} (aligned : 256 ∣ base) (o : Nat) : base ≤ swz (base + o) := by
  have row := swz_row (base + o)
  obtain ⟨k,rfl⟩ := aligned
  omega

theorem add_place {base : Nat} (aligned : 256 ∣ base) (o : Nat) : base + place base o = swz (base + o) :=
  Nat.add_sub_cancel' (le_swz aligned o)

theorem place_lt {base len o : Nat} (aligned : 256 ∣ base) (whole : 256 ∣ len) (inside : o < len) :
    place base o < len := by
  have row := swz_row (base + o)
  have added := add_place aligned o
  obtain ⟨k,rfl⟩ := aligned
  obtain ⟨n,rfl⟩ := whole
  omega

theorem place_place {base : Nat} (aligned : 256 ∣ base) (o : Nat) : place base (place base o) = o := by
  rw [place,add_place aligned,swz_swz,Nat.add_sub_cancel_left]

theorem place_add_low {base o j : Nat} (aligned : 256 ∣ base) (chunk : o % 32 = 0) (inside : j < 32) :
    place base (o + j) = place base o + j := by
  have start := le_swz aligned o
  have even : (base + o) % 32 = 0 := by omega
  rw [place,place,← Nat.add_assoc,swz_add_low even inside]
  omega

theorem place_low {base : Nat} (aligned : 256 ∣ base) (o : Nat) : place base o % 32 = o % 32 := by
  have low := swz_low (base + o)
  rw [← add_place aligned] at low
  omega

/-- The mapping of the buffer's address moves a byte to its place in the buffer. -/
theorem xorBankSwizzle_destination (wide : 12 ≤ w) {base : BitVec w} (window : 2048 ∣ base.toNat)
    {offset : Nat} (aligned : 256 ∣ offset) (o : Nat) :
    xorBankSwizzleMapping (base + BitVec.ofNat w offset + BitVec.ofNat w o) =
      base + BitVec.ofNat w offset + BitVec.ofNat w (place offset o) := by
  apply BitVec.eq_of_toNat_eq
  have flat (x : Nat) : (base + BitVec.ofNat w offset + BitVec.ofNat w x).toNat =
      (base.toNat + (offset + x)) % 2 ^ w := by
    simp only [BitVec.toNat_add,BitVec.toNat_ofNat,Nat.add_mod_mod,Nat.mod_add_mod,Nat.add_assoc]
  rw [toNat_xorBankSwizzle wide,flat,flat,swz_mod wide,swz_add_period window,add_place aligned]

/-! ### The image of a tile -/

theorem length_splice {out chunk : List Byte} {p : Nat} (size : chunk.length = 32)
    (inside : p + 32 ≤ out.length) : (splice out p chunk).length = out.length := by
  simp only [splice,List.length_append,List.length_take,List.length_drop,size]
  omega

theorem splice_inside {out chunk : List Byte} {p j : Nat} (size : chunk.length = 32)
    (inside : p + 32 ≤ out.length) (here : j < 32) : (splice out p chunk)[p + j]? = chunk[j]? := by
  have front : (out.take p).length = p := by rw [List.length_take]; omega
  rw [splice,List.append_assoc,List.getElem?_append_right (by omega),front,Nat.add_sub_cancel_left,
    List.getElem?_append_left (by omega)]

theorem splice_outside {out chunk : List Byte} {p q : Nat} (size : chunk.length = 32)
    (inside : p + 32 ≤ out.length) (apart : q < p ∨ p + 32 ≤ q) :
    (splice out p chunk)[q]? = out[q]? := by
  have front : (out.take p).length = p := by rw [List.length_take]; omega
  rcases apart with before | after
  · rw [splice,List.append_assoc,List.getElem?_append_left (by omega),List.getElem?_take_of_lt before]
  · rw [splice,List.append_assoc,List.getElem?_append_right (by omega),
      List.getElem?_append_right (by omega),List.getElem?_drop]
    congr 1
    omega

/-- The bytes from their places. -/
def swizzled (raw : List Byte) (base : Nat) : List Byte :=
  (List.range raw.length).map fun q => raw.getD (place base q) 0

@[simp] theorem length_swizzled (raw : List Byte) (base : Nat) : (swizzled raw base).length = raw.length := by
  simp [swizzled]

/-- The first `n` chunks are in their places. -/
structure Filled (raw : List Byte) (base n : Nat) (out : List Byte) : Prop where
  length : out.length = raw.length
  moved : ∀ q, q < raw.length → place base q < 32 * n → out[q]? = raw[place base q]?

theorem Filled.step {raw out : List Byte} {base n : Nat} (aligned : 256 ∣ base) (whole : 256 ∣ raw.length)
    (more : 32 * n < raw.length) (filled : Filled raw base n out) :
    Filled raw base (n + 1) (splice out (place base (32 * n)) ((raw.drop (32 * n)).take 32)) := by
  have chunk : 32 * n % 32 = 0 := Nat.mul_mod_right 32 n
  have target : place base (32 * n) % 32 = 0 := by rw [place_low aligned,chunk]
  have room : 32 * n + 32 ≤ raw.length := by omega
  have within := place_lt aligned whole more
  have size : ((raw.drop (32 * n)).take 32).length = 32 := by
    rw [List.length_take,List.length_drop]
    omega
  have inside : place base (32 * n) + 32 ≤ out.length := by
    rw [filled.length]
    omega
  refine ⟨by rw [length_splice size inside,filled.length],fun q here reached => ?_⟩
  have back := place_place aligned q
  by_cases old : place base q < 32 * n
  · rw [splice_outside size inside ?_,filled.moved q here old]
    by_contra met
    have offset := place_add_low aligned target (show q - place base (32 * n) < 32 by omega)
    rw [place_place aligned,show place base (32 * n) + (q - place base (32 * n)) = q by omega] at offset
    omega
  · have offset := place_add_low aligned chunk (show place base q - 32 * n < 32 by omega)
    have source : 32 * n + (place base q - 32 * n) = place base q := by omega
    rw [source,back] at offset
    rw [offset,splice_inside size inside (by omega),List.getElem?_take_of_lt (by omega),
      List.getElem?_drop,← offset,source]

theorem swizzleBlock_eq {raw : List Byte} {base : Nat} (aligned : 256 ∣ base) (whole : 256 ∣ raw.length) :
    swizzleBlock raw base = some (swizzled raw base) := by
  have chunks : (raw.length + 31) / 32 = raw.length / 32 := by omega
  have run (n : Nat) (inside : 32 * n ≤ raw.length) : Filled raw base n ((List.range n).foldl
      (fun out c => splice out (place base (32 * c)) ((raw.drop (32 * c)).take 32))
      (List.replicate raw.length 0)) := by
    induction n with
    | zero => exact ⟨by simp,fun q _ none => absurd none (by omega)⟩
    | succ n ih =>
      rw [List.range_succ,List.foldl_append,List.foldl_cons,List.foldl_nil]
      exact (ih (by omega)).step aligned whole (by omega)
  have filled := run (raw.length / 32) (by omega)
  rw [swizzleBlock,if_pos ⟨Nat.mod_eq_zero_of_dvd aligned,Nat.mod_eq_zero_of_dvd whole⟩,chunks]
  refine congrArg some (List.ext_getElem? fun q => ?_)
  by_cases here : q < raw.length
  · have within := place_lt aligned whole here
    rw [filled.moved q here (by omega),swizzled,List.getElem?_map,List.getElem?_range here,Option.map_some,
      List.getD_eq_getElem?_getD,List.getElem?_eq_getElem within,Option.getD_some]
  · rw [List.getElem?_eq_none (by rw [filled.length]; omega),List.getElem?_eq_none (by simpa using here)]

theorem swizzled_place {raw : List Byte} {base o : Nat} (aligned : 256 ∣ base) (whole : 256 ∣ raw.length)
    (inside : o < raw.length) : (swizzled raw base)[place base o]? = raw[o]? := by
  rw [swizzled,List.getElem?_map,List.getElem?_range (place_lt aligned whole inside),Option.map_some,
    place_place aligned,List.getD_eq_getElem?_getD,List.getElem?_eq_getElem inside,Option.getD_some]

theorem swizzled_perm {raw : List Byte} {base : Nat} (aligned : 256 ∣ base) (whole : 256 ∣ raw.length) :
    (swizzled raw base).Perm raw := by
  have places : ((List.range raw.length).map (place base)).Perm (List.range raw.length) := by
    refine (List.perm_ext_iff_of_nodup ?_ List.nodup_range).mpr fun q => ?_
    · refine List.nodup_range.map_on fun x _ y _ same => ?_
      rw [← place_place aligned x,same,place_place aligned]
    · simp only [List.mem_map,List.mem_range]
      constructor
      · rintro ⟨o,inside,rfl⟩
        exact place_lt aligned whole inside
      · intro inside
        exact ⟨place base q,place_lt aligned whole inside,place_place aligned q⟩
  have read : raw = (List.range raw.length).map fun q => raw.getD q 0 := by
    refine List.ext_getElem (by simp) fun q inside _ => ?_
    simp [List.getD_eq_getElem?_getD,List.getElem?_eq_getElem inside]
  have moved := places.map fun q => raw.getD q 0
  rw [List.map_map,← read] at moved
  exact moved

/-! ### The emitted array -/

theorem mapM_some {f : α → Option β} {g : α → β} {l : List α} (all : ∀ x ∈ l, f x = some (g x)) :
    l.mapM f = some (l.map g) := by
  induction l with
  | nil => rfl
  | cons x l ih =>
    rw [List.mapM_cons,all x List.mem_cons_self,ih fun y member => all y (List.mem_cons_of_mem x member)]
    rfl

theorem length_image (elemBytes : Nat) (elems : List Nat) :
    (image elemBytes elems).length = elems.length * elemBytes := by
  induction elems with
  | nil => simp [image]
  | cons v vs ih =>
    rw [image,List.map_cons,List.flatten_cons,List.length_append,length_split,← image,ih,List.length_cons]
    ring

theorem length_slice {xs : List Byte} {n k i : Nat} (whole : xs.length = k * n) (inside : i < k) :
    (slice xs n i).length = n := by
  have room : (i + 1) * n ≤ k * n := Nat.mul_le_mul_right n inside
  rw [Nat.succ_mul] at room
  rw [slice,List.length_take,List.length_drop,whole]
  omega

theorem slice_getElem? {xs : List Byte} {n i o : Nat} (inside : o < n) :
    (slice xs n i)[o]? = xs[i * n + o]? := by
  rw [slice,List.getElem?_take_of_lt inside,List.getElem?_drop]

/-- The elements of which the bytes are given. -/
theorem image_combine {out : List Byte} {elemBytes k : Nat} (whole : out.length = k * elemBytes) :
    image elemBytes ((List.range k).map fun i => combine (slice out elemBytes i)) = out := by
  have back : ∀ i ∈ List.range k, split elemBytes (combine (slice out elemBytes i)) = slice out elemBytes i := by
    intro i inside
    have size := length_slice whole (List.mem_range.mp inside)
    have round := split_combine (slice out elemBytes i)
    rwa [size] at round
  rw [image,List.map_map,Function.comp_def,List.map_congr_left back]
  have joined := Sync.Chunks.flatMap_slices out elemBytes k
  rw [← whole,List.take_length,List.flatMap_def] at joined
  exact joined

/-- What the layout promises of the tiles: rows of the swizzle, at offsets of rows. -/
structure Tiled (tileBases : List Nat) (tl length : Nat) : Prop where
  some : 0 < tileBases.length
  rows : ∀ b ∈ tileBases, 256 ∣ b
  positive : 0 < tl
  whole : 256 ∣ tl
  even : tl ∣ length

variable {tileBases : List Nat} {tl length : Nat}

/-- The offset of the buffer that takes a tile. -/
def offset (tileBases : List Nat) (tile : Nat) : Nat := tileBases.getD (tile % tileBases.length) 0

theorem Tiled.getElem? (tiled : Tiled tileBases tl length) (tile : Nat) :
    tileBases[tile % tileBases.length]? = Option.some (offset tileBases tile) := by
  have inside := Nat.mod_lt tile tiled.some
  rw [offset,List.getD_eq_getElem?_getD,List.getElem?_eq_getElem inside,Option.getD_some]

theorem Tiled.aligned (tiled : Tiled tileBases tl length) (tile : Nat) : 256 ∣ offset tileBases tile :=
  tiled.rows _ (List.mem_of_getElem? (tiled.getElem? tile))

theorem Tiled.length_eq (tiled : Tiled tileBases tl length) : length = length / tl * tl :=
  (Nat.div_mul_cancel tiled.even).symm

/-- The image of a tensor: its tiles, one swizzled after the other. -/
def swizzledImage (raw : List Byte) (tileBases : List Nat) (tl : Nat) : List Byte :=
  (List.range (raw.length / tl)).flatMap fun i => swizzled (slice raw tl i) (offset tileBases i)

theorem length_block {raw : List Byte} (tiled : Tiled tileBases tl raw.length) :
    ∀ i < raw.length / tl, (swizzled (slice raw tl i) (offset tileBases i)).length = tl := by
  intro i inside
  rw [length_swizzled,length_slice tiled.length_eq inside]

theorem slice_swizzledImage {raw : List Byte} (tiled : Tiled tileBases tl raw.length) {tile : Nat}
    (inside : tile < raw.length / tl) :
    slice (swizzledImage raw tileBases tl) tl tile = swizzled (slice raw tl tile) (offset tileBases tile) :=
  Sync.Chunks.slice_flatMap _ (length_block tiled) inside

theorem emitSwizzled_eq {elemBytes : Nat} {vals : List Nat} {tileLen : Option Nat}
    (bounded : ∀ v ∈ vals, v < 256 ^ elemBytes)
    (tiled : Tiled tileBases (tileLen.getD (image elemBytes vals).length) (image elemBytes vals).length) :
    ∃ elems, emitSwizzled elemBytes tileBases tileLen vals = some elems ∧
      image elemBytes elems =
        swizzledImage (image elemBytes vals) tileBases (tileLen.getD (image elemBytes vals).length) := by
  have bytes := mapM_some fun v member => show toBytes elemBytes v = some (split elemBytes v) from
    if_pos (bounded v member)
  have joined : (vals.map (split elemBytes)).flatten = image elemBytes vals := rfl
  set raw := image elemBytes vals with named
  set tl := tileLen.getD raw.length with tile
  have raised : ¬ (tl = 0 ∨ raw.length % tl ≠ 0) := by
    have positive := tiled.positive
    have even := Nat.mod_eq_zero_of_dvd tiled.even
    omega
  have blocks : ((List.range (raw.length / tl)).mapM fun i => do
      swizzleBlock (slice raw tl i) (← tileBases[i % tileBases.length]?)) =
      some ((List.range (raw.length / tl)).map fun i => swizzled (slice raw tl i) (offset tileBases i)) := by
    refine mapM_some fun i inside => ?_
    have size := length_slice tiled.length_eq (List.mem_range.mp inside)
    rw [tiled.getElem? i]
    exact swizzleBlock_eq (tiled.aligned i) (size.symm ▸ tiled.whole : 256 ∣ (slice raw tl i).length)
  have size : (swizzledImage raw tileBases tl).length = vals.length * elemBytes := by
    rw [swizzledImage,Sync.Chunks.length_flatMap_even _ (length_block tiled),
      ← tiled.length_eq,named,length_image]
  refine ⟨_,?_,image_combine size⟩
  simp only [Option.bind_eq_bind] at blocks
  simp only [emitSwizzled,bytes,Option.bind_eq_bind,Option.bind_some,joined,← tile,if_neg raised,blocks]
  rfl

/-! ### A swizzled writer -/

/-- A writer leaves in the buffer what a copy of the swizzled tile leaves there. -/
theorem writeSwizzled_eq (wide : 12 ≤ w) {base : BitVec w} (window : 2048 ∣ base.toNat) {off : Nat}
    (aligned : 256 ∣ off) (m : Memory w) {result : List Byte} (whole : 256 ∣ result.length)
    (fits : result.length ≤ 2 ^ w) :
    writeSwizzled m (base + BitVec.ofNat w off) result =
      store m (base + BitVec.ofNat w off) (swizzled result off) := by
  set dest := base + BitVec.ofNat w off with named
  have run (n : Nat) (inside : n ≤ result.length) :
      writeSwizzled m dest (result.take n) =
        fun x => (result.take n).getD (place off (x - dest).toNat) (m x) := by
    induction n with
    | zero => simp [writeSwizzled]
    | succ n ih =>
      have size : (result.take n).length = n := by rw [List.length_take]; omega
      have within := place_lt aligned whole inside
      rw [List.take_succ_eq_append_getElem inside,writeSwizzled,List.zipIdx_append,List.foldl_append,
        ← writeSwizzled,ih (by omega),size]
      simp only [List.zipIdx_singleton,List.foldl_cons,List.foldl_nil,Nat.zero_add]
      rw [named,xorBankSwizzle_destination wide window aligned,← named]
      funext x
      rw [store_byte]
      by_cases here : x = dest + BitVec.ofNat w (place off n)
      · rw [if_pos here,here,sub_start dest (by omega),place_place aligned,List.getD_eq_getElem?_getD,
          List.getElem?_append_right (by omega),size,Nat.sub_self]
        rfl
      · have other : place off (x - dest).toNat ≠ n := by
          intro met
          rw [← met,place_place aligned,start_add] at here
          exact here rfl
        rw [if_neg here,List.getD_eq_getElem?_getD,List.getD_eq_getElem?_getD]
        by_cases before : place off (x - dest).toNat < n
        · rw [List.getElem?_append_left (by omega)]
        · rw [List.getElem?_eq_none (by omega),
            List.getElem?_eq_none (by rw [List.length_append,size,List.length_singleton]; omega)]
  have all := run result.length (Nat.le_refl _)
  rw [List.take_length] at all
  rw [all]
  funext x
  by_cases inside : (x - dest).toNat < result.length
  · have within := place_lt aligned whole inside
    simp only [store,swizzled,List.getD_eq_getElem?_getD,List.getElem?_map,List.getElem?_range inside,
      Option.map_some,Option.getD_some,List.getElem?_eq_getElem within]
  · have outside : result.length ≤ place off (x - dest).toNat := by
      by_contra near
      have back := place_lt aligned whole (Nat.lt_of_not_le near)
      rw [place_place aligned] at back
      exact inside back
    rw [store_outside m (by simpa using inside),List.getD_eq_getElem?_getD,List.getElem?_eq_none outside,
      Option.getD_none]

theorem resultImage_eq (wide : 12 ≤ w) {base : BitVec w} (window : 2048 ∣ base.toNat)
    {result : List Byte} (tiled : Tiled tileBases tl result.length) (fits : tl ≤ 2 ^ w)
    (before : Nat → Memory w) :
    resultImage base tileBases tl (result.length / tl) before result = swizzledImage result tileBases tl := by
  refine congrArg List.flatten (List.map_congr_left fun t inside => ?_)
  have size := length_slice tiled.length_eq (List.mem_range.mp inside)
  have written := writeSwizzled_eq wide window (tiled.aligned t) (before t)
    (size.symm ▸ tiled.whole : 256 ∣ (slice result tl t).length) (by rw [size]; exact fits)
  have length : (swizzled (slice result tl t) (offset tileBases t)).length = tl := by
    rw [length_swizzled,size]
  have read := load_store (before t) (base + BitVec.ofNat w (offset tileBases t)) (length ▸ fits)
  rw [length] at read
  rw [destination,← offset,written,read]

/-- The twin of an index finds the byte of the index in the image. -/
theorem swizzledImage_twin {raw : List Byte} (tiled : Tiled tileBases tl raw.length) {k : Nat}
    (inside : k < raw.length) :
    ∃ q, twin tileBases tl k = some q ∧ (swizzledImage raw tileBases tl)[q]? = raw[k]? := by
  have positive := tiled.positive
  have low := Nat.mod_lt k positive
  have tile : k / tl < raw.length / tl := by
    rw [Nat.div_lt_iff_lt_mul positive,← tiled.length_eq]
    exact inside
  have size := length_slice tiled.length_eq tile
  have within := place_lt (tiled.aligned (k / tl)) tiled.whole low
  refine ⟨k / tl * tl + place (offset tileBases (k / tl)) (k % tl),?_,?_⟩
  · rw [twin,tiled.getElem?]
    rfl
  · rw [← slice_getElem? within,slice_swizzledImage tiled tile,
      swizzled_place (tiled.aligned _) (by rw [size]; exact tiled.whole) (by rw [size]; exact low),
      slice_getElem? low,
      Nat.div_add_mod']

/-- The twins of the sampled indices. -/
theorem twins_eq {raw : List Byte} (tiled : Tiled tileBases tl raw.length) (idx : List Nat)
    (drawn : ∀ k ∈ idx, k < raw.length) :
    ∃ twins, idx.mapM (twin tileBases tl) = some twins ∧
      List.Forall₂ (fun k q => (swizzledImage raw tileBases tl)[q]? = raw[k]?) idx twins := by
  induction idx with
  | nil => exact ⟨[],rfl,.nil⟩
  | cons k idx ih =>
    obtain ⟨q,first,found⟩ := swizzledImage_twin tiled (drawn k List.mem_cons_self)
    obtain ⟨twins,rest,all⟩ := ih fun k' member => drawn k' (List.mem_cons_of_mem k member)
    refine ⟨q :: twins,?_,.cons found all⟩
    rw [List.mapM_cons,first,rest]
    rfl

end PreSwizzle

open PreSwizzle AddressGenUnit Bytes in
/-- The tiles that the host emits, copied unchanged to their buffers, put each byte where a swizzled
port looks for it, and each tile is permuted within itself. The twin of each sampled index finds, in
the image of a result, the byte that a swizzled writer has stored for the index. -/
theorem preswizzle_agrees {w : Nat} (wide : 12 ≤ w) {base : BitVec w} (window : 2048 ∣ base.toNat)
    (tileBases : List Nat) (tileLen : Option Nat) :
    (∀ (elemBytes : Nat) (vals : List Nat), (∀ v ∈ vals, v < 256 ^ elemBytes) →
      ∀ raw, raw = image elemBytes vals → ∀ tl, tl = tileLen.getD raw.length →
      Tiled tileBases tl raw.length → tl ≤ 2 ^ w →
      ∃ elems, emitSwizzled elemBytes tileBases tileLen vals = some elems ∧
        ∀ t < raw.length / tl,
          (slice (image elemBytes elems) tl t).Perm (slice raw tl t) ∧
          ∀ (m : Memory w) (o : Nat), o < tl →
            some (store m (destination base tileBases t) (slice (image elemBytes elems) tl t)
              (xorBankSwizzleMapping (destination base tileBases t + BitVec.ofNat w o))) =
                raw[t * tl + o]?) ∧
    ∀ (result : List Byte) (tl : Nat), tl = tileLen.getD result.length →
      Tiled tileBases tl result.length → tl ≤ 2 ^ w →
      ∀ draws : List Nat, (∀ k ∈ draws, k < result.length) →
      ∃ idx twins, emitSamplesSwz result.length tileBases tileLen draws = some (idx,twins) ∧
        idx.Perm draws ∧
        ∀ before : Nat → Memory w, List.Forall₂ (fun k q =>
          (resultImage base tileBases tl (result.length / tl) before result)[q]? = result[k]?) idx twins := by
  refine ⟨?_,?_⟩
  · rintro elemBytes vals bounded raw rfl tl rfl tiled fits
    obtain ⟨elems,emitted,permuted⟩ := emitSwizzled_eq bounded tiled
    refine ⟨elems,emitted,fun t inside => ?_⟩
    have size := length_slice tiled.length_eq inside
    have aligned := tiled.aligned t
    have whole := size.symm ▸ tiled.whole
    rw [permuted,slice_swizzledImage tiled inside]
    refine ⟨swizzled_perm aligned whole,fun m o here => ?_⟩
    have within := place_lt aligned tiled.whole here
    have found := swizzled_place aligned whole (size.symm ▸ here)
    rw [List.getElem?_eq_getElem (by rw [length_swizzled,size]; exact within),slice_getElem? here] at found
    rw [destination,← offset,xorBankSwizzle_destination wide window aligned,store_inside _ _ (by omega),
      List.getD_eq_getElem?_getD,List.getElem?_eq_getElem (by rw [length_swizzled,size]; exact within),
      Option.getD_some,found]
  · intro result tl tile tiled fits draws drawn
    have sorted := List.mergeSort_perm draws (fun a b => decide (a ≤ b))
    obtain ⟨twins,found,all⟩ := twins_eq tiled draws.mergeSort
      fun k member => drawn k (sorted.mem_iff.mp member)
    refine ⟨_,twins,?_,sorted,fun before => ?_⟩
    · have positive := Nat.ne_of_gt tiled.positive
      simp only [emitSamplesSwz,← tile,if_neg positive,found]
      rfl
    · rw [resultImage_eq wide window tiled fits before]
      exact all

open PreSwizzle Bytes in
/-- Two rows into one buffer at the second row of the layout. -/
theorem preswizzle_agrees_rows :
    ∃ elems, emitSwizzled 1 [256] (some 256) ((List.range 512).map (· % 256)) = some elems ∧
      ∀ t < 2, (slice (image 1 elems) 256 t).Perm
        (slice (image 1 ((List.range 512).map (· % 256))) 256 t) := by
  have size : (image 1 ((List.range 512).map (· % 256))).length = 512 := by
    rw [length_image]
    simp
  have tiled : Tiled [256] 256 (image 1 ((List.range 512).map (· % 256))).length := by
    rw [size]
    exact ⟨by decide,by decide,by decide,by decide,by decide⟩
  obtain ⟨elems,emitted,all⟩ := (@preswizzle_agrees 16 (by decide) 2048 (by decide) [256]
    (some 256)).1 1 ((List.range 512).map (· % 256)) (by simp; omega) _ rfl 256 rfl tiled (by decide)
  exact ⟨elems,emitted,fun t inside => (all t (by rw [size]; exact inside)).1⟩

end Snax
