import Snax.Interp

/-! `sim/src/mem.hpp`: the address space of the simulator in pages that the first write to one creates.
An access is cut where it crosses a page and wraps behind the last address. -/
namespace Snax

open Bytes (Byte Memory load store split combine store_outside)
open Interp (Word)

def pageBits : Nat := 12
def pageSize : Nat := 1 <<< pageBits
def pageMask : Word := BitVec.ofNat 32 (pageSize - 1)

structure Page where
  bytes : List Byte
  size : bytes.length = pageSize

/-- `vec.assign(PAGE_SIZE, 0)`. -/
def Page.zero : Page := ⟨List.replicate pageSize 0,List.length_replicate⟩

/-- `memcpy` into a page. -/
def Page.copyIn (p : Page) (off : Nat) (src : List Byte) : Page where
  bytes := p.bytes.mapIdx fun i old => if i < off then old else src.getD (i - off) old
  size := by rw [List.length_mapIdx,p.size]

/-- `memcpy` out of a page. -/
def Page.copyOut (p : Page) (off chunk : Nat) : List Byte := (p.bytes.drop off).take chunk

/-- `pages_`. -/
structure PagedMemory where
  pages : Word → Option Page

namespace PagedMemory

def empty : PagedMemory := ⟨fun _ => none⟩

def put (m : PagedMemory) (pno : Word) (p : Page) : PagedMemory :=
  ⟨Function.update m.pages pno (some p)⟩

def pageFor (m : PagedMemory) (addr : Word) (create : Bool) : Option Page × PagedMemory :=
  match m.pages (addr >>> pageBits) with
  | some p => (some p,m)
  | none => if create then (some .zero,m.put (addr >>> pageBits) .zero) else (none,m)

def offset (addr : Word) : Nat := (addr &&& pageMask).toNat

/-- The bytes of an access that lie in the page of its first one. -/
def chunk (addr : Word) (n : Nat) : Nat := min (pageSize - offset addr) n

theorem offset_eq (addr : Word) : offset addr = addr.toNat % pageSize := by
  rw [offset,BitVec.toNat_and]
  exact Nat.and_two_pow_sub_one_eq_mod _ 12

theorem offset_lt (addr : Word) : offset addr < pageSize := by
  rw [offset_eq]
  exact Nat.mod_lt _ (by decide)

theorem chunk_pos (addr : Word) {n : Nat} (some : 0 < n) : 0 < chunk addr n := by
  have inside := offset_lt addr
  rw [chunk]
  omega

/-- One round of the loop of `write`. -/
def writeChunk (m : PagedMemory) (addr : Word) (src : List Byte) : PagedMemory :=
  match m.pageFor addr true with
  | (some p,m) => m.put (addr >>> pageBits) (p.copyIn (offset addr) src)
  | (none,m) => m

def write (m : PagedMemory) (addr : Word) (src : List Byte) : PagedMemory :=
  if some : 0 < src.length then
    write (m.writeChunk addr (src.take (chunk addr src.length)))
      (addr + BitVec.ofNat 32 (chunk addr src.length)) (src.drop (chunk addr src.length))
  else m
termination_by src.length
decreasing_by
  have positive := chunk_pos addr some
  rw [List.length_drop]
  omega

/-- One round of the loop of `read`. -/
def readChunk (m : PagedMemory) (addr : Word) (n : Nat) : List Byte × PagedMemory :=
  match m.pageFor addr false with
  | (some p,m) => (p.copyOut (offset addr) n,m)
  | (none,m) => (List.replicate n 0,m)

def read (m : PagedMemory) (addr : Word) (n : Nat) : List Byte × PagedMemory :=
  if some : 0 < n then
    let first := m.readChunk addr (chunk addr n)
    let rest := first.2.read (addr + BitVec.ofNat 32 (chunk addr n)) (n - chunk addr n)
    (first.1 ++ rest.1,rest.2)
  else ([],m)
termination_by n
decreasing_by
  have positive := chunk_pos addr some
  omega

/-! ### Typed accesses -/

/-- An access of a word of `n` bytes. -/
def ld (n : Nat) (m : PagedMemory) (a : Word) : BitVec (8 * n) × PagedMemory :=
  (BitVec.ofNat (8 * n) (combine (m.read a n).1),(m.read a n).2)

def st (n : Nat) (m : PagedMemory) (a : Word) (v : BitVec (8 * n)) : PagedMemory :=
  m.write a (split n v.toNat)

def ld32 : PagedMemory → Word → BitVec 32 × PagedMemory := ld 4
def ld16 : PagedMemory → Word → BitVec 16 × PagedMemory := ld 2
def ld8 : PagedMemory → Word → BitVec 8 × PagedMemory := ld 1
def ld64 : PagedMemory → Word → BitVec 64 × PagedMemory := ld 8
def st32 : PagedMemory → Word → BitVec 32 → PagedMemory := st 4
def st16 : PagedMemory → Word → BitVec 16 → PagedMemory := st 2
def st8 : PagedMemory → Word → BitVec 8 → PagedMemory := st 1
def st64 : PagedMemory → Word → BitVec 64 → PagedMemory := st 8

/-! ### The flat map -/

/-- The byte at each address, zero where there is no page. -/
def flat (m : PagedMemory) : Memory 32 := fun x =>
  match m.pages (x >>> pageBits) with
  | some p => p.bytes.getD (offset x) 0
  | none => 0

variable {m : PagedMemory} {a x : Word}

theorem page_eq_iff : x >>> pageBits = a >>> pageBits ↔ x.toNat / pageSize = a.toNat / pageSize := by
  rw [← BitVec.toNat_inj,BitVec.toNat_ushiftRight,BitVec.toNat_ushiftRight,
    Nat.shiftRight_eq_div_pow,Nat.shiftRight_eq_div_pow]
  exact Iff.rfl

theorem toNat_distance : (x - a).toNat = (2 ^ 32 - a.toNat + x.toNat) % 2 ^ 32 := BitVec.toNat_sub x a

/-- In the page of the start, in front of it or as far behind it as the offsets are apart. -/
theorem distance_of_page (same : x >>> pageBits = a >>> pageBits) :
    offset x < offset a ∧ pageSize - offset a ≤ (x - a).toNat ∨
      offset a ≤ offset x ∧ (x - a).toNat = offset x - offset a := by
  rw [page_eq_iff] at same
  rw [offset_eq,offset_eq,toNat_distance]
  have low := a.isLt
  have high := x.isLt
  have page : pageSize = 4096 := rfl
  rw [page] at same ⊢
  omega

/-- In another page, beyond the page of the start. -/
theorem distance_of_ne (apart : x >>> pageBits ≠ a >>> pageBits) :
    pageSize - offset a ≤ (x - a).toNat := by
  rw [Ne,page_eq_iff] at apart
  rw [offset_eq,toNat_distance]
  have low := a.isLt
  have high := x.isLt
  have page : pageSize = 4096 := rfl
  rw [page] at apart ⊢
  omega

/-- An address in the page of the start, so many bytes behind it. -/
theorem page_add {k : Nat} (inside : offset a + k < pageSize) :
    (a + BitVec.ofNat 32 k) >>> pageBits = a >>> pageBits ∧
      offset (a + BitVec.ofNat 32 k) = offset a + k := by
  rw [page_eq_iff,offset_eq,offset_eq,BitVec.toNat_add,BitVec.toNat_ofNat]
  rw [offset_eq] at inside
  have low := a.isLt
  have page : pageSize = 4096 := rfl
  rw [page] at inside ⊢
  omega

/-- A view of a page is the page, with zeros where there is none. -/
def Shows (m : PagedMemory) (pno : Word) (p : Page) : Prop :=
  ∀ x : Word, x >>> pageBits = pno → flat m x = p.bytes.getD (offset x) 0

theorem shows_page {pno : Word} {p : Page} (found : m.pages pno = some p) : m.Shows pno p := by
  intro x same
  rw [flat,same,found]

theorem shows_zero {pno : Word} (none : m.pages pno = none) : m.Shows pno .zero := by
  intro x same
  rw [flat,same,none]
  have inside := offset_lt x
  simp [Page.zero,inside]

theorem copyIn_getD (p : Page) {off i : Nat} (src : List Byte) (inside : i < pageSize) :
    (p.copyIn off src).bytes.getD i 0 =
      if i < off then p.bytes.getD i 0 else src.getD (i - off) (p.bytes.getD i 0) := by
  have place : i < p.bytes.length := by rwa [p.size]
  have old : p.bytes[i]? = some (p.bytes[i]) := List.getElem?_eq_getElem place
  simp only [Page.copyIn,List.getD_eq_getElem?_getD,List.getElem?_mapIdx,old,Option.map_some,
    Option.getD_some]

theorem flat_put_copyIn {p : Page} {src : List Byte} (shows_ : m.Shows (a >>> pageBits) p)
    (fits : src.length ≤ pageSize - offset a) :
    flat (m.put (a >>> pageBits) (p.copyIn (offset a) src)) = store (flat m) a src := by
  funext x
  by_cases same : x >>> pageBits = a >>> pageBits
  · have written : flat (m.put (a >>> pageBits) (p.copyIn (offset a) src)) x =
        (p.copyIn (offset a) src).bytes.getD (offset x) 0 :=
      shows_page (Function.update_self _ _ _) x same
    rw [written,copyIn_getD p src (offset_lt x),← shows_ x same]
    rcases distance_of_page same with ⟨before,far⟩ | ⟨behind,distance⟩
    · rw [if_pos before,store_outside _ (fits.trans far)]
    · rw [if_neg (Nat.not_lt_of_ge behind),store,distance]
  · have other : (m.put (a >>> pageBits) (p.copyIn (offset a) src)).pages (x >>> pageBits) =
        m.pages (x >>> pageBits) := Function.update_of_ne same _ _
    have kept : flat (m.put (a >>> pageBits) (p.copyIn (offset a) src)) x = flat m x := by
      rw [flat,flat,other]
    rw [kept,store_outside _ (fits.trans (distance_of_ne same))]

theorem flat_writeChunk {src : List Byte} (fits : src.length ≤ pageSize - offset a) :
    flat (m.writeChunk a src) = store (flat m) a src := by
  cases found : m.pages (a >>> pageBits) with
  | some p =>
    rw [writeChunk,pageFor,found]
    exact flat_put_copyIn (shows_page found) fits
  | none =>
    have again (p : Page) : (m.put (a >>> pageBits) .zero).put (a >>> pageBits) p =
        m.put (a >>> pageBits) p := congrArg PagedMemory.mk (Function.update_idem _ _ _)
    rw [writeChunk,pageFor,found]
    change flat ((m.put (a >>> pageBits) .zero).put (a >>> pageBits) _) = _
    rw [again]
    exact flat_put_copyIn (shows_zero found) fits

/-- A write stores its bytes in the flat map, across pages and behind the last address. -/
theorem flat_write (m : PagedMemory) (a : Word) (src : List Byte) (fits : src.length ≤ 2 ^ 32) :
    flat (m.write a src) = store (flat m) a src := by
  induction m, a, src using write.induct with
  | case1 m a src some ih =>
    have short : (src.take (chunk a src.length)).length = chunk a src.length := by
      rw [List.length_take,chunk]
      omega
    have first : flat (m.writeChunk a (src.take (chunk a src.length))) =
        store (flat m) a (src.take (chunk a src.length)) :=
      flat_writeChunk (by rw [short]; exact Nat.min_le_left _ _)
    have both : (src.take (chunk a src.length)).length + (src.drop (chunk a src.length)).length ≤
        2 ^ 32 := by rwa [← List.length_append,List.take_append_drop]
    have whole := Bytes.store_append (flat m) a both
    rw [short,List.take_append_drop] at whole
    rw [write,dif_pos some,ih (by rw [List.length_drop]; omega),first,whole]
  | case2 m a src none =>
    have nothing : src = [] := List.eq_nil_of_length_eq_zero (by omega)
    subst nothing
    rw [write,dif_neg none]
    rfl

theorem readChunk_eq {n : Nat} (fits : n ≤ pageSize - offset a) :
    m.readChunk a n = (load (flat m) a n,m) := by
  have inside := offset_lt a
  cases found : m.pages (a >>> pageBits) with
  | some p =>
    rw [readChunk,pageFor,found]
    refine congrArg (·,m) (List.ext_getElem? fun k => ?_)
    rcases Nat.lt_or_ge k n with below | beyond
    · have near := page_add (a := a) (k := k) (by omega)
      have size := p.size
      rw [Bytes.load_getElem? _ _ below,shows_page found _ near.1,near.2,Page.copyOut,
        List.getElem?_take_of_lt below,List.getElem?_drop,List.getD_eq_getElem?_getD,
        List.getElem?_eq_getElem (by omega)]
      rfl
    · rw [List.getElem?_eq_none (by rw [Page.copyOut,List.length_take]; omega),
        List.getElem?_eq_none (by rwa [Bytes.length_load])]
  | none =>
    rw [readChunk,pageFor,found]
    refine congrArg (·,m) (List.ext_getElem? fun k => ?_)
    rcases Nat.lt_or_ge k n with below | beyond
    · have near := page_add (a := a) (k := k) (by omega)
      rw [Bytes.load_getElem? _ _ below,flat,near.1,found,List.getElem?_replicate,if_pos below]
    · rw [List.getElem?_eq_none (by rwa [List.length_replicate]),
        List.getElem?_eq_none (by rwa [Bytes.length_load])]

/-- A read loads from the flat map and leaves every page as it was. -/
theorem read_eq (m : PagedMemory) (a : Word) (n : Nat) : m.read a n = (load (flat m) a n,m) := by
  induction m, a, n using read.induct with
  | case1 m a n some first ih =>
    have short : chunk a n ≤ pageSize - offset a := Nat.min_le_left _ _
    have most : chunk a n ≤ n := Nat.min_le_right _ _
    have here : first = (load (flat m) a (chunk a n),m) := readChunk_eq short
    have whole := Bytes.load_add (flat m) a (chunk a n) (n - chunk a n)
    rw [Nat.add_sub_cancel' most] at whole
    rw [here] at ih
    rw [read,dif_pos some,readChunk_eq short]
    simp only [ih]
    rw [whole]
  | case2 m a n none =>
    have nothing : n = 0 := by omega
    subst nothing
    rw [read,dif_neg none]
    rfl

theorem flat_st (n : Nat) (m : PagedMemory) (a : Word) (v : BitVec (8 * n)) (fits : n ≤ 2 ^ 32) :
    flat (st n m a v) = store (flat m) a (split n v.toNat) :=
  flat_write m a _ (by rwa [Bytes.length_split])

/-- The typed accesses of the interpreter's flat memory are those of the pages. -/
theorem ld32_flat (m : PagedMemory) (a : Word) : m.ld32 a = (Interp.ld32 (flat m) a,m) := by
  rw [ld32,ld,read_eq]
  rfl

theorem st32_flat (m : PagedMemory) (a v : Word) : flat (m.st32 a v) = Interp.st32 (flat m) a v :=
  flat_st 4 m a v (by decide)

/-! ### Runs -/

inductive Op where
  | write (addr : Word) (src : List Byte) (short : src.length < 2 ^ 32)
  | read (addr n : Word)
  | ld64 (addr : Word)
  | ld32 (addr : Word)
  | ld16 (addr : Word)
  | ld8 (addr : Word)
  | st64 (addr : Word) (v : BitVec 64)
  | st32 (addr : Word) (v : BitVec 32)
  | st16 (addr : Word) (v : BitVec 16)
  | st8 (addr : Word) (v : BitVec 8)

def step (m : PagedMemory) : Op → PagedMemory
  | .write addr src _ => m.write addr src
  | .read addr n => (m.read addr n.toNat).2
  | .ld64 addr => (m.ld64 addr).2
  | .ld32 addr => (m.ld32 addr).2
  | .ld16 addr => (m.ld16 addr).2
  | .ld8 addr => (m.ld8 addr).2
  | .st64 addr v => m.st64 addr v
  | .st32 addr v => m.st32 addr v
  | .st16 addr v => m.st16 addr v
  | .st8 addr v => m.st8 addr v

def run (ops : List Op) : PagedMemory := ops.foldl step empty

/-- The `k`-th byte of a word of `n`, the lowest one first. -/
def wordByte (n v k : Nat) : Option Byte := if k < n then some (BitVec.ofNat 8 (v / 256 ^ k)) else none

/-- The byte that an operation writes to an address. -/
def Op.written (x : Word) : Op → Option Byte
  | .write addr src _ => src[(x - addr).toNat]?
  | .st64 addr v => wordByte 8 v.toNat (x - addr).toNat
  | .st32 addr v => wordByte 4 v.toNat (x - addr).toNat
  | .st16 addr v => wordByte 2 v.toNat (x - addr).toNat
  | .st8 addr v => wordByte 1 v.toNat (x - addr).toNat
  | .read .. | .ld64 _ | .ld32 _ | .ld16 _ | .ld8 _ => none

/-- The byte written last to an address, zero without one. -/
def lastWritten (ops : List Op) (x : Word) : Byte := (ops.reverse.findSome? (·.written x)).getD 0

/-- What a load of `n` bytes from an address has to give. -/
def lastWord (ops : List Op) (a : Word) (n : Nat) : Nat :=
  combine ((List.range n).map fun i => lastWritten ops (a + BitVec.ofNat 32 i))

theorem store_getD (b : Memory 32) (a x : Word) (bs : List Byte) :
    store b a bs x = (bs[(x - a).toNat]?).getD (b x) := List.getD_eq_getElem?_getD

theorem flat_step (m : PagedMemory) (op : Op) (x : Word) :
    flat (m.step op) x = (op.written x).getD (flat m x) := by
  have word (n : Nat) (a : Word) (v : BitVec (8 * n)) (fits : n ≤ 2 ^ 32) :
      flat (st n m a v) x = (wordByte n v.toNat (x - a).toNat).getD (flat m x) := by
    rw [flat_st n m a v fits,store_getD,Bytes.split_getElem?,wordByte]
  cases op with
  | write addr src short =>
    rw [step,flat_write m addr src (Nat.le_of_lt short),store_getD]
    rfl
  | read addr n => rw [step,read_eq]; rfl
  | ld64 addr => rw [step,PagedMemory.ld64,ld,read_eq]; rfl
  | ld32 addr => rw [step,PagedMemory.ld32,ld,read_eq]; rfl
  | ld16 addr => rw [step,PagedMemory.ld16,ld,read_eq]; rfl
  | ld8 addr => rw [step,PagedMemory.ld8,ld,read_eq]; rfl
  | st64 addr v => exact word 8 addr v (by decide)
  | st32 addr v => exact word 4 addr v (by decide)
  | st16 addr v => exact word 2 addr v (by decide)
  | st8 addr v => exact word 1 addr v (by decide)

theorem lastWritten_concat (ops : List Op) (op : Op) (x : Word) :
    lastWritten (ops ++ [op]) x = (op.written x).getD (lastWritten ops x) := by
  rw [lastWritten,List.reverse_append,List.reverse_singleton,List.singleton_append,List.findSome?_cons]
  cases op.written x <;> rfl

theorem flat_run (ops : List Op) : flat (run ops) = lastWritten ops := by
  funext x
  induction ops using List.reverseRecOn with
  | nil => rfl
  | append_singleton front op ih =>
    rw [lastWritten_concat,run,List.foldl_append,← ih]
    exact flat_step _ op x

theorem load_run (ops : List Op) (a : Word) (n : Nat) :
    load (flat (run ops)) a n = (List.range n).map fun i => lastWritten ops (a + BitVec.ofNat 32 i) := by
  rw [flat_run]
  rfl

theorem ld_toNat (ops : List Op) (a : Word) (n : Nat) :
    ((run ops).ld n a).1.toNat = lastWord ops a n := by
  have short := Bytes.combine_lt (load (flat (run ops)) a n)
  rw [Bytes.length_load] at short
  have width : 2 ^ (8 * n) = 256 ^ n := Nat.pow_mul 2 8 n
  rw [ld,read_eq,BitVec.toNat_ofNat,width,Nat.mod_eq_of_lt short,load_run]
  rfl

theorem ld_snd (n : Nat) (m : PagedMemory) (a : Word) : (ld n m a).2 = m := by
  rw [ld,read_eq]

/-- After a sequence of operations every access sees the bytes that were written last, and a load changes
nothing. -/
structure ByteMap (ops : List Op) : Prop where
  read : ∀ a n, ((run ops).read a n).1 =
    (List.range n).map fun i => lastWritten ops (a + BitVec.ofNat 32 i)
  ld64 : ∀ a, ((run ops).ld64 a).1.toNat = lastWord ops a 8
  ld32 : ∀ a, ((run ops).ld32 a).1.toNat = lastWord ops a 4
  ld16 : ∀ a, ((run ops).ld16 a).1.toNat = lastWord ops a 2
  ld8 : ∀ a, ((run ops).ld8 a).1.toNat = lastWord ops a 1
  unchanged : ∀ a n, ((run ops).read a n).2 = run ops ∧ ((run ops).ld64 a).2 = run ops ∧
    ((run ops).ld32 a).2 = run ops ∧ ((run ops).ld16 a).2 = run ops ∧ ((run ops).ld8 a).2 = run ops

theorem memory_is_byte_map (ops : List Op) : ByteMap ops where
  read a n := by rw [read_eq,load_run]
  ld64 a := ld_toNat ops a 8
  ld32 a := ld_toNat ops a 4
  ld16 a := ld_toNat ops a 2
  ld8 a := ld_toNat ops a 1
  unchanged a n := ⟨by rw [read_eq],ld_snd 8 _ a,ld_snd 4 _ a,ld_snd 2 _ a,ld_snd 1 _ a⟩

end PagedMemory
end Snax
