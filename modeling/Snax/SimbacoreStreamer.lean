import Snax.AddressLaw
import Snax.CsrMap
import Snax.LayoutAudit
import Snax.ReaderReuse

/-! The streamer of `cfg/snax_simbacore_cluster.hjson`, as `stream_param_gen.scala.tpl` hands it to the
generator: 14 readers and 4 writers on a TCDM of 512 KiB. `decode_ports` of the simulator and the wiring
of the generator cut the same registers into its 18 ports. -/
namespace Snax.Simbacore

open Streamer Layout SimWorld

theorem one_positive : ∀ b ∈ [1], 0 < b := by decide
theorem four_positive : ∀ b ∈ [4], 0 < b := by decide
theorem square_positive : ∀ b ∈ [2,2], 0 < b := by decide
theorem one_fits : [1].prod ≤ 1 := by decide
theorem four_fit : [4].prod ≤ 4 := by decide
theorem square_fits : [2,2].prod ≤ 4 := by decide
theorem deep3 : 0 < 3 := by decide
theorem deep4 : 0 < 4 := by decide
theorem deep5 : 0 < 5 := by decide
theorem deep6 : 0 < 6 := by decide
theorem deep8 : 0 < 8 := by decide
theorem mappings : ([256,0,-1,-2] : List Int) ≠ [] := by decide

/-- One column of the table of data movers. -/
def mover (spatialBounds : List Nat) (numChannel fifoDepth : Nat) (delayedStart : Bool)
    (positive : ∀ b ∈ spatialBounds, 0 < b) (fits : spatialBounds.prod ≤ numChannel)
    (deep : 0 < fifoDepth) : ReaderWriterParam where
  spatialBounds := spatialBounds
  temporalDimension := 4
  tcdmDataWidth := 64
  tcdmSize := 512
  tcdmPhysWordSize := 256
  tcdmLogicWordSize := [256,0,-1,-2]
  numChannel := numChannel
  addressBufferDepth := fifoDepth
  dataBufferDepth := fifoDepth
  configurableChannel := false
  configurableByteMask := false
  crossClockDomain := false
  delayedStart := delayedStart
  spatialPositive := positive
  spatialFits := fits
  temporalPositive := deep4
  addressDepthPositive := deep
  dataDepthPositive := deep
  remapNonempty := mappings

def narrow (fifoDepth : Nat) (delayedStart : Bool) (deep : 0 < fifoDepth) : ReaderWriterParam :=
  mover [1] 1 fifoDepth delayedStart one_positive one_fits deep

def readerParams : List ReaderWriterParam :=
  [mover [2] 2 8 false two_channels_positive two_channels_fit deep8,
    mover [4] 4 3 false four_positive four_fit deep3,
    narrow 3 false deep3,narrow 1 false Nat.one_pos,narrow 1 false Nat.one_pos,narrow 1 false Nat.one_pos,
    narrow 1 false Nat.one_pos,
    mover [2,2] 4 5 false square_positive square_fits deep5,
    narrow 1 false Nat.one_pos,narrow 1 false Nat.one_pos,narrow 4 true deep4,narrow 2 true Nat.two_pos,
    mover [4] 4 6 false four_positive four_fit deep6,mover [4] 4 4 false four_positive four_fit deep4]

def writerParams : List ReaderWriterParam :=
  [narrow 4 false deep4,narrow 1 false Nat.one_pos,narrow 3 false deep3,
    mover [2,2] 4 4 false square_positive square_fits deep4]

theorem readerParams_some : readerParams ≠ [] := by decide

theorem params_unrolled : ∀ p ∈ readerParams ++ writerParams ++ [],
    p.spatialBounds ≠ [] ∧ p.spatialBounds.prod = p.numChannel := by decide

theorem no_pairs : ([] : List ReaderWriterParam).length % 2 = 0 := rfl

theorem readers_extended :
    readerParams.length = (List.replicate 14 ([] : List DataPathExtensionParam)).length := rfl

theorem writers_extended :
    writerParams.length = (List.replicate 4 ([] : List DataPathExtensionParam)).length := rfl

theorem pairs_extended : ([] : List ReaderWriterParam).length =
    ([] : List (List DataPathExtensionParam)).length := rfl

def streamer : StreamerParam where
  readerParams := readerParams
  writerParams := writerParams
  readerWriterParams := []
  readerDatapathExtension := List.replicate 14 []
  writerDatapathExtension := List.replicate 4 []
  readerwriterDatapathExtension := []
  csrAddrWidth := 32
  hasReader := readerParams_some
  unrolled := params_unrolled
  paired := no_pairs
  readerExtensions := readers_extended
  writerExtensions := writers_extended
  readerWriterExtensions := pairs_extended

/-! ### The registers of a port -/

/-- The ports as the simulator numbers them: R0 to R13, then W0 to W3. -/
def tag (p : Nat) : Tag := if p < 14 then .reader p else .writer (p - 14)

def portParam (p : Nat) : ReaderWriterParam :=
  (readerParams ++ writerParams).getD p (narrow 1 false Nat.one_pos)

/-- The registers that the generator wires to a field. -/
def registers (f : Field) : List Nat := ((elaborate streamer).bind fun hw => hw.registers f).getD []

def register (p : Nat) (field : MoverField) (k : Nat) : Nat := (registers (.mover (tag p) field)).getD k 0

/-- The configuration of a port out of the values of the registers. -/
def aguCfg (raw : Nat → BitVec 32) (p : Nat) : AddressGenUnitCfgIO (portParam p).aguParam where
  ptr := (raw (register p .ptrHigh 0) ++ raw (register p .ptrLow 0)).setWidth _
  spatialStrides := Vector.ofFn fun k => (raw (register p .spatialStrides k)).setWidth _
  temporalBounds := Vector.ofFn fun k => (raw (register p .temporalBounds k)).setWidth _
  temporalStrides := Vector.ofFn fun k => (raw (register p .temporalStrides k)).setWidth _
  addressRemapIndex := (raw (register p .addressRemapIndex 0)).setWidth _

/-- A field takes the registers of its span. -/
theorem registers_eq {f : Field} {a n : Nat} (span : (f,a,n) ∈ spans 0 (csrLayout streamer)) :
    registers f = List.range' a n := by
  obtain ⟨hw,built,wired,-⟩ := elaborate_layout streamer (readerWriter_own streamer (Nat.zero_le 2))
  have sliced : hw.registers f = some (List.range' a n) := by
    rw [← mem_slices_iff,wired]
    exact List.mem_map.mpr ⟨(f,a,n),span,rfl⟩
  rw [registers,built,Option.bind_some,sliced,Option.getD_some]

/-- Where the fields of a port are, in the numbers of the simulator. -/
def fieldSpans (p : Nat) : List (Field × Nat × Nat) :=
  [(.mover (tag p) .ptrLow,baseCsr p,1),(.mover (tag p) .ptrHigh,baseCsr p + 1,1),
    (.mover (tag p) .spatialStrides,baseCsr p + 2,nSpatial p),
    (.mover (tag p) .temporalBounds,baseCsr p + 2 + nSpatial p,4),
    (.mover (tag p) .temporalStrides,baseCsr p + 2 + nSpatial p + 4,4),
    (.mover (tag p) .addressRemapIndex,baseCsr p + 2 + nSpatial p + 8,1)]

theorem fieldSpans_wired : ∀ p ∈ List.range 18, ∀ s ∈ fieldSpans p, s ∈ spans 0 (csrLayout streamer) := by
  decide +kernel

theorem register_eq {p : Nat} (port : p < 18) {field : MoverField} {a n : Nat}
    (span : (Field.mover (tag p) field,a,n) ∈ fieldSpans p) {k : Nat} (inside : k < n) :
    register p field k = a + k := by
  have wired := registers_eq (fieldSpans_wired p (List.mem_range.mpr port) _ span)
  rw [register,wired,List.getD_eq_getElem?_getD,List.getElem?_range' inside,Option.getD_some,Nat.one_mul]

/-! ### The two readings of the registers -/

theorem portParam_eq : ∀ p ∈ List.range 18, (portParam p).aguParam.addressWidth = 19 ∧
    (portParam p).temporalDimension = 4 ∧ (portParam p).spatialBounds.length = nSpatial p ∧
    (portParam p).tcdmLogicWordSize = [256,0,-1,-2] ∧ (portParam p).tcdmPhysWordSize = 256 := by
  decide +kernel

variable {raw : Nat → BitVec 32} {p : Nat}

/-- The generator's wiring and `decode_ports` agree, up to the width of the addresses. -/
structure Decoded (a : Port) (cfg : AddressGenUnitCfgIO (portParam p).aguParam) : Prop where
  ptr : cfg.ptr = a.base.setWidth _
  spatial : cfg.spatialStrides.toList = (a.sStride.toList.take a.nS).map (BitVec.setWidth _)
  bounds : cfg.temporalBounds.toList = a.tBound.toList.map (BitVec.setWidth _)
  strides : cfg.temporalStrides.toList = a.tStride.toList.map (BitVec.setWidth _)
  remap : cfg.addressRemapIndex = a.remap.setWidth _

theorem register_ptrLow (port : p < 18) : register p .ptrLow 0 = baseCsr p + 0 :=
  register_eq port (List.mem_cons_self) Nat.one_pos

theorem register_ptrHigh (port : p < 18) : register p .ptrHigh 0 = baseCsr p + 1 + 0 :=
  register_eq port (by simp [fieldSpans]) Nat.one_pos

theorem register_spatialStrides (port : p < 18) {k : Nat} (inside : k < nSpatial p) :
    register p .spatialStrides k = baseCsr p + 2 + k :=
  register_eq port (by simp [fieldSpans]) inside

theorem register_temporalBounds (port : p < 18) {k : Nat} (inside : k < 4) :
    register p .temporalBounds k = baseCsr p + 2 + nSpatial p + k :=
  register_eq port (by simp [fieldSpans]) inside

theorem register_temporalStrides (port : p < 18) {k : Nat} (inside : k < 4) :
    register p .temporalStrides k = baseCsr p + 2 + nSpatial p + 4 + k :=
  register_eq port (by simp [fieldSpans]) inside

theorem register_addressRemapIndex (port : p < 18) :
    register p .addressRemapIndex 0 = baseCsr p + 2 + nSpatial p + 8 + 0 :=
  register_eq port (by simp [fieldSpans]) Nat.one_pos

theorem nSpatial_le (p : Nat) : nSpatial p ≤ 2 := by
  unfold nSpatial
  split <;> omega

theorem decoded (port : p < 18) : Decoded (decodePorts raw p) (aguCfg raw p) := by
  obtain ⟨-,dims,spatial,-⟩ := portParam_eq p (List.mem_range.mpr port)
  have few := nSpatial_le p
  refine ⟨?_,?_,?_,?_,?_⟩
  · rw [aguCfg,register_ptrLow port,register_ptrHigh port]
    rfl
  · apply List.ext_getElem
    · simp [aguCfg,decodePorts,spatial,few]
    · intro k inside _
      have below : k < nSpatial p := by simpa [aguCfg,spatial] using inside
      simp [aguCfg,decodePorts,below,register_spatialStrides port below]
  · apply List.ext_getElem
    · simp [aguCfg,decodePorts,dims]
    · intro k inside _
      have below : k < 4 := by simpa [aguCfg,dims] using inside
      simp [aguCfg,decodePorts,register_temporalBounds port below]
  · apply List.ext_getElem
    · simp [aguCfg,decodePorts,dims]
    · intro k inside _
      have below : k < 4 := by simpa [aguCfg,dims] using inside
      simp [aguCfg,decodePorts,register_temporalStrides port below]
  · rw [aguCfg,register_addressRemapIndex port]
    rfl

end Snax.Simbacore
