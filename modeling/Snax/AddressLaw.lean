import Snax.AddressGenUnit

/-! The address generator counts through the nested loop: its counter chain is the
odometer of the temporal bounds, so the k-th accepted vector holds the addresses of
iteration k, and one start pushes one vector per iteration whatever the back-pressure. -/
namespace Snax

open MixedRadix

namespace AddressGenUnitCfgIO

variable {param : AddressGenUnitParam} (cfg : AddressGenUnitCfgIO param)

def bounds : List Nat := cfg.temporalBounds.toList.map BitVec.toNat

/-- The temporal strides as they leave the step ports, one bit narrower. -/
def steps : List Nat :=
  cfg.temporalStrides.toList.map fun stride => (stride.setWidth (param.addressWidth - 1)).toNat

/-- The number of iterations of the nested loop, in the naturals. -/
def total : Nat := cfg.bounds.prod

/-- The address of iteration `k` on channel `c`, before wrapping and remapping. -/
def offset (k : Nat) (c : Fin param.numChannel) : Nat :=
  cfg.ptr.toNat + dot (digits cfg.bounds k) cfg.steps +
    dot (digits param.spatialBounds c.val) (cfg.spatialStrides.toList.map BitVec.toNat)

def address (k : Nat) : AddressGenUnit.AddressVector param :=
  fun c => BitVec.ofNat _ (cfg.offset k c)

/-- The addresses of iteration `k` as they leave the generator. -/
def vector (k : Nat) : AddressGenUnit.AddressVector param :=
  fun c => AddressGenUnit.remap param cfg.addressRemapIndex (cfg.address k c)

theorem steps_of_narrow
    (narrow : ∀ stride ∈ cfg.temporalStrides.toList, stride.toNat < 2 ^ (param.addressWidth - 1)) :
    cfg.steps = cfg.temporalStrides.toList.map BitVec.toNat := by
  apply List.map_congr_left
  intro stride member
  simp [BitVec.toNat_setWidth,Nat.mod_eq_of_lt (narrow stride member)]

theorem cfgValid_iff : AddressGenUnit.cfgValid cfg = true ↔ ∀ b ∈ cfg.bounds, 0 < b := by
  simp only [AddressGenUnit.cfgValid,List.all_eq_true,bne_iff_ne,ne_eq,bounds,List.mem_map,
    forall_exists_index,and_imp,forall_apply_eq_imp_iff₂]
  refine forall₂_congr fun b _ => ?_
  rw [Nat.pos_iff_ne_zero,not_iff_not]
  exact ⟨fun zero => by simp [zero],fun zero => BitVec.eq_of_toNat_eq (by simpa using zero)⟩

theorem total_pos_iff : 0 < cfg.total ↔ AddressGenUnit.cfgValid cfg = true :=
  List.prod_pos_iff_forall_pos_nat.trans cfg.cfgValid_iff.symm

/-- A loop nest with a zero bound has no iteration. -/
theorem total_eq_zero (invalid : AddressGenUnit.cfgValid cfg = false) : cfg.total = 0 := by
  have := cfg.total_pos_iff
  simp only [invalid,Bool.false_eq_true,iff_false] at this
  omega

end AddressGenUnitCfgIO

namespace AddressGenUnit

/-- The counters of a chain stand at the given odometer digits. -/
def ChainAt : List (BitVec w) → List Nat → List (ProgrammableCounter w) → Prop
  | stride :: strides, d :: ds, c :: cs => c.At (stride.setWidth (w - 1)) d ∧ ChainAt strides ds cs
  | [], [], [] => True
  | _, _, _ => False

theorem chain_reset_at (strides : List (BitVec w)) :
    ChainAt strides (List.replicate strides.length 0)
      (List.replicate strides.length (ProgrammableCounter.reset w)) := by
  induction strides with
  | nil => trivial
  | cons stride strides ih =>
    simp only [List.length_cons,List.replicate_succ,ChainAt]
    exact ⟨ProgrammableCounter.reset_at _,ih⟩

/-- Only the reset chain stands at all zeros. -/
theorem chain_at_zero {strides : List (BitVec w)} {n : Nat} {cs : List (ProgrammableCounter w)}
    (place : ChainAt strides (List.replicate n 0) cs) :
    cs = List.replicate n (ProgrammableCounter.reset w) := by
  induction n generalizing strides cs with
  | zero => cases strides <;> cases cs <;> simp_all [ChainAt]
  | succ n ih =>
    cases strides with
    | nil => simp [ChainAt,List.replicate_succ] at place
    | cons stride strides =>
      cases cs with
      | nil => simp [ChainAt,List.replicate_succ] at place
      | cons c cs =>
        simp only [List.replicate_succ,ChainAt] at place ⊢
        rw [ProgrammableCounter.at_zero place.1,← ih place.2]

theorem chain_reset (countersTick tick : Bool) (cs : List (ProgrammableCounter w))
    (bounds strides : List (BitVec w)) (sameBounds : bounds.length = cs.length)
    (sameStrides : strides.length = cs.length) :
    chainNext true countersTick tick cs bounds strides =
      List.replicate cs.length (ProgrammableCounter.reset w) := by
  rw [List.eq_replicate_iff]
  refine ⟨chainNext_length _ _ _ _ _ _ sameBounds sameStrides,?_⟩
  clear sameBounds sameStrides
  induction cs generalizing tick bounds strides with
  | nil => simp [chainNext]
  | cons c cs ih =>
    cases bounds <;> cases strides <;> simp only [chainNext,List.not_mem_nil,false_imp_iff,
      implies_true,List.mem_cons,forall_eq_or_imp,ProgrammableCounter.next_reset,true_and]
    exact ih _ _ _

/-- One cycle of the chain is one turn of the odometer. -/
theorem chain_turn {bounds strides : List (BitVec w)} {cs : List (ProgrammableCounter w)} {k : Nat}
    (positive : ∀ b ∈ bounds, b ≠ 0) (place : ChainAt strides (digits (bounds.map BitVec.toNat) k) cs)
    (countersTick tick : Bool) (ticking : tick = true → countersTick = true) :
    ChainAt strides (turn tick (bounds.map BitVec.toNat) (digits (bounds.map BitVec.toNat) k))
      (chainNext false countersTick tick cs bounds strides) ∧
    chainLast countersTick tick cs bounds =
      ((tick || bounds.isEmpty) &&
        atEnd (bounds.map BitVec.toNat) (digits (bounds.map BitVec.toNat) k)) := by
  induction bounds generalizing strides cs k tick with
  | nil => cases strides <;> cases cs <;> simp_all [ChainAt,digits,turn,chainNext,chainLast,atEnd]
  | cons b bs ih =>
    cases strides with
    | nil => simp [ChainAt,digits] at place
    | cons stride strides =>
      cases cs with
      | nil => simp [ChainAt,digits] at place
      | cons c cs =>
        simp only [List.map_cons,digits,ChainAt] at place ⊢
        have nonzero := positive b (by simp)
        have bp : 0 < b.toNat := by
          rcases Nat.eq_zero_or_pos b.toNat with h | h
          · exact absurd (BitVec.eq_of_toNat_eq (by simpa using h)) nonzero
          · exact h
        have below := Nat.mod_lt k bp
        have last := ProgrammableCounter.lastVal_at nonzero place.1 below tick
        have carry : (c.lastVal tick b && countersTick) = (tick && k % b.toNat + 1 == b.toNat) := by
          rw [last]
          cases tick with
          | false => rfl
          | true => simp [ticking rfl]
        have rest := ih (fun x hx => positive x (by simp [hx])) place.2
          (tick && k % b.toNat + 1 == b.toNat)
          (fun h => ticking (by simp only [Bool.and_eq_true] at h; exact h.1))
        simp only [chainNext,chainLast,turn,ChainAt,atEnd,carry]
        refine ⟨⟨ProgrammableCounter.next_at nonzero place.1 below tick,rest.1⟩,?_⟩
        rw [rest.2,last]
        cases tick <;> cases (k % b.toNat + 1 == b.toNat) <;> simp

/-- A chain that does not tick stays as it is. -/
theorem chain_hold (countersTick : Bool) (cs : List (ProgrammableCounter w))
    (bounds strides : List (BitVec w)) (sameBounds : bounds.length = cs.length)
    (sameStrides : strides.length = cs.length) :
    chainNext false countersTick false cs bounds strides = cs := by
  induction cs generalizing bounds strides with
  | nil => simp [chainNext]
  | cons c cs ih =>
    cases bounds with
    | nil => simp at sameBounds
    | cons bound bounds =>
      cases strides with
      | nil => simp at sameStrides
      | cons stride strides =>
        have carry : (c.lastVal false bound && countersTick) = false := by
          simp [ProgrammableCounter.lastVal]
        simp only [chainNext,ProgrammableCounter.next_hold,carry]
        rw [ih _ _ (by simpa using sameBounds) (by simpa using sameStrides)]

theorem chain_value {strides : List (BitVec w)} {ds : List Nat} {cs : List (ProgrammableCounter w)}
    (place : ChainAt strides ds cs) :
    (cs.map ProgrammableCounter.value).sum =
      BitVec.ofNat w (dot ds (strides.map fun stride => (stride.setWidth (w - 1)).toNat)) := by
  induction strides generalizing ds cs with
  | nil => cases ds <;> cases cs <;> simp_all [ChainAt,dot]
  | cons stride strides ih =>
    cases ds with
    | nil => simp [ChainAt] at place
    | cons d ds =>
      cases cs with
      | nil => simp [ChainAt] at place
      | cons c cs =>
        obtain ⟨⟨_,value⟩,rest⟩ := place
        simp only [List.map_cons,List.sum_cons,dot,value,ih rest,BitVec.ofNat_add]

/-- The table of spatial multiples adds the mixed-radix offset of the channel index. -/
theorem spatialOffset_eq (remainder : Nat) (offset : BitVec w) (bs : List Nat)
    (strides : List (BitVec w)) :
    spatialOffset remainder offset bs strides =
      offset + BitVec.ofNat w (dot (digits bs remainder) (strides.map BitVec.toNat)) := by
  induction bs generalizing remainder offset strides with
  | nil => simp [spatialOffset,digits,dot]
  | cons b bs ih =>
    cases strides with
    | nil => simp [spatialOffset,digits,dot]
    | cons stride strides =>
      simp only [spatialOffset,ih,List.map_cons,digits,dot,BitVec.ofNat_add]
      rw [BitVec.ofNat_mul,BitVec.ofNat_toNat,BitVec.setWidth_eq,BitVec.mul_comm stride,
        BitVec.add_assoc]

variable {param : AddressGenUnitParam}

@[simp] theorem countersTick_eq_fire (s : State param) (i : Input param) :
    countersTick s i = fire s i := by
  simp [countersTick,fire]

@[simp] theorem next_counters (s : State param) (i : Input param) :
    (next s i).counters.toList = chainNext i.start (fire s i) (fire s i) s.counters.toList
      i.cfg.temporalBounds.toList i.cfg.temporalStrides.toList := by
  simp [next,Vector.toList]

theorem lastVals_eq (s : State param) (i : Input param) :
    lastVals s i = chainLast (fire s i) (fire s i) s.counters.toList i.cfg.temporalBounds.toList := by
  simp [lastVals]

theorem counters_eq_reset {s : State param}
    (same : s.counters.toList = List.replicate param.temporalDimension (ProgrammableCounter.reset _)) :
    s.counters = resetCounters := by
  apply Vector.toList_inj.mp
  rw [same]
  simp [resetCounters,Vector.toList_replicate]

/-- A start pulse clears every counter, from any state. -/
theorem start_counters (s : State param) (i : Input param) (start : i.start = true) :
    (next s i).counters = resetCounters := by
  apply counters_eq_reset
  rw [next_counters,start,chain_reset _ _ _ _ _ (by simp) (by simp)]
  simp

theorem resetCounters_at (cfg : AddressGenUnitCfgIO param) :
    ChainAt cfg.temporalStrides.toList (digits cfg.bounds 0)
      (initial param).counters.toList := by
  have zero := chain_reset_at cfg.temporalStrides.toList
  simpa [digits_zero, AddressGenUnitCfgIO.bounds,initial,resetCounters,Vector.toList_replicate] using zero

theorem currentAddress_at {cfg : AddressGenUnitCfgIO param} {s : State param} {k : Nat}
    (place : ChainAt cfg.temporalStrides.toList (digits cfg.bounds k) s.counters.toList) :
    currentAddress s cfg = cfg.address k := by
  funext c
  rw [currentAddress,spatialOffset_eq,temporalOffset,chain_value place,← BitVec.add_assoc]
  simp only [ AddressGenUnitCfgIO.address, AddressGenUnitCfgIO.offset, AddressGenUnitCfgIO.steps,
    BitVec.ofNat_add,BitVec.ofNat_toNat,BitVec.setWidth_eq]

/-- The vectors accepted by the output buffer over a history, before remapping. -/
def accepted (history : List (Output param)) : List (AddressVector param) :=
  history.filterMap Output.address

def enqueued (history : List (Output param)) : List (AddressVector param) :=
  history.filterMap Output.pushed

theorem enqueued_next (history : List (Output param)) (o : Output param) :
    enqueued (history ++ [o]) = enqueued history ++ o.pushed.toList := by
  cases pushed : o.pushed <;> simp [enqueued,pushed]

/-- The number of cycles in which the output buffer could take a vector. -/
def readyCycles (history : List (Output param)) : Nat := history.countP Output.bufferReady

/-- A task's cycles after its start pulse: the configuration is held, no further start. -/
def Running (cfg : AddressGenUnitCfgIO param) (i : Input param) : Prop :=
  i.cfg = cfg ∧ i.start = false

/-- The sweep after `n` accepted vectors, `n` being read off the history. -/
structure Swept (cfg : AddressGenUnitCfgIO param) (history : List (Output param))
    (s : State param) : Prop where
  addresses : accepted history = (List.range (accepted history).length).map cfg.address
  remapped : enqueued history = (accepted history).map fun t c => remap param cfg.addressRemapIndex (t c)
  count : (accepted history).length = min cfg.total (readyCycles history)
  place : ChainAt cfg.temporalStrides.toList (digits cfg.bounds (accepted history).length)
    s.counters.toList
  phase : s.currentState = if (accepted history).length < cfg.total then .sBUSY else .sIDLE

theorem swept_enqueued {cfg : AddressGenUnitCfgIO param} {history : List (Output param)}
    {s : State param} (swept : Swept cfg history s) :
    enqueued history = (List.range (accepted history).length).map cfg.vector := by
  rw [swept.remapped]
  conv_lhs => rw [swept.addresses]
  rw [List.map_map]
  rfl

/-- An idle generator has finished its sweep. -/
theorem swept_idle {cfg : AddressGenUnitCfgIO param} {history : List (Output param)}
    {s : State param} (swept : Swept cfg history s) (idle : s.currentState = .sIDLE) :
    (accepted history).length = cfg.total := by
  have phase := swept.phase
  have bound := swept.count.trans_le (Nat.min_le_left _ _)
  rw [idle] at phase
  by_contra other
  rw [if_pos (Nat.lt_of_le_of_ne bound other)] at phase
  contradiction

theorem started_swept (cfg : AddressGenUnitCfgIO param) (s : State param) (i : Input param)
    (held : i.cfg = cfg) (start : i.start = true)
    (idle : s.currentState = .sIDLE ∨ cfgValid cfg = true) : Swept cfg [] (next s i) where
  addresses := rfl
  remapped := rfl
  count := by simp [accepted,readyCycles]
  place := by rw [start_counters s i start]; exact resetCounters_at cfg
  phase := by
    have positive := cfg.total_pos_iff
    cases valid : cfgValid cfg with
    | true => simp [next,start,held,valid,accepted,positive.mpr valid]
    | false =>
      have resting : s.currentState = .sIDLE := idle.resolve_right (by simp [valid])
      simp [next,held,valid,accepted,cfg.total_eq_zero valid,resting]

theorem pushed_idle {s : State param} (idle : s.currentState = .sIDLE) (i : Input param) :
    (out s i).pushed = none := by
  simp [out,fire,idle]

theorem pushed_busy {s : State param} {i : Input param} (busy : s.currentState = .sBUSY)
    (ready : bufferReady s i = true) : (out s i).pushed = some (remappedAddress s i.cfg) := by
  simp [out,fire,busy,ready]

/-- The address queue of a channel takes its slice of every vector pushed. -/
theorem buffer_next (s : State param) (i : Input param) (c : Fin param.numChannel) :
    ((s.outputBuffer c).given (i.addrReady c)).toList ++ ((next s i).outputBuffer c).elems =
      (s.outputBuffer c).elems ++ ((out s i).pushed.map (· c)).toList := by
  have entering : (out s i).pushed = if bufferReady s i then
      (if s.currentState == .sBUSY then some (remappedAddress s i.cfg) else none) else none := by
    cases ready : bufferReady s i <;> simp [out,fire,ready]
  rw [entering]
  exact ComplexQueueConcat.scatter_conserves _ _ _ _ _

/-- A cycle without start or acceptance changes neither counters nor phase. -/
theorem next_hold {s : State param} {i : Input param} (noStart : i.start = false)
    (quiet : fire s i = false) :
    (next s i).counters = s.counters ∧ (next s i).currentState = s.currentState := by
  constructor
  · apply Vector.toList_inj.mp
    rw [next_counters,noStart,quiet,chain_hold _ _ _ _ (by simp) (by simp)]
  · simp [next,noStart,quiet]

/-- An accepted vector advances the odometer by one; the last one of the sweep ends it. -/
theorem next_fire {cfg : AddressGenUnitCfgIO param} {s : State param} {i : Input param} {k : Nat}
    (running : Running cfg i) (fired : fire s i = true) (inside : k < cfg.total)
    (place : ChainAt cfg.temporalStrides.toList (digits cfg.bounds k) s.counters.toList) :
    ChainAt cfg.temporalStrides.toList (digits cfg.bounds (k + 1)) (next s i).counters.toList ∧
      (next s i).currentState = if k + 1 < cfg.total then .sBUSY else .sIDLE := by
  obtain ⟨held,noStart⟩ := running
  have valid := cfg.total_pos_iff.mp (by omega)
  have positive := cfg.cfgValid_iff.mp valid
  have nonzero : ∀ b ∈ cfg.temporalBounds.toList, b ≠ 0 := by
    intro b member
    have := List.all_eq_true.mp valid b member
    simpa using this
  have turned := chain_turn nonzero place true true id
  change ChainAt _ (turn true cfg.bounds (digits cfg.bounds k)) _ ∧
    _ = ((true || _) && atEnd cfg.bounds (digits cfg.bounds k)) at turned
  rw [turn_digits _ positive,Bool.true_or,Bool.true_and] at turned
  refine ⟨by rw [next_counters,noStart,fired,held]; exact turned.1,?_⟩
  have busy : s.currentState = .sBUSY := by
    simp only [fire,Bool.and_eq_true,beq_iff_eq] at fired
    exact fired.1
  have finished : lastVals s i = true ↔ k + 1 = cfg.total := by
    rw [lastVals_eq,held,fired,turned.2]
    exact atEnd_digits_of_lt cfg.bounds positive inside
  by_cases final : k + 1 = cfg.total
  · rw [if_neg (by omega)]
    simp [next,noStart,fired,finished.mpr final]
  · have more : lastVals s i = false := by rw [← Bool.not_eq_true,finished]; exact final
    rw [if_pos (by omega)]
    simp [next,noStart,more,busy]

/-- A busy generator accepts exactly in the ready cycles, an idle one never. -/
theorem fire_of_swept {cfg : AddressGenUnitCfgIO param} {history : List (Output param)}
    {s : State param} (swept : Swept cfg history s) (i : Input param) :
    fire s i = (decide ((accepted history).length < cfg.total) && bufferReady s i) := by
  rw [fire,swept.phase]
  by_cases inside : (accepted history).length < cfg.total <;> simp [inside]

theorem running_swept {cfg : AddressGenUnitCfgIO param} {history : List (Output param)}
    {s : State param} {i : Input param} (swept : Swept cfg history s) (running : Running cfg i) :
    Swept cfg (history ++ [out s i]) (next s i) := by
  have firing := fire_of_swept swept i
  have count := swept.count
  cases fired : fire s i with
  | false =>
    have same : accepted (history ++ [out s i]) = accepted history := by simp [accepted,out,fired]
    obtain ⟨counters,state⟩ := next_hold running.2 fired
    refine ⟨?_,?_,?_,?_,?_⟩
    · rw [same]; exact swept.addresses
    · rw [same,← swept.remapped]; simp [enqueued,out,fired]
    · rw [fired] at firing
      have ready : readyCycles (history ++ [out s i]) = readyCycles history + (bufferReady s i).toNat := by
        cases h : bufferReady s i <;> simp [readyCycles,out,h]
      rw [same,ready]
      cases h : bufferReady s i
      · simpa using count
      · simp only [h,Bool.and_true,Bool.false_eq,decide_eq_false_iff_not] at firing
        simp only [Bool.toNat_true]
        omega
    · rw [same,counters]; exact swept.place
    · rw [same,state]; exact swept.phase
  | true =>
    rw [fired,Bool.true_eq,Bool.and_eq_true,decide_eq_true_eq] at firing
    obtain ⟨inside,ready⟩ := firing
    have current : currentAddress s i.cfg = cfg.address (accepted history).length := by
      rw [running.1]; exact currentAddress_at swept.place
    have remapped : remappedAddress s i.cfg =
        fun c => remap param cfg.addressRemapIndex (cfg.address (accepted history).length c) := by
      funext c
      rw [remappedAddress,current,running.1]
    have more : accepted (history ++ [out s i]) =
        accepted history ++ [cfg.address (accepted history).length] := by
      simp [accepted,out,fired,current]
    have length : (accepted (history ++ [out s i])).length = (accepted history).length + 1 := by
      simp [more]
    obtain ⟨counters,state⟩ := next_fire running fired inside swept.place
    refine ⟨?_,?_,?_,?_,?_⟩
    · rw [length,more,List.range_succ,List.map_append,← swept.addresses]
      rfl
    · rw [more,List.map_append,← swept.remapped]
      simp [enqueued,out,fired,remapped]
    · have : readyCycles (history ++ [out s i]) = readyCycles history + 1 := by
        simp [readyCycles,out,ready]
      rw [length,this]
      omega
    · rw [length]; exact counters
    · rw [length]; exact state

/-- The sweep invariant holds after every run of a started task. -/
theorem run_swept (cfg : AddressGenUnitCfgIO param) (s : State param) (i : Input param)
    (held : i.cfg = cfg) (start : i.start = true)
    (idle : s.currentState = .sIDLE ∨ cfgValid cfg = true) (rest : List (Input param))
    (running : ∀ i ∈ rest, Running cfg i) :
    Swept cfg ((addressGenUnit param).outs (next s i) rest)
      ((addressGenUnit param).exec (next s i) rest) :=
  Sync.Machine.run_rule_each (m := addressGenUnit param) (Swept cfg)
    (Sync.Machine.Each.of_inputs running)
    (started_swept cfg s i held start idle) fun _ _ _ swept running => running_swept swept running

/-- Address law: the k-th vector accepted after a start holds, channel by channel, the
address of iteration k of the nested loop, and enters the buffer remapped. -/
theorem address_law (cfg : AddressGenUnitCfgIO param)
    (nonzero : ∀ b ∈ cfg.temporalBounds.toList, b ≠ 0)
    (narrow : ∀ stride ∈ cfg.temporalStrides.toList, stride.toNat < 2 ^ (param.addressWidth - 1))
    (s : State param) (i : Input param) (held : i.cfg = cfg) (start : i.start = true)
    (rest : List (Input param)) (running : ∀ i ∈ rest, Running cfg i) (k : Nat)
    (t : AddressVector param)
    (kth : (accepted ((addressGenUnit param).outs (next s i) rest))[k]? = some t) :
    (∀ c, (t c).toNat = (cfg.ptr.toNat +
        dot (digits (cfg.temporalBounds.toList.map BitVec.toNat) k)
          (cfg.temporalStrides.toList.map BitVec.toNat) +
        dot (digits param.spatialBounds c.val) (cfg.spatialStrides.toList.map BitVec.toNat))
      % 2 ^ param.addressWidth) ∧
    (enqueued ((addressGenUnit param).outs (next s i) rest))[k]? =
      some fun c => remap param cfg.addressRemapIndex (t c) := by
  have valid : cfgValid cfg = true := List.all_eq_true.mpr fun b member => by simpa using nonzero b member
  have swept := run_swept cfg s i held start (Or.inr valid) rest running
  refine ⟨fun c => ?_,by rw [swept.remapped,List.getElem?_map,kth,Option.map_some]⟩
  rw [swept.addresses,List.getElem?_map] at kth
  obtain ⟨j,atIndex,rfl⟩ := Option.map_eq_some_iff.mp kth
  obtain ⟨_,rfl⟩ := List.getElem?_eq_some_iff.mp atIndex
  rw [List.getElem_range, AddressGenUnitCfgIO.address,BitVec.toNat_ofNat, AddressGenUnitCfgIO.offset,
    cfg.steps_of_narrow narrow]
  rfl

/-- Two channels, two loops of two and three iterations, in six address bits. -/
def nestParam : AddressGenUnitParam where
  spatialBounds := [2]
  temporalDimension := 2
  addressWidth := 6
  numChannel := 2
  outputBufferDepth := 1
  tcdmPhysWordSize := 256
  tcdmLogicWordSize := [256]
  spatialPositive := two_channels_positive
  spatialFits := two_channels_fit
  temporalPositive := Nat.two_pos
  widthPositive := by decide
  depthPositive := Nat.one_pos
  remapNonempty := one_mapping

def nestCfg : AddressGenUnitCfgIO nestParam where
  ptr := 50
  spatialStrides := #v[63]
  temporalBounds := #v[2,3]
  temporalStrides := #v[8,20]
  addressRemapIndex := 0

def nestInput (start ready : Bool) : Input nestParam := ⟨nestCfg,start,fun _ => ready⟩

/-- Iteration 3 of the example nest, reached through a stalled cycle. -/
theorem address_law_nest :
    ∃ t, (accepted ((addressGenUnit nestParam).outs (next (initial nestParam) (nestInput true true))
        (nestInput false false :: List.replicate 5 (nestInput false true))))[3]? = some t ∧
      ∀ c, (t c).toNat = (50 + dot (digits [2,3] 3) [8,20] + dot (digits [2] c.val) [63]) % 2 ^ 6 :=
  ⟨_,rfl,(address_law nestCfg (by decide) (by decide) (initial nestParam) (nestInput true true) rfl rfl
    (nestInput false false :: List.replicate 5 (nestInput false true))
    (by simp [nestInput,Running]) 3 _ rfl).1⟩

theorem finished_of_count {cfg : AddressGenUnitCfgIO param} {history : List (Output param)}
    {s : State param} (swept : Swept cfg history s) (whole : (accepted history).length = cfg.total) :
    s.currentState = .sIDLE ∧ s.counters = resetCounters := by
  refine ⟨by rw [swept.phase,if_neg (by omega)],counters_eq_reset ?_⟩
  have place := swept.place
  have zeros : digits cfg.bounds cfg.total = List.replicate param.temporalDimension 0 := by
    have width : cfg.bounds.length = param.temporalDimension := by simp [ AddressGenUnitCfgIO.bounds]
    cases valid : cfgValid cfg with
    | true => rw [ AddressGenUnitCfgIO.total,digits_prod _ (cfg.cfgValid_iff.mp valid),width]
    | false => rw [cfg.total_eq_zero valid,digits_zero,width]
  rw [whole,zeros] at place
  exact chain_at_zero place

/-- The reset state is the only idle one with cleared counters and a drained buffer. -/
theorem eq_initial {s : State param} (idle : s.currentState = .sIDLE)
    (cleared : s.counters = resetCounters)
    (drained : ComplexQueueConcat.allEmpty s.outputBuffer = true) : s = initial param := by
  have empty : s.outputBuffer = fun _ => Queue.empty param.depthPositive := by
    funext c
    simp only [ComplexQueueConcat.allEmpty,decide_eq_true_eq] at drained
    have lane := drained c
    exact Queue.eq_empty (by simpa [Queue.deqValid] using lane)
  cases s
  simp_all [initial]

/-- Run law: a start pulse makes an idle generator push one vector per iteration, one in
each ready cycle, stay busy up to the last of them and come back to its reset state. -/
theorem run_law (cfg : AddressGenUnitCfgIO param) (s : State param)
    (idle : s.currentState = .sIDLE) (i : Input param) (held : i.cfg = cfg)
    (start : i.start = true) (rest : List (Input param)) (running : ∀ i ∈ rest, Running cfg i) :
    let history := (addressGenUnit param).outs (next s i) rest
    let final := (addressGenUnit param).exec (next s i) rest
    let total := (cfg.temporalBounds.toList.map BitVec.toNat).prod
    ((out s i).busy = false ∧ (out s i).pushed = none) ∧
    ((∀ b ∈ cfg.temporalBounds.toList, b ≠ 0) →
      (enqueued history).length = min total (readyCycles history) ∧
      (addressGenUnit param).Each (fun past s i =>
        ((out s i).busy = true ↔ (enqueued past).length < total)) (next s i) rest ∧
      (total ≤ readyCycles history →
        final.currentState = .sIDLE ∧ final.counters = resetCounters)) ∧
    ((∃ b ∈ cfg.temporalBounds.toList, b = 0) →
      enqueued history = [] ∧
      (addressGenUnit param).Each (fun _ s i => (out s i).busy = false) (next s i) rest ∧
      final.currentState = .sIDLE ∧ final.counters = resetCounters) ∧
    (final.currentState = .sIDLE →
      ComplexQueueConcat.allEmpty final.outputBuffer = true → final = initial param) := by
  intro history final total
  have swept := run_swept cfg s i held start (Or.inl idle) rest running
  have before : (addressGenUnit param).Each (fun past s _ => Swept cfg past s) (next s i) rest :=
    Sync.Machine.each_of_run_rule (m := addressGenUnit param) (Swept cfg)
      (Sync.Machine.Each.of_inputs running) (started_swept cfg s i held start (Or.inl idle))
      fun _ _ _ swept running => running_swept swept running
  have same : ∀ {past : List (Output param)} {s : State param}, Swept cfg past s →
      (enqueued past).length = (accepted past).length := by
    intro past s swept
    rw [swept.remapped,List.length_map]
  have busy : ∀ {past : List (Output param)} {s : State param} (i : Input param), Swept cfg past s →
      ((out s i).busy = true ↔ (enqueued past).length < total) := by
    intro past s i swept
    rw [same swept,out,beq_iff_eq,swept.phase]
    by_cases inside : (accepted past).length < cfg.total
    · simp only [if_pos inside,true_iff]; exact inside
    · simp only [if_neg inside,reduceCtorEq,false_iff]; exact inside
  refine ⟨by simp [out,fire,idle],fun nonzero => ⟨?_,?_,?_⟩,fun zero => ?_,fun rested drained => ?_⟩
  · rw [same swept]; exact swept.count
  · exact before.mono fun past s i swept => busy i swept
  · intro enough
    exact finished_of_count swept (by rw [swept.count]; exact Nat.min_eq_left enough)
  · have invalid : cfgValid cfg = false := by
      obtain ⟨b,member,rfl⟩ := zero
      rw [← Bool.not_eq_true,cfgValid,List.all_eq_true]
      intro all
      simpa using all 0 member
    have none := cfg.total_eq_zero invalid
    have count := swept.count
    rw [none,Nat.zero_min] at count
    refine ⟨List.length_eq_zero_iff.mp (by rw [same swept,count]),?_,finished_of_count swept (by omega)⟩
    refine before.mono fun past s i swept => ?_
    rw [← Bool.not_eq_true,busy i swept]
    have : total = 0 := none
    omega
  · exact eq_initial rested (finished_of_count swept (swept_idle swept rested)).2 drained

/-- The example nest pushes six vectors in six ready cycles and is back in reset. -/
theorem run_law_nest :
    (enqueued ((addressGenUnit nestParam).outs (next (initial nestParam) (nestInput true true))
        (nestInput false false :: List.replicate 7 (nestInput false true)))).length = 6 :=
  ((run_law nestCfg (initial nestParam) rfl (nestInput true true) rfl rfl
    (nestInput false false :: List.replicate 7 (nestInput false true))
    (by simp [nestInput,Running])).2.1 (by decide)).1

end AddressGenUnit
end Snax
