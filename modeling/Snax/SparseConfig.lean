import Snax.Sync.Layout

/-! `sparse_interconnect/SparseConfig.scala`: the ports of the interconnect, the port an
input belongs to, and the inputs that a bank can be reached from. -/
namespace Snax

structure SparsePortDefinition where
  width : Nat
  accessGranularity : Nat

def SparsePortDefinition.inputsPerBank (p : SparsePortDefinition) : Nat := p.width / p.accessGranularity

structure SparseConfig where
  ports : List SparsePortDefinition

namespace SparseConfig

open Layout

def inputsPerBank (config : SparseConfig) : Nat := sumOf SparsePortDefinition.inputsPerBank config.ports

/-- The loop of `getPortAndIndex`; running out of ports throws. -/
def findPort (inputIndex : Nat) : Nat → Nat → List SparsePortDefinition → Option (Nat × Nat)
  | _, _, [] => none
  | portIndex, cumulativeWidth, port :: ports =>
    if inputIndex < cumulativeWidth + port.width then some (portIndex,inputIndex - cumulativeWidth)
    else findPort inputIndex (portIndex + 1) (cumulativeWidth + port.width) ports

def getPortAndIndex (config : SparseConfig) (inputIndex : Nat) : Option (Nat × Nat) :=
  findPort inputIndex 0 0 config.ports

/-- The loops of `get_global_idx_list` from the accumulated width on. -/
def globalIdxList (bank : Nat) : Nat → List SparsePortDefinition → List Nat
  | _, [] => []
  | acc, p :: ports =>
    (List.range p.inputsPerBank).map (fun i => acc + i * p.accessGranularity + bank % p.accessGranularity) ++
      globalIdxList bank (acc + p.width) ports

def getGlobalIdxList (config : SparseConfig) (bank : Nat) : List Nat := globalIdxList bank 0 config.ports

/-- The port of an input and its place within it. -/
def located (config : SparseConfig) (inputIndex : Nat) : Option (SparsePortDefinition × Nat) := do
  let (portIndex,index) ← config.getPortAndIndex inputIndex
  let port ← config.ports[portIndex]?
  return (port,index)

/-- The ports are cut into whole rows of their access granularity. -/
def Divides (config : SparseConfig) : Prop :=
  ∀ p ∈ config.ports, 0 < p.accessGranularity ∧ p.accessGranularity ∣ p.width

/-- The place of an input that lies `x` beyond the ports passed so far. -/
def within : List SparsePortDefinition → Nat → Option (SparsePortDefinition × Nat)
  | [], _ => none
  | p :: ports, x => if x < p.width then some (p,x) else within ports (x - p.width)

theorem findPort_within (front ports : List SparsePortDefinition) (acc x : Nat) :
    (findPort (acc + x) front.length acc ports).bind (fun found =>
      (front ++ ports)[found.1]?.map fun port => (port,found.2)) = within ports x := by
  induction ports generalizing front acc x with
  | nil => rfl
  | cons p ports ih =>
    unfold findPort within
    by_cases inside : x < p.width
    · rw [if_pos (by omega),if_pos inside]
      simp
    · rw [if_neg (by omega),if_neg inside]
      have step := ih (front ++ [p]) (acc + p.width) (x - p.width)
      rw [List.length_append,List.length_singleton,List.append_assoc,List.singleton_append,
        show acc + p.width + (x - p.width) = acc + x by omega] at step
      exact step

theorem located_within (config : SparseConfig) (inputIndex : Nat) :
    config.located inputIndex = within config.ports inputIndex := by
  have found := findPort_within [] config.ports 0 inputIndex
  rw [Nat.zero_add] at found
  rw [← found]
  unfold located getPortAndIndex
  cases findPort inputIndex 0 0 config.ports with
  | none => rfl
  | some found => cases port : config.ports[found.1]? <;> simp [port]

theorem within_isSome (ports : List SparsePortDefinition) (x : Nat) :
    (within ports x).isSome = true ↔ x < sumOf SparsePortDefinition.width ports := by
  induction ports generalizing x with
  | nil => simp [within,sumOf]
  | cons p ports ih =>
    unfold within
    by_cases inside : x < p.width
    · simp only [inside,↓reduceIte,Option.isSome_some,sumOf,true_iff]
      omega
    · rw [if_neg inside,ih,sumOf]
      omega

theorem within_port {ports : List SparsePortDefinition} {x index : Nat} {p : SparsePortDefinition}
    (found : within ports x = some (p,index)) : p ∈ ports ∧ index < p.width := by
  induction ports generalizing x with
  | nil => contradiction
  | cons q ports ih =>
    unfold within at found
    split at found
    · obtain ⟨rfl,rfl⟩ := Prod.mk.inj (Option.some.inj found)
      exact ⟨List.mem_cons_self,‹_›⟩
    · obtain ⟨inside,small⟩ := ih found
      exact ⟨List.mem_cons_of_mem _ inside,small⟩

theorem length_globalIdxList (bank acc : Nat) (ports : List SparsePortDefinition) :
    (globalIdxList bank acc ports).length = sumOf SparsePortDefinition.inputsPerBank ports := by
  induction ports generalizing acc with
  | nil => rfl
  | cons p ports ih => simp [globalIdxList,sumOf,ih]

theorem globalIdxList_ge {bank acc g : Nat} {ports : List SparsePortDefinition}
    (listed : g ∈ globalIdxList bank acc ports) : acc ≤ g := by
  induction ports generalizing acc with
  | nil => cases listed
  | cons p ports ih =>
    rcases List.mem_append.mp listed with own | later
    · obtain ⟨i,_,rfl⟩ := List.mem_map.mp own
      omega
    · exact Nat.le_trans (Nat.le_add_right _ _) (ih later)

/-- The row of one port: the places congruent to the bank, each once. -/
theorem mem_row {p : SparsePortDefinition} (positive : 0 < p.accessGranularity)
    (whole : p.accessGranularity ∣ p.width) (bank acc x : Nat) :
    acc + x ∈ (List.range p.inputsPerBank).map
        (fun i => acc + i * p.accessGranularity + bank % p.accessGranularity) ↔
      x < p.width ∧ x % p.accessGranularity = bank % p.accessGranularity := by
  obtain ⟨rows,width⟩ := whole
  have count : p.inputsPerBank = rows := by
    rw [SparsePortDefinition.inputsPerBank,width,Nat.mul_div_cancel_left _ positive]
  have rest := Nat.mod_lt bank positive
  rw [List.mem_map,count,width]
  constructor
  · rintro ⟨i,inside,same⟩
    have row := Nat.mul_le_mul_left p.accessGranularity (Nat.succ_le_of_lt (List.mem_range.mp inside))
    rw [Nat.mul_succ,Nat.mul_comm p.accessGranularity i] at row
    obtain rfl : x = bank % p.accessGranularity + i * p.accessGranularity := by omega
    refine ⟨by omega,?_⟩
    rw [Nat.add_mul_mod_self_right,Nat.mod_mod]
  · rintro ⟨inside,congruent⟩
    refine ⟨x / p.accessGranularity,List.mem_range.mpr (Nat.div_lt_of_lt_mul inside),?_⟩
    have split := Nat.div_add_mod x p.accessGranularity
    rw [Nat.mul_comm,congruent] at split
    omega

theorem mem_globalIdxList {ports : List SparsePortDefinition}
    (divides : ∀ p ∈ ports, 0 < p.accessGranularity ∧ p.accessGranularity ∣ p.width)
    (bank acc x : Nat) : acc + x ∈ globalIdxList bank acc ports ↔
      ∃ p index, within ports x = some (p,index) ∧
        index % p.accessGranularity = bank % p.accessGranularity := by
  induction ports generalizing acc x with
  | nil => simp [globalIdxList,within]
  | cons p ports ih =>
    obtain ⟨positive,whole⟩ := divides p List.mem_cons_self
    rw [globalIdxList,List.mem_append,mem_row positive whole]
    unfold within
    by_cases inside : x < p.width
    · have notLater : acc + x ∉ globalIdxList bank (acc + p.width) ports := by
        intro later
        have := globalIdxList_ge later
        omega
      simp [inside,notLater]
    · have later := ih (fun q listed => divides q (List.mem_cons_of_mem _ listed)) (acc + p.width)
        (x - p.width)
      rw [show acc + p.width + (x - p.width) = acc + x by omega] at later
      rw [later]
      simp [inside]

theorem nodup_globalIdxList {ports : List SparsePortDefinition}
    (divides : ∀ p ∈ ports, 0 < p.accessGranularity ∧ p.accessGranularity ∣ p.width)
    (bank acc : Nat) : (globalIdxList bank acc ports).Nodup := by
  induction ports generalizing acc with
  | nil => exact List.nodup_nil
  | cons p ports ih =>
    obtain ⟨positive,whole⟩ := divides p List.mem_cons_self
    refine List.nodup_append.mpr ⟨?_,ih (fun q listed => divides q (List.mem_cons_of_mem _ listed)) _,?_⟩
    · refine List.Pairwise.map _ ?_ List.pairwise_lt_range
      intro i j below same
      have row := Nat.mul_lt_mul_of_pos_right below positive
      omega
    · rintro g own h later rfl
      obtain ⟨i,_,rfl⟩ := List.mem_map.mp own
      rw [Nat.add_assoc] at own later
      have inside := ((mem_row positive whole bank acc _).mp own).1
      have := globalIdxList_ge later
      omega

/-- The list of a bank holds every input congruent to it within its port, once. -/
theorem mem_getGlobalIdxList {config : SparseConfig} (divides : config.Divides) (bank g : Nat) :
    g ∈ config.getGlobalIdxList bank ↔ ∃ p index, config.located g = some (p,index) ∧
      index % p.accessGranularity = bank % p.accessGranularity := by
  have listed := mem_globalIdxList divides bank 0 g
  rw [Nat.zero_add] at listed
  rw [getGlobalIdxList,listed,located_within]

theorem getGlobalIdxList_lt {config : SparseConfig} (divides : config.Divides) {bank g : Nat}
    (listed : g ∈ config.getGlobalIdxList bank) :
    g < sumOf SparsePortDefinition.width config.ports := by
  obtain ⟨p,index,found,_⟩ := (mem_getGlobalIdxList divides bank g).mp listed
  rw [located_within] at found
  rw [← within_isSome,found]
  rfl

end SparseConfig
end Snax
