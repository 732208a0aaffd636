import Mathlib.Data.Fintype.Basic
import Snax.Sync.Machine

/-! The hardware barrier of a cluster: `snitch_barrier.sv` keeps a bit for each core that has come, and
every core keeps the stall of its CSR instruction. Which instructions the cores are at is the input. -/
namespace Snax

open Sync (Machine)

structure HwBarrier (ι : Type) where
  arrivalQ : ι → Bool
  csrStallQ : ι → Bool

structure HwBarrierOut (ι : Type) where
  /-- `barrier_i`, from the cores. -/
  comes : ι → Bool
  /-- `barrier_o`, to all of them. -/
  opens : Bool

namespace HwBarrier

variable {ι : Type} [Fintype ι]

/-- A core that stalls has no valid instruction, so it does not come again. -/
def barrierI (b : HwBarrier ι) (instr : ι → Bool) (i : ι) : Bool := !b.csrStallQ i && instr i

def barrierO (b : HwBarrier ι) : Bool := decide (∀ i, b.arrivalQ i = true)

/-- In the core the assignment of the barrier instruction is behind the one of `barrier_i`. -/
def next (b : HwBarrier ι) (instr : ι → Bool) : HwBarrier ι where
  arrivalQ i := if b.barrierO then false else if b.barrierI instr i then true else b.arrivalQ i
  csrStallQ i := if b.barrierI instr i then true else if b.barrierO then false else b.csrStallQ i

def machine (ι : Type) [Fintype ι] : Machine (HwBarrier ι) (ι → Bool) (HwBarrierOut ι) where
  next := next
  out b instr := ⟨b.barrierI instr,b.barrierO⟩

def reset (ι : Type) : HwBarrier ι := ⟨fun _ => false,fun _ => false⟩

/-- A core stalls just as long as its bit is set, so none comes while the barrier opens. -/
theorem next_same {b : HwBarrier ι} (same : b.csrStallQ = b.arrivalQ) (instr : ι → Bool) :
    (b.next instr).csrStallQ = (b.next instr).arrivalQ := by
  funext i
  simp only [next]
  cases opens : b.barrierO with
  | false => simp [same]
  | true =>
    have all : b.arrivalQ i = true := of_decide_eq_true opens i
    simp [barrierI,same,all]

theorem not_comes {b : HwBarrier ι} (same : b.csrStallQ = b.arrivalQ) (instr : ι → Bool)
    (opens : b.barrierO = true) (i : ι) : b.barrierI instr i = false := by
  have all : b.arrivalQ i = true := of_decide_eq_true opens i
  simp [barrierI,same,all]

end HwBarrier

/-- In every run a core has come as often as the barrier has opened, and once more just if it waits:
no core goes on from its k-th barrier before all of them have come to their k-th. -/
theorem hw_barrier_law {ι : Type} [Fintype ι] (instrs : List (ι → Bool)) (i : ι) :
    ((HwBarrier.machine ι).outs (HwBarrier.reset ι) instrs).countP (·.comes i) =
        ((HwBarrier.machine ι).outs (HwBarrier.reset ι) instrs).countP (·.opens) +
          (((HwBarrier.machine ι).exec (HwBarrier.reset ι) instrs).arrivalQ i).toNat ∧
      ((HwBarrier.machine ι).exec (HwBarrier.reset ι) instrs).csrStallQ =
        ((HwBarrier.machine ι).exec (HwBarrier.reset ι) instrs).arrivalQ := by
  refine (HwBarrier.machine ι).run_rule (fun history b => history.countP (·.comes i) =
    history.countP (·.opens) + (b.arrivalQ i).toNat ∧ b.csrStallQ = b.arrivalQ) ⟨rfl,rfl⟩ ?_ instrs
  rintro history b instr ⟨count,same⟩
  refine ⟨?_,HwBarrier.next_same same instr⟩
  simp only [List.countP_append,List.countP_singleton,count,HwBarrier.machine,HwBarrier.next]
  cases opens : b.barrierO with
  | true =>
    have all : b.arrivalQ i = true := of_decide_eq_true opens i
    simp [HwBarrier.not_comes same instr opens i,all]
  | false =>
    by_cases comes : b.barrierI instr i = true
    · have away : b.arrivalQ i = false := by
        rw [HwBarrier.barrierI,same] at comes
        simpa using (Bool.and_eq_true_iff.mp comes).1
      simp [comes,away]
    · simp [comes]

end Snax
