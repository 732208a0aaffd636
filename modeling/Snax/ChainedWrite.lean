import Mathlib.Data.Nat.Find
import Snax.DstRouting
import Snax.XdmaRemoteTask

/-! Chained writes over the destination router: what the copies of a configuration are and
where each of them goes. A configuration whose first destination is the null pointer is
discarded, unless that pointer lies in the cluster itself. -/
namespace Snax.DstConfigRouter

variable {param : XDMACtrlParam} {clusterBaseAddress : BitVec param.addrWidth}

abbrev Cfg (param : XDMACtrlParam) := XDMACfgIO param .writer

theorem dest_beyond (cfg : Cfg param) {i : Nat} (beyond : param.maxMulticastDest ≤ i) :
    cfg.dest i = 0 := by
  simp [ XDMACfgIO.dest,beyond]

theorem dest_shifted (cfg : Cfg param) (i : Nat) : cfg.shifted.dest i = cfg.dest (i + 1) := by
  by_cases inside : i < param.maxMulticastDest
  · simp [ XDMACfgIO.shifted, XDMACfgIO.dest,inside]
  · rw [dest_beyond _ (Nat.le_of_not_lt inside),dest_beyond _ (by omega)]

theorem ends (cfg : Cfg param) : ∃ i, cfg.dest (i + 1) = 0 :=
  ⟨param.maxMulticastDest,dest_beyond cfg (Nat.le_succ _)⟩

/-- The destinations after the first one, up to the first null pointer. -/
def links (cfg : Cfg param) : Nat := if cfg.origination then 0 else Nat.find (ends cfg)

theorem chain : Chain (rule param clusterBaseAddress) links where
  chained_iff cfg := by
    cases from_ : cfg.origination <;> simp [rule,links,from_]
  shifted cfg more := by
    have submitted : cfg.origination = false := by
      apply Bool.eq_false_iff.mpr
      intro remote
      simp [links,remote] at more
    have same : (rule param clusterBaseAddress).shifted cfg = cfg.shifted := rfl
    have kept : cfg.shifted.origination = false := submitted
    simp only [links,submitted,same,kept,Bool.false_eq_true,if_false] at more ⊢
    rw [Nat.find_pos] at more
    have first := Nat.find_comp_succ (ends cfg) ⟨_,(ends cfg.shifted).choose_spec ▸
      (dest_shifted cfg _).symm⟩ more
    simpa only [dest_shifted] using first

theorem links_lt (cfg : Cfg param) : links cfg < param.maxMulticastDest := by
  have positive := param.multicastPositive
  unfold links
  split
  · exact positive
  · have last : cfg.dest (param.maxMulticastDest - 1 + 1) = 0 :=
      dest_beyond cfg (Nat.le_of_eq (Nat.sub_add_cancel positive).symm)
    exact Nat.lt_of_le_of_lt (Nat.find_min' (ends cfg) last) (Nat.sub_one_lt_of_lt positive)

theorem links_of_dests {cfg : Cfg param} (submitted : cfg.origination = false) {n : Nat} (positive : 0 < n)
    (present : ∀ i < n, cfg.dest i ≠ 0) (absent : ∀ i, n ≤ i → cfg.dest i = 0) :
    links cfg + 1 = n := by
  obtain ⟨m,rfl⟩ := Nat.exists_eq_add_one.mpr positive
  simp only [links,submitted,Bool.false_eq_true,if_false,Nat.add_right_cancel_iff]
  rw [Nat.find_eq_iff]
  exact ⟨absent _ (Nat.le_refl _),fun i early => present _ (Nat.succ_lt_succ early)⟩

theorem dest_iterate (cfg : Cfg param) (i j : Nat) :
    ( XDMACfgIO.shifted^[i] cfg).dest j = cfg.dest (i + j) := by
  induction i generalizing cfg with
  | zero => simp
  | succ i ih => rw [Function.iterate_succ_apply,ih,dest_shifted,Nat.add_right_comm]

theorem readerPtr_iterate (cfg : Cfg param) (i : Nat) :
    ( XDMACfgIO.shifted^[i + 1] cfg).readerPtr = cfg.dest i := by
  rw [Function.iterate_succ_apply']
  exact dest_iterate cfg i 0

/-- Only the pointers differ from one copy to the next. -/
theorem others_iterate (cfg : Cfg param) (i : Nat) :
    { XDMACfgIO.shifted^[i] cfg with readerPtr := cfg.readerPtr, writerPtr := cfg.writerPtr } = cfg := by
  induction i with
  | zero => rfl
  | succ i ih =>
    rw [Function.iterate_succ_apply']
    exact ih

/-! ### Where the copies go -/

/-- A pointer into the TCDM of the cluster that the router is in. -/
def InCluster (clusterBaseAddress ptr : BitVec param.addrWidth) : Prop :=
  XDMACfgIO.clusterOf .writer ptr = XDMACfgIO.clusterOf .writer clusterBaseAddress

instance (ptr : BitVec param.addrWidth) : Decidable (InCluster clusterBaseAddress ptr) :=
  inferInstanceAs (Decidable (_ = _))

theorem toLocal_iff (cfg : Cfg param) :
    (rule param clusterBaseAddress).sel cfg .toLocal = true ↔ InCluster clusterBaseAddress (cfg.dest 0) := by
  simp [rule,InCluster]

theorem toRemote_iff (cfg : Cfg param) : (rule param clusterBaseAddress).sel cfg .toRemote = true ↔
    ¬ InCluster clusterBaseAddress (cfg.dest 0) ∧ cfg.dest 0 ≠ 0 := by
  simp [rule,InCluster]

/-- The `i`-th delivery made of a configuration. -/
structure IsCopy (clusterBaseAddress : BitVec param.addrWidth) (cfg : Cfg param) (i : Nat)
    (copy : Cfg param) : Prop where
  readerPtr : copy.readerPtr = if i = 0 then cfg.readerPtr else cfg.dest (i - 1)
  firstDest : copy.dest 0 = cfg.dest i
  secondDest : copy.dest 1 = cfg.dest (i + 1)
  others : { copy with readerPtr := cfg.readerPtr, writerPtr := cfg.writerPtr } = cfg
  toLocal : (rule param clusterBaseAddress).sel copy .toLocal = true ↔
    InCluster clusterBaseAddress (cfg.dest i)
  toRemote : (rule param clusterBaseAddress).sel copy .toRemote = true ↔
    ¬ InCluster clusterBaseAddress (cfg.dest i)

/-- The deliveries of a configuration, in order. -/
abbrev deliveries (clusterBaseAddress : BitVec param.addrWidth) (cfg : Cfg param) : List (Cfg param) :=
  copies (rule param clusterBaseAddress) links cfg

theorem isCopy {cfg : Cfg param} {i : Nat} (present : cfg.dest i ≠ 0) :
    IsCopy clusterBaseAddress cfg i ( XDMACfgIO.shifted^[i] cfg) where
  readerPtr := by
    cases i with
    | zero => rfl
    | succ i => exact readerPtr_iterate cfg i
  firstDest := dest_iterate cfg i 0
  secondDest := dest_iterate cfg i 1
  others := others_iterate cfg i
  toLocal := by rw [toLocal_iff,dest_iterate,Nat.add_zero]
  toRemote := by
    rw [toRemote_iff,dest_iterate,Nat.add_zero]
    exact and_iff_left present

theorem deliveries_of_dests {cfg : Cfg param} (submitted : cfg.origination = false) {n : Nat}
    (positive : 0 < n) (present : ∀ i < n, cfg.dest i ≠ 0) (absent : ∀ i, n ≤ i → cfg.dest i = 0) :
    (deliveries clusterBaseAddress cfg).length = n ∧ ∀ i < n, ∃ copy,
      (deliveries clusterBaseAddress cfg)[i]? = some copy ∧ IsCopy clusterBaseAddress cfg i copy := by
  have count := links_of_dests submitted positive present absent
  refine ⟨(copies_length cfg).trans count,fun i within => ⟨_,?_,isCopy (present i within)⟩⟩
  exact copiesFrom_getElem? _ cfg (by omega)

theorem deliveries_remote {cfg : Cfg param} (remote : cfg.origination = true) :
    deliveries clusterBaseAddress cfg = [cfg] := by
  simp [deliveries,copies,links,remote,copiesFrom]

/-- Every run of the router, from its reset: each port is given exactly what it is owed for
the accepted configurations, in order; `maxMulticastDest + 1` cycles in which both outputs
are ready bring everything accepted before through; and the buffer has a free slot whenever
the copy of its front is still to be taken. -/
structure FansOut (clusterBaseAddress : BitVec param.addrWidth) (inputs : List (Input (Cfg param))) :
    Prop where
  owed : ∀ c, deliveredBy c ((dstConfigRouter (rule param clusterBaseAddress)).outs
      (initial _) inputs) <+:
    ((acceptedBy ((dstConfigRouter (rule param clusterBaseAddress)).outs (initial _) inputs)).flatMap
      (deliveries clusterBaseAddress)).filter ((rule param clusterBaseAddress).sel · c)
  delivered : ∀ front later, inputs = front ++ later →
    param.maxMulticastDest + 1 ≤ later.countP eager → ∀ c,
    ((acceptedBy ((dstConfigRouter (rule param clusterBaseAddress)).outs (initial _) front)).flatMap
        (deliveries clusterBaseAddress)).filter ((rule param clusterBaseAddress).sel · c) <+:
      deliveredBy c ((dstConfigRouter (rule param clusterBaseAddress)).outs (initial _) inputs)
  free : outValid (rule param clusterBaseAddress)
      ((dstConfigRouter (rule param clusterBaseAddress)).exec (initial _) inputs) .chainedWrite = true →
    bufferReady ((dstConfigRouter (rule param clusterBaseAddress)).exec (initial _) inputs) = true

/-- The chained write. A submitted configuration with `n` destinations is delivered `n`
times; one without any only if its null pointer lies in the cluster, and then here; one
from another cluster once, as it is, or nowhere if its destination is a null pointer
outside the cluster. -/
theorem chained_write (param : XDMACtrlParam) (clusterBaseAddress : BitVec param.addrWidth) :
    (∀ inputs, FansOut clusterBaseAddress inputs) ∧
    (∀ cfg : Cfg param, cfg.origination = false → ∀ n,
      (∀ i < n, cfg.dest i ≠ 0) → (∀ i, n ≤ i → cfg.dest i = 0) →
      (0 < n → (deliveries clusterBaseAddress cfg).length = n ∧ ∀ i < n, ∃ copy,
        (deliveries clusterBaseAddress cfg)[i]? = some copy ∧ IsCopy clusterBaseAddress cfg i copy) ∧
      (n = 0 → deliveries clusterBaseAddress cfg = [cfg])) ∧
    (∀ cfg : Cfg param, cfg.origination = true → deliveries clusterBaseAddress cfg = [cfg]) ∧
    (∀ cfg : Cfg param,
      ((rule param clusterBaseAddress).sel cfg .toLocal = true ↔ InCluster clusterBaseAddress (cfg.dest 0)) ∧
      ((rule param clusterBaseAddress).sel cfg .toRemote = true ↔
        ¬ InCluster clusterBaseAddress (cfg.dest 0) ∧ cfg.dest 0 ≠ 0)) := by
  refine ⟨fun inputs => ⟨fun c => ?_,?_,fun waiting => ?_⟩,fun cfg submitted n present absent => ⟨?_,?_⟩,
    fun cfg => deliveries_remote,fun cfg => ⟨toLocal_iff cfg,toRemote_iff cfg⟩⟩
  · exact (run_routed chain inputs).delivered_within c
  · rintro front later rfl enough c
    exact delivers links_lt chain front later enough c
  · rw [bufferReady_iff,(run_routed chain inputs).sound.alone waiting]
    exact Nat.one_lt_two
  · intro positive
    exact deliveries_of_dests submitted positive present absent
  · rintro rfl
    have single : (rule param clusterBaseAddress).sel cfg .chainedWrite = false := by
      simp [rule,absent 1 (Nat.zero_le _)]
    exact chain.copies_single single

/-- A configuration from another cluster whose destinations are null pointers. -/
def nullTask : Cfg XDMA.defaultParam :=
  { XDMA.loopTask 16 with origination := true, writerPtr := Vector.replicate 4 0 }

def nullRun : List (Input (Cfg XDMA.defaultParam)) :=
  [⟨none,some nullTask,true,true⟩,⟨none,none,true,true⟩]

/-- It is accepted, leaves the buffer and has not passed either output. -/
theorem chained_write_nullRemote :
    let router := dstConfigRouter (rule XDMA.defaultParam 0x10000000)
    let history := router.outs (initial _) nullRun
    nullTask.origination = true ∧ (acceptedBy history).length = 1 ∧ (poppedBy history).length = 1 ∧
      deliveredBy .toLocal history = [] ∧ deliveredBy .toRemote history = [] ∧
      (router.exec (initial _) nullRun).bufferedCfg.elems.length = 0 := by
  refine ⟨rfl,?_,?_,?_,?_,?_⟩
  · decide +kernel
  · decide +kernel
  · exact List.eq_nil_of_length_eq_zero (by decide +kernel)
  · exact List.eq_nil_of_length_eq_zero (by decide +kernel)
  · decide +kernel

end Snax.DstConfigRouter
