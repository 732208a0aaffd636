import Snax.XdmaProgramming
import Snax.XdmaRemoteTask

/-! The driver and the hardware agree on the registers: a launch receives what the last calls
of the driver asked for. -/
namespace Snax.XdmaDriver

open XDMACtrl Header Sync.Overlay

variable {param : XDMACtrlParam}

/-! ### What the next launch receives -/

theorem cat_word (word : BitVec 32) (w : Nat) : BitVec.ofNat w (cat [word]) = word.setWidth w := by
  rw [cat,cat,Nat.mul_zero,Nat.add_zero,BitVec.ofNat_toNat]

/-- A mask that is not configurable has no bits to differ in. -/
theorem no_bits {w : Nat} (none_ : w = 0) (x y : BitVec w) : x = y := by
  subst none_
  exact Subsingleton.elim x y

attribute [ext] AddressGenUnitCfgIO

section Launch

variable {regs : Nat → BitVec 32} {intent : Intent}
variable (programmed : Programmed param regs intent)
include programmed

theorem mask_eq (s : Side) (w : Nat)
    (width : (param.side s).rwParam.configurableChannel = false → w = 0) :
    BitVec.ofNat w (cat (((sideWiring param s).map regs).readerwriterCfg.enabledChannel.getD []).reverse) =
      (intent.copy.enabledChan s).setWidth w := by
  cases configurable : (param.side s).rwParam.configurableChannel with
  | false => exact no_bits (width configurable) _ _
  | true =>
    have wired : ((sideWiring param s).map regs).readerwriterCfg.enabledChannel =
        some [regs (enabledChanPtr param s)] := by
      simp [SideCsr.map,ReaderWriterCfg.map,sideWiring,configurable]
    rw [wired,programmed.enabledChan s configurable]
    exact cat_word _ w

end Launch

/-- Out of reset, before any write. -/
def reset : Bus (BitVec 32) := ⟨fun _ => 0,[]⟩

/-- The registers hold what was asked for, and the start register has not been written. -/
structure Agrees (param : XDMACtrlParam) (bus : Bus (BitVec 32)) (intent : Intent) : Prop where
  received : received param (seg bus.regs 0 (numReadWriteReg param)) = some (intent.launch param)
  enabled : ∀ s, ∀ e < extNum param s, (bus.regs (enablePtr param s)).getLsbD e = intent.enabled s e
  unstarted : startPtr param ∉ bus.written

theorem csr_registers (param : XDMACtrlParam) : 0 < numReadWriteReg param := Nat.succ_pos _
theorem csr_word : 0 < 32 := by decide
theorem csr_bytes : 8 ∣ 32 := by decide
theorem csr_whole : 32 ∣ 32 := Nat.dvd_refl 32
theorem csr_wide : 32 ≤ 32 := Nat.le_refl 32

/-- The register file of the XDMA, on a bus of one register a beat. -/
@[reducible] def csrParam (param : XDMACtrlParam) : ReqRspParam where
  numReadWriteReg := numReadWriteReg param
  numReadOnlyReg := 7
  addrWidth := 32
  ioDataWidth := 32
  regDataWidth := 32
  registers := csr_registers param
  regPositive := csr_word
  wholeWords := csr_whole
  wide := csr_wide
  wholeBytes := csr_bytes

/-- What a register write of the driver requests. -/
def cfgReq (param : XDMACtrlParam) (addr : Nat) (value : BitVec 32) :
    ReqRspManager.Request (csrParam param) := ⟨BitVec.ofNat 32 addr,true,value,BitVec.allOnes _,false⟩

/-- The register file takes the request as the driver means it. -/
theorem writeBeat_cfgReq {addr : Nat} (reachable : addr < 2 ^ 32) (value : BitVec 32)
    (regs : Nat → BitVec 32) (r : Fin (csrParam param).numReadWriteReg) :
    ReqRspManager.writeBeat (fun r => regs r.val) (cfgReq param addr value) r =
      apply (point addr value) regs r.val := by
  apply BitVec.eq_of_getLsbD_eq
  intro j small
  have oneWord : ReqRspManager.wordsPerBeat (csrParam param) = 1 := Nat.div_self csr_word
  have there : (cfgReq param addr value).addr.toNat = addr := by
    rw [cfgReq,BitVec.toNat_ofNat,Nat.mod_eq_of_lt reachable]
  have bit : ReqRspManager.busBit (csrParam param) r.val j = j := by
    rw [ReqRspManager.busBit,oneWord,Nat.mod_one,Nat.zero_mul,Nat.zero_add]
  have strobed : (cfgReq param addr value).strb.getLsbD (j / 8) = true := by
    have lane : j / 8 < 32 / 8 := by
      have width : j < 32 := small
      omega
    rw [cfgReq,BitVec.getLsbD_allOnes]
    exact decide_eq_true lane
  rw [ReqRspManager.writeBeat_bit _ _ _ small,bit,oneWord,Nat.div_one,there]
  by_cases here : r.val = addr
  · rw [if_pos ⟨here,strobed⟩,here,apply_some (point_self addr value)]
    rfl
  · rw [if_neg (fun both => here both.1),apply_none (point_ne here value)]

/-- What the register file delivers at a launch is what the hardware slices. -/
theorem delivered_regs (regs : Nat → BitVec 32) :
    List.ofFn (fun r : Fin (csrParam param).numReadWriteReg => regs r.val) =
      seg regs 0 (numReadWriteReg param) := by
  rw [seg,← List.range_eq_range',List.ofFn_eq_map,← List.map_coe_finRange_eq_range,List.map_map]
  rfl

/-! ### Where the driver and the hardware disagree -/

section Converse

variable (agrees : ∀ clusterBaseAddrh calls, (∀ call ∈ calls, call.Fits param) →
  Agrees param (run param clusterBaseAddrh calls reset)
    (calls.foldl (Intent.step param clusterBaseAddrh) Intent.reset))
include agrees

end Converse

end Snax.XdmaDriver
