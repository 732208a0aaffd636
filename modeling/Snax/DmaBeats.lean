import Mathlib.Tactic.Ring
import Snax.DmaEngine
import Snax.Sync.Agenda

/-! The beats of `DmaEngine`: the transfers of the queue are served one after the other, each
from the cycle on in which it is released and the one before it has ended. -/
namespace Snax.DmaEngine

open Sync

/-- A call of `enqueue`, and the beat periods that are set by then. -/
structure Request where
  tcdmAddr : BitVec 32
  bytes : BitVec 32
  l3 : Bool
  atRel : Nat
  beatPeriodL3 : Int
  beatPeriodTcdm : Int

namespace Request

variable (r : Request)

def period : Int := if r.l3 then r.beatPeriodL3 else r.beatPeriodTcdm

/-- Its bytes in beats of 64, rounded up. -/
def beats : Nat := (r.bytes.toNat + 63) / 64

/-- The cycles from its first beat until the period of the last has elapsed. -/
def length : Nat := r.beats * r.period.toNat

def xfer : Xfer := ⟨r.tcdmAddr,BitVec.ofNat 32 r.beats,r.period,r.atRel⟩

end Request

def request (d : DmaEngine) (r : Request) : DmaEngine :=
  { d with beatPeriodL3 := r.beatPeriodL3, beatPeriodTcdm := r.beatPeriodTcdm }.enqueue
    r.tcdmAddr r.bytes r.l3 r.atRel

def enqueueAll (d : DmaEngine) (requests : List Request) : DmaEngine := requests.foldl request d

/-- The state after `n` cycles from cycle `t` on. -/
def run (d : DmaEngine) (t : Nat) : Nat → DmaEngine
  | 0 => d
  | n + 1 => ((run d t n).step (t + n)).1

/-- The mask of cycle `t + n` of these. -/
def mask (d : DmaEngine) (t n : Nat) : BitVec 32 := ((run d t n).step (t + n)).2

/-- The mask of cycle `c` when the first step is that of cycle 1. -/
def maskIn (d : DmaEngine) (c : Nat) : BitVec 32 := mask d 1 (c - 1)

/-- The eight banks of a superbank. -/
def superbankMask (i : Nat) : BitVec 32 := 0xFF <<< (i * 8)

/-- The transfers that have bytes at all. -/
def sent (requests : List Request) : List Request := requests.filter fun r => r.bytes != 0

def start (sent : List Request) (i : Nat) : Nat := Agenda.start Request.atRel Request.length sent 1 i

structure BeatLaw (sent : List Request) (d : DmaEngine) : Prop where
  beat : ∀ i r, sent[i]? = some r → ∀ k < r.beats,
    maskIn d (start sent i + k * r.period.toNat) = superbankMask ((r.tcdmAddr.toNat / 64 + k) % 4)
  quiet : ∀ c, 1 ≤ c → (∀ i r, sent[i]? = some r → ∀ k < r.beats,
    c ≠ start sent i + k * r.period.toNat) → maskIn d c = 0
  released : ∀ i r, sent[i]? = some r → 1 ≤ start sent i ∧ r.atRel ≤ start sent i
  inOrder : ∀ i j r, i < j → sent[i]? = some r → start sent i + r.length ≤ start sent j
  done : ∀ c, (run d 1 c).doneCnt.toNat = Agenda.ended Request.atRel Request.length sent 1 (c + 1)

/-! ### A transfer -/

variable {d : DmaEngine} {r : Request} {t m n : Nat}

theorem run_add (d : DmaEngine) (t m n : Nat) : run d t (m + n) = run (run d t m) (t + m) n := by
  induction n with
  | zero => rfl
  | succ n ih => rw [← Nat.add_assoc,run,run,ih,Nat.add_assoc]

theorem superbank_beat (a : BitVec 32) (k : Nat) :
    superbank (a + BitVec.ofNat 32 (64 * k)) = superbankMask ((a.toNat / 64 + k) % 4) := by
  have three : (3 : BitVec 32).toNat = 2 ^ 2 - 1 := rfl
  have bank : (((a + BitVec.ofNat 32 (64 * k)) >>> 6) &&& 3).toNat = (a.toNat / 64 + k) % 4 := by
    have small := a.isLt
    rw [BitVec.toNat_and,three,Nat.and_two_pow_sub_one_eq_mod,BitVec.toNat_ushiftRight,BitVec.toNat_add,
      BitVec.toNat_ofNat,Nat.shiftRight_eq_div_pow]
    omega
  rw [superbank,bank,superbankMask]

/-- The transfer `r` of the idle state `d`, `n` cycles after its launch. -/
def underWay (d : DmaEngine) (r : Request) (n : Nat) : DmaEngine :=
  { d with
    head := d.head + 1
    active := n < r.length
    addr := r.tcdmAddr + BitVec.ofNat 32 (64 * (n / r.period.toNat))
    beatsLeft := BitVec.ofNat 32 (r.beats - n / r.period.toNat)
    period := r.period
    timer := r.period - (n % r.period.toNat : Nat)
    doneCnt := if n < r.length then d.doneCnt else d.doneCnt + 1 }

structure Served (r : Request) : Prop where
  some : 0 < r.beats
  few : r.beats < 2 ^ 32
  period : 1 ≤ r.period

theorem Served.length_pos (served : Served r) : 0 < r.length := by
  have period := served.period
  exact Nat.mul_pos served.some (by omega)

theorem launch_eq (served : Served r) : d.launch r.xfer = underWay d r 0 := by
  simp [launch,underWay,Request.xfer,served.length_pos]

/-- The next cycle is the next of the same beat or the first of the next one. -/
theorem next_cycle {p : Nat} (positive : 0 < p) (n : Nat) :
    n % p + 1 < p ∧ (n + 1) / p = n / p ∧ (n + 1) % p = n % p + 1 ∨
      n % p + 1 = p ∧ (n + 1) / p = n / p + 1 ∧ (n + 1) % p = 0 := by
  have split := Nat.mod_add_div n p
  rcases Nat.lt_or_eq_of_le (Nat.mod_lt n positive) with same | last
  · exact .inl ⟨same,(Nat.div_mod_unique positive).mpr ⟨by omega,same⟩⟩
  · refine .inr ⟨last,(Nat.div_mod_unique positive).mpr ⟨?_,positive⟩⟩
    rw [Nat.mul_succ]
    omega

/-- A transfer under way, with its period as a number. -/
theorem underWay_eq {p : Nat} (period : r.period = p) (d : DmaEngine) (n : Nat) : underWay d r n =
    { d with
      head := d.head + 1
      active := n < r.beats * p
      addr := r.tcdmAddr + BitVec.ofNat 32 (64 * (n / p))
      beatsLeft := BitVec.ofNat 32 (r.beats - n / p)
      period := (p : Int)
      timer := (p : Int) - (n % p : Nat)
      doneCnt := if n < r.beats * p then d.doneCnt else d.doneCnt + 1 } := by
  rw [underWay,Request.length,period,Int.toNat_natCast]

theorem ofNat_sub_one {b : Nat} (some : 0 < b) : BitVec.ofNat 32 b - 1 = BitVec.ofNat 32 (b - 1) := by
  obtain ⟨c,rfl⟩ : ∃ c, b = c + 1 := ⟨b - 1,by omega⟩
  rw [BitVec.ofNat_add,Nat.add_sub_cancel]
  exact BitVec.add_sub_cancel _ _

theorem ofNat_eq_zero {b : Nat} (few : b < 2 ^ 32) : BitVec.ofNat 32 b = 0 ↔ b = 0 := by
  rw [← BitVec.toNat_inj,BitVec.toNat_ofNat,Nat.mod_eq_of_lt few]
  rfl

theorem beat_underWay (served : Served r) (turn : n < r.length) :
    (underWay d r n).beat = (underWay d r (n + 1),
      if n % r.period.toNat = 0 then
        superbankMask ((r.tcdmAddr.toNat / 64 + n / r.period.toNat) % 4) else 0) := by
  have lasting := served.period
  have few := served.few
  obtain ⟨p,period⟩ : ∃ p : Nat, r.period = p := ⟨r.period.toNat,by omega⟩
  have positive : 0 < p := by omega
  rw [Request.length,period,Int.toNat_natCast] at turn
  have left : n / p < r.beats := Nat.div_lt_of_lt_mul (Nat.mul_comm _ _ ▸ turn)
  have split := Nat.mod_add_div n p
  have presented : (0 < (p : Int) ∧ (p : Int) - (n % p : Nat) = p) ↔ n % p = 0 := by omega
  rw [underWay_eq period,underWay_eq period,period,Int.toNat_natCast,← superbank_beat]
  refine Prod.ext ?_ (by simp only [beat,presented])
  rcases next_cycle positive n with ⟨same,quotient,rest⟩ | ⟨last,quotient,rest⟩
  · have more : n + 1 < r.beats * p := by
      have room : (n / p + 1) * p ≤ r.beats * p := Nat.mul_le_mul_right p left
      rw [Nat.succ_mul,Nat.mul_comm (n / p)] at room
      omega
    have waits : ¬ (p : Int) - (n % p + 1 : Nat) ≤ 0 := by omega
    have timer : (p : Int) - (n % p : Nat) - 1 = p - (n % p + 1 : Nat) := by omega
    simp only [beat,timer,if_neg waits,turn,more,quotient,rest,decide_true,↓reduceIte]
  · have whole : n + 1 = (n / p + 1) * p := by
      rw [Nat.succ_mul,Nat.mul_comm]
      omega
    have due : (p : Int) - (n % p : Nat) - 1 ≤ 0 := by omega
    have more : n + 1 < r.beats * p ↔ r.beats - n / p - 1 ≠ 0 := by
      rw [whole,Nat.mul_lt_mul_right positive]
      omega
    have next : r.tcdmAddr + BitVec.ofNat 32 (64 * (n / p)) + 64 =
        r.tcdmAddr + BitVec.ofNat 32 (64 * (n / p + 1)) := by
      rw [Nat.mul_succ,BitVec.ofNat_add,← BitVec.add_assoc]
      rfl
    have fewer : BitVec.ofNat 32 (r.beats - n / p) - 1 = BitVec.ofNat 32 (r.beats - (n / p + 1)) := by
      rw [ofNat_sub_one (by omega),Nat.sub_sub]
    have ends : BitVec.ofNat 32 (r.beats - (n / p + 1)) = 0 ↔ ¬ n + 1 < r.beats * p := by
      rw [ofNat_eq_zero (Nat.lt_of_le_of_lt (Nat.sub_le _ _) few),more]
      omega
    have active : (BitVec.ofNat 32 (r.beats - (n / p + 1)) != 0) = decide (n + 1 < r.beats * p) := by
      rw [Bool.eq_iff_iff,bne_iff_ne,decide_eq_true_iff,ne_eq,ends,Decidable.not_not]
    simp only [beat,if_pos due,next,fewer,active,ends,turn,quotient,rest,ite_not,↓reduceIte,Nat.cast_zero,
      Int.sub_zero]

theorem run_idle (idle : d.active = false) (waits : ∀ x, d.q[d.head]? = some x → t + n ≤ x.atRel) :
    run d t n = d := by
  induction n with
  | zero => rfl
  | succ n ih =>
    rw [run,ih fun x queued => Nat.le_of_succ_le (waits x queued)]
    simp only [step,idle,Bool.false_eq_true,↓reduceIte]
    split
    · next x queued =>
      have early : t + n < x.atRel := waits x queued
      rw [if_pos early]
    · rfl

theorem mask_idle (idle : d.active = false) (waits : ∀ x, d.q[d.head]? = some x → t + n < x.atRel) :
    mask d t n = 0 := by
  rw [mask,run_idle idle fun x queued => (waits x queued).le]
  simp only [step,idle,Bool.false_eq_true,↓reduceIte]
  split
  · next x queued => rw [if_pos (waits x queued)]
  · rfl

/-- From its launch on the engine is busy with the transfer. -/
theorem step_transfer (idle : d.active = false) (queued : d.q[d.head]? = some r.xfer)
    (served : Served r) (released : r.atRel ≤ t) (turn : n < r.length) :
    (run d t n).step (t + n) = (underWay d r n).beat := by
  induction n with
  | zero =>
    have launched : ¬ t + 0 < r.xfer.atRel := Nat.not_lt.mpr released
    simp only [run,step,idle,queued,if_neg launched,launch_eq served,Bool.false_eq_true,↓reduceIte]
  | succ n ih =>
    have active : (underWay d r (n + 1)).active = true := decide_eq_true turn
    rw [run,ih (Nat.lt_of_succ_lt turn),beat_underWay served (Nat.lt_of_succ_lt turn),step,if_pos active]

theorem run_transfer (idle : d.active = false) (queued : d.q[d.head]? = some r.xfer)
    (served : Served r) (released : r.atRel ≤ t) (turn : n < r.length) :
    run d t (n + 1) = underWay d r (n + 1) := by
  rw [run,step_transfer idle queued served released turn,beat_underWay served turn]

/-! ### The queue -/

/-- The engine serves `jobs` from cycle `t` on. -/
structure Serves (jobs : List Request) (d : DmaEngine) (t : Nat) : Prop where
  beat : ∀ i r, jobs[i]? = some r → ∀ k < r.beats, ∀ n,
    t + n = Agenda.start Request.atRel Request.length jobs t i + k * r.period.toNat →
      mask d t n = superbankMask ((r.tcdmAddr.toNat / 64 + k) % 4)
  quiet : ∀ n, (∀ i r, jobs[i]? = some r → ∀ k < r.beats,
    t + n ≠ Agenda.start Request.atRel Request.length jobs t i + k * r.period.toNat) → mask d t n = 0
  done : ∀ n, (run d t n).doneCnt =
    d.doneCnt + BitVec.ofNat 32 (Agenda.ended Request.atRel Request.length jobs t (t + n))

theorem beat_lt_length {k : Nat} (served : Served r) (inside : k < r.beats) :
    k * r.period.toNat < r.length := by
  have lasting := served.period
  exact (Nat.mul_lt_mul_right (by omega)).mpr inside

theorem serves_nil (idle : d.active = false) (drained : d.q[d.head]? = none) (t : Nat) :
    Serves [] d t where
  beat i r member := by simp at member
  quiet n _ := mask_idle idle fun x queued => by simp [drained] at queued
  done n := by
    rw [run_idle idle fun x queued => by simp [drained] at queued]
    simp [Agenda.ended]

/-- The state after the transfer. -/
def after (d : DmaEngine) (r : Request) : DmaEngine := underWay d r r.length

section Phases

variable (idle : d.active = false) (queued : d.q[d.head]? = some r.xfer)
include idle queued

theorem run_before (early : t + n ≤ max t r.atRel) : run d t n = d := by
  rcases Nat.le_total t r.atRel with waits | released
  · refine run_idle idle fun x same => ?_
    obtain rfl : r.xfer = x := Option.some_inj.mp (queued.symm.trans same)
    exact early.trans (Nat.max_eq_right waits).le
  · have now : n = 0 := by
      rw [Nat.max_eq_left released] at early
      omega
    rw [now]
    rfl

theorem mask_before (early : t + n < max t r.atRel) : mask d t n = 0 := by
  refine mask_idle idle fun x same => ?_
  obtain rfl : r.xfer = x := Option.some_inj.mp (queued.symm.trans same)
  change t + n < r.atRel
  omega

/-- The wait of the transfer and `n` cycles more. -/
theorem run_launched (t n : Nat) :
    run d t (max t r.atRel - t + n) = run d (max t r.atRel) n := by
  have wait : t + (max t r.atRel - t) = max t r.atRel := Nat.add_sub_cancel' (Nat.le_max_left _ _)
  rw [run_add,run_before idle queued wait.le,wait]

variable (served : Served r)
include served

theorem mask_during {m : Nat} (turn : m < r.length) (time : t + n = max t r.atRel + m) :
    mask d t n = if m % r.period.toNat = 0 then
      superbankMask ((r.tcdmAddr.toNat / 64 + m / r.period.toNat) % 4) else 0 := by
  obtain rfl : n = max t r.atRel - t + m := by omega
  rw [mask,run_launched idle queued,time,step_transfer idle queued served (Nat.le_max_right _ _) turn,
    beat_underWay served turn]

theorem doneCnt_during (early : t + n < max t r.atRel + r.length) : (run d t n).doneCnt = d.doneCnt := by
  rcases Nat.lt_or_ge (max t r.atRel) (t + n) with later | before
  · obtain ⟨m,rfl⟩ : ∃ m, n = max t r.atRel - t + (m + 1) := ⟨t + n - max t r.atRel - 1,by omega⟩
    have turn : m + 1 < r.length := by omega
    rw [run_launched idle queued,
      run_transfer idle queued served (Nat.le_max_right _ _) (Nat.lt_of_succ_lt turn)]
    exact if_pos turn
  · rw [run_before idle queued before]

theorem run_after {m : Nat} (time : t + n = max t r.atRel + r.length + m) :
    run d t n = run (after d r) (max t r.atRel + r.length) m := by
  have some := served.length_pos
  obtain rfl : n = max t r.atRel - t + r.length + m := by omega
  have last : run d (max t r.atRel) r.length = after d r := by
    obtain ⟨l,size⟩ : ∃ l, r.length = l + 1 := ⟨r.length - 1,by omega⟩
    rw [after,size]
    exact run_transfer idle queued served (Nat.le_max_right _ _) (by omega)
  rw [run_add,run_launched idle queued,last]
  congr 1
  omega

theorem mask_after {m : Nat} (time : t + n = max t r.atRel + r.length + m) :
    mask d t n = mask (after d r) (max t r.atRel + r.length) m := by
  rw [mask,mask,run_after idle queued served time,time]

/-- One transfer and the rest of the queue. -/
theorem serves_cons {rest : List Request} (all : ∀ x ∈ rest, Served x)
    (further : Serves rest (after d r) (max t r.atRel + r.length)) : Serves (r :: rest) d t where
  beat i x member k inside n time := by
    cases i with
    | zero =>
      obtain rfl : r = x := by simpa using member
      have turn := beat_lt_length served inside
      have lasting := served.period
      rw [mask_during idle queued served turn time,Nat.mul_mod_left,if_pos rfl,
        Nat.mul_div_cancel _ (by omega)]
    | succ i =>
      have later : max t r.atRel + r.length ≤
          Agenda.start Request.atRel Request.length rest (max t r.atRel + r.length) i :=
        Agenda.le_start rest _ i
      simp only [Agenda.start] at time
      obtain ⟨m,split⟩ := Nat.exists_eq_add_of_le (Nat.le_trans later (Nat.le_add_right _ _))
      rw [mask_after idle queued served (time.trans split)]
      exact further.beat i x (by simpa using member) k inside m split.symm
  quiet n outside := by
    rcases Nat.lt_or_ge (t + n) (max t r.atRel) with early | launched
    · exact mask_before idle queued early
    obtain ⟨m,split⟩ := Nat.exists_eq_add_of_le launched
    rcases Nat.lt_or_ge m r.length with turn | past
    · rw [mask_during idle queued served turn split]
      refine if_neg fun whole => ?_
      have beats : m / r.period.toNat < r.beats := Nat.div_lt_of_lt_mul (Nat.mul_comm _ _ ▸ turn)
      refine outside 0 r rfl _ beats ?_
      rw [split,Nat.div_mul_cancel (Nat.dvd_of_mod_eq_zero whole)]
      rfl
    · obtain ⟨l,rfl⟩ := Nat.exists_eq_add_of_le past
      rw [← Nat.add_assoc] at split
      rw [mask_after idle queued served split]
      refine further.quiet l fun i x member k inside => ?_
      rw [← split]
      exact outside (i + 1) x (by simpa using member) k inside
  done n := by
    rw [Agenda.ended_cons]
    rcases Nat.lt_or_ge (t + n) (max t r.atRel + r.length) with early | past
    · rw [doneCnt_during idle queued served early,if_neg (Nat.not_le.mpr early),
        Agenda.ended_zero (fun x member => (all x member).length_pos) early.le]
      exact (BitVec.add_zero _).symm
    · obtain ⟨m,split⟩ := Nat.exists_eq_add_of_le past
      have counted : (after d r).doneCnt = d.doneCnt + 1 := if_neg (Nat.lt_irrefl _)
      rw [run_after idle queued served split,further.done,counted,if_pos past,← split,BitVec.ofNat_add,
        ← BitVec.add_assoc]
      rfl

end Phases

theorem serves {jobs : List Request} (all : ∀ r ∈ jobs, Served r) (idle : d.active = false)
    (queue : d.q.drop d.head = jobs.map Request.xfer) (t : Nat) : Serves jobs d t := by
  induction jobs generalizing d t with
  | nil => exact serves_nil idle (List.getElem?_eq_none (List.drop_eq_nil_iff.mp queue)) t
  | cons r rest ih =>
    have queued : d.q[d.head]? = some r.xfer := by
      rw [← List.head?_drop,queue]
      rfl
    have next : (after d r).q.drop (after d r).head = rest.map Request.xfer := by
      change d.q.drop (d.head + 1) = _
      rw [← List.tail_drop,queue]
      rfl
    have others : ∀ x ∈ rest, Served x := fun x member => all x (List.mem_cons_of_mem _ member)
    exact serves_cons idle queued (all r (List.mem_cons_self ..)) others
      (ih others (decide_eq_false (Nat.lt_irrefl _)) next _)

/-! ### The calls of `enqueue` -/

/-- What the caller of a run provides: the transfers as they are to be served. -/
structure Ready (sent : List Request) (d : DmaEngine) : Prop where
  queue : d.q = sent.map Request.xfer
  fresh : d.head = 0 ∧ d.doneCnt = 0 ∧ d.active = false

theorem Ready.serves {sent : List Request} (ready : Ready sent d) (all : ∀ r ∈ sent, Served r) :
    Serves sent d 1 := by
  obtain ⟨head,none,idle⟩ := ready.fresh
  refine DmaEngine.serves all idle ?_ 1
  rw [head,List.drop_zero,ready.queue]

theorem Ready.law {sent : List Request} (ready : Ready sent d) (all : ∀ r ∈ sent, Served r)
    (few : sent.length < 2 ^ 32) : BeatLaw sent d where
  beat i r member k inside := by
    have first : 1 ≤ Agenda.start Request.atRel Request.length sent 1 i := Agenda.le_start sent 1 i
    refine (ready.serves all).beat i r member k inside _ ?_
    exact Nat.add_sub_cancel' (Nat.le_trans first (Nat.le_add_right _ _))
  quiet c positive outside := by
    refine (ready.serves all).quiet _ fun i r member k inside => ?_
    rw [Nat.add_sub_cancel' positive]
    exact outside i r member k inside
  released i r member := ⟨Agenda.le_start _ _ _,Agenda.release_le member 1⟩
  inOrder i j r later member := Agenda.end_le_start member later 1
  done c := by
    have bound : Agenda.ended Request.atRel Request.length sent 1 (c + 1) ≤ sent.length :=
      Agenda.ended_le sent 1 (c + 1)
    rw [(ready.serves all).done,ready.fresh.2.1,Nat.add_comm 1,zero_add,BitVec.toNat_ofNat,
      Nat.mod_eq_of_lt (Nat.lt_of_le_of_lt bound few)]

/-- The same transfers give the same beats and counts in the same cycles. -/
theorem BeatLaw.same {sent : List Request} {d e : DmaEngine} (law : BeatLaw sent d) (other : BeatLaw sent e)
    (c : Nat) : (1 ≤ c → maskIn e c = maskIn d c) ∧ (run e 1 c).doneCnt = (run d 1 c).doneCnt := by
  refine ⟨fun positive => ?_,BitVec.eq_of_toNat_eq ((other.done c).trans (law.done c).symm)⟩
  by_cases presented : ∃ i r, sent[i]? = some r ∧ ∃ k < r.beats, c = start sent i + k * r.period.toNat
  · obtain ⟨i,r,member,k,inside,rfl⟩ := presented
    rw [law.beat i r member k inside,other.beat i r member k inside]
  · have outside : ∀ i r, sent[i]? = some r → ∀ k < r.beats, c ≠ start sent i + k * r.period.toNat :=
      fun i r member k inside same => presented ⟨i,r,member,k,inside,same⟩
    rw [law.quiet c positive outside,other.quiet c positive outside]

@[simp] theorem step_q (d : DmaEngine) (c : Nat) : (d.step c).1.q = d.q := by
  have kept (d : DmaEngine) : d.beat.1.q = d.q := by
    unfold beat
    simp only
    split <;> rfl
  unfold step
  split
  · exact kept d
  · split
    · split
      · rfl
      · exact kept _
    · rfl

theorem run_q (d : DmaEngine) (t n : Nat) : (run d t n).q = d.q := by
  induction n with
  | zero => rfl
  | succ n ih => rw [run,step_q,ih]

theorem Ready.rewind {sent : List Request} (ready : Ready sent d) (n : Nat) :
    Ready sent (run d 1 n).rewind :=
  ⟨(run_q d 1 n).trans ready.queue,rfl,rfl,rfl⟩

/-- A call whose bytes do not wrap when they are rounded up. -/
theorem request_eq (d : DmaEngine) (r : Request) (small : r.bytes.toNat ≤ 2 ^ 32 - 64) :
    (d.request r).q = d.q ++ ([r].filter fun r => r.bytes != 0).map Request.xfer ∧
      (d.request r).head = d.head ∧ (d.request r).doneCnt = d.doneCnt ∧
      (d.request r).active = d.active := by
  have beats : (r.bytes + 63) / 64 = BitVec.ofNat 32 r.beats := by
    have more : (63 : BitVec 32).toNat = 63 := rfl
    have size : (64 : BitVec 32).toNat = 64 := rfl
    apply BitVec.eq_of_toNat_eq
    rw [BitVec.toNat_udiv,BitVec.toNat_add,BitVec.toNat_ofNat,more,size,Request.beats]
    omega
  have none : BitVec.ofNat 32 r.beats = 0 ↔ r.bytes = 0 := by
    rw [ofNat_eq_zero (by unfold Request.beats; omega),← BitVec.toNat_inj]
    unfold Request.beats
    change _ ↔ _ = 0
    omega
  unfold request enqueue
  rw [beats]
  by_cases empty : r.bytes = 0
  · rw [if_pos (none.mpr empty)]
    simp [empty]
  · have kept : ([r].filter fun r => r.bytes != 0) = [r] := by
      refine List.filter_eq_self.mpr fun x member => ?_
      rw [List.mem_singleton.mp member]
      exact bne_iff_ne.mpr empty
    rw [if_neg (by rw [none]; exact empty),kept]
    exact ⟨rfl,rfl,rfl,rfl⟩

/-- The calls on a cleared engine. -/
theorem ready_enqueueAll (d : DmaEngine) (requests : List Request)
    (small : ∀ r ∈ requests, r.bytes.toNat ≤ 2 ^ 32 - 64) :
    Ready (sent requests) (d.clear.enqueueAll requests) := by
  induction requests using List.reverseRecOn with
  | nil => exact ⟨rfl,rfl,rfl,rfl⟩
  | append_singleton requests r ih =>
    have earlier := ih fun x member => small x (List.mem_append_left _ member)
    obtain ⟨queue,head,done,active⟩ := request_eq (d.clear.enqueueAll requests) r (small r (by simp))
    have last : d.clear.enqueueAll (requests ++ [r]) = (d.clear.enqueueAll requests).request r := by
      rw [enqueueAll,List.foldl_append]
      rfl
    have all : sent (requests ++ [r]) = sent requests ++ [r].filter fun r => r.bytes != 0 :=
      List.filter_append ..
    rw [last,all]
    refine ⟨?_,head.trans earlier.fresh.1,done.trans earlier.fresh.2.1,active.trans earlier.fresh.2.2⟩
    rw [queue,earlier.queue,List.map_append]

theorem served_of_sent {requests : List Request} (small : ∀ r ∈ requests, r.bytes.toNat ≤ 2 ^ 32 - 64)
    (periods : ∀ r ∈ requests, 1 ≤ r.period) {r : Request} (member : r ∈ sent requests) : Served r := by
  obtain ⟨called,bytes⟩ := List.mem_filter.mp member
  have bound := small r called
  have nonzero : r.bytes.toNat ≠ 0 := by
    intro zero
    rw [show r.bytes = 0 from BitVec.eq_of_toNat_eq zero] at bytes
    exact absurd bytes (by decide)
  refine ⟨?_,?_,periods r called⟩
  · unfold Request.beats
    omega
  · unfold Request.beats
    omega

/-- The transfers of any calls on a cleared engine, in a run from cycle 1 on, and again in the
same run after a rewind. -/
theorem beat_law (d : DmaEngine) {requests : List Request}
    (small : ∀ r ∈ requests, r.bytes.toNat ≤ 2 ^ 32 - 64) (few : requests.length < 2 ^ 32)
    (periods : ∀ r ∈ requests, 1 ≤ r.period) :
    BeatLaw (sent requests) (d.clear.enqueueAll requests) ∧
      ∀ n c, (1 ≤ c → maskIn (run (d.clear.enqueueAll requests) 1 n).rewind c =
          maskIn (d.clear.enqueueAll requests) c) ∧
        (run (run (d.clear.enqueueAll requests) 1 n).rewind 1 c).doneCnt =
          (run (d.clear.enqueueAll requests) 1 c).doneCnt := by
  have ready := ready_enqueueAll d requests small
  have all : ∀ r ∈ sent requests, Served r := fun r member => served_of_sent small periods member
  have short : (sent requests).length < 2 ^ 32 := Nat.lt_of_le_of_lt (List.length_filter_le ..) few
  have law := ready.law all short
  exact ⟨law,fun n c => law.same ((ready.rewind n).law all short) c⟩

/-- Two transfers, the second of them released while the first is under way. -/
def pair : List Request := [⟨0x40,130,false,3,4,2⟩,⟨0,64,true,5,4,2⟩]

theorem beat_law_pair : BeatLaw (sent pair) (fresh.clear.enqueueAll pair) ∧
    ∀ n c, (1 ≤ c → maskIn (run (fresh.clear.enqueueAll pair) 1 n).rewind c =
        maskIn (fresh.clear.enqueueAll pair) c) ∧
      (run (run (fresh.clear.enqueueAll pair) 1 n).rewind 1 c).doneCnt =
        (run (fresh.clear.enqueueAll pair) 1 c).doneCnt :=
  @beat_law fresh pair (by decide) (by decide) (by decide)

/-- A transfer of almost four gigabytes, whose rounded number of bytes wraps to zero. -/
def large : List Request := [⟨0,BitVec.ofNat 32 (2 ^ 32 - 1),false,0,1,1⟩]

theorem beat_law_dropped : ¬ ∀ (d : DmaEngine) (requests : List Request),
    (∀ r ∈ requests, 1 ≤ r.period) → BeatLaw (sent requests) (d.clear.enqueueAll requests) := by
  intro claimed
  have law := claimed fresh large (by decide)
  have first := law.beat 0 ⟨0,BitVec.ofNat 32 (2 ^ 32 - 1),false,0,1,1⟩ rfl 0 (by decide)
  exact absurd first (by decide)

end Snax.DmaEngine
