import Snax.ReaderMemory
import Snax.Sync.Replay

/-! The output repeater across tasks. The replay count is live configuration and the
counter is reset by start, while words of the task before may still be in flight, stored
or half replayed; the ledger of deliveries says when a start leaves them alone. -/
namespace Snax.ReaderMemory

open Sync.Replay

variable {param : ReaderParam}

/-- How often a word of a task is to be delivered. -/
def repeatOf (cfg : AddressGenUnitCfgIO param.aguParam) : Nat :=
  if cfg.stride0 = 0 then cfg.bound0.toNat else 1

/-- How often the repeater delivers a word under a held configuration. -/
def replays (cfg : AddressGenUnitCfgIO param.aguParam) : Nat := lastIndex cfg.repeatTimes + 1

theorem replays_pos (cfg : AddressGenUnitCfgIO param.aguParam) : 0 < replays cfg := Nat.succ_pos _

theorem replays_eq {cfg : AddressGenUnitCfgIO param.aguParam} (nonzero : repeatOf cfg ≠ 0) :
    replays cfg = repeatOf cfg := by
  have width : 1 < 2 ^ param.aguParam.addressWidth :=
    Nat.one_lt_two_pow param.aguParam.widthPositive.ne'
  have same : cfg.repeatTimes.toNat = repeatOf cfg := by
    unfold AddressGenUnitCfgIO.repeatTimes repeatOf
    split
    · rfl
    · simp [Nat.mod_eq_of_lt width]
  have positive : cfg.repeatTimes ≠ 0 := by
    intro zero
    rw [zero] at same
    exact nonzero (by rw [← same]; rfl)
  rw [replays,lastIndex_of_ne_zero _ positive,same]
  omega

/-- One tag for every vector pushed, from the configuration that pushed it. -/
def tags (copies : AddressGenUnitCfgIO param.aguParam → Nat) (history : List (Event param)) :
    List Nat := history.filterMap fun e => e.pushed.map fun _ => copies e.aguCfg

def deliveredWords (history : List (Event param)) : List (Reader.WideWord param) :=
  history.filterMap Event.delivered

/-- The deliveries still owed of the words fetched so far. -/
def due (history : List (Event param)) : List Nat :=
  owed (tags replays history) (deliveredWords history).length

def counter (s : State param) : Nat := s.reader.dataRepeatCounter.toNat

def consumed (s : State param) (i : Input param) : Bool :=
  Reader.outFire s.reader (readerInput s i)

/-- The count in force after a history. -/
def pace (history : List (Event param)) : Nat :=
  (history.getLast?.map fun e => replays e.aguCfg).getD 1

theorem consumed_eq (s : State param) (i : Input param) :
    consumed s i = ((front s).isSome && i.dataReady) := by
  simp [consumed,Reader.outFire,HandShakeRepeater.outFire,Reader.outValid,front,
    ComplexQueueConcat.front_isSome,readerInput]

theorem popped_eq (s : State param) (i : Input param) :
    popped s i = (consumed s i && decide (counter s + 1 = replays i.aguCfg)) := by
  have valid : consumed s i = true → Reader.outValid s.reader = true := by
    simp only [consumed,Reader.outFire,HandShakeRepeater.outFire,Bool.and_eq_true]
    exact And.left
  have last : decide (counter s + 1 = replays i.aguCfg) =
      (s.reader.dataRepeatCounter.toNat == lastIndex i.aguCfg.repeatTimes) := by
    rw [Bool.eq_iff_iff,decide_eq_true_eq,beq_iff_eq]
    exact Nat.add_right_cancel_iff
  rw [last]
  have unfolded : popped s i = (Reader.outValid s.reader && (consumed s i &&
      BasicCounter.lastVal true (consumed s i) i.aguCfg.repeatTimes s.reader.dataRepeatCounter)) :=
    rfl
  rw [unfolded,BasicCounter.lastVal]
  cases fire : consumed s i with
  | false => simp
  | true => simp [valid fire]

theorem counter_next (s : State param) (i : Input param) :
    counter (next s i) =
      if i.start then 0
      else if consumed s i then (if counter s + 1 < replays i.aguCfg then counter s + 1 else 0)
      else counter s := by
  have unfolded : counter (next s i) = (BasicCounter.next true i.start (consumed s i)
      i.aguCfg.repeatTimes s.reader.dataRepeatCounter).toNat := rfl
  rw [unfolded]
  cases i.start with
  | true => simp
  | false =>
    cases consumed s i with
    | false => simp [counter]
    | true =>
      have count : counter s = s.reader.dataRepeatCounter.toNat := rfl
      have times : replays i.aguCfg = lastIndex i.aguCfg.repeatTimes + 1 := rfl
      simp only [BasicCounter.next,Bool.false_eq_true,↓reduceIte,← count]
      by_cases below : counter s < lastIndex i.aguCfg.repeatTimes
      · have fits : lastIndex i.aguCfg.repeatTimes < 2 ^ param.aguParam.addressWidth := by
          have width : max param.aguParam.addressWidth 1 = param.aguParam.addressWidth :=
            Nat.max_eq_left param.aguParam.widthPositive
          rw [lastIndex,width]
          exact Nat.mod_lt _ (Nat.two_pow_pos _)
        rw [if_pos below,if_pos (by omega),count]
        exact BasicCounter.toNat_add_one _ below fits
      · rw [if_neg below,if_neg (by omega)]
        rfl

theorem tags_length (copies : AddressGenUnitCfgIO param.aguParam → Nat)
    (history : List (Event param)) (c : Fin param.numChannel) :
    (tags copies history).length = (pushedOn c history).length := by
  induction history with
  | nil => rfl
  | cons e rest ih =>
    cases pushed : e.pushed <;> simp_all [tags,pushedOn]

theorem tags_next (copies : AddressGenUnitCfgIO param.aguParam → Nat)
    (history : List (Event param)) (s : State param) (i : Input param) :
    tags copies (history ++ [out s i]) =
      tags copies history ++ ((out s i).pushed.map fun _ => copies i.aguCfg).toList := by
  have same : (out s i).aguCfg = i.aguCfg := rfl
  cases pushed : (out s i).pushed <;> simp [tags,pushed,same]

theorem deliveredWords_next (history : List (Event param)) (s : State param) (i : Input param) :
    deliveredWords (history ++ [out s i]) =
      deliveredWords history ++ (if consumed s i then front s else none).toList := by
  have same : (out s i).delivered = if consumed s i then front s else none := rfl
  cases word : (out s i).delivered <;> simp [deliveredWords,word,← same]

theorem poppedWords_wide (history : List (Event param)) (s : State param) (i : Input param) :
    poppedWords (history ++ [out s i]) =
      poppedWords history ++ (if popped s i then front s else none).toList := by
  have same : (out s i).popped = if popped s i then front s else none := rfl
  cases word : (out s i).popped <;> simp [poppedWords,word,← same]

/-- A word that is not popped stays in front, whatever arrives behind it. -/
theorem front_next {s : State param} {i : Input param} {word : Reader.WideWord param}
    (present : front s = some word) (stays : popped s i = false) :
    front (next s i) = some word := by
  refine ComplexQueueConcat.front_eq_some.mpr fun c => ?_
  have heads := ComplexQueueConcat.front_eq_some.mp present c
  have pops : (ComplexQueueConcat.allValid s.reader.dataBuffer &&
      Reader.dataFifoPopped s.reader (readerInput s i)) = false := by
    have still : Reader.dataFifoPopped s.reader (readerInput s i) = false := stays
    rw [still,Bool.and_false]
  simp only [next,Reader.next,ComplexQueueConcat.gather,pops,Queue.next_elems,Bool.false_eq_true,
    ↓reduceIte]
  rw [List.head?_append,heads]
  rfl

/-- Tasks are started on a Reader that is not busy, and configured by their start only. -/
structure Protocol (history : List (Event param)) (s : State param) (i : Input param) : Prop where
  idle : i.start = true → Reader.busy s.reader = false
  held : i.start = false → ∀ e, history.getLast? = some e →
    i.aguCfg = e.aguCfg ∧ enable i = e.enable

/-- A start that leaves earlier words alone: after the handshake of its cycle each of them
is owed exactly the new count, and the word in front leaves then if nothing more is owed. -/
def SafeStart (history : List (Event param)) (s : State param) (i : Input param) : Prop :=
  i.start = true →
    if consumed s i then
      match due history with
      | [] => True
      | left :: rest => (∀ r ∈ rest, r = replays i.aguCfg) ∧
          if counter s + 1 = replays i.aguCfg then left = 1 else left = replays i.aguCfg + 1
    else ∀ left ∈ due history, left = replays i.aguCfg

/-- A start that finds nothing owed has nothing to disturb. -/
theorem safeStart_of_drained {history : List (Event param)} (none : due history = [])
    (s : State param) (i : Input param) : SafeStart history s i := by
  intro _
  rw [none]
  split
  · trivial
  · simp

structure Replayed (history : List (Event param)) (s : State param) : Prop where
  aligned : Aligned history s
  ledger : ∃ part, Ledger (tags replays history) (poppedWords history) (front s) part
    (deliveredWords history)
  paced : Paced (pace history) (counter s) (due history)

/-- Every Reader has a channel: the spatial bounds ask for at least one. -/
theorem channels_pos (param : ReaderParam) : 0 < param.numChannel :=
  (List.prod_pos_iff_forall_pos_nat.mpr param.spatialPositive).trans_le param.spatialFits

theorem stocked {history : List (Event param)} {s : State param} {i : Input param}
    (inv : Replayed history s) (fire : consumed s i = true) : due history ≠ [] := by
  intro none
  obtain ⟨part,ledger⟩ := inv.ledger
  let c : Fin param.numChannel := ⟨0,channels_pos param⟩
  rw [consumed_eq,Bool.and_eq_true] at fire
  have stored : lane s c ≠ [] := by
    have valid := fire.1
    rw [front,ComplexQueueConcat.front_isSome,ComplexQueueConcat.allValid_iff] at valid
    exact valid c
  have finished := ledger.owed_nil none
  have addresses := congrArg List.length (inv.aligned.addresses c)
  have words := congrArg List.length (inv.aligned.words c)
  have nonempty := List.length_pos_iff.mpr stored
  rw [tags_length replays history c] at finished
  simp only [List.length_append,List.length_map] at addresses words
  omega

/-- Under the protocol the count of the cycle is the one the ledger is paced by. -/
theorem paced_now {history : List (Event param)} {s : State param} {i : Input param}
    (inv : Replayed history s) (protocol : Protocol history s i) (noStart : i.start = false) :
    Paced (replays i.aguCfg) (counter s) (due history) := by
  have paced := inv.paced
  cases last : history.getLast? with
  | none =>
    rw [List.getLast?_eq_none_iff] at last
    subst last
    have zero : counter s = 0 := paced
    exact zero
  | some e =>
    rw [pace,last] at paced
    rw [(protocol.held noStart e last).1]
    exact paced

/-- What the repeater does with the word in front is what is owed of it. -/
theorem agree {history : List (Event param)} {s : State param} {i : Input param}
    (inv : Replayed history s) (protocol : Protocol history s i) (safe : SafeStart history s i)
    (fire : consumed s i = true) {left : Nat} {rest : List Nat} (owing : due history = left :: rest) :
    (popped s i = true ↔ left = 1) ∧ ∀ r ∈ rest, r = replays i.aguCfg := by
  have positive := replays_pos i.aguCfg
  rw [popped_eq,fire,Bool.true_and,decide_eq_true_eq]
  cases start : i.start with
  | false =>
    have paced := paced_now inv protocol start
    rw [owing] at paced
    refine ⟨?_,paced.2⟩
    have := paced.1
    omega
  | true =>
    have clean := safe start
    rw [if_pos fire,owing] at clean
    refine ⟨?_,clean.1⟩
    have branch := clean.2
    split at branch <;> omega

theorem paced_next {history : List (Event param)} {s : State param} {i : Input param}
    (inv : Replayed history s) (protocol : Protocol history s i) (safe : SafeStart history s i) :
    Paced (replays i.aguCfg) (counter (next s i)) (spend (consumed s i) (due history)) := by
  rw [counter_next]
  cases start : i.start with
  | false =>
    obtain ⟨part,ledger⟩ := inv.ledger
    simp only [Bool.false_eq_true,↓reduceIte]
    exact paced_spend _ (paced_now inv protocol start) (stocked inv)
      fun left rest owing => (ledger.owed_cons owing).2
  | true =>
    have clean := safe start
    rw [if_pos rfl]
    refine paced_fresh fun r member => ?_
    cases fire : consumed s i with
    | false =>
      simp only [fire,Bool.false_eq_true,↓reduceIte] at clean
      simp only [fire,spend,Bool.false_eq_true,↓reduceIte] at member
      exact clean r member
    | true =>
      cases owing : due history with
      | nil => exact absurd owing (stocked inv fire)
      | cons left rest =>
        simp only [fire,owing,↓reduceIte] at clean
        simp only [fire,owing,spend,↓reduceIte] at member
        obtain ⟨same,branch⟩ := clean
        split at branch
        · rw [if_pos branch] at member
          exact same r member
        · have := Nat.succ_pos (lastIndex i.aguCfg.repeatTimes)
          rw [if_neg (by unfold replays at branch; omega)] at member
          rcases List.mem_cons.mp member with here | later
          · omega
          · exact same r later

/-- The repeater's part of a cycle, before the generator's. -/
theorem ledger_consume {history : List (Event param)} {s : State param} {i : Input param}
    (inv : Replayed history s) (protocol : Protocol history s i) (safe : SafeStart history s i) :
    (∃ part, Ledger (tags replays history) (poppedWords (history ++ [out s i])) (front (next s i))
      part (deliveredWords (history ++ [out s i]))) ∧
    owed (tags replays history) (deliveredWords (history ++ [out s i])).length =
      spend (consumed s i) (due history) := by
  obtain ⟨part,ledger⟩ := inv.ledger
  rw [poppedWords_wide,deliveredWords_next]
  cases fire : consumed s i with
  | false =>
    have stays : popped s i = false := by rw [popped_eq,fire,Bool.false_and]
    simp only [stays,Bool.false_eq_true,↓reduceIte,Option.toList_none,List.append_nil]
    exact ⟨⟨part,ledger.arrive fun x member => front_next (ledger.copies x member) stays⟩,rfl⟩
  | true =>
    have present : (front s).isSome = true := by
      rw [consumed_eq,Bool.and_eq_true] at fire
      exact fire.1
    obtain ⟨word,present⟩ := Option.isSome_iff_exists.mp present
    cases owing : due history with
    | nil => exact absurd owing (stocked inv fire)
    | cons left rest =>
      obtain ⟨last,same⟩ := agree inv protocol safe fire owing
      rw [present] at ledger ⊢
      have step := ledger.deliver owing (fun r member => by rw [same r member]; exact replays_pos _)
        last (front_next present)
      simpa [spend] using step

theorem replayed_next {history : List (Event param)} {s : State param} {i : Input param}
    (inv : Replayed history s) (held : MaskHeld s i) (protocol : Protocol history s i)
    (safe : SafeStart history s i) : Replayed (history ++ [out s i]) (next s i) := by
  have positive := replays_pos i.aguCfg
  have now : pace (history ++ [out s i]) = replays i.aguCfg := by simp [pace,out]
  obtain ⟨⟨part,ledger⟩,remaining⟩ := ledger_consume inv protocol safe
  have paced := paced_next inv protocol safe
  rw [← remaining] at paced
  refine ⟨aligned_next inv.aligned held,⟨part,?_⟩,?_⟩
  · rw [tags_next]
    cases (out s i).pushed with
    | none => simpa using ledger
    | some vector => exact ledger.push positive
  · rw [now,due,tags_next]
    cases (out s i).pushed with
    | none => simpa using paced
    | some vector =>
      simp only [Option.map_some,Option.toList_some]
      rw [ledger.owed_push positive]
      exact paced_push paced

def bothChannels : Fin pairParam.numChannel → Bool := fun _ => true

/-- A task that asks for two deliveries of its one word, under a consumer that is not
ready, and then a task that asks for one: the start finds the first word undelivered. -/
def overtaken : List (Input pairParam) :=
  pairInput (pairCfg 2 0) bothChannels true false ::
    (List.replicate 3 (pairInput (pairCfg 2 0) bothChannels false false) ++
      pairInput (pairCfg 1 1) bothChannels true false ::
        List.replicate 2 (pairInput (pairCfg 1 1) bothChannels false true))

/-- The same two tasks, the second started once the first word was delivered twice. -/
def apart : List (Input pairParam) :=
  pairInput (pairCfg 2 0) bothChannels true true ::
    (List.replicate 5 (pairInput (pairCfg 2 0) bothChannels false true) ++
      [pairInput (pairCfg 1 1) bothChannels true true])

end Snax.ReaderMemory
