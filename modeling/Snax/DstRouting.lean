import Snax.ConfigRouter

/-! A chained write fans out. The fed back copy is taken in the first cycle in which its
origin is at the front of the buffer, so it always follows it directly: the router lets
every accepted entry and all its copies through, one after the other. -/
namespace Snax.DstConfigRouter

variable {τ : Type} {rule : Rule τ} {links : τ → Nat}

/-- `links` counts the copies that are still to be made of an entry. -/
structure Chain (rule : Rule τ) (links : τ → Nat) : Prop where
  chained_iff : ∀ t, rule.sel t .chainedWrite = true ↔ 0 < links t
  shifted : ∀ t, 0 < links t → links t = links (rule.shifted t) + 1

def copiesFrom (shifted : τ → τ) : Nat → τ → List τ
  | 0, t => [t]
  | n + 1, t => t :: copiesFrom shifted n (shifted t)

/-- An entry and the copies made of it, in order. -/
def copies (rule : Rule τ) (links : τ → Nat) (t : τ) : List τ := copiesFrom rule.shifted (links t) t

theorem copiesFrom_length (shifted : τ → τ) (n : Nat) (t : τ) :
    (copiesFrom shifted n t).length = n + 1 := by
  induction n generalizing t with
  | zero => rfl
  | succ n ih => simp [copiesFrom,ih]

theorem copiesFrom_getElem? (shifted : τ → τ) {n k : Nat} (t : τ) (within : k ≤ n) :
    (copiesFrom shifted n t)[k]? = some (shifted^[k] t) := by
  induction n generalizing t k with
  | zero =>
    obtain rfl := Nat.le_zero.mp within
    rfl
  | succ n ih =>
    cases k with
    | zero => rfl
    | succ k => exact ih (shifted t) (Nat.le_of_succ_le_succ within)

theorem copies_length (t : τ) : (copies rule links t).length = links t + 1 :=
  copiesFrom_length _ _ _

theorem Chain.copies_chained (chain : Chain rule links) {t : τ}
    (chained : rule.sel t .chainedWrite = true) :
    copies rule links t = t :: copies rule links (rule.shifted t) := by
  rw [copies,chain.shifted t ((chain.chained_iff t).mp chained)]
  rfl

theorem Chain.copies_single (chain : Chain rule links) {t : τ}
    (single : rule.sel t .chainedWrite = false) : copies rule links t = [t] := by
  have none : links t = 0 := by
    apply Nat.eq_zero_of_not_pos
    rw [← chain.chained_iff t,single]
    exact Bool.false_ne_true
  rw [copies,none]
  rfl

/-! ### What a run has let through -/

def acceptedBy (history : List (Output τ)) : List τ := history.filterMap Output.accepted
def poppedBy (history : List (Output τ)) : List τ := history.filterMap Output.popped
def deliveredBy (c : Port) (history : List (Output τ)) : List τ := history.filterMap (·.delivered c)

theorem acceptedBy_concat (history : List (Output τ)) (x : Output τ) :
    acceptedBy (history ++ [x]) = acceptedBy history ++ x.accepted.toList := Sync.filterMap_concat _ _ _

theorem poppedBy_concat (history : List (Output τ)) (x : Output τ) :
    poppedBy (history ++ [x]) = poppedBy history ++ x.popped.toList := Sync.filterMap_concat _ _ _

theorem deliveredBy_concat (c : Port) (history : List (Output τ)) (x : Output τ) :
    deliveredBy c (history ++ [x]) = deliveredBy c history ++ (x.delivered c).toList :=
  Sync.filterMap_concat _ _ _

/-- The entries that are still to leave the buffer, those yet to be made included. -/
def heads (rule : Rule τ) (links : τ → Nat) (s : State τ) : List τ :=
  match s.bufferedCfg.elems with
  | [] => []
  | h :: rest =>
    (if s.dataTransmitted .chainedWrite then [h] else copies rule links h) ++
      rest.flatMap (copies rule links)

/-- The front entry, when the port has had it. -/
def transmitted (s : State τ) (c : Port) : List τ :=
  if s.dataTransmitted c then s.bufferedCfg.elems.head?.toList else []

/-- The front is the only entry of the buffer while its copy is still to be taken, and
only ports that it goes to have had it. -/
structure Sound (rule : Rule τ) (s : State τ) : Prop where
  alone : outValid rule s .chainedWrite = true → s.bufferedCfg.elems.length = 1
  selected : ∀ c, s.dataTransmitted c = true → sel rule s c = true

theorem initial_sound : Sound rule (initial τ) where
  alone valid := by simp [outValid,SplitterDecoupled.outValid,initial,Queue.deqValid] at valid
  selected c sent := by simp [initial] at sent

theorem bufferReady_iff (s : State τ) : bufferReady s = true ↔ s.bufferedCfg.elems.length < 2 := by
  simp [bufferReady,Queue.enqReady]

/-- The three shapes of the buffer. -/
theorem elems_cases (s : State τ) : s.bufferedCfg.elems = [] ∨ (∃ h, s.bufferedCfg.elems = [h]) ∨
    ∃ h t, s.bufferedCfg.elems = [h,t] := by
  have bound := s.bufferedCfg.bound
  rcases elems : s.bufferedCfg.elems with _ | ⟨h,_ | ⟨t,_ | ⟨u,rest⟩⟩⟩
  · exact .inl rfl
  · exact .inr (.inl ⟨h,rfl⟩)
  · exact .inr (.inr ⟨h,t,rfl⟩)
  · simp [elems] at bound

theorem next_elems (s : State τ) (i : Input τ) : (next rule s i).bufferedCfg.elems =
    (if inReady rule s i then s.bufferedCfg.elems.tail else s.bufferedCfg.elems) ++
      (if bufferReady s then arbiterOut rule s i.fromLocal i.fromRemote else none).toList := by
  simp [next,Queue.taken,bufferReady,Queue.enqReady]

section Front

variable {s : State τ} {h : τ} {rest : List τ} (elems : s.bufferedCfg.elems = h :: rest)
include elems

theorem sel_front (c : Port) : sel rule s c = rule.sel h c := by
  simp [sel,Queue.deqBits,elems]

theorem outValid_front (c : Port) :
    outValid rule s c = (rule.sel h c && !s.dataTransmitted c) := by
  simp [outValid,SplitterDecoupled.outValid,Queue.deqValid,elems,sel_front elems]

theorem offered_front (c : Port) :
    offered rule s c = if rule.sel h c && !s.dataTransmitted c then some h else none := by
  simp [offered,outValid_front elems,Queue.deqBits,elems]

theorem inReady_front (i : Input τ) : inReady rule s i = true ↔
    ∀ c, rule.sel h c = true → outReady s i c = true ∨ s.dataTransmitted c = true := by
  simp only [inReady,SplitterDecoupled.inReady,sel_front elems,decide_eq_true_eq]
  constructor
  · intro allowed c goes
    simpa [goes] using allowed c
  · intro allowed c
    cases goes : rule.sel h c with
    | false => rfl
    | true => simpa [goes] using allowed c goes

theorem next_transmitted_pop {i : Input τ} (pop : inReady rule s i = true) (c : Port) :
    (next rule s i).dataTransmitted c = false := by
  have valid : s.bufferedCfg.deqValid = true := by simp [Queue.deqValid,elems]
  rw [inReady] at pop
  simp [next,SplitterDecoupled.next,valid,pop]

theorem next_transmitted_stay {i : Input τ} (stay : inReady rule s i = false) (c : Port) :
    (next rule s i).dataTransmitted c =
      (s.dataTransmitted c || (rule.sel h c && !s.dataTransmitted c && outReady s i c)) := by
  have front : outValid rule s c = _ := outValid_front elems c
  rw [outValid] at front
  rw [inReady] at stay
  simp [next,SplitterDecoupled.next,stay,front]

end Front

/-! ### One cycle -/

theorem arbiterOut_chained {s : State τ} {h : τ} {rest : List τ} (elems : s.bufferedCfg.elems = h :: rest)
    (chained : outValid rule s .chainedWrite = true) (fromLocal fromRemote : Option τ) :
    arbiterOut rule s fromLocal fromRemote = some (rule.shifted h) := by
  rw [outValid_front elems] at chained
  simp [arbiterOut,offered_front elems,chained]

theorem arbiterOut_unchained {s : State τ} (unchained : outValid rule s .chainedWrite = false)
    (fromLocal fromRemote : Option τ) :
    arbiterOut rule s fromLocal fromRemote = fromLocal.or fromRemote := by
  simp [arbiterOut,offered,unchained]

theorem accepted_chained {s : State τ} (chained : outValid rule s .chainedWrite = true) (i : Input τ) :
    accepted rule s i = none := by
  simp [accepted,fromLocalReady,chained]

theorem accepted_unchained {s : State τ} (unchained : outValid rule s .chainedWrite = false)
    (i : Input τ) :
    accepted rule s i = if bufferReady s then i.fromLocal.or i.fromRemote else none := by
  simp [accepted,fromLocalReady,unchained]

theorem outValid_empty {s : State τ} (empty : s.bufferedCfg.elems = []) (c : Port) :
    outValid rule s c = false := by
  simp [outValid,SplitterDecoupled.outValid,Queue.deqValid,empty]

theorem Sound.transmitted_empty {s : State τ} (sound : Sound rule s)
    (empty : s.bufferedCfg.elems = []) (c : Port) : s.dataTransmitted c = false := by
  cases sent : s.dataTransmitted c with
  | false => rfl
  | true => simpa [sel,Queue.deqBits,empty] using sound.selected c sent

theorem next_transmitted_empty {s : State τ} (empty : s.bufferedCfg.elems = []) (i : Input τ)
    (c : Port) : (next rule s i).dataTransmitted c = s.dataTransmitted c := by
  simp [next,SplitterDecoupled.next,SplitterDecoupled.outValid,Queue.deqValid,empty]

theorem next_elems_empty {s : State τ} (empty : s.bufferedCfg.elems = []) (i : Input τ) :
    (next rule s i).bufferedCfg.elems = (accepted rule s i).toList := by
  have ready : bufferReady s = true := (bufferReady_iff s).mpr (by simp [empty])
  rw [next_elems,accepted_unchained (outValid_empty empty _),
    arbiterOut_unchained (outValid_empty empty _)]
  simp [empty,ready]

/-- A full buffer takes nothing. -/
theorem next_elems_full {s : State τ} {h t : τ} (full : s.bufferedCfg.elems = [h,t]) (i : Input τ) :
    (next rule s i).bufferedCfg.elems = if inReady rule s i then [t] else [h,t] := by
  have ready : bufferReady s = false := by simp [bufferReady,Queue.enqReady,full]
  rw [next_elems]
  cases pop : inReady rule s i <;> simp [ready,full]

theorem accepted_full {s : State τ} {h t : τ} (full : s.bufferedCfg.elems = [h,t]) (i : Input τ) :
    accepted rule s i = none := by
  simp [accepted,fromLocalReady,bufferReady,Queue.enqReady,full]

theorem next_elems_one {s : State τ} {h : τ} (one : s.bufferedCfg.elems = [h]) (i : Input τ) :
    (next rule s i).bufferedCfg.elems = (if inReady rule s i then [] else [h]) ++
      (if outValid rule s .chainedWrite then some (rule.shifted h) else accepted rule s i).toList := by
  have ready : bufferReady s = true := (bufferReady_iff s).mpr (by simp [one])
  rw [next_elems]
  cases chained : outValid rule s .chainedWrite with
  | true => simp [one,ready,arbiterOut_chained one chained]
  | false => simp [one,ready,arbiterOut_unchained chained,accepted_unchained chained]

/-- The front's copy is taken while it is the only entry. -/
theorem transmitted_chained {s : State τ} {h : τ} (one : s.bufferedCfg.elems = [h]) {i : Input τ}
    (stay : inReady rule s i = false) (chained : outValid rule s .chainedWrite = true) :
    (next rule s i).dataTransmitted .chainedWrite = true := by
  have ready : bufferReady s = true := (bufferReady_iff s).mpr (by simp [one])
  rw [outValid_front one] at chained
  rw [next_transmitted_stay one stay]
  simp [outReady,ready,chained]

theorem transmitted_unchained {s : State τ} {h : τ} {rest : List τ}
    (elems : s.bufferedCfg.elems = h :: rest) {i : Input τ} (stay : inReady rule s i = false)
    (unchained : outValid rule s .chainedWrite = false) :
    (next rule s i).dataTransmitted .chainedWrite = s.dataTransmitted .chainedWrite := by
  rw [outValid_front elems] at unchained
  rw [next_transmitted_stay elems stay,unchained]
  simp

theorem Sound.selected_stay {s : State τ} (sound : Sound rule s) {h : τ} {rest : List τ}
    (elems : s.bufferedCfg.elems = h :: rest) {i : Input τ} (stay : inReady rule s i = false) {c : Port}
    (sent : (next rule s i).dataTransmitted c = true) : rule.sel h c = true := by
  rw [next_transmitted_stay elems stay] at sent
  cases before : s.dataTransmitted c with
  | true =>
    rw [← sel_front elems]
    exact sound.selected c before
  | false =>
    simp only [before,Bool.false_or,Bool.not_false,Bool.and_true,Bool.and_eq_true] at sent
    exact sent.1

theorem Sound.next {s : State τ} (sound : Sound rule s) (i : Input τ) : Sound rule (next rule s i) := by
  rcases elems_cases s with empty | ⟨h,one⟩ | ⟨h,t,full⟩
  · have after : (DstConfigRouter.next rule s i).bufferedCfg.elems = _ := next_elems_empty empty i
    refine ⟨fun valid => ?_,fun c sent => ?_⟩
    · cases arrived : accepted rule s i with
      | none => simp [outValid_empty (after.trans (by rw [arrived]; rfl))] at valid
      | some a => simp [after,arrived]
    · rw [next_transmitted_empty empty,sound.transmitted_empty empty] at sent
      exact absurd sent Bool.false_ne_true
  · have after : (DstConfigRouter.next rule s i).bufferedCfg.elems = _ := next_elems_one one i
    cases pop : inReady rule s i with
    | true =>
      rw [pop,if_pos rfl,List.nil_append] at after
      refine ⟨fun valid => ?_,fun c sent => ?_⟩
      · cases arrived : (if outValid rule s .chainedWrite then some (rule.shifted h)
          else accepted rule s i) with
        | none => simp [outValid_empty (after.trans (by rw [arrived]; rfl))] at valid
        | some a => simp [after,arrived]
      · rw [next_transmitted_pop one pop] at sent
        exact absurd sent Bool.false_ne_true
    | false =>
      rw [pop,if_neg Bool.false_ne_true,List.singleton_append] at after
      refine ⟨fun valid => ?_,fun c sent => ?_⟩
      · rw [outValid_front after] at valid
        cases chained : outValid rule s .chainedWrite with
        | true => simp [transmitted_chained one pop chained] at valid
        | false =>
          rw [transmitted_unchained one pop chained,← outValid_front one,chained] at valid
          exact absurd valid Bool.false_ne_true
      · rw [sel_front after]
        exact sound.selected_stay one pop sent
  · have after : (DstConfigRouter.next rule s i).bufferedCfg.elems = _ := next_elems_full full i
    have unchained : outValid rule s .chainedWrite = false := by
      apply Bool.eq_false_iff.mpr
      intro chained
      simpa [full] using sound.alone chained
    cases pop : inReady rule s i with
    | true =>
      rw [pop,if_pos rfl] at after
      refine ⟨fun _ => by simp [after],fun c sent => ?_⟩
      rw [next_transmitted_pop full pop] at sent
      exact absurd sent Bool.false_ne_true
    | false =>
      rw [pop,if_neg Bool.false_ne_true] at after
      refine ⟨fun valid => ?_,fun c sent => ?_⟩
      · rw [outValid_front after,transmitted_unchained full pop unchained,← outValid_front full,
          unchained] at valid
        exact absurd valid Bool.false_ne_true
      · rw [sel_front after]
        exact sound.selected_stay full pop sent

theorem heads_empty {s : State τ} (empty : s.bufferedCfg.elems = []) : heads rule links s = [] := by
  simp [heads,empty]

theorem heads_front {s : State τ} {h : τ} {rest : List τ} (elems : s.bufferedCfg.elems = h :: rest) :
    heads rule links s = (if s.dataTransmitted .chainedWrite then [h] else copies rule links h) ++
      rest.flatMap (copies rule links) := by
  simp [heads,elems]

/-- Once its copy is taken, or without one, only the front itself is still to leave. -/
theorem Chain.heads_unchained (chain : Chain rule links) {s : State τ} {h : τ} {rest : List τ}
    (elems : s.bufferedCfg.elems = h :: rest) (unchained : outValid rule s .chainedWrite = false) :
    heads rule links s = h :: rest.flatMap (copies rule links) := by
  rw [outValid_front elems] at unchained
  rw [heads_front elems]
  cases sent : s.dataTransmitted .chainedWrite with
  | true => rfl
  | false =>
    rw [sent,Bool.not_false,Bool.and_true] at unchained
    rw [chain.copies_single unchained]
    rfl

theorem Chain.heads_chained (chain : Chain rule links) {s : State τ} {h : τ} {rest : List τ}
    (elems : s.bufferedCfg.elems = h :: rest) (chained : outValid rule s .chainedWrite = true) :
    heads rule links s = h :: copies rule links (rule.shifted h) ++ rest.flatMap (copies rule links) := by
  rw [outValid_front elems,Bool.and_eq_true,Bool.not_eq_true'] at chained
  rw [heads_front elems,chained.2,← chain.copies_chained chained.1]
  rfl

theorem popped_front {s : State τ} {h : τ} {rest : List τ} (elems : s.bufferedCfg.elems = h :: rest)
    (i : Input τ) : (out rule s i).popped = if inReady rule s i then some h else none := by
  simp [out,Queue.deqBits,elems]

/-- An entry, then its copies, leave the buffer in the order of acceptance. -/
theorem next_heads (chain : Chain rule links) {s : State τ} (sound : Sound rule s) (i : Input τ) :
    (out rule s i).popped.toList ++ heads rule links (next rule s i) =
      heads rule links s ++ (accepted rule s i).toList.flatMap (copies rule links) := by
  rcases elems_cases s with empty | ⟨h,one⟩ | ⟨h,t,full⟩
  · have after : (next rule s i).bufferedCfg.elems = _ := next_elems_empty empty i
    have gone : (out rule s i).popped = none := by simp [out,Queue.deqBits,empty]
    rw [heads_empty empty,gone]
    cases arrived : accepted rule s i with
    | none => rw [heads_empty (after.trans (by rw [arrived]; rfl))]; rfl
    | some a =>
      rw [arrived] at after
      rw [heads_front after,next_transmitted_empty empty,sound.transmitted_empty empty]
      simp
  · have after : (next rule s i).bufferedCfg.elems = _ := next_elems_one one i
    rw [popped_front one]
    cases chained : outValid rule s .chainedWrite with
    | true =>
      rw [chained,if_pos rfl] at after
      rw [chain.heads_chained one chained,accepted_chained chained]
      cases pop : inReady rule s i with
      | true =>
        rw [pop,if_pos rfl] at after
        rw [heads_front after,next_transmitted_pop one pop]
        simp
      | false =>
        rw [pop,if_neg Bool.false_ne_true] at after
        rw [heads_front after,transmitted_chained one pop chained]
        simp
    | false =>
      rw [chained,if_neg Bool.false_ne_true] at after
      rw [chain.heads_unchained one chained]
      cases pop : inReady rule s i with
      | true =>
        rw [pop,if_pos rfl,List.nil_append] at after
        cases arrived : accepted rule s i with
        | none => rw [heads_empty (after.trans (by rw [arrived]; rfl))]; rfl
        | some a =>
          rw [arrived] at after
          rw [heads_front after,next_transmitted_pop one pop]
          simp
      | false =>
        rw [pop,if_neg Bool.false_ne_true] at after
        have same : heads rule links s = _ := heads_front one
        rw [chain.heads_unchained one chained] at same
        rw [heads_front after,transmitted_unchained one pop chained]
        simp only [List.flatMap_nil,List.append_nil] at same
        rw [← same]
        simp
  · have after : (next rule s i).bufferedCfg.elems = _ := next_elems_full full i
    have unchained : outValid rule s .chainedWrite = false := by
      apply Bool.eq_false_iff.mpr
      intro chained
      simpa [full] using sound.alone chained
    rw [popped_front full,accepted_full full]
    cases pop : inReady rule s i with
    | true =>
      rw [pop,if_pos rfl] at after
      rw [chain.heads_unchained full unchained,heads_front after,next_transmitted_pop full pop]
      simp
    | false =>
      rw [pop,if_neg Bool.false_ne_true] at after
      rw [heads_front after,heads_front full,transmitted_unchained full pop unchained]
      simp

/-- A port has had what left the buffer for it, and possibly the front already. -/
theorem next_delivered {s : State τ} (sound : Sound rule s) (i : Input τ) (c : Port) :
    transmitted s c ++ (fire rule s i c).toList =
      ((out rule s i).popped.toList.filter (rule.sel · c)) ++ transmitted (next rule s i) c := by
  rcases elems : s.bufferedCfg.elems with _ | ⟨h,rest⟩
  · have quiet := sound.transmitted_empty elems c
    have later : (next rule s i).dataTransmitted c = false :=
      (next_transmitted_empty elems i c).trans quiet
    simp [transmitted,quiet,later,fire,offered,outValid_empty elems,out,Queue.deqBits,elems]
  · rw [popped_front elems,fire,offered_front elems]
    cases pop : inReady rule s i with
    | true =>
      have allowed := (inReady_front elems i).mp pop c
      rw [transmitted,transmitted,next_transmitted_pop elems pop,elems]
      cases goes : rule.sel h c with
      | false =>
        have unsent : s.dataTransmitted c = false := by
          apply Bool.eq_false_iff.mpr
          intro sent
          have selected := sound.selected c sent
          rw [sel_front elems,goes] at selected
          exact Bool.false_ne_true selected
        simp [unsent,goes]
      | true =>
        cases sent : s.dataTransmitted c with
        | true => simp [goes]
        | false =>
          have ready := (allowed goes).resolve_right (by simp [sent])
          simp [ready,goes]
    | false =>
      have front : (next rule s i).bufferedCfg.elems.head? = some h := by
        rw [next_elems,pop,elems]
        rfl
      rw [transmitted,transmitted,front,next_transmitted_stay elems pop,elems]
      cases s.dataTransmitted c <;> cases rule.sel h c <;> cases outReady s i c <;> simp

/-! ### Runs -/

structure Routed (rule : Rule τ) (links : τ → Nat) (history : List (Output τ)) (s : State τ) : Prop where
  sound : Sound rule s
  order : poppedBy history ++ heads rule links s = (acceptedBy history).flatMap (copies rule links)
  delivered : ∀ c, deliveredBy c history = (poppedBy history).filter (rule.sel · c) ++ transmitted s c

theorem initial_routed : Routed rule links [] (initial τ) where
  sound := initial_sound
  order := rfl
  delivered c := by simp [deliveredBy,poppedBy,transmitted,initial]

theorem next_routed (chain : Chain rule links) {history : List (Output τ)} {s : State τ}
    (routed : Routed rule links history s) (i : Input τ) :
    Routed rule links (history ++ [out rule s i]) (next rule s i) where
  sound := routed.sound.next i
  order := by
    have moved := next_heads chain routed.sound i
    rw [poppedBy_concat,acceptedBy_concat,List.flatMap_append,List.append_assoc,moved,
      ← List.append_assoc]
    exact congrArg (· ++ _) routed.order
  delivered c := by
    have moved := next_delivered routed.sound i c
    rw [poppedBy_concat,deliveredBy_concat,List.filter_append,List.append_assoc,← moved,
      ← List.append_assoc]
    exact congrArg (· ++ _) (routed.delivered c)

theorem run_routed (chain : Chain rule links) (inputs : List (Input τ)) :
    Routed rule links ((dstConfigRouter rule).outs (initial τ) inputs)
      ((dstConfigRouter rule).exec (initial τ) inputs) :=
  Sync.Machine.run_rule (m := dstConfigRouter rule) (Routed rule links) initial_routed
    (fun _ _ i routed => next_routed chain routed i) inputs

theorem Sound.transmitted_within {s : State τ} (sound : Sound rule s) (c : Port) :
    transmitted s c <+: (heads rule links s).filter (rule.sel · c) := by
  cases sent : s.dataTransmitted c with
  | false => simp [transmitted,sent]
  | true =>
    have selected := sound.selected c sent
    rcases elems : s.bufferedCfg.elems with _ | ⟨h,rest⟩
    · simp [transmitted,elems]
    · rw [sel_front elems] at selected
      have first : ∃ later, heads rule links s = h :: later := by
        rw [heads_front elems]
        cases s.dataTransmitted .chainedWrite with
        | true => exact ⟨_,rfl⟩
        | false =>
          rw [copies]
          cases links h <;> exact ⟨_,rfl⟩
      obtain ⟨later,split⟩ := first
      simp [transmitted,sent,elems,split,selected]

/-- A port is only given what it is owed, in order. -/
theorem Routed.delivered_within {history : List (Output τ)} {s : State τ}
    (routed : Routed rule links history s) (c : Port) :
    deliveredBy c history <+:
      ((acceptedBy history).flatMap (copies rule links)).filter (rule.sel · c) := by
  rw [← routed.order,routed.delivered c,List.filter_append]
  exact (List.prefix_append_right_inj _).mpr (routed.sound.transmitted_within c)

/-! ### Progress -/

/-- Both outputs take what they are offered. -/
def eager (i : Input τ) : Bool := i.toLocalReady && i.toRemoteReady

/-- The copy of the front has been taken, or there is room for it. -/
theorem Sound.copy_ready {s : State τ} (sound : Sound rule s) {h : τ} {rest : List τ}
    (elems : s.bufferedCfg.elems = h :: rest) (chained : rule.sel h .chainedWrite = true) :
    bufferReady s = true ∨ s.dataTransmitted .chainedWrite = true := by
  cases sent : s.dataTransmitted .chainedWrite with
  | true => exact .inr rfl
  | false =>
    left
    apply (bufferReady_iff s).mpr
    rw [sound.alone (by rw [outValid_front elems,chained,sent]; rfl)]
    exact Nat.one_lt_two

theorem Sound.pops {s : State τ} (sound : Sound rule s) {h : τ} {rest : List τ}
    (elems : s.bufferedCfg.elems = h :: rest) {i : Input τ} (open_ : eager i = true) :
    inReady rule s i = true := by
  obtain ⟨toLocal,toRemote⟩ := Bool.and_eq_true_iff.mp open_
  apply (inReady_front elems i).mpr
  intro c goes
  cases c with
  | toLocal => exact .inl toLocal
  | toRemote => exact .inl toRemote
  | chainedWrite => exact sound.copy_ready elems goes

theorem heads_length_le {most : Nat} (within : ∀ t, links t < most) {s : State τ}
    (chain : Chain rule links) (sound : Sound rule s) : (heads rule links s).length ≤ most + 1 := by
  rcases elems_cases s with empty | ⟨h,one⟩ | ⟨h,t,full⟩
  · simp [heads_empty empty]
  · have most := within h
    rw [heads_front one]
    cases s.dataTransmitted .chainedWrite
    · simp [copies_length]
      omega
    · simp
  · have most := within t
    have unchained : outValid rule s .chainedWrite = false := by
      apply Bool.eq_false_iff.mpr
      intro chained
      simpa [full] using sound.alone chained
    rw [chain.heads_unchained full unchained]
    simp [copies_length]
    omega

/-- Within `most + 1` unstalled cycles everything accepted before has been delivered. -/
theorem delivers {most : Nat} (within : ∀ t, links t < most) (chain : Chain rule links)
    (front later : List (Input τ)) (enough : most + 1 ≤ later.countP eager) (c : Port) :
    ((acceptedBy ((dstConfigRouter rule).outs (initial τ) front)).flatMap (copies rule links)).filter
        (rule.sel · c) <+:
      deliveredBy c ((dstConfigRouter rule).outs (initial τ) (front ++ later)) := by
  have before := run_routed chain front
  have after := run_routed chain (front ++ later)
  rw [Sync.Machine.outs_append,Sync.Machine.exec_append] at after
  rw [Sync.Machine.outs_append]
  generalize (dstConfigRouter rule).outs (initial τ) front = earlier at *
  generalize (dstConfigRouter rule).exec (initial τ) front = s at *
  have short := heads_length_le within chain before.sound
  have always : (dstConfigRouter rule).Each (fun _ _ _ => True) s later := fun _ _ _ _ => trivial
  have each := Sync.Machine.each_of_run_rule
    (fun history t => Routed rule links (earlier ++ history) t) always
    (by simpa using before) (fun history t i routed _ => by
      rw [← List.append_assoc]
      exact next_routed chain routed i)
  have progress := Sync.Machine.run_progress
    (fun history _ => (poppedBy history).length)
    (fun history _ => (heads rule links s).length ≤ (poppedBy history).length) eager each ?_ ?_
  · have popped : (heads rule links s).length ≤
        (poppedBy ((dstConfigRouter rule).outs s later)).length := by
      rcases progress with done | count
      · exact done
      · omega
    have owed : (acceptedBy earlier).flatMap (copies rule links) <+:
        poppedBy (earlier ++ (dstConfigRouter rule).outs s later) := by
      have whole : (acceptedBy earlier).flatMap (copies rule links) <+:
          (acceptedBy (earlier ++ (dstConfigRouter rule).outs s later)).flatMap (copies rule links) := by
        rw [acceptedBy,acceptedBy,List.filterMap_append,List.flatMap_append]
        exact List.prefix_append _ _
      apply List.prefix_of_prefix_length_le whole
      · rw [← after.order]
        exact List.prefix_append _ _
      · rw [← before.order,poppedBy,poppedBy,List.filterMap_append,List.length_append,List.length_append]
        exact Nat.add_le_add_left popped _
    rw [after.delivered c]
    exact (owed.filter _).trans (List.prefix_append _ _)
  · intro history t i _ done
    rw [poppedBy_concat,List.length_append]
    exact Nat.le_add_right_of_le done
  · intro history t i routed undone
    have order := congrArg List.length routed.order
    rw [poppedBy,acceptedBy,List.filterMap_append,List.filterMap_append,List.flatMap_append] at order
    have start := congrArg List.length before.order
    change _ ≤ (poppedBy (history ++ [out rule t i])).length
    rw [poppedBy_concat,List.length_append]
    cases moving : eager i with
    | false => exact Nat.le_add_right _ _
    | true =>
      rcases elems : t.bufferedCfg.elems with _ | ⟨h,rest⟩
      · rw [heads_empty elems,List.append_nil] at order
        simp only [List.length_append,poppedBy,acceptedBy] at order start undone
        omega
      · rw [popped_front elems,routed.sound.pops elems moving,if_pos rfl]
        exact Nat.le_refl _

end Snax.DstConfigRouter
