import Snax.XdmaCfg
import Snax.Sync.Machine

/-! The state machine of `XDMAInterClusterCfgIODeserializer`. Whatever frames arrive, it
delivers the messages that the frame heads delimit, each decoded from the frames of that
message alone. -/
namespace Snax.XDMACfg

open BitList Framing

namespace Deserializer

inductive Phase
  | sIdle
  | sReceiveMoreFrames
  | sSendCfg
  deriving DecidableEq

structure State (param : XDMAParam) where
  currentState : Phase
  frameBody : Vector (Body param) (frameNum param)
  /-- The ceiling of the frame counter. -/
  frameIndex : BitVec 4
  frameCounter : BitVec 4
  isWriterSide : Bool

structure Input (param : XDMAParam) where
  cfgIn : Option (Frame param)
  cfgOutReady : Bool

structure Output (param : XDMAParam) where
  /-- The frame taken in this cycle. -/
  taken : Option (Frame param)
  /-- The configuration handed over in this cycle. -/
  delivered : Option (Cfg param)

variable {param : XDMAParam}

def initial (param : XDMAParam) : State param := ⟨.sIdle,Vector.replicate _ 0,2,0,false⟩

def cfgInReady (s : State param) (cfgIn : Option (Frame param)) : Bool :=
  cfgIn.isSome && s.currentState != .sSendCfg

def taken (s : State param) (cfgIn : Option (Frame param)) : Option (Frame param) :=
  if cfgInReady s cfgIn then cfgIn else none

/-- `io.cfgOut`, valid when it is `some`. -/
def offered (s : State param) : Option (Cfg param) :=
  if s.currentState = .sSendCfg then some (held s.isWriterSide s.frameBody) else none

def delivered (s : State param) (cfgOutReady : Bool) : Option (Cfg param) :=
  if cfgOutReady then offered s else none

/-- `frameCounter.io.tick`. -/
def tick (s : State param) (cfgIn : Option (Frame param)) : Bool :=
  match s.currentState with
  | .sIdle => cfgIn.any fun frame => 1 < frameCount frame
  | .sReceiveMoreFrames => cfgIn.isSome
  | .sSendCfg => false

def next (s : State param) (cfgIn : Option (Frame param)) (cfgOutReady : Bool) : State param :=
  let counted := { s with
    frameCounter := BasicCounter.next true (decide (s.currentState = .sSendCfg)) (tick s cfgIn)
      s.frameIndex s.frameCounter }
  match s.currentState, cfgIn with
  | .sIdle, some frame =>
    let stored := { counted with
      isWriterSide := isWriterSide frame
      frameBody := s.frameBody.setIfInBounds 0 (body frame) }
    if frameCount frame = 1 then { stored with currentState := .sSendCfg }
    else if 1 < frameCount frame then
      { stored with frameIndex := announced frame, currentState := .sReceiveMoreFrames }
    else stored
  | .sReceiveMoreFrames, some frame =>
    { counted with
      frameBody :=
        if s.frameCounter.toNat < frameNum param then
          s.frameBody.setIfInBounds s.frameCounter.toNat (body frame)
        else s.frameBody
      currentState :=
        if BasicCounter.lastVal true true s.frameIndex s.frameCounter then .sSendCfg
        else .sReceiveMoreFrames }
  | .sSendCfg, _ =>
    if cfgOutReady then
      { counted with currentState := .sIdle, frameBody := Vector.replicate _ 0 }
    else counted
  | _, none => counted

end Deserializer

def deserializer (param : XDMAParam) : Sync.Machine (Deserializer.State param)
    (Deserializer.Input param) (Deserializer.Output param) where
  next := fun s i => Deserializer.next s i.cfgIn i.cfgOutReady
  out := fun s i => ⟨Deserializer.taken s i.cfgIn,Deserializer.delivered s i.cfgOutReady⟩

namespace Deserializer

variable {param : XDMAParam}

/-- The machine after the frames taken so far, given as the messages they make up, and the
configurations delivered so far. -/
inductive Tracks (received : Intake (Frame param)) (cfgs : List (Cfg param)) (s : State param) : Prop
  | idle (phase : s.currentState = .sIdle) (between : received.current = [])
      (same : cfgs = received.complete.map decode) (zero : s.frameCounter = 0)
      (ceiling : 1 < s.frameIndex.toNat)
      (clean : ∀ k : Fin (frameNum param), k.val ≠ 0 → s.frameBody[k] = 0)
  | receiving (first : Frame param) (rest : List (Frame param))
      (phase : s.currentState = .sReceiveMoreFrames) (underway : received.current = first :: rest)
      (same : cfgs = received.complete.map decode)
      (counter : s.frameCounter.toNat = received.current.length)
      (ceiling : s.frameIndex.toNat = frameCount first)
      (more : received.current.length < frameCount first)
      (side : s.isWriterSide = isWriterSide first) (stored : s.frameBody = bodies received.current)
  | sending (front : List (List (Frame param))) (message : List (Frame param))
      (phase : s.currentState = .sSendCfg) (between : received.current = [])
      (split : received.complete = front ++ [message]) (same : cfgs = front.map decode)
      (zero : s.frameCounter = 0) (ceiling : 1 < s.frameIndex.toNat)
      (stored : held s.isWriterSide s.frameBody = decode message)

theorem getElem_bodies (message : List (Frame param)) {k : Nat} (inside : k < frameNum param) :
    (bodies message)[k] = ((message.map body)[k]?).getD 0 := by
  rw [bodies,Vector.getElem_ofFn,List.getD_eq_getElem?_getD]

theorem bodies_single (registers : Vector (Body param) (frameNum param)) (frame : Frame param)
    (clean : ∀ k : Fin (frameNum param), k.val ≠ 0 → registers[k] = 0) :
    registers.setIfInBounds 0 (body frame) = bodies [frame] := by
  apply Vector.ext
  intro k inside
  cases k with
  | zero => simp [bodies]
  | succ k =>
    have later := clean ⟨k + 1,inside⟩ (by simp)
    simpa [bodies,Vector.getElem_setIfInBounds] using later

theorem bodies_concat (message : List (Frame param)) (frame : Frame param) :
    (if message.length < frameNum param then
      (bodies message).setIfInBounds message.length (body frame) else bodies message) =
      bodies (message ++ [frame]) := by
  have store : (if message.length < frameNum param then
      (bodies message).setIfInBounds message.length (body frame) else bodies message) =
      (bodies message).setIfInBounds message.length (body frame) := by
    split
    · rfl
    · rw [Vector.setIfInBounds_eq_of_size_le (by omega)]
  rw [store]
  apply Vector.ext
  intro k inside
  rw [Vector.getElem_setIfInBounds inside,getElem_bodies _ inside,getElem_bodies _ inside,List.map_append]
  rcases Nat.lt_trichotomy k message.length with before | rfl | after
  · rw [if_neg before.ne',List.getElem?_append_left (by simpa using before)]
  · simp
  · rw [if_neg after.ne,List.getElem?_eq_none (by simpa using after.le),
      List.getElem?_eq_none (by simp; omega)]

theorem initial_tracks (param : XDMAParam) : Tracks (intake frameCount []) [] (initial param) := by
  refine .idle rfl rfl rfl rfl (show 1 < (2 : BitVec 4).toNat by decide) ?_
  intro k _
  simp [initial]

/-- A tick of the frame counter below its ceiling. -/
theorem counter_tick (ceil value : BitVec 4) (below : value.toNat < ceil.toNat) :
    (BasicCounter.next true false true ceil value).toNat =
      if value.toNat + 1 < ceil.toNat then value.toNat + 1 else 0 := by
  apply BasicCounter.next_tick _ _ _ below
  rintro rfl
  simp at below

theorem next_none {s : State param} (ready : Bool) (open_ : s.currentState ≠ .sSendCfg) :
    next s none ready = s := by
  obtain ⟨phase,registers,index,counter,side⟩ := s
  cases phase with
  | sIdle => simp [next,tick]
  | sReceiveMoreFrames => simp [next,tick]
  | sSendCfg => exact absurd rfl open_

theorem next_blocked {s : State param} (cfgIn : Option (Frame param)) (phase : s.currentState = .sSendCfg)
    (zero : s.frameCounter = 0) : next s cfgIn false = s := by
  obtain ⟨state,registers,index,counter,side⟩ := s
  obtain rfl : state = .sSendCfg := phase
  obtain rfl : counter = 0 := zero
  simp [next,tick]

theorem tracks_idle {received : Intake (Frame param)} {cfgs : List (Cfg param)} {s : State param}
    (frame : Frame param) (ready : Bool) (phase : s.currentState = .sIdle)
    (between : received.current = []) (same : cfgs = received.complete.map decode)
    (zero : s.frameCounter = 0) (ceiling : 1 < s.frameIndex.toNat)
    (clean : ∀ k : Fin (frameNum param), k.val ≠ 0 → s.frameBody[k] = 0) :
    Tracks (push frameCount received frame) cfgs (next s (some frame) ready) := by
  have stored := bodies_single s.frameBody frame clean
  rw [push_first frame between]
  rcases Nat.lt_trichotomy (frameCount frame) 1 with none | one | more
  · have absent : frameCount frame = 0 := by omega
    have step : next s (some frame) ready = { s with
        isWriterSide := isWriterSide frame
        frameBody := s.frameBody.setIfInBounds 0 (body frame) } := by
      simp [next,phase,tick,absent]
    rw [if_pos absent,step]
    refine .idle phase between same zero ceiling ?_
    intro k later
    simpa [Vector.getElem_setIfInBounds,later.symm] using clean k later
  · have step : next s (some frame) ready = { s with
        currentState := .sSendCfg
        isWriterSide := isWriterSide frame
        frameBody := s.frameBody.setIfInBounds 0 (body frame) } := by
      simp [next,phase,tick,one]
    rw [if_neg (by omega),if_pos one,step]
    refine .sending received.complete [frame] rfl rfl rfl same zero ceiling ?_
    rw [stored]
    rfl
  · have step : next s (some frame) ready = { s with
        currentState := .sReceiveMoreFrames
        frameIndex := announced frame
        frameCounter := BasicCounter.next true false true s.frameIndex s.frameCounter
        isWriterSide := isWriterSide frame
        frameBody := s.frameBody.setIfInBounds 0 (body frame) } := by
      simp [next,phase,tick,more,more.ne']
    rw [if_neg (by omega),if_neg (by omega),step]
    refine .receiving frame [] rfl rfl same ?_ rfl more rfl stored
    rw [counter_tick _ _ (by rw [zero]; exact Nat.zero_lt_of_lt ceiling),zero]
    simpa using ceiling

theorem tracks_receiving {received : Intake (Frame param)} {cfgs : List (Cfg param)} {s : State param}
    (frame first : Frame param) (rest : List (Frame param)) (ready : Bool)
    (phase : s.currentState = .sReceiveMoreFrames) (underway : received.current = first :: rest)
    (same : cfgs = received.complete.map decode)
    (counter : s.frameCounter.toNat = received.current.length)
    (ceiling : s.frameIndex.toNat = frameCount first) (more : received.current.length < frameCount first)
    (side : s.isWriterSide = isWriterSide first) (stored : s.frameBody = bodies received.current) :
    Tracks (push frameCount received frame) cfgs (next s (some frame) ready) := by
  have positive : 0 < received.current.length := by simp [underway]
  have below : s.frameCounter.toNat < s.frameIndex.toNat := by omega
  have nonzero : s.frameIndex ≠ 0 := by
    intro zero
    simp [zero] at below
  have filled := bodies_concat received.current frame
  rw [← stored,← counter] at filled
  have step : next s (some frame) ready = { s with
      frameCounter := BasicCounter.next true false true s.frameIndex s.frameCounter
      frameBody := bodies (received.current ++ [frame])
      currentState := if s.frameCounter.toNat + 1 = s.frameIndex.toNat then .sSendCfg
        else .sReceiveMoreFrames } := by
    simp [next,phase,tick,filled,BasicCounter.lastVal_tick _ _ nonzero below]
  have ticked := counter_tick _ _ below
  rw [push_later frame underway more,step]
  by_cases last : received.current.length + 1 = frameCount first
  · rw [if_pos last,if_pos (by omega)]
    refine .sending received.complete (received.current ++ [frame]) rfl rfl rfl same ?_ ?_ ?_
    · apply BitVec.eq_of_toNat_eq
      rw [ticked,if_neg (by omega)]
      rfl
    · exact (show 1 < s.frameIndex.toNat by omega)
    · simp only [side,decode,underway]
      rfl
  · rw [if_neg last,if_neg (by omega)]
    refine .receiving first (rest ++ [frame]) rfl (by simp [underway]) same ?_ ceiling ?_ side rfl
    · rw [ticked,if_pos (by omega),counter]
      simp
    · simp
      omega

/-- One cycle keeps the machine in step with the frames it has taken. -/
theorem next_tracks {frames : List (Frame param)} {cfgs : List (Cfg param)} {s : State param}
    (tracks : Tracks (intake frameCount frames) cfgs s) (cfgIn : Option (Frame param)) (ready : Bool) :
    Tracks (intake frameCount (frames ++ (taken s cfgIn).toList))
      (cfgs ++ (delivered s ready).toList) (next s cfgIn ready) := by
  have refused : taken s none = none := by simp [taken]
  have quiet : s.currentState ≠ .sSendCfg → delivered s ready = none := by
    intro other
    simp [delivered,offered,other]
  have accepted : s.currentState ≠ .sSendCfg → taken s cfgIn = cfgIn := by
    intro other
    cases cfgIn <;> simp [taken,cfgInReady,other]
  have silent (tracks : Tracks (intake frameCount frames) cfgs s) (other : s.currentState ≠ .sSendCfg) :
      Tracks (intake frameCount frames) cfgs (next s none ready) := by
    rwa [next_none ready other]
  cases tracks with
  | idle phase between same zero ceiling clean =>
    have other : s.currentState ≠ .sSendCfg := by simp [phase]
    rw [quiet other,accepted other,Option.toList_none,List.append_nil]
    cases cfgIn with
    | none => simpa using silent (.idle phase between same zero ceiling clean) other
    | some frame =>
      rw [Option.toList_some,intake_concat]
      exact tracks_idle frame ready phase between same zero ceiling clean
  | receiving first rest phase underway same counter ceiling more side stored =>
    have other : s.currentState ≠ .sSendCfg := by simp [phase]
    rw [quiet other,accepted other,Option.toList_none,List.append_nil]
    cases cfgIn with
    | none =>
      simpa using silent (.receiving first rest phase underway same counter ceiling more side stored) other
    | some frame =>
      rw [Option.toList_some,intake_concat]
      exact tracks_receiving frame first rest ready phase underway same counter ceiling more side stored
  | sending front message phase between split same zero ceiling stored =>
    have closed : taken s cfgIn = none := by simp [taken,cfgInReady,phase]
    rw [closed,Option.toList_none,List.append_nil]
    cases ready with
    | false =>
      rw [next_blocked cfgIn phase zero,show delivered s false = none from rfl,Option.toList_none,List.append_nil]
      exact .sending front message phase between split same zero ceiling stored
    | true =>
      have handed : delivered s true = some (decode message) := by simp [delivered,offered,phase,stored]
      have step : next s cfgIn true = { s with
          currentState := .sIdle
          frameBody := Vector.replicate _ 0 } := by
        simp [next,phase,tick,zero]
      rw [handed,step,Option.toList_some]
      refine .idle rfl between ?_ zero ceiling ?_
      · simp [split,same]
      · intro k _
        simp

def framesTaken (history : List (Output param)) : List (Frame param) := history.filterMap Output.taken

def cfgsDelivered (history : List (Output param)) : List (Cfg param) :=
  history.filterMap Output.delivered

@[simp] theorem framesTaken_concat (history : List (Output param)) (o : Output param) :
    framesTaken (history ++ [o]) = framesTaken history ++ o.taken.toList := by
  cases h : o.taken <;> simp [framesTaken,h]

@[simp] theorem cfgsDelivered_concat (history : List (Output param)) (o : Output param) :
    cfgsDelivered (history ++ [o]) = cfgsDelivered history ++ o.delivered.toList := by
  cases h : o.delivered <;> simp [cfgsDelivered,h]

/-- A frame is offered and a configuration would be taken. -/
def eager (i : Input param) : Bool := i.cfgIn.isSome && i.cfgOutReady

/-- What holds of the frames taken and the configurations delivered from an idle state on,
when the first frame announces `n` frames. -/
structure ReceivesMessage (n : Nat) (frames : List (Frame param)) (cfgs : List (Cfg param))
    (s : State param) : Prop where
  early : frames.length < n → offered s = none ∧ cfgs = []
  complete : frames.length = n → (offered s = some (decode frames) ∧ cfgs = []) ∨
    (s.currentState = .sIdle ∧ cfgs = [decode frames])
  later : n < frames.length → cfgs.head? = some (decode (frames.take n))

/-- An idle machine carries nothing over from the messages before. -/
theorem Tracks.restart {received : Intake (Frame param)} {cfgs : List (Cfg param)} {s : State param}
    (tracks : Tracks received cfgs s) (phase : s.currentState = .sIdle) : Tracks ⟨[],[]⟩ [] s := by
  cases tracks with
  | idle _ _ _ zero ceiling clean => exact .idle phase rfl rfl zero ceiling clean
  | receiving _ _ other => rw [phase] at other; exact absurd other (by simp)
  | sending _ _ other => rw [phase] at other; exact absurd other (by simp)

/-- Configurations come out in the order of their messages, none but these. -/
theorem Tracks.delivered {received : Intake (Frame param)} {cfgs : List (Cfg param)} {s : State param}
    (tracks : Tracks received cfgs s) : cfgs <+: received.complete.map decode := by
  cases tracks with
  | idle _ _ same => rw [same]
  | receiving _ _ _ _ same => rw [same]
  | sending front message _ _ split same =>
    rw [same,split,List.map_append]
    exact List.prefix_append _ _

theorem run_tracks {s : State param} (start : Tracks ⟨[],[]⟩ [] s) (inputs : List (Input param)) :
    Tracks (intake frameCount (framesTaken ((deserializer param).outs s inputs)))
      (cfgsDelivered ((deserializer param).outs s inputs)) ((deserializer param).exec s inputs) := by
  refine Sync.Machine.run_rule (m := deserializer param)
    (fun history s => Tracks (intake frameCount (framesTaken history)) (cfgsDelivered history) s)
    start ?_ inputs
  intro history s i tracks
  rw [framesTaken_concat,cfgsDelivered_concat]
  exact next_tracks tracks i.cfgIn i.cfgOutReady

theorem whole_of_length {first : Frame param} {rest : List (Frame param)}
    (count : (first :: rest).length = frameCount first) : Whole frameCount (first :: rest) :=
  ⟨first,rest,rfl,count.symm⟩

theorem taken_phase {s : State param} {cfgIn : Option (Frame param)} {frame : Frame param}
    (accepted : taken s cfgIn = some frame) : s.currentState ≠ .sSendCfg := by
  intro phase
  simp [taken,cfgInReady,phase] at accepted

/-- No frame is taken beyond the announced ones before the configuration is delivered. -/
theorem run_delivers {s : State param} (start : Tracks ⟨[],[]⟩ [] s) (inputs : List (Input param)) :
    ∀ first rest, framesTaken ((deserializer param).outs s inputs) = first :: rest →
      1 ≤ frameCount first → frameCount first < (first :: rest).length →
      cfgsDelivered ((deserializer param).outs s inputs) ≠ [] := by
  refine (Sync.Machine.run_rule (m := deserializer param)
    (fun history s => Tracks (intake frameCount (framesTaken history)) (cfgsDelivered history) s ∧
      ∀ first rest, framesTaken history = first :: rest → 1 ≤ frameCount first →
        frameCount first < (first :: rest).length → cfgsDelivered history ≠ [])
    ⟨start,by simp [framesTaken]⟩ ?_ inputs).2
  rintro history s i ⟨tracks,settled⟩
  rw [framesTaken_concat,cfgsDelivered_concat]
  refine ⟨next_tracks tracks i.cfgIn i.cfgOutReady,?_⟩
  intro first rest split some_frames beyond none_delivered
  obtain ⟨before,_⟩ := List.append_eq_nil_iff.mp none_delivered
  change framesTaken history ++ (taken s i.cfgIn).toList = first :: rest at split
  cases accepted : taken s i.cfgIn with
  | none =>
    rw [accepted,Option.toList_none,List.append_nil] at split
    exact settled first rest split some_frames beyond before
  | some frame =>
    rw [accepted,Option.toList_some] at split
    have other := taken_phase accepted
    cases frames : framesTaken history with
    | nil =>
      rw [frames] at split
      obtain ⟨rfl,rfl⟩ := List.cons.inj split
      simp at beyond
      omega
    | cons head front =>
      rw [frames] at split
      have size : (head :: front).length + 1 = (first :: rest).length := by simp [← split]
      obtain ⟨rfl,_⟩ := List.cons.inj split
      rcases Nat.lt_or_ge (frameCount head) (head :: front).length with earlier | reached
      · exact settled head front frames some_frames earlier before
      · have whole := whole_of_length (show (head :: front).length = frameCount head by omega)
        rw [frames,intake_whole whole] at tracks
        cases tracks with
        | idle _ _ same => simp [before] at same
        | receiving _ _ _ underway => simp at underway
        | sending _ _ phase => exact other phase

/-- Every eager cycle moves a frame in or a configuration out. -/
theorem run_eager (s : State param) (inputs : List (Input param)) :
    inputs.countP eager ≤ (framesTaken ((deserializer param).outs s inputs)).length +
      (cfgsDelivered ((deserializer param).outs s inputs)).length := by
  have always : (deserializer param).Each (fun _ _ _ => True) s inputs := fun _ _ _ _ => trivial
  refine (Sync.Machine.run_progress
    (fun history _ => (framesTaken history).length + (cfgsDelivered history).length)
    (fun _ _ => False) eager always (fun _ _ _ _ never => never) ?_).resolve_left id
  intro history s i _ _
  rw [framesTaken_concat,cfgsDelivered_concat,List.length_append,List.length_append]
  change _ ≤ _ + (taken s i.cfgIn).toList.length + (_ + (delivered s i.cfgOutReady).toList.length)
  have moves : (eager i).toNat ≤
      (taken s i.cfgIn).toList.length + (delivered s i.cfgOutReady).toList.length := by
    obtain ⟨cfgIn,ready⟩ := i
    cases cfgIn with
    | none => simp [eager]
    | some frame =>
      cases ready with
      | false => simp [eager]
      | true =>
        by_cases phase : s.currentState = .sSendCfg
        · simp [eager,delivered,offered,phase]
        · simp [eager,taken,cfgInReady,phase]
  omega

/-- A message after idle is taken in exactly as many frames as its first frame announces,
and yields one configuration, read from these frames alone. -/
theorem message_from_idle (before : List (Input param))
    (phase : ((deserializer param).exec (initial param) before).currentState = .sIdle)
    (inputs : List (Input param)) (n : Nat) (positive : 1 ≤ n) :
    let s := (deserializer param).exec (initial param) before
    let frames := framesTaken ((deserializer param).outs s inputs)
    let cfgs := cfgsDelivered ((deserializer param).outs s inputs)
    frames.head?.map frameCount = some n →
      ReceivesMessage n frames cfgs ((deserializer param).exec s inputs) ∧
      (n < inputs.countP eager → cfgs.head? = some (decode (frames.take n))) := by
  intro s frames cfgs header
  have start : Tracks ⟨[],[]⟩ [] s := (run_tracks (initial_tracks param) before).restart phase
  have tracks := run_tracks start inputs
  have moved := run_eager s inputs
  change Tracks (intake frameCount frames) cfgs _ at tracks
  change inputs.countP eager ≤ frames.length + cfgs.length at moved
  generalize (deserializer param).exec s inputs = t at tracks ⊢
  have delivers : ∀ first rest, frames = first :: rest → 1 ≤ frameCount first →
    frameCount first < (first :: rest).length → cfgs ≠ [] := run_delivers start inputs
  clear_value frames cfgs
  obtain ⟨first,rest,rfl⟩ : ∃ first rest, frames = first :: rest := by
    cases frames with
    | nil => simp at header
    | cons first rest => exact ⟨first,rest,rfl⟩
  obtain rfl : frameCount first = n := by simpa using header
  have received : ReceivesMessage (frameCount first) (first :: rest) cfgs t := by
    refine ⟨?_,?_,?_⟩
    · intro short
      rw [intake_short first rest short] at tracks
      cases tracks with
      | idle _ between => simp at between
      | receiving _ _ phase _ same => simpa [offered,phase] using same
      | sending _ _ _ between => simp at between
    · intro exactly
      rw [intake_whole (whole_of_length exactly)] at tracks
      cases tracks with
      | idle phase _ same => exact .inr ⟨phase,by simpa using same⟩
      | receiving _ _ _ underway => simp at underway
      | sending front message phase _ split same _ _ stored =>
        have single : front = [] ∧ first :: rest = message := by
          cases front with
          | nil => simpa using split
          | cons _ front => simp at split
        obtain ⟨rfl,rfl⟩ := single
        exact .inl ⟨by simp [offered,phase,stored],by simpa using same⟩
    · intro more
      obtain ⟨cfg,later,rfl⟩ := List.exists_cons_of_ne_nil (delivers first rest rfl positive more)
      have whole : Whole frameCount ((first :: rest).take (frameCount first)) := by
        refine ⟨first,rest.take (frameCount first - 1),List.take_cons positive,?_⟩
        rw [List.length_take]
        omega
      have earliest : (intake frameCount ((first :: rest).take (frameCount first))).complete <+: _ :=
        complete_of_prefix (List.take_prefix (frameCount first) (first :: rest))
      rw [intake_whole whole] at earliest
      obtain ⟨others,complete⟩ := earliest
      have ordered := tracks.delivered
      rw [← complete,List.cons_append,List.map_cons] at ordered
      rw [(List.cons_prefix_cons.mp ordered).1]
      rfl
  refine ⟨received,?_⟩
  intro enough
  rcases Nat.lt_trichotomy (first :: rest).length (frameCount first) with short | exactly | more
  · obtain ⟨_,rfl⟩ := received.early short
    simp at moved enough short
    omega
  · rcases received.complete exactly with ⟨_,rfl⟩ | ⟨_,rfl⟩
    · simp at moved enough exactly
      omega
    · rw [List.take_of_length_le exactly.le]
      rfl
  · exact received.later more

end Deserializer
end Snax.XDMACfg
