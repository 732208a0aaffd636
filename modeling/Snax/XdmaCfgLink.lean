import Snax.WidthConverter
import Snax.XdmaDeserializer

/-! A serializer and a deserializer joined by a link that may hold frames back at either
end and keep any number of them under way, or pass them straight through. What comes out
at the far side is what was pushed in. -/
namespace Snax.XDMACfg

open BitList Framing

namespace Link

structure State (param : XDMAParam) where
  serializer : WidthDownConverter.State (Frame param) (Serializer.frameNum param)
  /-- Frames that have left the serializer and not reached the deserializer. -/
  flight : List (Frame param)
  deserializer : Deserializer.State param

/-- The four stalls of a cycle: the producer offers nothing, the link takes no frame in,
the link brings no frame forward, the consumer is not ready. -/
structure Input (param : XDMAParam) where
  cfgIn : Option (Cfg param)
  accept : Bool
  deliver : Bool
  cfgOutReady : Bool

structure Output (param : XDMAParam) where
  accepted : Option (Cfg param)
  taken : Option (Frame param)
  delivered : Option (Cfg param)

variable {param : XDMAParam}

/-- The registers of the width converter have no reset value. -/
def initial (storedData : Vector (Frame param) (Serializer.frameNum param - 1)) : State param :=
  ⟨⟨storedData,0⟩,[],Deserializer.initial param⟩

/-- `io.cfgOut` of the serializer. -/
def serialized (s : State param) (i : Input param) : Option (Frame param) :=
  WidthDownConverter.out s.serializer (i.cfgIn.map Serializer.frames)

/-- The oldest frame on the link, or without one the serializer's own. -/
def arriving (s : State param) (i : Input param) : Option (Frame param) :=
  if i.deliver then (s.flight ++ (serialized s i).toList).head? else none

def taken (s : State param) (i : Input param) : Option (Frame param) :=
  Deserializer.taken s.deserializer (arriving s i)

/-- A link without storage accepts a frame exactly when the deserializer takes it. -/
def linkReady (s : State param) (i : Input param) : Bool :=
  i.accept || (s.flight.isEmpty && (taken s i).isSome)

def sent (s : State param) (i : Input param) : Option (Frame param) :=
  WidthDownConverter.outFire s.serializer (i.cfgIn.map Serializer.frames) (linkReady s i)

def accepted (s : State param) (i : Input param) : Option (Cfg param) :=
  if WidthDownConverter.inReady s.serializer (linkReady s i) then i.cfgIn else none

def next (s : State param) (i : Input param) : State param where
  serializer := WidthDownConverter.next s.serializer false (i.cfgIn.map Serializer.frames)
    (linkReady s i)
  flight := (s.flight ++ (sent s i).toList).drop (taken s i).toList.length
  deserializer := Deserializer.next s.deserializer (arriving s i) i.cfgOutReady

def out (s : State param) (i : Input param) : Output param where
  accepted := accepted s i
  taken := taken s i
  delivered := Deserializer.delivered s.deserializer i.cfgOutReady

end Link

def link (param : XDMAParam) : Sync.Machine (Link.State param) (Link.Input param) (Link.Output param) where
  next := Link.next
  out := Link.out

namespace Link

variable {param : XDMAParam}

def pushed (history : List (Output param)) : List (Cfg param) := history.filterMap Output.accepted

def framesTaken (history : List (Output param)) : List (Frame param) := history.filterMap Output.taken

def delivered (history : List (Output param)) : List (Cfg param) := history.filterMap Output.delivered

@[simp] theorem pushed_concat (history : List (Output param)) (o : Output param) :
    pushed (history ++ [o]) = pushed history ++ o.accepted.toList := by
  cases h : o.accepted <;> simp [pushed,h]

@[simp] theorem framesTaken_concat (history : List (Output param)) (o : Output param) :
    framesTaken (history ++ [o]) = framesTaken history ++ o.taken.toList := by
  cases h : o.taken <;> simp [framesTaken,h]

@[simp] theorem delivered_concat (history : List (Output param)) (o : Output param) :
    delivered (history ++ [o]) = delivered history ++ o.delivered.toList := by
  cases h : o.delivered <;> simp [delivered,h]

/-- The frames of a list of configurations, back to back. -/
def stream (cfgs : List (Cfg param)) : List (Frame param) :=
  (cfgs.map fun cfg => (Serializer.frames cfg).toList).flatten

@[simp] theorem stream_append (front back : List (Cfg param)) :
    stream (front ++ back) = stream front ++ stream back := by simp [stream]

@[simp] theorem stream_length (cfgs : List (Cfg param)) :
    (stream cfgs).length = cfgs.length * Serializer.frameNum param := by
  induction cfgs with
  | nil => simp [stream]
  | cons cfg cfgs ih =>
    rw [← List.singleton_append,stream_append,List.length_append,ih]
    simp [stream,Nat.add_mul,Nat.add_comm]

/-- The frames taken, those on the link and those still in the serializer are the frames
of what was pushed, and the deserializer is in step with the frames it has taken. -/
structure Carries (history : List (Output param)) (s : State param) : Prop where
  below : s.serializer.counter.toNat < Serializer.frameNum param
  conserved : framesTaken history ++ (s.flight ++ WidthDownConverter.rest s.serializer) =
    stream (pushed history)
  tracks : Deserializer.Tracks (intake Deserializer.frameCount (framesTaken history))
    (delivered history) s.deserializer

theorem arriving_of_taken {s : State param} {i : Input param} {frame : Frame param}
    (accepted : taken s i = some frame) : arriving s i = some frame := by
  unfold taken Deserializer.taken at accepted
  split at accepted
  · exact accepted
  · cases accepted

/-- The link keeps its frames in order. -/
theorem next_flight (s : State param) (i : Input param) :
    (taken s i).toList ++ (next s i).flight = s.flight ++ (sent s i).toList := by
  cases took : taken s i with
  | none => simp [next,took]
  | some frame =>
    have here := arriving_of_taken took
    unfold arriving at here
    split at here
    · cases flight : s.flight with
      | cons oldest others =>
        rw [flight,List.cons_append,List.head?_cons] at here
        obtain rfl := Option.some.inj here
        simp [next,took,flight]
      | nil =>
        rw [flight,List.nil_append] at here
        have ready : linkReady s i = true := by simp [linkReady,flight,took]
        have direct : sent s i = some frame := by
          rw [sent,WidthDownConverter.outFire,if_pos ready]
          change serialized s i = _
          cases h : serialized s i with
          | none => simp [h] at here
          | some other => simpa [h] using here
        simp [next,took,flight,direct]
    · cases here

theorem accepted_stream (s : State param) (i : Input param) :
    stream (accepted s i).toList = ((WidthDownConverter.inFire s.serializer
      (i.cfgIn.map Serializer.frames) (linkReady s i)).map Vector.toList).getD [] := by
  unfold accepted WidthDownConverter.inFire
  split
  · cases i.cfgIn <;> simp [stream]
  · rfl

theorem initial_carries (fits : 1 ≤ Serializer.frameNum param)
    (storedData : Vector (Frame param) (Serializer.frameNum param - 1)) :
    Carries [] (initial storedData) where
  below := fits
  conserved := by simp [initial,WidthDownConverter.rest,framesTaken,pushed,stream]
  tracks := Deserializer.initial_tracks param

theorem next_carries {history : List (Output param)} {s : State param} (carries : Carries history s)
    (i : Input param) : Carries (history ++ [out s i]) (next s i) where
  below := WidthDownConverter.counter_below _ _ _ carries.below
  conserved := by
    have moved := next_flight s i
    have cut := WidthDownConverter.next_rest s.serializer (i.cfgIn.map Serializer.frames)
      (linkReady s i) carries.below
    rw [← accepted_stream] at cut
    rw [framesTaken_concat,pushed_concat,stream_append,← carries.conserved]
    calc framesTaken history ++ (taken s i).toList ++
          ((next s i).flight ++ WidthDownConverter.rest (next s i).serializer)
        = framesTaken history ++ (((taken s i).toList ++ (next s i).flight) ++
            WidthDownConverter.rest (next s i).serializer) := by simp only [List.append_assoc]
      _ = framesTaken history ++ (s.flight ++ ((sent s i).toList ++
            WidthDownConverter.rest (next s i).serializer)) := by rw [moved,List.append_assoc]
      _ = framesTaken history ++ (s.flight ++ (WidthDownConverter.rest s.serializer ++
            stream (accepted s i).toList)) := congrArg _ (congrArg _ cut)
      _ = _ := by simp only [List.append_assoc]; rfl
  tracks := by
    rw [framesTaken_concat,delivered_concat]
    exact Deserializer.next_tracks carries.tracks _ _

theorem intake_stream (fits : 1 ≤ Serializer.frameNum param ∧ Serializer.frameNum param ≤ 15)
    (cfgs : List (Cfg param)) : intake Deserializer.frameCount (stream cfgs) =
      ⟨cfgs.map fun cfg => (Serializer.frames cfg).toList,[]⟩ := by
  apply intake_flatten
  intro message member
  obtain ⟨cfg,_,rfl⟩ := List.mem_map.mp member
  exact frames_whole fits cfg

theorem decode_stream (fits : 1 ≤ Serializer.frameNum param ∧ Serializer.frameNum param ≤ 15)
    (cfgs : List (Cfg param)) :
    (cfgs.map fun cfg => (Serializer.frames cfg).toList).map Deserializer.decode = cfgs := by
  rw [List.map_map]
  conv_rhs => rw [← List.map_id cfgs]
  apply List.map_congr_left
  intro cfg _
  exact decode_frames fits cfg

/-- Nothing comes out that was not pushed, and nothing out of order. -/
theorem Carries.delivered_within {history : List (Output param)} {s : State param}
    (carries : Carries history s)
    (fits : 1 ≤ Serializer.frameNum param ∧ Serializer.frameNum param ≤ 15) :
    delivered history <+: pushed history := by
  have front : framesTaken history <+: stream (pushed history) := ⟨_,carries.conserved⟩
  have messages : (intake Deserializer.frameCount (framesTaken history)).complete <+: _ :=
    complete_of_prefix front
  rw [intake_stream fits] at messages
  have decoded := messages.map Deserializer.decode
  rw [decode_stream fits] at decoded
  exact carries.tracks.delivered.trans decoded

theorem run_carries (fits : 1 ≤ Serializer.frameNum param)
    (storedData : Vector (Frame param) (Serializer.frameNum param - 1)) (inputs : List (Input param)) :
    Carries ((link param).outs (initial storedData) inputs) ((link param).exec (initial storedData) inputs) :=
  Sync.Machine.run_rule (m := link param) Carries (initial_carries fits storedData)
    (fun _ _ i carries => next_carries carries i) inputs

/-- Once the producer and the link are empty and the deserializer has nothing to deliver,
everything pushed has come out. -/
theorem Carries.drained {history : List (Output param)} {s : State param} (carries : Carries history s)
    (fits : 1 ≤ Serializer.frameNum param ∧ Serializer.frameNum param ≤ 15)
    (flight : s.flight = []) (whole : s.serializer.counter = 0)
    (quiet : s.deserializer.currentState ≠ .sSendCfg) : delivered history = pushed history := by
  have all := carries.conserved
  rw [flight,WidthDownConverter.rest_of_zero whole,List.append_nil,List.append_nil] at all
  have tracks := carries.tracks
  rw [all,intake_stream fits] at tracks
  cases tracks with
  | idle _ _ same => rw [same,decode_stream fits]
  | receiving _ _ _ underway => simp at underway
  | sending _ _ phase => exact absurd phase quiet

end Link

/-! A producer that pushes a given list, under any stalls. -/
namespace Feed

/-- Which of the four parties move in a cycle. -/
structure Stall where
  offer : Bool
  accept : Bool
  deliver : Bool
  cfgOutReady : Bool

structure State (param : XDMAParam) where
  pending : List (Cfg param)
  link : Link.State param

variable {param : XDMAParam}

def given (s : State param) (i : Stall) : Link.Input param :=
  ⟨if i.offer then s.pending.head? else none,i.accept,i.deliver,i.cfgOutReady⟩

def next (s : State param) (i : Stall) : State param where
  pending := s.pending.drop (Link.accepted s.link (given s i)).toList.length
  link := Link.next s.link (given s i)

def out (s : State param) (i : Stall) : Link.Output param := Link.out s.link (given s i)

/-- Nothing stalls. The link may take frames in or pass them through. -/
def eager (i : Stall) : Bool := i.offer && i.deliver && i.cfgOutReady

end Feed

def feed (param : XDMAParam) : Sync.Machine (Feed.State param) Feed.Stall (Link.Output param) where
  next := Feed.next
  out := Feed.out

namespace Feed

variable {param : XDMAParam}

def initial (cfgs : List (Cfg param)) (storedData : Vector (Frame param) (Serializer.frameNum param - 1)) :
    State param := ⟨cfgs,Link.initial storedData⟩

structure Feeds (cfgs : List (Cfg param)) (history : List (Link.Output param)) (s : State param) : Prop where
  carries : Link.Carries history s.link
  pushes : Link.pushed history ++ s.pending = cfgs

theorem next_pending (s : State param) (i : Stall) :
    (Link.accepted s.link (given s i)).toList ++ (next s i).pending = s.pending := by
  cases took : Link.accepted s.link (given s i) with
  | none => simp [next,took]
  | some cfg =>
    have head : s.pending.head? = some cfg := by
      unfold Link.accepted at took
      split at took
      · change (if i.offer then s.pending.head? else none) = some cfg at took
        split at took
        · exact took
        · cases took
      · cases took
    obtain ⟨others,split⟩ := List.head?_eq_some_iff.mp head
    simp [next,took,split]

theorem next_feeds {cfgs : List (Cfg param)} {history : List (Link.Output param)} {s : State param}
    (feeds : Feeds cfgs history s) (i : Stall) : Feeds cfgs (history ++ [out s i]) (next s i) where
  carries := Link.next_carries feeds.carries (given s i)
  pushes := by
    rw [Link.pushed_concat,List.append_assoc]
    change Link.pushed history ++ ((Link.accepted s.link _).toList ++ _) = _
    rw [next_pending,feeds.pushes]

theorem Feeds.delivered_within {cfgs : List (Cfg param)} {history : List (Link.Output param)}
    {s : State param} (feeds : Feeds cfgs history s)
    (fits : 1 ≤ Serializer.frameNum param ∧ Serializer.frameNum param ≤ 15) :
    Link.delivered history <+: cfgs :=
  (feeds.carries.delivered_within fits).trans ⟨_,feeds.pushes⟩

/-- An eager cycle takes a frame or delivers a configuration, until all are delivered. -/
theorem Feeds.moves {cfgs : List (Cfg param)} {history : List (Link.Output param)} {s : State param}
    (feeds : Feeds cfgs history s)
    (fits : 1 ≤ Serializer.frameNum param ∧ Serializer.frameNum param ≤ 15) (i : Stall)
    (busy : Link.delivered history ≠ cfgs) : (eager i).toNat ≤
      (out s i).taken.toList.length + (out s i).delivered.toList.length := by
  cases moving : eager i with
  | false => simp
  | true =>
    obtain ⟨⟨offer,deliver⟩,ready⟩ : (i.offer = true ∧ i.deliver = true) ∧ i.cfgOutReady = true := by
      simpa [eager] using moving
    by_cases phase : s.link.deserializer.currentState = .sSendCfg
    · have handed : (out s i).delivered.isSome = true := by
        simp [out,Link.out,given,Deserializer.delivered,Deserializer.offered,phase,ready]
      obtain ⟨cfg,same⟩ := Option.isSome_iff_exists.mp handed
      simp [same]
    · cases arrives : Link.arriving s.link (given s i) with
      | some frame =>
        have took : (out s i).taken = some frame := by
          simp [out,Link.out,Link.taken,arrives,Deserializer.taken,Deserializer.cfgInReady,phase]
        simp [took]
      | none =>
        have empty : s.link.flight = [] ∧ Link.serialized s.link (given s i) = none := by
          simpa [Link.arriving,given,deliver] using arrives
        obtain ⟨flight,quiet⟩ := empty
        have drained : s.link.serializer.counter = 0 ∧ s.pending = [] := by
          unfold Link.serialized WidthDownConverter.out at quiet
          split at quiet
          · exact ⟨‹_›,by simpa [given,offer] using quiet⟩
          · cases quiet
        have all := feeds.pushes
        rw [drained.2,List.append_nil] at all
        exact absurd ((feeds.carries.drained fits flight drained.1 phase).trans all) busy

theorem initial_feeds (fits : 1 ≤ Serializer.frameNum param)
    (storedData : Vector (Frame param) (Serializer.frameNum param - 1)) (cfgs : List (Cfg param)) :
    Feeds cfgs [] (initial cfgs storedData) := ⟨Link.initial_carries fits storedData,rfl⟩

theorem run_feeds (fits : 1 ≤ Serializer.frameNum param)
    (storedData : Vector (Frame param) (Serializer.frameNum param - 1)) (cfgs : List (Cfg param))
    (stalls : List Stall) : Feeds cfgs ((feed param).outs (initial cfgs storedData) stalls)
      ((feed param).exec (initial cfgs storedData) stalls) :=
  Sync.Machine.run_rule (m := feed param) (Feeds cfgs) (initial_feeds fits storedData cfgs)
    (fun _ _ i feeds => next_feeds feeds i) stalls

/-- `frameNum + 1` unstalled cycles for each configuration bring all of them through. -/
theorem delivers_all (fits : 1 ≤ Serializer.frameNum param ∧ Serializer.frameNum param ≤ 15)
    (storedData : Vector (Frame param) (Serializer.frameNum param - 1)) (cfgs : List (Cfg param))
    (stalls : List Stall) (enough : cfgs.length * (Serializer.frameNum param + 1) ≤ stalls.countP eager) :
    Link.delivered ((feed param).outs (initial cfgs storedData) stalls) = cfgs := by
  have start := initial_feeds fits.1 storedData cfgs
  have always : (feed param).Each (fun _ _ _ => True) (initial cfgs storedData) stalls :=
    fun _ _ _ _ => trivial
  have each := Sync.Machine.each_of_run_rule (Feeds cfgs) always start
    (fun _ _ i feeds _ => next_feeds feeds i)
  have feeds := run_feeds fits.1 storedData cfgs stalls
  have progress := Sync.Machine.run_progress
    (fun history _ => (Link.framesTaken history).length + (Link.delivered history).length)
    (fun history _ => Link.delivered history = cfgs) eager each ?_ ?_
  · rcases progress with done | count
    · exact done
    · have ordered := feeds.delivered_within fits
      apply ordered.eq_of_length
      have frames := congrArg List.length feeds.carries.conserved
      have pushes := congrArg List.length feeds.pushes
      rw [List.length_append,Link.stream_length] at frames
      rw [List.length_append] at pushes
      have fewer := Nat.le_of_add_right_le pushes.le
      have room := Nat.mul_le_mul_right (Serializer.frameNum param) fewer
      have short := ordered.length_le
      rw [Nat.mul_add,Nat.mul_one] at enough
      omega
  · intro history s i feeds done
    have more := (next_feeds feeds i).delivered_within fits
    change Link.delivered (history ++ [out s i]) = cfgs
    rw [Link.delivered_concat,done] at more ⊢
    exact more.eq_of_length_le (by simp)
  · intro history s i feeds busy
    have moves := feeds.moves fits i busy
    change _ ≤ (Link.framesTaken (history ++ [out s i])).length +
      (Link.delivered (history ++ [out s i])).length
    rw [Link.framesTaken_concat,Link.delivered_concat,List.length_append,List.length_append]
    omega

end Feed

/-- The round trip. On any run over the link the configurations that come out are the first
of those pushed; a list of configurations pushed under any stalls comes out unchanged once
enough cycles are free of stalls; and from any idle state of the deserializer a message is
taken in exactly the announced number of frames, whatever the receiver's own number, and
yields the one configuration that its frames decode to. -/
theorem cfg_round_trip {param : XDMAParam}
    (fits : 1 ≤ Serializer.frameNum param ∧ Serializer.frameNum param ≤ 15)
    (storedData : Vector (Frame param) (Serializer.frameNum param - 1)) :
    (∀ inputs : List (Link.Input param),
      Link.delivered ((link param).outs (Link.initial storedData) inputs) <+:
        Link.pushed ((link param).outs (Link.initial storedData) inputs)) ∧
    (∀ (cfgs : List (Cfg param)) (stalls : List Feed.Stall),
      Link.delivered ((feed param).outs (Feed.initial cfgs storedData) stalls) <+: cfgs ∧
      (cfgs.length * (Serializer.frameNum param + 1) ≤ stalls.countP Feed.eager →
        Link.delivered ((feed param).outs (Feed.initial cfgs storedData) stalls) = cfgs)) ∧
    (∀ before : List (Deserializer.Input param),
      ((deserializer param).exec (Deserializer.initial param) before).currentState = .sIdle →
      ∀ (inputs : List (Deserializer.Input param)) (n : Nat), 1 ≤ n →
      let s := (deserializer param).exec (Deserializer.initial param) before
      let frames := Deserializer.framesTaken ((deserializer param).outs s inputs)
      let cfgs := Deserializer.cfgsDelivered ((deserializer param).outs s inputs)
      frames.head?.map Deserializer.frameCount = some n →
        Deserializer.ReceivesMessage n frames cfgs ((deserializer param).exec s inputs) ∧
        (n < inputs.countP Deserializer.eager →
          cfgs.head? = some (Deserializer.decode (frames.take n)))) := by
  refine ⟨?_,?_,?_⟩
  · intro inputs
    exact (Link.run_carries fits.1 storedData inputs).delivered_within fits
  · intro cfgs stalls
    exact ⟨(Feed.run_feeds fits.1 storedData cfgs stalls).delivered_within fits,
      Feed.delivers_all fits storedData cfgs stalls⟩
  · intro before idle inputs n positive
    exact Deserializer.message_from_idle before idle inputs n positive

/-- A 64-bit link: seven frames to a configuration. -/
def narrowLink : XDMAParam := ⟨⟨64⟩,⟨5,4096,48,512,64⟩⟩

def sampleCfg : Cfg narrowLink :=
  ⟨5,true,0xABCD00001000,#v[0x123400002000,0x77],64,8,#v[4,3,2,1,1],#v[1,2,3,4,5],0xFF,0x0F⟩

/-- Three frames announced where the receiver has seven. -/
def shortMessage : List (Deserializer.Input narrowLink) :=
  [⟨some 7,true⟩,⟨none,true⟩,⟨some 32,false⟩,⟨some 96,true⟩]

theorem cfg_round_trip_narrow :
    Link.delivered ((feed narrowLink).outs (Feed.initial [sampleCfg,sampleCfg] (Vector.replicate _ 0))
      (List.replicate 16 ⟨true,false,true,true⟩)) = [sampleCfg,sampleCfg] ∧
    Deserializer.ReceivesMessage 3
      (Deserializer.framesTaken ((deserializer narrowLink).outs (Deserializer.initial narrowLink) shortMessage))
      (Deserializer.cfgsDelivered ((deserializer narrowLink).outs (Deserializer.initial narrowLink) shortMessage))
      ((deserializer narrowLink).exec (Deserializer.initial narrowLink) shortMessage) := by
  have fits : 1 ≤ Serializer.frameNum narrowLink ∧ Serializer.frameNum narrowLink ≤ 15 := by
    decide +kernel
  have trip := cfg_round_trip fits (Vector.replicate _ 0)
  exact ⟨(trip.2.1 [sampleCfg,sampleCfg] (List.replicate 16 ⟨true,false,true,true⟩)).2 (by decide +kernel),
    (trip.2.2 [] rfl shortMessage 3 (by decide) (by decide +kernel)).1⟩

end Snax.XDMACfg
