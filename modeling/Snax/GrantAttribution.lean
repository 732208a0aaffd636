import Snax.AccelCommits
import Snax.AccelConfigure

/-! A grant reaches the lane that has asked for it: in every cycle of every invocation the commits
read the flags of the fabric in the order in which the proposals have posted. -/
namespace Snax.AccelEngine

/-! ### A whole cycle -/

/-- Lane `l` of unit `u` has a request in the cycle, and the fabric grants it. -/
def Won (f : Fabric) (mask : BitVec 32) (requests : List Request) (u : UnitId) (l : Nat) : Prop :=
  ∃ k r, requests[k]? = some r ∧ r.key = (u,l) ∧
    Fabric.GrantedAt f ⟨mask,requests.map Request.post⟩ k r.post

/-- The banks that the DMA owns in the next cycle. -/
def dmaMask (e : AccelEngine) : BitVec 32 := (e.dma.step (e.ctl.cyc + 1)).2

/-- Every flag is read by the lane whose request it answers, none is left over, and a lane moves on
if and only if its own request is granted. -/
structure Attributed (e e' : AccelEngine) (t : Trace) : Prop where
  consulted : t.consulted = t.requests.map Request.key
  consumed : (Snax.fabric.out e.fabric ⟨e.dmaMask,t.requests.map Request.post⟩).length = t.consulted.length
  moved : ∀ u, ∀ l < e.channels u, MovesBy e e' (Won e.fabric e.dmaMask t.requests) u l

theorem attributed_quiet {e e' : AccelEngine} (still : ∀ u, e'.laneCount u = e.laneCount u) :
    Attributed e e' quiet where
  consulted := rfl
  consumed := rfl
  moved u l _ := by
    refine .inr ⟨?_,congrFun (still u) l⟩
    rintro ⟨k,r,found,_⟩
    simp [quiet] at found

def fabricCycle (e : AccelEngine) (requests : List Request) : Fabric.Cycle :=
  ⟨(e.dma.step e.ctl.cyc).2,requests.map Request.post⟩

/-- The engine between the arbitration and the commits. -/
def arbitrated (e : AccelEngine) (requests : List Request) : AccelEngine :=
  { e with
    dma := (e.dma.step e.ctl.cyc).1
    fabric := Snax.fabric.next e.fabric (e.fabricCycle requests) }

theorem fabricPhase_eq (e : AccelEngine) (requests : List Request)
    (commits : List Bool → Readback → Readback) : e.fabricPhase requests commits =
      let x := commits (Snax.fabric.out e.fabric (e.fabricCycle requests)) ⟨e.arbitrated requests,[]⟩
      (x.engine,⟨requests,x.consulted⟩) := rfl

theorem flags_length (e : AccelEngine) {requests : List Request} (room : requests.length ≤ 64) :
    (Snax.fabric.out e.fabric (e.fabricCycle requests)).length = requests.length := by
  have posts : (e.fabricCycle requests).posts.length ≤ 64 := by simpa [fabricCycle] using room
  simp only [Snax.fabric,Fabric.arbitrate,Fabric.loaded_of_room e.fabric posts]
  simp [fabricCycle]

/-- What a fabric phase with the units `us` does. -/
structure Phased (us : List UnitId) (e e' : AccelEngine) (requests : List Request) (t : Trace) : Prop where
  trace : t = ⟨requests,requests.map Request.key⟩
  shape : e'.shape = e.shape
  done : ∀ id, (e'.readers id).done = (e.readers id).done
  channels : ∀ u, e'.channels u = e.channels u
  moved : ∀ u, ∀ l < e.channels u, MovesBy e e' (Won e.fabric (e.dma.step e.ctl.cyc).2 requests) u l

theorem fabricPhase_spec (e : AccelEngine) {us : List UnitId} {commits : List Bool → Readback → Readback}
    (answered : ∀ g, Answered g us ⟨e.arbitrated (us.flatMap e.unitPosts),[]⟩
      (commits g ⟨e.arbitrated (us.flatMap e.unitPosts),[]⟩)) :
    Phased us e (e.fabricPhase (us.flatMap e.unitPosts) commits).1 (us.flatMap e.unitPosts)
      (e.fabricPhase (us.flatMap e.unitPosts) commits).2 := by
  have here := answered (Snax.fabric.out e.fabric (e.fabricCycle (us.flatMap e.unitPosts)))
  rw [fabricPhase_eq]
  generalize made : Snax.fabric.out e.fabric (e.fabricCycle (us.flatMap e.unitPosts)) = g at here ⊢
  generalize commits g ⟨e.arbitrated (us.flatMap e.unitPosts),[]⟩ = x at here ⊢
  have posts : us.flatMap (e.arbitrated (us.flatMap e.unitPosts)).unitPosts = us.flatMap e.unitPosts := by
    refine List.flatMap_congr fun u _ => ?_
    cases u <;> rfl
  have counts (u : UnitId) : (e.arbitrated (us.flatMap e.unitPosts)).laneCount u = e.laneCount u := by
    cases u <;> rfl
  have lanes (u : UnitId) : (e.arbitrated (us.flatMap e.unitPosts)).channels u = e.channels u := by
    cases u <;> rfl
  have won (u : UnitId) (l : Nat) : Hit g 0 (us.flatMap e.unitPosts) u l ↔
      Won e.fabric (e.dma.step e.ctl.cyc).2 (us.flatMap e.unitPosts) u l := by
    refine exists₂_congr fun k r => and_congr_right fun found => and_congr_right fun _ => ?_
    have asked : ((us.flatMap e.unitPosts).map Request.post)[k]? = some r.post := by simp [found]
    have granted : Fabric.GrantedAt e.fabric (e.fabricCycle (us.flatMap e.unitPosts)) k r.post ↔
        (Snax.fabric.out e.fabric (e.fabricCycle (us.flatMap e.unitPosts)))[k]? = some true :=
      and_iff_right asked
    rw [Nat.zero_add,← made,List.getD_eq_getElem?_getD]
    refine Iff.trans ?_ granted.symm
    cases (Snax.fabric.out e.fabric (e.fabricCycle (us.flatMap e.unitPosts)))[k]? with
    | none => exact ⟨fun none => absurd none Bool.false_ne_true,fun none => nomatch none⟩
    | some flag => exact ⟨congrArg some,Option.some.inj⟩
  refine ⟨?_,here.shape,here.done,fun u => (here.channels u).trans (lanes u),fun u l lane => ?_⟩
  · have consulted := here.consulted
    rw [posts] at consulted
    exact congrArg (Trace.mk _) consulted
  · by_cases inside : u ∈ us
    · have moved := here.moved u inside l (by rwa [lanes])
      rw [posts,MovesBy,counts] at moved
      rw [MovesBy,← won]
      exact moved
    · refine .inr ⟨?_,by rw [(here.frame u inside).laneCount,counts]⟩
      rintro ⟨k,r,found,key,_⟩
      exact flatMap_unitPosts_unit inside r (List.mem_of_getElem? found) (congrArg Prod.fst key)

/-! ### Reachable engines -/

theorem posts_length {e : AccelEngine} (fits : Fits e) (us : List UnitId) :
    (us.flatMap e.unitPosts).length ≤ us.foldr (fun u n => unitWidth u + n) 0 := by
  induction us with
  | nil => exact Nat.le_refl 0
  | cons u us ih =>
    rw [List.flatMap_cons,List.length_append,List.foldr_cons]
    exact Nat.add_le_add ((unitPosts_length e u).trans (fits.width u)) ih

theorem posts_room {e : AccelEngine} (fits : Fits e) {us all : List UnitId} (inside : us.Sublist all)
    (few : all.foldr (fun u n => unitWidth u + n) 0 ≤ 64) : (us.flatMap e.unitPosts).length ≤ 64 := by
  have most : us.foldr (fun u n => unitWidth u + n) 0 ≤ all.foldr (fun u n => unitWidth u + n) 0 := by
    clear few
    induction inside with
    | slnil => exact Nat.le_refl 0
    | cons u _ ih => exact ih.trans (Nat.le_add_left _ _)
    | cons_cons u _ ih => exact Nat.add_le_add_left ih _
  exact (posts_length fits us).trans (most.trans few)

/-- The first part of a cycle, then the fabric phase of the units `us`. -/
theorem attributed_phase {e f : AccelEngine} (us : List UnitId) (commits : List Bool → Readback → Readback)
    {t : AccelEngine × Trace} (fits : Fits e) (still : Still e.ticked f)
    (room : (us.flatMap f.unitPosts).length ≤ 64)
    (answered : ∀ g, Answered g us ⟨f.arbitrated (us.flatMap f.unitPosts),[]⟩
      (commits g ⟨f.arbitrated (us.flatMap f.unitPosts),[]⟩))
    (last : Still (f.fabricPhase (us.flatMap f.unitPosts) commits).1 t.1)
    (shown : t.2 = (f.fabricPhase (us.flatMap f.unitPosts) commits).2) :
    Attributed e t.1 t.2 ∧ Fits t.1 ∧ t.1.shape = e.shape := by
  have going : ∀ id, (e.ticked.readers id).done = false := fits.done
  have phase := fabricPhase_spec f answered
  have fits' : Fits f := fits.ticked.of_still still
  have ended : Fits (f.fabricPhase (us.flatMap f.unitPosts) commits).1 :=
    ⟨fun id => (phase.done id).trans (fits'.done id),fun u => (phase.channels u).trans_le (fits'.width u)⟩
  have mask : (f.dma.step f.ctl.cyc).2 = e.dmaMask := by rw [still.dma,still.cyc]; rfl
  have lanes (u : UnitId) : f.channels u = e.channels u :=
    (still.channels going u).trans (ticked_channels e u)
  have counts (u : UnitId) : f.laneCount u = e.laneCount u :=
    (still.laneCount going u).trans (ticked_laneCount e u)
  refine ⟨?_,ended.of_still last,last.shape.trans (phase.shape.trans still.shape)⟩
  rw [shown,phase.trace]
  refine ⟨rfl,?_,fun u l lane => ?_⟩
  · have length := flags_length f room
    rw [List.length_map,← length,fabricCycle,mask,still.fabric]
    rfl
  · have moved := phase.moved u l (by rwa [lanes])
    rw [MovesBy,mask,still.fabric,counts] at moved
    rw [MovesBy,last.laneCount ended.done]
    exact moved

/-- A cycle in which no request is posted. -/
theorem attributed_alone {e e' : AccelEngine} (fits : Fits e) (still : Still e e' ∨ Still e.ticked e') :
    Attributed e e' quiet ∧ Fits e' ∧ e'.shape = e.shape := by
  rcases still with same | ticked
  · exact ⟨attributed_quiet (same.laneCount fits.done),fits.of_still same,same.shape⟩
  · exact ⟨attributed_quiet fun u => (ticked.laneCount fits.done u).trans (ticked_laneCount e u),
      fits.ticked.of_still ticked,ticked.shape⟩

theorem still_core {e e' : AccelEngine} (core : Moves (fun _ _ => True) e e') : Still e e' := core.still

theorem still_capped (e : AccelEngine) : Still e e.capped :=
  still_core (.core rfl rfl rfl rfl rfl rfl rfl rfl)

theorem still_sampleFifo (e : AccelEngine) : Still e e.sampleFifo := still_core (moves_sampleFifo e)

/-- What holds of every cycle. -/
abbrev Stepped (e : AccelEngine) (t : AccelEngine × Trace) : Prop :=
  Attributed e t.1 t.2 ∧ Fits t.1 ∧ t.1.shape = e.shape

theorem stepP1_attributed {e : AccelEngine} (fits : Fits e) : Stepped e e.stepP1 := by
  unfold stepP1
  extract_lets e1 x
  have still : Still e.ticked e1 := still_core (moves_beforeP1 _ fun _ _ _ => trivial)
  clear_value e1
  split
  · exact attributed_alone fits (.inl (still_refl e))
  · split
    · exact attributed_alone fits (.inl (still_capped e))
    · split
      · exact attributed_alone fits (.inr (still.trans (still_capped e1)))
      · have posted := requestsP1_eq e1
        refine attributed_phase (unitsP1 e1.shape) commitsP1 fits still
          (posts_room (fits.ticked.of_still still) (unitsP1_sublist _) (by decide))
          (fun g => commitsP1_answered g ⟨e1.arbitrated _,[]⟩) ?_ ?_
        · rw [← posted]
          exact still_sampleFifo _
        · rw [← posted]

theorem stepOs_attributed {e : AccelEngine} (fits : Fits e) : Stepped e e.stepOs := by
  unfold stepOs
  extract_lets e1 e2 ended _ x
  have still : Still e.ticked e2 := still_core (moves_beforeOs _ fun _ _ _ => trivial)
  clear_value e2
  split
  · exact attributed_alone fits (.inl (still_refl e))
  · split
    · exact attributed_alone fits (.inl (still_capped e))
    · split
      · refine attributed_alone fits (.inr (still.trans (Still.trans ?_ (still_sampleFifo _))))
        exact still_core (.core rfl rfl rfl rfl rfl rfl rfl rfl)
      · have posted := requestsOs_eq e2
        refine attributed_phase unitsOs commitsOs fits still
          (posts_room (fits.ticked.of_still still) (List.Sublist.refl unitsOs) (by decide))
          (fun g => commitsOs_answered g ⟨e2.arbitrated _,[]⟩) ?_ ?_
        · rw [← posted]
          exact still_sampleFifo _
        · rw [← posted]

theorem stepIs_attributed {e : AccelEngine} (fits : Fits e) : Stepped e e.stepIs := by
  unfold stepIs
  extract_lets e1 ended _ x
  have still : Still e.ticked e1 := still_core (moves_beforeIs _ fun _ _ _ => trivial)
  clear_value e1
  split
  · exact attributed_alone fits (.inl (still_refl e))
  · split
    · exact attributed_alone fits (.inl (still_capped e))
    · split
      · refine attributed_alone fits (.inr (still.trans (Still.trans ?_ (still_sampleFifo _))))
        exact still_core (.core rfl rfl rfl rfl rfl rfl rfl rfl)
      · have posted : e1.writerPosts .w3 = [UnitId.writer .w3].flatMap e1.unitPosts :=
          (List.append_nil _).symm
        refine attributed_phase [.writer .w3] (fun g x => commitWriter g x .w3) fits still
          (posts_room (fits.ticked.of_still still) (List.Sublist.refl _) (by decide))
          (fun g => answered_writer g ⟨e1.arbitrated _,[]⟩ .w3) ?_ ?_
        · rw [← posted]
          exact still_sampleFifo _
        · rw [← posted]

theorem stepSimd_attributed {e : AccelEngine} (fits : Fits e) : Stepped e e.stepSimd := by
  unfold stepSimd
  extract_lets e1 e2
  have still : Still e.ticked e2 := still_core (moves_beforeSimd _ fun _ _ _ => trivial)
  clear_value e2
  split
  · exact attributed_alone fits (.inl (still_refl e))
  · split
    · exact attributed_alone fits (.inl (still_capped e))
    · split
      · exact attributed_alone fits (.inr (still.trans (still_capped e2)))
      · rw [requestsSimd_eq e2]
        exact attributed_phase (unitsSimd e2) commitsSimd fits still
          (posts_room (fits.ticked.of_still still) (unitsSimd_sublist e2) (by decide))
          (fun g => commitsSimd_answered g ⟨e2.arbitrated _,[]⟩) (still_refl _) rfl

theorem still_beforeP2 (e : AccelEngine) : Still e e.beforeP2 :=
  still_core (moves_beforeP2 e (fun _ _ _ => trivial) (fun _ _ => trivial) fun _ => trivial)

theorem still_finishP2 (e : AccelEngine) : Still e e.finishP2 :=
  still_core (.core rfl rfl rfl rfl rfl rfl rfl rfl)

theorem stepP2_attributed {e : AccelEngine} (fits : Fits e)
    (one : e.ctl.running = true → OneCarry e.shape) : Stepped e e.stepP2 := by
  unfold stepP2
  extract_lets e1 suc isc e2 x
  have landed : Still e.ticked e1 := still_core (moves_landP2 _)
  have still : Still e.ticked e2 := still_beforeP2 _
  have released (present : isc = true) : e1.shape.enIsc = true := (Bool.and_eq_true_iff.mp present).1
  have same : e2.shape = e.shape := still.shape
  have same1 : e1.shape = e.shape := landed.shape
  clear_value e2 e1
  split
  · exact attributed_alone fits (.inl (still_refl e))
  · rename_i going
    split
    · exact attributed_alone fits (.inl (still_capped e))
    · split
      · exact attributed_alone fits (.inr (still.trans (still_finishP2 e2)))
      · have apart : e2.shape.sucStateLd = true → isc = false := by
          intro loads
          rw [same] at loads
          refine Bool.eq_false_iff.mpr fun present => ?_
          have here := released present
          rw [same1,one (by simpa using going) loads] at here
          exact Bool.false_ne_true here
        have posted := requestsP2_eq e2 suc apart
        clear_value suc isc
        refine attributed_phase (unitsP2 e2.shape (e2.readers .r5sw).active suc isc) (commitsP2 suc isc)
          fits still
          (posts_room (fits.ticked.of_still still) (unitsP2_sublist _ _ _ _) (by decide))
          (fun g => commitsP2_answered g suc isc ⟨e2.arbitrated _,[]⟩ apart) ?_ ?_
        · rw [← posted]
          exact still_sampleFifo _
        · rw [← posted]

theorem step_attributed {e : AccelEngine} (fits : Fits e) (kinds : Kinds e) : Stepped e e.step := by
  unfold step
  split
  · exact stepP1_attributed fits
  · split
    · exact stepOs_attributed fits
    · split
      · exact stepIs_attributed fits
      · split
        · exact stepSimd_attributed fits
        · refine stepP2_attributed fits fun going => kinds.one ?_
          have := kinds.known going
          omega

theorem step_stopped {e : AccelEngine} (stopped : e.ctl.running = false) : e.step = (e,quiet) := by
  have idle : (!e.ctl.running) = true := by rw [stopped]; rfl
  unfold step stepP1 stepOs stepIs stepSimd stepP2
  simp only [idle,↓reduceIte,ite_self]

theorem step_kept {e : AccelEngine} (fits : Fits e) (kinds : Kinds e) : Fits e.step.1 ∧ Kinds e.step.1 := by
  obtain ⟨_,fits',shape⟩ := step_attributed fits kinds
  refine ⟨fits',fun going => ?_,by rw [shape]; exact kinds.one⟩
  rw [shape]
  refine kinds.known ?_
  cases running : e.ctl.running with
  | true => rfl
  | false =>
    rw [step_stopped running,running] at going
    exact going

theorem next_kept (depth : Nat → Int) {e : AccelEngine} (fits : Fits e) (kinds : Kinds e) (call : Call) :
    Fits (next depth e call) ∧ Kinds (next depth e call) := by
  cases call with
  | configure args => exact configure_kept depth fits args
  | step => exact step_kept fits kinds
  | dmaEnqueue tcdmAddr bytes l3 atRel => exact ⟨fits.of_eq rfl rfl,kinds.known,kinds.one⟩
  | releaseR10 => exact ⟨fits.of_eq rfl rfl,kinds.known,kinds.one⟩
  | releaseR11 => exact ⟨fits.of_eq rfl rfl,kinds.known,kinds.one⟩

/-- What every reachable engine keeps. -/
theorem reachable_kept (depth : Nat → Int) (calls : List Call) :
    Fits ((accelEngine depth).exec fresh calls) ∧ Kinds ((accelEngine depth).exec fresh calls) :=
  Sync.Machine.run_rule (m := accelEngine depth) (fun _ e => Fits e ∧ Kinds e) ⟨fits_fresh,nofun,nofun⟩
    (fun _ _ call kept => next_kept depth kept.1 kept.2 call) calls

end AccelEngine

/-- In every cycle of every engine that calls can reach, the `k`-th flag read back is that of the
lane that posted the `k`-th request, all flags are read, and a lane advances if and only if the
fabric grants its own request. -/
theorem grants_attributed (depth : Nat → Int) (calls : List AccelEngine.Call) :
    AccelEngine.Attributed ((accelEngine depth).exec AccelEngine.fresh calls)
      ((accelEngine depth).exec AccelEngine.fresh calls).step.1
      ((accelEngine depth).exec AccelEngine.fresh calls).step.2 := by
  obtain ⟨fits,kinds⟩ := AccelEngine.reachable_kept depth calls
  exact (AccelEngine.step_attributed fits kinds).1

end Snax
