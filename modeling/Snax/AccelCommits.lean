import Snax.AccelUnits

/-! The requests and the commits of the five kinds of invocation: both name the same units in the
same order. -/
namespace Snax.AccelEngine

/-! ### The units of a kind, in the order of their posts -/

def unitsOsw (s : Shape) : List UnitId :=
  if s.w0p1En then [.writer .w0] else if s.w1En then [.writer .w1] else []

def unitsP1 (s : Shape) : List UnitId :=
  [.reader .r0,.reader .r1] ++ unitsOsw s ++ (if s.p1swEn then [.reader .r3c,.reader .r4c] else []) ++ [.reader .r12] ++
  (if s.r11p1En then [.reader .r11] else []) ++ (if s.r13En then [.reader .r13] else []) ++
  [.writer .w3]

def unitsOs : List UnitId := [.reader .r0,.reader .r1,.writer .w0]

def unitsSimd (e : AccelEngine) : List UnitId :=
  ((List.range 14).filter e.simdReads).map (fun p => .reader (.rd p)) ++
  ((List.range 4).filter e.simdWrites).map fun p => .writer (.wr p)

/-- R13 carries the state of the scan or the partial sums. -/
def unitsP2 (s : Shape) (five suc isc : Bool) : List UnitId :=
  (if s.enOs then [.reader .r0,.reader .r1,.writer .w0] else []) ++ [.dtBC] ++
  (if suc then [.reader .r10] else []) ++ [.writer .w2] ++
  (if s.swEn then [.reader .r2sw,.reader .r3sw] ++ (if five then [.reader .r5sw] else []) else []) ++
  (if isc then [.reader .r11,.reader .r12] else []) ++
  (if isc && s.r13En || s.sucStateLd then [.reader .r13] else []) ++
  (if s.enIsc || s.sucStateSv then [.writer .w3] else [])

def allP1 : List UnitId :=
  [.reader .r0,.reader .r1,.writer .w0,.writer .w1,.reader .r3c,.reader .r4c,.reader .r12,.reader .r11,
    .reader .r13,.writer .w3]

def allSimd : List UnitId :=
  ((List.range 14).map fun p => .reader (.rd p)) ++ (List.range 4).map fun p => .writer (.wr p)

def allP2 : List UnitId :=
  [.reader .r0,.reader .r1,.writer .w0,.dtBC,.reader .r10,.writer .w2,.reader .r2sw,.reader .r3sw,
    .reader .r5sw,.reader .r11,.reader .r12,.reader .r13,.writer .w3]

theorem sublist_ite {α : Type} (c : Bool) {l l' : List α} (inside : l.Sublist l') :
    (if c then l else []).Sublist l' := by
  cases c with
  | true => exact inside
  | false => exact List.nil_sublist l'

theorem unitsP1_sublist (s : Shape) : (unitsP1 s).Sublist allP1 := by
  have writers : (unitsOsw s).Sublist [.writer .w0,.writer .w1] := by
    unfold unitsOsw
    split
    · decide
    · split <;> decide
  exact ((((((List.Sublist.refl [_,_]).append writers).append
    (sublist_ite s.p1swEn (List.Sublist.refl [_,_]))).append (List.Sublist.refl [_])).append
    (sublist_ite s.r11p1En (List.Sublist.refl [_]))).append
    (sublist_ite s.r13En (List.Sublist.refl [_]))).append (List.Sublist.refl [_])

theorem unitsSimd_sublist (e : AccelEngine) : (unitsSimd e).Sublist allSimd :=
  (List.filter_sublist.map _).append (List.filter_sublist.map _)

theorem unitsP2_sublist (s : Shape) (five suc isc : Bool) : (unitsP2 s five suc isc).Sublist allP2 := by
  have switched : (if s.swEn then [.reader .r2sw,.reader .r3sw] ++ (if five then [.reader .r5sw] else [])
      else []).Sublist [UnitId.reader .r2sw,.reader .r3sw,.reader .r5sw] :=
    sublist_ite _ ((List.Sublist.refl [_,_]).append (sublist_ite five (List.Sublist.refl [_])))
  exact (((((((sublist_ite s.enOs (List.Sublist.refl [_,_,_])).append (List.Sublist.refl [_])).append
    (sublist_ite suc (List.Sublist.refl [_]))).append (List.Sublist.refl [_])).append switched).append
    (sublist_ite isc (List.Sublist.refl [_,_]))).append (sublist_ite _ (List.Sublist.refl [_]))).append
    (sublist_ite _ (List.Sublist.refl [_]))

/-! ### The requests and the commits of a kind -/

theorem requestsP1_eq (e : AccelEngine) : e.requestsP1 = (unitsP1 e.shape).flatMap e.unitPosts := by
  unfold requestsP1 unitsP1 unitsOsw
  simp only [List.flatMap_append,apply_ite (List.flatMap e.unitPosts),List.flatMap_cons,List.flatMap_nil,
    List.append_nil,List.append_assoc,unitPosts]

theorem requestsOs_eq (e : AccelEngine) : e.requestsOs = unitsOs.flatMap e.unitPosts := by
  simp only [requestsOs,unitsOs,List.flatMap_cons,List.flatMap_nil,List.append_nil,List.append_assoc,
    unitPosts]

theorem requestsSimd_eq (e : AccelEngine) : e.requestsSimd = (unitsSimd e).flatMap e.unitPosts := by
  have chosen {β : Type} (ps : List Nat) (c : Nat → Bool) (f : Nat → List β) :
      (ps.flatMap fun p => if c p then f p else []) = (ps.filter c).flatMap f := by
    induction ps with
    | nil => rfl
    | cons p ps ih =>
      rw [List.flatMap_cons,ih,List.filter_cons]
      split <;> rfl
  rw [requestsSimd,unitsSimd,List.flatMap_append,List.flatMap_map,List.flatMap_map,chosen,chosen]
  rfl

theorem requestsP2_eq (e : AccelEngine) (suc : Bool) {isc : Bool}
    (one : e.shape.sucStateLd = true → isc = false) :
    e.requestsP2 suc isc =
      (unitsP2 e.shape (e.readers .r5sw).active suc isc).flatMap e.unitPosts := by
  have carried : (if isc then e.readerPosts .r11 ++ e.readerPosts .r12 ++
        (if e.shape.r13En then e.readerPosts .r13 else []) else []) ++
      (if e.shape.sucStateLd then e.readerPosts .r13 else []) =
      (if isc then e.readerPosts .r11 ++ e.readerPosts .r12 else []) ++
      if isc && e.shape.r13En || e.shape.sucStateLd then e.readerPosts .r13 else [] := by
    cases isc with
    | false => rfl
    | true =>
      rw [Bool.eq_false_iff.mpr fun loads => nomatch one loads]
      cases e.shape.r13En <;> simp
  rw [requestsP2,List.append_assoc _ (if isc then _ else _),carried]
  unfold unitsP2
  simp only [List.flatMap_append,apply_ite (List.flatMap e.unitPosts),List.flatMap_cons,List.flatMap_nil,
    List.append_nil,List.append_assoc,unitPosts]

theorem answered_osw (g : List Bool) (x : Readback) :
    Answered g (unitsOsw x.engine.shape) x (if x.engine.shape.w0p1En then commitWriter g x .w0
      else if x.engine.shape.w1En then commitWriter g x .w1 else x) := by
  unfold unitsOsw
  split
  · exact answered_writer g x .w0
  · exact answered_ite g _ (answered_writer g x .w1)

theorem commitsP1_answered (g : List Bool) (x : Readback) :
    Answered g (unitsP1 x.engine.shape) x (commitsP1 g x) := by
  have once : (unitsP1 x.engine.shape).Nodup :=
    (unitsP1_sublist _).nodup (by decide +kernel : allP1.Nodup)
  have a1 := (answered_reader g x .r0).append (answered_reader g _ .r1) (by simp)
  have a2 := a1.next unitsOsw (answered_osw g _)
    once.of_append_left.of_append_left.of_append_left.of_append_left.of_append_left
  have a3 := a2.next (fun s => if s.p1swEn then [.reader .r3c,.reader .r4c] else [])
    (answered_ite g _ ((answered_reader g _ .r3c).append (answered_reader g _ .r4c) (by simp)))
    once.of_append_left.of_append_left.of_append_left.of_append_left
  have a4 := a3.next (fun _ => [.reader .r12]) (answered_reader g _ .r12)
    once.of_append_left.of_append_left.of_append_left
  have a5 := a4.next (fun s => if s.r11p1En then [.reader .r11] else [])
    (answered_ite g _ (answered_reader g _ .r11)) once.of_append_left.of_append_left
  have a6 := a5.next (fun s => if s.r13En then [.reader .r13] else [])
    (answered_ite g _ (answered_reader g _ .r13)) once.of_append_left
  exact a6.next (fun _ => [.writer .w3]) (answered_writer g _ .w3) once

theorem commitsOs_answered (g : List Bool) (x : Readback) : Answered g unitsOs x (commitsOs g x) :=
  ((answered_reader g x .r0).append (answered_reader g _ .r1) (by simp)).append
    (answered_writer g _ .w0) (by simp)

theorem commitsSimd_answered (g : List Bool) (x : Readback) :
    Answered g (unitsSimd x.engine) x (commitsSimd g x) := by
  have reads := answered_foldl g (c := simdReads) (fun x p => answered_reader g x (.rd p))
    (fun p q same => ReaderId.rd.inj (UnitId.reader.inj same))
    (fun e e' p _ shape pops => by simp only [simdReads,shape,pops]) x (List.range 14) List.nodup_range
  generalize found : (List.range 14).foldl
    (fun x p => if x.engine.simdReads p then commitReader g x (.rd p) else x) x = y at reads
  have writes := answered_foldl g (c := simdWrites) (fun x p => answered_writer g x (.wr p))
    (fun p q same => WriterId.wr.inj (UnitId.writer.inj same))
    (fun e e' p same shape _ => by
      simp only [simdWrites,show e'.writers (.wr p) = e.writers (.wr p) from same,shape])
    y (List.range 4) List.nodup_range
  have unmoved : y.engine.simdWrites = x.engine.simdWrites := by
    funext p
    have same : y.engine.writers (.wr p) = x.engine.writers (.wr p) :=
      reads.frame (.writer (.wr p)) (by simp)
    simp only [simdWrites,same,reads.shape]
  rw [unmoved] at writes
  rw [commitsSimd,found]
  exact reads.append writes (List.disjoint_of_nodup_append
    ((unitsSimd_sublist x.engine).nodup (by decide +kernel : allSimd.Nodup)))

theorem commitZ_answered (g : List Bool) (x : Readback) : Answered g [.writer .w0] x (commitZ g x) := by
  rw [commitZ]
  split
  · exact (answered_writer g x .w0).marked rfl rfl rfl rfl rfl rfl rfl rfl rfl
  · exact answered_writer g x .w0

theorem commitY_answered (g : List Bool) (x : Readback) : Answered g [.writer .w2] x (commitY g x) := by
  rw [commitY]
  split
  · exact (answered_writer g x .w2).marked rfl rfl rfl rfl rfl rfl rfl rfl rfl
  · exact answered_writer g x .w2

theorem commitReadZ_answered (g : List Bool) (x : Readback) :
    Answered g [.reader .r10] x (commitReadZ g x) := by
  rw [commitReadZ]
  split
  · exact (answered_reader g x .r10).marked rfl rfl rfl rfl rfl rfl rfl rfl rfl
  · exact answered_reader g x .r10

theorem commitReadY_answered (g : List Bool) (x : Readback) :
    Answered g [.reader .r11] x (commitReadY g x) := by
  rw [commitReadY]
  split
  · exact (answered_reader g x .r11).marked rfl rfl rfl rfl rfl rfl rfl rfl rfl
  · exact answered_reader g x .r11

theorem answered_switch (g : List Bool) {five : Bool} (x : Readback)
    (same : (x.engine.readers .r5sw).active = five) :
    Answered g ([.reader .r2sw,.reader .r3sw] ++ if five then [.reader .r5sw] else []) x
      (if ((commitReader g (commitReader g x .r2sw) .r3sw).engine.readers .r5sw).active then
        commitReader g (commitReader g (commitReader g x .r2sw) .r3sw) .r5sw
      else commitReader g (commitReader g x .r2sw) .r3sw) := by
  have kept : ((commitReader g (commitReader g x .r2sw) .r3sw).engine.readers .r5sw).active = five := same
  have two := (answered_reader g x .r2sw).append (answered_reader g _ .r3sw) (by simp)
  rw [kept]
  refine two.append (answered_ite g five (answered_reader g _ .r5sw)) ?_
  cases five <;> simp

/-- The isCore's readers, then R13 for the partial sums or for the state of the scan. -/
theorem answered_carry (g : List Bool) (isc : Bool) (x : Readback)
    (one : x.engine.shape.sucStateLd = true → isc = false)
    {y z : Readback} (readers : y = if isc then
        let x := commitReader g (commitReadY g x) .r12
        if x.engine.shape.r13En then commitReader g x .r13 else x else x)
    (carry : z = if y.engine.shape.sucStateLd then commitReader g y .r13 else y) :
    Answered g ((if isc then [.reader .r11,.reader .r12] else []) ++
      if isc && x.engine.shape.r13En || x.engine.shape.sucStateLd then [.reader .r13] else []) x z := by
  cases isc with
  | false =>
    obtain rfl : y = x := readers
    rw [carry]
    exact answered_ite g _ (answered_reader g y .r13)
  | true =>
    have loads : x.engine.shape.sucStateLd = false := Bool.eq_false_iff.mpr fun loads => nomatch one loads
    have two := (commitReadY_answered g x).append (answered_reader g (commitReadY g x) .r12) (by simp)
    have three := two.next (fun s => if s.r13En then [.reader .r13] else [])
      (answered_ite g _ (answered_reader g _ .r13)) (by split <;> simp)
    have same : y.engine.shape = x.engine.shape := by
      rw [readers]
      exact three.shape
    rw [carry,same,loads,if_neg Bool.false_ne_true,Bool.or_false,readers]
    exact three

theorem commitsP2_answered (g : List Bool) (suc isc : Bool) (x : Readback)
    (one : x.engine.shape.sucStateLd = true → isc = false) :
    Answered g (unitsP2 x.engine.shape (x.engine.readers .r5sw).active suc isc) x
      (commitsP2 suc isc g x) := by
  have once : (unitsP2 x.engine.shape (x.engine.readers .r5sw).active suc isc).Nodup :=
    (unitsP2_sublist _ _ _ _).nodup (by decide +kernel : allP2.Nodup)
  have a1 : Answered g (if x.engine.shape.enOs then [.reader .r0,.reader .r1,.writer .w0] else []) x _ :=
    answered_ite g x.engine.shape.enOs
      (((answered_reader g x .r0).append (answered_reader g _ .r1) (by simp)).append
        (commitZ_answered g _) (by simp))
  have o6 := once.of_append_left
  rw [List.append_assoc _ (if isc then _ else _)] at o6
  have o5 := o6.of_append_left
  have o4 := o5.of_append_left
  have o3 := o4.of_append_left
  have o2 := o3.of_append_left
  have a2 := a1.next (fun _ => [.dtBC]) (answered_dtBC g _) o2
  have a3 := a2.next (fun _ => if suc then [.reader .r10] else [])
    (answered_ite g suc (commitReadZ_answered g _)) o3
  have a4 := a3.next (fun _ => [.writer .w2]) (commitY_answered g _) o4
  have a5 := a4.next (fun s => if s.swEn then [.reader .r2sw,.reader .r3sw] ++
      (if (x.engine.readers .r5sw).active then [.reader .r5sw] else []) else [])
    (answered_ite g _ (answered_switch g _ (congrArg (fun r => r.active) (a4.frame (.reader .r5sw) (by
      cases x.engine.shape.enOs <;> cases suc <;> simp))))) o5
  have a6 := a5.next (fun s => (if isc then [.reader .r11,.reader .r12] else []) ++
      if isc && s.r13En || s.sucStateLd then [.reader .r13] else [])
    (answered_carry g isc _ (by rw [a5.shape]; exact one) rfl rfl) o6
  have a7 := a6.next (fun s => if s.enIsc || s.sucStateSv then [.writer .w3] else [])
    (answered_ite g _ (answered_writer g _ .w3)) (by rwa [← List.append_assoc])
  rw [← List.append_assoc] at a7
  exact a7

end Snax.AccelEngine
