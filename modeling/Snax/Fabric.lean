import Snax.Sync.Machine

/-! `sim/src/cyc.hpp`, `Fabric`: the simulator's 32-bank TCDM. The streamers post their
lane requests, then every bank that no DMA beat owns grants one of them, the highest
priority first and among equals the token nearest ahead of its 8-bit pointer. -/
namespace Snax

/-- One call of `post`. -/
structure Post where
  bank : Nat
  tok : Nat
  prio : Int
  deriving DecidableEq, Repr

/-- `requests` is `req_bank`, `req_tok` and `req_prio` up to `n_req`. -/
structure Fabric where
  dmaOwned : BitVec 32
  rr : Vector (BitVec 8) 32
  requests : List Post

namespace Fabric

abbrev NB := 32

def reset : Fabric := ⟨0,Vector.replicate NB 0,[]⟩

abbrev pointer (f : Fabric) (b : Fin NB) : BitVec 8 := f.rr[b]

def beginCycle (f : Fabric) (dmaMask : BitVec 32) : Fabric :=
  { f with dmaOwned := dmaMask, requests := [] }

/-- `bank & (NB - 1)`. -/
def place (p : Post) : Fin NB := Fin.ofNat NB p.bank

/-- A post beyond the 64 request slots is dropped. -/
def post (f : Fabric) (p : Post) : Fabric :=
  if f.requests.length < 64 then
    { f with requests := f.requests ++ [{ p with bank := place p }] }
  else f

/-- The round-robin distance `(req_tok[i] - rr[b] + 256) & 0xff`. -/
def rank (pointer : BitVec 8) (tok : Nat) : Nat := (tok + 256 - pointer.toNat) % 256

/-- `best`, `best_rank` and `best_prio` of the scan over the requests. -/
structure Best where
  best : Option (Post × Nat)
  rank : Nat
  prio : Int

namespace Best

def start : Best := ⟨none,1 <<< 30,-1⟩

def consider (pointer : BitVec 8) (b : Nat) (acc : Best) (r : Post × Nat) : Best :=
  if r.1.bank ≠ b then acc
  else if acc.prio < r.1.prio ∨ r.1.prio = acc.prio ∧ Fabric.rank pointer r.1.tok < acc.rank then
    ⟨some r,Fabric.rank pointer r.1.tok,r.1.prio⟩
  else acc

end Best

/-- The request bank `b` serves, with its index. -/
def best (f : Fabric) (b : Fin NB) : Option (Post × Nat) :=
  if f.dmaOwned[b] then none
  else (f.requests.zipIdx.foldl (Best.consider (f.pointer b) b) Best.start).best

def granted (f : Fabric) (i : Nat) : Bool :=
  (List.finRange NB).any fun b => (f.best b).map Prod.snd == some i

def arbitrate (f : Fabric) : List Bool × Fabric :=
  ((List.range f.requests.length).map f.granted,
    { f with
      rr := Vector.ofFn fun b : Fin NB =>
        match f.best b with
        | some r => BitVec.ofNat 8 (r.1.tok + 1)
        | none => f.pointer b })

/-- What the engine does with the fabric in one cycle. -/
structure Cycle where
  dmaMask : BitVec 32
  posts : List Post

def loaded (f : Fabric) (c : Cycle) : Fabric := c.posts.foldl post (f.beginCycle c.dmaMask)

end Fabric

def fabric : Sync.Machine Fabric Fabric.Cycle (List Bool) where
  next f c := (f.loaded c).arbitrate.2
  out f c := (f.loaded c).arbitrate.1

namespace Fabric

theorem foldl_post (f : Fabric) (posts : List Post) (room : f.requests.length + posts.length ≤ 64) :
    posts.foldl post f =
      { f with requests := f.requests ++ posts.map fun p => { p with bank := place p } } := by
  induction posts generalizing f with
  | nil => simp
  | cons p posts ih =>
    rw [List.length_cons] at room
    rw [List.foldl_cons,post,if_pos (by omega),ih _ (by simp; omega)]
    simp

theorem loaded_of_room (f : Fabric) {c : Cycle} (room : c.posts.length ≤ 64) :
    f.loaded c = ⟨c.dmaMask,f.rr,c.posts.map fun p => { p with bank := place p }⟩ := by
  rw [loaded,foldl_post _ _ (by simpa [beginCycle] using room)]
  simp [beginCycle]

/-- A candidate is not worse than another for the pointer: higher priority, or the same
and not farther ahead. -/
def NotWorse (pointer : BitVec 8) (p q : Post) : Prop :=
  q.prio < p.prio ∨ q.prio = p.prio ∧ rank pointer p.tok ≤ rank pointer q.tok

namespace Best

/-- One step of the scan: it keeps what it had or takes the request, and ends with one that
is not worse than either. -/
theorem consider_spec (pointer : BitVec 8) (b : Nat) (acc : Best) (r : Post × Nat) :
    (consider pointer b acc r = acc ∨
      r.1.bank = b ∧ consider pointer b acc r = ⟨some r,Fabric.rank pointer r.1.tok,r.1.prio⟩) ∧
    (acc.prio < (consider pointer b acc r).prio ∨
      acc.prio = (consider pointer b acc r).prio ∧ (consider pointer b acc r).rank ≤ acc.rank) ∧
    (r.1.bank = b → r.1.prio < (consider pointer b acc r).prio ∨
      r.1.prio = (consider pointer b acc r).prio ∧
        (consider pointer b acc r).rank ≤ Fabric.rank pointer r.1.tok) := by
  unfold consider
  split
  · simp_all
  · rename_i here
    split
    · exact ⟨.inr ⟨by simpa using here,rfl⟩,by simp only; omega,by simp⟩
    · simp only [true_or,true_and]
      omega

theorem foldl_consider (pointer : BitVec 8) (b : Nat) (l : List (Post × Nat)) (acc : Best) :
    (l.foldl (consider pointer b) acc = acc ∨
      ∃ r ∈ l, r.1.bank = b ∧
        l.foldl (consider pointer b) acc = ⟨some r,Fabric.rank pointer r.1.tok,r.1.prio⟩) ∧
    (acc.prio < (l.foldl (consider pointer b) acc).prio ∨
      acc.prio = (l.foldl (consider pointer b) acc).prio ∧
        (l.foldl (consider pointer b) acc).rank ≤ acc.rank) ∧
    ∀ r ∈ l, r.1.bank = b → r.1.prio < (l.foldl (consider pointer b) acc).prio ∨
      r.1.prio = (l.foldl (consider pointer b) acc).prio ∧
        (l.foldl (consider pointer b) acc).rank ≤ Fabric.rank pointer r.1.tok := by
  induction l generalizing acc with
  | nil => simp
  | cons r l ih =>
    obtain ⟨taken,least,all⟩ := ih (consider pointer b acc r)
    obtain ⟨first,notBelow,notWorse⟩ := consider_spec pointer b acc r
    rw [List.foldl_cons]
    refine ⟨?_,by omega,?_⟩
    · rcases taken with same | ⟨r',inside,here,same⟩
      · rw [same]
        exact first.imp id fun now => ⟨r,List.mem_cons_self,now⟩
      · exact .inr ⟨r',List.mem_cons_of_mem r inside,here,same⟩
    · intro r' inside here
      rcases List.mem_cons.mp inside with rfl | later
      · have := notWorse here
        omega
      · exact all r' later here

end Best

/-- The served request stands on its bank and is not worse than any other there. -/
theorem best_eq_some {f : Fabric} {b : Fin NB} {r : Post × Nat} (served : f.best b = some r) :
    f.dmaOwned[b] = false ∧ f.requests[r.2]? = some r.1 ∧ r.1.bank = b ∧
    ∀ p ∈ f.requests, p.bank = b → NotWorse f.rr[b] r.1 p := by
  unfold best at served
  split at served
  · contradiction
  · rename_i free
    obtain ⟨taken,_,all⟩ := Best.foldl_consider f.rr[b] b f.requests.zipIdx Best.start
    rcases taken with same | ⟨r',inside,here,same⟩
    · rw [same] at served
      contradiction
    · rw [same] at served all
      obtain rfl := Option.some.inj served
      refine ⟨by simpa using free,List.mem_zipIdx_iff_getElem?.mp inside,here,fun p member bank => ?_⟩
      obtain ⟨i,atIndex⟩ := List.mem_iff_getElem?.mp member
      exact all (p,i) (List.mem_zipIdx_iff_getElem?.mpr atIndex) bank

/-- A free bank with a request serves one. -/
theorem best_of_request {f : Fabric} {b : Fin NB} (free : f.dmaOwned[b] = false) {p : Post}
    (asks : p ∈ f.requests) (here : p.bank = b) (urgency : 0 ≤ p.prio) : ∃ r, f.best b = some r := by
  obtain ⟨i,atIndex⟩ := List.mem_iff_getElem?.mp asks
  obtain ⟨taken,_,all⟩ := Best.foldl_consider f.rr[b] b f.requests.zipIdx Best.start
  rw [best,if_neg (by rw [free]; exact Bool.false_ne_true)]
  rcases taken with same | ⟨r,_,_,same⟩
  · have above := all (p,i) (List.mem_zipIdx_iff_getElem?.mpr atIndex) here
    rw [same] at above
    simp only [Best.start] at above
    omega
  · exact ⟨r,by rw [same]⟩

/-- Request `i` of the cycle, posted as `p`, is granted. -/
def GrantedAt (f : Fabric) (c : Cycle) (i : Nat) (p : Post) : Prop :=
  c.posts[i]? = some p ∧ (fabric.out f c)[i]? = some true

theorem grantedAt_iff {f : Fabric} {c : Cycle} (room : c.posts.length ≤ 64) {i : Nat} {p : Post} :
    GrantedAt f c i p ↔ c.posts[i]? = some p ∧
      (f.loaded c).best (place p) = some ({ p with bank := place p },i) := by
  refine and_congr_right fun posted => ?_
  have inside : i < c.posts.length := (List.getElem?_eq_some_iff.mp posted).1
  have atIndex : (f.loaded c).requests[i]? = some { p with bank := place p } := by
    simp [loaded_of_room f room,posted]
  have length : (f.loaded c).requests.length = c.posts.length := by simp [loaded_of_room f room]
  have out : (fabric.out f c)[i]? = some ((f.loaded c).granted i) := by
    simp [fabric,arbitrate,length,inside]
  rw [out,Option.some.injEq,granted,List.any_eq_true]
  constructor
  · rintro ⟨b,_,chosen⟩
    obtain ⟨r,served,rfl⟩ := Option.map_eq_some_iff.mp (beq_iff_eq.mp chosen)
    obtain ⟨_,same,here,_⟩ := best_eq_some served
    obtain ⟨q,_⟩ := r
    obtain rfl : { p with bank := place p } = q := Option.some.inj (atIndex.symm.trans same)
    obtain rfl : place p = b := Fin.ext here
    exact served
  · intro served
    exact ⟨place p,List.mem_finRange _,by simp [served]⟩

/-- The pointer goes right behind the token it served, and stays where nobody is served. -/
theorem next_rr (f : Fabric) (c : Cycle) (b : Fin NB) :
    (fabric.next f c).rr[b] = match (f.loaded c).best b with
      | some r => BitVec.ofNat 8 (r.1.tok + 1)
      | none => (f.loaded c).rr[b] := by
  simp [fabric,arbitrate]

def Asks (c : Cycle) (b : Fin NB) (t : Nat) : Prop := ∃ p ∈ c.posts, place p = b ∧ p.tok = t

def Grants (f : Fabric) (c : Cycle) (b : Fin NB) (t : Nat) : Prop :=
  ∃ i p, GrantedAt f c i p ∧ place p = b ∧ p.tok = t

/-- At most 64 posts, each of its own `(port << 4) | lane`, urgent or not. -/
structure Posted (c : Cycle) : Prop where
  room : c.posts.length ≤ 64
  distinct : (c.posts.map Post.tok).Nodup
  encoded : ∀ p ∈ c.posts, ∃ port lane, port < 18 ∧ lane < 16 ∧ p.tok = port <<< 4 ||| lane
  urgency : ∀ p ∈ c.posts, p.prio = 0 ∨ p.prio = 1

/-- One grant on a bank at most, none where a DMA beat is, and one of the highest priority
where a request meets a free bank. -/
structure Safe (f : Fabric) (c : Cycle) : Prop where
  one : ∀ i j p q, GrantedAt f c i p → GrantedAt f c j q → place p = place q → i = j
  owned : ∀ i p, GrantedAt f c i p → c.dmaMask[place p] = false
  served : ∀ p ∈ c.posts, c.dmaMask[place p] = false → ∃ i q, GrantedAt f c i q ∧
    place q = place p ∧ ∀ r ∈ c.posts, place r = place p → r.prio ≤ q.prio

def Level (c : Cycle) (b : Fin NB) : Prop :=
  ∀ p ∈ c.posts, ∀ q ∈ c.posts, place p = b → place q = b → p.prio = q.prio

/-- Over a run: every cycle is safe, and on a bank whose requests have equal priority
nobody is granted twice around one that asks throughout and is not granted in between. -/
structure Contract (f : Fabric) (cycles : List Cycle) : Prop where
  safe : fabric.Each (fun _ f c => Safe f c) f cycles
  fair : ∀ before first mid last after, cycles = before ++ first :: (mid ++ last :: after) →
    ∀ b s t, s ≠ t → (∀ c ∈ first :: (mid ++ [last]), Level c b ∧ Asks c b t) →
      Grants (fabric.exec f before) first b s →
      Grants (fabric.exec f (before ++ first :: mid)) last b s →
      ∃ front x back, mid = front ++ x :: back ∧
        Grants (fabric.exec f (before ++ first :: front)) x b t

theorem grants_iff {f : Fabric} {c : Cycle} (room : c.posts.length ≤ 64) {b : Fin NB} {t : Nat} :
    Grants f c b t ↔ ∃ r, (f.loaded c).best b = some r ∧ r.1.tok = t := by
  constructor
  · rintro ⟨i,p,grant,rfl,rfl⟩
    exact ⟨_,((grantedAt_iff room).mp grant).2,rfl⟩
  · rintro ⟨⟨q,i⟩,chosen,rfl⟩
    obtain ⟨_,posted,here,_⟩ := best_eq_some chosen
    simp only [loaded_of_room f room,List.getElem?_map,Option.map_eq_some_iff] at posted
    obtain ⟨p,posted,rfl⟩ := posted
    obtain rfl : place p = b := Fin.ext here
    exact ⟨i,p,(grantedAt_iff room).mpr ⟨posted,chosen⟩,rfl,rfl⟩

theorem safe_of_posted (f : Fabric) {c : Cycle} (posted : Posted c) : Safe f c := by
  refine ⟨fun i j p q first second same => ?_,fun i p grant => ?_,fun p asks free => ?_⟩
  · have first := ((grantedAt_iff posted.room).mp first).2
    have second := ((grantedAt_iff posted.room).mp second).2
    rw [same,second] at first
    exact (congrArg Prod.snd (Option.some.inj first)).symm
  · have free := (best_eq_some ((grantedAt_iff posted.room).mp grant).2).1
    simpa [loaded_of_room f posted.room] using free
  · have asked : { p with bank := place p } ∈ (f.loaded c).requests := by
      rw [loaded_of_room f posted.room]
      exact List.mem_map_of_mem asks
    have room : (f.loaded c).dmaOwned[place p] = false := by
      simpa [loaded_of_room f posted.room] using free
    obtain ⟨⟨q,i⟩,chosen⟩ := best_of_request room asked rfl (by
      rcases posted.urgency p asks with zero | one <;> simp only <;> omega)
    obtain ⟨_,atIndex,here,notWorse⟩ := best_eq_some chosen
    simp only [loaded_of_room f posted.room,List.getElem?_map,Option.map_eq_some_iff] at atIndex
    obtain ⟨q,posted',rfl⟩ := atIndex
    have same : place q = place p := Fin.ext here
    refine ⟨i,q,(grantedAt_iff posted.room).mpr ⟨posted',same ▸ chosen⟩,same,fun r member bank => ?_⟩
    have order := notWorse { r with bank := place r } (by
      rw [loaded_of_room f posted.room]
      exact List.mem_map_of_mem member) (congrArg Fin.val bank)
    simp only [NotWorse] at order
    omega

/-- On a free bank whose requests have equal priority the 8-bit distance tells them apart. -/
def Untied (c : Cycle) : Prop :=
  ∀ b : Fin NB, c.dmaMask[b] = false → Level c b → ∀ s t, Asks c b s → Asks c b t →
    s % 256 = t % 256 → s = t

theorem rank_behind (pointer : BitVec 8) (s t : Nat) :
    rank (BitVec.ofNat 8 (s + 1)) t = (rank pointer t + 255 - rank pointer s) % 256 := by
  have := pointer.isLt
  simp only [rank,BitVec.toNat_ofNat]
  omega

theorem rank_inj {pointer : BitVec 8} {s t : Nat} (same : rank pointer s = rank pointer t) :
    s % 256 = t % 256 := by
  have := pointer.isLt
  simp only [rank] at same
  omega

theorem rank_lt (pointer : BitVec 8) (t : Nat) : rank pointer t < 256 := Nat.mod_lt _ (by decide)

/-- Token `t` is nearer ahead of the pointer than `s`. -/
def Nearer (pointer : BitVec 8) (t s : Nat) : Prop := rank pointer t < rank pointer s

theorem nearer_behind {s t : Nat} (apart : s % 256 ≠ t % 256) :
    Nearer (BitVec.ofNat 8 (s + 1)) t s := by
  simp only [Nearer,rank,BitVec.toNat_ofNat]
  omega

theorem Nearer.behind {pointer : BitVec 8} {s t w : Nat} (nearer : Nearer pointer t s)
    (first : rank pointer w < rank pointer t) : Nearer (BitVec.ofNat 8 (w + 1)) t s := by
  have := rank_lt pointer s
  unfold Nearer at *
  rw [rank_behind pointer w t,rank_behind pointer w s]
  omega

/-- The token a bank serves was posted for it and is not farther ahead than any other of
the same priority. -/
theorem best_tok {f : Fabric} {c : Cycle} (room : c.posts.length ≤ 64) {b : Fin NB} {r : Post × Nat}
    (chosen : (f.loaded c).best b = some r) :
    c.dmaMask[b] = false ∧ Asks c b r.1.tok ∧ (Level c b → ∀ t, Asks c b t →
      rank f.rr[b] r.1.tok ≤ rank f.rr[b] t) := by
  obtain ⟨free,atIndex,here,notWorse⟩ := best_eq_some chosen
  simp only [loaded_of_room f room,List.getElem?_map,Option.map_eq_some_iff] at free atIndex notWorse
  obtain ⟨p,posted,same⟩ := atIndex
  have member := List.mem_of_getElem? posted
  rw [← same] at here notWorse ⊢
  refine ⟨free,⟨p,member,Fin.ext here,rfl⟩,?_⟩
  rintro level t ⟨q,asks,bank,rfl⟩
  have order := notWorse _ (List.mem_map_of_mem asks) (congrArg Fin.val bank)
  have equal := level p member q asks (Fin.ext here) bank
  rcases order with above | ⟨_,near⟩
  · exact absurd equal (Int.ne_of_gt above)
  · exact near

/-- One cycle: while `t` asks among equals and is nearer than `s`, `s` is not granted, and
unless `t` is, it stays nearer. -/
theorem nearer_step {f : Fabric} {c : Cycle} (room : c.posts.length ≤ 64) (untied : Untied c)
    {b : Fin NB} {s t : Nat} (level : Level c b) (asks : Asks c b t) (nearer : Nearer f.rr[b] t s) :
    ¬ Grants f c b s ∧ (¬ Grants f c b t → Nearer (fabric.next f c).rr[b] t s) := by
  rw [grants_iff room,grants_iff room,next_rr]
  cases chosen : (f.loaded c).best b with
  | none =>
    have kept : (f.loaded c).rr[b] = f.rr[b] := by simp [loaded_of_room f room]
    exact ⟨by simp,fun _ => by simp only [kept]; exact nearer⟩
  | some r =>
    obtain ⟨free,served,nearest⟩ := best_tok room chosen
    have first := nearest level t asks
    refine ⟨?_,fun unserved => ?_⟩
    · rintro ⟨_,same,rfl⟩
      obtain rfl := Option.some.inj same
      exact absurd first (Nat.not_le.mpr nearer)
    · have apart : rank f.rr[b] r.1.tok ≠ rank f.rr[b] t := fun same =>
        unserved ⟨r,rfl,untied b free level _ _ served asks (rank_inj same)⟩
      exact nearer.behind (Nat.lt_of_le_of_ne first apart)

theorem nearer_run {f : Fabric} {b : Fin NB} {s t : Nat} {mid : List Cycle} {last : Cycle}
    (nearer : Nearer f.rr[b] t s)
    (each : ∀ c ∈ mid ++ [last], c.posts.length ≤ 64 ∧ Untied c ∧ Level c b ∧ Asks c b t)
    (again : Grants (fabric.exec f mid) last b s) :
    ∃ front x back, mid = front ++ x :: back ∧ Grants (fabric.exec f front) x b t := by
  induction mid generalizing f with
  | nil =>
    obtain ⟨room,untied,level,asks⟩ := each last (by simp)
    exact absurd again (nearer_step room untied level asks nearer).1
  | cons x mid ih =>
    obtain ⟨room,untied,level,asks⟩ := each x (by simp)
    by_cases served : Grants f x b t
    · exact ⟨[],x,mid,rfl,served⟩
    · obtain ⟨front,y,back,rfl,granted⟩ :=
        ih ((nearer_step room untied level asks nearer).2 served)
          (fun c member => each c (List.mem_cons_of_mem x member)) again
      exact ⟨x :: front,y,back,rfl,granted⟩

/-- The fabric is safe in every run, and fair in every run without ties. -/
theorem arbitration_safe_fair (f : Fabric) (cycles : List Cycle)
    (posted : ∀ c ∈ cycles, Posted c) (untied : ∀ c ∈ cycles, Untied c) : Contract f cycles := by
  constructor
  · exact (Sync.Machine.Each.of_inputs posted).mono fun _ f c posted => safe_of_posted f posted
  · rintro before first mid last after rfl b s t different throughout granted again
    have each (c : Cycle) (member : c ∈ first :: (mid ++ [last])) :
        c.posts.length ≤ 64 ∧ Untied c ∧ Level c b ∧ Asks c b t := by
      have inside : c ∈ before ++ first :: (mid ++ last :: after) := by
        simp only [List.mem_cons,List.mem_append,List.not_mem_nil,or_false] at member ⊢
        tauto
      exact ⟨(posted c inside).room,untied c inside,throughout c member⟩
    obtain ⟨room,firstUntied,level,asks⟩ := each first List.mem_cons_self
    obtain ⟨r,chosen,rfl⟩ := (grants_iff room).mp granted
    obtain ⟨free,served,_⟩ := best_tok room chosen
    have nearer : Nearer (fabric.next (fabric.exec f before) first).rr[b] t r.1.tok := by
      rw [next_rr,chosen]
      exact nearer_behind fun same =>
        different (firstUntied b free level _ _ served asks same)
    rw [Sync.Machine.exec_append] at again
    obtain ⟨front,x,back,rfl,served⟩ := nearer_run nearer
      (fun c member => each c (List.mem_cons_of_mem first member)) again
    exact ⟨front,x,back,rfl,by rwa [Sync.Machine.exec_append]⟩

/-- The compact token ids never tie. -/
theorem untied_of_compact {c : Cycle} (compact : ∀ p ∈ c.posts, p.tok < 256) : Untied c := by
  rintro b _ _ s t ⟨p,posted,_,rfl⟩ ⟨q,asks,_,rfl⟩ same
  rwa [Nat.mod_eq_of_lt (compact p posted),Nat.mod_eq_of_lt (compact q asks)] at same

/-- Lane 0 of two ports meets on bank 0, at one priority. -/
def meeting (first second : Nat) : Cycle := ⟨0,[⟨0,first <<< 4,0⟩,⟨0,second <<< 4,0⟩]⟩

theorem meeting_posted (first second : Nat) (low : first < 18) (high : second < 18)
    (different : first ≠ second) : Posted (meeting first second) := by
  refine ⟨by simp [meeting],?_,?_,by simp [meeting]⟩
  · simp only [meeting,List.map_cons,List.map_nil,List.nodup_cons,List.mem_singleton,Nat.shiftLeft_eq]
    simp
    omega
  · intro p member
    simp only [meeting,List.mem_cons,List.not_mem_nil,or_false] at member
    rcases member with rfl | rfl
    · exact ⟨first,0,low,by decide,by simp⟩
    · exact ⟨second,0,high,by decide,by simp⟩

/-- R0 and R1 under their compact ids take turns on the bank. -/
theorem arbitration_safe_fair_compact :
    Contract reset [meeting 0 1,meeting 0 1] ∧
      fabric.outs reset [meeting 0 1,meeting 0 1] = [[true,false],[false,true]] :=
  ⟨arbitration_safe_fair reset _
    (by simpa using meeting_posted 0 1 (by decide) (by decide) (by decide))
    (by simpa using untied_of_compact (c := meeting 0 1) (by decide)),by decide +kernel⟩

/-- R0 and W2 under the port numbers of a SIMD pass: token 256 stands where token 0 does
on the ring, and the first in the list wins again and again. -/
theorem arbitration_ports_0_16 :
    ¬ ∀ cycles : List Cycle, (∀ c ∈ cycles, Posted c) → Contract reset cycles := by
  intro contract
  have fair := (contract [meeting 0 16,meeting 0 16]
    (by simpa using meeting_posted 0 16 (by decide) (by decide) (by decide))).fair [] _ [] _ [] rfl
    0 0 256 (by decide)
  have throughout : ∀ c ∈ [meeting 0 16,meeting 0 16], Level c 0 ∧ Asks c 0 256 := by
    intro c member
    obtain rfl : c = meeting 0 16 := by simpa using member
    refine ⟨fun p posted q asks _ _ => ?_,⟨0,256,0⟩,by decide,rfl,rfl⟩
    simp only [meeting,List.mem_cons,List.not_mem_nil,or_false] at posted asks
    rcases posted with rfl | rfl <;> rcases asks with rfl | rfl <;> rfl
  obtain ⟨front,_,_,split,_⟩ := fair throughout ⟨0,⟨0,0,0⟩,⟨rfl,by decide +kernel⟩,rfl,rfl⟩
    ⟨0,⟨0,0,0⟩,⟨rfl,by decide +kernel⟩,rfl,rfl⟩
  cases front <;> simp at split

end Fabric
end Snax
