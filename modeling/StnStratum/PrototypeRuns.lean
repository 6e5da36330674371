import StnStratum.Machine
import StnStratum.PrototypeJob
import Mathlib.Data.List.Nodup

/-!
# Runs of the session prototype

A session, the job objects of its caller and the functions behind it, over
whatever sequence of operations. What was handed to `chain->submit` since the
session began is kept in order (`PrototypeState.handed`), and the invariant is
that the session's history is the nonces of it (`PrototypeState.Recorded`). It
has no nonce twice, since a nonce is recorded before Chain is asked and looked
for before it is recorded.

The history has no job in it. The comment in the code gives its purpose as
that identical work cannot be retried, and work is identical if the job is the
same too: a nonce that was used up on one job is refused on the next one as
well. `duplicate_refusal` says when that does not happen.
-/

variable {σ : Type}

/-- **A session with what is around it.** -/
structure PrototypeState (σ : Type) where
  /-- The session. -/
  session : StratumSession
  /-- The job objects. -/
  jobs : ℕ → StratumJob
  /-- The state of the functions behind the session. -/
  user : σ
  /-- What was handed to `chain->submit`, in order. -/
  handed : List ChainSubmit

/-- **An operation on a session**, with the job object it is about and with
what the functions behind the session are at the time. -/
inductive PrototypeAction (σ : Type) where
  /-- `stn_stratum_subscribe`. -/
  | subscribe (version : UInt16)
  /-- `stn_stratum_register_identity`. -/
  | registerIdentity (minerIdentity : Buf stratumMinerIdentitySize)
  /-- `stn_stratum_job_set`. -/
  | jobSet (i : ℕ) (baseTip jobId target : Buf 32) (height : UInt64)
    (block : Bytes) (blockLength : ℕ)
  /-- `stn_stratum_job_refresh`. -/
  | jobRefresh (i : ℕ) (chain : Option (StratumChain σ)) (out : TemplateOut)
  /-- `stn_stratum_job_invalidate`. -/
  | jobInvalidate (i : ℕ)
  /-- `stn_stratum_submit`, of a job object or of none. -/
  | submit (i : Option ℕ) (nonce : UInt64) (chain : Option (StratumChain σ))
    (tip : Buf 32)

namespace PrototypeState

/-- A change of a job object. -/
def setJob (p : PrototypeState σ) (i : ℕ) (job : StratumJob) :
    PrototypeState σ :=
  { p with jobs := Function.update p.jobs i job }

/-- A submission in a state. -/
def submitted (p : PrototypeState σ) (i : Option ℕ) (nonce : UInt64)
    (chain : Option (StratumChain σ)) (tip : Buf 32) : Submitted σ :=
  p.session.submit (i.map p.jobs) nonce chain p.user tip

/-- The state an operation leads to. -/
def act (p : PrototypeState σ) : PrototypeAction σ → PrototypeState σ
  | .subscribe version =>
    { p with session := (p.session.subscribe version).2 }
  | .registerIdentity minerIdentity =>
    { p with session := (p.session.registerIdentity minerIdentity).2 }
  | .jobSet i baseTip jobId target height block blockLength =>
    p.setJob i ((p.jobs i).set baseTip jobId target height block blockLength).2
  | .jobRefresh i chain out =>
    let (_, job, user) := (p.jobs i).refresh chain p.user out
    { p.setJob i job with user := user }
  | .jobInvalidate i => p.setJob i (p.jobs i).invalidate
  | .submit i nonce chain tip =>
    let r := p.submitted i nonce chain tip
    { p with
      session := r.session
      user := r.user
      handed := p.handed ++ r.handed.toList }

/-- **The history is what was handed over.** -/
structure Recorded (p : PrototypeState σ) : Prop where
  /-- It is within its capacity. -/
  count : p.session.submittedCount ≤ stratumDuplicateCapacity
  /-- It is the nonces, in order. -/
  history : p.session.history = p.handed.map ChainSubmit.nonce
  /-- None is there twice. -/
  nodup : (p.handed.map ChainSubmit.nonce).Nodup

end PrototypeState

/-- **The machine of a session**: it begins with a session that is
initialised, whatever is in the job objects. -/
def prototype : Machine (PrototypeState σ) (PrototypeAction σ) where
  Start p := (∃ id, p.session = .init id) ∧ p.handed = []
  act := PrototypeState.act

namespace StratumSession

/-- A nonce that is recorded is the last of the history. -/
theorem history_record {s : StratumSession} (nonce : UInt64)
    (h : s.submittedCount < stratumDuplicateCapacity) :
    (s.record nonce).history = s.history ++ [nonce] := by
  have hlen : s.submittedCount < s.submitted.toList.length := by
    rw [Vector.length_toList]
    exact h
  show (s.submitted.setIfInBounds s.submittedCount nonce).toList.take
    (s.submittedCount + 1) = s.submitted.toList.take s.submittedCount ++ [nonce]
  rw [Vector.toList_setIfInBounds, List.take_add_one, List.take_set_of_le le_rfl,
    List.getElem?_set_self hlen, Option.toList_some]

end StratumSession

namespace PrototypeState

variable {p p' : PrototypeState σ}

/-! ## The invariant -/

/-- The history of a session that is initialised is empty. -/
theorem recorded_start (h : prototype.Start p) : Recorded p := by
  obtain ⟨⟨id, hs⟩, hh⟩ := h
  refine ⟨?_, ?_, ?_⟩
  · rw [hs]
    exact Nat.zero_le _
  · rw [hs, hh]
    rfl
  · rw [hh]
    exact List.nodup_nil

/-- The invariant is about the history and about what was handed over. -/
theorem Recorded.congr (h : Recorded p)
    (hcount : p'.session.submittedCount = p.session.submittedCount)
    (hhistory : p'.session.history = p.session.history)
    (hhanded : p'.handed = p.handed) : Recorded p' where
  count := by rw [hcount]; exact h.count
  history := by rw [hhistory, hhanded]; exact h.history
  nodup := by rw [hhanded]; exact h.nodup

/-- Subscribing leaves the history alone. -/
theorem subscribe_history (s : StratumSession) (version : UInt16) :
    (s.subscribe version).2.submittedCount = s.submittedCount
      ∧ (s.subscribe version).2.history = s.history := by
  unfold StratumSession.subscribe
  split <;> exact ⟨rfl, rfl⟩

/-- Registering leaves the history alone. -/
theorem registerIdentity_history (s : StratumSession)
    (minerIdentity : Buf stratumMinerIdentitySize) :
    (s.registerIdentity minerIdentity).2.submittedCount = s.submittedCount
      ∧ (s.registerIdentity minerIdentity).2.history = s.history := by
  unfold StratumSession.registerIdentity
  split <;> exact ⟨rfl, rfl⟩

/-- **A submission keeps the invariant**: it records exactly the nonce it hands
over, which is new. -/
theorem Recorded.submit (h : Recorded p) (i : Option ℕ) (nonce : UInt64)
    (chain : Option (StratumChain σ)) (tip : Buf 32) :
    Recorded (p.act (.submit i nonce chain tip)) := by
  obtain hr | ⟨j, answer, hr⟩ :=
    p.session.submit_cases (i.map p.jobs) nonce chain p.user tip
  · have hs : (p.submitted i nonce chain tip).session = p.session := hr.session
    have hh : (p.submitted i nonce chain tip).handed = none := hr.handed
    refine h.congr (congrArg StratumSession.submittedCount hs)
      (congrArg StratumSession.history hs) ?_
    show p.handed ++ (p.submitted i nonce chain tip).handed.toList = p.handed
    rw [hh, Option.toList_none, List.append_nil]
  · have hs : (p.submitted i nonce chain tip).session
        = p.session.record nonce := hr.session
    have hh : (p.submitted i nonce chain tip).handed = some _ := hr.handed
    have hlt : p.session.submittedCount < stratumDuplicateCapacity :=
      lt_of_le_of_ne h.count hr.room
    have hmap : (p.act (.submit i nonce chain tip)).handed.map
        ChainSubmit.nonce = p.session.history ++ [nonce] := by
      show (p.handed ++ (p.submitted i nonce chain tip).handed.toList).map
        ChainSubmit.nonce = _
      rw [hh, List.map_append, ← h.history]
      rfl
    refine ⟨?_, ?_, ?_⟩
    · show (p.submitted i nonce chain tip).session.submittedCount ≤ _
      rw [hs]
      exact hlt
    · rw [hmap]
      show (p.submitted i nonce chain tip).session.history = _
      rw [hs]
      exact StratumSession.history_record nonce hlt
    · rw [hmap]
      refine List.Nodup.append (h.history ▸ h.nodup) (List.nodup_singleton _) ?_
      rw [List.disjoint_singleton]
      exact hr.fresh

/-- **Every operation keeps the invariant.** -/
theorem Recorded.act (h : Recorded p) (a : PrototypeAction σ) :
    Recorded (p.act a) := by
  cases a with
  | subscribe version =>
    obtain ⟨hc, hh⟩ := subscribe_history p.session version
    exact h.congr hc hh rfl
  | registerIdentity minerIdentity =>
    obtain ⟨hc, hh⟩ := registerIdentity_history p.session minerIdentity
    exact h.congr hc hh rfl
  | jobSet i baseTip jobId target height block blockLength =>
    exact h.congr rfl rfl rfl
  | jobRefresh i chain out => exact h.congr rfl rfl rfl
  | jobInvalidate i => exact h.congr rfl rfl rfl
  | submit i nonce chain tip => exact h.submit i nonce chain tip

/-- **The invariant holds in every reachable state.** -/
theorem recorded_of_reachable (h : prototype.Reachable p) : Recorded p :=
  h.invariant (fun _ hs => recorded_start hs) fun _ a _ hr => hr.act a

/-! ## What a submission may do -/

/-- **The rule of a submission** in a state. -/
structure SubmitRule (p : PrototypeState σ) (i : Option ℕ) (nonce : UInt64)
    (chain : Option (StratumChain σ)) (tip : Buf 32) : Prop where
  /-- What is handed to Chain is the nonce with a job that is current. -/
  handed : ∀ x, (p.submitted i nonce chain tip).handed = some x →
    ∃ j, StratumSession.Current p.session (i.map p.jobs) chain p.user tip j
      ∧ x = ⟨j.baseTip, j.id, j.block, j.blockLength, p.session.minerIdentity,
        nonce, x.answer⟩
  /-- Where nothing is, the status is one of the refusals and the session stays
  as it is. -/
  refused : (p.submitted i nonce chain tip).handed = none →
    (p.submitted i nonce chain tip).status ∈ StratumSession.refusals
      ∧ (p.submitted i nonce chain tip).session = p.session
  /-- It succeeds only if Chain says so. -/
  ok : (p.submitted i nonce chain tip).status = .ok →
    ∃ x, (p.submitted i nonce chain tip).handed = some x ∧ x.answer = .ok

/-- **Every submission follows the rule.** -/
theorem submitRule (p : PrototypeState σ) (i : Option ℕ) (nonce : UInt64)
    (chain : Option (StratumChain σ)) (tip : Buf 32) :
    SubmitRule p i nonce chain tip := by
  obtain hr | ⟨j, answer, hr⟩ :=
    p.session.submit_cases (i.map p.jobs) nonce chain p.user tip
  · have hh : (p.submitted i nonce chain tip).handed = none := hr.handed
    refine ⟨fun x hx => ?_, fun _ => ⟨hr.status, hr.session⟩, fun hok => ?_⟩
    · rw [hh] at hx
      cases hx
    · have hmem : (p.submitted i nonce chain tip).status
          ∈ StratumSession.refusals := hr.status
      rw [hok] at hmem
      exact absurd hmem (by decide)
  · have hh : (p.submitted i nonce chain tip).handed = some _ := hr.handed
    refine ⟨fun x hx => ⟨j, hr.current, ?_⟩, fun hnone => ?_, fun hok =>
      ⟨_, hh, ?_⟩⟩
    · obtain rfl := Option.some.inj (hh.symm.trans hx)
      rfl
    · rw [hh] at hnone
      cases hnone
    · have hstatus := hr.status.symm.trans hok
      split at hstatus
      · exact hstatus
      · cases hstatus

end PrototypeState

open PrototypeState

/-- **Whatever is done to a session**, its history is within its capacity, it
is the nonces handed to Chain since the session began, in order, and no nonce
is among them twice. A submission is handed to Chain only where the job is
current; where it is not handed over the session stays as it is; and it
succeeds only if Chain says so. -/
theorem session_submissions {p : PrototypeState σ}
    (h : prototype.Reachable p) :
    Recorded p ∧ ∀ i nonce chain tip, SubmitRule p i nonce chain tip :=
  ⟨recorded_of_reachable h, p.submitRule⟩

/-- A session that begins. -/
def beginning : PrototypeState Unit where
  session := .init 0
  jobs _ := ⟨Buf.zero _, Buf.zero _, Buf.zero _, Buf.zero _, 0, 0, false⟩
  user := ()
  handed := []

/-- A Chain of which the tip is zero, and which rejects what it is given. -/
def rejecting : StratumChain Unit where
  tip := some fun user _ => (.ok, Buf.zero _, user)
  templateGet := none
  submit := some fun user _ _ _ _ _ _ => (.rejected, user)

/-- A job on that tip, with a work ID. -/
def jobWithId (x : UInt8) : PrototypeAction Unit :=
  .jobSet 0 (Buf.zero _) ((Buf.zero _).write 0 [x]) (Buf.zero _) 0
    (List.replicate 168 0) 168

/-- The nonce seven, submitted for the job. -/
def submitSeven : PrototypeAction Unit :=
  .submit (some 0) 7 (some rejecting) (Buf.zero _)

/-- A miner that registers and submits the nonce for a job, and then gets
another job. -/
def twoJobs : List (PrototypeAction Unit) :=
  [.subscribe 1, .registerIdentity ((Buf.zero _).write 0 addressPrefix),
    jobWithId 1, submitSeven, jobWithId 2]

/-- Behind that run the history is the nonce that was handed over. -/
theorem session_submissions_twoJobs :
    (prototype.run beginning twoJobs).session.history = [7] := by
  have hreach : prototype.Reachable (prototype.run beginning twoJobs) :=
    ⟨beginning, twoJobs, ⟨⟨0, rfl⟩, rfl⟩, rfl⟩
  refine (session_submissions hreach).1.history.trans ?_
  decide

/-! ## Duplicates -/

namespace PrototypeState

/-- **A refusal as a duplicate is about identical work**: the session has
handed over the same nonce for a job with the same work ID before. -/
def Justified (p : PrototypeState σ) : PrototypeAction σ → Prop
  | .submit i nonce chain tip =>
    (p.submitted i nonce chain tip).status = .duplicate →
      ∃ j, i.map p.jobs = some j
        ∧ ∃ x ∈ p.handed, x.nonce = nonce ∧ x.jobId = j.id
  | _ => True

/-- **A nonce stays with its job**: where the job is current, a nonce of which
the session has handed one over before was handed over for a job with the same
work ID. -/
def StaysWithJob (p : PrototypeState σ) : PrototypeAction σ → Prop
  | .submit i nonce chain tip => ∀ j,
    StratumSession.Current p.session (i.map p.jobs) chain p.user tip j →
      ∀ x ∈ p.handed, x.nonce = nonce → x.jobId = j.id
  | _ => True

/-- **When a submission is refused as a duplicate**: the job is current, and
the nonce was handed over before, for whatever job. -/
theorem submitted_duplicate_iff (h : Recorded p) (i : Option ℕ)
    (nonce : UInt64) (chain : Option (StratumChain σ)) (tip : Buf 32) :
    (p.submitted i nonce chain tip).status = .duplicate
      ↔ (∃ j, StratumSession.Current p.session (i.map p.jobs) chain p.user tip j)
        ∧ ∃ x ∈ p.handed, x.nonce = nonce := by
  have hmem : nonce ∈ p.session.history ↔ ∃ x ∈ p.handed, x.nonce = nonce := by
    rw [h.history, List.mem_map]
  rw [← hmem]
  obtain hr | ⟨j, answer, hr⟩ :=
    p.session.submit_cases (i.map p.jobs) nonce chain p.user tip
  · exact hr.duplicate
  · refine iff_of_false (fun hdup => ?_) fun hc => hr.fresh hc.2
    have hstatus := hr.status.symm.trans hdup
    split at hstatus
    next hans =>
      rw [hstatus] at hans
      exact absurd hans (by decide)
    next => cases hstatus

/-- **One operation**: a refusal is justified exactly if the nonce stays with
its job. -/
theorem justified_iff (h : Recorded p) (a : PrototypeAction σ) :
    Justified p a ↔ StaysWithJob p a := by
  cases a with
  | submit i nonce chain tip =>
    have hdup := submitted_duplicate_iff h i nonce chain tip
    constructor
    · intro hj j hc x hx hnonce
      obtain ⟨j', hj', y, hy, hynonce, hyid⟩ :=
        hj (hdup.mpr ⟨⟨j, hc⟩, x, hx, hnonce⟩)
      -- the nonce is there once, so it was handed over for this very job
      have hxy : x = y := List.inj_on_of_nodup_map h.nodup hx hy
        (hnonce.trans hynonce.symm)
      obtain rfl := Option.some.inj (hc.job.symm.trans hj')
      rw [hxy]
      exact hyid
    · intro hs hstatus
      obtain ⟨⟨j, hc⟩, x, hx, hnonce⟩ := hdup.mp hstatus
      exact ⟨j, hc.job, x, hx, hnonce, hs j hc x hx hnonce⟩
  | _ => exact Iff.rfl

end PrototypeState

/-- **When every refusal as a duplicate is about identical work**: along a run,
exactly if every nonce that is submitted again for a job that is current was
handed over for a job with the same work ID. -/
theorem duplicate_refusal {p : PrototypeState σ} (h : prototype.Start p)
    (as : List (PrototypeAction σ)) :
    (∀ bs a cs, as = bs ++ a :: cs → Justified (prototype.run p bs) a)
      ↔ ∀ bs a cs, as = bs ++ a :: cs →
        StaysWithJob (prototype.run p bs) a := by
  have hstep : ∀ bs a, Justified (prototype.run p bs) a
      ↔ StaysWithJob (prototype.run p bs) a := fun bs a =>
    justified_iff (recorded_of_reachable ⟨p, bs, h, rfl⟩) a
  exact ⟨fun hj bs a cs hsplit => (hstep bs a).mp (hj bs a cs hsplit),
    fun hs bs a cs hsplit => (hstep bs a).mpr (hs bs a cs hsplit)⟩

/-- The nonce is refused for the second job, for which none was handed over. -/
theorem not_justified_twoJobs :
    ¬ Justified (prototype.run beginning twoJobs) submitSeven := by
  intro hj
  obtain ⟨j, hjob, x, hx, _, hid⟩ := hj (by decide)
  obtain rfl := Option.some.inj hjob
  have hne : ∀ x ∈ (prototype.run beginning twoJobs).handed,
      x.jobId ≠ ((prototype.run beginning twoJobs).jobs 0).id := by decide
  exact hne x hx hid

/-- **A nonce that is not a duplicate is refused as one.** -/
theorem not_duplicate_refusal_twoJobs :
    ¬ ∀ bs a cs, twoJobs ++ [submitSeven] = bs ++ a :: cs →
      Justified (prototype.run beginning bs) a :=
  fun h => not_justified_twoJobs (h twoJobs submitSeven [] rfl)

/-- A miner that submits the nonce twice for a job. -/
def sameJob : List (PrototypeAction Unit) :=
  [.subscribe 1, .registerIdentity ((Buf.zero _).write 0 addressPrefix),
    jobWithId 1, submitSeven, submitSeven]

/-- The nonce stays with its job there. -/
theorem staysWithJob_sameJob (bs : List (PrototypeAction Unit))
    (a : PrototypeAction Unit) (cs : List (PrototypeAction Unit))
    (hsplit : sameJob = bs ++ a :: cs) :
    StaysWithJob (prototype.run beginning bs) a := by
  have hbs : bs = sameJob.take bs.length := by rw [hsplit, List.take_left]
  have ha : sameJob[bs.length]? = some a := by
    rw [hsplit, List.getElem?_append_right le_rfl, Nat.sub_self]
    rfl
  rw [hbs]
  generalize bs.length = n at ha
  match n, ha with
  | 0, ha => exact Option.some.inj ha ▸ trivial
  | 1, ha => exact Option.some.inj ha ▸ trivial
  | 2, ha => exact Option.some.inj ha ▸ trivial
  | 3, ha =>
    obtain rfl := Option.some.inj ha
    exact fun _ _ x hx => absurd hx List.not_mem_nil
  | 4, ha =>
    obtain rfl := Option.some.inj ha
    intro j hc x hx _
    obtain rfl := Option.some.inj hc.job
    have hid : ∀ x ∈ (prototype.run beginning (sameJob.take 4)).handed, x.jobId
        = ((prototype.run beginning (sameJob.take 4)).jobs 0).id := by decide
    exact hid x hx
  | n + 5, ha => cases ha

/-- **In one run a nonce stays with its job** and is refused the second time, as
it should be; in the other it does not. -/
theorem duplicate_refusal_twoRuns :
    ((∀ bs a cs, sameJob = bs ++ a :: cs →
          Justified (prototype.run beginning bs) a)
        ∧ ((prototype.run beginning (sameJob.take 4)).submitted (some 0) 7
          (some rejecting) (Buf.zero _)).status = .duplicate)
      ∧ ¬ ∀ bs a cs, twoJobs ++ [submitSeven] = bs ++ a :: cs →
        StaysWithJob (prototype.run beginning bs) a := by
  have hstart : prototype.Start beginning := ⟨⟨0, rfl⟩, rfl⟩
  refine ⟨⟨?_, by decide⟩, fun h => ?_⟩
  · exact (duplicate_refusal hstart sameJob).mpr staysWithJob_sameJob
  · exact not_justified_twoJobs ((duplicate_refusal hstart
      (twoJobs ++ [submitSeven])).mpr h twoJobs submitSeven [] rfl)
