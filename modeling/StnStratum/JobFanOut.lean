import StnStratum.FanOut
import StnStratum.Isolation
import StnStratum.SessionInvariant

/-!
# Every miner has the job

The server is a fan-out (`FanOut`): of the work it has, to the miners that
have given their address. `World.fanOut` reads the fan-out of a connection off
the server, its sessions and the trace, and `step_turns` says that whatever
the server does next is a step of it, for every connection. A job can be sent
in three places: to a miner that gives its address, to everybody when a
template is taken, and to whoever does not have it at the end of a pass. The
last of them never finds anybody.
-/

variable {τ : Type}

/-! ## JOBs on the trace -/

/-- The JOB of a connection, if the event is one: its header and its block. -/
def Event.job? (c : ConnId) : Event → Option (Bytes × Bytes)
  | .job d header block => if d = c then some (header, block) else none
  | _ => none

/-- **The JOBs sent to a connection.** -/
def jobsOf (c : ConnId) (es : List Event) : List (Bytes × Bytes) :=
  es.filterMap (Event.job? c)

/-- The work ID that a JOB is for. -/
def jobIdOf (job : Bytes × Bytes) : Bytes := slice job.1 8 32

theorem jobsOf_append (c : ConnId) (es fs : List Event) :
    jobsOf c (es ++ fs) = jobsOf c es ++ jobsOf c fs :=
  List.filterMap_append

theorem mem_jobsOf {c : ConnId} {es : List Event} {header block : Bytes} :
    (header, block) ∈ jobsOf c es ↔ .job c header block ∈ es := by
  unfold jobsOf
  rw [List.mem_filterMap]
  constructor
  · rintro ⟨e, he, h⟩
    unfold Event.job? at h
    split at h
    · split at h
      next hd =>
        obtain ⟨rfl, rfl⟩ := Prod.mk.inj (Option.some.inj h)
        exact hd ▸ he
      next => cases h
    · cases h
  · exact fun h => ⟨_, h, if_pos rfl⟩

/-- What is about others is no JOB for a connection. -/
theorem jobsOf_eq_nil {c : ConnId} {es : List Event}
    (h : ∀ e ∈ es, e.client? ≠ some c) : jobsOf c es = [] := by
  refine List.filterMap_eq_nil_iff.mpr fun e he => ?_
  unfold Event.job?
  split
  · exact if_neg fun hd => h _ he (congrArg some hd)
  · rfl

/-- The header of a JOB names the work ID of its template. -/
theorem jobIdOf_headerBytes {t : Bytes} (h : 64 ≤ t.length) (n : ℕ)
    (block : Bytes) :
    jobIdOf (MinerJob.headerBytes t n, block) = slice t 32 32 :=
  MinerJob.workId_headerBytes n h

/-! ## The fan-out of a connection -/

/-- Where a session stands. -/
def ClientSession.standing (s : ClientSession) : FanOut.Worker Bytes :=
  if s.addressRegistered = false then .new
  else if s.hasJob = false then .ready
  else .holds s.sentJobId.bytes

/-- **Whom `send_pending_jobs` looks for**: a session with an address, without
a job or with another. -/
def ClientSession.Pending (s : ClientSession) (jobId : Buf 32) : Prop :=
  s.addressRegistered = true ∧ (s.hasJob = false ∨ s.sentJobId ≠ jobId)

theorem ClientSession.Pending.standing {s : ClientSession} {jobId : Buf 32}
    (h : s.Pending jobId) : s.standing = .ready
      ∨ ∃ i, i ≠ jobId.bytes ∧ s.standing = .holds i := by
  unfold ClientSession.standing
  rw [if_neg (by rw [h.1]; exact Bool.noConfusion)]
  split
  · exact .inl rfl
  next hjob =>
    exact .inr ⟨_, fun hid => (h.2.resolve_left hjob) (Buf.ext hid), rfl⟩

theorem ClientSession.standing_of_not_pending {s : ClientSession}
    {jobId : Buf 32} (h : ¬ s.Pending jobId) :
    s.standing = .new ∨ s.standing = .holds jobId.bytes := by
  unfold ClientSession.standing
  split
  · exact .inl rfl
  next hreg =>
  have hhas : ¬ (s.hasJob = false ∨ s.sentJobId ≠ jobId) :=
    fun hp => h ⟨Bool.eq_true_of_not_eq_false hreg, hp⟩
  rw [not_or, not_not] at hhas
  rw [if_neg hhas.1, hhas.2]
  exact .inr rfl

namespace World

/-- **Where the miner behind a connection stands.** Numbers of connections are
given out once. -/
def worker (w : World τ) (c : ConnId) : FanOut.Worker Bytes :=
  match w.client? c with
  | some s => s.standing
  | none => if c < w.nextConn then .gone else .absent

/-- **The fan-out that a connection sees.** -/
def fanOut (w : World τ) (c : ConnId) : FanOut.State Bytes where
  work := if w.server.work.haveWork then some w.server.work.jobId.bytes
    else none
  worker := w.worker c
  sent := (jobsOf c w.trace).map jobIdOf

section FanOut

variable {P : Platform} {T : ChainTransport τ} {c d : ConnId}
  {w w' : World τ} {s : ClientSession} {on : Prop}

/-- What the fan-out depends on. -/
theorem fanOut_congr (hw : w'.server.work = w.server.work)
    (hc : (w'.client? c).map ClientSession.standing
      = (w.client? c).map ClientSession.standing)
    (hn : w'.nextConn = w.nextConn)
    (ht : jobsOf c w'.trace = jobsOf c w.trace) :
    w'.fanOut c = w.fanOut c := by
  unfold fanOut worker
  rw [hw, hn, ht]
  congr 1
  cases h : w.client? c with
  | none =>
    rw [h, Option.map_none, Option.map_eq_none_iff] at hc
    rw [hc]
  | some s =>
    rw [h, Option.map_some] at hc
    obtain ⟨s', hs', he⟩ := Option.map_eq_some_iff.mp hc
    rw [hs']
    exact he

/-- The fan-out of a server that has work. -/
theorem fanOut_of_work (h : w.server.work.haveWork = true) :
    w.fanOut c = ⟨some w.server.work.jobId.bytes, w.worker c,
      (w.fanOut c).sent⟩ := by
  unfold fanOut
  rw [if_pos h]

/-- That of a server that has none. -/
theorem fanOut_of_noWork (h : ¬ w.server.work.haveWork = true) :
    w.fanOut c = ⟨none, w.worker c, (w.fanOut c).sent⟩ := by
  unfold fanOut
  rw [if_neg h]

theorem fanOut_emit {e : Event} (he : e.job? c = none) :
    (w.emit e).fanOut c = w.fanOut c := by
  refine fanOut_congr rfl rfl rfl ?_
  show (w.trace ++ [e]).filterMap _ = _
  rw [List.filterMap_append, List.filterMap_cons, he]
  exact List.append_nil _

/-- A store that leaves the session where it stands. -/
theorem fanOut_setClient {f : ClientSession → ClientSession}
    (hf : ∀ s, (f s).socket = s.socket)
    (hs : c = d → ∀ s, w.client? c = some s → (f s).standing = s.standing) :
    (w.setClient d f).fanOut c = w.fanOut c := by
  refine fanOut_congr rfl ?_ rfl rfl
  rw [client?_setClient hf]
  split
  next hd =>
    subst hd
    cases h : w.client? c with
    | none => rfl
    | some s => exact congrArg some (hs rfl s h)
  · rfl

/-- The fan-out of a connection without a session. -/
theorem worker_of_none (h : w.client? c = none) :
    w.worker c = if c < w.nextConn then .gone else .absent := by
  unfold worker
  rw [h]

theorem worker_of_some (h : w.client? c = some s) :
    w.worker c = s.standing := by
  unfold worker
  rw [h]

/-- A session never stands for nobody. -/
theorem worker_ne_absent (h : w.client? c = some s) :
    w.worker c ≠ .absent := by
  rw [worker_of_some h]
  unfold ClientSession.standing
  split_ifs <;> exact nofun

/-- **What others do with their own sessions** is nothing to a connection. -/
theorem fanOut_of_own {es : List Event} (hd : c ≠ d) (ho : Own d w w')
    (ha : Acts d w w' es) : w'.fanOut c = w.fanOut c := by
  have hc := ho.client? hd
  refine fanOut_congr ho.work (by rw [hc]) ha.nextConn ?_
  rw [ha.trace, jobsOf_append, jobsOf_eq_nil (ha.not_about hd),
    List.append_nil]

/-- **The number of a session has been given out.** -/
def Known (c : ConnId) (w : World τ) : Prop :=
  w.client? c ≠ none → c < w.nextConn

/-- Nobody has come or gone. -/
theorem Known.congr (h : Known c w) (hn : w'.nextConn = w.nextConn)
    (hc : w'.client? c = none ↔ w.client? c = none) : Known c w' :=
  fun hne => hn ▸ h (mt hc.mpr hne)

/-- Removing a session is not about anybody's job. -/
theorem jobsOf_clientRemove (w : World τ) (c d : ConnId) (reason : Removal) :
    jobsOf c (w.clientRemove d reason).trace = jobsOf c w.trace := by
  unfold clientRemove
  split
  · exact (jobsOf_append c _ _).trans (List.append_nil _)
  · rfl

theorem nextConn_clientRemove (w : World τ) (d : ConnId) (reason : Removal) :
    (w.clientRemove d reason).nextConn = w.nextConn := by
  unfold clientRemove
  split <;> rfl

/-- **Whose session is removed has left.** -/
theorem fanOut_clientRemove (hs : w.client? c = some s) (hk : Known c w)
    (reason : Removal) : (w.clientRemove c reason).fanOut c
      = { w.fanOut c with worker := .gone } := by
  have hc := client?_clientRemove w c reason c
  rw [if_pos rfl] at hc
  unfold fanOut
  rw [worker_of_none hc, nextConn_clientRemove, jobsOf_clientRemove,
    work_clientRemove, if_pos (hk (by rw [hs]; exact nofun))]

theorem leave_clientRemove (hk : Known c w) (reason : Removal) :
    FanOut.Leave (w.fanOut c) ((w.clientRemove d reason).fanOut c) := by
  by_cases hd : c = d
  · subst hd
    cases hs : w.client? c with
    | none =>
      rw [clientRemove_of_none w c reason hs]
      exact .stay
    | some s =>
      rw [fanOut_clientRemove hs hk]
      exact .go (worker_ne_absent hs)
  · have hc := client?_clientRemove w d reason c
    rw [if_neg hd] at hc
    rw [fanOut_congr (work_clientRemove ..) (by rw [hc])
      (nextConn_clientRemove ..) (jobsOf_clientRemove ..)]
    exact .stay

theorem leave_clientSendResult (hk : Known c w) (code : RpcCode) :
    FanOut.Leave (w.fanOut c) ((w.clientSendResult P d code).fanOut c) := by
  unfold clientSendResult
  dsimp only
  generalize hw : (w.emit (.result d (submitResultCode code))).send P d
    (resultFrame (submitResultCode code)).bytes = w₁
  have he : w₁.fanOut c = w.fanOut c := by
    rw [← hw]
    exact fanOut_emit (w := w) (e := .result d (submitResultCode code)) rfl
  have hk₁ : Known c w₁ := by
    rw [← hw]
    exact hk
  rw [← he]
  split
  · exact leave_clientRemove hk₁ _
  · exact .stay

theorem leave_stopped (hk : Known c w) (status : RecvStatus) :
    FanOut.Leave (w.fanOut c) ((w.stopped d status).fanOut c) := by
  unfold stopped
  split
  · exact leave_clientRemove hk _
  · exact leave_clientRemove hk _
  · exact .stay

/-- **A change of the server** keeps the fan-out, or the job is withdrawn. -/
theorem fanOut_setServer {f : StratumServer τ → StratumServer τ}
    (h : StratumServer.KeepsJobs w.server (f w.server)) :
    (w.setServer f).fanOut c = w.fanOut c
      ∨ (w.setServer f).fanOut c = (w.fanOut c).clear := by
  rcases h.2 with ⟨hw, hc⟩ | ⟨hw, hc⟩
  · refine .inl (fanOut_congr hw ?_ rfl rfl)
    unfold client?
    rw [show (w.setServer f).server.clients = _ from hc]
  · have hfind : (w.setServer f).client? c
        = (w.client? c).map ClientSession.clearJob := by
      unfold client?
      rw [show (w.setServer f).server.clients = _ from hc]
      exact find?_map_socket (f := ClientSession.clearJob) _ (fun _ => rfl) c
    have hworker : (w.setServer f).worker c = (w.worker c).clear := by
      cases hs : w.client? c with
      | none =>
        rw [hs] at hfind
        rw [worker_of_none hfind, worker_of_none hs]
        show (if c < w.nextConn then _ else _) = _
        split <;> rfl
      | some s =>
        rw [hs] at hfind
        rw [worker_of_some hfind, worker_of_some hs]
        unfold ClientSession.standing ClientSession.clearJob
        dsimp only
        cases s.addressRegistered
        · rfl
        · cases s.hasJob <;> rfl
    refine .inr ?_
    unfold fanOut
    rw [hworker, show (w.setServer f).server.work.haveWork = false from
      hw.haveWork]
    rfl

/-! ### Submissions -/

/-- A call is not about anybody's job. -/
theorem fanOut_called {capacity : ℕ} (r : Rpc.Call τ capacity) :
    (w.called r).fanOut c = w.fanOut c := by
  refine fanOut_congr rfl rfl rfl ?_
  show jobsOf c (w.trace ++ _) = _
  rw [jobsOf_append]
  cases r.exchanged <;> exact List.append_nil _

/-- **A submission** sends no job. The miner may leave, and the job may be
withdrawn. -/
theorem step_processSubmission (hk : Known c w) :
    FanOut.Step on (w.fanOut c) ((w.processSubmission P T d).fanOut c) := by
  unfold processSubmission
  split
  · exact .idle _
  split
  · exact (leave_clientRemove hk _).step
  · exact (leave_clientSendResult hk _).step
  · unfold submitShare
    dsimp only
    generalize Rpc.callSubmitShare T w.server.chainTransport
      w.server.chainRpc _ _ _ = r
    have hl := leave_clientSendResult (P := P) (d := d)
      (w := w.called r) (hk.congr rfl Iff.rfl) r.code
    rw [fanOut_called] at hl
    split
    · exact hl.step_clear (fanOut_setServer (StratumServer.keepsJobs_clearWork _))
    · exact hl.step
  · unfold submitWork
    dsimp only
    split
    · have hk₁ : Known c { w with heap := (w.heap.malloc
          (w.server.work.templateLength + Miner.addressLength)).2 } := hk
      exact (leave_clientSendResult hk₁ _).step
    · generalize Rpc.callSubmitWork T w.server.chainTransport
        w.server.chainRpc _ _ _ = r
      have hl := leave_clientSendResult (P := P) (d := d)
        (w := w.called r) (hk.congr rfl Iff.rfl) r.code
      rw [fanOut_called] at hl
      exact hl.step_clear (fanOut_setServer
        (StratumServer.keepsJobs_afterWork P T _ _))

/-! ### Sending a job -/

/-- **What sending the job comes to**, where there is work that a header can
be built for: the JOB is on the trace, and the session has been sent it or is
removed. -/
theorem clientSendJob_cases (P : Platform) (w : World τ) (d : ConnId)
    (hwork : w.server.work.haveWork = true)
    (hi : w.server.work.IsInstalled) :
    ∃ header peers, header = MinerJob.headerBytes w.server.work.template.bytes
          w.server.work.templateLength
      ∧ (w.clientSendJob P d = { w.emit (.job d header
            (slice w.server.work.template.bytes 68
              (w.server.work.templateLength - 68))) with
            peers := peers }.clientRemove d .jobSendFailed
        ∨ w.clientSendJob P d = { w.emit (.job d header
            (slice w.server.work.template.bytes 68
              (w.server.work.templateLength - 68))) with
            peers := peers }.setClient d fun s => { s with
              sentJobId := w.server.work.jobId
              hasJob := true }) := by
  have hsome := (minerJobBuild_isSome_iff w.server.work.template.bytes
    w.server.work.templateLength).mpr ⟨hi.length.1, by
      have := hi.length.2
      have : Rpc.maxPayload ≤ 2 ^ 32 := by decide
      omega⟩
  obtain ⟨⟨header, blockLength⟩, hb⟩ := Option.isSome_iff_exists.mp hsome
  obtain ⟨_, rfl, hh⟩ := minerJobBuild_eq_some (by
    rw [w.server.work.template.size]
    exact w.server.work.fits) hb
  unfold clientSendJob
  rw [if_neg (by rw [hwork]; exact Bool.noConfusion), hb]
  dsimp only
  rw [hh]
  split
  · exact ⟨_, _, rfl, .inl rfl⟩
  split
  · exact ⟨_, _, rfl, .inl rfl⟩
  · exact ⟨_, _, rfl, .inr rfl⟩

/-- **Who is sent the job has it, or leaves.** -/
theorem fanOut_clientSendJob (hs : w.client? c = some s)
    (hreg : s.addressRegistered = true) (hk : Known c w)
    (hwork : w.server.work.haveWork = true)
    (hi : w.server.work.IsInstalled) :
    ∃ m, (m = .holds w.server.work.jobId.bytes ∨ m = .gone)
      ∧ (w.clientSendJob P c).fanOut c = ⟨some w.server.work.jobId.bytes, m,
        (w.fanOut c).sent ++ [w.server.work.jobId.bytes]⟩ := by
  obtain ⟨header, peers, hh, he⟩ := clientSendJob_cases P w c hwork hi
  generalize slice w.server.work.template.bytes 68
    (w.server.work.templateLength - 68) = block at he
  have hid : jobIdOf (header, block) = w.server.work.jobId.bytes := by
    rw [hh, jobIdOf_headerBytes (by rw [w.server.work.template.size]; decide),
      hi.jobId]
  generalize hw₁ : ({ w.emit (.job c header block) with peers := peers } :
    World τ) = w₁ at he
  have hs₁ : w₁.client? c = some s := by rw [← hw₁]; exact hs
  have hk₁ : Known c w₁ := by rw [← hw₁]; exact hk
  have hwork₁ : w₁.server.work = w.server.work := by rw [← hw₁]; rfl
  have hsent : (jobsOf c w₁.trace).map jobIdOf
      = (w.fanOut c).sent ++ [w.server.work.jobId.bytes] := by
    rw [← hw₁, ← hid]
    show (jobsOf c (w.trace ++ [_])).map _ = _
    rw [jobsOf_append, show jobsOf c [.job c header block] = [(header, block)]
      from List.filterMap_cons_some (if_pos rfl), List.map_append]
    rfl
  rcases he with he | he <;> rw [he]
  · refine ⟨.gone, .inr rfl, ?_⟩
    rw [fanOut_clientRemove hs₁ hk₁]
    unfold fanOut
    dsimp only
    rw [hwork₁, hwork, hsent, if_pos rfl]
    rfl
  · refine ⟨_, .inl rfl, ?_⟩
    have hc : (w₁.setClient c fun s => { s with
        sentJobId := w.server.work.jobId
        hasJob := true }).client? c = some { s with
          sentJobId := w.server.work.jobId
          hasJob := true } := by
      rw [client?_setClient (f := fun s => { s with
        sentJobId := w.server.work.jobId, hasJob := true }) (fun _ => rfl),
        if_pos rfl, hs₁]
      rfl
    unfold fanOut
    dsimp only
    rw [worker_of_some hc,
      show (w₁.setClient c _).server.work = w₁.server.work from rfl,
      show (w₁.setClient c _).trace = w₁.trace from rfl, hwork₁, hwork, hsent,
      if_pos rfl]
    unfold ClientSession.standing
    dsimp only
    rw [hreg]
    rfl

/-- To the others it is nothing. -/
theorem fanOut_clientSendJob_of_ne (hd : c ≠ d) (hs : w.client? d = some s) :
    (w.clientSendJob P d).fanOut c = w.fanOut c := by
  obtain ⟨es, _, ha⟩ := answers_clientSendJob (P := P) hs
  exact fanOut_of_own hd own_clientSendJob ha.toActs

/-! ### Turns -/

/-- **Whoever gives a valid address signs on**, and is sent the job if there
is one. -/
theorem step_processAddress (hs : w.client? d = some s) (hk : Known c w)
    (hw : WorkCoherent w.server)
    (hj : s.hasJob = true → s.addressRegistered = true) :
    FanOut.Step (c = d ∧ addressValid s.rx.bytes = true) (w.fanOut c)
      ((w.processAddress P d).fanOut c) := by
  unfold processAddress
  rw [hs]
  dsimp only
  split
  · exact (leave_clientRemove hk _).step
  next hreg =>
  split
  · exact (leave_clientRemove hk _).step
  next hvalid =>
  replace hvalid := Bool.eq_true_of_not_eq_false hvalid
  have hset := client?_setClient (w := w) (c := d) (f := registered)
    (fun _ => rfl) d
  rw [if_pos rfl, hs, Option.map_some] at hset
  by_cases hd : c = d
  · subst hd
    have hnew : w.worker c = .new := by
      rw [worker_of_some hs]
      exact if_pos (Bool.eq_false_of_not_eq_true hreg)
    split
    next hwork =>
      have hi := (hw.installed hwork).2
      obtain ⟨m, hm, he⟩ := fanOut_clientSendJob (P := P) hset rfl
        (hk.congr rfl (by rw [hset, hs]; exact iff_of_false nofun nofun))
        hwork hi
      rw [he, fanOut_of_work (w := w) hwork, hnew]
      exact .welcome ⟨rfl, hvalid⟩ hm
    next hwork =>
      have hready : (w.setClient c registered).worker c = .ready := by
        rw [worker_of_some hset]
        have hjob : s.hasJob = false :=
          Bool.eq_false_of_not_eq_true fun h => hreg (hj h)
        unfold ClientSession.standing registered
        dsimp only
        rw [hjob]
        rfl
      rw [fanOut_of_noWork (w := w) hwork, hnew,
        fanOut_of_noWork (w := w.setClient c registered) hwork, hready]
      exact .register ⟨rfl, hvalid⟩
  · have hsame : (w.setClient d registered).fanOut c = w.fanOut c :=
      fanOut_setClient (f := registered) (fun _ => rfl) fun h => absurd h hd
    split
    · rw [fanOut_clientSendJob_of_ne hd hset, hsame]
      exact .idle _
    · rw [hsame]
      exact .idle _

/-- A rate is no part of where a miner stands. -/
theorem leave_processHashProgress (hk : Known c w) :
    FanOut.Leave (w.fanOut c) ((w.processHashProgress d).fanOut c) := by
  have hset : ∀ rate : UInt64, FanOut.Leave (w.fanOut c)
      ((w.setClient d fun s => { s with hashrate := rate }).fanOut c) := by
    intro rate
    rw [fanOut_setClient (f := fun s => { s with hashrate := rate })
      (fun _ => rfl) fun _ _ _ => rfl]
    exact .stay
  unfold processHashProgress
  split
  · exact .stay
  dsimp only
  split
  · exact leave_clientRemove hk _
  split_ifs
  · exact .stay
  · exact hset 0
  · exact hset 0
  · exact hset _

/-- **A frame that is handed over is a step.** -/
theorem step_dispatch (hs : w.client? d = some s) (hk : Known c w)
    (hw : WorkCoherent w.server)
    (hj : s.hasJob = true → s.addressRegistered = true) :
    FanOut.Step (c = d ∧ addressValid s.rx.bytes = true) (w.fanOut c)
      ((w.dispatch P T d s).fanOut c) := by
  have he : (w.emit (.frame d s.pending)).fanOut c = w.fanOut c :=
    fanOut_emit (w := w) (e := .frame d s.pending) rfl
  unfold dispatch
  dsimp only
  rw [← he]
  split
  · exact step_processAddress (w := w.emit _) hs hk hw hj
  split
  · exact step_processSubmission (w := w.emit _) hk
  · exact (leave_processHashProgress (w := w.emit _) hk).step

theorem fanOut_finishTurn : (w.finishTurn d).1.fanOut c = w.fanOut c := by
  unfold finishTurn
  split
  · exact fanOut_setClient (f := fun s => { s with rxUsed := 0 })
      (fun _ => rfl) fun _ _ _ => rfl
  · rfl

/-- Receiving leaves everybody where they stand. -/
theorem fanOut_receives {s' : ClientSession} {got : Bytes}
    (hs : w.client? d = some s) (h : Receives d w w' s s' got) :
    w'.fanOut c = w.fanOut c := by
  by_cases hd : c = d
  · subst hd
    refine fanOut_congr h.work ?_ h.acts.nextConn ?_
    · rw [h.client, hs, Option.map_some, Option.map_some, h.keeps]
      rfl
    · rw [h.acts.trace, List.append_nil]
  · exact fanOut_of_own hd h.own h.acts

/-- The type of an ADDRESS. -/
theorem type_of_addressValid {p : Bytes} (h : addressValid p = true) :
    p.getD 5 0 = Miner.address := by
  unfold addressValid at h
  rw [Bool.and_eq_true, Bool.and_eq_true, Bool.and_eq_true] at h
  exact eq_of_beq h.1.1.2

/-- **A connection signs on**: its ADDRESS is handed over and is valid. -/
def SignsOn (c : ConnId) (w w' : World τ) : Prop :=
  ∃ frame es, w'.trace = w.trace ++ .frame c frame :: es
    ∧ addressValid frame = true

/-- **A turn is a step.** -/
theorem step_serviceTurn (hr : Ready d w) (hk : Known c w)
    (hw : WorkCoherent w.server)
    (hj : ∀ s, w.client? d = some s → s.hasJob = true →
      s.addressRegistered = true) :
    FanOut.Step (SignsOn c w (w.serviceTurn .linux T d).1) (w.fanOut c)
      ((w.serviceTurn .linux T d).1.fanOut c) := by
  cases hs : w.client? d with
  | none =>
    rw [serviceTurn_of_none .linux T hs]
    exact .idle _
  | some s =>
  obtain ⟨hu, hinc⟩ := hr s hs
  have hcase := serviceTurn_case .linux T hs hu hinc
  generalize w.serviceTurn .linux T d = r at hcase ⊢
  have hknown : ∀ {w₁ : World τ} {s₁ : ClientSession} {got : Bytes},
      Receives d w w₁ s s₁ got → Known c w₁ := by
    intro w₁ s₁ got hrec
    refine hk.congr hrec.acts.nextConn ?_
    by_cases hd : c = d
    · subst hd
      rw [hrec.client, hs]
      exact iff_of_false nofun nofun
    · exact hrec.acts.client?_eq_none_iff hd
  cases hcase with
  | waiting hrec =>
    rw [← fanOut_receives hs hrec]
    exact (leave_stopped (hknown hrec) _).step
  | refused _ hrec =>
    rw [← fanOut_receives hs hrec]
    exact (leave_clientRemove (hknown hrec) _).step
  | early hp => cases hp
  | @complete w₁ s₁ got hrec hframe =>
    have hstep := step_dispatch (P := .linux) (T := T) (c := c) hrec.client
      (hknown hrec) (hrec.own.coherent hw) (by
        intro hj₁
        rw [hrec.keeps] at hj₁ ⊢
        exact hj s hs hj₁)
    rw [fanOut_finishTurn, ← fanOut_receives hs hrec]
    refine hstep.mono ?_
    rintro ⟨rfl, hvalid⟩
    have h8 := eight_le_of_isFrame hrec.fits hframe
    obtain ⟨es, _, ht⟩ := (handed_dispatch .linux T hrec.client h8).trace
    refine ⟨s₁.pending, es, ?_, ?_⟩
    · rw [ht, hrec.acts.trace, List.append_nil]
    · rwa [← rx_eq_pending hrec.fits hframe
        ((ClientSession.type_pending h8).trans (type_of_addressValid hvalid))]

/-! ### Offering the job to everybody -/

/-- To the others it is nothing. -/
theorem fanOut_sendPendingJob_of_ne (hd : c ≠ d) :
    (w.sendPendingJob P d).fanOut c = w.fanOut c := by
  obtain ⟨es, _, ha⟩ := answers_sendPendingJob (P := P) w d
  exact fanOut_of_own hd (own_sendPendingJob P w d) ha.toActs

/-- **Whoever has signed on and does not have the job is sent it.** -/
theorem offer_sendPendingJob (hk : Known c w)
    (hwork : w.server.work.haveWork = true)
    (hi : w.server.work.IsInstalled) :
    ∃ m new, FanOut.Offer w.server.work.jobId.bytes (w.worker c) m new
      ∧ (w.sendPendingJob P c).fanOut c
        = ⟨some w.server.work.jobId.bytes, m, (w.fanOut c).sent ++ new⟩ := by
  have hkeep : FanOut.Offer w.server.work.jobId.bytes (w.worker c)
      (w.worker c) [] → ∃ m new,
        FanOut.Offer w.server.work.jobId.bytes (w.worker c) m new
          ∧ w.fanOut c
            = ⟨some w.server.work.jobId.bytes, m, (w.fanOut c).sent ++ new⟩ :=
    fun ho => ⟨_, _, ho, by rw [List.append_nil, ← fanOut_of_work hwork]⟩
  unfold sendPendingJob
  cases hs : w.client? c with
  | none =>
    refine hkeep ?_
    rw [worker_of_none hs]
    split
    · exact .keep (.inr (.inr (.inl rfl)))
    · exact .keep (.inl rfl)
  | some s =>
    dsimp only
    by_cases hp : s.Pending w.server.work.jobId
    · rw [if_pos ⟨hwork, hp⟩]
      obtain ⟨m, hm, he⟩ := fanOut_clientSendJob (P := P) hs hp.1 hk hwork hi
      exact ⟨m, _, .send (worker_of_some hs ▸ hp.standing) hm, he⟩
    · rw [if_neg fun h => hp h.2]
      refine hkeep ?_
      rw [worker_of_some hs]
      rcases ClientSession.standing_of_not_pending hp with he | he <;> rw [he]
      · exact .keep (.inr (.inl rfl))
      · exact .keep (.inr (.inr (.inr rfl)))

/-- Whoever is not among the sessions is sent nothing. -/
theorem fanOut_sockets_of_not_mem {cs : List ConnId} (hc : c ∉ cs) :
    (cs.foldl (fun w d => w.sendPendingJob P d) w).fanOut c = w.fanOut c := by
  induction cs generalizing w with
  | nil => rfl
  | cons d cs ih =>
    obtain ⟨hne, hc⟩ := not_or.mp (mt List.mem_cons.mpr hc)
    rw [List.foldl_cons, ih hc, fanOut_sendPendingJob_of_ne hne]

/-- The sessions one after the other. -/
theorem offer_sockets (hk : Known c w)
    (hwork : w.server.work.haveWork = true)
    (hi : w.server.work.IsInstalled) {cs : List ConnId} (hn : cs.Nodup)
    (hc : c ∈ cs) :
    ∃ m new, FanOut.Offer w.server.work.jobId.bytes (w.worker c) m new
      ∧ (cs.foldl (fun w d => w.sendPendingJob P d) w).fanOut c
        = ⟨some w.server.work.jobId.bytes, m,
          (w.fanOut c).sent ++ new⟩ := by
  induction cs generalizing w with
  | nil => exact absurd hc List.not_mem_nil
  | cons d cs ih =>
    obtain ⟨hd, hn⟩ := List.nodup_cons.mp hn
    have ho := own_sendPendingJob P w d
    obtain ⟨es, _, ha⟩ := answers_sendPendingJob (P := P) w d
    rw [List.foldl_cons]
    by_cases he : c = d
    · subst he
      rw [fanOut_sockets_of_not_mem hd]
      exact offer_sendPendingJob hk hwork hi
    · have hsame := fanOut_sendPendingJob_of_ne (P := P) (w := w) he
      have h := ih (hk.congr ha.nextConn (by rw [ho.client? he]))
        (by rw [ho.work, hwork]) (by rw [ho.work]; exact hi) hn
        ((List.mem_cons.mp hc).resolve_left he)
      rwa [ho.work, hsame, show (w.sendPendingJob P d).worker c = w.worker c
        from congrArg FanOut.State.worker hsame] at h

/-- **The job is offered to everybody.** -/
theorem offer_sendPendingJobs (hk : Known c w) (hn : w.sockets.Nodup)
    (hwork : w.server.work.haveWork = true)
    (hi : w.server.work.IsInstalled) :
    ∃ m new, FanOut.Offer w.server.work.jobId.bytes (w.worker c) m new
      ∧ (w.sendPendingJobs P).fanOut c
        = ⟨some w.server.work.jobId.bytes, m,
          (w.fanOut c).sent ++ new⟩ := by
  unfold sendPendingJobs
  by_cases hc : c ∈ w.sockets
  · exact offer_sockets hk hwork hi hn hc
  · rw [fanOut_sockets_of_not_mem hc]
    refine ⟨w.worker c, [], .keep ?_, ?_⟩
    · rw [worker_of_none (client?_eq_none_iff.mpr hc)]
      split
      · exact .inr (.inr (.inl rfl))
      · exact .inl rfl
    · rw [List.append_nil, ← fanOut_of_work hwork]

/-- Without work there is nothing to offer. -/
theorem sendPendingJobs_of_noWork (h : ¬ w.server.work.haveWork = true) :
    w.sendPendingJobs P = w := by
  have hone : ∀ d, w.sendPendingJob P d = w := by
    intro d
    unfold sendPendingJob
    split
    · rfl
    · exact if_neg fun hp => h hp.1
  unfold sendPendingJobs
  induction w.sockets with
  | nil => rfl
  | cons d cs ih => rwa [List.foldl_cons, hone d]

/-- **So does the end of a pass**: the job is offered to everybody. -/
theorem step_sendPendingJobs (hk : Known c w) (hn : w.sockets.Nodup)
    (hw : WorkCoherent w.server) :
    FanOut.Step on (w.fanOut c) ((w.sendPendingJobs P).fanOut c) := by
  by_cases hwork : w.server.work.haveWork = true
  · obtain ⟨m, new, ho, he⟩ := offer_sendPendingJobs (P := P) hk hn hwork
      (hw.installed hwork).2
    rw [he]
    exact .offer ho
  · rw [sendPendingJobs_of_noWork hwork]
    exact .idle _

/-- **A poll is a step**: the job is withdrawn, or a new one is offered to
everybody, or nothing changes. -/
theorem step_refreshWork (hk : Known c w) (hn : w.sockets.Nodup) :
    FanOut.Step on (w.fanOut c) ((w.refreshWork P T).fanOut c) := by
  by_cases hc : (w.poll T).code = .ok
  · obtain ⟨frame, w₁, hi, _, he⟩ := refreshWork_installs (P := P) hc
    have hcl : w₁.client? c = w.client? c := by
      unfold client?
      rw [hi.clients]
    have hworker : w₁.worker c = w.worker c := by
      unfold worker
      rw [hcl, hi.nextConn]
    have hjobs : jobsOf c w₁.trace = jobsOf c w.trace := by
      rw [hi.trace, jobsOf_append]
      exact List.append_nil _
    rcases he with he | ⟨he, hwork, hid⟩ <;> rw [he]
    · obtain ⟨m, new, ho, hf⟩ := offer_sendPendingJobs (P := P) (c := c)
        (hk.congr hi.nextConn (by rw [hcl]))
        (by unfold sockets; rw [hi.clients]; exact hn) hi.haveWork hi.installed
      rw [hf]
      rw [hworker] at ho
      rw [show (w₁.fanOut c).sent = (w.fanOut c).sent from
        congrArg (List.map jobIdOf) hjobs]
      exact .offer ho
    · have hsame : w₁.fanOut c = w.fanOut c := by
        rw [fanOut_of_work hi.haveWork, fanOut_of_work hwork, hworker, hid,
          show (w₁.fanOut c).sent = (w.fanOut c).sent from
            congrArg (List.map jobIdOf) hjobs]
      rw [hsame]
      exact .idle _
  · obtain ⟨f, he, hkeeps⟩ := refreshWork_keepsJobs (P := P) hc
    rw [he]
    refine FanOut.Leave.step_clear .stay ?_
    rw [← fanOut_called (w := w) (w.poll T)]
    exact fanOut_setServer hkeeps

/-! ### Coming and going -/

/-- Whoever is accepted has come. -/
theorem fanOut_acceptSession (hk : Known c w) (mode : ServiceMode) :
    (w.acceptSession mode).fanOut c = w.fanOut c
      ∨ w.worker c = .absent ∧ (w.acceptSession mode).fanOut c
        = { w.fanOut c with worker := .new } := by
  have ht : jobsOf c (w.acceptSession mode).trace = jobsOf c w.trace :=
    (jobsOf_append c _ _).trans (List.append_nil _)
  by_cases hc : c = w.nextConn
  · subst hc
    have hnone : w.client? w.nextConn = none := by
      by_contra hne
      exact Nat.lt_irrefl _ (hk hne)
    have hsome : (w.acceptSession mode).client? w.nextConn
        = some (.init w.nextConn mode) :=
      List.find?_cons_of_pos (beq_self_eq_true _)
    refine .inr ⟨?_, ?_⟩
    · rw [worker_of_none hnone, if_neg (Nat.lt_irrefl _)]
    · unfold fanOut
      rw [worker_of_some hsome, ht]
      rfl
  · have hcl : (w.acceptSession mode).client? c = w.client? c :=
      List.find?_cons_of_neg fun h => hc (eq_of_beq h).symm
    refine .inl ?_
    unfold fanOut
    rw [ht]
    congr 1
    unfold worker
    rw [hcl]
    have hlt : c < w.nextConn + 1 ↔ c < w.nextConn :=
      Nat.lt_succ_iff_lt_or_eq.trans (or_iff_left hc)
    split
    · rfl
    · exact if_congr hlt rfl rfl

/-- The number of a session that is accepted has been given out. -/
theorem Known.acceptSession (hk : Known c w) (mode : ServiceMode) :
    Known c (w.acceptSession mode) := by
  intro hne
  by_cases hc : c = w.nextConn
  · exact hc ▸ Nat.lt_succ_self _
  · have hcl : (w.acceptSession mode).client? c = w.client? c :=
      List.find?_cons_of_neg fun h => hc (eq_of_beq h).symm
    exact Nat.lt_succ_of_lt (hk (hcl ▸ hne))

/-- **Accepting is a step**: a connection comes at most once. -/
theorem step_acceptFrom (hk : Known c w) (mode : ServiceMode)
    (outcomes : List AcceptOutcome) :
    FanOut.Step on (w.fanOut c) ((acceptFrom mode outcomes w).fanOut c) := by
  suffices h : (acceptFrom mode outcomes w).fanOut c = w.fanOut c
      ∨ w.worker c = .absent ∧ (acceptFrom mode outcomes w).fanOut c
        = { w.fanOut c with worker := .new } by
    rcases h with he | ⟨ha, he⟩ <;> rw [he]
    · exact .idle _
    · rw [show w.fanOut c = ⟨_, .absent, _⟩ from by unfold fanOut; rw [ha]]
      exact .come
  induction outcomes generalizing w with
  | nil => exact .inl rfl
  | cons o rest ih =>
    cases o with
    | nobody => exact .inl rfl
    | failed => exact .inl rfl
    | session =>
      have hrest := ih (hk.acceptSession mode)
      rcases fanOut_acceptSession hk mode with he | ⟨ha, he⟩
      · rw [he, show (w.acceptSession mode).worker c = w.worker c from
          congrArg FanOut.State.worker he] at hrest
        exact hrest
      · refine .inr ⟨ha, ?_⟩
        rcases hrest with hs | ⟨habs, _⟩
        · exact hs.trans he
        · cases habs.symm.trans
            (congrArg FanOut.State.worker he)

/-- **Closing is a step**: the miner leaves, and the job is withdrawn. -/
theorem step_serverClose (hk : Known c w) :
    FanOut.Step on (w.fanOut c) ((w.serverClose T).fanOut c) := by
  have hall : ∀ (cs : List ConnId) (w : World τ), Known c w →
      FanOut.Leave (w.fanOut c)
        ((cs.foldl (fun w d => w.clientRemove d .serverClosing) w).fanOut c)
      := by
    intro cs
    induction cs with
    | nil => exact fun _ _ => .stay
    | cons d cs ih =>
      intro w hk
      refine (leave_clientRemove hk _).trans (ih _ ?_)
      intro hne
      rw [nextConn_clientRemove]
      rw [client?_clientRemove] at hne
      split at hne
      · exact absurd rfl hne
      · exact hk hne
  exact (hall w.sockets w hk).step_clear (fanOut_setServer
    ⟨rfl, .inr ⟨StratumServer.isCleared_clearWork _, rfl⟩⟩)

end FanOut

end World

/-! ## Every run -/

section Runs

variable {T : ChainTransport τ} {w : World τ}

/-- **Whatever the server does next is a step of the fan-out**, for every
connection. -/
theorem step_turns (h : (turns .linux T).Reachable w) (a : ServerAction)
    (c : ConnId) :
    FanOut.Step (World.SignsOn c w ((turns .linux T).act w a)) (w.fanOut c)
      (((turns .linux T).act w a).fanOut c) := by
  have ho := orderly_of_turns h
  have hw := workCoherent_of_turns h
  have hk : World.Known c w := fun hne => ho.lt c (by
    by_contra hc
    exact hne (World.client?_eq_none_iff.mpr hc))
  cases a with
  | accept mode => exact World.step_acceptFrom hk mode _
  | service d =>
    refine World.step_serviceTurn (ready_of_turns h d) hk hw fun s hs hj => ?_
    exact ((Sessions.of_reachable sessionRule_ok sessionOk_init h d s hs).job
      hj).2
  | refresh => exact World.step_refreshWork hk ho.nodup
  | sendPending => exact World.step_sendPendingJobs hk ho.nodup hw
  | tick => exact .idle _
  | stop => exact .idle _
  | close => exact World.step_serverClose hk

/-- **The fan-out of every connection is in order at all times.** -/
theorem fanned_of_turns (h : (turns .linux T).Reachable w) (c : ConnId) :
    FanOut.Fanned (w.fanOut c) := by
  refine h.invariant (P := fun w => FanOut.Fanned (w.fanOut c))
    (fun w hw => ?_) fun w a hw hf => hf.step (step_turns hw a c)
  have hnone : w.client? c = none := by
    rw [World.client?_eq_none_iff, Startup.sockets hw]
    exact List.not_mem_nil
  have hworker : w.worker c = .absent := by
    rw [World.worker_of_none hnone, Startup.nextConn hw]
    rfl
  unfold World.fanOut
  rw [hworker, Startup.trace hw]
  exact FanOut.fanned_init _

/-- **Who is registered has the job** in a fan-out that is in order. -/
theorem hasJob_of_fanned {c : ConnId} {s : ClientSession}
    (hf : FanOut.Fanned (w.fanOut c)) (hs : w.client? c = some s)
    (hreg : s.addressRegistered = true)
    (hwork : w.server.work.haveWork = true) :
    s.hasJob = true ∧ s.sentJobId = w.server.work.jobId
      ∧ ∃ job, (jobsOf c w.trace).getLast? = some job
        ∧ jobIdOf job = w.server.work.jobId.bytes := by
  have hw := World.fanOut_of_work (c := c) hwork
  have hstanding : s.standing = if s.hasJob = false then .ready
      else .holds s.sentJobId.bytes := by
    unfold ClientSession.standing
    rw [if_neg (by rw [hreg]; exact Bool.noConfusion)]
  rw [← World.worker_of_some hs] at hstanding
  by_cases hjob : s.hasJob = false
  · rw [if_pos hjob] at hstanding
    have hnone := hf.ready hstanding
    rw [hw] at hnone
    cases hnone
  · rw [if_neg hjob] at hstanding
    have hid := hf.active _ hstanding
    rw [hw] at hid
    have hid := Option.some.inj hid
    have hlast := hf.last _ hstanding
    unfold World.fanOut at hlast
    dsimp only at hlast
    rw [List.getLast?_map, Option.map_eq_some_iff, ← hid] at hlast
    exact ⟨Bool.eq_true_of_not_eq_false hjob, Buf.ext hid.symm, hlast⟩

/-! ### Nobody is sent a job too early -/

/-- A turn only adds to the trace. -/
theorem trace_turns (w : World τ) (a : ServerAction) :
    ∃ es, ((turns .linux T).act w a).trace = w.trace ++ es := by
  refine World.turns_induction (I := fun w' => ∃ es, w'.trace = w.trace ++ es)
    ?_ ?_ (fun _ _ h => h) ?_ ⟨[], (List.append_nil _).symm⟩ a
  · rintro w₁ w₂ ⟨es, _, hq | ⟨c, s, _, _, ha⟩⟩ ⟨fs, h⟩
    · exact ⟨fs ++ es, by rw [(hq 0).trace, h, List.append_assoc]⟩
    · exact ⟨fs ++ es, by rw [ha.trace, h, List.append_assoc]⟩
  · rintro w₁ mode ⟨fs, h⟩
    exact ⟨fs ++ [.accepted w₁.nextConn], by
      rw [← List.append_assoc, ← h]
      rfl⟩
  · rintro w₁ c ⟨fs, h⟩
    obtain ⟨es, _, ha⟩ := acts_serviceTurn .linux T w₁ c
    exact ⟨fs ++ es, by rw [ha.trace, h, List.append_assoc]⟩

/-- What is somewhere in two traces is in the first or in the second. -/
theorem splits_append {es fs before after : List Event} {e : Event}
    (h : es ++ fs = before ++ e :: after) :
    (∃ mid, es = before ++ e :: mid)
      ∨ ∃ mid, before = es ++ mid ∧ fs = mid ++ e :: after := by
  rcases List.append_eq_append_iff.mp h with ⟨mid, hb, hf⟩ | ⟨mid, hb, hf⟩
  · exact .inr ⟨mid, hb, hf⟩
  · cases mid with
    | nil => exact .inr ⟨[], by rw [hb, List.append_nil, List.append_nil], hf.symm⟩
    | cons e' mid =>
      obtain ⟨rfl, _⟩ := List.cons.inj hf
      exact .inl ⟨mid, hb⟩

/-- **A valid ADDRESS of a connection has been handed over.** It is the first
of them that `process_address` accepts. -/
def Introduced (c : ConnId) (es : List Event) : Prop :=
  ∃ frame, Event.frame c frame ∈ es ∧ addressValid frame = true

theorem Introduced.append {c : ConnId} {es : List Event}
    (h : Introduced c es) (fs : List Event) : Introduced c (es ++ fs) := by
  obtain ⟨frame, hm, hv⟩ := h
  exact ⟨frame, List.mem_append_left _ hm, hv⟩

/-- **Nobody signs on or is sent a job** without having given an address. -/
theorem introduced_of_turns (h : (turns .linux T).Reachable w) (c : ConnId) :
    ((w.worker c).SignedOn → Introduced c w.trace)
      ∧ ∀ before header block after,
        w.trace = before ++ .job c header block :: after →
        Introduced c before := by
  refine h.invariant (P := fun w => ((w.worker c).SignedOn →
    Introduced c w.trace) ∧ ∀ before header block after,
      w.trace = before ++ .job c header block :: after → Introduced c before)
    (fun w hw => ?_) fun w a hw hi => ?_
  · rw [hw.trace]
    have hnone : w.client? c = none := by
      rw [World.client?_eq_none_iff, Startup.sockets hw]
      exact List.not_mem_nil
    rw [World.worker_of_none hnone]
    refine ⟨fun hon => ?_, fun before _ _ _ he => by simp at he⟩
    split at hon <;> exact hon.elim nofun nofun
  · obtain ⟨hon, hjob⟩ := hi
    have hstep := step_turns hw a c
    obtain ⟨es, ht⟩ := trace_turns (T := T) w a
    generalize (turns .linux T).act w a = w' at hstep ht ⊢
    refine ⟨fun hon' => ?_, fun before header block after he => ?_⟩
    · rw [ht]
      rcases hstep.signedOn (.inl hon') with ⟨frame, fs, htf, hv⟩ | hs
      · rw [htf] at ht
        obtain rfl := List.append_cancel_left ht
        exact ⟨frame, List.mem_append_right _ List.mem_cons_self, hv⟩
      · exact (hon hs).append es
    · rw [ht] at he
      rcases splits_append he with ⟨mid, hw⟩ | ⟨mid, rfl, hes⟩
      · exact hjob _ _ _ _ hw
      · -- the JOB is one of the new events
        have hsent : (w'.fanOut c).sent ≠ (w.fanOut c).sent := by
          intro hsame
          have hlen := congrArg List.length hsame
          unfold World.fanOut at hlen
          dsimp only at hlen
          rw [List.length_map, List.length_map, ht, jobsOf_append,
            List.length_append, Nat.add_eq_left, hes, jobsOf_append,
            List.length_append] at hlen
          have hone : jobsOf c (.job c header block :: after)
              = (header, block) :: jobsOf c after :=
            List.filterMap_cons_some (if_pos rfl)
          rw [hone, List.length_cons] at hlen
          omega
        rcases hstep.signedOn (.inr hsent) with ⟨frame, fs, htf, hv⟩ | hs
        · rw [htf] at ht
          obtain rfl := List.append_cancel_left ht
          cases mid with
          | nil => cases hes
          | cons e mid =>
            obtain ⟨rfl, _⟩ := List.cons.inj hes
            exact ⟨frame, List.mem_append_right _ List.mem_cons_self, hv⟩
        · exact (hon hs).append mid

/-! ### Frames that are handed over -/

/-- **A turn hands a frame over**: when all of the frame has been received,
and nothing else has happened, what is left of the turn is to answer it. -/
structure HandsOver (T : ChainTransport τ) (c : ConnId) (w w₁ : World τ)
    (s₁ : ClientSession) : Prop where
  /-- The frame has been received. -/
  receives : ∃ s got, w.client? c = some s ∧ Receives c w w₁ s s₁ got
  /-- It is a frame. -/
  frame : Miner.framing.IsFrame s₁.pending
  /-- It is answered. -/
  turn : w.serviceTurn .linux T c = (w₁.dispatch .linux T c s₁).finishTurn c

/-- **Every frame is handed over in such a state.** -/
theorem handsOver_of_frame {c : ConnId} {frame : Bytes} {es : List Event}
    (hr : Ready c w) (ht : (w.serviceTurn .linux T c).1.trace
      = w.trace ++ .frame c frame :: es) :
    ∃ w₁ s₁, HandsOver T c w w₁ s₁ ∧ s₁.pending = frame := by
  cases hs : w.client? c with
  | none =>
    rw [serviceTurn_of_none .linux T hs] at ht
    cases List.self_eq_append_right.mp ht
  | some s =>
  obtain ⟨hu, hinc⟩ := hr s hs
  have hcase := serviceTurn_case .linux T hs hu hinc
  have hend : ∀ {w₁ : World τ} {s₁ : ClientSession} {got : Bytes} {w' es'},
      Receives c w w₁ s s₁ got → Ending c es' → Acts c w₁ w' es' →
      w'.trace ≠ w.trace ++ .frame c frame :: es := by
    intro w₁ s₁ got w' es' hrec he ha htr
    rw [ha.trace, hrec.acts.trace, List.append_nil] at htr
    have := List.append_cancel_left htr
    rcases he with rfl | ⟨_, _, rfl⟩ <;> cases this
  generalize hturn : w.serviceTurn .linux T c = r at hcase ht
  cases hcase with
  | waiting hrec =>
    obtain ⟨es', he, ha⟩ := answers_stopped hrec.client
      (stopStatus Platform.linux.retry (w.peers c).inbox)
    exact absurd ht (hend hrec he ha.toActs)
  | refused _ hrec =>
    exact absurd ht (hend hrec (.inr ⟨_, _, rfl⟩)
      (answers_clientRemove hrec.client _).toActs)
  | early hp => cases hp
  | @complete w₁ s₁ got hrec hframe =>
    refine ⟨w₁, s₁, ⟨⟨s, got, hs, hrec⟩, hframe, hturn⟩, ?_⟩
    obtain ⟨es', _, ht'⟩ := (handed_dispatch .linux T hrec.client
      (eight_le_of_isFrame hrec.fits hframe)).trace
    rw [ht', hrec.acts.trace, List.append_nil] at ht
    exact (Event.frame.inj (List.cons.inj (List.append_cancel_left ht)).1).2

/-- Whoever hands a frame over has the job. -/
theorem HandsOver.hasJob {c : ConnId} {w₁ : World τ} {s₁ : ClientSession}
    (h : (turns .linux T).Reachable w) (hover : HandsOver T c w w₁ s₁)
    (hwork : w₁.server.work.haveWork = true)
    (hreg : s₁.addressRegistered = true) :
    s₁.hasJob = true ∧ s₁.sentJobId = w₁.server.work.jobId
      ∧ ∃ job, (jobsOf c w₁.trace).getLast? = some job
        ∧ jobIdOf job = w₁.server.work.jobId.bytes := by
  obtain ⟨s, got, hs, hrec⟩ := hover.receives
  have hf := fanned_of_turns h c
  rw [← World.fanOut_receives hs hrec] at hf
  exact hasJob_of_fanned hf hrec.client hreg hwork

/-! ### The fan-out of jobs -/

/-- **The work of a server is a job.** -/
def World.Active (jobId : Buf 32) (w : World τ) : Prop :=
  w.server.work.haveWork = true ∧ w.server.work.jobId = jobId

theorem World.fanOut_work_eq {c : ConnId} {jobId : Buf 32}
    (h : w.Active jobId) : (w.fanOut c).work = some jobId.bytes := by
  rw [World.fanOut_of_work h.1, h.2]

/-- While the job stays the same, the fan-out is that of one job. -/
theorem during_run (h : (turns .linux T).Reachable w) {jobId : Buf 32}
    (c : ConnId) {as : List ServerAction} (hne : as ≠ [])
    (ha : ∀ bs, bs ≠ [] → bs <+: as →
      ((turns .linux T).run w bs).Active jobId) :
    FanOut.During jobId.bytes (w.fanOut c)
      (((turns .linux T).run w as).fanOut c) := by
  induction as using List.reverseRecOn with
  | nil => exact absurd rfl hne
  | append_singleton as a ih =>
    have hlast := World.fanOut_work_eq (c := c) (ha _ hne (List.prefix_refl _))
    rw [Machine.run_append] at hlast ⊢
    have hstep := step_turns (h.run as) a c
    by_cases has : as = []
    · subst has
      exact .first hstep hlast
    · refine .step (ih has fun bs hb hp => ?_) hstep hlast
      exact ha bs hb (hp.trans (List.prefix_append as [a]))

/-- **Jobs are fanned out without loss or duplication.** Turn by turn:

* where there is work, every session with an address has been sent its job;
* nobody has been sent a JOB before handing over a valid ADDRESS;
* an action sends a JOB only for what is the active job after it, and from
  one moment to a later one between which the job is the same, nobody is sent
  more than one;
* whenever a frame is handed over and there is work, a session with an
  address has its job, and the last JOB it was sent was for it. -/
theorem job_fan_out (T : ChainTransport τ) {w : World τ}
    (h : (turns .linux T).Reachable w) :
    (w.server.work.haveWork = true → ∀ s ∈ w.server.clients,
      s.addressRegistered = true →
      s.hasJob = true ∧ s.sentJobId = w.server.work.jobId)
    ∧ (∀ c before header block after,
      w.trace = before ++ .job c header block :: after → Introduced c before)
    ∧ (∀ a c, ∃ new, jobsOf c ((turns .linux T).act w a).trace
        = jobsOf c w.trace ++ new
      ∧ ∀ job ∈ new, ∃ jobId, ((turns .linux T).act w a).Active jobId
        ∧ jobIdOf job = jobId.bytes)
    ∧ (∀ as c jobId, as ≠ [] → (∀ bs, bs ≠ [] → bs <+: as →
        ((turns .linux T).run w bs).Active jobId) →
      (jobsOf c ((turns .linux T).run w as).trace).length
        ≤ (jobsOf c w.trace).length + 1)
    ∧ ∀ c frame es, (w.serviceTurn .linux T c).1.trace
        = w.trace ++ .frame c frame :: es →
      ∃ w₁ s₁, HandsOver T c w w₁ s₁ ∧ s₁.pending = frame
        ∧ (w₁.server.work.haveWork = true → s₁.addressRegistered = true →
          s₁.hasJob = true ∧ s₁.sentJobId = w₁.server.work.jobId
          ∧ ∃ job, (jobsOf c w₁.trace).getLast? = some job
            ∧ jobIdOf job = w₁.server.work.jobId.bytes) := by
  refine ⟨?_, ?_, ?_, ?_, ?_⟩
  · intro hwork s hs hreg
    obtain ⟨hjob, hid, _⟩ := hasJob_of_fanned (fanned_of_turns h _)
      ((counted_of_turns h).client?_of_mem hs) hreg hwork
    exact ⟨hjob, hid⟩
  · exact fun c => (introduced_of_turns h c).2
  · intro a c
    obtain ⟨es, ht⟩ := trace_turns (T := T) w a
    obtain ⟨new, hsent, hnew⟩ := (step_turns h a c).sent_eq
    refine ⟨jobsOf c es, by rw [ht, jobsOf_append], fun job hj => ?_⟩
    unfold World.fanOut at hsent hnew
    dsimp only at hsent hnew
    rw [ht, jobsOf_append, List.map_append] at hsent
    have hid := List.mem_map_of_mem (f := jobIdOf) hj
    rw [List.append_cancel_left hsent] at hid
    rcases hnew with rfl | ⟨j, rfl, hwork⟩
    · exact absurd hid List.not_mem_nil
    · split at hwork
      next hw =>
        refine ⟨_, ⟨hw, rfl⟩, ?_⟩
        rw [List.mem_singleton.mp hid]
        exact (Option.some.inj hwork).symm
      next => cases hwork
  · intro as c jobId hne ha
    have hle := (during_run h c hne ha).sent_le (fanned_of_turns h c)
    unfold World.fanOut at hle
    dsimp only at hle
    rwa [List.length_map, List.length_map] at hle
  · intro c frame es ht
    obtain ⟨w₁, s₁, hover, hp⟩ := handsOver_of_frame (ready_of_turns h c) ht
    exact ⟨w₁, s₁, hover, hp, hover.hasJob h⟩

end Runs

set_option maxRecDepth 100000 in
/-- In the rehearsal the miner has registered before there is work. It is sent
the job when the template is installed. -/
theorem job_fan_out_rehearsal :
    let w := (turns .linux Rpc.replay).run (rehearsal 0)
      (performance.take 2)
    let w' := (turns .linux Rpc.replay).run w [.refresh]
    jobsOf 0 w.trace = [] ∧ (jobsOf 0 w'.trace).length = 1
      ∧ ∃ s ∈ w'.server.clients, s.hasJob = true
        ∧ s.sentJobId = w'.server.work.jobId := by
  intro w w'
  have hw : (turns .linux Rpc.replay).Reachable w :=
    ⟨_, _, startup_rehearsal 0, rfl⟩
  have hnone : jobsOf 0 w.trace = [] := by decide +kernel
  have hactive : w'.server.work.haveWork = true := by decide +kernel
  have hsome : (w'.server.clients.any fun s => s.addressRegistered) = true := by
    decide +kernel
  have hsent : 1 ≤ (jobsOf 0 w'.trace).length := by decide +kernel
  have hw' : (turns .linux Rpc.replay).Reachable w' := hw.run _
  have hrun : (turns .linux Rpc.replay).run w [.refresh] = w' := rfl
  clear_value w' w
  obtain ⟨s, hs, hreg⟩ := List.any_eq_true.mp hsome
  obtain ⟨_, _, _, hle, _⟩ := job_fan_out Rpc.replay hw
  refine ⟨hnone, Nat.le_antisymm ?_ hsent, s, hs,
    (job_fan_out Rpc.replay hw').1 hactive s hs hreg⟩
  replace hle := hle [.refresh] 0 w'.server.work.jobId nofun ?_
  · rwa [hnone, hrun] at hle
  · intro bs hne hp
    cases bs with
    | nil => exact absurd rfl hne
    | cons b bs =>
      obtain ⟨hb, hp⟩ := List.cons_prefix_cons.mp hp
      rw [hb, List.prefix_nil.mp hp, hrun]
      exact ⟨hactive, rfl⟩
