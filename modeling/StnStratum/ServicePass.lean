import StnStratum.Reception

/-!
# Passes over a session

`service_client` takes turns until one of them is the last. That it comes to
an end is not obvious from its loop, and holds because a turn that another
one follows has received a byte (`Ready.progress`): the bound on the turns in
`serviceClient` is no bound, any larger one gives the same
(`Ready.serviceLoop_eq`). A pass can thus be followed turn by turn.

Whether another turn follows a frame depends on whether the session ends with
it. `endsSession` says when it does, by the checks of the function for its
type and by what the connection takes.
-/

variable {τ : Type}

open Miner (framing)

/-! ## Between two turns -/

/-- **A connection between two turns**: its session, if it has one, has less
than a frame. -/
def Ready (c : ConnId) (w : World τ) : Prop :=
  ∀ s, w.client? c = some s → s.rxUsed ≤ 77 ∧ framing.Incomplete s.pending

section Turns

variable {P : Platform} {T : ChainTransport τ} {c : ConnId} {w : World τ}

/-- A session that is there once reading has stopped is as it was. -/
theorem client?_of_stopped {s : ClientSession} {status : RecvStatus}
    (hs : (w.stopped c status).client? c = some s) : w.client? c = some s := by
  unfold World.stopped at hs
  split at hs
  · rw [client?_clientRemove_self] at hs
    cases hs
  · rw [client?_clientRemove_self] at hs
    cases hs
  · exact hs

/-- A turn that hands a frame over leaves the connection ready. -/
theorem Handed.ready {s : ClientSession} {r : World τ × Bool}
    (h : Handed c w s r) : Ready c r.1 := by
  intro s' hs'
  obtain ⟨hp, hu⟩ := h.empty s' hs'
  rw [hp, hu]
  exact ⟨Nat.zero_le _, framing.incomplete_nil⟩

/-- A frame has a header in the session. -/
theorem eight_le_of_isFrame {s : ClientSession} (hu : s.rxUsed ≤ 77)
    (h : framing.IsFrame s.pending) : 8 ≤ s.rxUsed := by
  have := h.1
  rwa [ClientSession.length_pending hu] at this

/-- It is not shorter than a SUBMIT. -/
theorem submit_le_of_isFrame {s : ClientSession} (hu : s.rxUsed ≤ 77)
    (h : framing.IsFrame s.pending) : 48 ≤ s.rxUsed := by
  have hsize := h.2
  rw [frameSize_pending (eight_le_of_isFrame hu h),
    ClientSession.length_pending hu] at hsize
  split at hsize
  · exact (Miner.frameSizeOf_bounds hsize).1
  · cases hsize

/-- Every turn leaves the connection ready. -/
theorem Ready.serviceTurn (h : Ready c w) :
    Ready c (w.serviceTurn P T c).1 := by
  cases hs : w.client? c with
  | none =>
    rw [serviceTurn_of_none P T hs]
    exact h
  | some s =>
    obtain ⟨hu, hinc⟩ := h s hs
    have hcase := serviceTurn_case P T hs hu hinc
    generalize w.serviceTurn P T c = r at hcase ⊢
    cases hcase with
    | @waiting w₁ s₁ hr hinc' _ _ =>
      intro s' hs'
      obtain rfl := Option.some.inj
        (hr.client.symm.trans (client?_of_stopped hs'))
      exact ⟨hr.fits, hinc'⟩
    | refused _ _ _ _ reason =>
      intro s' hs'
      rw [client?_clientRemove_self] at hs'
      cases hs'
    | complete hr hframe =>
      exact (handed_dispatch P T hr.client
        (eight_le_of_isFrame hr.fits hframe)).ready
    | early _ _ hr h8 =>
      exact (handed_dispatch P T hr.client (le_of_eq h8.symm)).ready

/-- **A turn that another one follows has received a byte.** -/
theorem Ready.progress (h : Ready c w)
    (ha : (w.serviceTurn P T c).2 = true) :
    (allData ((w.serviceTurn P T c).1.peers c).inbox).length
      < (allData (w.peers c).inbox).length := by
  cases hs : w.client? c with
  | none =>
    rw [serviceTurn_of_none P T hs] at ha
    cases ha
  | some s =>
    obtain ⟨hu, hinc⟩ := h s hs
    have hcase := serviceTurn_case P T hs hu hinc
    generalize w.serviceTurn P T c = r at hcase ha ⊢
    have hreads : ∀ {w₁ : World τ} {s₁ : ClientSession} {got : Bytes},
        Receives c w w₁ s s₁ got → 8 ≤ s₁.rxUsed → got ≠ [] →
        (allData (((w₁.dispatch P T c s₁).finishTurn c).1.peers c).inbox).length
          < (allData (w.peers c).inbox).length := by
      intro w₁ s₁ got hr h8 hgot
      rw [(handed_dispatch P T hr.client h8).input.1, ← hr.data,
        List.length_append]
      have := List.length_pos_of_ne_nil hgot
      omega
    cases hcase with
    | waiting => cases ha
    | refused => cases ha
    | complete hr hframe =>
      refine hreads hr (eight_le_of_isFrame hr.fits hframe) ?_
      rintro rfl
      rw [hr.pending, List.append_nil] at hframe
      exact hframe.not_incomplete hinc
    | early _ hu' hr h8 =>
      refine hreads hr (le_of_eq h8.symm) ?_
      rintro rfl
      have := hr.rxUsed
      rw [List.length_nil] at this
      omega

/-- **Any bound on the turns will do**, if it is above the number of bytes
there are to read. -/
theorem Ready.serviceLoop_eq {m n : ℕ} (h : Ready c w)
    (hm : (allData (w.peers c).inbox).length < m)
    (hn : (allData (w.peers c).inbox).length < n) :
    World.serviceLoop P T m w c = World.serviceLoop P T n w c := by
  induction m generalizing n w with
  | zero => exact absurd hm (Nat.not_lt_zero _)
  | succ m ih =>
    obtain ⟨n, rfl⟩ : ∃ k, n = k + 1 := ⟨n - 1, by omega⟩
    unfold World.serviceLoop
    split
    next ha =>
      have := h.progress ha
      exact ih h.serviceTurn (by omega) (by omega)
    next => rfl

/-- A turn that is the last is the whole pass. -/
theorem serviceClient_of_last (ha : (w.serviceTurn P T c).2 = false) :
    w.serviceClient P T c = (w.serviceTurn P T c).1 := by
  unfold World.serviceClient World.serviceFuel World.serviceLoop
  rw [if_neg (Bool.eq_false_iff.mp ha)]

/-- **A pass goes on behind a turn that is not the last** as it would start
there. -/
theorem Ready.serviceClient_of_again (h : Ready c w)
    (ha : (w.serviceTurn P T c).2 = true) :
    w.serviceClient P T c = (w.serviceTurn P T c).1.serviceClient P T c := by
  have hp := h.progress ha
  unfold World.serviceClient
  rw [World.serviceFuel, World.serviceLoop, if_pos ha]
  refine h.serviceTurn.serviceLoop_eq (by omega) ?_
  rw [World.serviceFuel]
  omega

/-- A pass leaves the connection ready. -/
theorem Ready.serviceClient (h : Ready c w) :
    Ready c (w.serviceClient P T c) :=
  World.serviceLoop_induction (fun _ h => h.serviceTurn) _ h

end Turns

/-! ## Every run -/

section Runs

variable {P : Platform} {T : ChainTransport τ} {c d : ConnId}
  {w w' : World τ}

/-- The job of a session is no part of it. -/
theorem Ready.of_clearJob {s s' : ClientSession} (h : Ready c w)
    (hs : w.client? c = some s) (hss : s.clearJob = s'.clearJob) :
    s'.rxUsed ≤ 77 ∧ framing.Incomplete s'.pending := by
  rw [show s'.rxUsed = s.rxUsed from (congrArg ClientSession.rxUsed hss).symm,
    show s'.pending = s.pending from (congrArg ClientSession.pending hss).symm]
  exact h s hs

/-- What is looked up once a session has been accepted. -/
theorem client?_acceptSession {mode : ServiceMode} {s : ClientSession}
    (hs : (w.acceptSession mode).client? c = some s) :
    s = .init c mode ∨ w.client? c = some s := by
  by_cases hc : c = w.nextConn
  · subst hc
    refine .inl (Option.some.inj (hs.symm.trans ?_))
    exact List.find?_cons_of_pos (beq_self_eq_true _)
  · refine .inr ((List.find?_cons_of_neg ?_).symm.trans hs)
    exact fun h => hc (eq_of_beq h).symm

/-- The server starts without sessions. -/
theorem Startup.ready (h : Startup T w) (c : ConnId) : Ready c w := by
  intro s hs
  have := World.mem_sockets_iff.mpr ⟨s, hs⟩
  rw [h.sockets] at this
  exact absurd this List.not_mem_nil

/-- A move receives nothing. -/
theorem Ready.move (h : Ready c w) (hm : Move w w') : Ready c w' := by
  intro s' hs'
  obtain ⟨s, hs, hss⟩ := hm.client?_before hs'
  exact h.of_clearJob hs hss

/-- A new session has nothing. -/
theorem Ready.acceptSession (h : Ready c w) (mode : ServiceMode) :
    Ready c (w.acceptSession mode) := by
  intro s hs
  rcases client?_acceptSession hs with rfl | hs
  · exact ⟨Nat.zero_le _, framing.incomplete_nil⟩
  · exact h s hs

/-- A turn of any session leaves every connection ready. -/
theorem Ready.turn (h : Ready c w) (P : Platform) (T : ChainTransport τ)
    (d : ConnId) : Ready c (w.serviceTurn P T d).1 := by
  obtain ⟨es, _, ha⟩ := acts_serviceTurn P T w d
  by_cases hd : c = d
  · subst hd
    exact h.serviceTurn
  · intro s' hs'
    obtain ⟨s, hs, hss⟩ := ha.client?_before hd hs'
    exact h.of_clearJob hs hss

/-- **Every connection is ready in every reachable state**, on either
platform. -/
theorem ready_of_run (h : (stratum P T).Reachable w) (c : ConnId) :
    Ready c w :=
  h.invariant (P := Ready c) (fun _ hw => Startup.ready hw c) fun _ a _ hw =>
    World.act_induction (I := Ready c) (fun _ _ hm h => h.move hm)
      (fun _ mode h => h.acceptSession mode) (fun _ _ h => h)
      (fun _ d h => h.turn P T d) hw a

end Runs

/-! ## Frames that end their session -/

/-- **Whether a JOB cannot be sent**: there is work, a header can be built for
it, and the connection does not take the header and the block. -/
def jobFails (P : Platform) (work : ActiveWork)
    (outcomes : List SendOutcome) : Bool :=
  work.haveWork &&
    match minerJobBuild work.template.bytes work.templateLength with
    | none => false
    | some (header, blockLength) =>
      let head := sendAll P.retry outcomes header.bytes
      !head.ok || !takesAll P.retry head.rest
        (slice work.template.bytes 68 blockLength).length

/-- **Whether a frame ends its session**: an ADDRESS that is the second or not
valid or whose JOB cannot be sent, a SUBMIT without an ADDRESS before it or
whose RESULT cannot be sent, a HASH_PROGRESS without an ADDRESS before it. -/
def endsSession (P : Platform) (work : ActiveWork)
    (outcomes : List SendOutcome) (registered : Bool) (frame : Bytes) :
    Bool :=
  if frame.getD 5 0 = Miner.address then
    registered || !addressValid frame || jobFails P work outcomes
  else if frame.getD 5 0 = Miner.submit then
    !registered || !takesAll P.retry outcomes Miner.resultSize
  else !registered

section Ends

variable {P : Platform} {T : ChainTransport τ} {c : ConnId} {w : World τ}
  {s : ClientSession}

/-- A session that is stored into stays. -/
theorem client?_setClient_eq_none_iff {f : ClientSession → ClientSession}
    (hf : ∀ s, (f s).socket = s.socket) :
    (w.setClient c f).client? c = none ↔ w.client? c = none := by
  rw [World.client?_setClient hf, if_pos rfl, Option.map_eq_none_iff]

/-- A change of the server leaves every session where it is. -/
theorem client?_setServer_eq_none_iff
    {f : StratumServer τ → StratumServer τ}
    (h : StratumServer.SameSessions w.server (f w.server)) :
    (w.setServer f).client? c = none ↔ w.client? c = none :=
  (answers_setServer (c := c + 1) h).client?_eq_none_iff
    (Nat.ne_of_lt (Nat.lt_succ_self c))

/-- **A RESULT ends the session exactly where it cannot be sent.** -/
theorem client?_clientSendResult_eq_none_iff (hs : w.client? c = some s)
    (code : RpcCode) :
    (w.clientSendResult P c code).client? c = none
      ↔ takesAll P.retry (w.peers c).outcomes Miner.resultSize = false := by
  have hsend : ((w.emit (.result c (submitResultCode code))).sending P c
      (resultFrame (submitResultCode code)).bytes).ok
        = takesAll P.retry (w.peers c).outcomes Miner.resultSize := by
    refine (sendAll_ok _ _ _).trans ?_
    rw [(resultFrame _).size]
    rfl
  unfold World.clientSendResult
  dsimp only
  rw [hsend]
  split
  next h => exact ⟨fun _ => h, fun _ => client?_clientRemove_self _⟩
  next h =>
    refine ⟨fun hn => ?_, fun hf => absurd hf h⟩
    cases hs.symm.trans hn

/-- **A JOB ends the session exactly where it cannot be sent.** -/
theorem client?_clientSendJob_eq_none_iff (hs : w.client? c = some s) :
    (w.clientSendJob P c).client? c = none
      ↔ jobFails P w.server.work (w.peers c).outcomes = true := by
  have hsome : ¬ w.client? c = none := fun hn => nomatch hs.symm.trans hn
  unfold World.clientSendJob jobFails
  split
  next h =>
    rw [h]
    exact ⟨fun hn => absurd hn hsome, fun hf => nomatch hf⟩
  next h =>
  rw [Bool.eq_true_of_not_eq_false h, Bool.true_and]
  cases minerJobBuild w.server.work.template.bytes
    w.server.work.templateLength with
  | none => exact ⟨fun hn => absurd hn hsome, fun hf => nomatch hf⟩
  | some b =>
  obtain ⟨header, blockLength⟩ := b
  dsimp only
  generalize slice w.server.work.template.bytes 68 blockLength = block
  have hhead : (w.emit (.job c header.bytes block)).sending P c header.bytes
      = sendAll P.retry (w.peers c).outcomes header.bytes := rfl
  have hblock : (((w.emit (.job c header.bytes block)).send P c
      header.bytes).sending P c block).ok
        = takesAll P.retry (sendAll P.retry (w.peers c).outcomes
          header.bytes).rest block.length := by
    refine (sendAll_ok _ _ _).trans ?_
    rw [peers_send, hhead]
  rw [hhead, hblock]
  split
  next hok =>
    rw [hok]
    exact ⟨fun _ => rfl, fun _ => client?_clientRemove_self _⟩
  next hok =>
  rw [Bool.eq_true_of_not_eq_false hok, Bool.not_true, Bool.false_or]
  split
  next hok =>
    rw [hok]
    exact ⟨fun _ => rfl, fun _ => client?_clientRemove_self _⟩
  next hok =>
    rw [Bool.eq_true_of_not_eq_false hok]
    refine ⟨fun hn => ?_, fun hf => nomatch hf⟩
    refine absurd ((client?_setClient_eq_none_iff ?_).mp hn) hsome
    exact fun _ => rfl

/-- The first check of a SUBMIT. -/
theorem submissionVerdict_eq_unregistered_iff {work : ActiveWork} :
    submissionVerdict work s = .unregistered
      ↔ s.addressRegistered = false := by
  unfold submissionVerdict
  dsimp only
  split
  next h => exact ⟨fun _ => h, fun _ => rfl⟩
  next h =>
    refine ⟨fun hv => ?_, fun hr => absurd hr h⟩
    split_ifs at hv
    split at hv
    · cases hv
    · split at hv <;> cases hv

/-- **A SUBMIT ends the session exactly where the miner has not given its
address or the RESULT cannot be sent.** -/
theorem client?_processSubmission_eq_none_iff (hs : w.client? c = some s) :
    (w.processSubmission P T c).client? c = none
      ↔ (!s.addressRegistered
        || !takesAll P.retry (w.peers c).outcomes Miner.resultSize) = true := by
  unfold World.processSubmission
  rw [hs]
  dsimp only
  by_cases hr : s.addressRegistered = false
  · rw [submissionVerdict_eq_unregistered_iff.mpr hr, hr]
    exact ⟨fun _ => rfl, fun _ => client?_clientRemove_self _⟩
  rw [Bool.eq_true_of_not_eq_false hr, Bool.not_true, Bool.false_or,
    Bool.not_eq_true']
  split
  next hv => exact absurd (submissionVerdict_eq_unregistered_iff.mp hv) hr
  next code _ => exact client?_clientSendResult_eq_none_iff hs code
  next nonce _ =>
    unfold World.submitShare
    dsimp only
    split
    · refine (client?_setServer_eq_none_iff
        (StratumServer.clearWork_same _)).trans ?_
      exact client?_clientSendResult_eq_none_iff (w := w.called _) hs _
    · exact client?_clientSendResult_eq_none_iff (w := w.called _) hs _
  next nonce _ =>
    unfold World.submitWork
    dsimp only
    split
    · exact client?_clientSendResult_eq_none_iff (w := { w with
        heap := (w.heap.malloc _).2 }) hs .provider
    · refine (client?_setServer_eq_none_iff
        (StratumServer.afterWork_same P T _ _)).trans ?_
      exact client?_clientSendResult_eq_none_iff (w := w.called _) hs _

/-- **An ADDRESS ends the session exactly where it is the second or not valid
or its JOB cannot be sent.** -/
theorem client?_processAddress_eq_none_iff (hs : w.client? c = some s) :
    (w.processAddress P c).client? c = none
      ↔ (s.addressRegistered || !addressValid s.rx.bytes
        || jobFails P w.server.work (w.peers c).outcomes) = true := by
  unfold World.processAddress
  rw [hs]
  dsimp only
  split
  next h =>
    rw [h]
    exact ⟨fun _ => rfl, fun _ => client?_clientRemove_self _⟩
  next h =>
  rw [Bool.eq_false_iff.mpr h, Bool.false_or]
  split
  next hv =>
    rw [hv]
    exact ⟨fun _ => rfl, fun _ => client?_clientRemove_self _⟩
  next hv =>
  rw [Bool.eq_true_of_not_eq_false hv, Bool.not_true, Bool.false_or]
  have hs' : (w.setClient c World.registered).client? c
      = some (World.registered s) := by
    rw [World.client?_setClient (f := World.registered) (fun _ => rfl),
      if_pos rfl, hs]
    rfl
  split
  · exact client?_clientSendJob_eq_none_iff hs'
  next hw =>
    refine ⟨fun hn => (nomatch hs'.symm.trans hn), fun hf => ?_⟩
    unfold jobFails at hf
    rw [show w.server.work.haveWork = false from
      Bool.eq_false_iff.mpr hw] at hf
    cases hf

/-- **A HASH_PROGRESS ends the session exactly where the miner has not given
its address.** -/
theorem client?_processHashProgress_eq_none_iff (hs : w.client? c = some s) :
    (w.processHashProgress c).client? c = none
      ↔ (!s.addressRegistered) = true := by
  have hset : ∀ f : ClientSession → ClientSession,
      (∀ s, (f s).socket = s.socket) → ¬ (w.setClient c f).client? c = none := by
    intro f hf hn
    cases hs.symm.trans ((client?_setClient_eq_none_iff hf).mp hn)
  unfold World.processHashProgress
  rw [hs]
  dsimp only
  split
  next h =>
    rw [h]
    exact ⟨fun _ => rfl, fun _ => client?_clientRemove_self _⟩
  next h =>
  rw [Bool.eq_true_of_not_eq_false h]
  refine ⟨fun hn => ?_, fun hf => nomatch hf⟩
  split at hn
  · cases hs.symm.trans hn
  split at hn
  · exact absurd hn (hset _ fun _ => rfl)
  split at hn
  · exact absurd hn (hset _ fun _ => rfl)
  · exact absurd hn (hset _ fun _ => rfl)

/-- **An ADDRESS fills the buffer.** -/
theorem rx_eq_pending (hu : s.rxUsed ≤ 77) (hf : framing.IsFrame s.pending)
    (ht : s.pending.getD 5 0 = Miner.address) : s.rx.bytes = s.pending := by
  have hsize := (Miner.frameSize_take s.pending (n := 8) le_rfl).symm.trans
    hf.2
  split at hsize
  · rw [ht, ClientSession.length_pending hu] at hsize
    refine (List.take_of_length_le ?_).symm
    rw [s.rx.size]
    exact le_of_eq (Option.some.inj hsize)
  · cases hsize

/-- **A frame that is handed over ends its session exactly where
`endsSession` says so.** -/
theorem client?_dispatch_eq_none_iff (hs : w.client? c = some s)
    (hu : s.rxUsed ≤ 77) (hf : framing.IsFrame s.pending) :
    (w.dispatch P T c s).client? c = none
      ↔ endsSession P w.server.work (w.peers c).outcomes s.addressRegistered
        s.pending = true := by
  have h8 := eight_le_of_isFrame hu hf
  have hs' : (w.emit (.frame c s.pending)).client? c = some s := hs
  unfold World.dispatch endsSession
  dsimp only
  rw [← ClientSession.type_pending h8]
  split
  next ht =>
    rw [← rx_eq_pending hu hf ht]
    exact client?_processAddress_eq_none_iff hs'
  split
  · exact client?_processSubmission_eq_none_iff hs'
  · exact client?_processHashProgress_eq_none_iff hs'

end Ends
