import StnStratum.Moves
import StnStratum.Rehearsal
import StnStratum.Verdicts

/-!
# Only Chain accepts

A miner is paid for what it is told was accepted. Two things make that safe.
What is sent to Chain has passed every check (`requests_of_submission`), so
Chain is not asked about proofs that are not worth it, and a RESULT with the
code of acceptance is never sent but right behind an answer of Chain to the
request made for this very frame (`only_chain_accepts`). The second is a
statement about the trace: the acceptance, the answer and the frame are
neighbours there.
-/

variable {τ : Type}

/-! ## Events and their episodes -/

/-- Every event of a trace belongs to an episode. -/
theorem Told.episode {before after : List Event} {e : Event}
    (h : Told (before ++ e :: after)) :
    ∃ earlier b a, before = earlier ++ b ∧ Episode (b ++ e :: a) := by
  obtain ⟨episodes, he, hall⟩ := h
  rcases List.flatten_eq_append_iff.mp he.symm with
    ⟨as, bs, rfl, rfl, hb⟩ | ⟨as, b, c, cs, ds, rfl, rfl, hc⟩
  · obtain ⟨as', a, cs, rfl, hnil, _⟩ := List.flatten_eq_cons_iff.mp hb.symm
    refine ⟨as.flatten, [], a, (List.append_nil _).symm, hall _ ?_⟩
    exact List.mem_append_right _ (List.mem_append_right _ List.mem_cons_self)
  · obtain ⟨rfl, _⟩ := List.cons.inj hc
    exact ⟨as.flatten, b, cs, rfl,
      hall _ (List.mem_append_right _ List.mem_cons_self)⟩

/-- **The RESULT that accepts is the one for success.** -/
theorem resultFrame_eq_accepted_iff (code : RpcCode) :
    (resultFrame (submitResultCode code)).bytes
        = (resultFrame Miner.resultAccepted).bytes ↔ code = .ok := by
  rw [resultFrame_bytes, resultFrame_bytes, List.append_cancel_left_eq]
  cases code <;> decide

/-- What ends a session sends no frame. -/
theorem Ending.sent? {c d : ConnId} {es : List Event} (h : Ending c es)
    {e : Event} (he : e ∈ es) : e.sent? d = none := by
  rcases h with rfl | ⟨reason, n, rfl⟩
  · exact absurd he List.not_mem_nil
  · rw [List.mem_singleton.mp he]
    rfl

/-- A JOB is not the RESULT that accepts. -/
theorem job_ne_accepted {header block : Bytes} (h : IsJob header block) :
    header ++ block ≠ (resultFrame Miner.resultAccepted).bytes := by
  intro he
  have := congrArg List.length he
  rw [List.length_append, h.length, (resultFrame _).size] at this
  change 116 + block.length = 12 at this
  omega

/-- **The event that sends an acceptance** is a RESULT for success. -/
theorem result_of_accepted {c d : ConnId} {code : RpcCode}
    (h : (Event.result d (submitResultCode code)).sent? c
      = some (resultFrame Miner.resultAccepted).bytes) :
    d = c ∧ code = .ok := by
  by_cases hd : d = c
  · rw [show (Event.result d (submitResultCode code)).sent? c = _ from
      if_pos hd] at h
    exact ⟨hd, (resultFrame_eq_accepted_iff code).mp (Option.some.inj h)⟩
  · rw [show (Event.result d (submitResultCode code)).sent? c = _ from
      if_neg hd] at h
    cases h

/-- No JOB event sends it. -/
theorem not_accepted_of_job {c d : ConnId} {header block : Bytes}
    (hj : IsJob header block) :
    (Event.job d header block).sent? c
      ≠ some (resultFrame Miner.resultAccepted).bytes := by
  intro h
  by_cases hd : d = c
  · rw [show (Event.job d header block).sent? c = _ from if_pos hd] at h
    exact job_ne_accepted hj (Option.some.inj h)
  · rw [show (Event.job d header block).sent? c = _ from if_neg hd] at h
    cases h

/-- **In what an acceptance follows a frame with**, only Chain's answer stands
in front of it. -/
theorem Reaction.accepted {c d : ConnId} {frame : Bytes} {es : List Event}
    (h : Reaction d frame es) {b a : List Event} {e : Event}
    (hes : es = b ++ e :: a)
    (he : e.sent? c = some (resultFrame Miner.resultAccepted).bytes) :
    d = c ∧ frame.getD 5 0 = Miner.submit ∧ ∃ request reply,
      b = [.exchange request reply] ∧ Backed request reply .ok := by
  have hend : ∀ {es : List Event}, Ending d es → e ∉ es := fun hf hm => by
    rw [hf.sent? hm] at he
    cases he
  have hmem : e ∈ es := by
    rw [hes]
    exact List.mem_append_right _ List.mem_cons_self
  cases h with
  | ended reason n => exact absurd hmem (hend (.inr ⟨_, _, rfl⟩))
  | silent => exact absurd hmem List.not_mem_nil
  | job _ hj hf =>
    rcases List.mem_cons.mp hmem with rfl | hm
    · exact absurd he (not_accepted_of_job hj)
    · exact absurd hm (hend hf)
  | refused _ hc hf =>
    rcases List.mem_cons.mp hmem with rfl | hm
    · exact absurd (result_of_accepted he).2 hc
    · exact absurd hm (hend hf)
  | @asked hsub request reply code hb es hf =>
    rcases b with _ | ⟨x, _ | ⟨y, b⟩⟩
    · obtain ⟨rfl, _⟩ := List.cons.inj hes
      cases he
    · obtain ⟨rfl, htail⟩ := List.cons.inj hes
      obtain ⟨rfl, _⟩ := List.cons.inj htail
      obtain ⟨hd, rfl⟩ := result_of_accepted he
      exact ⟨hd, hsub, request, reply, rfl, hb⟩
    · obtain ⟨_, htail⟩ := List.cons.inj hes
      obtain ⟨_, rfl⟩ := List.cons.inj htail
      exact absurd (List.mem_append_right _ List.mem_cons_self) (hend hf)

/-- The server's own initiative accepts nothing. -/
theorem Initiative.not_accepted {c : ConnId} {es : List Event}
    (h : Initiative es) {e : Event} (hm : e ∈ es) :
    e.sent? c ≠ some (resultFrame Miner.resultAccepted).bytes := by
  intro he
  cases h with
  | polled =>
    rw [List.mem_singleton.mp hm] at he
    cases he
  | job d hj hf =>
    rcases List.mem_cons.mp hm with rfl | hm
    · exact not_accepted_of_job hj he
    · rw [hf.sent? hm] at he
      cases he
  | ended =>
    rw [List.mem_singleton.mp hm] at he
    cases he

/-- **An acceptance has Chain's answer and the frame right in front of it.** -/
theorem Told.accepted {c : ConnId} {before after : List Event} {e : Event}
    (h : Told (before ++ e :: after))
    (he : e.sent? c = some (resultFrame Miner.resultAccepted).bytes) :
    ∃ earlier frame request reply, before
        = earlier ++ [.frame c frame, .exchange request reply]
      ∧ frame.getD 5 0 = Miner.submit ∧ Backed request reply .ok := by
  obtain ⟨earlier, b, a, rfl, hep⟩ := h.episode
  generalize hes : b ++ e :: a = es at hep
  have hmem : e ∈ es := by
    rw [← hes]
    exact List.mem_append_right _ List.mem_cons_self
  cases hep with
  | accepted =>
    rw [List.mem_singleton.mp hmem] at he
    cases he
  | initiative hi => exact absurd he (hi.not_accepted hmem)
  | @handed d frame es hr =>
    cases b with
    | nil =>
      obtain ⟨rfl, _⟩ := List.cons.inj hes
      cases he
    | cons x b =>
      obtain ⟨rfl, htail⟩ := List.cons.inj hes
      obtain ⟨rfl, hsub, request, reply, rfl, hb⟩ :=
        hr.accepted htail.symm he
      exact ⟨earlier, frame, request, reply, rfl, hsub, hb⟩

/-! ## What is sent to Chain -/

/-- **A request that a submission leads to has passed every check.** -/
theorem Requests.sound {w : World τ} {client : ClientSession}
    {request : Bytes} (h : Requests w client request) :
    Admissible w.server.work client
      ∧ w.server.work.MeetsShareTarget client.nonce
      ∧ Rpc.methodOf request
        = (if w.server.work.MeetsChainTarget client.nonce then Rpc.submitWork
          else Rpc.submitShare) := by
  cases h with
  | share hv memory =>
    obtain ⟨ha, rfl, hs, hc⟩ := submissionVerdict_eq_share_iff.mp hv
    refine ⟨ha, hs, ?_⟩
    rw [if_neg hc, Rpc.methodOf_requestFrame _ _ _ (by decide)]
  | work hv memory =>
    obtain ⟨ha, rfl, hs, hc⟩ := submissionVerdict_eq_work_iff.mp hv
    refine ⟨ha, hs, ?_⟩
    rw [if_pos hc, Rpc.methodOf_requestFrame _ _ _ (by decide)]

/-- A block that goes to Chain leaves room for the address. -/
theorem Requests.bound {w : World τ} {client : ClientSession}
    {request : Bytes} (h : Requests w client request)
    (hm : Rpc.methodOf request = Rpc.submitWork) :
    w.server.work.templateLength + Miner.addressLength ≤ Rpc.maxPayload := by
  cases h with
  | share hv memory =>
    rw [Rpc.methodOf_requestFrame _ _ _ (by decide)] at hm
    exact absurd hm (by decide)
  | work hv hle memory => exact hle

/-- **What `process_submission` asks of Chain**: one request at most, and
none but for a submission that has passed every check. -/
theorem requests_of_submission (P : Platform) (T : ChainTransport τ)
    {w : World τ} {c : ConnId} {client : ClientSession}
    (hs : w.client? c = some client) :
    ∃ es, (w.processSubmission P T c).trace = w.trace ++ es
      ∧ (exchangesOf es).length ≤ 1
      ∧ ∀ p ∈ exchangesOf es, Requests w client p.1 := by
  have hf : (List.replicate 5 0 ++ [Miner.submit]).getD 5 0 = Miner.submit :=
    rfl
  obtain ⟨es, hr, ha, hq⟩ := answers_processSubmission P T hs hf
  exact ⟨es, ha.trace, hr.length_exchangesOf, hq⟩

/-- **Only Chain accepts.** Whatever state `process_submission` is called in,
it asks Chain at most once and only about a registered miner's SUBMIT for the
active job that meets the share target of a valid chain target, with
SUBMIT_WORK if it meets the chain target as well and with SUBMIT_SHARE if not.
And in every reachable state each acceptance that was sent to a miner stands
right behind the answer to the request for this frame, an STNC v2 response
with code zero, the method and the ID of the request and 80 or 32 bytes by the
method. -/
theorem only_chain_accepts {T : ChainTransport τ} {w : World τ}
    (h : (stratum .linux T).Reachable w) :
    (∀ (w : World τ) (c : ConnId) (client : ClientSession),
        w.client? c = some client →
        ∃ es, (w.processSubmission .linux T c).trace = w.trace ++ es
          ∧ (exchangesOf es).length ≤ 1
          ∧ ∀ p ∈ exchangesOf es,
            Admissible w.server.work client
              ∧ w.server.work.MeetsShareTarget client.nonce
              ∧ Rpc.methodOf p.1
                = (if w.server.work.MeetsChainTarget client.nonce
                  then Rpc.submitWork else Rpc.submitShare))
      ∧ ∀ (c : ConnId) (before after : List Event) (e : Event),
        w.trace = before ++ e :: after →
        e.sent? c = some (resultFrame Miner.resultAccepted).bytes →
        ∃ earlier frame method id payload reply,
          before = earlier ++ [.frame c frame,
            .exchange (Rpc.requestFrame method id payload) (some reply)]
          ∧ frame.getD 5 0 = Miner.submit
          ∧ Rpc.IsAnswer method id reply
          ∧ (method = Rpc.submitWork ∧ (Rpc.payloadOf reply).length = 80
            ∨ method = Rpc.submitShare
              ∧ (Rpc.payloadOf reply).length = 32) := by
  constructor
  · intro w c client hs
    obtain ⟨es, ht, hone, hq⟩ := requests_of_submission .linux T hs
    exact ⟨es, ht, hone, fun p hp => (hq p hp).sound⟩
  · intro c before after e ht he
    have htold := told_of_run h
    rw [ht] at htold
    obtain ⟨earlier, frame, request, reply, hb, hsub, method, client, payload,
      hm, rfl, hback⟩ := htold.accepted he
    obtain ⟨answer, rfl, ha⟩ := hback rfl
    refine ⟨earlier, frame, method, _, payload, answer, hb, hsub, ha, ?_⟩
    obtain ⟨hwork, hshare⟩ := ha.length_payload
    exact hm.imp (fun hm => ⟨hm, hwork hm⟩) fun hm => ⟨hm, hshare hm⟩

set_option maxRecDepth 100000 in
/-- A miner whose block was accepted has had Chain's answer. -/
theorem only_chain_accepts_rehearsal :
    ∃ earlier frame method id payload reply,
      ((stratum .linux Rpc.replay).run (rehearsal 0) performance).trace
        = earlier ++ [.frame 0 frame,
            .exchange (Rpc.requestFrame method id payload) (some reply),
            .result 0 Miner.resultAccepted]
      ∧ Rpc.IsAnswer method id reply := by
  have hlast : ((stratum .linux Rpc.replay).run (rehearsal 0)
      performance).trace.drop 6 = [.result 0 Miner.resultAccepted] := by
    decide +kernel
  have htrace := (List.take_append_drop 6 ((stratum .linux Rpc.replay).run
    (rehearsal 0) performance).trace).symm
  rw [hlast] at htrace
  obtain ⟨earlier, frame, method, id, payload, reply, hb, _, ha, _⟩ :=
    (only_chain_accepts (reachable_rehearsal 0 performance)).2 0 _ [] _ htrace
      rfl
  refine ⟨earlier, frame, method, id, payload, reply, ?_, ha⟩
  rw [htrace, hb, List.append_assoc]
  rfl
