import StnStratum.FairService
import StnStratum.Verdicts
import StnStratum.WorkCoherence
import StnStratum.Rehearsal

/-!
# Sessions are isolated

What one client sends should be no affair of the others. `Own` is what a
function of the server does when it keeps to a session: it may store into the
session, send to it and end it, and everything else of the server stays as it
is, the other sessions and their order included. All the functions behind
`service_client` are like this but one, and that one is so, too, for a SUBMIT
that does not go to Chain. Only a SUBMIT that meets the share target does
(`Qualifies`).
-/

variable {τ : Type}

open Miner (framing)

/-! ## A session's own affair -/

/-- **A change of the sessions alone**: nothing else of the server is touched,
and Chain is not asked. -/
structure Quiet (w w' : World τ) : Prop where
  /-- All of the server but its sessions is as it was: the work, what is known
  of Chain, and the client for it. -/
  server : w'.server = { w.server with
    clients := w'.server.clients
    clientCount := w'.server.clientCount }
  /-- No call is made. -/
  silent : exchangesOf w'.trace = exchangesOf w.trace

/-- **A change that is a session's own affair**: nothing of the server is
touched but the session itself. -/
structure Own (c : ConnId) (w w' : World τ) : Prop extends Quiet w w' where
  /-- The other sessions are as they were, in their order. -/
  others : w'.others c = w.others c

section Own

variable {P : Platform} {T : ChainTransport τ} {c : ConnId}
  {w w' w'' : World τ} {s : ClientSession}

theorem Quiet.refl : Quiet w w := ⟨rfl, rfl⟩

theorem Quiet.trans (h : Quiet w w') (h' : Quiet w' w'') : Quiet w w'' :=
  ⟨by rw [h'.server, h.server], h'.silent.trans h.silent⟩

/-- The work is as it was. -/
theorem Quiet.work (h : Quiet w w') : w'.server.work = w.server.work := by
  rw [h.server]

/-- It is as coherent as it was. -/
theorem Quiet.coherent (h : Quiet w w') (hw : WorkCoherent w.server) :
    WorkCoherent w'.server :=
  StratumServer.KeptOrCleared.coherent (.inl ⟨h.work, by rw [h.server]⟩) hw

theorem Own.refl : Own c w w := ⟨.refl, rfl⟩

theorem Own.trans (h : Own c w w') (h' : Own c w' w'') : Own c w w'' :=
  ⟨h.toQuiet.trans h'.toQuiet, h'.others.trans h.others⟩

/-- The sessions of other connections are as they were. -/
theorem Own.client? {d : ConnId} (h : Own c w w') (hd : d ≠ c) :
    w'.client? d = w.client? d := by
  have hfind : ∀ l : List ClientSession, l.find? (fun s => s.socket == d)
      = (l.filter fun s => s.socket != c).find? fun s => s.socket == d := by
    intro l
    rw [List.find?_filter]
    congr 1
    funext s
    by_cases hs : s.socket = d <;> simp [hs, hd]
  unfold World.client?
  rw [hfind, hfind w.server.clients]
  exact congrArg (List.find? _) h.others

theorem own_emit {e : Event} (he : e.exchange? = none) :
    Own c w (w.emit e) := by
  refine ⟨⟨rfl, ?_⟩, rfl⟩
  show (w.trace ++ [e]).filterMap _ = _
  rw [List.filterMap_append, List.filterMap_cons, he]
  exact List.append_nil _

theorem own_send (p : Bytes) : Own c w (w.send P c p) :=
  ⟨⟨rfl, rfl⟩, rfl⟩

theorem own_setClient {f : ClientSession → ClientSession}
    (hf : ∀ s, (f s).socket = s.socket) : Own c w (w.setClient c f) :=
  ⟨⟨rfl, rfl⟩, World.others_setClient w c f hf⟩

theorem own_clientRemove (reason : Removal) :
    Own c w (w.clientRemove c reason) := by
  refine ⟨⟨?_, ?_⟩, World.others_clientRemove w c reason⟩
  · unfold World.clientRemove
    split <;> rfl
  · unfold World.clientRemove
    split
    · exact (own_emit (c := c) rfl).silent
    · rfl

theorem own_clientSendResult (code : RpcCode) :
    Own c w (w.clientSendResult P c code) := by
  unfold World.clientSendResult
  dsimp only
  split
  · exact ((own_emit rfl).trans (own_send _)).trans (own_clientRemove _)
  · exact (own_emit rfl).trans (own_send _)

theorem own_clientSendJob : Own c w (w.clientSendJob P c) := by
  unfold World.clientSendJob
  split
  · exact .refl
  split
  · exact .refl
  dsimp only
  split
  · exact ((own_emit rfl).trans (own_send _)).trans (own_clientRemove _)
  split
  · exact (((own_emit rfl).trans (own_send _)).trans (own_send _)).trans
      (own_clientRemove _)
  · exact (((own_emit rfl).trans (own_send _)).trans (own_send _)).trans
      (own_setClient fun _ => rfl)

theorem own_processAddress : Own c w (w.processAddress P c) := by
  unfold World.processAddress
  split
  · exact .refl
  split
  · exact own_clientRemove _
  split
  · exact own_clientRemove _
  dsimp only
  split
  · exact (own_setClient (f := World.registered) fun _ => rfl).trans
      own_clientSendJob
  · exact own_setClient fun _ => rfl

theorem own_processHashProgress : Own c w (w.processHashProgress c) := by
  unfold World.processHashProgress
  split
  · exact .refl
  dsimp only
  split
  · exact own_clientRemove _
  split_ifs
  · exact .refl
  all_goals exact own_setClient fun _ => rfl

/-- **A submission that does not go to Chain** is the session's own affair. -/
theorem own_processSubmission (hs : w.client? c = some s)
    (hv : ∀ nonce, submissionVerdict w.server.work s ≠ .share nonce
      ∧ submissionVerdict w.server.work s ≠ .work nonce) :
    Own c w (w.processSubmission P T c) := by
  unfold World.processSubmission
  rw [hs]
  dsimp only
  cases h : submissionVerdict w.server.work s with
  | unregistered => exact own_clientRemove _
  | refused code => exact own_clientSendResult code
  | share nonce => exact absurd h (hv nonce).1
  | work nonce => exact absurd h (hv nonce).2

theorem own_stopped (status : RecvStatus) : Own c w (w.stopped c status) := by
  unfold World.stopped
  split
  · exact own_clientRemove _
  · exact own_clientRemove _
  · exact .refl

theorem own_finishTurn : Own c w (w.finishTurn c).1 := by
  unfold World.finishTurn
  split
  · exact own_setClient fun _ => rfl
  · exact .refl

/-- A job that is sent is the affair of its session. -/
theorem own_sendPendingJob (P : Platform) (w : World τ) (c : ConnId) :
    Own c w (w.sendPendingJob P c) := by
  unfold World.sendPendingJob
  split
  · exact .refl
  split
  · exact own_clientSendJob
  · exact .refl

/-- The jobs that are sent are the affair of the sessions. -/
theorem quiet_sendPendingJobs (P : Platform) (w : World τ) :
    Quiet w (w.sendPendingJobs P) := by
  unfold World.sendPendingJobs
  generalize w.sockets = cs
  induction cs generalizing w with
  | nil => exact .refl
  | cons c cs ih => exact (own_sendPendingJob P w c).toQuiet.trans (ih _)

/-- Receiving is the session's own affair. -/
theorem Receives.own {s' : ClientSession} {got : Bytes}
    (h : Receives c w w' s s' got) : Own c w w' := by
  refine ⟨⟨by rw [h.server], ?_⟩, h.others⟩
  rw [h.acts.trace, List.append_nil]

/-- **A frame that is handed over** is the session's own affair, or it is a
submission and goes to Chain. -/
theorem own_dispatch (P : Platform) (T : ChainTransport τ)
    (hs : w.client? c = some s) :
    Own c w (w.dispatch P T c s)
      ∨ s.rx.bytes.getD 5 0 = Miner.submit
        ∧ (∃ nonce, submissionVerdict w.server.work s = .share nonce
          ∨ submissionVerdict w.server.work s = .work nonce)
        ∧ w.dispatch P T c s
          = (w.emit (.frame c s.pending)).processSubmission P T c := by
  have hframe : Own c w (w.emit (.frame c s.pending)) := own_emit rfl
  unfold World.dispatch
  dsimp only
  split
  · exact .inl (hframe.trans own_processAddress)
  split
  next hsubmit =>
    by_cases hv : ∃ nonce, submissionVerdict w.server.work s = .share nonce
        ∨ submissionVerdict w.server.work s = .work nonce
    · exact .inr ⟨hsubmit, hv, rfl⟩
    · refine .inl (hframe.trans ?_)
      exact own_processSubmission hs fun nonce =>
        ⟨fun h => hv ⟨nonce, .inl h⟩, fun h => hv ⟨nonce, .inr h⟩⟩
  · exact .inl (hframe.trans own_processHashProgress)

end Own

/-! ## What goes to Chain -/

/-- **A SUBMIT for the active job that meets the share target.** -/
def Qualifies (work : ActiveWork) (frame : Bytes) : Prop :=
  frame.getD 5 0 = Miner.submit ∧ work.haveWork = true
    ∧ slice frame 8 32 = work.jobId.bytes
    ∧ work.MeetsShareTarget (readBE (slice frame 40 8))

section Serve

variable {T : ChainTransport τ} {c : ConnId} {w : World τ}
  {s : ClientSession}

/-- Only such a frame goes to Chain. -/
theorem qualifies_of_verdict {work : ActiveWork} {nonce : ℕ}
    (hu : s.rxUsed ≤ 77) (hframe : framing.IsFrame s.pending)
    (hv : submissionVerdict work s = .share nonce
      ∨ submissionVerdict work s = .work nonce) :
    Qualifies work s.pending := by
  obtain ⟨ha, hmeets⟩ : Admissible work s
      ∧ work.MeetsShareTarget s.nonce := by
    rcases hv with hv | hv
    · obtain ⟨ha, rfl, hm, _⟩ := submissionVerdict_eq_share_iff.mp hv
      exact ⟨ha, hm⟩
    · obtain ⟨ha, rfl, hm, _⟩ := submissionVerdict_eq_work_iff.mp hv
      exact ⟨ha, hm⟩
  have h8 := eight_le_of_isFrame hu hframe
  have htype := (ClientSession.type_pending h8).trans ha.submit
  have hlen := submit_le_of_isFrame hu hframe
  refine ⟨htype, ha.haveWork, ?_, ?_⟩
  · rw [ClientSession.pending, Rpc.slice_take (by omega)]
    exact ha.job
  · rw [ClientSession.pending, Rpc.slice_take (by omega)]
    exact hmeets

/-- **What a turn is**: the session's own affair, or a queued SUBMIT that
qualifies is submitted. -/
theorem Ready.own_turn (T : ChainTransport τ) (h : Ready c w)
    (hs : w.client? c = some s) :
    Own c w (w.serviceTurn .linux T c).1
      ∨ ∃ w₁ s₁, Own c w w₁ ∧ w₁.client? c = some s₁
        ∧ s₁.pending ∈ queuedFrames .linux w c s
        ∧ Qualifies w.server.work s₁.pending
        ∧ (∃ nonce, submissionVerdict w₁.server.work s₁ = .share nonce
          ∨ submissionVerdict w₁.server.work s₁ = .work nonce)
        ∧ (w.serviceTurn .linux T c).1
          = ((w₁.processSubmission .linux T c).finishTurn c).1 := by
  obtain ⟨hu, hinc⟩ := h s hs
  have hcase := serviceTurn_case .linux T hs hu hinc
  generalize w.serviceTurn .linux T c = r at hcase ⊢
  cases hcase with
  | waiting hr => exact .inl (hr.own.trans (own_stopped _))
  | refused _ hr => exact .inl (hr.own.trans (own_clientRemove _))
  | early hp => cases hp
  | @complete w₁ s₁ got hr hframe hread _ _ =>
    have hqueued : s₁.pending ∈ queuedFrames .linux w c s := by
      rw [queuedFrames, ← hread, ← List.append_assoc, ← hr.pending,
        framing.decompose_append hframe]
      exact List.mem_cons_self
    rcases own_dispatch .linux T hr.client with ho | ⟨_, ⟨nonce, hv⟩, he⟩
    · exact .inl ((hr.own.trans ho).trans own_finishTurn)
    · rw [he]
      refine .inr ⟨w₁.emit (.frame c s₁.pending), s₁,
        hr.own.trans (own_emit rfl), hr.client, hqueued, ?_, ⟨nonce, hv⟩, rfl⟩
      rw [← hr.work]
      exact qualifies_of_verdict hr.fits hframe hv

/-- **A session that has queued nothing that qualifies keeps to itself** for
as long as it is served. -/
theorem Ready.own_serviceClient (h : Ready c w)
    (hq : ∀ s, w.client? c = some s →
      ∀ f ∈ queuedFrames .linux w c s, ¬ Qualifies w.server.work f) :
    Own c w (w.serviceClient .linux T c) := by
  induction hn : (allData (w.peers c).inbox).length using
    Nat.strong_induction_on generalizing w with
  | _ n ih =>
  cases hs : w.client? c with
  | none =>
    rw [serviceClient_of_last (by rw [serviceTurn_of_none .linux T hs]),
      serviceTurn_of_none .linux T hs]
    exact .refl
  | some s =>
    have hturn : Own c w (w.serviceTurn .linux T c).1 := by
      rcases h.own_turn T hs with ho | ⟨_, s₁, _, _, hm, hqual, _⟩
      · exact ho
      · exact absurd hqual (hq s hs _ hm)
    cases hagain : (w.serviceTurn .linux T c).2 with
    | false =>
      rw [serviceClient_of_last hagain]
      exact hturn
    | true =>
      rw [h.serviceClient_of_again hagain]
      refine hturn.trans (ih _ (hn ▸ h.progress hagain) h.serviceTurn ?_ rfl)
      intro s' hs' f hf
      rw [hturn.work]
      rcases h.turn_linux (T := T) hs with
        ⟨_, hlast, _⟩ | ⟨g, rest, hqueue, _, _, _, _, hrest⟩
      · exact absurd (hagain.symm.trans hlast) Bool.false_ne_true.symm
      · rw [hrest s' hs'] at hf
        exact hq s hs f (hqueue ▸ List.mem_cons_of_mem _ hf)

end Serve

/-! ## Whatever a client sends -/

/-- **What a client sends**: from now on this is what can be received from its
connection. -/
def World.feed (w : World τ) (c : ConnId) (input : List RecvOutcome) :
    World τ :=
  w.setPeer c fun peer => { peer with inbox := input }

/-- **An input without a SUBMIT for the active job that meets the share
target.** The frames of an input are those that it completes, with what the
session already has in front. -/
def Harmless (w : World τ) (c : ConnId) (input : List RecvOutcome) : Prop :=
  ∀ s, w.client? c = some s →
    ∀ f ∈ queuedFrames .linux (w.feed c input) c s,
      ¬ Qualifies w.server.work f

/-- **Sessions are isolated.** Whatever a client sends, if it is harmless then
serving the client leaves all of the server as it is but that client's own
session, and so two such inputs leave the same server for the others. -/
theorem session_isolation (T : ChainTransport τ) {w : World τ}
    (h : (stratum .linux T).Reachable w) (c : ConnId) :
    (∀ input, Harmless w c input →
      Own c w ((w.feed c input).serviceClient .linux T c))
    ∧ ∀ input input', Harmless w c input → Harmless w c input' →
      ((w.feed c input).serviceClient .linux T c).server.work
          = ((w.feed c input').serviceClient .linux T c).server.work
        ∧ ((w.feed c input).serviceClient .linux T c).others c
          = ((w.feed c input').serviceClient .linux T c).others c := by
  have hown : ∀ input, Harmless w c input →
      Own c w ((w.feed c input).serviceClient .linux T c) := by
    intro input hi
    have hfeed : Own c w (w.feed c input) := ⟨⟨rfl, rfl⟩, rfl⟩
    have hready : Ready c (w.feed c input) := ready_of_run h c
    exact hfeed.trans (hready.own_serviceClient hi)
  refine ⟨hown, fun input input' hi hi' => ⟨?_, ?_⟩⟩
  · rw [(hown input hi).work, (hown input' hi').work]
  · rw [(hown input hi).others, (hown input' hi').others]

set_option maxRecDepth 100000 in
/-- A miner that registers a second time loses its session. It does not take
the work with it. -/
theorem session_isolation_rehearsal :
    let w := (stratum .linux Rpc.replay).run (rehearsal 0)
      (performance.take 3)
    let w' := (w.feed 0 (unread addressFrame [])).serviceClient .linux
      Rpc.replay 0
    w.server.work.haveWork = true ∧ w'.client? 0 = none ∧ Own 0 w w' := by
  intro w w'
  have hqueued : ((w.client? 0).all fun s =>
      (queuedFrames .linux (w.feed 0 (unread addressFrame [])) 0 s).all
        fun f => f.getD 5 0 != Miner.submit) = true := by decide +kernel
  refine ⟨by decide +kernel, by decide +kernel,
    (session_isolation Rpc.replay (reachable_rehearsal 0 _) 0).1 _ ?_⟩
  intro s hs f hf hq
  rw [show w.client? 0 = some s from hs, Option.all_some] at hqueued
  have hne := List.all_eq_true.mp hqueued f hf
  rw [hq.1] at hne
  exact absurd hne (by decide)
