import StnStratum.ServicePass
import StnStratum.Verdicts
import StnStratum.WorkCoherence
import StnStratum.Rehearsal

/-!
# One submission on two platforms

`process_submission` exists twice. Up to Chain's answer the two are the same:
they check the same, ask the same, and say the same to the miner. Behind the
answer to a share they are the same, too. Behind the answer to a block the
Linux function clears the work on most codes, as the protocol document has it,
and the Windows function leaves it to the next poll.

What can be compared is an `Observed`: the trace, which has the request and
the RESULT on it, the work, and what every session knows of its job.
`submissions_agree_iff` says for which submissions it is the same.
-/

variable {τ : Type}

/-! ## What is compared -/

/-- **What a submission leaves behind.** -/
structure Observed where
  /-- What was done, the request to Chain and the RESULT among it. -/
  trace : List Event
  /-- `have_work`. -/
  haveWork : Bool
  /-- `active_base`. -/
  base : Buf 32
  /-- `active_job_id`. -/
  jobId : Buf 32
  /-- `active_template_length`. -/
  templateLength : ℕ
  /-- `chain_available`. -/
  chainAvailable : Bool
  /-- `active_chain_server`. -/
  activeChainServer : ℕ
  /-- `has_job`, `sent_job_id` and `hashrate` of every session. -/
  sessions : List (ConnId × Bool × Buf 32 × UInt64)
  deriving DecidableEq

/-- What can be seen of a server, with a trace. -/
def StratumServer.observed (s : StratumServer τ) (trace : List Event) :
    Observed where
  trace := trace
  haveWork := s.work.haveWork
  base := s.work.base
  jobId := s.work.jobId
  templateLength := s.work.templateLength
  chainAvailable := s.chainAvailable
  activeChainServer := s.activeChainServer
  sessions := s.clients.map fun s =>
    (s.socket, s.hasJob, s.sentJobId, s.hashrate)

/-- What can be seen of a world. -/
def World.observed (w : World τ) : Observed := w.server.observed w.trace

/-- **The two `process_submission` agree** on a session. -/
def SubmissionsAgree (T : ChainTransport τ) (w : World τ) (c : ConnId) :
    Prop :=
  (w.processSubmission .windows T c).observed
    = (w.processSubmission .linux T c).observed

/-! ## When they do -/

/-- **The sending of a RESULT comes to the same** on both platforms. Only a
call interrupted by a signal can make a difference. -/
def SentAlike (w : World τ) (c : ConnId) : Prop :=
  takesAll Platform.windows.retry (w.peers c).outcomes Miner.resultSize
    = takesAll Platform.linux.retry (w.peers c).outcomes Miner.resultSize

/-- **The codes behind which both platforms leave the same work.** Most of
them leave it as it is. Where Chain cannot be reached another one is chosen,
if there is one, and that clears the work on either platform. -/
def SettledAlike (code : RpcCode) (chain : List ChainConfigEntry) : Prop :=
  code ∈ [.versionError, .method, .forbidden, .notFound, .rejected, .capacity]
    ∨ code ∈ [.transport, .unavailable] ∧ chain ≠ []

/-- **The code Chain answers a block with**, if there is memory to ask. -/
def World.workCode (T : ChainTransport τ) (w : World τ)
    (client : ClientSession) (nonce : ℕ) : Option RpcCode :=
  let memory := w.heap.malloc
    (w.server.work.templateLength + Miner.addressLength)
  memory.1.map fun payload =>
    (Rpc.callSubmitWork T w.server.chainTransport w.server.chainRpc memory.2
      (workPayload payload w.server.work client nonce).bytes
      (memory.2.uninit 80)).code

/-- **The submissions that both platforms treat alike.** -/
structure TreatedAlike (T : ChainTransport τ) (w : World τ) (c : ConnId)
    (client : ClientSession) : Prop where
  /-- A RESULT is sent alike. -/
  sent : submissionVerdict w.server.work client ≠ .unregistered →
    SentAlike w c
  /-- The work is settled alike behind the answer to a block. -/
  settled : ∀ nonce code, submissionVerdict w.server.work client = .work nonce →
    w.workCode T client nonce = some code →
    SettledAlike code w.server.chainServers

/-! ## The RESULT -/

section Result

variable {P : Platform} {c : ConnId} {w : World τ} {s : ClientSession}

/-- What a RESULT leaves: the server and the trace do not depend on the
platform but for whether it can be sent. -/
theorem clientSendResult_eq (P : Platform) (w : World τ) (c : ConnId)
    (code : RpcCode) :
    (w.clientSendResult P c code).server
        = (if takesAll P.retry (w.peers c).outcomes Miner.resultSize = true
          then w.server else (w.clientRemove c .resultSendFailed).server)
      ∧ (w.clientSendResult P c code).trace
        = w.trace ++ .result c (submitResultCode code)
          :: (if takesAll P.retry (w.peers c).outcomes Miner.resultSize = true
              ∨ w.client? c = none then []
            else [.removed c .resultSendFailed
              (w.peers c).received.length]) := by
  have hok : ((w.emit (.result c (submitResultCode code))).sending P c
      (resultFrame (submitResultCode code)).bytes).ok
      = takesAll P.retry (w.peers c).outcomes Miner.resultSize := by
    refine (sendAll_ok ..).trans ?_
    rw [Buf.size]
    rfl
  have hpeer : (((w.emit (.result c (submitResultCode code))).send P c
      (resultFrame (submitResultCode code)).bytes).peers c).received
      = (w.peers c).received := by
    rw [peers_send]
    rfl
  unfold World.clientSendResult
  dsimp only
  rw [hok]
  cases takesAll P.retry (w.peers c).outcomes Miner.resultSize with
  | true => exact ⟨rfl, rfl⟩
  | false =>
    rw [if_pos rfl]
    cases hs : w.client? c with
    | none =>
      have hs' : ((w.emit (.result c (submitResultCode code))).send P c
          (resultFrame (submitResultCode code)).bytes).client? c = none := hs
      rw [World.clientRemove_of_none _ _ _ hs',
        World.clientRemove_of_none _ _ _ hs]
      exact ⟨rfl, rfl⟩
    | some s =>
      have hs' : ((w.emit (.result c (submitResultCode code))).send P c
          (resultFrame (submitResultCode code)).bytes).client? c = some s := hs
      rw [World.clientRemove_of_some _ _ _ hs',
        World.clientRemove_of_some _ _ _ hs]
      refine ⟨rfl, ?_⟩
      show (w.trace ++ [_]) ++ [_] = _
      rw [hpeer, List.append_assoc]
      rfl

/-- A RESULT keeps the work. -/
theorem haveWork_clientSendResult (code : RpcCode) :
    (w.clientSendResult P c code).server.work.haveWork
      = w.server.work.haveWork :=
  congrArg ActiveWork.haveWork (World.kept_clientSendResult P w c code).1

end Result

/-! ## The work behind the answer -/

section Settle

variable {T : ChainTransport τ} {s : StratumServer τ}

/-- The codes that are reported alike leave the work alone. -/
theorem afterWork_of_kept {P : Platform} {code : RpcCode}
    (h : code ∈ [.versionError, .method, .forbidden, .notFound, .rejected,
      .capacity]) : World.afterWork P T code s = s := by
  simp only [List.mem_cons, List.not_mem_nil, or_false] at h
  rcases h with rfl | rfl | rfl | rfl | rfl | rfl <;> cases P <;> rfl

/-- **Where Chain cannot be reached** both platforms go on to the next
endpoint, and the next one finds no work, whoever cleared it. -/
theorem afterWork_of_offline {code : RpcCode}
    (h : code ∈ [.transport, .unavailable]) (hn : s.chainServers ≠ []) :
    World.afterWork .windows T code s = World.afterWork .linux T code s := by
  have hlinux : World.afterWork .linux T code s
      = s.clearWork.chainTransportNext T := by
    simp only [List.mem_cons, List.not_mem_nil, or_false] at h
    rcases h with rfl | rfl <;> rfl
  obtain ⟨e₁, he₁, h₁⟩ := s.clearWork.chainTransportNext_eq T hn
  have hcleared : s.clearWork.chainTransportNext T
      = s.chainTransportNext T := by
    obtain ⟨e, he, h₀⟩ := s.chainTransportNext_eq T hn
    obtain rfl : e₁ = e := Option.some.inj (he₁.symm.trans he)
    rw [h₁, h₀, StratumServer.clearWork_clearWork]
    rfl
  rw [hlinux, hcleared]
  simp only [List.mem_cons, List.not_mem_nil, or_false] at h
  rcases h with rfl | rfl
  · -- the Windows branch has marked Chain as offline before
    obtain ⟨e, he, h₀⟩ := s.chainTransportNext_eq T hn
    obtain ⟨e', he', h'⟩ := StratumServer.chainTransportNext_eq T
      { s with chainAvailable := false } hn
    obtain rfl : e = e' := Option.some.inj (he.symm.trans he')
    exact h'.trans h₀.symm
  · rfl

/-- Behind the other codes the Linux branch has no work. -/
theorem haveWork_afterWork_linux {code : RpcCode}
    (h : code ∉ [.versionError, .method, .forbidden, .notFound, .rejected,
      .capacity]) :
    (World.afterWork .linux T code s).work.haveWork = false := by
  have hclear : World.settleWork .linux code s = s.clearWork := by
    unfold World.settleWork
    dsimp only
    cases code <;> first | rfl | exact absurd (by decide) h
  unfold World.afterWork
  dsimp only
  rw [hclear]
  split
  · rcases StratumServer.keptOrCleared_next T s.clearWork with hk | hc
    · rw [hk.1]
      rfl
    · exact hc.haveWork
  · rfl

/-- Behind a code that is settled elsewhere, the Windows branch has kept
it. -/
theorem haveWork_afterWork_windows {code : RpcCode}
    (h : ¬ SettledAlike code s.chainServers)
    (hk : code ∉ [.versionError, .method, .forbidden, .notFound, .rejected,
      .capacity]) :
    (World.afterWork .windows T code s).work.haveWork = s.work.haveWork := by
  have hnil : code ∈ [.transport, .unavailable] → s.chainServers = [] :=
    fun ho => not_not.mp fun hn => h (.inr ⟨ho, hn⟩)
  unfold World.afterWork World.settleWork
  dsimp only
  split
  next ho =>
    have hs := hnil (by rcases ho with rfl | rfl <;> decide)
    unfold StratumServer.chainTransportNext
    rcases ho with rfl | rfl <;>
    · rw [if_pos (by simp [hs])]
      rfl
  next ho =>
    rw [if_neg fun ht => ho (.inl ht)]

/-- **When the work is settled alike**, of a server that has some. -/
theorem afterWork_observed_iff {code : RpcCode} (trace : List Event)
    (hw : s.work.haveWork = true) :
    (World.afterWork .windows T code s).observed trace
        = (World.afterWork .linux T code s).observed trace
      ↔ SettledAlike code s.chainServers := by
  constructor
  · intro he
    by_contra h
    have hk : code ∉ [.versionError, .method, .forbidden, .notFound,
      .rejected, .capacity] := fun hk => h (.inl hk)
    have hhave := congrArg Observed.haveWork he
    unfold StratumServer.observed at hhave
    dsimp only at hhave
    rw [haveWork_afterWork_linux hk, haveWork_afterWork_windows h hk, hw]
      at hhave
    cases hhave
  · rintro (hk | ⟨ho, hn⟩)
    · rw [afterWork_of_kept hk, afterWork_of_kept hk]
    · rw [afterWork_of_offline ho hn]

end Settle

/-! ## The submission -/

section Submission

variable {T : ChainTransport τ} {w : World τ} {c : ConnId}
  {client : ClientSession}

/-- A RESULT keeps the endpoints. -/
theorem chainServers_clientSendResult (P : Platform) (code : RpcCode)
    (hs : w.client? c = some client) :
    (w.clientSendResult P c code).server.chainServers
      = w.server.chainServers := by
  rw [(clientSendResult_eq P w c code).1, World.clientRemove_of_some _ _ _ hs]
  split <;> rfl

/-- **What is left behind a RESULT and a change of the server** is the same
exactly where the RESULT is sent alike and the changes are seen alike. -/
theorem observed_result_iff (code : RpcCode)
    {f g : StratumServer τ → StratumServer τ} {p : Prop}
    (hs : w.client? c = some client) (hfg : ∀ s : StratumServer τ,
      s.work.haveWork = w.server.work.haveWork →
      s.chainServers = w.server.chainServers → ∀ trace,
        ((f s).observed trace = (g s).observed trace ↔ p)) :
    ((w.clientSendResult .windows c code).setServer f).observed
        = ((w.clientSendResult .linux c code).setServer g).observed
      ↔ SentAlike w c ∧ p := by
  show (f (w.clientSendResult .windows c code).server).observed
      (w.clientSendResult .windows c code).trace
    = (g (w.clientSendResult .linux c code).server).observed
      (w.clientSendResult .linux c code).trace ↔ _
  have hwork := haveWork_clientSendResult (P := .windows) (c := c) (w := w)
    code
  have hchain := chainServers_clientSendResult .windows code hs
  obtain ⟨hserver, htrace⟩ := clientSendResult_eq .windows w c code
  obtain ⟨hserver', htrace'⟩ := clientSendResult_eq .linux w c code
  by_cases h : SentAlike w c
  · -- both platforms have sent the RESULT, or neither has
    rw [h, ← hserver'] at hserver
    rw [h, ← htrace'] at htrace
    rw [← hserver, ← htrace, and_iff_right h]
    exact hfg _ hwork hchain _
  · refine ⟨fun he => absurd ?_ h, fun hp => absurd hp.1 h⟩
    have hlen : (w.clientSendResult .windows c code).trace
        = (w.clientSendResult .linux c code).trace :=
      congrArg Observed.trace he
    rw [htrace, htrace', List.append_cancel_left_eq, hs] at hlen
    have hlast := (List.cons.inj hlen).2
    unfold SentAlike
    cases hw : takesAll Platform.windows.retry (w.peers c).outcomes
        Miner.resultSize <;>
      cases hl : takesAll Platform.linux.retry (w.peers c).outcomes
        Miner.resultSize <;>
      rw [hw, hl] at hlast <;> first | rfl | cases hlast

/-- With a RESULT alone it is the RESULT that counts. -/
theorem observed_sent_iff {code : RpcCode} (hs : w.client? c = some client) :
    (w.clientSendResult .windows c code).observed
        = (w.clientSendResult .linux c code).observed ↔ SentAlike w c := by
  have hid : ∀ w : World τ, w.setServer id = w := fun _ => rfl
  have h := observed_result_iff code (f := id) (g := id) hs
    fun _ _ _ _ => iff_of_true rfl trivial
  rwa [and_true, hid, hid] at h

/-- **When the two platforms agree on a submission.** -/
theorem submissions_agree_iff (T : ChainTransport τ) (w : World τ)
    (c : ConnId) :
    SubmissionsAgree T w c
      ↔ ∀ client, w.client? c = some client → TreatedAlike T w c client := by
  unfold SubmissionsAgree World.processSubmission
  cases hs : w.client? c with
  | none => exact ⟨fun _ _ h => (nomatch h), fun _ => rfl⟩
  | some client =>
  dsimp only
  have hone : (∀ client', some client = some client' →
      TreatedAlike T w c client') ↔ TreatedAlike T w c client :=
    ⟨fun h => h client rfl, fun h _ hc => Option.some.inj hc ▸ h⟩
  rw [hone]
  -- where only the RESULT counts
  have hsent : submissionVerdict w.server.work client ≠ .unregistered →
      (∀ nonce, submissionVerdict w.server.work client ≠ .work nonce) →
      (SentAlike w c ↔ TreatedAlike T w c client) := by
    intro hne hnw
    exact ⟨fun h => ⟨fun _ => h, fun n _ hw => absurd hw (hnw n)⟩,
      fun h => h.sent hne⟩
  cases hv : submissionVerdict w.server.work client with
  | unregistered =>
    refine ⟨fun _ => ⟨fun h => absurd hv h, fun _ _ h => ?_⟩, fun _ => rfl⟩
    cases hv.symm.trans h
  | refused code =>
    rw [hv] at hsent
    rw [← hsent nofun nofun]
    dsimp only
    exact observed_sent_iff hs
  | share nonce =>
    rw [hv] at hsent
    rw [← hsent nofun nofun]
    dsimp only
    unfold World.submitShare
    dsimp only
    generalize Rpc.callSubmitShare T w.server.chainTransport
      w.server.chainRpc w.heap _ (w.heap.uninit 32) = r
    have hs' : (w.called r).client? c = some client := hs
    split
    · have h := observed_result_iff r.code (f := StratumServer.clearWork)
        (g := StratumServer.clearWork) hs'
        fun _ _ _ _ => iff_of_true rfl trivial
      rwa [and_true] at h
    · exact observed_sent_iff hs'
  | work nonce =>
    dsimp only
    have hwork : w.server.work.haveWork = true :=
      (admissible_of_verdict (.inr hv)).1.haveWork
    have hall : TreatedAlike T w c client ↔ SentAlike w c
        ∧ ∀ code, w.workCode T client nonce = some code →
          SettledAlike code w.server.chainServers := by
      constructor
      · exact fun h => ⟨h.sent (by rw [hv]; exact nofun), fun code hc =>
          h.settled nonce code hv hc⟩
      · rintro ⟨h₁, h₂⟩
        refine ⟨fun _ => h₁, fun n code hn hc => ?_⟩
        obtain rfl := Verdict.work.inj (hv.symm.trans hn)
        exact h₂ code hc
    rw [hall]
    unfold World.submitWork World.workCode
    dsimp only
    cases hm : (w.heap.malloc
        (w.server.work.templateLength + Miner.addressLength)).1 with
    | none =>
      dsimp only
      rw [Option.map_none]
      have hs' : ({ w with heap := (w.heap.malloc
        (w.server.work.templateLength + Miner.addressLength)).2 } :
        World τ).client? c = some client := hs
      exact (observed_sent_iff hs').trans
        ⟨fun h => ⟨h, fun _ hc => (nomatch hc)⟩, fun h => h.1⟩
    | some payload =>
      dsimp only
      rw [Option.map_some]
      generalize Rpc.callSubmitWork T w.server.chainTransport
        w.server.chainRpc (w.heap.malloc _).2 _ _ = r
      have hs' : (w.called r).client? c = some client := hs
      refine (observed_result_iff _ (p := SettledAlike r.code
        w.server.chainServers) hs' fun s hh hchain trace => ?_).trans ?_
      · rw [afterWork_observed_iff trace (hh.trans hwork), hchain]
        rfl
      · exact and_congr_right fun _ => ⟨fun h _ hc => Option.some.inj hc ▸ h,
          fun h => h _ rfl⟩

/-- Where they agree there is work on both or on neither. -/
theorem SubmissionsAgree.haveWork {T : ChainTransport τ} {w : World τ}
    {c : ConnId} (h : SubmissionsAgree T w c) :
    (w.processSubmission .windows T c).server.work.haveWork
      = (w.processSubmission .linux T c).server.work.haveWork :=
  congrArg Observed.haveWork h

end Submission

/-! ## A block that both accept -/

set_option maxRecDepth 100000 in
/-- **A submission they do not agree on**: Chain accepts the block, and on
Linux there is no work any more, where on Windows there is. -/
theorem not_submissions_agree_solved :
    (solved 0).client? 0 = some solver
      ∧ solver.addressRegistered = true
      ∧ ((solved 0).processSubmission .linux Rpc.replay 0).server.work.haveWork
        = false
      ∧ ((solved 0).processSubmission .windows
        Rpc.replay 0).server.work.haveWork = true
      ∧ ¬ SubmissionsAgree Rpc.replay (solved 0) 0 := by
  obtain ⟨hlinux, hwindows⟩ :
      ((solved 0).processSubmission .linux Rpc.replay 0).server.work.haveWork
          = false
        ∧ ((solved 0).processSubmission .windows
          Rpc.replay 0).server.work.haveWork = true := by decide +kernel
  refine ⟨rfl, rfl, hlinux, hwindows, fun he => ?_⟩
  have hhave := he.haveWork
  rw [hlinux, hwindows] at hhave
  cases hhave
