import StnStratum.Acceptance
import StnStratum.Rehearsal
import StnStratum.WorkCoherence

/-!
# Work that cannot be submitted

A template that Chain sends is installed if it is well formed and fits the
template buffer, and jobs are made of it. Two things are not looked at then
and matter only once a miner has solved it. The payload of a submission is the
template with 69 bytes of address in it, and has the same bound as the
template alone. And the chain target is only read when a submission is
judged, where zero and targets with the top bit set are refused, while the
job codec makes a share target of any. So there is work for which jobs go out
and no solution can come back, and the two theorems say which.
-/

variable {τ : Type}

/-! ## The target of a job -/

/-- **A job's share target is the server's own** exactly for the chain targets
from `1` to `2^255 - 1`: for the others the server has none. -/
theorem jobTarget_iff {t : Bytes} {header : Buf Miner.jobHeaderSize}
    {block : ℕ} (ht : Rpc.IsTemplate t)
    (hb : minerJobBuild t t.length = some (header, block)) :
    Server.shareTargetFromChain
        (slice t (68 + Miner.chainTargetOffset) 32)
      = some (slice header.bytes Miner.jobShareTargetOffset 32)
      ↔ 1 ≤ readBE (slice t (68 + Miner.chainTargetOffset) 32)
        ∧ readBE (slice t (68 + Miner.chainTargetOffset) 32) < 2 ^ 255 := by
  have h236 := ht.length
  have hl : (slice t (68 + Miner.chainTargetOffset) 32).length = 32 :=
    length_slice (by show 68 + 120 + 32 ≤ _; omega)
  obtain ⟨_, _, hbytes⟩ := minerJobBuild_eq_some le_rfl hb
  -- the field of the header is the codec's share target
  have hfield : slice header.bytes Miner.jobShareTargetOffset 32
      = MinerJob.shareTargetFromChain
        (slice t (68 + Miner.chainTargetOffset) 32) := by
    rw [hbytes]
    exact MinerJob.shareTarget_headerBytes _ h236
  rw [Server.shareTargetFromChain_eq_some_iff hl, hfield]
  exact and_iff_left rfl

/-- A job with the least target there is has the server's own share target. -/
theorem jobTarget_one :
    ∃ (header : Buf Miner.jobHeaderSize) (block : ℕ),
      minerJobBuild (Rpc.mineableTemplate (List.replicate 31 0 ++ [1]) 0) 236
          = some (header, block)
        ∧ Server.shareTargetFromChain (List.replicate 31 0 ++ [1])
          = some (slice header.bytes Miner.jobShareTargetOffset 32) := by
  have hlen : (List.replicate 31 (0 : UInt8) ++ [1]).length = 32 := rfl
  have hl := @Rpc.length_mineableTemplate _ 0 hlen
  have htarget := @Rpc.target_mineableTemplate _ 0 hlen
  obtain ⟨⟨header, block⟩, hb⟩ := Option.isSome_iff_exists.mp
    ((minerJobBuild_isSome_iff (Rpc.mineableTemplate
      (List.replicate 31 0 ++ [1]) 0) 236).mpr (by decide))
  have ht := @Rpc.isTemplate_mineableTemplate _ 0 hlen (by decide)
  have h := (jobTarget_iff ht ((congrArg _ hl).trans hb)).mpr
    (by rw [htarget]; decide)
  rw [htarget] at h
  exact ⟨header, block, hb, h⟩

/-- **A template whose jobs nobody can submit for**: its chain target is zero,
the client takes it, a job is built for it, and the server has no share target
to judge a submission by. -/
theorem jobTarget_zero :
    Rpc.IsTemplate (Rpc.mineableTemplate (List.replicate 32 0) 0)
      ∧ (Rpc.mineableTemplate (List.replicate 32 0) 0).length = 236
      ∧ ∃ (header : Buf Miner.jobHeaderSize) (block : ℕ),
        minerJobBuild (Rpc.mineableTemplate (List.replicate 32 0) 0) 236
            = some (header, block)
          ∧ Server.shareTargetFromChain (slice (Rpc.mineableTemplate
              (List.replicate 32 0) 0) (68 + Miner.chainTargetOffset) 32)
            ≠ some (slice header.bytes Miner.jobShareTargetOffset 32) := by
  have hlen : (List.replicate 32 (0 : UInt8)).length = 32 := rfl
  obtain ⟨⟨header, block⟩, hb⟩ := Option.isSome_iff_exists.mp
    ((minerJobBuild_isSome_iff (Rpc.mineableTemplate
      (List.replicate 32 0) 0) 236).mpr (by decide))
  refine ⟨Rpc.isTemplate_mineableTemplate hlen (by decide),
    Rpc.length_mineableTemplate hlen, header, block, hb, ?_⟩
  rw [Rpc.target_mineableTemplate hlen]
  exact (Option.some_ne_none _).symm

/-! ## The size of a submission -/

namespace World

variable {w : World τ} {c : ConnId} {client : ClientSession}

/-- The exchange of a call that succeeds in asking is on the trace. -/
theorem mem_exchangesOf_called {P : Platform} {capacity : ℕ}
    {r : Rpc.Call τ capacity} (hs : w.client? c = some client)
    {request : Bytes} {reply : Option Bytes}
    (hr : r.exchanged = some (request, reply)) (f : StratumServer τ →
      StratumServer τ) :
    ∃ es, (((w.called r).clientSendResult P c r.code).setServer f).trace
        = w.trace ++ es
      ∧ (request, reply) ∈ exchangesOf es := by
  obtain ⟨es, _, ha⟩ := answers_clientSendResult P (w := w.called r)
    (s := client) hs r.code
  refine ⟨exchangeEvents r ++ .result c (submitResultCode r.code) :: es, ?_,
    ?_⟩
  · rw [← List.append_assoc]
    exact ha.trace
  · rw [mem_exchangesOf, exchangeEvents, hr]
    exact List.mem_append_left _ List.mem_cons_self

/-- **A block within the bound is handed to the transport.** -/
theorem submitWork_asks {P : Platform} {T : ChainTransport τ}
    (hs : w.client? c = some client) (hg : w.heap.Generous)
    (h68 : 68 ≤ w.server.work.templateLength)
    (hle : w.server.work.templateLength + 69 ≤ Rpc.maxPayload) (nonce : ℕ) :
    ∃ es, (w.submitWork P T c client nonce).trace = w.trace ++ es
      ∧ ∃ p ∈ exchangesOf es, Rpc.methodOf p.1 = Rpc.submitWork := by
  obtain ⟨⟨b, hb⟩, hg'⟩ := hg.malloc
    (w.server.work.templateLength + Miner.addressLength)
  unfold submitWork
  dsimp only
  rw [hb]
  dsimp only
  generalize (w.heap.malloc _).2 = heap at hg' ⊢
  have hlen := (workPayload b w.server.work client nonce).size
  obtain ⟨q, r, heap', hcall⟩ := Rpc.call_of_generous T
    w.server.chainTransport w.server.chainRpc Rpc.submitWork
    (some (heap.uninit 80)) (by rw [hlen]; exact hle) (by decide) hg'
  obtain ⟨reply, he⟩ := Rpc.exchangeWith_exchanged T w.server.chainTransport
    w.server.chainRpc heap' Rpc.submitWork
    (workPayload b w.server.work client nonce).bytes
    (some (heap.uninit 80)) q r
  rw [← hcall] at he
  have hasked : Rpc.callSubmitWork T w.server.chainTransport
      w.server.chainRpc heap (workPayload b w.server.work client nonce).bytes
      (heap.uninit 80)
      = Rpc.call T w.server.chainTransport w.server.chainRpc heap
        Rpc.submitWork (workPayload b w.server.work client nonce).bytes
        (some (heap.uninit 80)) := by
    rw [Rpc.callSubmitWork, if_neg]
    rw [hlen]
    show ¬ _ + 69 < 68 + 69
    omega
  rw [← hasked] at he
  obtain ⟨es, ht, hm⟩ := mem_exchangesOf_called (P := P) hs he
    (afterWork P T _)
  exact ⟨es, ht, _, hm, Rpc.methodOf_requestFrame _ _ _ (by decide)⟩

end World

/-- **A block that is handed to the transport** leaves room for the address,
and has a chain target that the server has a share target for. -/
theorem bound_of_asked {T : ChainTransport τ} {w : World τ} {c : ConnId}
    {client : ClientSession} (hs : w.client? c = some client)
    (h : ∃ es, (w.processSubmission .linux T c).trace = w.trace ++ es
      ∧ ∃ p ∈ exchangesOf es, Rpc.methodOf p.1 = Rpc.submitWork) :
    w.server.work.templateLength ≤ 1051948
      ∧ 1 ≤ readBE w.server.work.chainTarget
      ∧ readBE w.server.work.chainTarget < 2 ^ 255 := by
  obtain ⟨es, ht, p, hp, hm⟩ := h
  obtain ⟨es', ht', _, hq⟩ := requests_of_submission .linux T hs
  obtain rfl : es = es' := List.append_cancel_left (ht.symm.trans ht')
  obtain ⟨_, ⟨share, hshare, _⟩, _⟩ := (hq p hp).sound
  obtain ⟨hT, _⟩ := (Server.shareTargetFromChain_eq_some_iff
    w.server.work.length_chainTarget).mp hshare
  have hbound : _ + 69 ≤ 1052017 := (hq p hp).bound hm
  exact ⟨by omega, hT⟩

/-- **A solved block is handed to the transport** exactly where the template
leaves room for the address and its chain target is one the server has a share
target for. The work is as the server has installed it, the session has its
address and a SUBMIT for the work whose digest meets the chain target, and
there is memory. -/
theorem solved_work_asks_iff {T : ChainTransport τ} {w : World τ} {c : ConnId}
    {client : ClientSession} (hw : WorkCoherent w.server)
    (hwork : w.server.work.haveWork = true)
    (hs : w.client? c = some client) (hreg : client.addressRegistered = true)
    (hheader : Miner.headerValid client.rx.bytes = true)
    (hsubmit : client.rx.bytes.getD 5 0 = Miner.submit)
    (hjob : slice client.rx.bytes 8 32 = w.server.work.jobId.bytes)
    (hmeets : w.server.work.MeetsChainTarget client.nonce)
    (hg : w.heap.Generous) :
    (∃ es, (w.processSubmission .linux T c).trace = w.trace ++ es
        ∧ ∃ p ∈ exchangesOf es, Rpc.methodOf p.1 = Rpc.submitWork)
      ↔ w.server.work.templateLength ≤ 1051948
        ∧ 1 ≤ readBE w.server.work.chainTarget
        ∧ readBE w.server.work.chainTarget < 2 ^ 255 := by
  have hi := (hw.installed hwork).2
  have h236 := hi.length.1
  have hadm : Admissible w.server.work client :=
    ⟨hreg, hheader, hsubmit, hwork, hjob, by omega, hi.blockLength, by
      have := hi.blockLength
      have : w.server.work.blockLength = _ := hi.blockLength
      omega⟩
  constructor
  · exact bound_of_asked hs
  · rintro ⟨hle, hT⟩
    have hshare := (Server.shareTargetFromChain_eq_some_iff
      w.server.work.length_chainTarget).mpr ⟨hT, rfl⟩
    have hv : submissionVerdict w.server.work client = .work client.nonce := by
      refine submissionVerdict_eq_work_iff.mpr
        ⟨hadm, rfl, ⟨_, hshare, ?_⟩, hmeets⟩
      exact le_trans hmeets (le_readBE_scaleTarget
        w.server.work.length_chainTarget hT.2)
    unfold World.processSubmission
    rw [hs]
    dsimp only
    rw [hv]
    exact World.submitWork_asks hs hg (by omega) (by
      show _ ≤ 1052017
      omega) _

/-! ### A solved block -/

section Solved

variable {tail : ℕ}

theorem work_withSolver (w : World τ) :
    (withSolver w).server.work = w.server.work := rfl

theorem coherent_withSolver {w : World τ} (h : WorkCoherent w.server) :
    WorkCoherent (withSolver w).server :=
  ⟨h.installed, h.cleared⟩

theorem length_easyTemplate (tail : ℕ) :
    (Rpc.mineableTemplate easyTarget tail).length = 236 + tail :=
  Rpc.length_mineableTemplate rfl

/-- The template has been installed. -/
theorem work_solved (h : 236 + tail ≤ Rpc.maxPayload) :
    WorkCoherent (solved tail).server
      ∧ (solved tail).server.work.haveWork = true
      ∧ (solved tail).server.work.templateLength = 236 + tail
      ∧ (solved tail).server.work.template.Begins
        (Rpc.mineableTemplate easyTarget tail) := by
  have hmax : 236 + tail ≤ 1052017 := h
  have hl := length_easyTemplate tail
  have ht : Rpc.IsTemplate (Rpc.mineableTemplate easyTarget tail) :=
    Rpc.isTemplate_mineableTemplate rfl (by omega)
  obtain ⟨hc, hx⟩ := poll_replay (w := rehearsal tail) rfl List.not_mem_nil ht
    (by rw [hl]; exact h)
  obtain ⟨frame, hx', hwork, hlength, htemplate⟩ :=
    World.refreshWork_of_ok (P := .linux) hc
  obtain ⟨_, hframe⟩ := Prod.mk.inj (Option.some.inj (hx.symm.trans hx'))
  obtain rfl := Option.some.inj hframe
  rw [Rpc.payloadOf_answerFrame] at hlength htemplate
  have hco : WorkCoherent (rehearsal tail).server :=
    .of_isCleared ⟨rfl, rfl, rfl, rfl⟩
  refine ⟨coherent_withSolver
    (World.workCoherent_refreshWork .linux Rpc.replay hco), ?_⟩
  rw [solved, work_withSolver]
  refine ⟨hwork, hlength.trans hl, ?_⟩
  rw [htemplate]
  have := (Buf.begins_nil (rehearsal tail).server.work.template).write
    (i := 0) (s := Rpc.mineableTemplate easyTarget tail) rfl
    (by rw [hl, Nat.zero_add]; exact h)
  rwa [List.nil_append] at this

/-- The fields of the template in front of the tail do not depend on it. -/
theorem slice_solved (h : 236 + tail ≤ Rpc.maxPayload) {off len : ℕ}
    (hl : off + len ≤ 236) :
    slice (solved tail).server.work.template.bytes off len
      = slice (Rpc.templateFront easyTarget tail) off len := by
  rw [(work_solved h).2.2.2.slice_eq (by rw [length_easyTemplate]; omega),
    Rpc.slice_mineableTemplate rfl hl]

/-- The miner's SUBMIT is for it. -/
theorem job_solved (h : 236 + tail ≤ Rpc.maxPayload) :
    slice solver.rx.bytes 8 32 = (solved tail).server.work.jobId.bytes := by
  obtain ⟨hco, hwork, _⟩ := work_solved h
  rw [(hco.installed hwork).2.jobId, slice_solved h (by decide)]
  rfl

/-- Its chain target. -/
theorem chainTarget_solved (h : 236 + tail ≤ Rpc.maxPayload) :
    (solved tail).server.work.chainTarget = easyTarget := by
  rw [ActiveWork.chainTarget, slice_solved h (by decide)]
  rfl

set_option maxRecDepth 100000 in
/-- The header of the template with the nonce zero has a digest below it. -/
theorem easyTarget_met : readBE (ShareVerify.digest (ShareVerify.header
    (slice (Rpc.templateFront easyTarget 0) 68 168) 0).bytes)
      ≤ readBE easyTarget := by
  decide +kernel

/-- The front of the block is read from the template. -/
theorem slice_block (work : ActiveWork) (n : ℕ) :
    slice work.block 0 n = slice work.template.bytes 68 n := by
  rw [ActiveWork.block, slice, slice, List.drop_zero]

/-- The miner's SUBMIT meets the chain target. -/
theorem meets_solved (h : 236 + tail ≤ Rpc.maxPayload) :
    (solved tail).server.work.MeetsChainTarget solver.nonce := by
  have hblock : slice (solved tail).server.work.block 0 168
      = slice (Rpc.templateFront easyTarget 0) 68 168 := by
    rw [slice_block, slice_solved h (by decide)]
    rfl
  have hnonce : solver.nonce = 0 := by decide
  have hs : (slice (Rpc.templateFront easyTarget 0) 68 168).length = 168 := rfl
  have heasy := easyTarget_met
  unfold ActiveWork.MeetsChainTarget ActiveWork.proof ShareVerify.header
  unfold ShareVerify.header at heasy
  rw [chainTarget_solved h, hblock, hnonce]
  rwa [slice_self hs] at heasy

end Solved

/-- A solved block of the least size is handed to the transport. -/
theorem solved_work_small :
    ∃ es, ((solved 0).processSubmission .linux Rpc.replay 0).trace
        = (solved 0).trace ++ es
      ∧ ∃ p ∈ exchangesOf es, Rpc.methodOf p.1 = Rpc.submitWork := by
  have h : 236 + 0 ≤ Rpc.maxPayload := by decide
  obtain ⟨hco, hwork, hlength, _⟩ := work_solved h
  have hs : (solved 0).client? 0 = some solver := rfl
  refine (solved_work_asks_iff hco hwork hs rfl (by decide)
    (by decide) (job_solved h) (meets_solved h) List.not_mem_nil).mpr ?_
  rw [hlength, chainTarget_solved h]
  decide

/-- **A block that is solved for nothing.** The template of 1052017 bytes is
installed, the miner is registered, its SUBMIT is for the work and meets the
chain target, there is memory, and no request is handed to the transport. -/
theorem solved_work_large :
    WorkCoherent (solved 1051781).server
      ∧ (solved 1051781).server.work.haveWork = true
      ∧ (solved 1051781).server.work.templateLength = 1052017
      ∧ (solved 1051781).client? 0 = some solver
      ∧ solver.addressRegistered = true
      ∧ Miner.headerValid solver.rx.bytes = true
      ∧ solver.rx.bytes.getD 5 0 = Miner.submit
      ∧ slice solver.rx.bytes 8 32 = (solved 1051781).server.work.jobId.bytes
      ∧ (solved 1051781).server.work.MeetsChainTarget solver.nonce
      ∧ (solved 1051781).heap.Generous
      ∧ ¬ ∃ es, ((solved 1051781).processSubmission .linux Rpc.replay 0).trace
          = (solved 1051781).trace ++ es
        ∧ ∃ p ∈ exchangesOf es, Rpc.methodOf p.1 = Rpc.submitWork := by
  have h : 236 + 1051781 ≤ Rpc.maxPayload := by decide
  obtain ⟨hco, hwork, hlength, _⟩ := work_solved h
  refine ⟨hco, hwork, hlength, rfl, rfl, by decide, by decide, job_solved h,
    meets_solved h, List.not_mem_nil, fun hasked => ?_⟩
  have hbound := (bound_of_asked rfl hasked).1
  rw [hlength] at hbound
  exact absurd hbound (by decide)
