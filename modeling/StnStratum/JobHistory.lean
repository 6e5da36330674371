import StnStratum.JobFanOut
import StnStratum.SubmissionContent

/-!
# What a submission is judged by

A poll receives over the active template even where it then finds that
nothing has changed, so the template a submission is judged by need not be
the one a JOB was built from. It is the same one if Chain gives no work ID
twice: the template and every JOB on the trace were issued by Chain
(`Sourced`), and the last JOB of a session with an address is for the work
ID there is. This module puts the two together.
-/

variable {τ : Type}

/-! ## Templates that Chain has issued -/

/-- **Chain has issued a template**: it has answered a poll with it. -/
def Issued (trace : List Event) (t : Bytes) : Prop :=
  ∃ id frame, Event.exchange (Rpc.requestFrame Rpc.miningTemplate id [])
      (some frame) ∈ trace
    ∧ Rpc.IsAnswer Rpc.miningTemplate id frame ∧ Rpc.payloadOf frame = t

namespace Issued

variable {trace : List Event} {t t' : Bytes}

theorem append (h : Issued trace t) (es : List Event) :
    Issued (trace ++ es) t := by
  obtain ⟨id, frame, hm, h⟩ := h
  exact ⟨id, frame, List.mem_append_left _ hm, h⟩

/-- It can be mined. -/
theorem isTemplate (h : Issued trace t) : Rpc.IsTemplate t := by
  obtain ⟨_, frame, _, ha, rfl⟩ := h
  exact (Rpc.refusesPayload_template_iff frame).mp ha.payload

end Issued

/-- **Chain never issues two templates for the same work**: with the same base
and work ID and different remaining bytes, or with the same work ID and
different bases. -/
structure Distinct (trace : List Event) : Prop where
  /-- The base and the work ID determine the rest. -/
  rest : ∀ t t', Issued trace t → Issued trace t' →
    slice t 0 32 = slice t' 0 32 → slice t 32 32 = slice t' 32 32 →
    t.drop 64 = t'.drop 64
  /-- The work ID determines the base. -/
  base : ∀ t t', Issued trace t → Issued trace t' →
    slice t 32 32 = slice t' 32 32 → slice t 0 32 = slice t' 0 32

/-- **A template is determined by its work ID.** -/
theorem Distinct.eq {trace : List Event} {t t' : Bytes} (hd : Distinct trace)
    (h : Issued trace t) (h' : Issued trace t')
    (hid : slice t 32 32 = slice t' 32 32) : t = t' := by
  have hb := hd.base t t' h h' hid
  have hr := hd.rest t t' h h' hb hid
  have hsplit : ∀ u : Bytes, slice u 0 32 ++ slice u 32 32 ++ u.drop 64 = u := by
    intro u
    rw [slice_append_slice, slice, List.drop_zero, List.take_append_drop]
  rw [← hsplit t, hb, hid, hr, hsplit]

/-! ## The JOB for a template -/

/-- **The JOB for a template**: its header and its block. -/
def jobOf (t : Bytes) : Bytes × Bytes :=
  (MinerJob.headerBytes t t.length, t.drop 68)

/-- A JOB is for the work ID of its template. -/
theorem jobIdOf_jobOf {t : Bytes} (h : 236 ≤ t.length) :
    jobIdOf (jobOf t) = slice t 32 32 :=
  jobIdOf_headerBytes (by omega) _ _

/-- Its header gives the length of its block. -/
theorem blockLength_jobOf {t : Bytes} (h : 236 ≤ t.length)
    (hfit : t.length - 68 ≤ 2 ^ 32 - 1) :
    readBE (slice (jobOf t).1 Miner.jobBlockLengthOffset 4)
      = (jobOf t).2.length := by
  have hsome := (minerJobBuild_isSome_iff t t.length).mpr ⟨h, hfit⟩
  obtain ⟨⟨b, n⟩, hb⟩ := Option.isSome_iff_exists.mp hsome
  obtain ⟨_, rfl, hh⟩ := minerJobBuild_eq_some le_rfl hb
  have hj := (isJob_of_minerJobBuild le_rfl hb).block_length
  rw [hh] at hj
  refine hj.trans (congrArg List.length ?_)
  exact List.take_of_length_le (le_of_eq List.length_drop)

namespace ActiveWork

/-- **The work is a template**: the template begins with its bytes. What is
behind them is left from templates that were longer. -/
structure Stores (work : ActiveWork) (t : Bytes) : Prop where
  /-- There is a block. -/
  block : 236 ≤ t.length
  /-- The bytes. -/
  begins : work.template.Begins t
  /-- Their number. -/
  length : work.templateLength = t.length

namespace Stores

variable {work : ActiveWork} {t : Bytes}

theorem slice_eq (h : work.Stores t) (off len : ℕ)
    (hl : off + len ≤ t.length) :
    slice work.template.bytes off len = slice t off len :=
  h.begins.slice_eq hl

/-- The block is the template's. -/
theorem wholeBlock (h : work.Stores t) : work.wholeBlock = t.drop 68 := by
  have := h.block
  rw [ActiveWork.wholeBlock, h.length, h.slice_eq _ _ (by omega), slice]
  exact List.take_of_length_le (le_of_eq List.length_drop)

/-- So is the chain target. -/
theorem chainTarget (h : work.Stores t) :
    work.chainTarget = slice t (68 + Miner.chainTargetOffset) 32 :=
  h.slice_eq _ _ (by
    have := h.block
    show 68 + 120 + 32 ≤ _
    omega)

/-- So is the header. -/
theorem headerBytes (h : work.Stores t) :
    MinerJob.headerBytes work.template.bytes work.templateLength
      = MinerJob.headerBytes t t.length := by
  have := h.block
  unfold MinerJob.headerBytes
  rw [h.length, h.slice_eq 32 _ (by omega),
    h.slice_eq (68 + Miner.chainTargetOffset) _
      (by show 68 + 120 + 32 ≤ _; omega),
    h.slice_eq (68 + Miner.chainNonceOffset) _
      (by show 68 + 152 + 8 ≤ _; omega)]

/-- **A JOB that is built from the work is that of the template.** -/
theorem job (h : work.Stores t) {c : ConnId} {header block : Bytes}
    (hf : (Event.job c header block).Fits work) :
    (header, block) = jobOf t := by
  obtain ⟨_, b, n, hb, rfl, rfl⟩ := hf
  obtain ⟨_, rfl, hh⟩ := minerJobBuild_eq_some (by
    rw [work.template.size]
    exact work.fits) hb
  refine Prod.ext ?_ h.wholeBlock
  exact hh.trans h.headerBytes

end Stores

end ActiveWork

/-- **The work that a poll installs** is the template of its answer. -/
theorem World.Installs.stores {w w' : World τ} {frame : Bytes}
    (h : World.Installs w w' frame) :
    w'.server.work.Stores (Rpc.payloadOf frame) := by
  refine ⟨h.template.length, ?_, h.length⟩
  have hle := w'.server.work.fits
  rw [h.length] at hle
  have := (w.server.work.template.begins_nil).write (i := 0)
    (s := Rpc.payloadOf frame) rfl (by rwa [Nat.zero_add])
  rwa [List.nil_append, ← h.bytes] at this

/-! ## Where the work and the JOBs come from -/

/-- **Everything comes from Chain**: the work, if there is any, and the JOBs on
the trace. -/
structure Sourced (w : World τ) : Prop where
  /-- The work. -/
  work : w.server.work.haveWork = true →
    ∃ t, Issued w.trace t ∧ w.server.work.Stores t
  /-- The JOBs. -/
  jobs : ∀ c header block, Event.job c header block ∈ w.trace →
    ∃ t, Issued w.trace t ∧ (header, block) = jobOf t

namespace Sourced

variable {w w' : World τ}

/-- The work is as it was or is no longer there, and what is new on the trace
fits it. -/
theorem tells (h : Sourced w) (ht : w.Tells w')
    (hw : w'.server.work.haveWork = true → w'.server.work = w.server.work) :
    Sourced w' := by
  obtain ⟨es, ht, hes⟩ := ht
  refine ⟨fun hwork => ?_, fun c header block hm => ?_⟩
  · have hsame := hw hwork
    rw [hsame] at hwork ⊢
    obtain ⟨t, hi, hs⟩ := h.work hwork
    exact ⟨t, ht ▸ hi.append es, hs⟩
  · rw [ht] at hm ⊢
    rcases List.mem_append.mp hm with hm | hm
    · obtain ⟨t, hi, he⟩ := h.jobs c header block hm
      exact ⟨t, hi.append es, he⟩
    · have hfits := hes _ hm
      obtain ⟨t, hi, hs⟩ := h.work hfits.1
      exact ⟨t, hi.append es, hs.job hfits⟩

/-- A template that is taken has been issued. -/
theorem installs (h : Sourced w) {frame : Bytes}
    (hi : World.Installs w w' frame) : Sourced w' := by
  have hissued : Issued w'.trace (Rpc.payloadOf frame) := by
    refine ⟨_, frame, ?_, hi.answer, rfl⟩
    rw [hi.trace]
    exact List.mem_append_right _ (List.mem_singleton_self _)
  refine ⟨fun _ => ⟨_, hissued, hi.stores⟩, fun c header block hm => ?_⟩
  rw [hi.trace] at hm ⊢
  rcases List.mem_append.mp hm with hm | hm
  · obtain ⟨t, hi', he⟩ := h.jobs c header block hm
    exact ⟨t, hi'.append _, he⟩
  · cases List.mem_singleton.mp hm

end Sourced

/-- A session that ends is no JOB. -/
theorem World.tells_clientRemove (w : World τ) (c : ConnId)
    (reason : Removal) : w.Tells (w.clientRemove c reason) := by
  unfold clientRemove
  split
  · exact ⟨[.removed c reason _], rfl,
      fun _ he => List.mem_singleton.mp he ▸ trivial⟩
  · exact .of_eq rfl

/-- **It is kept.** -/
theorem sessionsRule_sourced : SessionsRule (τ := τ) Sourced where
  same h _ _ hw _ ht := h.tells ht fun _ => hw
  setClient h _ _ := h.tells (.of_eq rfl) fun _ => rfl
  clientRemove {w} c reason h := h.tells (w.tells_clientRemove c reason)
    fun _ => World.work_clientRemove w c reason
  setServer h hk := h.tells (.of_eq rfl) fun hwork => by
    rcases hk.2 with ⟨hw, _⟩ | ⟨hcl, _⟩
    · exact hw
    · exact absurd (hcl.haveWork.symm.trans hwork) Bool.false_ne_true
  installs h hi := h.installs hi

/-- **Everything comes from Chain in every state that can be.** -/
theorem sourced_of_turns {P : Platform} {T : ChainTransport τ} {w : World τ}
    (h : (turns P T).Reachable w) : Sourced w := by
  refine h.invariant (P := Sourced) (fun w hw => ?_) fun w a _ hs =>
    sessionsRule_sourced.act (fun w h mode => ?_) hs a
  · refine ⟨fun hwork => ?_, fun c header block hm => ?_⟩
    · obtain ⟨entry, chain, transport, hs⟩ := hw.server
      rw [hs] at hwork
      cases hwork
    · rw [hw.trace] at hm
      exact absurd hm List.not_mem_nil
  · exact h.tells ⟨[.accepted w.nextConn], rfl,
      fun _ he => List.mem_singleton.mp he ▸ trivial⟩ fun _ => rfl

/-! ## The verdict on a submission -/

section Verdict

variable {T : ChainTransport τ} {c : ConnId} {w w₁ : World τ}
  {s₁ : ClientSession}

/-- **What goes to Chain has been judged.** -/
theorem HandsOver.judged (hover : HandsOver T c w w₁ s₁) {es : List Event}
    (ht : (w.serviceTurn .linux T c).1.trace
      = w.trace ++ .frame c s₁.pending :: es) (hes : exchangesOf es ≠ []) :
    Judged w₁.server.work s₁ := by
  obtain ⟨s, got, _, hrec⟩ := hover.receives
  rcases own_dispatch .linux T hrec.client with ho | ⟨_, hv, _⟩
  · have hsilent := ((hrec.own.trans ho).trans own_finishTurn).silent
    rw [← hover.turn, ht] at hsilent
    unfold exchangesOf at hsilent
    rw [List.filterMap_append] at hsilent
    exact absurd (List.append_right_eq_self.mp hsilent) hes
  · exact .inr hv

/-- The work ID of a SUBMIT is in the frame. -/
theorem HandsOver.slice_pending (hover : HandsOver T c w w₁ s₁) :
    slice s₁.pending 8 32 = slice s₁.rx.bytes 8 32 := by
  obtain ⟨_, _, _, hrec⟩ := hover.receives
  have := submit_le_of_isFrame hrec.fits hover.frame
  exact Rpc.slice_take (by omega)

/-- **A submission is judged by what its miner was sent.** If Chain never issues
two templates for the same work, then whenever a SUBMIT is classified or goes
to Chain, the block, its length and the chain target are those of the last
JOB of the session, and that JOB is the one the SUBMIT names. -/
theorem judged_by_job (T : ChainTransport τ) {w : World τ}
    (h : (turns .linux T).Reachable w) (hd : Distinct w.trace) {c : ConnId}
    {frame : Bytes} {es : List Event}
    (ht : (w.serviceTurn .linux T c).1.trace
      = w.trace ++ .frame c frame :: es) :
    ∃ w₁ s₁, HandsOver T c w w₁ s₁ ∧ s₁.pending = frame
      ∧ (exchangesOf es ≠ [] → Judged w₁.server.work s₁)
      ∧ (Judged w₁.server.work s₁ → ∃ header block,
        (jobsOf c w₁.trace).getLast? = some (header, block)
          ∧ w₁.server.work.wholeBlock = block
          ∧ w₁.server.work.blockLength = block.length
          ∧ readBE (slice header Miner.jobBlockLengthOffset 4) = block.length
          ∧ w₁.server.work.chainTarget
            = slice header Miner.jobChainTargetOffset 32
          ∧ slice header 8 32 = slice frame 8 32) := by
  obtain ⟨w₁, s₁, hover, rfl⟩ := handsOver_of_frame (ready_of_turns h c) ht
  refine ⟨w₁, s₁, hover, rfl, hover.judged ht, fun hj => ?_⟩
  obtain ⟨ha, _⟩ := hj.admissible
  obtain ⟨_, _, ⟨header, block⟩, hlast, hid⟩ :=
    hover.hasJob h ha.haveWork ha.registered
  obtain ⟨s, got, hs, hrec⟩ := hover.receives
  have hwork : w.server.work.haveWork = true := hrec.work ▸ ha.haveWork
  have hsrc := sourced_of_turns h
  obtain ⟨t, hi, hst⟩ := hsrc.work hwork
  have hinst := ((workCoherent_of_turns h).installed hwork).2
  rw [← hrec.work] at hst hinst
  have hmem : .job c header block ∈ w.trace := by
    have := mem_jobsOf.mp (List.mem_of_getLast? hlast)
    rwa [hrec.acts.trace, List.append_nil] at this
  obtain ⟨t', hi', hjob⟩ := hsrc.jobs c header block hmem
  have h236 := hst.block
  -- the JOB and the work have one work ID, so they have one template
  obtain rfl : t' = t := by
    refine hd.eq hi' hi ?_
    rw [← hst.slice_eq 32 _ (by omega), ← hinst.jobId, ← hid, hjob,
      jobIdOf_jobOf hi'.isTemplate.length]
  refine ⟨header, block, hlast, ?_⟩
  obtain ⟨rfl, rfl⟩ := Prod.mk.inj hjob
  have hblock := hst.wholeBlock
  have hlength : w₁.server.work.blockLength = (t'.drop 68).length := by
    rw [hinst.blockLength, hst.length, List.length_drop]
  refine ⟨hblock, hlength, ?_, ?_, ?_⟩
  · refine blockLength_jobOf h236 ?_
    have := hinst.length.2
    have : Rpc.maxPayload ≤ 2 ^ 32 := by decide
    rw [← hst.length]
    omega
  · rw [hst.chainTarget, MinerJob.chainTarget_headerBytes _ h236]
  · rw [hover.slice_pending, ha.job, ← hid]
    rfl

end Verdict

/-- **Templates are distinct** if those among the answers of a trace are. -/
theorem distinct_of_answers {trace : List Event}
    (h : ∀ f ∈ (exchangesOf trace).filterMap Prod.snd,
      ∀ f' ∈ (exchangesOf trace).filterMap Prod.snd,
        slice (Rpc.payloadOf f) 32 32 = slice (Rpc.payloadOf f') 32 32 →
        Rpc.payloadOf f = Rpc.payloadOf f') : Distinct trace := by
  have hanswer : ∀ t, Issued trace t →
      ∃ f ∈ (exchangesOf trace).filterMap Prod.snd, Rpc.payloadOf f = t := by
    rintro _ ⟨id, frame, hm, _, rfl⟩
    exact ⟨frame, List.mem_filterMap.mpr ⟨_, mem_exchangesOf.mpr hm, rfl⟩, rfl⟩
  have hsame : ∀ t t', Issued trace t → Issued trace t' →
      slice t 32 32 = slice t' 32 32 → t = t' := by
    intro t t' ht ht' hid
    obtain ⟨f, hf, rfl⟩ := hanswer t ht
    obtain ⟨f', hf', rfl⟩ := hanswer t' ht'
    exact h f hf f' hf' hid
  exact ⟨fun t t' ht ht' _ hid => by rw [hsame t t' ht ht' hid],
    fun t t' ht ht' hid => by rw [hsame t t' ht ht' hid]⟩

/-- A template with another base and another work ID. -/
def otherTemplate : Bytes :=
  List.replicate 32 1 ++ List.replicate 32 2
    ++ (Rpc.mineableTemplate easyTarget 0).drop 64

/-- **A server whose Chain goes back**: its second template replaces the first,
the third is the first again, and so is the fourth. -/
def goingBack : World (List Bytes) :=
  boot Rpc.replay
    [Rpc.mineableTemplate easyTarget 0, otherTemplate,
      Rpc.mineableTemplate easyTarget 0, Rpc.mineableTemplate easyTarget 0,
      List.replicate 80 0]
    (fun c => if c = 0 then
      unread addressFrame (.wouldBlock :: unread submitFrame []) else [])
    fun _ => [.session]

/-- It has gone back. The miner has been sent three JOBs, and the template has
come once more. -/
def goneBack : World (List Bytes) :=
  (turns .linux Rpc.replay).run goingBack
    [.accept .pool, .service 0, .refresh, .sendPending, .refresh, .sendPending,
      .service 0, .refresh, .sendPending, .refresh, .sendPending]

set_option maxRecDepth 100000 in
/-- **There the miner's SUBMIT is judged**, and goes to Chain, by the last of the
JOBs that the miner was sent. -/
theorem judged_by_job_goneBack :
    (jobsOf 0 goneBack.trace).map (fun job => slice job.1 8 32)
        = [List.replicate 32 0, List.replicate 32 2, List.replicate 32 0]
      ∧ (exchangesOf goneBack.trace).length = 4
      ∧ ∃ w₁ s₁ header block, HandsOver Rpc.replay 0 goneBack w₁ s₁
        ∧ s₁.pending = submitFrame ∧ Judged w₁.server.work s₁
        ∧ (jobsOf 0 w₁.trace).getLast? = some (header, block)
        ∧ w₁.server.work.wholeBlock = block
        ∧ slice header 8 32 = slice submitFrame 8 32 := by
  have hw : (turns .linux Rpc.replay).Reachable goneBack :=
    (Machine.Reachable.start (startup_boot ..)).run _
  -- all that is computed
  have hd : Distinct goneBack.trace := distinct_of_answers (by decide +kernel)
  obtain ⟨hjobs, hfour, ht, hes⟩ : (jobsOf 0 goneBack.trace).map
        (fun job => slice job.1 8 32)
        = [List.replicate 32 0, List.replicate 32 2, List.replicate 32 0]
      ∧ (exchangesOf goneBack.trace).length = 4
      ∧ (goneBack.serviceTurn .linux Rpc.replay 0).1.trace = goneBack.trace
        ++ .frame 0 submitFrame :: (goneBack.serviceTurn .linux Rpc.replay
          0).1.trace.drop (goneBack.trace.length + 1)
      ∧ exchangesOf ((goneBack.serviceTurn .linux Rpc.replay 0).1.trace.drop
        (goneBack.trace.length + 1)) ≠ [] := by decide +kernel
  generalize goneBack = w at hw hd hjobs hfour ht hes ⊢
  obtain ⟨w₁, s₁, hover, hp, hj, hjob⟩ := judged_by_job Rpc.replay hw hd ht
  obtain ⟨header, block, hlast, hblock, _, _, _, hid⟩ := hjob (hj hes)
  exact ⟨hjobs, hfour, w₁, s₁, header, block, hover, hp, hj hes, hlast, hblock,
    hid⟩
