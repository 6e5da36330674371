import StnStratum.Effects
import StnStratum.Rehearsal

/-!
# The active work is one template

The poll receives straight into the active template, and a dozen exits of
`refresh_work`, `process_submission` and `chain_transport_select` install,
keep or clear the work. `WorkCoherent` is what holds between any two steps:
work that there is comes from one template that can be mined, with its IDs
copied out of it, and work that there is not is all zeros.

Two facts carry it. The client stores a payload only once it has accepted it,
so a poll that fails has not touched the template; and away from the poll the
work is never changed but only cleared (`KeptOrCleared`).
-/

variable {τ : Type}

/-- Work that is not there. -/
structure ActiveWork.IsCleared (work : ActiveWork) : Prop where
  /-- There is none. -/
  haveWork : work.haveWork = false
  /-- The base is zero. -/
  base : work.base = Buf.zero _
  /-- The work ID is zero. -/
  jobId : work.jobId = Buf.zero _
  /-- The template is empty. -/
  templateLength : work.templateLength = 0

/-- Work that comes from one template. -/
structure ActiveWork.IsInstalled (work : ActiveWork) : Prop where
  /-- The template has a block header, and fits. -/
  length : 68 + 168 ≤ work.templateLength
    ∧ work.templateLength ≤ Rpc.maxPayload
  /-- The template gives the length of its block. -/
  blockLength : work.blockLength = work.templateLength - 68
  /-- The base is the template's. -/
  base : work.base.bytes = slice work.template.bytes 0 32
  /-- The work ID is the template's. -/
  jobId : work.jobId.bytes = slice work.template.bytes 32 32
  /-- The block has the magic. -/
  magic : slice work.template.bytes 68 4 = Rpc.blockMagic
  /-- The block has version 3. -/
  version : readBE (slice work.template.bytes (68 + 4) 2) = 3

/-- **The work of a server is coherent**: it is one template, got from a Chain
that is available, or nothing. -/
structure WorkCoherent (s : StratumServer τ) : Prop where
  /-- Work that there is. -/
  installed : s.work.haveWork = true →
    s.chainAvailable = true ∧ s.work.IsInstalled
  /-- Work that there is not. -/
  cleared : s.work.haveWork = false → s.work.IsCleared

/-- Cleared work is coherent. -/
theorem WorkCoherent.of_isCleared {s : StratumServer τ}
    (h : s.work.IsCleared) : WorkCoherent s :=
  ⟨fun hw => absurd (h.haveWork.symm.trans hw) Bool.false_ne_true, fun _ => h⟩

/-! ## Keeping or clearing -/

namespace StratumServer

/-- A server that kept its work. -/
def Kept (s s' : StratumServer τ) : Prop :=
  s'.work = s.work ∧ s'.chainAvailable = s.chainAvailable

theorem Kept.trans {s s' s'' : StratumServer τ} (h : Kept s s')
    (h' : Kept s' s'') : Kept s s'' :=
  ⟨h'.1.trans h.1, h'.2.trans h.2⟩

/-- **A server that kept its work or lost it.** -/
def KeptOrCleared (s s' : StratumServer τ) : Prop :=
  Kept s s' ∨ s'.work.IsCleared

theorem KeptOrCleared.refl (s : StratumServer τ) : KeptOrCleared s s :=
  .inl ⟨rfl, rfl⟩

theorem KeptOrCleared.trans {s s' s'' : StratumServer τ}
    (h : KeptOrCleared s s') (h' : KeptOrCleared s' s'') :
    KeptOrCleared s s'' := by
  rcases h' with h' | h'
  · rcases h with h | h
    · exact .inl (h.trans h')
    · exact .inr (h'.1 ▸ h)
  · exact .inr h'

theorem KeptOrCleared.coherent {s s' : StratumServer τ}
    (h : KeptOrCleared s s') (hs : WorkCoherent s) : WorkCoherent s' := by
  rcases h with ⟨hw, ha⟩ | h
  · exact ⟨fun hh => by rw [ha, hw]; exact hs.installed (hw ▸ hh),
      fun hh => by rw [hw]; exact hs.cleared (hw ▸ hh)⟩
  · exact .of_isCleared h

theorem isCleared_clearWork (s : StratumServer τ) :
    s.clearWork.work.IsCleared := ⟨rfl, rfl, rfl, rfl⟩

theorem keptOrCleared_select (T : ChainTransport τ) (s : StratumServer τ)
    (index : ℕ) : KeptOrCleared s (s.chainTransportSelect T index) := by
  unfold chainTransportSelect
  split
  · exact .refl s
  · exact .inr (isCleared_clearWork s)

theorem keptOrCleared_next (T : ChainTransport τ) (s : StratumServer τ) :
    KeptOrCleared s (s.chainTransportNext T) := by
  unfold chainTransportNext
  split
  · exact .refl s
  · exact keptOrCleared_select T s _

theorem keptOrCleared_afterWork (T : ChainTransport τ) (code : RpcCode)
    (s : StratumServer τ) :
    KeptOrCleared s (World.afterWork .linux T code s) := by
  have h : KeptOrCleared s (World.settleWork .linux code s) := by
    unfold World.settleWork
    dsimp only
    split
    · exact .inr (isCleared_clearWork s)
    · exact .refl s
  unfold World.afterWork
  dsimp only
  split
  · exact h.trans (keptOrCleared_next T _)
  · exact h

end StratumServer

open StratumServer (Kept KeptOrCleared)

namespace World

variable {w : World τ} {c : ConnId}

theorem kept_clientRemove (w : World τ) (c : ConnId) (reason : Removal) :
    Kept w.server (w.clientRemove c reason).server :=
  ⟨work_clientRemove w c reason, chainAvailable_clientRemove w c reason⟩

theorem kept_clientSendResult (P : Platform) (w : World τ) (c : ConnId)
    (code : RpcCode) :
    Kept w.server (w.clientSendResult P c code).server := by
  unfold clientSendResult
  dsimp only
  split
  · exact kept_clientRemove _ c _
  · exact ⟨rfl, rfl⟩

theorem kept_clientSendJob (P : Platform) (w : World τ) (c : ConnId) :
    Kept w.server (w.clientSendJob P c).server := by
  unfold clientSendJob
  split
  · exact ⟨rfl, rfl⟩
  split
  · exact ⟨rfl, rfl⟩
  dsimp only
  split
  · exact kept_clientRemove _ c _
  split
  · exact kept_clientRemove _ c _
  · exact ⟨rfl, rfl⟩

theorem kept_sendPendingJobs (P : Platform) (w : World τ) :
    Kept w.server (w.sendPendingJobs P).server := by
  unfold sendPendingJobs
  generalize w.sockets = cs
  induction cs generalizing w with
  | nil => exact ⟨rfl, rfl⟩
  | cons c cs ih =>
    suffices h : Kept w.server (w.sendPendingJob P c).server from
      h.trans (ih _)
    unfold sendPendingJob
    split
    · exact ⟨rfl, rfl⟩
    split
    · exact kept_clientSendJob P w c
    · exact ⟨rfl, rfl⟩

/-- **A submission keeps the work or clears it.** -/
theorem keptOrCleared_processSubmission (T : ChainTransport τ) (w : World τ)
    (c : ConnId) :
    KeptOrCleared w.server (w.processSubmission .linux T c).server := by
  unfold processSubmission
  split
  · exact .refl _
  split
  · exact .inl (kept_clientRemove w c _)
  · exact .inl (kept_clientSendResult _ w c _)
  · unfold submitShare
    dsimp only
    generalize Rpc.callSubmitShare T _ _ _ _ _ = r
    split
    · exact .inr (StratumServer.isCleared_clearWork _)
    · exact .inl (kept_clientSendResult .linux (w.called r) c r.code)
  · unfold submitWork
    dsimp only
    split
    · generalize (w.heap.malloc _).2 = heap
      exact .inl (kept_clientSendResult .linux { w with heap := heap } c _)
    · generalize Rpc.callSubmitWork T _ _ _ _ _ = r
      have hsent := kept_clientSendResult .linux (w.called r) c r.code
      generalize (w.called r).clientSendResult .linux c r.code = w₁ at hsent
      exact KeptOrCleared.trans (.inl hsent)
        (StratumServer.keptOrCleared_afterWork T r.code w₁.server)

theorem keptOrCleared_processAddress (P : Platform) (w : World τ)
    (c : ConnId) :
    KeptOrCleared w.server (w.processAddress P c).server := by
  unfold processAddress
  split
  · exact .refl _
  split
  · exact .inl (kept_clientRemove w c _)
  split
  · exact .inl (kept_clientRemove w c _)
  dsimp only
  split
  · exact .inl (kept_clientSendJob P (w.setClient c registered) c)
  · exact .inl ⟨rfl, rfl⟩

theorem keptOrCleared_processHashProgress (w : World τ) (c : ConnId) :
    KeptOrCleared w.server (w.processHashProgress c).server := by
  unfold processHashProgress
  split
  · exact .refl _
  dsimp only
  split
  · exact .inl (kept_clientRemove w c _)
  split_ifs <;> exact .inl ⟨rfl, rfl⟩

theorem keptOrCleared_dispatch (T : ChainTransport τ) (w : World τ)
    (c : ConnId) (client : ClientSession) :
    KeptOrCleared w.server (w.dispatch .linux T c client).server := by
  unfold dispatch
  dsimp only
  split
  · exact keptOrCleared_processAddress .linux (w.emit _) c
  split
  · exact keptOrCleared_processSubmission T (w.emit _) c
  · exact keptOrCleared_processHashProgress (w.emit _) c

theorem keptOrCleared_stopped (w : World τ) (c : ConnId)
    (status : RecvStatus) :
    KeptOrCleared w.server (w.stopped c status).server := by
  unfold stopped
  split
  · exact .inl (kept_clientRemove w c _)
  · exact .inl (kept_clientRemove w c _)
  · exact .refl _

theorem keptOrCleared_finishTurn (w : World τ) (c : ConnId) :
    KeptOrCleared w.server (w.finishTurn c).1.server := by
  unfold finishTurn
  split <;> exact .inl ⟨rfl, rfl⟩

/-- **A turn of `service_client` keeps the work or clears it.** -/
theorem keptOrCleared_serviceTurn (T : ChainTransport τ) (w : World τ)
    (c : ConnId) :
    KeptOrCleared w.server (w.serviceTurn .linux T c).1.server := by
  unfold serviceTurn serviceTurnLinux
  dsimp only
  split
  · exact .refl _
  split
  · exact keptOrCleared_stopped (w.receive c _) c _
  split
  · exact .inl (kept_clientRemove (w.receive c _) c _)
  split
  · exact .inl (kept_clientRemove (w.receive c _) c _)
  split
  · exact keptOrCleared_stopped ((w.receive c _).receive c _) c _
  · exact (keptOrCleared_dispatch T ((w.receive c _).receive c _) c _).trans
      (keptOrCleared_finishTurn _ c)

theorem keptOrCleared_serviceLoop (T : ChainTransport τ) (fuel : ℕ)
    (w : World τ) (c : ConnId) :
    KeptOrCleared w.server (serviceLoop .linux T fuel w c).server := by
  induction fuel generalizing w with
  | zero => exact .refl _
  | succ fuel ih =>
    unfold serviceLoop
    split
    · exact (keptOrCleared_serviceTurn T w c).trans (ih _)
    · exact keptOrCleared_serviceTurn T w c

theorem keptOrCleared_acceptFrom (mode : ServiceMode)
    (outcomes : List AcceptOutcome) (w : World τ) :
    KeptOrCleared w.server (acceptFrom mode outcomes w).server := by
  induction outcomes generalizing w with
  | nil => exact .inl ⟨rfl, rfl⟩
  | cons o rest ih =>
    cases o with
    | session =>
      have h : KeptOrCleared w.server (w.acceptSession mode).server :=
        .inl ⟨rfl, rfl⟩
      exact h.trans (ih _)
    | nobody => exact .inl ⟨rfl, rfl⟩
    | failed => exact .inl ⟨rfl, rfl⟩

/-! ## The poll -/

/-- Installing a template that can be mined makes the work coherent. -/
theorem isInstalled_installed (work : ActiveWork) {t : Bytes} {written : ℕ}
    (ht : Rpc.IsTemplate t) (hw : written = t.length)
    (hle : written ≤ Rpc.maxPayload) :
    (installed { work with template := work.template.write 0 t }
      written hle).IsInstalled := by
  subst hw
  have hb : (work.template.write 0 t).Begins t := by
    have := (work.template.begins_nil).write (i := 0) (s := t) rfl (by omega)
    rwa [List.nil_append] at this
  have h236 := ht.length
  have hs : ∀ {off len : ℕ}, off + len ≤ 236 →
      slice (work.template.write 0 t).bytes off len = slice t off len :=
    fun h => hb.slice_eq (by omega)
  refine ⟨⟨ht.length, hle⟩, ?_, ?_, ?_, ?_, ?_⟩
  · show readBE (slice (work.template.write 0 t).bytes 64 4) = _
    rw [hs (by decide)]
    exact ht.blockLength
  · refine Buf.write_zero_of_length ?_
    exact length_slice (by rw [(work.template.write 0 t).size]; decide)
  · refine Buf.write_zero_of_length ?_
    exact length_slice (by rw [(work.template.write 0 t).size]; decide)
  · exact (hs (by decide)).trans ht.magic
  · exact (congrArg readBE (hs (by decide))).trans ht.version

/-- A template for the work there is leaves the IDs as they were. -/
theorem isInstalled_unchanged {work : ActiveWork} {written : ℕ}
    (hle : written ≤ Rpc.maxPayload)
    (h : (installed work written hle).IsInstalled)
    (hc : changed work = false) :
    ActiveWork.IsInstalled
        { work with templateLength := written, fits := hle }
      ∧ work.haveWork = true := by
  unfold changed at hc
  simp only [Bool.or_eq_false_iff, Bool.not_eq_false', bne_eq_false_iff_eq]
    at hc
  exact ⟨⟨h.length, h.blockLength, hc.1.2, hc.2, h.magic, h.version⟩,
    hc.1.1⟩

/-- The poll stores into the template and nowhere else. -/
theorem work_polled (w : World τ) (r : Rpc.Call τ Rpc.maxPayload) :
    (w.polled r).server.work = { w.server.work with
      template := r.payload.getD w.server.work.template } := rfl

/-- **A poll that fails keeps the whole work or clears it.** -/
theorem refreshWork_of_failed {P : Platform} {T : ChainTransport τ}
    (h : (w.poll T).code ≠ .ok) :
    (w.refreshWork P T).server.work = w.server.work
        ∧ (w.refreshWork P T).server.chainAvailable = true
      ∨ (w.refreshWork P T).server.work.IsCleared := by
  have hp : (w.poll T).payload = some w.server.work.template :=
    Rpc.callMiningTemplate_payload h
  have hw : (w.polled (w.poll T)).server.work = w.server.work := by
    rw [work_polled, hp]
    rfl
  unfold refreshWork
  dsimp only
  cases hc : (w.poll T).code with
  | ok => exact absurd hc h
  | unavailable => exact .inl ⟨hw, rfl⟩
  | transport =>
    have hk := StratumServer.keptOrCleared_next T
      { (w.polled (w.poll T)).server.clearWork with chainAvailable := false }
    rcases hk with ⟨hk, _⟩ | hk
    · refine .inr ?_
      show ActiveWork.IsCleared (StratumServer.chainTransportNext T _).work
      rw [hk]
      exact StratumServer.isCleared_clearWork _
    · exact .inr hk
  | _ => exact .inr (StratumServer.isCleared_clearWork _)

/-- **A template has been taken** from the frame that a poll came back with,
and no job has been sent for it yet. -/
structure Installs (w w' : World τ) (frame : Bytes) : Prop where
  /-- The frame answers the poll. -/
  answer : Rpc.IsAnswer Rpc.miningTemplate w.server.chainRpc.requestId.toNat
    frame
  /-- It is a template. -/
  template : Rpc.IsTemplate (Rpc.payloadOf frame)
  /-- The poll is on the trace. -/
  trace : w'.trace = w.trace ++ [.exchange (Rpc.requestFrame
    Rpc.miningTemplate w.server.chainRpc.requestId.toNat []) (some frame)]
  /-- The sessions are as they were. -/
  clients : w'.server.clients = w.server.clients
  /-- So is their number. -/
  clientCount : w'.server.clientCount = w.server.clientCount
  /-- So is that of the next connection. -/
  nextConn : w'.nextConn = w.nextConn
  /-- Chain is there. -/
  available : w'.server.chainAvailable = true
  /-- So is the work. -/
  haveWork : w'.server.work.haveWork = true
  /-- The work is coherent. -/
  installed : w'.server.work.IsInstalled
  /-- Its length is that of the template. -/
  length : w'.server.work.templateLength = (Rpc.payloadOf frame).length
  /-- The template is stored over the one there was. -/
  bytes : w'.server.work.template
    = w.server.work.template.write 0 (Rpc.payloadOf frame)

/-- **A poll that succeeds takes a template**, and sends jobs for it unless it
is for the work there is. -/
theorem refreshWork_installs {P : Platform} {T : ChainTransport τ}
    (h : (w.poll T).code = .ok) :
    ∃ frame w', Installs w w' frame
      ∧ (w.poll T).exchanged = some (Rpc.requestFrame Rpc.miningTemplate
          w.server.chainRpc.requestId.toNat [], some frame)
      ∧ (w.refreshWork P T = w'.sendPendingJobs P
        ∨ w.refreshWork P T = w' ∧ w.server.work.haveWork = true
          ∧ w'.server.work.jobId = w.server.work.jobId) := by
  obtain ⟨frame, ha, ht, hx, hwr, hp⟩ := Rpc.callMiningTemplate_ok h
  have hi := isInstalled_installed w.server.work ht hwr (w.poll T).fits
  have hwork : (w.polled (w.poll T)).server.work = { w.server.work with
      template := w.server.work.template.write 0 (Rpc.payloadOf frame) } := by
    rw [work_polled, show (w.poll T).payload = _ from hp]
    rfl
  have hlen : (w.poll T).written = (Rpc.payloadOf frame).length := hwr
  have hblock : (w.polled (w.poll T)).server.work.blockLength
      = (w.poll T).written - 68 := by
    rw [hwork]
    exact hi.blockLength
  have hbytes : (w.polled (w.poll T)).server.work.template
      = w.server.work.template.write 0 (Rpc.payloadOf frame) := by
    rw [hwork]
  have htrace : (w.polled (w.poll T)).trace = w.trace ++ [.exchange
      (Rpc.requestFrame Rpc.miningTemplate
        w.server.chainRpc.requestId.toNat []) (some frame)] := by
    show w.trace ++ ((w.poll T).exchanged.map _).toList = _
    rw [show (w.poll T).exchanged = _ from hx]
    rfl
  have h236 := ht.length
  rw [← hwork] at hi
  have hkept : w.server.work.haveWork
      = (w.polled (w.poll T)).server.work.haveWork
      ∧ w.server.work.jobId = (w.polled (w.poll T)).server.work.jobId :=
    ⟨rfl, rfl⟩
  unfold refreshWork
  dsimp only
  rw [h]
  unfold afterPoll
  dsimp only
  rw [if_neg (by omega), if_neg (not_not.mpr hblock)]
  split
  next =>
    refine ⟨frame, _, ?_, hx, .inl rfl⟩
    exact ⟨ha, ht, htrace, rfl, rfl, rfl, rfl, rfl, hi, hlen, hbytes⟩
  next hch =>
    obtain ⟨hi', hhw⟩ := isInstalled_unchanged _ hi
      (Bool.eq_false_iff.mpr hch)
    refine ⟨frame, _, ?_, hx, .inr ⟨rfl, hkept.1.trans hhw, hkept.2.symm⟩⟩
    exact ⟨ha, ht, htrace, rfl, rfl, rfl, rfl, hhw, hi', hlen, hbytes⟩

/-- **A poll that succeeds installs the template** it was answered with. -/
theorem refreshWork_of_ok {P : Platform} {T : ChainTransport τ}
    (h : (w.poll T).code = .ok) :
    ∃ frame, (w.poll T).exchanged
        = some (Rpc.requestFrame Rpc.miningTemplate
            w.server.chainRpc.requestId.toNat [], some frame)
      ∧ (w.refreshWork P T).server.work.haveWork = true
      ∧ (w.refreshWork P T).server.work.templateLength
        = (Rpc.payloadOf frame).length
      ∧ (w.refreshWork P T).server.work.template
        = w.server.work.template.write 0 (Rpc.payloadOf frame) := by
  obtain ⟨frame, w', hi, hx, he | ⟨he, _⟩⟩ := refreshWork_installs (P := P) h
  · refine ⟨frame, hx, ?_⟩
    rw [he, (kept_sendPendingJobs P _).1]
    exact ⟨hi.haveWork, hi.length, hi.bytes⟩
  · rw [he]
    exact ⟨frame, hx, hi.haveWork, hi.length, hi.bytes⟩

/-- **A poll keeps the work coherent.** -/
theorem workCoherent_refreshWork (P : Platform) (T : ChainTransport τ)
    (h : WorkCoherent w.server) :
    WorkCoherent (w.refreshWork P T).server := by
  by_cases hc : (w.poll T).code = .ok
  · obtain ⟨frame, w', hi, _, he⟩ := refreshWork_installs (P := P) hc
    have hw : WorkCoherent w'.server :=
      ⟨fun _ => ⟨hi.available, hi.installed⟩,
        fun hh => absurd (hi.haveWork.symm.trans hh) Bool.noConfusion⟩
    rcases he with he | ⟨he, _⟩ <;> rw [he]
    · exact KeptOrCleared.coherent (.inl (kept_sendPendingJobs P _)) hw
    · exact hw
  · rcases refreshWork_of_failed (P := P) hc with ⟨hw, ha⟩ | hcl
    · refine ⟨fun hh => ⟨ha, ?_⟩, fun hh => ?_⟩
      · rw [hw] at hh ⊢
        exact (h.installed hh).2
      · rw [hw] at hh ⊢
        exact h.cleared hh
    · exact .of_isCleared hcl

end World

/-! ## Every reachable state -/

/-- Every action keeps the work coherent. -/
theorem workCoherent_act {T : ChainTransport τ} {w : World τ} (a : ServerAction)
    (h : WorkCoherent w.server) :
    WorkCoherent ((stratum .linux T).act w a).server := by
  cases a with
  | accept mode => exact (World.keptOrCleared_acceptFrom mode _ w).coherent h
  | service c => exact (World.keptOrCleared_serviceLoop T _ w c).coherent h
  | refresh => exact World.workCoherent_refreshWork .linux T h
  | sendPending =>
    exact KeptOrCleared.coherent (.inl (World.kept_sendPendingJobs _ w)) h
  | tick => exact ⟨h.installed, h.cleared⟩
  | stop => exact ⟨h.installed, h.cleared⟩
  | close => exact .of_isCleared (StratumServer.isCleared_clearWork _)

/-- **The work of a running server is coherent.** -/
theorem workCoherent_of_run {T : ChainTransport τ} {w : World τ}
    (h : (stratum .linux T).Reachable w) : WorkCoherent w.server := by
  refine h.invariant (P := fun w => WorkCoherent w.server) ?_ ?_
  · rintro w ⟨⟨entry, chain, transport, hs⟩, -, -, -⟩
    rw [hs]
    exact .of_isCleared (StratumServer.isCleared_clearWork _)
  · exact fun w a _ hw => workCoherent_act a hw

/-- **The active work is coherent in every reachable state**, and a poll that
fails never leaves work in place of which a byte has changed. -/
theorem work_coherence {T : ChainTransport τ} {w : World τ}
    (h : (stratum .linux T).Reachable w) :
    WorkCoherent w.server
      ∧ ((w.poll T).code ≠ .ok →
        (w.refreshWork .linux T).server.work.haveWork = true →
        (w.refreshWork .linux T).server.work = w.server.work) := by
  refine ⟨workCoherent_of_run h, fun hf hw => ?_⟩
  rcases World.refreshWork_of_failed (P := .linux) hf with ⟨hk, _⟩ | hcl
  · exact hk
  · exact absurd (hcl.haveWork.symm.trans hw) Bool.false_ne_true

set_option maxRecDepth 100000 in
/-- The work that has been installed and sent as a job is coherent. -/
theorem work_coherence_rehearsal :
    ∃ w : World (List Bytes), w.server.work.haveWork = true
      ∧ WorkCoherent w.server
      ∧ ((w.poll Rpc.replay).code ≠ .ok →
        (w.refreshWork .linux Rpc.replay).server.work.haveWork = true →
        (w.refreshWork .linux Rpc.replay).server.work = w.server.work) :=
  ⟨(stratum .linux Rpc.replay).run (rehearsal 0) (performance.take 3),
    by decide +kernel,
    work_coherence (reachable_rehearsal 0 (performance.take 3))⟩
