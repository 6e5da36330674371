import StnStratum.WindowsFraming

/-!
# What a miner gets on Windows

Nothing. The Windows `service_client` hands over a header as soon as there is
one, and no function that it is handed to finds more of the frame than that.
A session begins without an address and with a cleared buffer, so that its
first header, whatever it is, ends it: `process_address` finds zeros where the
address should be, and the other two ask for the address first.

That is true in every run (`windows_serves_nobody`). The invariant is
`Unserved`. A turn leaves a session that is still waiting for its header, or
none.
-/

variable {τ : Type}

/-! ## Traces of a server that serves nobody -/

/-- **A trace of which no miner gets anything.** It consists of polls, of
sessions that begin, and of sessions that end, either before there is a header
or with it. -/
inductive Unrewarding : List Event → Prop where
  /-- Nothing was done. -/
  | nothing : Unrewarding []
  /-- A session begins. -/
  | accepted {es : List Event} (h : Unrewarding es) (c : ConnId) :
    Unrewarding (es ++ [.accepted c])
  /-- A poll. -/
  | polled {es : List Event} (h : Unrewarding es) (client : RpcClient)
    (reply : Option Bytes) : Unrewarding (es ++ [.exchange
      (Rpc.requestFrame Rpc.miningTemplate client.requestId.toNat []) reply])
  /-- A session ends that has no header yet. -/
  | ended {es : List Event} (h : Unrewarding es) (c : ConnId)
    {reason : Removal}
    (hr : reason ∈ [.peerClosed, .receiveFailed, .serverClosing]) {n : ℕ}
    (hn : n < 8) : Unrewarding (es ++ [.removed c reason n])
  /-- A header ends its session. -/
  | refused {es : List Event} (h : Unrewarding es) (c : ConnId)
    {header : Bytes} (hl : header.length = 8) :
    Unrewarding (es ++ [.frame c header, .removed c
      (if header.getD 5 0 = Miner.address then .invalidAddress
        else .addressRequired) 8])

/-! ## Sessions that are not served -/

/-- **A session nobody has heard of**: it has not given its address, and where
the address would be its buffer is as it was. -/
structure ClientSession.Nameless (s : ClientSession) : Prop where
  /-- There is no address. -/
  unregistered : s.addressRegistered = false
  /-- There will be none. -/
  blank : slice s.rx.bytes 8 5 = [0, 0, 0, 0, 0]

namespace ClientSession

theorem nameless_init (c : ConnId) (mode : ServiceMode) :
    (init c mode).Nameless :=
  ⟨rfl, show slice (Buf.zero Miner.addressFrameSize).bytes 8 5 = _ by decide⟩

/-- Its job has nothing to do with it. -/
theorem Nameless.of_clearJob {s s' : ClientSession} (h : s.Nameless)
    (he : s.clearJob = s'.clearJob) : s'.Nameless := by
  have hreg : s.clearJob.addressRegistered = s'.clearJob.addressRegistered :=
    congrArg ClientSession.addressRegistered he
  have hrx : s.clearJob.rx = s'.clearJob.rx := congrArg ClientSession.rx he
  refine ⟨hreg.symm.trans h.unregistered, ?_⟩
  rw [show s'.rx = s.rx from hrx.symm]
  exact h.blank

/-- What is received of its header leaves it as it was. -/
theorem Nameless.receives {c : ConnId} {w w' : World τ} {s s' : ClientSession}
    {got : Bytes} (h : s.Nameless) (hr : Receives c w w' s s' got)
    (hu : s'.rxUsed ≤ 8) : s'.Nameless := by
  refine ⟨?_, (hr.behind 8 5 hu).trans h.blank⟩
  rw [hr.keeps]
  exact h.unregistered

end ClientSession

/-- Zeros are no address. -/
theorem addressValid_of_blank {p : Bytes}
    (h : slice p 8 5 = [0, 0, 0, 0, 0]) : addressValid p = false := by
  have hne : (slice p 8 5 == addressPrefix) = false := by
    rw [h]
    decide
  rw [addressValid, hne, Bool.and_false, Bool.false_and]

/-- **Any header ends a session without an address.** -/
theorem dispatch_of_nameless (P : Platform) (T : ChainTransport τ)
    {w : World τ} {c : ConnId} {s : ClientSession} (hs : w.client? c = some s)
    (h : s.Nameless) :
    w.dispatch P T c s = (w.emit (.frame c s.pending)).clientRemove c
      (if s.rx.bytes.getD 5 0 = Miner.address then .invalidAddress
        else .addressRequired) := by
  have hs' : (w.emit (.frame c s.pending)).client? c = some s := hs
  unfold World.dispatch
  dsimp only
  split
  · rw [World.processAddress, hs']
    dsimp only
    rw [if_neg (by rw [h.unregistered]; exact Bool.false_ne_true),
      if_pos (addressValid_of_blank h.blank)]
  split
  · have hv : submissionVerdict w.server.work s = .unregistered :=
      if_pos h.unregistered
    rw [World.processSubmission, hs']
    dsimp only
    rw [show (w.emit (.frame c s.pending)).server.work = w.server.work from
      rfl, hv]
  · rw [World.processHashProgress, hs']
    exact if_pos h.unregistered

/-! ## The invariant -/

/-- **A server that has served nobody**, and has no session that it could
serve. -/
structure Unserved (w : World τ) : Prop where
  /-- The connections are in order. -/
  orderly : Orderly w
  /-- No miner has got anything. -/
  trace : Unrewarding w.trace
  /-- Nothing has been written to any, and no more than a header read. -/
  peers : ∀ c, (w.peers c).written = [] ∧ (w.peers c).received.length ≤ 8
  /-- The sessions wait for their headers. -/
  sessions : ∀ c s, w.client? c = some s → s.Nameless ∧ s.rxUsed < 8
    ∧ (w.peers c).received.length = s.rxUsed

/-- Nothing is written where nothing is sent. -/
theorem Delivers.written_eq {c : ConnId} {w w' : World τ} {es : List Event}
    (h : Delivers c w w' es) (hs : sentFrames c es = []) :
    (w'.peers c).written = (w.peers c).written := by
  by_cases hn : w'.client? c = none
  · obtain ⟨q, hq, hc⟩ := h.ends hn
    rw [hs] at hc
    rw [hq, List.prefix_nil.mp hc.prefix_flatten, List.append_nil]
  · rw [h.stays hn, hs, List.flatten_nil, List.append_nil]

namespace Unserved

variable {T : ChainTransport τ} {c : ConnId} {w w' : World τ} {es : List Event}

/-- **Acting on a session** that is not served. -/
theorem acts (h : Unserved w) (hc : c ∈ w.sockets) (ha : Acts c w w' es)
    (ht : Unrewarding (w.trace ++ es)) (hs : sentFrames c es = [])
    (hle : (w'.peers c).received.length ≤ 8)
    (hmine : ∀ s', w'.client? c = some s' → s'.Nameless ∧ s'.rxUsed < 8
      ∧ (w'.peers c).received.length = s'.rxUsed) : Unserved w' := by
  refine ⟨h.orderly.acts hc ha, ha.trace ▸ ht, fun d => ?_, fun d s' hs' => ?_⟩
  · by_cases hd : d = c
    · rw [hd, ha.delivers.written_eq hs]
      exact ⟨(h.peers c).1, hle⟩
    · rw [ha.peers d hd]
      exact h.peers d
  · by_cases hd : d = c
    · rw [hd] at hs' ⊢
      exact hmine s' hs'
    · obtain ⟨s, hs, he⟩ := ha.client?_before hd hs'
      obtain ⟨hno, hu, hr⟩ := h.sessions d s hs
      have hu' : s.clearJob.rxUsed = s'.clearJob.rxUsed :=
        congrArg ClientSession.rxUsed he
      rw [ha.peers d hd, hr, show s'.rxUsed = s.rxUsed from hu'.symm]
      exact ⟨hno.of_clearJob he, hu, rfl⟩

/-- **Answering nobody in particular.** -/
theorem answers (h : Unserved w) (hm : Orderly w')
    (ha : ∀ c, Answers c w w' es) (ht : Unrewarding (w.trace ++ es)) :
    Unserved w' := by
  have hpeers : w'.peers = w.peers := peers_eq_of_answers ha
  refine ⟨hm, (ha 0).trace ▸ ht, fun c => hpeers ▸ h.peers c,
    fun c s' hs' => ?_⟩
  obtain ⟨s, hs, he⟩ := (ha (c + 1)).client?_before
    (Nat.ne_of_lt (Nat.lt_succ_self c)) hs'
  obtain ⟨hno, hu, hr⟩ := h.sessions c s hs
  have hu' : s.clearJob.rxUsed = s'.clearJob.rxUsed :=
    congrArg ClientSession.rxUsed he
  rw [hpeers, hr, show s'.rxUsed = s.rxUsed from hu'.symm]
  exact ⟨hno.of_clearJob he, hu, rfl⟩

/-- A change of the server. -/
theorem setServer (h : Unserved w) {f : StratumServer τ → StratumServer τ}
    (hf : StratumServer.SameSessions w.server (f w.server)) :
    Unserved (w.setServer f) := by
  refine h.answers (h.orderly.move (move_setServer hf))
    (fun c => answers_setServer hf) ?_
  rw [List.append_nil]
  exact h.trace

/-- The end of a session that waits. -/
theorem clientRemove (h : Unserved w) (c : ConnId) {reason : Removal}
    (hr : reason ∈ [.peerClosed, .receiveFailed, .serverClosing]) :
    Unserved (w.clientRemove c reason) := by
  cases hs : w.client? c with
  | none =>
    rw [World.clientRemove_of_none w c reason hs]
    exact h
  | some s =>
    obtain ⟨hno, hu, hrx⟩ := h.sessions c s hs
    refine h.acts (World.mem_sockets_iff.mpr ⟨s, hs⟩)
      (answers_clientRemove hs reason).toActs
      (h.trace.ended c hr (hrx ▸ hu)) rfl ?_ fun s' hs' => ?_
    · rw [World.peers_clientRemove]
      exact (h.peers c).2
    · rw [client?_clientRemove_self] at hs'
      cases hs'

/-- There is nobody to send a job to. -/
theorem sendPendingJobs_eq (h : Unserved w) (P : Platform) :
    w.sendPendingJobs P = w := by
  have hone : ∀ c, w.sendPendingJob P c = w := fun c => by
    unfold World.sendPendingJob
    cases hs : w.client? c with
    | none => rfl
    | some s =>
      have hreg := (h.sessions c s hs).1.unregistered
      refine if_neg fun hj => ?_
      rw [hreg] at hj
      exact Bool.false_ne_true hj.2.1
  unfold World.sendPendingJobs
  generalize w.sockets = cs
  induction cs with
  | nil => rfl
  | cons c cs ih => rw [List.foldl_cons, hone, ih]

/-- `refresh_work`. -/
theorem refreshWork (h : Unserved w) (P : Platform) :
    Unserved (w.refreshWork P T) := by
  have h₁ : Unserved (w.polled (w.poll T)) := by
    refine h.answers (h.orderly.move (move_polled T w)) (answers_polled T w) ?_
    rcases exchangeEvents_poll T w with he | ⟨reply, he⟩ <;> rw [he]
    · rw [List.append_nil]
      exact h.trace
    · exact h.trace.polled _ reply
  have hclear : ∀ b, Unserved ((w.polled (w.poll T)).setServer fun s =>
      { s.clearWork with chainAvailable := b }) := fun b =>
    h₁.setServer (StratumServer.clearWork_same _)
  have havailable : Unserved ((w.polled (w.poll T)).setServer fun s =>
      { s with chainAvailable := true }) := h₁.setServer (.refl _)
  unfold World.refreshWork World.afterPoll
  dsimp only
  split
  · split
    · exact hclear false
    split
    · exact hclear false
    split
    · rw [sendPendingJobs_eq (havailable.setServer (.refl _))]
      exact havailable.setServer (.refl _)
    · exact havailable.setServer (.refl _)
  · exact havailable
  · exact h₁.setServer ((StratumServer.clearWork_same _).trans
      (StratumServer.chainTransportNext_same T _))
  · exact hclear true

/-- `stn_stratum_server_close`. -/
theorem serverClose (h : Unserved w) : Unserved (w.serverClose T) := by
  have hall : Unserved w.removeAll := by
    unfold World.removeAll
    generalize w.sockets = cs
    induction cs generalizing w with
    | nil => exact h
    | cons c cs ih => exact ih (h.clientRemove c (by decide))
  exact hall.setServer (StratumServer.clearWork_same (τ := τ) _)

/-- A session that begins. -/
theorem acceptSession (h : Unserved w) (mode : ServiceMode) :
    Unserved (w.acceptSession mode) := by
  refine ⟨h.orderly.acceptSession mode, h.trace.accepted w.nextConn, h.peers,
    fun c s hs => ?_⟩
  by_cases hc : c = w.nextConn
  · have hinit : (w.acceptSession mode).client? w.nextConn
        = some (.init w.nextConn mode) := List.find?_cons_of_pos
      (beq_self_eq_true w.nextConn)
    rw [hc, hinit] at hs
    rw [hc, ← Option.some.inj hs]
    refine ⟨ClientSession.nameless_init _ _, Nat.zero_lt_succ 7, ?_⟩
    show (w.peers w.nextConn).received.length = 0
    rw [(h.orderly.blank w.nextConn le_rfl).1]
    rfl
  · have hold : (w.acceptSession mode).client? c = w.client? c :=
      List.find?_cons_of_neg fun he => hc (eq_of_beq he).symm
    rw [hold] at hs
    exact h.sessions c s hs

/-- **A turn of the Windows `service_client`** takes a part of the header, or
it takes the rest and that ends the session. -/
theorem serviceTurn (h : Unserved w) (c : ConnId) :
    Unserved (w.serviceTurn .windows T c).1 := by
  cases hs : w.client? c with
  | none =>
    rw [serviceTurn_of_none .windows T hs]
    exact h
  | some s =>
  obtain ⟨hno, hu, hrx⟩ := h.sessions c s hs
  have hc : c ∈ w.sockets := World.mem_sockets_iff.mpr ⟨s, hs⟩
  have hready : Ready c w := fun s' hs' => by
    obtain rfl := Option.some.inj (hs.symm.trans hs')
    have hu77 : s.rxUsed ≤ 77 := hu.le.trans (by decide)
    refine ⟨hu77, .inl ?_⟩
    rw [ClientSession.length_pending hu77]
    exact hu
  have hn : Awaits s 8 := .inl ⟨hu, rfl⟩
  by_cases hlt : s.rxUsed
      + (readable Platform.windows.retry (w.peers c).inbox).length < 8
  · obtain ⟨w₁, s₁, hr, -, hn₁, -, hturn⟩ :=
      hready.turn_waits (P := .windows) (T := T) hs hn hlt
    have hrx₁ : (w₁.peers c).received.length = s₁.rxUsed := by
      rw [hr.received, List.length_append, hrx, hr.rxUsed]
    have h₁ : Unserved w₁ := by
      refine h.acts hc hr.acts ?_ rfl (hrx₁ ▸ hn₁.lt.le) fun s' hs' => ?_
      · rw [List.append_nil]
        exact h.trace
      · obtain rfl := Option.some.inj (hr.client.symm.trans hs')
        exact ⟨hno.receives hr hn₁.lt.le, hn₁.lt, hrx₁⟩
    rw [hturn]
    unfold World.stopped
    split
    · exact h₁.clientRemove c (by decide)
    · exact h₁.clientRemove c (by decide)
    · exact h₁
  · obtain ⟨w₁, s₁, got, hr, hu₁, -, -, -, -, hturn⟩ :=
      hready.turn_hands (P := .windows) (T := T) hs hn (.inl rfl)
        (not_lt.mp hlt)
    have hno₁ := hno.receives hr hu₁.le
    have hrx₁ : (w₁.peers c).received.length = 8 := by
      rw [hr.received, List.length_append, hrx, ← hu₁, hr.rxUsed]
    have hlen : s₁.pending.length = 8 := by
      rw [ClientSession.length_pending hr.fits, hu₁]
    have hfifth : s₁.pending.getD 5 0 = s₁.rx.bytes.getD 5 0 := by
      unfold ClientSession.pending
      rw [hu₁]
      simp only [List.getD_eq_getElem?_getD, List.getElem?_take]
      rfl
    rw [hturn, dispatch_of_nameless .windows T hr.client hno₁, ← hfifth]
    generalize hreason : (if s₁.pending.getD 5 0 = Miner.address
      then Removal.invalidAddress else .addressRequired) = reason
    have hgone : ((w₁.emit (.frame c s₁.pending)).clientRemove c
        reason).client? c = none := client?_clientRemove_self reason
    have hfinish : ((w₁.emit (.frame c s₁.pending)).clientRemove c
        reason).finishTurn c = (_, false) := if_neg (by rw [hgone]; decide)
    have ha := (hr.acts.trans (acts_emit_frame w₁ c s₁.pending)).trans
      (answers_clientRemove (w := w₁.emit (.frame c s₁.pending)) hr.client
        reason).toActs
    have ht := h.trace.refused c hlen
    rw [hreason] at ht
    rw [hfinish]
    refine h.acts hc ha ?_ rfl ?_ fun s' hs' => ?_
    · show Unrewarding (w.trace ++ [.frame c s₁.pending,
        .removed c reason (w₁.peers c).received.length])
      rw [hrx₁]
      exact ht
    · rw [World.peers_clientRemove]
      exact hrx₁.le
    · rw [hgone] at hs'
      cases hs'

end Unserved

/-- **On Windows no miner gets anything.** In every run of the Windows server,
whatever the miners send, whatever Chain answers, and whichever calls fail, the
trace consists of polls, of sessions that begin and of sessions that end, each
of which ends before it has sent a header or with the header it has sent. No
session ever has an address, nothing is ever written to a miner, and no more
than eight bytes are read from any. So there is never a JOB or a RESULT, and
Chain gets neither a share nor a block. -/
theorem windows_serves_nobody {T : ChainTransport τ} {w : World τ}
    (h : (stratum .windows T).Reachable w) :
    Unrewarding w.trace
      ∧ ∀ c, (w.peers c).written = [] ∧ (w.peers c).received.length ≤ 8
        ∧ ∀ s, w.client? c = some s → s.addressRegistered = false := by
  have hu : Unserved w := by
    refine h.invariant (P := Unserved) (fun w₀ h₀ => ?_) fun w a _ hu => ?_
    · have hnone : ∀ c, w₀.client? c = none := fun c => by
        rw [World.client?_eq_none_iff, h₀.sockets]
        exact List.not_mem_nil
      refine ⟨h₀.orderly, ?_, fun c => ?_, fun c s hs => ?_⟩
      · rw [h₀.trace]
        exact .nothing
      · obtain ⟨hr, -, hw⟩ := h₀.peers c
        rw [hr, hw]
        exact ⟨rfl, Nat.zero_le 8⟩
      · rw [hnone c] at hs
        cases hs
    · cases a with
      | accept mode =>
        exact World.acceptFrom_induction (fun _ hu => hu.acceptSession mode)
          (fun _ _ hu => ⟨⟨hu.orderly.nodup, hu.orderly.lt, hu.orderly.blank,
            hu.orderly.unseen⟩, hu.trace, hu.peers, hu.sessions⟩) _ hu
      | service c =>
        exact World.serviceLoop_induction (fun _ hu => hu.serviceTurn c) _ hu
      | refresh => exact hu.refreshWork .windows
      | sendPending =>
        show Unserved (w.sendPendingJobs .windows)
        rw [hu.sendPendingJobs_eq]
        exact hu
      | tick =>
        exact hu.setServer
          (f := fun s => { s with loopCount := s.loopCount + 1 }) (.refl _)
      | stop =>
        exact hu.setServer (f := fun s => { s with running := false }) (.refl _)
      | close => exact hu.serverClose
  exact ⟨hu.trace, fun c => ⟨(hu.peers c).1, (hu.peers c).2, fun s hs =>
    (hu.sessions c s hs).1.unregistered⟩⟩

set_option maxRecDepth 100000 in
/-- So it is with the miner that has sent all of its ADDRESS. -/
theorem windows_serves_nobody_prompt :
    ((stratum .windows Rpc.replay).run prompt
        [.accept .pool, .service 0]).trace
      = [.accepted 0, .frame 0 (addressFrame.take 8),
        .removed 0 .invalidAddress 8]
    ∧ Unrewarding ((stratum .windows Rpc.replay).run prompt
      [.accept .pool, .service 0]).trace := by
  have hreach : (stratum .windows Rpc.replay).Reachable
      ((stratum .windows Rpc.replay).run prompt [.accept .pool, .service 0]) :=
    ⟨prompt, _, startup_boot .., rfl⟩
  exact ⟨by decide +kernel, (windows_serves_nobody hreach).1⟩
