import StnStratum.Effects

/-!
# Runs of the server, move by move

An action of the server is a sequence of moves: it asks Chain for a template,
it changes itself, it answers a session, it accepts a session, or it takes a
turn of `service_client`. `World.act_induction` says that what every move
keeps every action keeps, so that an invariant of the runs is checked against
the moves, of which there are few.

Two invariants are proved here that the others need. `Orderly` is about the
connections: no session twice, and nothing known of a connection before it is
accepted. `Told` is about the trace: it is a sequence of episodes, each a
frame with what followed it or something the server did on its own.
-/

variable {τ : Type}

/-! ## Episodes -/

/-- **What the server does on its own**: it asks Chain for a template, sends a
JOB, or ends a session. -/
inductive Initiative : List Event → Prop where
  /-- A poll. -/
  | polled (client : RpcClient) (reply : Option Bytes) :
    Initiative [.exchange
      (Rpc.requestFrame Rpc.miningTemplate client.requestId.toNat []) reply]
  /-- A JOB. -/
  | job (c : ConnId) {header block : Bytes} (hj : IsJob header block)
    {es : List Event} (he : Ending c es) : Initiative (.job c header block :: es)
  /-- The end of a session. -/
  | ended (c : ConnId) (reason : Removal) (n : ℕ) :
    Initiative [.removed c reason n]

/-- **An episode of the trace.** -/
inductive Episode : List Event → Prop where
  /-- A session begins. -/
  | accepted (c : ConnId) : Episode [.accepted c]
  /-- A frame, and what followed it. -/
  | handed (c : ConnId) (frame : Bytes) {es : List Event}
    (h : Reaction c frame es) : Episode (.frame c frame :: es)
  /-- The server's initiative. -/
  | initiative {es : List Event} (h : Initiative es) : Episode es

/-- **A trace told in episodes.** -/
def Told (trace : List Event) : Prop :=
  ∃ episodes : List (List Event), trace = episodes.flatten
    ∧ ∀ es ∈ episodes, Episode es

theorem told_nil : Told [] := ⟨[], rfl, fun _ h => absurd h List.not_mem_nil⟩

/-- A trace goes on with an episode. -/
theorem Told.append {trace es : List Event} (h : Told trace)
    (he : Episode es) : Told (trace ++ es) := by
  obtain ⟨episodes, rfl, hall⟩ := h
  refine ⟨episodes ++ [es], by rw [List.flatten_append,
    List.flatten_singleton], fun es' hm => ?_⟩
  rcases List.mem_append.mp hm with hm | hm
  · exact hall es' hm
  · rw [List.mem_singleton.mp hm]
    exact he

/-- A trace goes on with an episode, or not at all. -/
theorem Told.append_initiative {trace es : List Event} (h : Told trace)
    (he : es = [] ∨ Initiative es) : Told (trace ++ es) := by
  rcases he with rfl | he
  · rwa [List.append_nil]
  · exact h.append (.initiative he)

/-! ## Moves -/

/-- **A move between turns**: the server answers one of its sessions, which it
leaves as it was up to its job or ends, or does something that answers nobody
in particular. -/
def Move (w w' : World τ) : Prop :=
  ∃ es, (es = [] ∨ Initiative es)
    ∧ ((∀ c, Answers c w w' es)
      ∨ ∃ c s, w.client? c = some s
        ∧ (∀ s', w'.client? c = some s' → s'.clearJob = s.clearJob)
        ∧ Answers c w w' es)

/-- A change of the server is a move. -/
theorem move_setServer {w : World τ} {f : StratumServer τ → StratumServer τ}
    (h : StratumServer.SameSessions w.server (f w.server)) :
    Move w (w.setServer f) :=
  ⟨[], .inl rfl, .inl fun _ => answers_setServer h⟩

/-- So is the end of a session. -/
theorem move_clientRemove {w : World τ} {c : ConnId} {s : ClientSession}
    (hs : w.client? c = some s) (reason : Removal) :
    Move w (w.clientRemove c reason) := by
  refine ⟨_, .inr (.ended _ _ _), .inr ⟨c, s, hs, fun s' hs' => ?_,
    answers_clientRemove hs reason⟩⟩
  rw [client?_clientRemove_self] at hs'
  cases hs'

/-- A JOB changes nothing but the job of its session. -/
theorem client?_clientSendJob (P : Platform) {w : World τ} {c : ConnId}
    {s s' : ClientSession} (hs : w.client? c = some s)
    (hs' : (w.clientSendJob P c).client? c = some s') :
    s'.clearJob = s.clearJob := by
  have hsame : ∀ {s₁ : ClientSession}, w.client? c = some s₁ →
      s₁.clearJob = s.clearJob := fun h => by
    rw [Option.some.inj (h.symm.trans hs)]
  unfold World.clientSendJob at hs'
  split at hs'
  · exact hsame hs'
  split at hs'
  · exact hsame hs'
  dsimp only at hs'
  split at hs'
  · rw [client?_clientRemove_self] at hs'
    cases hs'
  split at hs'
  · rw [client?_clientRemove_self] at hs'
    cases hs'
  · rw [World.client?_setClient, if_pos rfl] at hs'
    · obtain ⟨s₁, hs₁, rfl⟩ := Option.map_eq_some_iff.mp hs'
      have h₁ : s₁.clearJob = s.clearJob := hsame hs₁
      exact h₁
    · exact fun _ => rfl

/-- So is the treatment of a session by `send_pending_jobs`. -/
theorem move_sendPendingJob (P : Platform) (w : World τ) (c : ConnId) :
    Move w (w.sendPendingJob P c) := by
  cases hs : w.client? c with
  | none =>
    have : w.sendPendingJob P c = w := by
      unfold World.sendPendingJob
      rw [hs]
    rw [this]
    exact ⟨[], .inl rfl, .inl fun _ => .refl⟩
  | some s =>
    obtain ⟨es, he, h⟩ := answers_sendPendingJob P w c
    refine ⟨es, ?_, .inr ⟨c, s, hs, fun s' hs' => ?_, h⟩⟩
    rotate_left
    · unfold World.sendPendingJob at hs'
      rw [hs] at hs'
      dsimp only at hs'
      split at hs'
      · exact client?_clientSendJob P hs hs'
      · rw [Option.some.inj (hs.symm.trans hs')]
    rcases he with rfl | ⟨header, block, es', hj, he, rfl⟩
    · exact .inl rfl
    · exact .inr (.job c hj he)

/-- A poll makes one exchange at most. -/
theorem exchangeEvents_poll (T : ChainTransport τ) (w : World τ) :
    exchangeEvents (w.poll T) = []
      ∨ ∃ reply, exchangeEvents (w.poll T)
        = [.exchange (Rpc.requestFrame Rpc.miningTemplate
            w.server.chainRpc.requestId.toNat []) reply] := by
  have h := Rpc.call_exchanged T w.server.chainTransport w.server.chainRpc
    w.heap Rpc.miningTemplate [] (some w.server.work.template)
  have he : (w.poll T).exchanged = (Rpc.call T w.server.chainTransport
    w.server.chainRpc w.heap Rpc.miningTemplate []
    (some w.server.work.template)).exchanged := rfl
  rcases h with h | ⟨reply, h, _⟩ <;> rw [exchangeEvents, he, h]
  · exact .inl rfl
  · exact .inr ⟨reply, rfl⟩

/-- It answers nobody in particular. -/
theorem answers_polled (T : ChainTransport τ) (w : World τ) (c : ConnId) :
    Answers c w (w.polled (w.poll T)) (exchangeEvents (w.poll T)) := by
  have h := (answers_called (c := c) (w := w) (w.poll T)).trans
    (answers_setServer (w := w.called (w.poll T)) (f := fun s =>
      { s with work := { s.work with
        template := (w.poll T).payload.getD s.work.template } })
      (StratumServer.SameSessions.refl _))
  rwa [List.append_nil] at h

/-- So it is a move. -/
theorem move_polled (T : ChainTransport τ) (w : World τ) :
    Move w (w.polled (w.poll T)) := by
  refine ⟨_, ?_, .inl (answers_polled T w)⟩
  rcases exchangeEvents_poll T w with he | ⟨reply, he⟩ <;> rw [he]
  · exact .inl rfl
  · exact .inr (.polled _ _)

/-- **A move leaves every session that stays as it was**, up to its job. -/
theorem Move.client?_before {w w' : World τ} (h : Move w w') {c : ConnId}
    {s' : ClientSession} (hs' : w'.client? c = some s') :
    ∃ s, w.client? c = some s ∧ s.clearJob = s'.clearJob := by
  obtain ⟨es, _, hq | ⟨d, s, hs, hsame, ha⟩⟩ := h
  · exact (hq (c + 1)).toActs.client?_before
      (Nat.ne_of_lt (Nat.lt_succ_self c)) hs'
  · by_cases hd : c = d
    · subst hd
      exact ⟨s, hs, (hsame s' hs').symm⟩
    · exact ha.toActs.client?_before hd hs'

namespace World

variable {P : Platform} {T : ChainTransport τ} {I : World τ → Prop}

/-- What moves keep, `send_pending_jobs` keeps. -/
theorem sendPendingJobs_induction (hmove : ∀ w w', Move w w' → I w → I w')
    {w : World τ} (h : I w) : I (w.sendPendingJobs P) := by
  unfold sendPendingJobs
  generalize w.sockets = cs
  induction cs generalizing w with
  | nil => exact h
  | cons c cs ih => exact ih (hmove _ _ (move_sendPendingJob P w c) h)

/-- What moves keep, the end of a poll keeps. -/
theorem afterPoll_induction (hmove : ∀ w w', Move w w' → I w → I w')
    {w : World τ} (h : I w) (code : RpcCode) (written : ℕ)
    (hle : written ≤ Rpc.maxPayload) :
    I (w.afterPoll P T code written hle) := by
  have hclear : ∀ b, I (w.setServer fun s =>
      { s.clearWork with chainAvailable := b }) := fun b =>
    hmove _ _ (move_setServer (StratumServer.clearWork_same w.server)) h
  unfold afterPoll
  split
  · split
    · exact hclear false
    split
    · exact hclear false
    have h₁ : I (w.setServer fun s => { s with chainAvailable := true }) :=
      hmove _ _ (move_setServer (StratumServer.SameSessions.refl w.server)) h
    dsimp only
    split
    · exact sendPendingJobs_induction hmove
        (hmove _ _ (move_setServer (StratumServer.SameSessions.refl _)) h₁)
    · exact hmove _ _ (move_setServer (StratumServer.SameSessions.refl _)) h₁
  · exact hmove _ _ (move_setServer (StratumServer.SameSessions.refl _)) h
  · refine hmove _ _ (move_setServer ?_) h
    exact (StratumServer.clearWork_same w.server).trans
      (StratumServer.chainTransportNext_same T _)
  · exact hclear true

/-- What moves keep, closing the server keeps. -/
theorem serverClose_induction (hmove : ∀ w w', Move w w' → I w → I w')
    {w : World τ} (h : I w) : I (w.serverClose T) := by
  have hall : ∀ (cs : List ConnId) (w : World τ), I w →
      I (cs.foldl (fun w c => w.clientRemove c .serverClosing) w) := by
    intro cs
    induction cs with
    | nil => exact fun _ h => h
    | cons c cs ih =>
      intro w h
      refine ih _ ?_
      cases hs : w.client? c with
      | none =>
        dsimp only
        rwa [clientRemove_of_none w c _ hs]
      | some s => exact hmove _ _ (move_clientRemove hs _) h
  refine hmove _ _ (move_setServer ?_) (hall w.sockets w h)
  exact StratumServer.clearWork_same (τ := τ) _

/-- What a turn keeps, `service_client` keeps. -/
theorem serviceLoop_induction {c : ConnId}
    (hturn : ∀ w, I w → I (w.serviceTurn P T c).1) (fuel : ℕ) {w : World τ}
    (h : I w) : I (serviceLoop P T fuel w c) := by
  induction fuel generalizing w with
  | zero => exact h
  | succ fuel ih =>
    unfold serviceLoop
    split
    · exact ih (hturn w h)
    · exact hturn w h

/-- What accepting a session keeps, `accept_from_listener` keeps. -/
theorem acceptFrom_induction {mode : ServiceMode}
    (haccept : ∀ w, I w → I (w.acceptSession mode))
    (hbacklog : ∀ w b, I w → I { w with backlog := b })
    (outcomes : List AcceptOutcome) {w : World τ} (h : I w) :
    I (acceptFrom mode outcomes w) := by
  induction outcomes generalizing w with
  | nil => exact hbacklog _ _ h
  | cons o rest ih =>
    cases o with
    | session => exact ih (haccept w h)
    | nobody => exact hbacklog _ _ h
    | failed => exact hbacklog _ _ h

/-- **What every move keeps, every action keeps.** -/
theorem act_induction (hmove : ∀ w w', Move w w' → I w → I w')
    (haccept : ∀ w mode, I w → I (w.acceptSession mode))
    (hbacklog : ∀ w b, I w → I { w with backlog := b })
    (hturn : ∀ w c, I w → I (w.serviceTurn P T c).1) {w : World τ}
    (h : I w) (a : ServerAction) : I ((stratum P T).act w a) := by
  cases a with
  | accept mode =>
    exact acceptFrom_induction (fun w => haccept w mode) hbacklog _ h
  | service c => exact serviceLoop_induction (fun w => hturn w c) _ h
  | refresh =>
    exact afterPoll_induction hmove (hmove _ _ (move_polled T w) h) _ _ _
  | sendPending => exact sendPendingJobs_induction hmove h
  | tick =>
    exact hmove w (w.setServer fun s => { s with loopCount := s.loopCount + 1 })
      (move_setServer (StratumServer.SameSessions.refl w.server)) h
  | stop =>
    exact hmove w (w.setServer fun s => { s with running := false })
      (move_setServer (StratumServer.SameSessions.refl w.server)) h
  | close => exact serverClose_induction hmove h

end World

/-! ## Turns -/

/-- What a turn adds to the trace: a frame with what followed it, the end of
the session, or nothing. -/
def TurnEvents (c : ConnId) (es : List Event) : Prop :=
  Ending c es ∨ ∃ frame es', Reaction c frame es' ∧ es = .frame c frame :: es'

/-- A turn's events make an episode, if there are any. -/
theorem TurnEvents.told {c : ConnId} {trace es : List Event}
    (h : TurnEvents c es) (ht : Told trace) : Told (trace ++ es) := by
  rcases h with (rfl | ⟨reason, n, rfl⟩) | ⟨frame, es', hr, rfl⟩
  · rwa [List.append_nil]
  · exact ht.append (.initiative (.ended _ _ _))
  · exact ht.append (.handed _ _ hr)

/-- The part of a turn behind the receiving: the frame is handed over, and
the buffer is emptied. -/
theorem acts_dispatch (P : Platform) (T : ChainTransport τ) {w : World τ}
    {c : ConnId} {s : ClientSession} (hs : w.client? c = some s)
    (hu : 8 ≤ s.rxUsed) :
    ∃ es, TurnEvents c es
      ∧ Acts c w ((w.dispatch P T c s).finishTurn c).1 es := by
  obtain ⟨es, hr, ha⟩ := answers_dispatch P T hs hu
  have h := ((acts_emit_frame w c s.pending).trans ha.toActs).trans
    (acts_finishTurn _ c)
  rw [List.append_nil] at h
  exact ⟨_, .inr ⟨s.pending, es, hr, rfl⟩, h⟩

/-- The part of a turn behind a loop that was not filled. -/
theorem acts_stopped {w : World τ} {c : ConnId} {s : ClientSession}
    (hs : w.client? c = some s) (status : RecvStatus) :
    ∃ es, TurnEvents c es ∧ Acts c w (w.stopped c status) es := by
  obtain ⟨es, he, ha⟩ := answers_stopped hs status
  exact ⟨es, .inl he, ha.toActs⟩

/-- Ending a session is a turn's end, too. -/
theorem acts_clientRemove {w : World τ} {c : ConnId} {s : ClientSession}
    (hs : w.client? c = some s) (reason : Removal) :
    ∃ es, TurnEvents c es ∧ Acts c w (w.clientRemove c reason) es :=
  ⟨_, .inl (.inr ⟨_, _, rfl⟩), (answers_clientRemove hs reason).toActs⟩

/-- The session once bytes have been received. -/
theorem client?_receive_self {w : World τ} {c : ConnId} {s : ClientSession}
    (hs : w.client? c = some s) (r : RecvResult) :
    (w.receive c r).client? c = some (s.store r.got) := by
  rw [client?_receive, if_pos rfl, hs]
  rfl

/-- A filled loop has as many bytes as were asked for. -/
theorem length_got_of_filled' {P : Platform} {w : World τ} {c : ConnId}
    {s : ClientSession} {n : ℕ}
    (h : (w.receiving P c s n).status = .filled) :
    n ≤ (s.store (w.receiving P c s n).got).rxUsed := by
  unfold World.receiving at h ⊢
  rw [recvLoop_status] at h
  show n ≤ s.rxUsed + List.length _
  by_cases hn : n - s.rxUsed ≤ (readable P.retry (w.peers c).inbox).length
  · rw [recvLoop_got, List.length_take, Nat.min_eq_left hn]
    omega
  · rw [if_neg hn] at h
    exact absurd h (stopStatus_ne_filled _ _)

/-- What is done after receiving is done in the same turn. -/
theorem TurnEvents.after_receive {w w' : World τ} {c : ConnId}
    {r : RecvResult} (h : ∃ es, TurnEvents c es
      ∧ Acts c (w.receive c r) w' es) :
    ∃ es, TurnEvents c es ∧ Acts c w w' es := by
  obtain ⟨es, he, ha⟩ := h
  exact ⟨es, he, (acts_receive w c r).trans ha⟩

/-- Without a session there is nothing to do. -/
theorem serviceTurn_of_none (P : Platform) (T : ChainTransport τ)
    {w : World τ} {c : ConnId} (hn : w.client? c = none) :
    w.serviceTurn P T c = (w, false) := by
  cases P <;> unfold World.serviceTurn <;> dsimp only
  · unfold World.serviceTurnLinux
    rw [hn]
  · unfold World.serviceTurnWindows
    rw [hn]

/-- **A turn acts on its session**, on either platform. -/
theorem acts_serviceTurn (P : Platform) (T : ChainTransport τ) (w : World τ)
    (c : ConnId) :
    ∃ es, TurnEvents c es ∧ Acts c w (w.serviceTurn P T c).1 es := by
  unfold World.serviceTurn
  cases P with
  | linux =>
    dsimp only
    unfold World.serviceTurnLinux
    cases hs : w.client? c with
    | none => exact ⟨[], .inl (.inl rfl), .refl⟩
    | some s =>
      dsimp only
      have h₁ := client?_receive_self hs (w.receiving .linux c s 8)
      refine TurnEvents.after_receive (r := w.receiving .linux c s 8) ?_
      split
      · exact acts_stopped h₁ _
      next hfill =>
      have hu := length_got_of_filled' (not_not.mp hfill)
      split
      · exact acts_clientRemove h₁ _
      split
      · exact acts_clientRemove h₁ _
      next n hn =>
      have h₂ := client?_receive_self h₁
        ((w.receive c (w.receiving .linux c s 8)).receiving .linux c
          (s.store (w.receiving .linux c s 8).got) n)
      refine TurnEvents.after_receive
        (r := (w.receive c (w.receiving .linux c s 8)).receiving .linux c
          (s.store (w.receiving .linux c s 8).got) n) ?_
      split
      · exact acts_stopped h₂ _
      next hfill₂ =>
      have hu₂ := length_got_of_filled' (not_not.mp hfill₂)
      have h48 := (Miner.frameSizeOf_bounds hn).1
      exact acts_dispatch .linux T h₂ (by omega)
  | windows =>
    dsimp only
    unfold World.serviceTurnWindows
    cases hs : w.client? c with
    | none => exact ⟨[], .inl (.inl rfl), .refl⟩
    | some s =>
      dsimp only
      cases hn : World.windowsFrameSize s with
      | error reason => exact acts_clientRemove hs _
      | ok n =>
        dsimp only
        have h₁ := client?_receive_self hs (w.receiving .windows c s n)
        refine TurnEvents.after_receive (r := w.receiving .windows c s n) ?_
        split
        · exact acts_stopped h₁ _
        next hfill =>
        have hu := length_got_of_filled' (not_not.mp hfill)
        refine acts_dispatch .windows T h₁ (le_trans ?_ hu)
        unfold World.windowsFrameSize at hn
        split at hn
        · exact le_of_eq (Except.ok.inj hn)
        split at hn
        · cases hn
        split at hn
        · cases hn
        next m hm =>
        have := (Miner.frameSizeOf_bounds hm).1
        rw [← Except.ok.inj hn]
        omega

/-! ## Connections -/

/-- **The connections are in order**: every session has its own, and of a
connection that is yet to be accepted nothing is known. -/
structure Orderly (w : World τ) : Prop where
  /-- No session twice. -/
  nodup : w.sockets.Nodup
  /-- Every session has been accepted. -/
  lt : ∀ c ∈ w.sockets, c < w.nextConn
  /-- Nothing was received or written before. -/
  blank : ∀ c, w.nextConn ≤ c → (w.peers c).received = []
    ∧ (w.peers c).asks = [] ∧ (w.peers c).written = []
  /-- Nothing was done before. -/
  unseen : ∀ e ∈ w.trace, ∀ c, e.client? = some c → c < w.nextConn

/-- Nothing is known of the next connection. -/
theorem Orderly.not_about {w : World τ} (h : Orderly w) :
    ∀ e ∈ w.trace, e.client? ≠ some w.nextConn :=
  fun e he hc => Nat.lt_irrefl _ (h.unseen e he _ hc)

/-- Acting on a session keeps the connections in order. -/
theorem Orderly.acts {c : ConnId} {w w' : World τ} {es : List Event}
    (h : Orderly w) (hc : c ∈ w.sockets) (ha : Acts c w w' es) :
    Orderly w' := by
  refine ⟨?_, ?_, ?_, ?_⟩
  · rcases ha.sockets with hs | hs <;> rw [hs]
    · exact h.nodup
    · exact h.nodup.filter _
  · intro d hd
    rw [ha.nextConn]
    refine h.lt d ?_
    rcases ha.sockets with hs | hs <;> rw [hs] at hd
    · exact hd
    · exact List.mem_of_mem_filter hd
  · intro d hd
    rw [ha.nextConn] at hd
    have hne : d ≠ c := by
      rintro rfl
      exact absurd (h.lt d hc) (not_lt.mpr hd)
    rw [ha.peers d hne]
    exact h.blank d hd
  · intro e he d hd
    rw [ha.nextConn]
    rw [ha.trace] at he
    rcases List.mem_append.mp he with he | he
    · exact h.unseen e he d hd
    · rw [ha.about e he d hd]
      exact h.lt c hc

/-- What answers nobody in particular touches no connection. -/
theorem peers_eq_of_answers {w w' : World τ} {es : List Event}
    (h : ∀ c, Answers c w w' es) : w'.peers = w.peers := by
  funext d
  exact (h (d + 1)).peers d (Nat.ne_of_lt (Nat.lt_succ_self d))

/-- Nor does it say anything about one. -/
theorem client?_eq_none_of_answers {w w' : World τ} {es : List Event}
    (h : ∀ c, Answers c w w' es) {e : Event} (he : e ∈ es) :
    e.client? = none := by
  cases hc : e.client? with
  | none => rfl
  | some d =>
    exact absurd ((h (d + 1)).about e he d hc)
      (Nat.ne_of_lt (Nat.lt_succ_self d))

/-- Nor does it end a session. -/
theorem sockets_eq_of_answers {w w' : World τ} {es : List Event}
    (h : ∀ c, Answers c w w' es) (ho : Orderly w) : w'.sockets = w.sockets := by
  rcases (h w.nextConn).sockets with hs | hs
  · exact hs
  · rw [hs, List.filter_eq_self]
    intro d hd
    rw [bne_iff_ne]
    exact Nat.ne_of_lt (ho.lt d hd)

/-- A move keeps the connections in order. -/
theorem Orderly.move {w w' : World τ} (h : Orderly w) (hm : Move w w') :
    Orderly w' := by
  obtain ⟨es, -, hq | ⟨c, s, hs, -, ha⟩⟩ := hm
  · refine ⟨?_, ?_, ?_, ?_⟩
    · rw [sockets_eq_of_answers hq h]
      exact h.nodup
    · rw [sockets_eq_of_answers hq h, (hq 0).nextConn]
      exact h.lt
    · rw [peers_eq_of_answers hq, (hq 0).nextConn]
      exact h.blank
    · intro e he c hc
      rw [(hq 0).nextConn]
      rw [(hq 0).trace] at he
      rcases List.mem_append.mp he with he | he
      · exact h.unseen e he c hc
      · rw [client?_eq_none_of_answers hq he] at hc
        cases hc
  · exact h.acts (World.mem_sockets_iff.mpr ⟨s, hs⟩) ha.toActs

/-- A turn keeps the connections in order. -/
theorem Orderly.serviceTurn {w : World τ} (h : Orderly w) (P : Platform)
    (T : ChainTransport τ) (c : ConnId) :
    Orderly (w.serviceTurn P T c).1 := by
  by_cases hc : c ∈ w.sockets
  · obtain ⟨es, _, ha⟩ := acts_serviceTurn P T w c
    exact h.acts hc ha
  · have hn := World.client?_eq_none_iff.mpr hc
    rw [serviceTurn_of_none P T hn]
    exact h

/-- Accepting a session keeps the connections in order. -/
theorem Orderly.acceptSession {w : World τ} (h : Orderly w)
    (mode : ServiceMode) : Orderly (w.acceptSession mode) := by
  have hs : (w.acceptSession mode).sockets = w.nextConn :: w.sockets := rfl
  have hn : (w.acceptSession mode).nextConn = w.nextConn + 1 := rfl
  refine ⟨?_, ?_, ?_, ?_⟩
  · rw [hs, List.nodup_cons]
    exact ⟨fun hm => Nat.lt_irrefl _ (h.lt _ hm), h.nodup⟩
  · intro c hc
    rw [hs] at hc
    rw [hn]
    rcases List.mem_cons.mp hc with rfl | hc
    · exact Nat.lt_succ_self _
    · exact Nat.lt_succ_of_lt (h.lt c hc)
  · intro c hc
    exact h.blank c (Nat.le_of_succ_le hc)
  · intro e he c hc
    rw [hn]
    rcases List.mem_append.mp he with he | he
    · exact Nat.lt_succ_of_lt (h.unseen e he c hc)
    · rw [List.mem_singleton.mp he] at hc
      obtain rfl := Option.some.inj hc
      exact Nat.lt_succ_self _

/-- The connections are in order when the server starts. -/
theorem Startup.sockets {T : ChainTransport τ} {w : World τ}
    (h : Startup T w) : w.sockets = [] := by
  obtain ⟨entry, chain, transport, hs⟩ := h.server
  unfold World.sockets
  rw [hs]
  rfl

theorem Startup.orderly {T : ChainTransport τ} {w : World τ}
    (h : Startup T w) : Orderly w := by
  refine ⟨?_, ?_, fun c _ => h.peers c, ?_⟩
  · rw [h.sockets]
    exact List.nodup_nil
  · rw [h.sockets]
    exact fun c hc => absurd hc List.not_mem_nil
  · rw [h.trace]
    exact fun e he => absurd he List.not_mem_nil

/-- **The connections are in order in every reachable state.** -/
theorem orderly_of_run {P : Platform} {T : ChainTransport τ} {w : World τ}
    (h : (stratum P T).Reachable w) : Orderly w :=
  h.invariant (P := Orderly) (fun _ => Startup.orderly) fun _ a _ ho =>
    World.act_induction (fun _ _ hm ho => ho.move hm)
      (fun _ mode ho => ho.acceptSession mode)
      (fun _ _ ho => ⟨ho.nodup, ho.lt, ho.blank, ho.unseen⟩)
      (fun _ c ho => ho.serviceTurn P T c) ho a

/-! ## The trace -/

/-- **The trace of every reachable state is told in episodes.** -/
theorem told_of_run {P : Platform} {T : ChainTransport τ} {w : World τ}
    (h : (stratum P T).Reachable w) : Told w.trace := by
  refine h.invariant (P := fun w => Told w.trace) ?_ ?_
  · intro w hw
    rw [hw.trace]
    exact told_nil
  · intro w a _ ht
    refine World.act_induction (I := fun w => Told w.trace) ?_ ?_
      (fun _ _ ht => ht) ?_ ht a
    · rintro w w' ⟨es, he, hq | ⟨c, s, hs, _, ha⟩⟩ ht
      · rw [(hq 0).trace]
        exact ht.append_initiative he
      · rw [ha.trace]
        exact ht.append_initiative he
    · intro w mode ht
      exact ht.append (.accepted _)
    · intro w c ht
      obtain ⟨es, he, ha⟩ := acts_serviceTurn P T w c
      rw [ha.trace]
      exact he.told ht
