import StnStratum.WorkCoherence
import StnStratum.ServicePass

/-!
# The server, turn by turn

An action of the machine serves a session to the end, and what is said of
reachable states is said of the states between two actions. `turns` is the
same machine with a turn of `service_client` as an action of its own, so that
a frame is handed over in every other action at most once, and every run of
the server is a run of it (`run_eq_turns`).

The sessions have a rule of their own. What can happen to one is little: bytes
are received, the address is stored, a job is noted, a rate is noted
(`Stored`), it is removed, or its job is cleared with the work. What these
keep every turn keeps (`SessionsRule.act`), and what they keep of a session
every run keeps of every session (`Sessions.run`).
-/

variable {τ : Type}

/-! ## The machine -/

/-- **The server as a machine that takes one turn of a session at a time.** -/
def turns (P : Platform) (T : ChainTransport τ) :
    Machine (World τ) ServerAction where
  Start := Startup T
  act w a :=
    match a with
    | .service c => (w.serviceTurn P T c).1
    | a => (stratum P T).act w a

section Machine

variable {P : Platform} {T : ChainTransport τ} {w : World τ}

/-- Serving a session is taking turns with it. -/
theorem serviceLoop_eq_turns (P : Platform) (T : ChainTransport τ) (fuel : ℕ)
    (w : World τ) (c : ConnId) : ∃ as, World.serviceLoop P T fuel w c
      = (turns P T).run w as := by
  induction fuel generalizing w with
  | zero => exact ⟨[], rfl⟩
  | succ fuel ih =>
    unfold World.serviceLoop
    split
    · obtain ⟨as, h⟩ := ih (w.serviceTurn P T c).1
      exact ⟨.service c :: as, h⟩
    · exact ⟨[.service c], rfl⟩

/-- **Every run of the server is one turn after the other.** -/
theorem run_eq_turns (P : Platform) (T : ChainTransport τ) (w : World τ)
    (as : List ServerAction) :
    ∃ bs, (stratum P T).run w as = (turns P T).run w bs := by
  induction as generalizing w with
  | nil => exact ⟨[], rfl⟩
  | cons a as ih =>
    obtain ⟨bs, h⟩ := ih ((stratum P T).act w a)
    have hact : ∃ bs, (stratum P T).act w a = (turns P T).run w bs := by
      cases a with
      | service c => exact serviceLoop_eq_turns P T _ w c
      | accept mode => exact ⟨[.accept mode], rfl⟩
      | refresh => exact ⟨[.refresh], rfl⟩
      | sendPending => exact ⟨[.sendPending], rfl⟩
      | tick => exact ⟨[.tick], rfl⟩
      | stop => exact ⟨[.stop], rfl⟩
      | close => exact ⟨[.close], rfl⟩
    obtain ⟨cs, hcs⟩ := hact
    refine ⟨cs ++ bs, ?_⟩
    rw [Machine.run_cons, h, hcs, Machine.run_append]

/-- What the server can reach, it can reach turn by turn. -/
theorem Machine.Reachable.turns (h : (stratum P T).Reachable w) :
    (turns P T).Reachable w := by
  obtain ⟨w₀, as, h₀, rfl⟩ := h
  obtain ⟨bs, he⟩ := run_eq_turns P T w₀ as
  exact ⟨w₀, bs, h₀, he.symm⟩

/-- **What every move keeps, every turn keeps.** -/
theorem World.turns_induction {I : World τ → Prop}
    (hmove : ∀ w w', Move w w' → I w → I w')
    (haccept : ∀ w mode, I w → I (w.acceptSession mode))
    (hbacklog : ∀ w b, I w → I { w with backlog := b })
    (hturn : ∀ w c, I w → I (w.serviceTurn P T c).1) (h : I w)
    (a : ServerAction) : I ((turns P T).act w a) := by
  cases a with
  | service c => exact hturn w c h
  | accept mode =>
    exact World.act_induction hmove haccept hbacklog hturn h (.accept mode)
  | refresh =>
    exact World.act_induction hmove haccept hbacklog hturn h .refresh
  | sendPending =>
    exact World.act_induction hmove haccept hbacklog hturn h .sendPending
  | tick => exact World.act_induction hmove haccept hbacklog hturn h .tick
  | stop => exact World.act_induction hmove haccept hbacklog hturn h .stop
  | close => exact World.act_induction hmove haccept hbacklog hturn h .close

/-- The connections are in order between any two turns. -/
theorem orderly_of_turns (h : (turns P T).Reachable w) : Orderly w :=
  h.invariant (P := Orderly) (fun _ => Startup.orderly) fun _ a _ ho =>
    World.turns_induction (fun _ _ hm ho => ho.move hm)
      (fun _ mode ho => ho.acceptSession mode)
      (fun _ _ ho => ⟨ho.nodup, ho.lt, ho.blank, ho.unseen⟩)
      (fun _ c ho => ho.serviceTurn P T c) ho a

/-- Every connection is ready for the next one. -/
theorem ready_of_turns (h : (turns P T).Reachable w) (c : ConnId) :
    Ready c w :=
  h.invariant (P := Ready c) (fun _ hw => Startup.ready hw c) fun _ a _ hw =>
    World.turns_induction (fun _ _ hm h => h.move hm)
      (fun _ mode h => h.acceptSession mode) (fun _ _ h => h)
      (fun _ d h => h.turn P T d) hw a

/-- The work is coherent, on Linux. -/
theorem workCoherent_of_turns (h : (turns .linux T).Reachable w) :
    WorkCoherent w.server := by
  refine h.invariant (P := fun w => WorkCoherent w.server) ?_ ?_
  · exact fun w hw => workCoherent_of_run (T := T) (.start hw)
  · intro w a _ hw
    cases a with
    | service c => exact (World.keptOrCleared_serviceTurn T w c).coherent hw
    | accept mode => exact workCoherent_act (T := T) (.accept mode) hw
    | refresh => exact workCoherent_act (T := T) .refresh hw
    | sendPending => exact workCoherent_act (T := T) .sendPending hw
    | tick => exact workCoherent_act (T := T) .tick hw
    | stop => exact workCoherent_act (T := T) .stop hw
    | close => exact workCoherent_act (T := T) .close hw

end Machine

/-! ## Keeping or clearing the jobs -/

namespace StratumServer

/-- **A change of the server that keeps the work and the sessions**, or clears
the work and every job with it. -/
def KeepsJobs (s s' : StratumServer τ) : Prop :=
  s'.clientCount = s.clientCount
    ∧ (s'.work = s.work ∧ s'.clients = s.clients
      ∨ s'.work.IsCleared
        ∧ s'.clients = s.clients.map ClientSession.clearJob)

theorem KeepsJobs.refl (s : StratumServer τ) : KeepsJobs s s :=
  ⟨rfl, .inl ⟨rfl, rfl⟩⟩

theorem keepsJobs_clearWork (s : StratumServer τ) : KeepsJobs s s.clearWork :=
  ⟨rfl, .inr ⟨isCleared_clearWork s, rfl⟩⟩

theorem KeepsJobs.trans {s s' s'' : StratumServer τ} (h : KeepsJobs s s')
    (h' : KeepsJobs s' s'') : KeepsJobs s s'' := by
  refine ⟨h'.1.trans h.1, ?_⟩
  rcases h.2 with ⟨hw, hc⟩ | ⟨hw, hc⟩ <;>
    rcases h'.2 with ⟨hw', hc'⟩ | ⟨hw', hc'⟩
  · exact .inl ⟨hw'.trans hw, hc'.trans hc⟩
  · exact .inr ⟨hw', by rw [hc', hc]⟩
  · exact .inr ⟨by rw [hw']; exact hw, hc'.trans hc⟩
  · refine .inr ⟨hw', ?_⟩
    rw [hc', hc, List.map_map]
    rfl

theorem keepsJobs_next (T : ChainTransport τ) (s : StratumServer τ) :
    KeepsJobs s (s.chainTransportNext T) := by
  unfold chainTransportNext
  split
  · exact .refl s
  · dsimp only
    unfold chainTransportSelect
    split
    · exact .refl s
    · exact ⟨rfl, .inr ⟨isCleared_clearWork s, rfl⟩⟩

theorem keepsJobs_afterWork (P : Platform) (T : ChainTransport τ)
    (code : RpcCode) (s : StratumServer τ) :
    KeepsJobs s (World.afterWork P T code s) := by
  have h : KeepsJobs s (World.settleWork P code s) := by
    unfold World.settleWork
    cases P with
    | linux =>
      dsimp only
      split
      · exact keepsJobs_clearWork s
      · exact .refl s
    | windows =>
      dsimp only
      split <;> exact ⟨rfl, .inl ⟨rfl, rfl⟩⟩
  unfold World.afterWork
  dsimp only
  split
  · exact h.trans (keepsJobs_next T _)
  · exact h

end StratumServer

/-- **A poll that fails** keeps the work and the sessions, or clears the work
and every job with it. -/
theorem World.refreshWork_keepsJobs {P : Platform} {T : ChainTransport τ}
    {w : World τ} (h : (w.poll T).code ≠ .ok) :
    ∃ f, w.refreshWork P T = (w.called (w.poll T)).setServer f
      ∧ StratumServer.KeepsJobs (w.called (w.poll T)).server
        (f (w.called (w.poll T)).server) := by
  have hp : (w.poll T).payload = some w.server.work.template :=
    Rpc.callMiningTemplate_payload h
  have hpolled : w.polled (w.poll T) = w.called (w.poll T) := by
    unfold World.polled
    rw [hp]
    rfl
  unfold World.refreshWork
  dsimp only
  rw [hpolled]
  have hclear : ∀ b, StratumServer.KeepsJobs (w.called (w.poll T)).server
      { (w.called (w.poll T)).server.clearWork with chainAvailable := b } :=
    fun _ => StratumServer.keepsJobs_clearWork (w.called (w.poll T)).server
  unfold World.afterPoll
  split
  next hok => exact absurd hok h
  · exact ⟨_, rfl, rfl, .inl ⟨rfl, rfl⟩⟩
  · exact ⟨_, rfl, (hclear false).trans (StratumServer.keepsJobs_next T
      { (w.called (w.poll T)).server.clearWork with chainAvailable := false })⟩
  · exact ⟨_, rfl, hclear true⟩

/-! ## The rule of the sessions -/

/-- **What is stored into a session**, by the server's work. -/
inductive Stored (work : ActiveWork) (s : ClientSession) :
    ClientSession → Prop where
  /-- Bytes are received, or the buffer is emptied. -/
  | received (rx : Buf Miner.addressFrameSize) (n : ℕ) :
    Stored work s { s with rx := rx, rxUsed := n }
  /-- The address is stored. -/
  | registered (hreg : s.addressRegistered = false)
    (haddr : addressValid s.rx.bytes = true) :
    Stored work s (World.registered s)
  /-- The job has been sent. -/
  | sent (hreg : s.addressRegistered = true) (hwork : work.haveWork = true) :
    Stored work s { s with sentJobId := work.jobId, hasJob := true }
  /-- A rate is noted, of a session that works on the job, or the rate is
  cleared. -/
  | rated (rate : UInt64) (h : s.hasJob = true ∨ rate = 0) :
    Stored work s { s with hashrate := rate }

/-- **What is sent fits the work there is**: a JOB is built from it. -/
def Event.Fits (work : ActiveWork) : Event → Prop
  | .job _ header block => work.haveWork = true ∧ ∃ h n,
      minerJobBuild work.template.bytes work.templateLength = some (h, n)
        ∧ header = h.bytes ∧ block = slice work.template.bytes 68 n
  | _ => True

/-- **What is new on a trace fits the work** there was. -/
def World.Tells (w w' : World τ) : Prop :=
  ∃ es, w'.trace = w.trace ++ es ∧ ∀ e ∈ es, e.Fits w.server.work

/-- Nothing new. -/
theorem World.Tells.of_eq {w w' : World τ} (h : w'.trace = w.trace) :
    w.Tells w' :=
  ⟨[], by rw [h, List.append_nil], fun _ he => absurd he List.not_mem_nil⟩

/-- Something new. -/
theorem World.tells_emit {w : World τ} {e : Event}
    (he : e.Fits w.server.work) : w.Tells (w.emit e) :=
  ⟨[e], rfl, fun _ hm => List.mem_singleton.mp hm ▸ he⟩

/-- A call is no JOB. -/
theorem World.tells_called (w : World τ) {capacity : ℕ}
    (r : Rpc.Call τ capacity) : w.Tells (w.called r) := by
  refine ⟨_, rfl, fun e he => ?_⟩
  cases hx : r.exchanged with
  | none =>
    rw [hx] at he
    exact absurd he List.not_mem_nil
  | some x =>
    rw [hx] at he
    rw [List.mem_singleton.mp he]
    exact trivial

/-- **What the server does with its sessions and its work**, and what a
property must be kept by to be kept by the server. -/
structure SessionsRule (I : World τ → Prop) : Prop where
  /-- Nothing but the sessions, their number, the work and the JOBs
  matters. -/
  same : ∀ {w w' : World τ}, I w → w'.server.clients = w.server.clients →
    w'.server.clientCount = w.server.clientCount →
    w'.server.work = w.server.work → w'.nextConn = w.nextConn →
    w.Tells w' → I w'
  /-- Something is stored into a session. -/
  setClient : ∀ {w : World τ} {c f}, I w → (∀ s, (f s).socket = s.socket) →
    (∀ s, w.client? c = some s → Stored w.server.work s (f s)) →
    I (w.setClient c f)
  /-- A session is removed. -/
  clientRemove : ∀ {w : World τ} c reason, I w → I (w.clientRemove c reason)
  /-- The work is kept or cleared. -/
  setServer : ∀ {w : World τ} {f}, I w →
    StratumServer.KeepsJobs w.server (f w.server) → I (w.setServer f)
  /-- A template is taken. -/
  installs : ∀ {w w' : World τ} {frame}, I w → World.Installs w w' frame → I w'

namespace SessionsRule

variable {I : World τ → Prop} (R : SessionsRule I) {P : Platform}
  {T : ChainTransport τ} {w : World τ} {c : ConnId}

include R

theorem emit (h : I w) (e : Event) (he : e.Fits w.server.work) :
    I (w.emit e) :=
  R.same h rfl rfl rfl rfl (World.tells_emit he)

theorem send (h : I w) (c : ConnId) (p : Bytes) : I (w.send P c p) :=
  R.same h rfl rfl rfl rfl (.of_eq rfl)

theorem called (h : I w) {capacity : ℕ} (r : Rpc.Call τ capacity) :
    I (w.called r) :=
  R.same h rfl rfl rfl rfl (w.tells_called r)

theorem clientSendResult (h : I w) (c : ConnId) (code : RpcCode) :
    I (w.clientSendResult P c code) := by
  have hres := R.emit h (.result c (submitResultCode code)) trivial
  unfold World.clientSendResult
  dsimp only
  split
  · exact R.clientRemove c _ (R.send hres c _)
  · exact R.send hres c _

theorem clientSendJob (h : I w)
    (hreg : ∀ s, w.client? c = some s → s.addressRegistered = true) :
    I (w.clientSendJob P c) := by
  unfold World.clientSendJob
  split
  · exact h
  next hwork =>
  split
  · exact h
  next header n hb =>
  dsimp only
  have hjob := R.emit h (.job c header.bytes
    (slice w.server.work.template.bytes 68 n))
    ⟨Bool.eq_true_of_not_eq_false hwork, header, n, hb, rfl, rfl⟩
  split
  · exact R.clientRemove c _ (R.send hjob c _)
  split
  · exact R.clientRemove c _ (R.send (R.send hjob c _) c _)
  · refine R.setClient (R.send (R.send hjob c _) c _)
      (fun _ => rfl) fun s hs => ?_
    exact .sent (hreg s hs) (Bool.eq_true_of_not_eq_false hwork)

theorem processAddress (h : I w) (c : ConnId) : I (w.processAddress P c) := by
  unfold World.processAddress
  cases hs : w.client? c with
  | none => exact h
  | some s =>
    dsimp only
    split
    · exact R.clientRemove c _ h
    next hreg =>
    split
    · exact R.clientRemove c _ h
    next haddr =>
    have h₁ : I (w.setClient c World.registered) := by
      refine R.setClient h (fun _ => rfl) fun s' hs' => ?_
      obtain rfl := Option.some.inj (hs.symm.trans hs')
      exact .registered (Bool.eq_false_of_not_eq_true hreg)
        (Bool.eq_true_of_not_eq_false haddr)
    split
    · refine R.clientSendJob h₁ fun s' hs' => ?_
      rw [World.client?_setClient (f := World.registered) (fun _ => rfl),
        if_pos rfl] at hs'
      obtain ⟨s₀, _, rfl⟩ := Option.map_eq_some_iff.mp hs'
      rfl
    · exact h₁

theorem processHashProgress (h : I w) (c : ConnId) :
    I (w.processHashProgress c) := by
  have hzero : I (w.setClient c fun s => { s with hashrate := 0 }) :=
    R.setClient h (fun _ => rfl) fun s _ => .rated 0 (.inr rfl)
  unfold World.processHashProgress
  cases hs : w.client? c with
  | none => exact h
  | some s =>
    dsimp only
    split
    · exact R.clientRemove c _ h
    split
    · exact h
    split
    · exact hzero
    next hjob =>
    split
    · exact hzero
    · refine R.setClient h (fun _ => rfl) fun s' hs' => ?_
      obtain rfl := Option.some.inj (hs.symm.trans hs')
      simp only [not_or] at hjob
      exact .rated _ (.inl (Bool.eq_true_of_not_eq_false hjob.2.1))

theorem processSubmission (h : I w) (c : ConnId) :
    I (w.processSubmission P T c) := by
  unfold World.processSubmission
  split
  · exact h
  split
  · exact R.clientRemove c _ h
  · exact R.clientSendResult h c _
  · unfold World.submitShare
    dsimp only
    split
    · exact R.setServer (R.clientSendResult (R.called h _) c _)
        (StratumServer.keepsJobs_clearWork _)
    · exact R.clientSendResult (R.called h _) c _
  · unfold World.submitWork
    dsimp only
    split
    · have h₁ : I { w with heap := (w.heap.malloc
          (w.server.work.templateLength + Miner.addressLength)).2 } :=
        R.same h rfl rfl rfl rfl (.of_eq rfl)
      exact R.clientSendResult h₁ c _
    · exact R.setServer (R.clientSendResult (R.called h _) c _)
        (StratumServer.keepsJobs_afterWork P T _ _)

theorem dispatch (h : I w) (c : ConnId) (client : ClientSession) :
    I (w.dispatch P T c client) := by
  have hframe := R.emit h (.frame c client.pending) trivial
  unfold World.dispatch
  dsimp only
  split
  · exact R.processAddress hframe c
  split
  · exact R.processSubmission hframe c
  · exact R.processHashProgress hframe c

theorem receive (h : I w) (c : ConnId) (r : RecvResult) :
    I (w.receive c r) := by
  have h₁ : I (w.setClient c (·.store r.got)) :=
    R.setClient h (fun _ => rfl) fun _ _ => .received _ _
  exact R.same h₁ rfl rfl rfl rfl (.of_eq rfl)

theorem stopped (h : I w) (c : ConnId) (status : RecvStatus) :
    I (w.stopped c status) := by
  unfold World.stopped
  split
  · exact R.clientRemove c _ h
  · exact R.clientRemove c _ h
  · exact h

theorem finishTurn (h : I w) (c : ConnId) : I (w.finishTurn c).1 := by
  unfold World.finishTurn
  split
  · exact R.setClient h (fun _ => rfl) fun s _ => .received s.rx 0
  · exact h

/-- **A turn keeps what its parts keep.** -/
theorem serviceTurn (h : I w) (c : ConnId) : I (w.serviceTurn P T c).1 := by
  unfold World.serviceTurn
  cases P with
  | linux =>
    dsimp only
    unfold World.serviceTurnLinux
    split
    · exact h
    dsimp only
    split
    · exact R.stopped (R.receive h c _) c _
    split
    · exact R.clientRemove c _ (R.receive h c _)
    split
    · exact R.clientRemove c _ (R.receive h c _)
    split
    · exact R.stopped (R.receive (R.receive h c _) c _) c _
    · exact R.finishTurn (R.dispatch (R.receive (R.receive h c _) c _) c _) c
  | windows =>
    dsimp only
    unfold World.serviceTurnWindows
    split
    · exact h
    split
    · exact R.clientRemove c _ h
    dsimp only
    split
    · exact R.stopped (R.receive h c _) c _
    · exact R.finishTurn (R.dispatch (R.receive h c _) c _) c

theorem sendPendingJob (h : I w) (c : ConnId) : I (w.sendPendingJob P c) := by
  unfold World.sendPendingJob
  cases hs : w.client? c with
  | none => exact h
  | some s =>
    dsimp only
    split
    next hp =>
      refine R.clientSendJob h fun s' hs' => ?_
      obtain rfl := Option.some.inj (hs.symm.trans hs')
      exact hp.2.1
    · exact h

theorem sendPendingJobs (h : I w) : I (w.sendPendingJobs P) := by
  unfold World.sendPendingJobs
  generalize w.sockets = cs
  induction cs generalizing w with
  | nil => exact h
  | cons c cs ih => exact ih (R.sendPendingJob h c)

/-- **So does a poll.** -/
theorem refreshWork (h : I w) : I (w.refreshWork P T) := by
  by_cases hc : (w.poll T).code = .ok
  · obtain ⟨frame, w', hi, _, he⟩ := World.refreshWork_installs (P := P) hc
    rcases he with he | ⟨he, _⟩ <;> rw [he]
    · exact R.sendPendingJobs (R.installs h hi)
    · exact R.installs h hi
  · obtain ⟨f, he, hk⟩ := World.refreshWork_keepsJobs (P := P) hc
    rw [he]
    exact R.setServer (R.called h _) hk

theorem acceptFrom (haccept : ∀ w : World τ, I w → ∀ mode,
      I (w.acceptSession mode)) (h : I w) (mode : ServiceMode)
    (outcomes : List AcceptOutcome) :
    I (World.acceptFrom mode outcomes w) := by
  induction outcomes generalizing w with
  | nil => exact R.same h rfl rfl rfl rfl (.of_eq rfl)
  | cons o rest ih =>
    cases o with
    | session => exact ih (haccept w h mode)
    | nobody => exact R.same h rfl rfl rfl rfl (.of_eq rfl)
    | failed => exact R.same h rfl rfl rfl rfl (.of_eq rfl)

theorem serverClose (h : I w) : I (w.serverClose T) := by
  have hall : ∀ (cs : List ConnId) (w : World τ), I w →
      I (cs.foldl (fun w c => w.clientRemove c .serverClosing) w) := by
    intro cs
    induction cs with
    | nil => exact fun _ h => h
    | cons c cs ih => exact fun w h => ih _ (R.clientRemove c _ h)
  exact R.setServer (hall _ w h)
    ⟨rfl, .inr ⟨StratumServer.isCleared_clearWork _, rfl⟩⟩

/-- **What the rule lists, every turn keeps.** -/
theorem act (haccept : ∀ w : World τ, I w → ∀ mode, I (w.acceptSession mode))
    (h : I w) (a : ServerAction) : I ((turns P T).act w a) := by
  cases a with
  | service c => exact R.serviceTurn h c
  | accept mode => exact R.acceptFrom haccept h mode _
  | refresh => exact R.refreshWork h
  | sendPending => exact R.sendPendingJobs h
  | tick => exact R.same h rfl rfl rfl rfl (.of_eq rfl)
  | stop => exact R.same h rfl rfl rfl rfl (.of_eq rfl)
  | close => exact R.serverClose h

end SessionsRule

/-! ## A property of every session -/

/-- **Every session has a property**, which may be about the work, too. -/
def Sessions (Q : ActiveWork → ClientSession → Prop) (w : World τ) : Prop :=
  ∀ c s, w.client? c = some s → Q w.server.work s

/-- What a property of a session must be kept by. -/
structure SessionRule (Q : ActiveWork → ClientSession → Prop) : Prop where
  /-- What is stored into the session. -/
  stored : ∀ {work s s'}, Q work s → Stored work s s' → Q work s'
  /-- The work is cleared, and the job with it. -/
  cleared : ∀ {work work' s}, Q work s → work'.IsCleared → Q work' s.clearJob
  /-- A template is taken. -/
  installed : ∀ {work work' s}, Q work s → work'.haveWork = true → Q work' s

namespace Sessions

variable {Q : ActiveWork → ClientSession → Prop} {P : Platform}
  {T : ChainTransport τ} {w w' : World τ} {c : ConnId}

theorem of_server (h : Sessions Q w)
    (hc : w'.server.clients = w.server.clients)
    (hw : w'.server.work = w.server.work) : Sessions Q w' := by
  intro d s hs
  rw [hw]
  refine h d s ?_
  unfold World.client? at hs ⊢
  rwa [hc] at hs

/-- **What is kept of a session is kept of the sessions.** -/
theorem rule (R : SessionRule Q) (n : ℕ) :
    SessionsRule fun w : World τ => n ≤ w.nextConn ∧ Sessions Q w where
  same h hc _ hw hn _ := ⟨hn ▸ h.1, h.2.of_server hc hw⟩
  setClient := by
    rintro w c f ⟨hn, h⟩ hf hq
    refine ⟨hn, fun d s hs => ?_⟩
    rw [World.client?_setClient hf] at hs
    split at hs
    · obtain ⟨s₀, hs₀, rfl⟩ := Option.map_eq_some_iff.mp hs
      exact R.stored (h c s₀ hs₀) (hq s₀ hs₀)
    · exact h d s hs
  clientRemove := by
    rintro w c reason ⟨hn, h⟩
    refine ⟨?_, fun d s hs => ?_⟩
    · unfold World.clientRemove
      split <;> exact hn
    · rw [World.client?_clientRemove] at hs
      split at hs
      · cases hs
      · rw [World.work_clientRemove]
        exact h d s hs
  setServer := by
    rintro w f ⟨hn, h⟩ ⟨_, ⟨hw, hc⟩ | ⟨hw, hc⟩⟩
    · exact ⟨hn, h.of_server hc hw⟩
    · refine ⟨hn, fun d s hs => ?_⟩
      unfold World.client? at hs
      rw [show (w.setServer f).server.clients = _ from hc,
        World.find?_map_socket (f := ClientSession.clearJob) _
          (fun _ => rfl)] at hs
      obtain ⟨s₀, hs₀, rfl⟩ := Option.map_eq_some_iff.mp hs
      exact R.cleared (h d s₀ hs₀) hw
  installs := by
    rintro w w' frame ⟨hn, h⟩ hi
    refine ⟨hi.nextConn ▸ hn, fun d s hs => R.installed (h d s ?_) hi.haveWork⟩
    unfold World.client? at hs ⊢
    rwa [hi.clients] at hs

/-- A session is accepted. -/
theorem acceptSession (h : Sessions Q w) (mode : ServiceMode)
    (hinit : Q w.server.work (.init w.nextConn mode)) :
    Sessions Q (w.acceptSession mode) := by
  intro c s hs
  unfold World.client? at hs
  rw [show (w.acceptSession mode).server.clients
    = .init w.nextConn mode :: w.server.clients from rfl,
    List.find?_cons] at hs
  split at hs
  · exact Option.some.inj hs ▸ hinit
  · exact h c s hs

/-- **What is kept of a session every run keeps**, of the sessions there are
and of those that are new with it. -/
theorem run (R : SessionRule Q) (h : Sessions Q w)
    (hinit : ∀ work c mode, w.nextConn ≤ c → Q work (.init c mode))
    (as : List ServerAction) : Sessions Q ((turns P T).run w as) := by
  refine ((turns P T).run_induction
    (P := fun w' => w.nextConn ≤ w'.nextConn ∧ Sessions Q w')
    (fun w' a h' => (rule R w.nextConn).act (fun w₁ h₁ mode => ?_) h' a)
    ⟨le_rfl, h⟩ as).2
  exact ⟨Nat.le_succ_of_le h₁.1, h₁.2.acceptSession mode (hinit _ _ _ h₁.1)⟩

/-- **It holds of every session that can be**, if it holds of the new ones. -/
theorem of_reachable (R : SessionRule Q)
    (hinit : ∀ work c mode, Q work (.init c mode))
    (h : (turns P T).Reachable w) : Sessions Q w := by
  obtain ⟨w₀, as, h₀, rfl⟩ := h
  refine run R (fun c s hs => ?_) (fun work c mode _ => hinit work c mode) as
  have := World.mem_sockets_iff.mpr ⟨s, hs⟩
  rw [h₀.sockets] at this
  exact absurd this List.not_mem_nil

end Sessions
