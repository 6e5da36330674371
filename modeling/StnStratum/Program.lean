import StnStratum.Publication
import StnStratum.TelemetryThreads
import StnStratum.Holders
import StnStratum.ConfigGrammar
import StnStratum.Rehearsal
import StnStratum.Schedule

/-!
# The program

`main` initialises a server, installs the signal handlers, runs
`stn_stratum_server_run` and then `stn_stratum_server_close`. The first opens
the log, loads the configuration, selects a Chain, opens the listeners and
starts the telemetry worker; if any of that fails it returns at once, and the
second has to clean up what there is. Once everything is there, the loop goes
on until a signal clears `running`.

Here is all of it as one machine on Linux: the main thread, stage by stage,
with what its stages ask of the system; the telemetry worker; a signal, which
may come at any moment; and the calls that open and close descriptors, which
are made one by one. Whoever has such calls to make makes them before it goes
on, but those of one part of the program are made at any time with regard to
those of another.

`stn_stratum_server_init` fills the server with zeros and does not initialise
the transport to Chain, so `socket_fd` is the number 0 at first, which is a
descriptor like any other.

The handlers are for SIGINT and SIGTERM, and `send` to Chain and to the
telemetry clients has no flags, so SIGPIPE kills the program where one of these
meets a broken pipe (`Program.kills`). For what is never to happen the machine
itself is enough, which goes on behind such a step: it has all the runs of the
real program, and more. What is to happen is shown of the mortal one
(`mortalProgram`).

Who will ever come and all they will ever send is given with the world, and is
finite. The two loops of the source that go on as long as somebody comes or
sends, those of `accept_from_listener` and `service_client`, end for that
reason. Every call returns, and `stdout` and the log take what `log_line` writes
to them.
-/

/-- `STN_STRATUM_CHAIN_CONFIG`: "/etc/stn-stratum/config.json". -/
def chainConfigPath : Bytes :=
  [0x2f, 0x65, 0x74, 0x63, 0x2f, 0x73, 0x74, 0x6e, 0x2d, 0x73, 0x74, 0x72, 0x61,
    0x74, 0x75, 0x6d, 0x2f, 0x63, 0x6f, 0x6e, 0x66, 0x69, 0x67, 0x2e, 0x6a, 0x73,
    0x6f, 0x6e]

/-! ## The stages -/

/-- **Where the main thread is.** -/
inductive Stage where
  /-- Behind `stn_stratum_server_init`. -/
  | handlers
  /-- At `log_open`. -/
  | log
  /-- At `stn_chain_config_load`. -/
  | config
  /-- At `chain_transport_select`. -/
  | select
  /-- At `stn_mining_listener_open` in `listeners_open`, for the pool. -/
  | poolListener
  /-- The same for the solo miners. -/
  | soloListener
  /-- In `stn_telemetry_service_open`. -/
  | telemetryListener
  /-- At its `pthread_create`. -/
  | telemetryWorker
  /-- At the condition of the loop. -/
  | atLoop
  /-- At `accept_from_listener` for the pool. -/
  | acceptPool
  /-- The same for the solo miners. -/
  | acceptSolo
  /-- In `service_clients`, with these sessions to serve. -/
  | serving (todo : List ConnId)
  /-- At `telemetry_tick`. -/
  | publishing
  /-- In its `snapshot_publish`. -/
  | storing
  /-- At `refresh_work`, if it is time for it. -/
  | polling
  /-- At `send_pending_jobs`. -/
  | sending
  /-- At the end of a turn of the loop. -/
  | sleeping
  /-- In `stn_stratum_server_close`, at its sessions. -/
  | sessions
  /-- In `stn_telemetry_service_close`. -/
  | stopWorker
  /-- At its `pthread_join`. -/
  | joining
  /-- Behind its clients. -/
  | closeTelemetry
  /-- At `listeners_close`. -/
  | closeListeners
  /-- At `stn_rpc_linux_close`. -/
  | closeChain
  /-- At `log_close`. -/
  | closeLog
  /-- Behind `stn_stratum_server_close`. -/
  | leaving
  /-- `main` has returned. -/
  | exited
  deriving DecidableEq

/-- **What a step of the main thread meets**, as far as it makes use of it. -/
structure MainStep where
  /-- Whether what it asks for succeeds. -/
  succeeds : Bool
  /-- Whether it has a descriptor by then if it fails. -/
  opened : Bool
  /-- The files that can be read. -/
  files : Bytes → Option Bytes
  /-- The heap, for what the step allocates and does not keep, and for what is
  in its arrays. -/
  heap : Heap
  /-- The time. -/
  now : ℤ
  /-- Whether a `send` to Chain that fails meets EPIPE. -/
  brokenPipe : Bool

/-- **The program.** -/
structure Program where
  /-- The main thread. -/
  stage : Stage
  /-- What `stn_stratum_server_run` has returned. -/
  ok : Bool
  /-- The server and its surroundings. -/
  world : World WiredRpc
  /-- `started_at`. -/
  startedAt : ℤ
  /-- Whether there is a `log_file`. -/
  logOpen : Bool
  /-- Whether the listeners have a socket. -/
  listeners : ServiceMode → Bool
  /-- Whether `listen_socket` is one. -/
  telemetryListening : Bool
  /-- `worker_started`. -/
  workerStarted : Bool
  /-- The telemetry service: the worker, and the main thread as far as it goes
  there. -/
  threads : Telemetry.Threads
  /-- What `telemetry_tick` has been called with. -/
  reports : List (StratumServer WiredRpc × Heap × ℤ)
  /-- The descriptors, and the calls to make. -/
  process : Process ProgramPart Holder

/-- **What can happen next.** -/
inductive ProgramAction where
  /-- A step of the main thread. -/
  | main (step : MainStep)
  /-- A step of the telemetry worker. -/
  | worker (step : Telemetry.WorkerStep)
  /-- A call that opens or closes is made. -/
  | call (part : ProgramPart)
  /-- SIGINT or SIGTERM. -/
  | signal

namespace Program

/-- There are calls to make. -/
def issue (s : Program) (k : ProgramPart) (cs : List (DescriptorCall Holder)) :
    Program :=
  { s with process := s.process.issue k cs }

/-- **The world changes**, and there are the calls to make that it tells of. -/
def toWorld (s : Program) (w : World WiredRpc) : Program :=
  { s with
    world := w
    process := (s.process.issue .chain (w.server.chainTransport.calls.drop
        s.world.server.chainTransport.calls.length)).issue .sessions
      (sessionCalls (w.trace.drop s.world.trace.length)) }

/-- The main thread goes on somewhere else. -/
def goTo (s : Program) (stage : Stage) : Program := { s with stage := stage }

/-- `stn_stratum_server_run` returns zero. -/
def fails (s : Program) : Program := s.goTo .sessions

/-! ## Starting -/

/-- The calls of `read_file`, which closes what it has opened. -/
def configCalls (e : MainStep) : List (DescriptorCall Holder) :=
  if (e.files chainConfigPath).isSome = true ∨ e.opened = true then
    [.opens .configFile, .closes .configFile]
  else []

/-- The calls that open a listener: if anything behind `socket` fails, the
socket is closed again. -/
def listenCalls (o : Holder) (e : MainStep) : List (DescriptorCall Holder) :=
  if e.succeeds = true then [.opens o]
  else if e.opened = true then [.opens o, .closes o]
  else []

/-- **`stn_mining_listener_close`.** -/
def closeListener (s : Program) (mode : ServiceMode) : Program :=
  if s.listeners mode = true then
    { s.issue .main [.closes (.listener mode)] with
      listeners := Function.update s.listeners mode false }
  else s

/-- **`listeners_close`.** -/
def closeListeners (s : Program) : Program :=
  (s.closeListener .solo).closeListener .pool

/-- The listener of the telemetry service is closed, if there is one. -/
def closeTelemetryListener (s : Program) : Program :=
  if s.telemetryListening = true then
    { s.issue .main [.closes .telemetryListener] with
      telemetryListening := false }
  else s

/-- **`stn_mining_listener_open`**, for either of the two. -/
def openListener (s : Program) (mode : ServiceMode) (e : MainStep) :
    Program :=
  { s.issue .main (listenCalls (.listener mode) e) with
    listeners := Function.update s.listeners mode e.succeeds }

/-! ## The loop -/

/-- **`accept_from_listener`.** A connection whose session cannot be made is
closed again. -/
def accept (s : Program) (mode : ServiceMode) (e : MainStep) : Program :=
  let s' := s.toWorld (s.world.acceptFromListener mode)
  let o := Holder.session s'.world.nextConn
  if (s.world.backlog mode).find? (· ≠ .session) = some .failed
      ∧ e.opened = true then
    s'.issue .sessions [.opens o, .closes o]
  else s'

/-- **`telemetry_tick`**, up to its stores. -/
def publish (s : Program) (e : MainStep) : Program :=
  { s with
    threads := s.threads.act
      (.publish (s.world.server.telemetryStatus e.heap s.startedAt e.now))
    reports := s.reports ++ [(s.world.server, e.heap, e.now)] }

/-! ## The main thread -/

/-- **A step of the main thread.** -/
def main (s : Program) (e : MainStep) : Program :=
  match s.stage with
  | .handlers => if e.succeeds = true then s.goTo .log else s.fails
  | .log =>
    if e.succeeds = true then
      { s.issue .main [.opens .logFile] with logOpen := true }.goTo .config
    else s.fails
  | .config =>
    let s' := s.issue .main (configCalls e)
    match ChainConfig.load e.files e.heap (some s.world.server.chainServers)
        (some chainConfigPath) with
    | (true, some (entry :: servers)) =>
      { s' with world := s.world.setServer fun v =>
          { v with chainServers := entry :: servers } }.goTo .select
    | _ => s'.fails
  | .select =>
    let s' := s.toWorld (s.world.setServer fun v =>
      { v with activeChainServer := 0 }.chainTransportSelect wired 0)
    if s'.world.server.activeChain = none then s'.fails
    else s'.goTo .poolListener
  | .poolListener =>
    let s' := s.openListener .pool e
    if e.succeeds = true then s'.goTo .soloListener else s'.fails
  | .soloListener =>
    let s' := s.openListener .solo e
    if e.succeeds = true then s'.goTo .telemetryListener
    else (s'.closeListener .pool).fails
  | .telemetryListener =>
    let s' := { s.issue .main (listenCalls .telemetryListener e) with
      telemetryListening := e.succeeds }
    if e.succeeds = true then s'.goTo .telemetryWorker
    else s'.closeListeners.fails
  | .telemetryWorker =>
    if e.succeeds = true then { s with workerStarted := true }.goTo .atLoop
    else s.closeTelemetryListener.closeListeners.fails
  | .atLoop =>
    if s.world.server.running = true then s.goTo .acceptPool
    else { s with ok := true }.goTo .sessions
  | .acceptPool => (s.accept .pool e).goTo .acceptSolo
  | .acceptSolo =>
    let s' := s.accept .solo e
    s'.goTo (.serving s'.world.sockets)
  | .serving [] => s.goTo .publishing
  | .serving (c :: todo) =>
    let r := s.world.serviceTurn .linux wired c
    (s.toWorld r.1).goTo (.serving (if r.2 = true then c :: todo else todo))
  | .publishing => (s.publish e).goTo .storing
  | .storing =>
    match s.threads.memory.writer with
    | .idle => s.goTo .polling
    | _ => { s with threads := s.threads.act .store }
  | .polling =>
    (s.toWorld (if s.world.server.loopCount % 4 = 0 then
      s.world.refreshWork .linux wired else s.world)).goTo .sending
  | .sending => (s.toWorld (s.world.sendPendingJobs .linux)).goTo .sleeping
  | .sleeping =>
    (s.toWorld (s.world.setServer fun v =>
      { v with loopCount := v.loopCount + 1 })).goTo .atLoop
  | .sessions => (s.toWorld s.world.removeAll).goTo .stopWorker
  | .stopWorker =>
    if s.workerStarted = true then
      { s with threads := s.threads.act .close }.goTo .joining
    else s.goTo .closeTelemetry
  | .joining =>
    if s.threads.worker = .ended then
      { s.issue .telemetry s.threads.service.closeCalls with
        threads := s.threads.act .join
        workerStarted := false }.goTo .closeTelemetry
    else s
  | .closeTelemetry => s.closeTelemetryListener.goTo .closeListeners
  | .closeListeners => s.closeListeners.goTo .closeChain
  | .closeChain => (s.toWorld (s.world.serverClose wired)).goTo .closeLog
  | .closeLog =>
    (if s.logOpen = true then
      { s.issue .main [.closes .logFile] with logOpen := false }
    else s).goTo .leaving
  | .leaving => s.goTo .exited
  | .exited => s

/-- **Whether the main thread can go on**: it has made its calls, and where it
waits for the worker or removes the clients, the worker's are made as well. -/
def Ready (s : Program) : Prop :=
  s.process.pending .main = [] ∧ s.process.pending .chain = []
    ∧ s.process.pending .sessions = []
    ∧ (s.stage = .joining ∨ s.stage = .closeTelemetry →
      s.process.pending .telemetry = [])

instance (s : Program) : Decidable s.Ready :=
  inferInstanceAs (Decidable (_ ∧ _ ∧ _ ∧ (_ → _)))

/-! ## The worker -/

/-- The calls behind a step of the worker, if it makes `network_tick` go on
behind `snapshot_read`. -/
def workCalls (s : Program) (step : Telemetry.WorkerStep) :
    List (DescriptorCall Holder) :=
  match s.threads.worker, s.threads.memory.reader with
  | .reading, .returned snapshot =>
    s.threads.service.tickCalls
      ⟨step.heap, snapshot, step.now, step.attempts⟩
  | _, _ => []

/-- **A step of the worker.** -/
def work (s : Program) (step : Telemetry.WorkerStep) : Program :=
  { s.issue .telemetry (s.workCalls step) with
    threads := s.threads.act (.work step) }

/-- **A step of anyone.** `stn_stratum_server_stop` is called from the signal
handler, once there is one. -/
def act (s : Program) : ProgramAction → Program
  | .main e => if s.Ready then s.main e else s
  | .worker step =>
    if s.workerStarted = true ∧ s.process.pending .telemetry = [] then
      s.work step
    else s
  | .call k => { s with process := s.process.call k }
  | .signal =>
    if s.stage = .handlers then s
    else { s with world := s.world.setServer fun v =>
      { v with running := false } }

/-- The main thread makes its step where it is ready. -/
theorem act_main {s : Program} (h : s.Ready) (e : MainStep) :
    s.act (.main e) = s.main e := if_pos h

/-- **A configuration is loaded** if the file denotes servers. -/
theorem act_config {s : Program} {e : MainStep} {contents : Bytes}
    {entry : ChainConfigEntry} {servers : List ChainConfigEntry}
    (hready : s.Ready) (hst : s.stage = .config)
    (hfile : e.files chainConfigPath = some contents)
    (hsize : contents.length < ChainConfig.sizeMax) (hg : e.heap.Generous)
    (hd : ChainConfig.Denotes (ChainConfig.cString contents)
      (entry :: servers)) :
    s.act (.main e)
      = { s.issue .main [.opens .configFile, .closes .configFile] with
          world := s.world.setServer fun v =>
            { v with chainServers := entry :: servers } }.goTo .select := by
  have hcalls : configCalls e = [.opens .configFile, .closes .configFile] :=
    if_pos (.inl (by rw [hfile]; rfl))
  rw [act_main hready]
  simp only [Program.main, hst, hcalls]
  rw [ChainConfig.load_of_denotes hfile hsize hg hd]

/-! ## SIGPIPE -/

/-- Whether a call of `send` to Chain has failed: there is an exchange more, and
an attempt at it that had a connection and did not write all of the request. -/
def sendFailed (w w' : World WiredRpc) : Bool :=
  let log := w'.server.chainTransport.rpc.log
  (log.take (log.length - w.server.chainTransport.rpc.log.length)).any fun x =>
    x.attempts.any fun a =>
      a.conn.isSome && decide (a.written.length < x.request.length)

/-- **Whether a step kills the program**: a `send` of the main thread to Chain
meets a broken pipe, or one of the worker to a telemetry client. Those to the
miners have `MSG_NOSIGNAL`. -/
def kills (s : Program) : ProgramAction → Bool
  | .main e =>
    decide s.Ready && e.brokenPipe && sendFailed s.world (s.main e).world
  | .worker step =>
    s.workerStarted && decide (s.process.pending .telemetry = [])
      && s.threads.kills (.work step)
  | .call _ => false
  | .signal => false

end Program

/-! ## The beginning -/

/-- A server filled with zeros, up to `running`. -/
def zeroedServer {τ : Type} (transport : τ) : StratumServer τ where
  chainServers := []
  activeChainServer := 0
  chainTransport := transport
  chainRpc := ⟨0⟩
  work := ⟨Buf.zero _, Buf.zero _, Buf.zero _, 0, false, Nat.zero_le _⟩
  clients := []
  clientCount := 0
  running := true
  chainAvailable := false
  loopCount := 0

/-- **The program behind `stn_stratum_server_init`**, started with some
descriptors. -/
structure Program.Start (inherited : List ℕ) (s : Program) : Prop where
  /-- The main thread is at its beginning. -/
  stage : s.stage = .handlers ∧ s.ok = false
  /-- The server is zeroed, and `socket_fd` with it: it is not that of no
  connection. -/
  server : ∃ transport : WiredRpc, transport.rpc.socket.isSome = true
    ∧ transport.calls = [] ∧ s.world.server = zeroedServer transport
  /-- No connection has been accepted. -/
  nextConn : s.world.nextConn = 0
  /-- Nothing was received or written. -/
  peers : ∀ c, (s.world.peers c).received = [] ∧ (s.world.peers c).asks = []
    ∧ (s.world.peers c).written = []
  /-- Nothing was done. -/
  trace : s.world.trace = []
  /-- Nothing is open. -/
  closed : s.logOpen = false ∧ (∀ mode, s.listeners mode = false)
    ∧ s.telemetryListening = false ∧ s.workerStarted = false
  /-- The telemetry service is at its beginning. -/
  threads : Telemetry.threads.Start s.threads
  /-- Nothing was published. -/
  reports : s.reports = []
  /-- What is open has been open before, and `socket_fd` is 0. -/
  table : s.process.table = ⟨inherited, [(.chain, 0)], 0⟩
  /-- There are no calls to make. -/
  pending : ∀ k, s.process.pending k = []

/-- **The program as a machine.** -/
def program (inherited : List ℕ) : Machine Program ProgramAction where
  Start := Program.Start inherited
  act := Program.act

/-- **The program in a process that SIGPIPE kills.** -/
def mortalProgram (inherited : List ℕ) :
    Machine (Option Program) ProgramAction :=
  (program inherited).mortal Program.kills

/-- The program at its beginning, where nobody ever comes. -/
def programStart (inherited : List ℕ) : Program where
  stage := .handlers
  ok := false
  world :=
    { server := zeroedServer ⟨⟨none, 0, some ⟨0, [], []⟩, [], 0, []⟩, []⟩
      peers := fun _ => ⟨[], [], [], [], []⟩
      heap := ⟨[], fun _ => 0⟩
      nextConn := 0
      backlog := fun _ => []
      trace := [] }
  startedAt := 0
  logOpen := false
  listeners := fun _ => false
  telemetryListening := false
  workerStarted := false
  threads := Telemetry.threadsStart
  reports := []
  process := ⟨⟨inherited, [(.chain, 0)], 0⟩, fun _ => []⟩

/-- It may start there. -/
theorem start_programStart (inherited : List ℕ) :
    (program inherited).Start (programStart inherited) :=
  ⟨⟨rfl, rfl⟩, ⟨_, rfl, rfl, rfl⟩, rfl, fun _ => ⟨rfl, rfl, rfl⟩, rfl,
    ⟨rfl, fun _ => rfl, rfl, rfl⟩, Telemetry.start_threadsStart, rfl, rfl,
    fun _ => rfl⟩

/-- A run in which the configuration cannot be read. -/
def unconfigured : List ProgramAction :=
  let step (succeeds : Bool) : ProgramAction :=
    .main ⟨succeeds, false, fun _ => none, ⟨[], fun _ => 0⟩, 0, false⟩
  [step true, step true, .call .main] ++ List.replicate 6 (step false)
    ++ [.call .chain, step true, .call .main, step true]

/-! ## A visit -/

/-- The program at its beginning. A miner is going to come and register. -/
def programVisited : Program :=
  let s := programStart [0, 1, 2]
  { s with world := { s.world with
      peers := fun c => ⟨if c = 0 then unread addressFrame [] else [], [], [], [], []⟩
      backlog := fun mode => if mode = .pool then [.session] else [] } }

theorem start_programVisited : (program [0, 1, 2]).Start programVisited :=
  ⟨⟨rfl, rfl⟩, ⟨_, rfl, rfl, rfl⟩, rfl, fun _ => ⟨rfl, rfl, rfl⟩, rfl,
    ⟨rfl, fun _ => rfl, rfl, rfl⟩, Telemetry.start_threadsStart, rfl, rfl,
    fun _ => rfl⟩

/-- A step of the main thread that gets what it asks for. There are two Chains,
and neither can be reached. -/
def luckyStep : MainStep :=
  ⟨true, false, fun _ => some (ChainConfig.twoServers.flatten ++ [0x0a]),
    ⟨[], fun _ => 0⟩, 5, false⟩

/-- The main thread gets to the configuration, and reads it. -/
def visitConfig : List ProgramAction :=
  [.main luckyStep, .main luckyStep, .call .main, .main luckyStep]

/-- The rest of the startup, and a turn of the loop: the miner comes and
registers, and the server is reported. -/
def visitMiner : List ProgramAction :=
  [.call .main, .call .main, .main luckyStep, .call .chain, .main luckyStep,
      .call .main, .main luckyStep, .call .main, .main luckyStep, .call .main]
    ++ List.replicate 3 (.main luckyStep) ++ .call .sessions
      :: List.replicate 19 (.main luckyStep)
    ++ [.call .chain, .main luckyStep, .main luckyStep]

/-- Somebody asks the telemetry service, which answers, and begins to read once
more. The main thread is at the miner again by then. -/
def visitTelemetry : List ProgramAction :=
  List.replicate 15 (.worker Telemetry.visitedStep) ++ .call .telemetry
    :: List.replicate 3 (.main luckyStep)
    ++ List.replicate 5 (.worker Telemetry.quietStep)

/-- A signal comes, and the program ends. -/
def visitEnd : List ProgramAction :=
  .signal :: List.replicate 21 (.main luckyStep)
    ++ [.call .sessions, .main luckyStep]
    ++ List.replicate 27 (.worker Telemetry.quietStep)
    ++ [.main luckyStep, .call .telemetry, .main luckyStep, .call .main,
      .main luckyStep, .call .main, .call .main, .main luckyStep, .call .chain,
      .main luckyStep, .call .main, .main luckyStep]

/-- **A run** in which a miner comes, somebody asks the telemetry service, and a
signal ends the program. -/
def visit : List ProgramAction :=
  visitConfig ++ (visitMiner ++ visitTelemetry ++ visitEnd)

/-- The program behind the configuration. -/
def programConfigured : Program :=
  let s := (program [0, 1, 2]).run programVisited (visitConfig.take 3)
  { s.issue .main [.opens .configFile, .closes .configFile] with
    world := s.world.setServer fun v => { v with
      chainServers := [⟨[0x61], 7⟩, ⟨[0x62, 0x2e, 0x63], 4000⟩] } }.goTo .select

theorem run_visitConfig : (program [0, 1, 2]).run programVisited visitConfig
    = programConfigured :=
  Program.act_config (s := (program [0, 1, 2]).run programVisited
      (visitConfig.take 3)) (e := luckyStep) (by decide +kernel) rfl rfl
    (by decide) List.not_mem_nil ChainConfig.denotes_twoServers

/-- So the rest of the visit can be computed. -/
theorem run_visit (as : List ProgramAction) :
    (program [0, 1, 2]).run programVisited (visitConfig ++ as)
      = (program [0, 1, 2]).run programConfigured as := by
  rw [Machine.run_append, run_visitConfig]
