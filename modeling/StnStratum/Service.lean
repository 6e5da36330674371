import StnStratum.Submission
import StnStratum.Machine

/-!
# The service loop

A turn of the server's loop accepts whoever waits, serves every session, asks
Chain for a template every fourth time, and sends the active job to whoever
does not have it. `service_client` is the heart of it: it receives a frame,
hands it to the function for its type, and starts over, until there is
nothing to read or the session is gone. A frame that has arrived in part
stays in the session for the next time.

The two platforms have a `service_client` of their own. The Linux one receives
a header, checks it, receives the rest and hands the frame over. The Windows
one decides at the top of its loop how much to wait for, eight bytes or the
frame, and hands over whatever it has waited for.

The last part puts the pieces into a `Machine`. Its actions are the pieces of
a turn, in any order, so that what holds in every reachable state holds
between any two pieces of the loop too (`servicePass_eq_run`).
-/

variable {τ : Type}

/-! ## ADDRESS -/

/-- The characters `0` to `9` and `a` to `f`. -/
def hexDigit (x : UInt8) : Bool :=
  (0x30 ≤ x && x ≤ 0x39) || (0x61 ≤ x && x ≤ 0x66)

/-- The bytes of `stn0_`. -/
def addressPrefix : Bytes := [0x73, 0x74, 0x6e, 0x30, 0x5f]

/-- **`address_valid`.** -/
def addressValid (p : Bytes) : Bool :=
  Miner.headerValid p && p.getD 5 0 == Miner.address
    && slice p 8 5 == addressPrefix && (slice p 13 64).all hexDigit

namespace World

/-- The session with the address of its frame. -/
def registered (s : ClientSession) : ClientSession :=
  { s with
    address := (s.address.write 0 (slice s.rx.bytes 8 69)).write 69 [0]
    addressRegistered := true }

/-- **`process_address`.** -/
def processAddress (P : Platform) (w : World τ) (c : ConnId) : World τ :=
  match w.client? c with
  | none => w
  | some client =>
    if client.addressRegistered = true then
      w.clientRemove c .duplicateAddress
    else if addressValid client.rx.bytes = false then
      w.clientRemove c .invalidAddress
    else
      let w := w.setClient c registered
      if w.server.work.haveWork = true then w.clientSendJob P c else w

end World

/-! ## HASH_PROGRESS -/

/-- **The rate** of so many hashes in so many milliseconds, per second, as
`process_hash_progress` computes it in 64 bits. -/
def hashRate (hashes elapsedMs : UInt64) : UInt64 :=
  let max : UInt64 := 0xffffffffffffffff
  let quotient := hashes / elapsedMs
  let remainder := hashes % elapsedMs
  if max / 1000 < quotient then max
  else
    let rate := quotient * 1000
    let extra :=
      if remainder ≤ max / 1000 then remainder * 1000 / elapsedMs
      else
        let scaledDivisor := elapsedMs / 1000 + 1
        let extra := remainder / scaledDivisor
        if 999 < extra then 999 else extra
    if max - rate < extra then max else rate + extra

namespace World

/-- **`process_hash_progress`.** -/
def processHashProgress (w : World τ) (c : ConnId) : World τ :=
  match w.client? c with
  | none => w
  | some client =>
    let p := client.rx.bytes
    if client.addressRegistered = false then
      w.clientRemove c .addressRequired
    else if (Miner.headerValid p && p.getD 5 0 == Miner.hashProgress) = false
    then w
    else if w.server.work.haveWork = false ∨ client.hasJob = false
        ∨ slice p 8 32 ≠ w.server.work.jobId.bytes
        ∨ slice p 8 32 ≠ client.sentJobId.bytes then
      w.setClient c fun s => { s with hashrate := 0 }
    else
      let hashes := UInt64.ofNat (readBE (slice p 40 8))
      let elapsedMs := UInt64.ofNat (readBE (slice p 48 8))
      if elapsedMs = 0 then w.setClient c fun s => { s with hashrate := 0 }
      else
        w.setClient c fun s => { s with hashrate := hashRate hashes elapsedMs }

/-! ## Receiving -/

/-- The frame of a session is handed to the function for its type. -/
def dispatch (P : Platform) (T : ChainTransport τ) (w : World τ) (c : ConnId)
    (client : ClientSession) : World τ :=
  let w := w.emit (.frame c client.pending)
  if client.rx.bytes.getD 5 0 = Miner.address then w.processAddress P c
  else if client.rx.bytes.getD 5 0 = Miner.submit then
    w.processSubmission P T c
  else w.processHashProgress c

/-- What the receiving loop of `service_client` comes to, up to `frameSize`
bytes in `rx`. -/
def receiving (P : Platform) (w : World τ) (c : ConnId)
    (client : ClientSession) (frameSize : ℕ) : RecvResult :=
  recvLoop P.retry (w.peers c).inbox client.rxUsed (frameSize - client.rxUsed)

/-- The world once the loop has received. -/
def receive (w : World τ) (c : ConnId) (r : RecvResult) : World τ :=
  (w.setClient c (·.store r.got)).setPeer c fun peer => { peer with
    inbox := r.rest
    received := peer.received ++ r.got
    asks := peer.asks ++ r.asks }

/-- What `service_client` does where the loop is not filled: nothing if there
is nothing to read, and otherwise the session ends. -/
def stopped (w : World τ) (c : ConnId) (status : RecvStatus) : World τ :=
  match status with
  | .closed => w.clientRemove c .peerClosed
  | .failed => w.clientRemove c .receiveFailed
  | _ => w

/-- The end of a turn of `service_client`: if the session is still there its
buffer is empty and the loop goes on. -/
def finishTurn (w : World τ) (c : ConnId) : World τ × Bool :=
  if (w.client? c).isSome then
    (w.setClient c fun s => { s with rxUsed := 0 }, true)
  else (w, false)

/-- **One turn of the Linux `service_client`**, and whether another
follows. -/
def serviceTurnLinux (T : ChainTransport τ) (w : World τ) (c : ConnId) :
    World τ × Bool :=
  match w.client? c with
  | none => (w, false)
  | some client =>
    let r := w.receiving .linux c client 8
    let w := w.receive c r
    let client := client.store r.got
    if r.status ≠ .filled then (w.stopped c r.status, false)
    else if Miner.headerValid client.rx.bytes = false then
      (w.clientRemove c .invalidFrameHeader, false)
    else
      match Miner.frameSizeOf (client.rx.bytes.getD 5 0) with
      | none => (w.clientRemove c .unsupportedFrameType, false)
      | some frameSize =>
        let r := w.receiving .linux c client frameSize
        let w := w.receive c r
        let client := client.store r.got
        if r.status ≠ .filled then (w.stopped c r.status, false)
        else (w.dispatch .linux T c client).finishTurn c

/-- How many bytes the Windows `service_client` waits for: a header, or the
frame that the header it has announces. -/
def windowsFrameSize (client : ClientSession) : Except Removal ℕ :=
  if client.rxUsed < 8 then .ok 8
  else if Miner.headerValid client.rx.bytes = false then
    .error .invalidFrameHeader
  else
    match Miner.frameSizeOf (client.rx.bytes.getD 5 0) with
    | none => .error .unsupportedFrameType
    | some frameSize => .ok frameSize

/-- **One turn of the Windows `service_client`**, and whether another
follows. -/
def serviceTurnWindows (T : ChainTransport τ) (w : World τ) (c : ConnId) :
    World τ × Bool :=
  match w.client? c with
  | none => (w, false)
  | some client =>
    match windowsFrameSize client with
    | .error reason => (w.clientRemove c reason, false)
    | .ok frameSize =>
      let r := w.receiving .windows c client frameSize
      let w := w.receive c r
      let client := client.store r.got
      if r.status ≠ .filled then (w.stopped c r.status, false)
      else (w.dispatch .windows T c client).finishTurn c

/-- One turn of `service_client`. -/
def serviceTurn (P : Platform) (T : ChainTransport τ) (w : World τ)
    (c : ConnId) : World τ × Bool :=
  match P with
  | .linux => w.serviceTurnLinux T c
  | .windows => w.serviceTurnWindows T c

/-- The loop of `service_client` with a bound on the turns. -/
def serviceLoop (P : Platform) (T : ChainTransport τ) :
    ℕ → World τ → ConnId → World τ
  | 0, w, _ => w
  | fuel + 1, w, c =>
    if (w.serviceTurn P T c).2 = true then
      serviceLoop P T fuel (w.serviceTurn P T c).1 c
    else (w.serviceTurn P T c).1

/-- A bound on the turns: every turn but the first that is followed by
another has received a byte. -/
def serviceFuel (w : World τ) (c : ConnId) : ℕ :=
  (allData (w.peers c).inbox).length + 2

/-- **`service_client`.** -/
def serviceClient (P : Platform) (T : ChainTransport τ) (w : World τ)
    (c : ConnId) : World τ :=
  serviceLoop P T (w.serviceFuel c) w c

/-- **`service_clients`**: the sessions in their order. -/
def serviceClients (P : Platform) (T : ChainTransport τ) (w : World τ) :
    World τ :=
  w.sockets.foldl (fun w c => w.serviceClient P T c) w

/-! ## Jobs and templates -/

/-- The body of the loop of `send_pending_jobs`. -/
def sendPendingJob (P : Platform) (w : World τ) (c : ConnId) : World τ :=
  match w.client? c with
  | none => w
  | some client =>
    if w.server.work.haveWork = true ∧ client.addressRegistered = true
        ∧ (client.hasJob = false ∨ client.sentJobId ≠ w.server.work.jobId)
    then w.clientSendJob P c
    else w

/-- **`send_pending_jobs`.** -/
def sendPendingJobs (P : Platform) (w : World τ) : World τ :=
  w.sockets.foldl (fun w c => w.sendPendingJob P c) w

/-- The work with a template that has just been received installed. -/
def installed (work : ActiveWork) (written : ℕ)
    (h : written ≤ Rpc.maxPayload) : ActiveWork :=
  { work with
    base := work.base.write 0 (slice work.template.bytes 0 32)
    jobId := work.jobId.write 0 (slice work.template.bytes 32 32)
    templateLength := written
    haveWork := true
    fits := h }

/-- Whether a template that has just been received is for other work than the
active one. -/
def changed (work : ActiveWork) : Bool :=
  !work.haveWork || work.base.bytes != slice work.template.bytes 0 32
    || work.jobId.bytes != slice work.template.bytes 32 32

/-- **What `refresh_work` makes of a poll** that ended in `code` and stored
`written` bytes in the active template. -/
def afterPoll (P : Platform) (T : ChainTransport τ) (w : World τ)
    (code : RpcCode) (written : ℕ) (h : written ≤ Rpc.maxPayload) : World τ :=
  match code with
  | .ok =>
    if written < 68 then
      w.setServer fun s => { s.clearWork with chainAvailable := false }
    else if w.server.work.blockLength ≠ written - 68 then
      w.setServer fun s => { s.clearWork with chainAvailable := false }
    else
      let change := changed w.server.work
      let w := w.setServer fun s => { s with chainAvailable := true }
      if change = true then
        (w.setServer fun s =>
          { s with work := installed s.work written h }).sendPendingJobs P
      else
        w.setServer fun s => { s with work := { s.work with
          templateLength := written
          fits := h } }
  | .unavailable => w.setServer fun s => { s with chainAvailable := true }
  | .transport =>
    w.setServer fun s =>
      { s.clearWork with chainAvailable := false }.chainTransportNext T
  | _ => w.setServer fun s => { s.clearWork with chainAvailable := true }

/-- The call `refresh_work` makes. -/
def poll (T : ChainTransport τ) (w : World τ) : Rpc.Call τ Rpc.maxPayload :=
  Rpc.callMiningTemplate T w.server.chainTransport w.server.chainRpc w.heap
    w.server.work.template

/-- The world once the call has been made: its payload is in the active
template itself. -/
def polled (w : World τ) (r : Rpc.Call τ Rpc.maxPayload) : World τ :=
  (w.called r).setServer fun s => { s with work := { s.work with
    template := r.payload.getD s.work.template } }

/-- **`refresh_work`**: the template goes straight into the active one, and
the code decides what becomes of the work. -/
def refreshWork (P : Platform) (T : ChainTransport τ) (w : World τ) :
    World τ :=
  let r := w.poll T
  (w.polled r).afterPoll P T r.code r.written r.fits

/-! ## Accepting -/

/-- A session for a new connection. -/
def acceptSession (w : World τ) (mode : ServiceMode) : World τ :=
  let w := { w with
    server := { w.server with
      clients := .init w.nextConn mode :: w.server.clients
      clientCount := w.server.clientCount + 1 }
    nextConn := w.nextConn + 1 }
  w.emit (.accepted (w.nextConn - 1))

/-- `accept_from_listener`, along what the listener will do. -/
def acceptFrom (mode : ServiceMode) : List AcceptOutcome → World τ → World τ
  | [], w => { w with backlog := Function.update w.backlog mode [] }
  | .session :: rest, w => acceptFrom mode rest (w.acceptSession mode)
  | .nobody :: rest, w =>
    { w with backlog := Function.update w.backlog mode rest }
  | .failed :: rest, w =>
    { w with backlog := Function.update w.backlog mode rest }

/-- **`accept_from_listener`.** -/
def acceptFromListener (w : World τ) (mode : ServiceMode) : World τ :=
  acceptFrom mode (w.backlog mode) w

/-! ## The loop -/

/-- **A turn of the loop of `stn_stratum_server_run`**, the tick of the
telemetry service and the sleep aside. -/
def servicePass (P : Platform) (T : ChainTransport τ) (w : World τ) :
    World τ :=
  let w := (w.acceptFromListener .pool).acceptFromListener .solo
  let w := w.serviceClients P T
  let w := if w.server.loopCount % 4 = 0 then w.refreshWork P T else w
  let w := w.sendPendingJobs P
  w.setServer fun s => { s with loopCount := s.loopCount + 1 }

/-- `client_remove` of the sessions at the head of `stn_stratum_server_close`
until there is none. -/
def removeAll (w : World τ) : World τ :=
  w.sockets.foldl (fun w c => w.clientRemove c .serverClosing) w

/-- **`stn_stratum_server_close`.** -/
def serverClose (T : ChainTransport τ) (w : World τ) : World τ :=
  w.removeAll.setServer fun s =>
    { { s with chainTransport := T.close s.chainTransport }.clearWork with
      chainAvailable := false
      chainServers := [] }

end World

/-- **What the server can do next.** -/
inductive ServerAction where
  /-- `accept_from_listener`. -/
  | accept (mode : ServiceMode)
  /-- `service_client`. -/
  | service (c : ConnId)
  /-- `refresh_work`. -/
  | refresh
  /-- `send_pending_jobs`. -/
  | sendPending
  /-- The end of a turn of the loop. -/
  | tick
  /-- `stn_stratum_server_stop`. -/
  | stop
  /-- `stn_stratum_server_close`. -/
  | close
  deriving DecidableEq

/-- **The state `stn_stratum_server_run` enters its loop in**: the first
server of the configuration `chain` is selected on a cleared server. What the
surroundings will do is not restricted, what they have done is nothing. -/
structure Startup (T : ChainTransport τ) (w : World τ) : Prop where
  /-- The server. -/
  server : ∃ entry chain transport,
    w.server = StratumServer.chainTransportSelect T
      { chainServers := entry :: chain
        activeChainServer := 0
        chainTransport := transport
        chainRpc := ⟨0⟩
        work := ⟨Buf.zero _, Buf.zero _, Buf.zero _, 0, false, Nat.zero_le _⟩
        clients := []
        clientCount := 0
        running := true
        chainAvailable := false
        loopCount := 0 } 0
  /-- No connection has been accepted. -/
  nextConn : w.nextConn = 0
  /-- Nothing was received or written. -/
  peers : ∀ c, (w.peers c).received = [] ∧ (w.peers c).asks = []
    ∧ (w.peers c).written = []
  /-- Nothing was done. -/
  trace : w.trace = []

/-- **The server as a machine.** -/
def stratum (P : Platform) (T : ChainTransport τ) :
    Machine (World τ) ServerAction where
  Start := Startup T
  act w a :=
    match a with
    | .accept mode => w.acceptFromListener mode
    | .service c => w.serviceClient P T c
    | .refresh => w.refreshWork P T
    | .sendPending => w.sendPendingJobs P
    | .tick => w.setServer fun s => { s with loopCount := s.loopCount + 1 }
    | .stop => w.setServer fun s => { s with running := false }
    | .close => w.serverClose T

/-- The sessions are served one by one. -/
theorem foldl_service_eq_run (P : Platform) (T : ChainTransport τ)
    (cs : List ConnId) (w : World τ) :
    cs.foldl (fun w c => w.serviceClient P T c) w
      = (stratum P T).run w (cs.map ServerAction.service) := by
  induction cs generalizing w with
  | nil => rfl
  | cons c cs ih => exact ih _

/-- **A turn of the loop is a run of the machine.** -/
theorem servicePass_eq_run (P : Platform) (T : ChainTransport τ)
    (w : World τ) : ∃ as, w.servicePass P T = (stratum P T).run w as := by
  let w₁ := (w.acceptFromListener .pool).acceptFromListener .solo
  let w₂ := w₁.serviceClients P T
  refine ⟨[.accept .pool, .accept .solo] ++ (w₁.sockets.map ServerAction.service
    ++ ((if w₂.server.loopCount % 4 = 0 then [.refresh] else [])
      ++ [.sendPending, .tick])), ?_⟩
  rw [Machine.run_append, Machine.run_append, Machine.run_append]
  show _ = (stratum P T).run ((stratum P T).run ((stratum P T).run w₁ _) _) _
  rw [← foldl_service_eq_run P T w₁.sockets w₁]
  show w.servicePass P T = (stratum P T).run ((stratum P T).run w₂ _) _
  unfold World.servicePass
  by_cases h : w₂.server.loopCount % 4 = 0
  · rw [if_pos h]
    show World.setServer (World.sendPendingJobs P (if w₂.server.loopCount % 4
      = 0 then _ else w₂)) _ = _
    rw [if_pos h]
    rfl
  · rw [if_neg h]
    show World.setServer (World.sendPendingJobs P (if w₂.server.loopCount % 4
      = 0 then _ else w₂)) _ = _
    rw [if_neg h]
    rfl
