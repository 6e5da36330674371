import StnStratum.MinerJob
import StnStratum.RpcClient
import StnStratum.Socket
import Mathlib.Logic.Function.Basic

/-!
# Sessions, the server and the world around it

`stn_client_session` is what the server knows of one miner, and
`stn_stratum_server` is what it knows altogether: where Chain is, the work it
last got from there, and the sessions. A `World` is a server with everything
it talks to: the heap, the connections of its miners and the listeners. As
with the Chain transport, what the other side will do is part of the world,
and what it has done so far is kept for the theorems to speak of: the bytes
of every connection, and a `trace` of what the server did.

A session is known by its `socket`. Where the C code holds a pointer to a
session, the functions here hold the number of its connection and look it up.
Numbers are given out in the order of acceptance and never twice, unlike the
descriptors, so that what is said of a connection stays true of it.

The fields of the server that nothing here reads (the log, the listeners'
sockets, the telemetry service, the poll counter behind the heartbeat line)
are left out.
-/

/-- `stn_service_mode`. -/
inductive ServiceMode where
  /-- `STN_SERVICE_MODE_POOL`. -/
  | pool
  /-- `STN_SERVICE_MODE_SOLO`. -/
  | solo
  deriving DecidableEq

/-- **The two branches of `stn_stratum_server.c`.** -/
inductive Platform where
  | linux
  | windows
  deriving DecidableEq

/-- Whether a call interrupted by a signal is made again. -/
def Platform.retry : Platform → Bool
  | .linux => true
  | .windows => false

/-- The number of a connection. -/
abbrev ConnId := ℕ

/-- **`stn_client_session`.** -/
structure ClientSession where
  /-- Its connection. -/
  socket : ConnId
  /-- The bytes of the frame being received. -/
  rx : Buf Miner.addressFrameSize
  /-- How many there are. -/
  rxUsed : ℕ
  /-- The job the miner was last sent, if `hasJob`. -/
  sentJobId : Buf 32
  /-- The hash rate it last reported. -/
  hashrate : UInt64
  /-- Its address and a terminating zero, if `addressRegistered`. -/
  address : Buf Miner.addressSize
  /-- The mode of the listener that accepted it. -/
  mode : ServiceMode
  /-- Whether it has given its address. -/
  addressRegistered : Bool
  /-- Whether it has been sent a job. -/
  hasJob : Bool
  deriving DecidableEq

namespace ClientSession

/-- `stn_client_session_init`. -/
def init (socket : ConnId) (mode : ServiceMode) : ClientSession where
  socket := socket
  rx := Buf.zero _
  rxUsed := 0
  sentJobId := Buf.zero _
  hashrate := 0
  address := Buf.zero _
  mode := mode
  addressRegistered := false
  hasJob := false

/-- `stn_client_session_clear_job`, and the body of `clear_client_jobs`. -/
def clearJob (s : ClientSession) : ClientSession :=
  { s with sentJobId := Buf.zero _, hashrate := 0, hasJob := false }

/-- The bytes received of the frame being received. -/
def pending (s : ClientSession) : Bytes := s.rx.bytes.take s.rxUsed

/-- Bytes received, stored behind those there are. -/
def store (s : ClientSession) (got : Bytes) : ClientSession :=
  { s with rx := s.rx.write s.rxUsed got, rxUsed := s.rxUsed + got.length }

/-- The address as it goes into a request. -/
def identity (s : ClientSession) : Bytes := slice s.address.bytes 0 69

end ClientSession

/-- `stn_chain_config_entry`. -/
structure ChainConfigEntry where
  /-- The host. -/
  host : Bytes
  /-- The port. -/
  port : UInt16
  deriving DecidableEq

/-- **The active work** of a server: `active_base`, `active_job_id`,
`active_template`, `active_template_length` and `have_work`. -/
structure ActiveWork where
  /-- The base block the work builds on. -/
  base : Buf 32
  /-- The work ID. -/
  jobId : Buf 32
  /-- The template, into which every poll receives. -/
  template : Buf Rpc.maxPayload
  /-- How much of it is the template. -/
  templateLength : ℕ
  /-- Whether there is work. -/
  haveWork : Bool
  /-- No more of it than there is. -/
  fits : templateLength ≤ Rpc.maxPayload

/-- **`stn_stratum_server`.** -/
structure StratumServer (τ : Type) where
  /-- `chain_config.servers`. -/
  chainServers : List ChainConfigEntry
  /-- The one in use. -/
  activeChainServer : ℕ
  /-- The transport to it. -/
  chainTransport : τ
  /-- The client on that transport. -/
  chainRpc : RpcClient
  /-- The active work. -/
  work : ActiveWork
  /-- The sessions, the latest first. -/
  clients : List ClientSession
  /-- Their number. -/
  clientCount : ℕ
  /-- Whether the loop goes on. -/
  running : Bool
  /-- Whether Chain answered last time. -/
  chainAvailable : Bool
  /-- The turns of the loop. -/
  loopCount : UInt64

/-! ## The other side -/

/-- **A miner's connection**: what its calls will return, and what they
have. -/
structure Peer where
  /-- What the calls of `recv` will return. Once the list is used up, there is
  nothing to read. -/
  inbox : List RecvOutcome
  /-- What the calls of `send` will return. -/
  outcomes : List SendOutcome
  /-- The bytes received. -/
  received : Bytes
  /-- The calls of `recv`: the offset into `rx`, the bytes asked for. -/
  asks : List (ℕ × ℕ)
  /-- The bytes written. -/
  written : Bytes

/-- What a call of `stn_session_acceptor_accept` comes to. -/
inductive AcceptOutcome where
  /-- A session. -/
  | session
  /-- No connection is waiting. -/
  | nobody
  /-- The call of `accept` or the allocation fails. -/
  | failed
  deriving DecidableEq

/-- **Why a session ends**, by the text that is logged. -/
inductive Removal where
  /-- "ADDRESS required" -/
  | addressRequired
  /-- "duplicate ADDRESS" -/
  | duplicateAddress
  /-- "invalid ADDRESS" -/
  | invalidAddress
  /-- "invalid frame header" -/
  | invalidFrameHeader
  /-- "unsupported frame type" -/
  | unsupportedFrameType
  /-- "peer closed" -/
  | peerClosed
  /-- "receive failed" -/
  | receiveFailed
  /-- "job send failed" -/
  | jobSendFailed
  /-- "result send failed" -/
  | resultSendFailed
  /-- No text: the server is closing. -/
  | serverClosing
  deriving DecidableEq

/-- **What the server did**, as far as anyone can tell. -/
inductive Event where
  /-- A session begins. -/
  | accepted (c : ConnId)
  /-- The bytes received of a frame are handed to `process_address`,
  `process_submission` or `process_hash_progress`. -/
  | frame (c : ConnId) (bytes : Bytes)
  /-- A request is handed to the Chain transport, which comes back with a
  frame or fails. -/
  | exchange (request : Bytes) (reply : Option Bytes)
  /-- A RESULT with a code is sent. -/
  | result (c : ConnId) (code : ℕ)
  /-- A JOB is sent: its header and its block. -/
  | job (c : ConnId) (header block : Bytes)
  /-- A session ends, when so many bytes had been received. -/
  | removed (c : ConnId) (reason : Removal) (position : ℕ)
  deriving DecidableEq

namespace Event

/-- The connection an event is about. -/
def client? : Event → Option ConnId
  | accepted c => some c
  | frame c _ => some c
  | exchange _ _ => none
  | result c _ => some c
  | job c _ _ => some c
  | removed c _ _ => some c

/-- The bytes handed over, if the event is that of a frame of `c`. -/
def frame? (c : ConnId) : Event → Option Bytes
  | frame d bytes => if d = c then some bytes else none
  | _ => none

end Event

/-- **A server and its surroundings.** -/
structure World (τ : Type) where
  /-- The server. -/
  server : StratumServer τ
  /-- The connections, by their numbers. -/
  peers : ConnId → Peer
  /-- The heap. -/
  heap : Heap
  /-- The number the next connection will get. -/
  nextConn : ConnId
  /-- What the two listeners will do. Once a list is used up, nobody
  waits. -/
  backlog : ServiceMode → List AcceptOutcome
  /-- What the server has done. -/
  trace : List Event

namespace World

variable {τ : Type}

/-- The connections that have a session, in the order of the sessions. -/
def sockets (w : World τ) : List ConnId :=
  w.server.clients.map ClientSession.socket

/-- The session of a connection. -/
def client? (w : World τ) (c : ConnId) : Option ClientSession :=
  w.server.clients.find? (fun s => s.socket == c)

/-- The sessions of the other connections. -/
def others (w : World τ) (c : ConnId) : List ClientSession :=
  w.server.clients.filter fun s => s.socket != c

/-- One more thing done. -/
def emit (w : World τ) (e : Event) : World τ :=
  { w with trace := w.trace ++ [e] }

/-- A store into the session of a connection. -/
def setClient (w : World τ) (c : ConnId)
    (f : ClientSession → ClientSession) : World τ :=
  { w with server := { w.server with
      clients := w.server.clients.map fun s => if s.socket = c then f s else s } }

/-- A change of a connection. -/
def setPeer (w : World τ) (c : ConnId) (f : Peer → Peer) : World τ :=
  { w with peers := Function.update w.peers c (f (w.peers c)) }

/-- What `send_all` comes to on a connection. -/
def sending (P : Platform) (w : World τ) (c : ConnId) (p : Bytes) :
    SendResult :=
  sendAll P.retry (w.peers c).outcomes p

/-- **`send_all`** to a connection. -/
def send (P : Platform) (w : World τ) (c : ConnId) (p : Bytes) : World τ :=
  w.setPeer c fun peer => { peer with
    outcomes := (w.sending P c p).rest
    written := peer.written ++ (w.sending P c p).sent }

/-- **`client_remove`**: the session is unlinked, counted off and released.
A session that is not in the list is left alone. -/
def clientRemove (w : World τ) (c : ConnId) (reason : Removal) : World τ :=
  if (w.client? c).isSome then
    let w := { w with server := { w.server with
      clients := w.server.clients.filter fun s => s.socket != c
      clientCount := w.server.clientCount - 1 } }
    w.emit (.removed c reason (w.peers c).received.length)
  else w

/-! ## Looking up sessions -/

/-- A connection has a session if it is listed. -/
theorem client?_eq_none_iff {w : World τ} {c : ConnId} :
    w.client? c = none ↔ c ∉ w.sockets := by
  unfold client? sockets
  rw [List.find?_eq_none, List.mem_map]
  constructor
  · rintro h ⟨s, hs, rfl⟩
    exact h s hs (beq_self_eq_true _)
  · intro h s hs hc
    exact h ⟨s, hs, eq_of_beq hc⟩

theorem mem_sockets_iff {w : World τ} {c : ConnId} :
    c ∈ w.sockets ↔ ∃ s, w.client? c = some s := by
  rw [← Option.isSome_iff_exists, ← Option.ne_none_iff_isSome, ne_eq,
    client?_eq_none_iff, not_not]

/-- What is found is the session of the connection asked for. -/
theorem socket_of_client? {w : World τ} {c : ConnId} {s : ClientSession}
    (h : w.client? c = some s) : s.socket = c := by
  unfold client? at h
  have := List.find?_some h
  exact eq_of_beq this

/-- A session that is found is listed. -/
theorem mem_clients_of_client? {w : World τ} {c : ConnId} {s : ClientSession}
    (h : w.client? c = some s) : s ∈ w.server.clients := by
  unfold client? at h
  exact List.mem_of_find?_eq_some h

/-- Looking up in a list of sessions that were changed but kept their
connections. -/
theorem find?_map_socket (l : List ClientSession)
    {f : ClientSession → ClientSession} (hf : ∀ s, (f s).socket = s.socket)
    (c : ConnId) :
    (l.map f).find? (fun s => s.socket == c)
      = (l.find? fun s => s.socket == c).map f := by
  rw [List.find?_map]
  congr 2
  funext s
  exact congrArg (· == c) (hf s)

section SetClient

variable {w : World τ} {c : ConnId} {f : ClientSession → ClientSession}

/-- A store into a session, for a function that keeps its connection. -/
theorem client?_setClient (hf : ∀ s, (f s).socket = s.socket) (d : ConnId) :
    (w.setClient c f).client? d
      = if d = c then (w.client? c).map f else w.client? d := by
  show (w.server.clients.map _).find? _ = _
  rw [find?_map_socket _ (fun s => by split <;> simp [hf])]
  show (w.client? d).map _ = _
  by_cases h : d = c
  · rw [if_pos h, h]
    cases hs : w.client? c with
    | none => rfl
    | some s =>
      rw [Option.map_some, if_pos (socket_of_client? hs), Option.map_some]
  · rw [if_neg h]
    cases hs : w.client? d with
    | none => rfl
    | some s =>
      rw [Option.map_some, if_neg (fun hc => h (by
        rw [← socket_of_client? hs, hc]))]

theorem sockets_setClient (hf : ∀ s, (f s).socket = s.socket) :
    (w.setClient c f).sockets = w.sockets := by
  unfold sockets setClient
  dsimp only
  rw [List.map_map]
  refine List.map_congr_left fun s _ => ?_
  dsimp only [Function.comp_apply]
  split
  · exact hf s
  · rfl

variable (w c f) in
/-- A store into a session leaves the others alone. -/
theorem others_setClient (hf : ∀ s, (f s).socket = s.socket) :
    (w.setClient c f).others c = w.others c := by
  unfold others setClient
  dsimp only
  induction w.server.clients with
  | nil => rfl
  | cons s l ih =>
    rw [List.map_cons]
    by_cases hs : s.socket = c
    · rw [if_pos hs, List.filter_cons_of_neg (by rw [hf, hs]; simp),
        List.filter_cons_of_neg (by rw [hs]; simp), ih]
    · rw [if_neg hs, List.filter_cons_of_pos (by simpa using hs),
        List.filter_cons_of_pos (by simpa using hs), ih]

end SetClient

section ClientRemove

variable (w : World τ) (c : ConnId) (reason : Removal)

/-- Removing a session that is there. -/
theorem clientRemove_of_some {s : ClientSession} (h : w.client? c = some s) :
    w.clientRemove c reason
      = { w with
          server := { w.server with
            clients := w.server.clients.filter fun s => s.socket != c
            clientCount := w.server.clientCount - 1 }
          trace := w.trace
            ++ [.removed c reason (w.peers c).received.length] } := by
  rw [clientRemove, if_pos (by rw [h]; rfl)]
  rfl

/-- Removing a session that is not there. -/
theorem clientRemove_of_none (h : w.client? c = none) :
    w.clientRemove c reason = w := by
  rw [clientRemove, if_neg (by rw [h]; exact Bool.false_ne_true)]

theorem client?_clientRemove (d : ConnId) :
    (w.clientRemove c reason).client? d
      = if d = c then none else w.client? d := by
  cases h : w.client? c with
  | none =>
    rw [clientRemove_of_none w c reason h]
    by_cases hd : d = c
    · rw [if_pos hd, hd, h]
    · rw [if_neg hd]
  | some s =>
    rw [clientRemove_of_some w c reason h]
    show (w.server.clients.filter _).find? _ = _
    rw [List.find?_filter]
    by_cases hd : d = c
    · rw [if_pos hd, hd, List.find?_eq_none]
      intro s _
      simp
    · rw [if_neg hd]
      show _ = w.server.clients.find? _
      congr 1
      funext s
      by_cases hs : s.socket = d
      · simp [hs, hd]
      · simp [hs]

theorem sockets_clientRemove :
    (w.clientRemove c reason).sockets = w.sockets.filter (· != c) := by
  cases h : w.client? c with
  | none =>
    rw [clientRemove_of_none w c reason h, List.filter_eq_self.mpr]
    intro d hd
    rw [bne_iff_ne]
    rintro rfl
    exact client?_eq_none_iff.mp h hd
  | some s =>
    rw [clientRemove_of_some w c reason h]
    unfold sockets
    rw [List.filter_map]
    rfl

/-- The others stay. -/
theorem others_clientRemove :
    (w.clientRemove c reason).others c = w.others c := by
  unfold clientRemove
  split
  · exact List.filter_filter.trans (by simp only [Bool.and_self]; rfl)
  · rfl

@[simp] theorem peers_clientRemove :
    (w.clientRemove c reason).peers = w.peers := by
  unfold clientRemove
  split <;> rfl

@[simp] theorem work_clientRemove :
    (w.clientRemove c reason).server.work = w.server.work := by
  unfold clientRemove
  split <;> rfl

@[simp] theorem chainAvailable_clientRemove :
    (w.clientRemove c reason).server.chainAvailable
      = w.server.chainAvailable := by
  unfold clientRemove
  split <;> rfl

end ClientRemove

end World
