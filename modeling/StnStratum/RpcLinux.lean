import StnStratum.RpcClient
import StnStratum.Socket

/-!
# The Linux transport

`stn_rpc_linux.c` carries frames over one TCP connection, which it opens when
it needs one, keeps while it works and drops at the first thing that goes
wrong. What the network does is part of the state: a list of what the
attempts to connect will come to, and on each connection the outcomes of its
calls of `send` and `recv`. A `send` that fails ends the attempt. If it meets a
broken pipe SIGPIPE kills the process, and then the runs here go on where those
of the source have ended.

The state also keeps a log of what happened, for the theorems: for every
exchange the request, and for every attempt at it the connection, the bytes
written and the bytes read. Connections are numbered in the order they are
opened, and a number is never given out twice, unlike a file descriptor.
-/

/-- **A connection to Chain.** -/
structure ChainSocket where
  /-- Its number. -/
  number : ℕ
  /-- What its calls of `send` will return. -/
  sends : List SendOutcome
  /-- What its calls of `recv` will return. A timeout is a call that would
  block. -/
  recvs : List RecvOutcome
  deriving DecidableEq

/-- What trying one address comes to. -/
inductive AddressTry where
  /-- `socket` fails. -/
  | noSocket
  /-- `connect` fails. -/
  | refused
  /-- A connection. -/
  | connected (sends : List SendOutcome) (recvs : List RecvOutcome)
  deriving DecidableEq

/-- What an attempt to connect will come to. -/
structure ConnectTry where
  /-- The addresses the host resolves to, if it resolves. -/
  addresses : Option (List AddressTry)
  /-- Whether the timeouts can be set. -/
  timeouts : Bool
  deriving DecidableEq

/-- **One attempt at an exchange.** -/
structure Attempt where
  /-- The connection it was made on, if there was one. -/
  conn : Option ℕ
  /-- The bytes written. -/
  written : Bytes
  /-- The bytes read. -/
  read : Bytes
  /-- Whether it went through. -/
  ok : Bool
  deriving DecidableEq

/-- **One exchange**: its request, the room for its response, and the attempts
at it. -/
structure Exchange where
  /-- The request frame. -/
  request : Bytes
  /-- The capacity of the response buffer. -/
  capacity : ℕ
  /-- The attempts, in order. -/
  attempts : List Attempt
  deriving DecidableEq

/-- **`stn_rpc_linux`**, with what the network will do and what has been
done. -/
structure RpcLinux where
  /-- The host, once there is one. -/
  host : Option Bytes
  /-- The port. -/
  port : UInt16
  /-- `socket_fd`, if it is a socket. -/
  socket : Option ChainSocket
  /-- What the attempts to connect will come to. Once the list is used up, no
  host resolves. -/
  tries : List ConnectTry
  /-- The connections opened so far. -/
  opened : ℕ
  /-- The exchanges so far, the latest first. -/
  log : List Exchange
  deriving DecidableEq

namespace RpcLinux

/-- `drop_socket`. -/
def dropSocket (t : RpcLinux) : RpcLinux := { t with socket := none }

/-- The first address that lets itself be connected to. -/
def firstConnected : List AddressTry → Option (List SendOutcome × List RecvOutcome)
  | [] => none
  | .noSocket :: rest => firstConnected rest
  | .refused :: rest => firstConnected rest
  | .connected sends recvs :: _ => some (sends, recvs)

/-- **`connect_socket`**: the connection there is, or a new one to the first
address that accepts it, with both timeouts set. -/
def connectSocket (t : RpcLinux) : RpcLinux :=
  match t.socket, t.tries with
  | some _, _ => t
  | none, [] => t
  | none, next :: rest =>
    match next.addresses.bind firstConnected with
    | none => { t with tries := rest }
    | some c =>
      if next.timeouts then
        { t with
          socket := some ⟨t.opened, c.1, c.2⟩
          tries := rest
          opened := t.opened + 1 }
      else { t with tries := rest, opened := t.opened + 1 }

/-- What one attempt leaves. -/
structure Once (m : ℕ) where
  /-- The transport afterwards. -/
  transport : RpcLinux
  /-- What the attempt returns. -/
  reply : Reply m
  /-- What happened. -/
  attempt : Attempt

/-- An attempt that fails on a connection, which is dropped. -/
def failed {m : ℕ} (t : RpcLinux) (s : ChainSocket) (response : Buf m)
    (written read : Bytes) : Once m :=
  ⟨t.dropSocket, ⟨false, response, 0⟩, ⟨some s.number, written, read, false⟩⟩

/-- **`exchange_once`**: the request is sent, a header received, and as many
bytes as the header announces. -/
def exchangeOnce {m : ℕ} (t : RpcLinux) (request : Bytes) (response : Buf m) :
    Once m :=
  let t := t.connectSocket
  match t.socket with
  | none => ⟨t, ⟨false, response, 0⟩, ⟨none, [], [], false⟩⟩
  | some s =>
    let out := sendAll true s.sends request
    if out.ok = false then failed t s response out.sent []
    else
      let head := recvLoop true s.recvs 0 24
      let response := response.write 0 head.got
      if head.status ≠ .filled then failed t s response out.sent head.got
      else
        let payloadLength := readBE (slice response.bytes 20 4)
        if m < 24 + payloadLength then failed t s response out.sent head.got
        else
          let body := recvLoop true head.rest 24 payloadLength
          let response := response.write 24 body.got
          if body.status ≠ .filled then
            failed t s response out.sent (head.got ++ body.got)
          else
            ⟨{ t with socket := some ⟨s.number, out.rest, body.rest⟩ },
              ⟨true, response, 24 + payloadLength⟩,
              ⟨some s.number, out.sent, head.got ++ body.got, true⟩⟩

/-- **Whether a request may be sent again**: it has a header and asks for
information or for a template. A lost answer to anything else has an unknown
outcome. -/
def mayRetry (request : Bytes) : Bool :=
  decide (24 ≤ request.length)
    && ((request.getD 8 0 == 0x00 && request.getD 9 0 == 0x01)
      || (request.getD 8 0 == 0x20 && request.getD 9 0 == 0x02))

/-- The transport once an exchange is written down. -/
def record (t : RpcLinux) (request : Bytes) (capacity : ℕ)
    (attempts : List Attempt) : RpcLinux :=
  { t with log := ⟨request, capacity, attempts⟩ :: t.log }

/-- **`stn_rpc_linux_exchange`**: one attempt, and where that fails and the
request may be sent again, a second. -/
def exchange {m : ℕ} (t : RpcLinux) (request : Bytes) (response : Buf m) :
    RpcLinux × Reply m :=
  if t.host = none ∨ m < 24 then
    (t.record request m [], ⟨false, response, 0⟩)
  else
    let first := t.exchangeOnce request response
    if first.reply.ok = true then
      (first.transport.record request m [first.attempt], first.reply)
    else if mayRetry request = false then
      (first.transport.record request m [first.attempt], first.reply)
    else
      let second := first.transport.exchangeOnce request first.reply.response
      (second.transport.record request m [first.attempt, second.attempt],
        second.reply)

/-- `stn_rpc_linux_init`. -/
def init (t : RpcLinux) (host : Bytes) (port : UInt16) : RpcLinux :=
  { t with host := some host, port := port, socket := none }

/-- **The Linux transport**, as the client sees it. -/
def transport : ChainTransport RpcLinux where
  init := RpcLinux.init
  close := dropSocket
  exchange := RpcLinux.exchange

/-! ## One attempt -/

/-- The connection number of the open socket. -/
def openNumber (t : RpcLinux) : Option ℕ := t.socket.map ChainSocket.number

/-- **What one attempt does**: it writes a prefix of the request on the one
connection that is open for it, a new number if none was open. Where it
fails no connection is left open. Where it goes through, the whole request
was written, the connection is kept, and the reply is what was read on it:
a header, and as many bytes as the header announces, inside the buffer. -/
structure IsAttempt {m : ℕ} (t : RpcLinux) (request : Bytes) (o : Once m) :
    Prop where
  /-- The host and the log are left alone. -/
  frame : o.transport.host = t.host ∧ o.transport.port = t.port
    ∧ o.transport.log = t.log
  /-- Numbers only grow. -/
  opened : t.opened ≤ o.transport.opened
  /-- The connection is the open one or a new one. -/
  conn : ∀ k, o.attempt.conn = some k →
    t.openNumber = some k
      ∨ t.openNumber = none ∧ k = t.opened ∧ k < o.transport.opened
  /-- The bytes written are a prefix of the request. -/
  written : o.attempt.written <+: request
  /-- Both records agree on whether it went through. -/
  agree : o.reply.ok = o.attempt.ok
  /-- A failed attempt leaves no connection, and without a connection nothing
  was written or read. -/
  failed : o.attempt.ok = false → o.transport.openNumber = none
    ∧ (o.attempt.conn = none → o.attempt.written = [] ∧ o.attempt.read = [])
  /-- An attempt that goes through. -/
  passed : o.attempt.ok = true →
    o.transport.openNumber = o.attempt.conn ∧ o.attempt.conn ≠ none
      ∧ o.attempt.written = request
      ∧ o.reply.frameLength
        = 24 + readBE (slice o.reply.response.bytes 20 4)
      ∧ o.reply.frameLength ≤ m
      ∧ o.reply.response.bytes.take o.reply.frameLength = o.attempt.read

/-- Connecting keeps the host and the log, and leaves the connection there
was, none, or one with a new number. -/
theorem connectSocket_spec (t : RpcLinux) :
    (t.connectSocket.host = t.host ∧ t.connectSocket.port = t.port
        ∧ t.connectSocket.log = t.log)
      ∧ t.opened ≤ t.connectSocket.opened
      ∧ ∀ s, t.connectSocket.socket = some s →
        t.openNumber = some s.number
          ∨ t.openNumber = none ∧ s.number = t.opened
            ∧ s.number < t.connectSocket.opened := by
  unfold connectSocket openNumber
  split
  next s hs =>
    refine ⟨⟨rfl, rfl, rfl⟩, le_rfl, fun s' hs' => .inl ?_⟩
    rw [hs']
    rfl
  next hs _ =>
    refine ⟨⟨rfl, rfl, rfl⟩, le_rfl, fun s' hs' => ?_⟩
    rw [hs] at hs'
    cases hs'
  next next rest hs _ =>
    split
    · refine ⟨⟨rfl, rfl, rfl⟩, le_rfl, fun s' hs' => ?_⟩
      rw [hs] at hs'
      cases hs'
    · split
      · refine ⟨⟨rfl, rfl, rfl⟩, Nat.le_succ _, fun s' hs' => .inr ?_⟩
        obtain rfl := Option.some.inj hs'
        rw [hs]
        exact ⟨rfl, rfl, Nat.lt_succ_self _⟩
      · refine ⟨⟨rfl, rfl, rfl⟩, Nat.le_succ _, fun s' hs' => ?_⟩
        rw [hs] at hs'
        cases hs'

/-- An attempt that fails on the connection it has. -/
theorem isAttempt_failed {m : ℕ} {t : RpcLinux} {request : Bytes}
    {response : Buf m} {s : ChainSocket} {read : Bytes}
    (hs : t.connectSocket.socket = some s) :
    IsAttempt t request (failed t.connectSocket s response
      (sendAll true s.sends request).sent read) where
  frame := (connectSocket_spec t).1
  opened := (connectSocket_spec t).2.1
  conn := by
    intro k hk
    obtain rfl := Option.some.inj hk
    exact (connectSocket_spec t).2.2 s hs
  written := sendAll_sent_begins true s.sends request
  agree := rfl
  failed := fun _ => ⟨rfl, fun h => nomatch h⟩
  passed := fun h => nomatch h

/-- A filled loop has received as many bytes as it asked for. -/
theorem length_got_of_filled {inbox : List RecvOutcome} {off n : ℕ}
    (h : (recvLoop true inbox off n).status = .filled) :
    (recvLoop true inbox off n).got.length = n := by
  rw [recvLoop_status] at h
  by_cases hn : n ≤ (readable true inbox).length
  · rw [recvLoop_got, List.length_take, Nat.min_eq_left hn]
  · rw [if_neg hn] at h
    exact absurd h (stopStatus_ne_filled true inbox)

/-- **Every attempt is one.** -/
theorem exchangeOnce_isAttempt {m : ℕ} (t : RpcLinux) (request : Bytes)
    (response : Buf m) (hm : 24 ≤ m) :
    IsAttempt t request (t.exchangeOnce request response) := by
  unfold exchangeOnce
  dsimp only
  split
  next hs =>
    refine ⟨(connectSocket_spec t).1, (connectSocket_spec t).2.1,
      fun k hk => (nomatch hk), List.nil_prefix, rfl,
      fun _ => ⟨?_, fun _ => ⟨rfl, rfl⟩⟩, fun h => nomatch h⟩
    rw [openNumber, hs]
    rfl
  next s hs =>
    split
    · exact isAttempt_failed hs
    next hout =>
    split
    · exact isAttempt_failed hs
    next hhead =>
    split
    · exact isAttempt_failed hs
    next hcap =>
    split
    · exact isAttempt_failed hs
    next hbody =>
    have hsent := sendAll_sent_of_ok (Bool.eq_true_of_not_eq_false hout)
    have hl₁ := length_got_of_filled (not_not.mp hhead)
    have hl₂ := length_got_of_filled (not_not.mp hbody)
    refine ⟨(connectSocket_spec t).1, (connectSocket_spec t).2.1, ?_,
      sendAll_sent_begins true s.sends request, rfl, fun h => (nomatch h),
      fun _ => ⟨rfl, nofun, hsent, ?_, not_lt.mp hcap, ?_⟩⟩
    · intro k hk
      obtain rfl := Option.some.inj hk
      exact (connectSocket_spec t).2.2 s hs
    · -- the body is stored behind the length field
      exact congrArg (fun b => 24 + readBE b)
        (Buf.slice_write_before (by decide)).symm
    · have b₁ := response.begins_nil.write (i := 0) rfl
        (s := (recvLoop true s.recvs 0 24).got) (by omega)
      have b₂ := b₁.write (i := 24) (by rw [List.nil_append, hl₁])
        (s := (recvLoop true (recvLoop true s.recvs 0 24).rest 24
          (readBE (slice (response.write 0
            (recvLoop true s.recvs 0 24).got).bytes 20 4))).got)
        (by rw [hl₂]; exact not_lt.mp hcap)
      obtain ⟨z, hz⟩ := b₂
      dsimp only
      rw [← hz, List.nil_append, List.take_left']
      rw [List.length_append, hl₁, hl₂]

/-! ## Whole exchanges -/

/-- **What an exchange does**: it writes its attempts to the log, one, two
where the request may be sent again, or none where it could not start, and
the last of them says what it returns. -/
theorem exchange_spec {m : ℕ} (t : RpcLinux) (request : Bytes)
    (response : Buf m) :
    (t.exchange request response = (t.record request m [], ⟨false, response, 0⟩))
      ∨ (∃ o : Once m, IsAttempt t request o
          ∧ (o.attempt.ok = false → mayRetry request = false)
          ∧ t.exchange request response
            = (o.transport.record request m [o.attempt], o.reply))
      ∨ ∃ o₁ o₂ : Once m, IsAttempt t request o₁ ∧ o₁.attempt.ok = false
          ∧ IsAttempt o₁.transport request o₂ ∧ mayRetry request = true
          ∧ t.exchange request response
            = (o₂.transport.record request m [o₁.attempt, o₂.attempt],
                o₂.reply) := by
  unfold exchange
  split
  · exact .inl rfl
  next h =>
    have hm : 24 ≤ m := not_lt.mp (not_or.mp h).2
    have h₁ := exchangeOnce_isAttempt t request response hm
    dsimp only
    split
    next hok =>
      refine .inr (.inl ⟨_, h₁, fun hf => ?_, rfl⟩)
      rw [h₁.agree, hf] at hok
      cases hok
    next hok =>
      split
      next hr => exact .inr (.inl ⟨_, h₁, fun _ => hr, rfl⟩)
      next hr =>
        refine .inr (.inr ⟨_, _, h₁, ?_, exchangeOnce_isAttempt _ request _ hm,
          Bool.eq_true_of_not_eq_false hr, rfl⟩)
        rw [← h₁.agree]
        exact Bool.eq_false_iff.mpr hok

/-- The attempts so far, in order. -/
def attempts (t : RpcLinux) : List Attempt :=
  t.log.reverse.flatMap Exchange.attempts

@[simp] theorem attempts_record (t : RpcLinux) (request : Bytes) (m : ℕ)
    (as : List Attempt) :
    (t.record request m as).attempts = t.attempts ++ as := by
  simp [attempts, record]

/-- **The log is in order**: every connection number in it has been given
out, the open connection has one, and the number of a failed attempt is the
open one's no longer and no later attempt's. -/
structure InOrder (t : RpcLinux) : Prop where
  /-- The open connection's number has been given out. -/
  socket : ∀ k, t.openNumber = some k → k < t.opened
  /-- Logged numbers have been given out. -/
  logged : ∀ a ∈ t.attempts, ∀ k, a.conn = some k → k < t.opened
  /-- An open connection is the one on which the last attempt went
  through. -/
  live : ∀ k, t.openNumber = some k →
    ∃ a, t.attempts.getLast? = some a ∧ a.ok = true ∧ a.conn = some k
  /-- A failed attempt's connection is not the open one. -/
  closed : ∀ a ∈ t.attempts, a.ok = false → ∀ k, a.conn = some k →
    t.openNumber ≠ some k
  /-- A failed attempt's connection is not used again. -/
  spent : t.attempts.Pairwise fun a b => a.ok = false →
    ∀ k, a.conn = some k → b.conn ≠ some k

/-- A transport of the log so far with attempts `as` made since. -/
structure Extends (t u : RpcLinux) (as : List Attempt) : Prop where
  /-- The connection is a given-out one. -/
  socket : ∀ k, u.openNumber = some k → k < u.opened
  /-- So are those of the attempts. -/
  logged : ∀ a ∈ as, ∀ k, a.conn = some k → k < u.opened
  /-- Numbers only grow. -/
  opened : t.opened ≤ u.opened
  /-- The open connection is the last attempt's, which went through, or the
  old one. -/
  live : ∀ k, u.openNumber = some k → as = [] ∧ t.openNumber = some k
    ∨ ∃ a, as.getLast? = some a ∧ a.ok = true ∧ a.conn = some k
  /-- The open connection and those of the attempts are the old one or new
  ones. -/
  fresh : ∀ k, (u.openNumber = some k ∨ ∃ a ∈ as, a.conn = some k) →
    t.openNumber = some k ∨ t.opened ≤ k
  /-- A failed attempt's connection is not the open one. -/
  closed : ∀ a ∈ as, a.ok = false → ∀ k, a.conn = some k →
    u.openNumber ≠ some k
  /-- A failed attempt's connection is not used again. -/
  spent : as.Pairwise fun a b => a.ok = false →
    ∀ k, a.conn = some k → b.conn ≠ some k

/-- One attempt extends the log by itself. -/
theorem IsAttempt.extends {m : ℕ} {t : RpcLinux} {request : Bytes}
    {o : Once m} (h : IsAttempt t request o)
    (hs : ∀ k, t.openNumber = some k → k < t.opened) :
    Extends t o.transport [o.attempt] := by
  have hopen : ∀ k, o.transport.openNumber = some k →
      o.attempt.conn = some k := by
    intro k hk
    cases hok : o.attempt.ok with
    | false =>
      rw [(h.failed hok).1] at hk
      cases hk
    | true =>
      rw [← (h.passed hok).1]
      exact hk
  have hlt : ∀ k, o.attempt.conn = some k → k < o.transport.opened := by
    intro k hk
    rcases h.conn k hk with hk | ⟨_, _, hk⟩
    · exact lt_of_lt_of_le (hs k hk) h.opened
    · exact hk
  refine ⟨fun k hk => hlt k (hopen k hk), ?_, h.opened, ?_, ?_, ?_,
    List.pairwise_singleton _ _⟩
  · intro a ha k hk
    obtain rfl := List.mem_singleton.mp ha
    exact hlt k hk
  · intro k hk
    refine .inr ⟨o.attempt, rfl, ?_, hopen k hk⟩
    refine Bool.eq_true_of_not_eq_false fun hf => ?_
    rw [(h.failed hf).1] at hk
    cases hk
  · intro k hk
    have : o.attempt.conn = some k := by
      rcases hk with hk | ⟨a, ha, hk⟩
      · exact hopen k hk
      · obtain rfl := List.mem_singleton.mp ha
        exact hk
    rcases h.conn k this with hk | ⟨_, hk, _⟩
    · exact .inl hk
    · exact .inr (le_of_eq hk.symm)
  · intro a ha hf k _ hk
    obtain rfl := List.mem_singleton.mp ha
    rw [(h.failed hf).1] at hk
    cases hk

/-- Attempts made on an old log keep it in order. -/
theorem InOrder.extend {t u : RpcLinux} {as : List Attempt} (h : t.InOrder)
    (hx : Extends t u as) (hlog : u.log = t.log) (request : Bytes) (m : ℕ) :
    (u.record request m as).InOrder := by
  have hat : (u.record request m as).attempts = t.attempts ++ as := by
    rw [attempts_record, attempts, hlog]
    rfl
  refine ⟨hx.socket, ?_, ?_, ?_, ?_⟩ <;> rw [hat]
  · intro a ha k hk
    rcases List.mem_append.mp ha with ha | ha
    · exact lt_of_lt_of_le (h.logged a ha k hk) hx.opened
    · exact hx.logged a ha k hk
  · intro k hk
    rcases hx.live k hk with ⟨rfl, ho⟩ | ⟨a, ha, hok, hc⟩
    · rw [List.append_nil]
      exact h.live k ho
    · exact ⟨a, by rw [List.getLast?_append, ha]; rfl, hok, hc⟩
  · intro a ha hf k hk ho
    rcases List.mem_append.mp ha with ha | ha
    · rcases hx.fresh k (.inl ho) with hn | hn
      · exact h.closed a ha hf k hk hn
      · exact absurd (h.logged a ha k hk) (not_lt.mpr hn)
    · exact hx.closed a ha hf k hk ho
  · refine List.pairwise_append.mpr ⟨h.spent, hx.spent, ?_⟩
    intro a ha b hb hf k hk hbk
    rcases hx.fresh k (.inr ⟨b, hb, hbk⟩) with hn | hn
    · exact h.closed a ha hf k hk hn
    · exact absurd (h.logged a ha k hk) (not_lt.mpr hn)

/-- What is in a list of two is one of the two. -/
theorem mem_pair {α : Type} {a b c : α} (h : a ∈ [b, c]) : a = b ∨ a = c :=
  (List.mem_cons.mp h).imp_right List.mem_singleton.mp

/-- **Every exchange keeps the log in order.** -/
theorem InOrder.exchange {m : ℕ} {t : RpcLinux} (h : t.InOrder)
    (request : Bytes) (response : Buf m) :
    (t.exchange request response).1.InOrder := by
  rcases exchange_spec t request response with
    he | ⟨o, ho, _, he⟩ | ⟨o₁, o₂, h₁, hf, h₂, _, he⟩ <;> rw [he]
  · refine h.extend (u := t) ⟨h.socket, ?_, le_rfl, fun k hk => .inl ⟨rfl, hk⟩,
      ?_, ?_, .nil⟩ rfl request m
    · exact fun a ha => absurd ha List.not_mem_nil
    · rintro k (hk | ⟨a, ha, _⟩)
      · exact .inl hk
      · exact absurd ha List.not_mem_nil
    · exact fun a ha => absurd ha List.not_mem_nil
  · exact h.extend (ho.extends h.socket) ho.frame.2.2 request m
  · have x₁ := h₁.extends h.socket
    have x₂ := h₂.extends x₁.socket
    have hnone := (h₁.failed hf).1
    -- the second attempt opens a connection of its own
    have hnew : ∀ k, (o₂.transport.openNumber = some k
        ∨ o₂.attempt.conn = some k) → o₁.transport.opened ≤ k := by
      intro k hk
      rcases x₂.fresh k (hk.imp_right fun hk =>
        ⟨o₂.attempt, List.mem_singleton_self _, hk⟩) with hn | hn
      · rw [hnone] at hn
        cases hn
      · exact hn
    have hold : ∀ k, o₁.attempt.conn = some k → k < o₁.transport.opened :=
      x₁.logged _ (List.mem_singleton_self _)
    refine h.extend ⟨x₂.socket, ?_, x₁.opened.trans x₂.opened, ?_, ?_, ?_, ?_⟩
      (h₂.frame.2.2.trans h₁.frame.2.2) request m
    · intro a ha k hk
      rcases mem_pair ha with rfl | rfl
      · exact lt_of_lt_of_le (hold k hk) x₂.opened
      · exact x₂.logged _ (List.mem_singleton_self _) k hk
    · intro k hk
      rcases x₂.live k hk with ⟨hnil, _⟩ | ⟨a, ha, h⟩
      · cases hnil
      · exact .inr ⟨a, ha, h⟩
    · rintro k (hk | ⟨a, ha, hk⟩)
      · exact .inr (x₁.opened.trans (hnew k (.inl hk)))
      · rcases mem_pair ha with rfl | rfl
        · exact x₁.fresh k (.inr ⟨_, List.mem_singleton_self _, hk⟩)
        · exact .inr (x₁.opened.trans (hnew k (.inr hk)))
    · intro a ha hf' k hk ho
      rcases mem_pair ha with rfl | rfl
      · exact absurd (hold k hk) (not_lt.mpr (hnew k (.inl ho)))
      · exact x₂.closed _ (List.mem_singleton_self _) hf' k hk ho
    · refine List.pairwise_pair.mpr fun _ k hk hbk => ?_
      exact absurd (hold k hk) (not_lt.mpr (hnew k (.inr hbk)))

/-- Closing keeps the log in order. -/
theorem InOrder.dropSocket {t : RpcLinux} (h : t.InOrder) :
    t.dropSocket.InOrder :=
  ⟨fun _ hk => (nomatch hk), h.logged, fun _ hk => (nomatch hk),
    fun _ _ _ _ _ => nofun, h.spent⟩

/-- Initialising keeps the log in order. -/
theorem InOrder.init {t : RpcLinux} (h : t.InOrder) (host : Bytes)
    (port : UInt16) : (t.init host port).InOrder :=
  ⟨fun _ hk => (nomatch hk), h.logged, fun _ hk => (nomatch hk),
    fun _ _ _ _ _ => nofun, h.spent⟩

/-- A transport with nothing on its log and no connection is in order. -/
theorem inOrder_of_log {t : RpcLinux} (hl : t.log = [])
    (hs : t.openNumber = none) : t.InOrder := by
  have ha : t.attempts = [] := by
    rw [attempts, hl]
    rfl
  have hn : ∀ k, t.openNumber ≠ some k := fun k hk => by
    rw [hs] at hk
    cases hk
  refine ⟨fun k hk => absurd hk (hn k), ?_, fun k hk => absurd hk (hn k), ?_,
    ?_⟩ <;> rw [ha]
  · exact fun a ha => absurd ha List.not_mem_nil
  · exact fun a ha => absurd ha List.not_mem_nil
  · exact List.Pairwise.nil

/-- **A request that may be sent again is one of the two** that only ask. -/
theorem methodOf_of_mayRetry {request : Bytes} (h : mayRetry request = true) :
    Rpc.methodOf request = Rpc.info
      ∨ Rpc.methodOf request = Rpc.miningTemplate := by
  unfold mayRetry at h
  simp only [Bool.and_eq_true, Bool.or_eq_true, beq_iff_eq,
    decide_eq_true_eq] at h
  obtain ⟨hlen, hbytes⟩ := h
  have hs : slice request 8 2 = [request.getD 8 0, request.getD 9 0] := by
    rw [slice, List.drop_eq_getElem_cons (by omega),
      List.drop_eq_getElem_cons (by omega), List.getD_eq_getElem?_getD,
      List.getD_eq_getElem?_getD, List.getElem?_eq_getElem (by omega),
      List.getElem?_eq_getElem (by omega)]
    rfl
  unfold Rpc.methodOf
  rw [hs]
  rcases hbytes with ⟨h₁, h₂⟩ | ⟨h₁, h₂⟩ <;> rw [h₁, h₂]
  · exact .inl rfl
  · exact .inr rfl

end RpcLinux

/-! ## What an entry of the log says -/

/-- What an exchange came back with: what its last attempt has read, if that
went through. -/
def Exchange.reply (e : Exchange) : Option Bytes :=
  e.attempts.getLast?.bind fun a => if a.ok then some a.read else none

/-- **An exchange as the transport makes it.** Each attempt writes a prefix of
the request, on one connection if on any. There is one attempt at most, or two
where the request only asks and the first has failed. What comes back is what
was read on the last one's connection, a header and as many bytes as it
announces, and fits the buffer. -/
structure Exchange.IsProper (e : Exchange) : Prop where
  /-- A prefix of the request is written, and nothing without a
  connection. -/
  written : ∀ a ∈ e.attempts,
    a.written <+: e.request ∧ (a.conn = none → a.written = [])
  /-- Two attempts at most. -/
  length_le : e.attempts.length ≤ 2
  /-- One at most, unless the request only asks. -/
  once : Rpc.methodOf e.request ≠ Rpc.info →
    Rpc.methodOf e.request ≠ Rpc.miningTemplate → e.attempts.length ≤ 1
  /-- Only an attempt that fails is followed by another. -/
  failed : ∀ a ∈ e.attempts.dropLast, a.ok = false
  /-- What comes back. -/
  reply : ∀ reply, e.reply = some reply →
    reply.length = 24 + readBE (slice reply 20 4)
      ∧ reply.length ≤ e.capacity
      ∧ ∃ a ∈ e.attempts, a.ok = true ∧ a.written = e.request
        ∧ a.read = reply

namespace RpcLinux

/-- What an attempt writes, it writes on its connection. -/
theorem IsAttempt.written_on {m : ℕ} {t : RpcLinux} {request : Bytes}
    {o : Once m} (h : IsAttempt t request o) :
    o.attempt.written <+: request
      ∧ (o.attempt.conn = none → o.attempt.written = []) := by
  refine ⟨h.written, fun hn => ?_⟩
  cases hok : o.attempt.ok with
  | false => exact ((h.failed hok).2 hn).1
  | true => exact absurd hn (h.passed hok).2.1

/-- The frame of a reply is what its attempt has read, if it went through. -/
theorem IsAttempt.frame_eq {m : ℕ} {t : RpcLinux} {request : Bytes}
    {o : Once m} (h : IsAttempt t request o) :
    o.reply.frame = if o.attempt.ok then some o.attempt.read else none := by
  unfold Reply.frame
  rw [h.agree]
  cases hok : o.attempt.ok with
  | false => rfl
  | true =>
    obtain ⟨_, _, _, _, _, hread⟩ := h.passed hok
    exact congrArg some hread

/-- What an attempt that went through has read is a frame of the length its
header announces. -/
theorem IsAttempt.read_length {m : ℕ} {t : RpcLinux} {request : Bytes}
    {o : Once m} (h : IsAttempt t request o) (hok : o.attempt.ok = true) :
    o.attempt.read.length = 24 + readBE (slice o.attempt.read 20 4)
      ∧ o.attempt.read.length ≤ m := by
  obtain ⟨_, _, _, hlen, hle, hread⟩ := h.passed hok
  have hl : (o.reply.response.bytes.take o.reply.frameLength).length
      = o.reply.frameLength := by
    rw [List.length_take, o.reply.response.size]
    omega
  rw [← hread, hl, Rpc.slice_take (by omega)]
  exact ⟨hlen, hle⟩

/-- **An exchange adds one proper entry to the log**, and comes back with what
the entry says. -/
theorem exchange_logged {m : ℕ} (t : RpcLinux) (request : Bytes)
    (response : Buf m) :
    ∃ e : Exchange, (t.exchange request response).1.log = e :: t.log
      ∧ e.request = request ∧ e.capacity = m ∧ e.IsProper
      ∧ e.reply = (t.exchange request response).2.frame := by
  rcases exchange_spec t request response with
    he | ⟨o, ho, _, he⟩ | ⟨o₁, o₂, h₁, hf, h₂, hr, he⟩ <;> rw [he]
  · exact ⟨⟨request, m, []⟩, rfl, rfl, rfl,
      ⟨fun a ha => absurd ha List.not_mem_nil, Nat.zero_le _,
        fun _ _ => Nat.zero_le _, fun a ha => absurd ha List.not_mem_nil,
        fun r hr => nomatch hr⟩, rfl⟩
  · refine ⟨⟨request, m, [o.attempt]⟩, ?_, rfl, rfl,
      ⟨?_, Nat.le_succ 1, fun _ _ => le_rfl,
        fun a ha => absurd ha List.not_mem_nil, ?_⟩, ho.frame_eq.symm⟩
    · show _ :: o.transport.log = _
      rw [ho.frame.2.2]
    · intro a ha
      rw [List.mem_singleton.mp ha]
      exact ho.written_on
    · intro r hr
      change (if o.attempt.ok then some o.attempt.read else none) = some r at hr
      split at hr
      next hok =>
        obtain rfl := Option.some.inj hr
        exact ⟨(ho.read_length hok).1, (ho.read_length hok).2, o.attempt,
          List.mem_singleton_self _, hok, (ho.passed hok).2.2.1, rfl⟩
      next => cases hr
  · refine ⟨⟨request, m, [o₁.attempt, o₂.attempt]⟩, ?_, rfl, rfl,
      ⟨?_, le_rfl, ?_, ?_, ?_⟩, h₂.frame_eq.symm⟩
    · show _ :: o₂.transport.log = _
      rw [h₂.frame.2.2, h₁.frame.2.2]
    · intro a ha
      rcases mem_pair ha with rfl | rfl
      · exact h₁.written_on
      · exact h₂.written_on
    · intro hi ht
      rcases methodOf_of_mayRetry hr with h | h
      · exact absurd h hi
      · exact absurd h ht
    · intro a ha
      rw [List.mem_singleton.mp ha]
      exact hf
    · intro r hr
      change (if o₂.attempt.ok then some o₂.attempt.read else none) = some r
        at hr
      split at hr
      next hok =>
        obtain rfl := Option.some.inj hr
        exact ⟨(h₂.read_length hok).1, (h₂.read_length hok).2, o₂.attempt,
          List.mem_cons_of_mem _ (List.mem_singleton_self _), hok,
          (h₂.passed hok).2.2.1, rfl⟩
      next => cases hr

end RpcLinux
