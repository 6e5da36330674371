import StnStratum.Machine
import StnStratum.Socket
import StnStratum.StatusReply

/-!
# Telemetry connections

A telemetry connection is served in ticks. `client_tick` reads what there is
of the request, until a blank line ends in it or its buffer is full; it
prepares the response and sends what the socket takes, and the next tick goes
on where it has stopped. All of this is in three lengths: how much has been
received, how much there is to send, and how much has been sent.

What the socket will return is given as two lists of outcomes, as in
`StnStratum.Socket`, and the request is what the first of them delivers
(`stream`), however it is cut. A connection is reading, answering or dropped
(`Reading`, `Answering`, `Dropped`); every tick keeps that (`tick_keeps`), and
what comes of the connection depends on the request and nothing else
(`telemetry_connection`). A socket that takes enough gets all of the response
(`answered_of_run`).

`client_tick` gives `send` no flags, and nothing in the program changes what
SIGPIPE does, so a `send` that meets EPIPE is the end of the process
(`SendAttempt.brokenPipe`). A tick says whether that has happened (`killed`).
What it says of the client then has no counterpart, as with everything behind
it: for what is never to happen such runs count like any others, and where
something has to happen they are told apart.
-/

namespace Telemetry

open Http (EndsAt)

/-! ## The source -/

/-- **`request_complete`.** -/
def requestComplete (request : Option Bytes) (requestLength : ℕ) : Bool :=
  match request with
  | none => false
  | some request =>
    if requestLength < 4 then false
    else (List.range' 3 (requestLength - 3)).any fun i =>
      request.getD (i - 3) 0 = Http.cr && request.getD (i - 2) 0 = Http.lf
        && request.getD (i - 1) 0 = Http.cr && request.getD i 0 = Http.lf

/-- **What one call of `send` returns** on a socket that does not block. -/
inductive SendAttempt where
  /-- `-1` with `EINTR`. -/
  | interrupted
  /-- `-1` with `EAGAIN` or `EWOULDBLOCK`. -/
  | wouldBlock
  /-- `-1` with `ECONNRESET` or any other error that raises no signal. -/
  | failed
  /-- `EPIPE`: the call does not return, since SIGPIPE kills the process. -/
  | brokenPipe
  /-- The number of bytes taken, of those offered. -/
  | took (k : ℕ)

/-- How one of the two loops of `client_tick` ends. -/
inductive LoopEnd where
  /-- There is nothing left to do in it. -/
  | finished
  /-- The socket would block. -/
  | blocked
  /-- The client is to be removed. -/
  | closed
  /-- The process has been killed. -/
  | killed
  deriving DecidableEq

namespace Client

/-- `remaining` of the receiving loop. -/
def room (c : Client) : ℕ := requestSize - 1 - c.requestLength

/-- Bytes that have been received, and the terminator behind them. -/
def receive (c : Client) (got : Bytes) : Client :=
  { c with
    request := (c.request.write c.requestLength got).write
      (c.requestLength + got.length) [0]
    requestLength := c.requestLength + got.length }

/-- `remaining` of the sending loop. -/
def unsent (c : Client) : ℕ := c.responseLength - c.responseSent

end Client

/-- What the receiving loop comes to. -/
structure Received where
  /-- How it ends: with a response, if it has finished. -/
  status : LoopEnd
  /-- The client. -/
  client : Client
  /-- The outcomes left for later calls. -/
  rest : List RecvOutcome

/-- **The receiving loop of `client_tick`.** Once the list of outcomes is used
up there is nothing to read. A call that leaves bytes behind has filled the
buffer, so the next turn finds no room. -/
def receiveLoop (heap : Heap) (status : Option TelemetryStatus)
    (inbox : List RecvOutcome) (c : Client) : Received :=
  if c.room = 0 then ⟨.closed, c, inbox⟩
  else
    match inbox with
    | [] => ⟨.blocked, c, []⟩
    | .data x xs :: rest =>
      let got := (x :: xs).take c.room
      let left := unread ((x :: xs).drop c.room) rest
      let c' := c.receive got
      if requestComplete (some c'.request.bytes) c'.requestLength = true then
        let r := prepareResponse heap c' status
        ⟨if r.1 = true then .finished else .closed, r.2, left⟩
      else if c.room < xs.length + 1 then ⟨.closed, c', left⟩
      else receiveLoop heap status rest c'
    | .closed :: rest => ⟨.closed, c, rest⟩
    | .interrupted :: rest => receiveLoop heap status rest c
    | .wouldBlock :: rest => ⟨.blocked, c, rest⟩
    | .failed :: rest => ⟨.closed, c, rest⟩

/-- What the sending loop comes to. -/
structure Sent where
  /-- How it ends: with everything sent, if it has finished. -/
  status : LoopEnd
  /-- The client. -/
  client : Client
  /-- The bytes taken. -/
  sent : Bytes
  /-- The outcomes left for later calls. -/
  rest : List SendAttempt

/-- **The sending loop of `client_tick`.** Once the list of outcomes is used up
the socket would block. -/
def sendLoop (outbox : List SendAttempt) (c : Client) : Sent :=
  if c.unsent = 0 then ⟨.finished, c, [], outbox⟩
  else
    match outbox with
    | [] => ⟨.blocked, c, [], []⟩
    | .interrupted :: rest => sendLoop rest c
    | .wouldBlock :: rest => ⟨.blocked, c, [], rest⟩
    | .failed :: rest => ⟨.closed, c, [], rest⟩
    | .brokenPipe :: rest => ⟨.killed, c, [], rest⟩
    | .took 0 :: rest => ⟨.closed, c, [], rest⟩
    | .took (k + 1) :: rest =>
      let n := min (k + 1) c.unsent
      let r := sendLoop rest { c with responseSent := c.responseSent + n }
      { r with sent := slice c.response.bytes c.responseSent n ++ r.sent }

/-- `STN_TELEMETRY_CLIENT_TIMEOUT_SECONDS`. -/
abbrev clientTimeoutSeconds : ℤ := 2

/-- A client has been there for too long. -/
def TimedOut (connectedAt now : ℤ) : Prop :=
  connectedAt ≠ 0 ∧ connectedAt ≤ now
    ∧ clientTimeoutSeconds ≤ now - connectedAt

instance (connectedAt now : ℤ) : Decidable (TimedOut connectedAt now) :=
  inferInstanceAs (Decidable (_ ∧ _ ∧ _))

/-- What a tick comes to. -/
structure Ticked where
  /-- Whether the process has been killed. -/
  killed : Bool
  /-- What it returns: whether the client stays. -/
  stays : Bool
  /-- The client. -/
  client : Client
  /-- The response it has prepared, if it has. -/
  prepared : List Bytes
  /-- The bytes that have been sent. -/
  sent : Bytes
  /-- What `recv` will return. -/
  inbox : List RecvOutcome
  /-- What `send` will return. -/
  outbox : List SendAttempt

/-- **`client_tick`.** -/
def clientTick (heap : Heap) (status : Option TelemetryStatus) (now : ℤ)
    (inbox : List RecvOutcome) (outbox : List SendAttempt) (c : Client) :
    Ticked :=
  let r := if c.responseLength = 0 then receiveLoop heap status inbox c
    else ⟨.blocked, c, inbox⟩
  let prepared := if r.status = .finished then
      [r.client.response.bytes.take r.client.responseLength]
    else []
  if r.status = .closed then
    ⟨false, false, r.client, prepared, [], r.rest, outbox⟩
  else if r.client.responseLength = 0 then
    ⟨false, decide (¬ TimedOut r.client.connectedAt now), r.client, prepared,
      [], r.rest, outbox⟩
  else
    let s := sendLoop outbox r.client
    ⟨decide (s.status = .killed),
      decide (s.status = .blocked ∧ ¬ TimedOut s.client.connectedAt now),
      s.client, prepared, s.sent, r.rest, s.rest⟩

/-! ## Connections -/

/-- **A connection**: its client, whether it is still in the list, what its
socket will return, and what has become of it. -/
structure Connection where
  /-- The client. -/
  client : Client
  /-- It has not been removed. -/
  stays : Bool
  /-- What `recv` will return. -/
  inbox : List RecvOutcome
  /-- What `send` will return. -/
  outbox : List SendAttempt
  /-- The responses that have been prepared. -/
  prepared : List Bytes
  /-- The bytes that have been sent. -/
  sent : Bytes

/-- **What a tick is given**: the snapshot, which holds strings, and the
time. -/
structure Tick where
  /-- What uninitialised memory holds. -/
  heap : Heap
  /-- The snapshot. -/
  snapshot : TelemetrySnapshot
  /-- It holds strings. -/
  held : snapshot.Held
  /-- The time. -/
  now : ℤ

/-- **A tick of a connection.** One that has been removed is left alone. -/
def Connection.tick (w : Connection) (t : Tick) : Connection :=
  if w.stays = true then
    let r := clientTick t.heap (some t.snapshot.toStatus) t.now w.inbox w.outbox
      w.client
    { client := r.client
      stays := r.stays
      inbox := r.inbox
      outbox := r.outbox
      prepared := w.prepared ++ r.prepared
      sent := w.sent ++ r.sent }
  else w

/-- **A connection that `accept_clients` has made.** -/
def Connection.accepted (connectedAt : ℤ) (inbox : List RecvOutcome)
    (outbox : List SendAttempt) : Connection where
  client :=
    { request := .zero _
      requestLength := 0
      response := .zero _
      responseLength := 0
      responseSent := 0
      connectedAt := connectedAt }
  stays := true
  inbox := inbox
  outbox := outbox
  prepared := []
  sent := []

/-- **Connections as a machine.** -/
def connections : Machine Connection Tick where
  Start w := ∃ connectedAt inbox outbox, w = .accepted connectedAt inbox outbox
  act := Connection.tick

/-- **The request**: what is delivered before the peer closes the connection or
it fails. -/
def stream : List RecvOutcome → Bytes
  | .data x xs :: rest => x :: xs ++ stream rest
  | .interrupted :: rest => stream rest
  | .wouldBlock :: rest => stream rest
  | .closed :: _ => []
  | .failed :: _ => []
  | [] => []

@[simp] theorem stream_unread (b : Bytes) (rest : List RecvOutcome) :
    stream (unread b rest) = b ++ stream rest := by
  cases b <;> rfl

/-! ## Requests -/

/-- Four bytes in a row. -/
theorem slice_four_iff {b : Bytes} {i : ℕ} (h : i + 4 ≤ b.length)
    (w x y z : UInt8) : slice b i 4 = [w, x, y, z]
      ↔ b.getD i 0 = w ∧ b.getD (i + 1) 0 = x ∧ b.getD (i + 2) 0 = y
        ∧ b.getD (i + 3) 0 = z := by
  have hs : slice b i 4 = [b.getD i 0, b.getD (i + 1) 0, b.getD (i + 2) 0,
      b.getD (i + 3) 0] := by
    rw [slice, List.drop_eq_getElem_cons (by omega),
      List.drop_eq_getElem_cons (by omega), List.drop_eq_getElem_cons (by omega),
      List.drop_eq_getElem_cons (by omega)]
    simp only [List.take_succ_cons, List.take_zero, List.getD_eq_getElem?_getD]
    rw [List.getElem?_eq_getElem, List.getElem?_eq_getElem,
      List.getElem?_eq_getElem, List.getElem?_eq_getElem]
    rfl
  rw [hs]
  simp only [List.cons.injEq, and_true]

/-- **A request is complete if a blank line ends in it.** -/
theorem requestComplete_iff {request got : Bytes} (h : got <+: request) :
    requestComplete (some request) got.length = true ↔ ∃ k, EndsAt got k := by
  unfold requestComplete
  dsimp only
  split
  next hlt =>
    refine iff_of_false Bool.false_ne_true fun ⟨k, hk⟩ => ?_
    have := hk.four_le.trans hk.le_length
    omega
  next hle =>
    obtain ⟨t, rfl⟩ := h
    have hfour : ∀ j, j + 4 ≤ got.length → (EndsAt got (j + 4)
        ↔ (got ++ t).getD j 0 = Http.cr ∧ (got ++ t).getD (j + 1) 0 = Http.lf
          ∧ (got ++ t).getD (j + 2) 0 = Http.cr
          ∧ (got ++ t).getD (j + 3) 0 = Http.lf) := by
      intro j hj
      rw [Http.endsAt_iff, Nat.add_sub_cancel,
        and_iff_right (Nat.le_add_left _ _), ← slice_append_left (b := t) hj]
      exact slice_four_iff (by rw [List.length_append]; omega) _ _ _ _
    simp only [List.any_eq_true, List.mem_range'_1, Bool.and_eq_true,
      decide_eq_true_eq]
    constructor
    · rintro ⟨i, ⟨h3, hi⟩, hb⟩
      obtain ⟨j, rfl⟩ := Nat.exists_eq_add_of_le' h3
      exact ⟨j + 4, (hfour j (by omega)).mpr ⟨hb.1.1.1, hb.1.1.2, hb.1.2, hb.2⟩⟩
    · rintro ⟨k, hk⟩
      obtain ⟨j, rfl⟩ := Nat.exists_eq_add_of_le' hk.four_le
      have hb := (hfour j hk.le_length).mp hk
      have := hk.le_length
      exact ⟨j + 3, ⟨by omega, by omega⟩, ⟨⟨hb.1, hb.2.1⟩, hb.2.2.1⟩, hb.2.2.2⟩

/-- **A request is valid by how it begins.** -/
theorem requestValid_iff {request got : Bytes} (h : got <+: request) :
    requestValid (some request) got.length = true
      ↔ statusRequest <+: got ∨ rootRequest <+: got := by
  have hiff : ∀ p : Bytes, p.length ≤ got.length ∧ request.take p.length = p
      ↔ p <+: got := by
    intro p
    obtain ⟨t, rfl⟩ := h
    constructor
    · rintro ⟨hl, hp⟩
      rw [List.take_append_of_le_length hl] at hp
      exact hp ▸ List.take_prefix _ _
    · rintro ⟨u, rfl⟩
      rw [List.append_assoc, List.take_left]
      exact ⟨by rw [List.length_append]; omega, rfl⟩
  unfold requestValid
  dsimp only
  split
  next h0 =>
    obtain rfl := List.length_eq_zero_iff.mp h0
    exact iff_of_false Bool.false_ne_true (by decide)
  split
  next hs => exact iff_of_true rfl (.inl ((hiff _).mp hs))
  next hs =>
  split
  next hr => exact iff_of_true rfl (.inr ((hiff _).mp hr))
  next hr =>
    rw [hiff] at hs hr
    exact iff_of_false Bool.false_ne_true (not_or.mpr ⟨hs, hr⟩)

/-- **More of the request makes no difference** once a blank line is there. -/
theorem prefix_iff_of_endsAt {p got request : Bytes} (hp : Http.cr ∉ p)
    (h : got <+: request) {k : ℕ} (hk : EndsAt got k) :
    p <+: got ↔ p <+: request := by
  constructor
  · exact fun hg => hg.trans h
  · intro hr
    rcases List.prefix_or_prefix_of_prefix hr h with hg | hg
    · exact hg
    · exact absurd (hg.subset hk.cr_mem) hp

theorem requestValid_of_endsAt {request got whole : Bytes} (h : got <+: request)
    (hw : got <+: whole) {k : ℕ} (hk : EndsAt got k) :
    requestValid (some request) got.length
      = requestValid (some whole) whole.length := by
  rw [Bool.eq_iff_iff, requestValid_iff h,
    requestValid_iff (List.prefix_refl whole),
    prefix_iff_of_endsAt (by decide) hw hk, prefix_iff_of_endsAt (by decide) hw hk]

/-! ## Receiving -/

/-- **A client that is reading** a request: what it has received of it has no
blank line. -/
structure Reading (request : Bytes) (c : Client) (inbox : List RecvOutcome)
    (got : Bytes) : Prop where
  /-- What it has received. -/
  begins : c.request.Begins got
  /-- How much that is. -/
  length : got.length = c.requestLength
  /-- It fits. -/
  le : c.requestLength ≤ 1023
  /-- The rest of the request is to come. -/
  request_eq : request = got ++ stream inbox
  /-- It is not complete. -/
  incomplete : ∀ k, ¬ EndsAt got k
  /-- There is nothing to send. -/
  idle : c.responseLength = 0

/-- **A client with a response**: the request is complete. -/
structure Answering (request : Bytes) (c : Client) (reply : Bytes) : Prop where
  /-- The response. -/
  begins : c.response.Begins reply
  /-- How long it is. -/
  length : reply.length = c.responseLength
  /-- There is one. -/
  pos : 0 < c.responseLength
  /-- What it has received fits. -/
  le : c.requestLength ≤ 1023
  /-- A blank line ends in what it could receive. -/
  complete : ∃ k ≤ 1023, EndsAt request k

/-- **A client that is to be removed without a response.** -/
structure Dropped (request : Bytes) (c : Client) : Prop where
  /-- What it has received fits. -/
  le : c.requestLength ≤ 1023
  /-- No blank line ends in what it could receive. -/
  incomplete : ∀ k ≤ 1023, ¬ EndsAt request k
  /-- There is nothing to send. -/
  idle : c.responseLength = 0

section Receive

variable {request got : Bytes} {c : Client} {inbox rest : List RecvOutcome}

/-- Without room a client has received all it can. -/
theorem Reading.dropped_of_room (h : Reading request c inbox got)
    (hr : c.room = 0) : Dropped request c where
  le := h.le
  incomplete k hk he := by
    have hlen : k ≤ got.length := by
      rw [h.length]
      unfold Client.room requestSize at hr
      omega
    exact h.incomplete k ((EndsAt.iff_of_prefix
      (h.request_eq ▸ List.prefix_append _ _) hlen).mpr he)
  idle := h.idle

/-- Nor is there more to receive behind an end of the stream. -/
theorem Reading.dropped_of_stream (h : Reading request c inbox got)
    (hs : stream inbox = []) : Dropped request c where
  le := h.le
  incomplete k _ he := by
    rw [h.request_eq, hs, List.append_nil] at he
    exact h.incomplete k he
  idle := h.idle

/-- What does not deliver anything makes no difference. -/
theorem Reading.skip (h : Reading request c inbox got)
    (hs : stream inbox = stream rest) : Reading request c rest got :=
  { h with request_eq := hs ▸ h.request_eq }

/-- **Bytes are received**, as many as there is room for. -/
theorem Reading.receive (h : Reading request c inbox got) {front : Bytes}
    (hf : front.length ≤ c.room) :
    (c.receive front).request.Begins (got ++ front)
      ∧ (got ++ front).length = (c.receive front).requestLength
      ∧ (c.receive front).requestLength ≤ 1023 := by
  have hle := h.le
  unfold Client.room requestSize at hf
  refine ⟨?_, ?_, ?_⟩
  · have hb := (h.begins.write (s := front) h.length
        (show c.requestLength + front.length ≤ 1024 by omega)).write
      (i := c.requestLength + front.length) (s := [0])
      (by rw [List.length_append, h.length])
      (show c.requestLength + front.length + 1 ≤ 1024 by omega)
    exact (List.prefix_append _ _).trans hb
  · rw [List.length_append, h.length]
    rfl
  · show c.requestLength + front.length ≤ 1023
    omega

/-- Where there is room, the request is below its limit. -/
theorem requestLength_lt_of_room (hr : ¬ c.room = 0) :
    c.requestLength < 1023 := by
  unfold Client.room requestSize at hr
  omega

/-- **What the receiving loop comes to**: the client goes on reading later, it
has a response, or it is to be removed. -/
theorem receiveLoop_cases {snapshot : TelemetrySnapshot} (hs : snapshot.Held)
    (heap : Heap) (h : Reading request c inbox got) :
    let r := receiveLoop heap (some snapshot.toStatus) inbox c
    r.client.connectedAt = c.connectedAt
      ∧ ((r.status = .blocked ∧ r.client.requestLength < 1023
          ∧ (r.rest.length < inbox.length ∨ r.rest = [])
          ∧ ∃ got, Reading request r.client r.rest got)
        ∨ (r.status = .finished ∧ r.client.responseSent = 0
          ∧ Answering request r.client (replyTo
            (requestValid (some request) request.length) snapshot.toStatus))
        ∨ (r.status = .closed ∧ Dropped request r.client)) := by
  induction inbox generalizing c got with
  | nil =>
    unfold receiveLoop
    by_cases hr : c.room = 0
    · rw [if_pos hr]
      exact ⟨rfl, .inr (.inr ⟨rfl, h.dropped_of_room hr⟩)⟩
    · rw [if_neg hr]
      exact ⟨rfl, .inl ⟨rfl, requestLength_lt_of_room hr, .inr rfl, got, h⟩⟩
  | cons o rest ih =>
    unfold receiveLoop
    by_cases hr : c.room = 0
    · rw [if_pos hr]
      exact ⟨rfl, .inr (.inr ⟨rfl, h.dropped_of_room hr⟩)⟩
    rw [if_neg hr]
    have hlt := requestLength_lt_of_room hr
    cases o with
    | closed => exact ⟨rfl, .inr (.inr ⟨rfl, h.dropped_of_stream rfl⟩)⟩
    | failed => exact ⟨rfl, .inr (.inr ⟨rfl, h.dropped_of_stream rfl⟩)⟩
    | wouldBlock =>
      exact ⟨rfl, .inl ⟨rfl, hlt, .inl (Nat.lt_succ_self _), got, h.skip rfl⟩⟩
    | interrupted =>
      obtain ⟨hc, hi⟩ := ih (h.skip rfl)
      refine ⟨hc, hi.imp_left fun ⟨hb, hl, hrest, hg⟩ => ⟨hb, hl, ?_, hg⟩⟩
      exact hrest.imp_left fun hlt => Nat.lt_succ_of_lt hlt
    | data x xs =>
      have hf : ((x :: xs).take c.room).length ≤ c.room :=
        List.length_take_le _ _
      obtain ⟨hb, hl, hle⟩ := h.receive hf
      have hreq : request = got ++ (x :: xs).take c.room
          ++ stream (unread ((x :: xs).drop c.room) rest) := by
        rw [h.request_eq, stream_unread, List.append_assoc,
          ← List.append_assoc ((x :: xs).take c.room), List.take_append_drop]
        rfl
      have hpre := hreq ▸ List.prefix_append (got ++ (x :: xs).take c.room) _
      dsimp only
      by_cases hk : ∃ k, EndsAt (got ++ (x :: xs).take c.room) k
      · rw [if_pos (hl ▸ (requestComplete_iff hb).mpr hk)]
        obtain ⟨k, hk⟩ := hk
        have hvalid : requestValid
            (some (c.receive ((x :: xs).take c.room)).request.bytes)
            (c.receive ((x :: xs).take c.room)).requestLength
            = requestValid (some request) request.length :=
          hl ▸ requestValid_of_endsAt hb hpre hk
        obtain ⟨response, he, hpos, hr'⟩ := prepareResponse_toStatus hs heap
          (c.receive ((x :: xs).take c.room))
        rw [hvalid] at he hpos hr'
        rw [he]
        exact ⟨rfl, .inr (.inl ⟨rfl, rfl, hr', rfl, hpos, hle, k,
          hk.le_length.trans (hl.trans_le hle),
          (EndsAt.iff_of_prefix hpre hk.le_length).mp hk⟩)⟩
      · rw [if_neg (hl ▸ mt (requestComplete_iff hb).mp hk)]
        have h' : Reading request (c.receive ((x :: xs).take c.room))
            (unread ((x :: xs).drop c.room) rest)
            (got ++ (x :: xs).take c.room) :=
          ⟨hb, hl, hle, hreq, not_exists.mp hk, h.idle⟩
        by_cases hx : c.room < xs.length + 1
        · rw [if_pos hx]
          refine ⟨rfl, .inr (.inr ⟨rfl, h'.dropped_of_room ?_⟩)⟩
          show requestSize - 1 - (c.requestLength
            + ((x :: xs).take c.room).length) = 0
          rw [List.length_take, List.length_cons]
          unfold Client.room at hx ⊢
          omega
        · rw [if_neg hx]
          rw [List.take_of_length_le (by rw [List.length_cons]; omega),
            List.drop_of_length_le (by rw [List.length_cons]; omega)] at h'
          rw [List.take_of_length_le (by rw [List.length_cons]; omega)]
          obtain ⟨hc, hi⟩ := ih h'
          refine ⟨hc, hi.imp_left fun ⟨hb, hl, hrest, hg⟩ => ⟨hb, hl, ?_, hg⟩⟩
          exact hrest.imp_left fun hlt => Nat.lt_succ_of_lt hlt

end Receive

/-! ## Sending -/

/-- A call of `send` that is no reason to give up. -/
def SendAttempt.Works : SendAttempt → Prop
  | .failed => False
  | .brokenPipe => False
  | .took 0 => False
  | _ => True

/-- The response does not depend on how much of it has been sent. -/
theorem Answering.sent {request reply : Bytes} {c : Client}
    (h : Answering request c reply) (n : ℕ) :
    Answering request { c with responseSent := n } reply :=
  ⟨h.begins, h.length, h.pos, h.le, h.complete⟩

/-- **Nothing is unsent** where all of the response has been sent. -/
theorem Answering.sent_all {request reply : Bytes} {c : Client}
    (h : Answering request c reply) (hle : c.responseSent ≤ reply.length)
    (hu : c.unsent = 0) : c.responseSent = reply.length := by
  unfold Client.unsent at hu
  rw [← h.length] at hu
  exact le_antisymm hle (Nat.le_of_sub_eq_zero hu)

/-- **What the sending loop comes to**: what has been sent is a longer part of
the response, and all of it if the loop has finished. -/
theorem sendLoop_cases {request reply : Bytes} (outbox : List SendAttempt)
    {c : Client} (h : Answering request c reply)
    (hle : c.responseSent ≤ reply.length) :
    let r := sendLoop outbox c
    Answering request r.client reply
      ∧ r.client.connectedAt = c.connectedAt
      ∧ reply.take r.client.responseSent
        = reply.take c.responseSent ++ r.sent
      ∧ r.client.responseSent ≤ reply.length
      ∧ (r.status = .finished → r.client.responseSent = reply.length)
      ∧ ((∀ o ∈ outbox, o.Works) →
        (r.status = .finished ∨ r.status = .blocked)
          ∧ ∀ o ∈ r.rest, o.Works) := by
  have hstop : reply.take c.responseSent
      = reply.take c.responseSent ++ [] := (List.append_nil _).symm
  induction outbox generalizing c with
  | nil =>
    unfold sendLoop
    by_cases hu : c.unsent = 0
    · rw [if_pos hu]
      exact ⟨h, rfl, hstop, hle, fun _ => h.sent_all hle hu,
        fun ho => ⟨.inl rfl, ho⟩⟩
    · rw [if_neg hu]
      exact ⟨h, rfl, hstop, hle, nofun, fun ho => ⟨.inr rfl, ho⟩⟩
  | cons o rest ih =>
    have hrest : (∀ a ∈ o :: rest, a.Works) → ∀ a ∈ rest, a.Works :=
      fun ho a ha => ho a (List.mem_cons_of_mem _ ha)
    unfold sendLoop
    by_cases hu : c.unsent = 0
    · rw [if_pos hu]
      exact ⟨h, rfl, hstop, hle, fun _ => h.sent_all hle hu,
        fun ho => ⟨.inl rfl, ho⟩⟩
    rw [if_neg hu]
    match o with
    | .interrupted =>
      obtain ⟨ha, hc, ht, hl, hf, hw⟩ := ih h hle hstop
      exact ⟨ha, hc, ht, hl, hf, fun ho => hw (hrest ho)⟩
    | .wouldBlock =>
      exact ⟨h, rfl, hstop, hle, nofun, fun ho => ⟨.inr rfl, hrest ho⟩⟩
    | .failed =>
      exact ⟨h, rfl, hstop, hle, nofun,
        fun ho => (ho _ List.mem_cons_self).elim⟩
    | .brokenPipe =>
      exact ⟨h, rfl, hstop, hle, nofun,
        fun ho => (ho _ List.mem_cons_self).elim⟩
    | .took 0 =>
      exact ⟨h, rfl, hstop, hle, nofun,
        fun ho => (ho _ List.mem_cons_self).elim⟩
    | .took (k + 1) =>
      have hn : c.responseSent + min (k + 1) c.unsent ≤ reply.length := by
        unfold Client.unsent
        rw [← h.length]
        omega
      obtain ⟨ha, hc, ht, hl, hf, hw⟩ := ih (h.sent _) hn
        (List.append_nil _).symm
      refine ⟨ha, hc, ?_, hl, hf, fun ho => hw (hrest ho)⟩
      dsimp only at ht ⊢
      rw [ht, h.begins.slice_eq hn, slice, List.take_add, List.append_assoc]

/-- How much the socket takes, in all the calls there will be. -/
def sendable : List SendAttempt → ℕ
  | [] => 0
  | .took k :: rest => k + sendable rest
  | _ :: rest => sendable rest

/-- **The sending loop gets on**: where the socket is going to take what is
unsent, the loop sends all of it, or some calls have been made and the socket is
going to take what is still unsent. -/
theorem sendLoop_sends {outbox : List SendAttempt} {c : Client}
    (ho : ∀ o ∈ outbox, o.Works) (hle : c.unsent ≤ sendable outbox) :
    let r := sendLoop outbox c
    r.status = .finished
      ∨ r.status = .blocked ∧ r.client.unsent ≤ sendable r.rest
        ∧ r.rest.length < outbox.length := by
  induction outbox generalizing c with
  | nil =>
    unfold sendLoop
    rw [if_pos (Nat.le_zero.mp hle)]
    exact .inl rfl
  | cons o rest ih =>
    have hrest : ∀ a ∈ rest, a.Works :=
      fun a ha => ho a (List.mem_cons_of_mem _ ha)
    unfold sendLoop
    by_cases hu : c.unsent = 0
    · rw [if_pos hu]
      exact .inl rfl
    rw [if_neg hu]
    match o with
    | .interrupted =>
      exact (ih hrest hle).imp_right fun h => ⟨h.1, h.2.1,
        Nat.lt_succ_of_lt h.2.2⟩
    | .wouldBlock => exact .inr ⟨rfl, hle, Nat.lt_succ_self _⟩
    | .failed => exact (ho _ List.mem_cons_self).elim
    | .brokenPipe => exact (ho _ List.mem_cons_self).elim
    | .took 0 => exact (ho _ List.mem_cons_self).elim
    | .took (k + 1) =>
      let n := min (k + 1) c.unsent
      have hleft : ({ c with responseSent := c.responseSent + n } :
          Client).unsent ≤ sendable rest := by
        unfold sendable at hle
        unfold Client.unsent at hle
        show c.responseLength - (c.responseSent
          + min (k + 1) (c.responseLength - c.responseSent)) ≤ _
        omega
      exact (ih hrest hleft).imp_right fun h => ⟨h.1, h.2.1,
        Nat.lt_succ_of_lt h.2.2⟩

/-! ## What a tick keeps -/

/-- **What a connection is between two ticks.** The response is that to one of
some snapshots. -/
inductive Phase (request : Bytes) (snapshots : TelemetrySnapshot → Prop)
    (w : Connection) : Prop where
  /-- It is reading, and there is room. -/
  | reading (stays : w.stays = true) {got : Bytes}
    (h : Reading request w.client w.inbox got)
    (room : w.client.requestLength < 1023) (prepared : w.prepared = [])
    (sent : w.sent = [])
  /-- It is answering, or has answered. -/
  | answering {snapshot : TelemetrySnapshot} (hs : snapshots snapshot)
    {reply : Bytes} (hr : reply = replyTo
      (requestValid (some request) request.length) snapshot.toStatus)
    (h : Answering request w.client reply) (prepared : w.prepared = [reply])
    (sent : w.sent = reply.take w.client.responseSent)
    (le : w.client.responseSent ≤ reply.length)
    (all : w.stays = false → w.client.responseSent = reply.length)
  /-- It has been removed without an answer. -/
  | dropped (stays : w.stays = false) (h : Dropped request w.client)
    (prepared : w.prepared = []) (sent : w.sent = [])

/-- **A connection that does not depend on `recv` any more**, if not because
there is nothing left to read. -/
def Connection.Done (w : Connection) : Prop :=
  w.stays = false ∨ w.prepared ≠ [] ∨ w.inbox = []

section Tick

variable {request : Bytes} {snapshots : TelemetrySnapshot → Prop}
  {w : Connection} {t : Tick}

section Cases

variable (heap : Heap) (status : Option TelemetryStatus) (now : ℤ)
  (inbox : List RecvOutcome) (outbox : List SendAttempt) {c : Client}

/-- A client with a response sends. -/
theorem clientTick_answering (h : c.responseLength ≠ 0) :
    clientTick heap status now inbox outbox c
      = ⟨decide ((sendLoop outbox c).status = .killed),
        decide ((sendLoop outbox c).status = .blocked
          ∧ ¬ TimedOut (sendLoop outbox c).client.connectedAt now),
        (sendLoop outbox c).client, [], (sendLoop outbox c).sent, inbox,
        (sendLoop outbox c).rest⟩ := by
  simp [clientTick, h]

variable {r : Received} (h : c.responseLength = 0)
  (hr : receiveLoop heap status inbox c = r)
include h hr

/-- One whose receiving loop gives up is removed. -/
theorem clientTick_closed (hs : r.status = .closed) :
    clientTick heap status now inbox outbox c
      = ⟨false, false, r.client, [], [], r.rest, outbox⟩ := by
  simp [clientTick, h, hr, hs]

/-- One that has to wait for more does so. -/
theorem clientTick_blocked (hs : r.status = .blocked)
    (h' : r.client.responseLength = 0) :
    clientTick heap status now inbox outbox c
      = ⟨false, decide (¬ TimedOut r.client.connectedAt now), r.client, [], [],
        r.rest, outbox⟩ := by
  simp [clientTick, h, hr, hs, h']

/-- One that has received the request prepares a response and sends. -/
theorem clientTick_finished (hs : r.status = .finished)
    (h' : r.client.responseLength ≠ 0) :
    clientTick heap status now inbox outbox c
      = ⟨decide ((sendLoop outbox r.client).status = .killed),
        decide ((sendLoop outbox r.client).status = .blocked
          ∧ ¬ TimedOut (sendLoop outbox r.client).client.connectedAt now),
        (sendLoop outbox r.client).client,
        [r.client.response.bytes.take r.client.responseLength],
        (sendLoop outbox r.client).sent, r.rest,
        (sendLoop outbox r.client).rest⟩ := by
  simp [clientTick, h, hr, hs, h']

end Cases

/-- **A connection that has sent** what it could of a response. -/
theorem phase_of_send {snapshot : TelemetrySnapshot} (hs : snapshots snapshot)
    {reply : Bytes} (hr : reply = replyTo
      (requestValid (some request) request.length) snapshot.toStatus)
    {c : Client} (h : Answering request c reply)
    (hle : c.responseSent ≤ reply.length) {outbox : List SendAttempt}
    (ho : ∀ o ∈ outbox, o.Works) {now : ℤ}
    (ht : ¬ TimedOut c.connectedAt now) {w : Connection}
    (hstays : w.stays = decide ((sendLoop outbox c).status = .blocked
      ∧ ¬ TimedOut (sendLoop outbox c).client.connectedAt now))
    (hclient : w.client = (sendLoop outbox c).client)
    (hprepared : w.prepared = [reply])
    (hsent : w.sent = reply.take c.responseSent ++ (sendLoop outbox c).sent) :
    Phase request snapshots w := by
  obtain ⟨ha, hc, htake, hl, hf, hw⟩ := sendLoop_cases outbox h hle
  refine .answering hs hr (hclient ▸ ha) hprepared ?_ (hclient ▸ hl) fun hd => ?_
  · rw [hsent, hclient, htake]
  · rw [hstays, hc] at hd
    rw [hclient]
    rcases (hw ho).1 with hst | hst
    · exact hf hst
    · exact absurd ⟨hst, ht⟩ (of_decide_eq_false hd)

/-- **A tick of a connection that is reading.** -/
theorem Reading.tick {got : Bytes} (h : Reading request w.client w.inbox got)
    (hstays : w.stays = true) (hprepared : w.prepared = [])
    (hsent : w.sent = []) (ho : ∀ o ∈ w.outbox, o.Works)
    (hs : snapshots t.snapshot) (ht : ¬ TimedOut w.client.connectedAt t.now) :
    Phase request snapshots (w.tick t)
      ∧ (∀ o ∈ (w.tick t).outbox, o.Works)
      ∧ (w.tick t).client.connectedAt = w.client.connectedAt
      ∧ ((w.tick t).Done
        ∨ (w.tick t).inbox.length < w.inbox.length) := by
  obtain ⟨hc, hcases⟩ := receiveLoop_cases t.held t.heap h
  unfold Connection.tick
  rw [if_pos hstays, hprepared, hsent]
  cases hr : receiveLoop t.heap (some t.snapshot.toStatus) w.inbox w.client
    with | mk st c rest => ?_
  rw [hr] at hc hcases
  dsimp only at hc hcases
  rcases hcases with ⟨rfl, hroom, hrest, got', h'⟩ | ⟨rfl, hzero, ha⟩ | ⟨rfl, hd⟩
  · rw [clientTick_blocked _ _ _ _ _ h.idle hr rfl h'.idle]
    refine ⟨.reading ?_ h' hroom rfl rfl, ho, hc, ?_⟩
    · exact decide_eq_true (hc ▸ ht)
    · exact hrest.symm.imp_left fun h => .inr (.inr h)
  · obtain ⟨_, hc', _, _, _, hw⟩ := sendLoop_cases w.outbox ha
      (by rw [hzero]; exact Nat.zero_le _)
    rw [clientTick_finished _ _ _ _ _ h.idle hr rfl ha.pos.ne']
    refine ⟨phase_of_send hs rfl ha (by rw [hzero]; exact Nat.zero_le _) ho
      (hc ▸ ht) rfl rfl ?_ ?_, (hw ho).2, hc'.trans hc, .inl (.inr (.inl ?_))⟩
    · rw [← ha.length]
      exact congrArg (fun b => [b]) (List.prefix_iff_eq_take.mp ha.begins).symm
    · rw [hzero]
      rfl
    · exact List.cons_ne_nil _ _
  · rw [clientTick_closed _ _ _ _ _ h.idle hr rfl]
    exact ⟨.dropped rfl hd rfl rfl, ho, hc, .inl (.inl rfl)⟩

/-- **What a tick keeps.** The connection is in some phase again, and if it
still depends on `recv`, there is less for it to read. -/
theorem tick_keeps (h : Phase request snapshots w)
    (ho : ∀ o ∈ w.outbox, o.Works) (hs : snapshots t.snapshot)
    (ht : ¬ TimedOut w.client.connectedAt t.now) :
    Phase request snapshots (w.tick t)
      ∧ (∀ o ∈ (w.tick t).outbox, o.Works)
      ∧ (w.tick t).client.connectedAt = w.client.connectedAt
      ∧ ((w.tick t).Done
        ∨ ¬ w.Done ∧ (w.tick t).inbox.length < w.inbox.length) := by
  by_cases hstays : w.stays = true
  · cases h with
    | reading _ h room prepared sent =>
      obtain ⟨hp, ho', hc, hd⟩ := h.tick hstays prepared sent ho hs ht
      refine ⟨hp, ho', hc, hd.imp_right fun hlt => ⟨?_, hlt⟩⟩
      rintro (hd | hd | hd)
      · exact absurd hstays (by rw [hd]; exact Bool.false_ne_true)
      · exact hd prepared
      · rw [hd] at hlt
        exact absurd hlt (Nat.not_lt_zero _)
    | @answering snapshot hs reply hr h prepared sent le all =>
      obtain ⟨_, hc, _, _, _, hw⟩ := sendLoop_cases w.outbox h le
      unfold Connection.tick
      rw [if_pos hstays, clientTick_answering _ _ _ _ _ h.pos.ne']
      refine ⟨phase_of_send hs hr h le ho ht rfl rfl ?_ ?_, (hw ho).2, hc,
        .inl (.inr (.inl ?_))⟩
      · rw [prepared]
        rfl
      · rw [sent]
      · rw [prepared]
        exact List.cons_ne_nil _ _
    | dropped stays h prepared sent =>
      exact absurd hstays (by rw [stays]; exact Bool.false_ne_true)
  · have he : w.tick t = w := if_neg hstays
    rw [he]
    exact ⟨h, ho, rfl, .inl (.inl (Bool.eq_false_iff.mpr hstays))⟩

end Tick

/-! ## Runs -/

/-- **What a run keeps.** -/
theorem run_keeps {request : Bytes} {snapshots : TelemetrySnapshot → Prop}
    {w : Connection} (h : Phase request snapshots w)
    (ho : ∀ o ∈ w.outbox, o.Works) {ticks : List Tick}
    (hs : ∀ t ∈ ticks, snapshots t.snapshot)
    (ht : ∀ t ∈ ticks, ¬ TimedOut w.client.connectedAt t.now) :
    Phase request snapshots (connections.run w ticks)
      ∧ ((connections.run w ticks).Done ∨ ¬ w.Done
        ∧ (connections.run w ticks).inbox.length + ticks.length
          ≤ w.inbox.length) := by
  induction ticks generalizing w with
  | nil => exact ⟨h, (em w.Done).imp_right fun hd => ⟨hd, le_rfl⟩⟩
  | cons t ticks ih =>
    obtain ⟨hp, ho', hc, hd⟩ := tick_keeps h ho (hs t List.mem_cons_self)
      (ht t List.mem_cons_self)
    obtain ⟨hp', hd'⟩ := ih hp ho'
      (fun t h => hs t (List.mem_cons_of_mem _ h))
      (fun t h => hc ▸ ht t (List.mem_cons_of_mem _ h))
    refine ⟨hp', ?_⟩
    rcases hd' with hd' | ⟨hnot, hle⟩
    · exact .inl hd'
    · obtain ⟨hnot', hlt⟩ := hd.resolve_left hnot
      refine .inr ⟨hnot', ?_⟩
      rw [List.length_cons]
      exact (Nat.succ_le_succ hle).trans hlt

/-- **A tick of a connection that is answering** gets on with the response: all
of it has been sent, or some calls have been made and the socket is going to
take the rest. -/
theorem Answering.tick {request reply : Bytes} {w : Connection} {t : Tick}
    (h : Answering request w.client reply) (hstays : w.stays = true)
    (hle : w.client.responseSent ≤ reply.length)
    (ho : ∀ o ∈ w.outbox, o.Works)
    (hs : w.client.unsent ≤ sendable w.outbox) :
    let w' := w.tick t
    Answering request w'.client reply ∧ w'.client.responseSent ≤ reply.length
      ∧ (∀ o ∈ w'.outbox, o.Works)
      ∧ (w'.stays = true → w'.client.unsent ≤ sendable w'.outbox
        ∧ w'.outbox.length < w.outbox.length) := by
  obtain ⟨ha, _, _, hl, _, hw⟩ := sendLoop_cases w.outbox h hle
  unfold Connection.tick
  rw [if_pos hstays, clientTick_answering _ _ _ _ _ h.pos.ne']
  refine ⟨ha, hl, (hw ho).2, fun hstays' => ?_⟩
  have hblocked := (of_decide_eq_true hstays').1
  rcases sendLoop_sends ho hs with hf | ⟨_, hunsent, hlt⟩
  · rw [hf] at hblocked
    cases hblocked
  · exact ⟨hunsent, hlt⟩

/-- **A connection gets its answer**: one that is answering, with a socket that
is going to take what is unsent, is gone after one tick more than there are
outcomes of `send`, however few bytes these take. -/
theorem answered_of_run {request reply : Bytes} {w : Connection}
    (h : Answering request w.client reply)
    (hle : w.client.responseSent ≤ reply.length)
    (ho : ∀ o ∈ w.outbox, o.Works)
    (hs : w.client.unsent ≤ sendable w.outbox) {ticks : List Tick}
    (hlen : w.outbox.length < ticks.length) :
    (connections.run w ticks).stays = false := by
  induction ticks generalizing w with
  | nil => exact absurd hlen (Nat.not_lt_zero _)
  | cons t ticks ih =>
    have hgone : ∀ {w : Connection}, w.stays = false → ∀ ticks,
        (connections.run w ticks).stays = false := fun hw ticks =>
      connections.run_induction (P := fun w => w.stays = false)
        (fun w t hw => by
          show (w.tick t).stays = false
          unfold Connection.tick
          rw [if_neg (by rw [hw]; exact Bool.false_ne_true)]
          exact hw) hw ticks
    rw [Machine.run_cons]
    cases hstays : w.stays with
    | false => exact hgone hstays (t :: ticks)
    | true =>
      obtain ⟨h', hle', ho', hon⟩ := h.tick (t := t) hstays hle ho hs
      cases hstays' : (w.tick t).stays with
      | false => exact hgone hstays' ticks
      | true =>
        obtain ⟨hs', hlt⟩ := hon hstays'
        exact ih h' hle' ho' hs' (hlt.trans_le (Nat.le_of_lt_succ hlen))

/-- **Telemetry connections do not depend on the chunks.** However the request
is cut, whatever the ticks, and however little the socket takes at a time: at
most 1023 bytes are received; at most one response is prepared, and once the
connection does not depend on `recv` any more, it is prepared exactly if a
blank line ends in the first 1023 bytes of the request; which of the two it is
depends on the request. A connection with as many bytes and no blank line is
removed with nothing sent. What is sent is the response from its beginning, and
all of it if the connection has been removed. After as many ticks as `recv` has
outcomes the connection does not depend on it any more. -/
theorem telemetry_connection (connectedAt : ℤ) (inbox : List RecvOutcome)
    (outbox : List SendAttempt) (ticks : List Tick)
    (ho : ∀ o ∈ outbox, o.Works)
    (ht : ∀ t ∈ ticks, ¬ TimedOut connectedAt t.now) :
    let request := stream inbox
    let w := connections.run (.accepted connectedAt inbox outbox) ticks
    w.client.requestLength ≤ 1023
      ∧ w.prepared.length ≤ 1
      ∧ (w.prepared.length = 1 → ∃ k ≤ 1023, EndsAt request k)
      ∧ (w.Done → (w.prepared.length = 1 ↔ ∃ k ≤ 1023, EndsAt request k))
      ∧ (∀ reply ∈ w.prepared, ∃ t ∈ ticks, reply = replyTo
        (requestValid (some request) request.length) t.snapshot.toStatus)
      ∧ (1023 ≤ request.length → (∀ k ≤ 1023, ¬ EndsAt request k) →
        w.prepared = [] ∧ w.sent = [] ∧ (w.Done → w.stays = false))
      ∧ w.sent <+: w.prepared.flatten
      ∧ (w.stays = false → w.sent = w.prepared.flatten)
      ∧ (inbox.length ≤ ticks.length → w.Done) := by
  intro request w
  have h₀ : Phase request (fun s => ∃ t ∈ ticks, t.snapshot = s)
      (.accepted connectedAt inbox outbox) :=
    .reading rfl ⟨List.nil_prefix, rfl, Nat.zero_le _, rfl,
      fun k h => absurd (h.four_le.trans h.le_length) (by decide), rfl⟩
      (show 0 < 1023 by decide) rfl rfl
  obtain ⟨h, hd⟩ := run_keeps h₀ ho (fun t h => ⟨t, h, rfl⟩) ht
  change Phase request _ w at h
  have hdone : inbox.length ≤ ticks.length → w.Done := by
    intro hle
    refine hd.elim id fun ⟨_, hlen⟩ => .inr (.inr ?_)
    exact List.length_eq_zero_iff.mp
      (show w.inbox.length = 0 by
        change w.inbox.length + ticks.length ≤ inbox.length at hlen; omega)
  cases h with
  | @reading stays got h room prepared sent =>
    -- what it has received is the request, if there is nothing left
    have hgot : w.Done → request = got := by
      rintro (hd | hd | hd)
      · exact absurd stays (by rw [hd]; exact Bool.false_ne_true)
      · exact absurd prepared hd
      · rw [h.request_eq, hd]
        exact List.append_nil got
    rw [prepared, sent]
    refine ⟨h.le, Nat.zero_le _, nofun, fun hd => ?_, nofun,
      fun hl _ => ⟨rfl, rfl, fun hd => ?_⟩, List.nil_prefix, fun _ => rfl, hdone⟩
    · rw [hgot hd]
      exact iff_of_false nofun fun ⟨k, _, he⟩ => h.incomplete k he
    · rw [hgot hd, h.length] at hl
      exact absurd room (Nat.not_lt_of_le hl)
  | @answering snapshot hs reply hr h prepared sent le all =>
    rw [prepared, sent]
    refine ⟨h.le, le_rfl, fun _ => h.complete, fun _ => iff_of_true rfl h.complete,
      fun reply' hm => ?_, fun _ hk => ?_, ?_, fun hd => ?_, hdone⟩
    · obtain ⟨t, ht, rfl⟩ := hs
      exact ⟨t, ht, (List.mem_singleton.mp hm).trans hr⟩
    · obtain ⟨k, hle, he⟩ := h.complete
      exact absurd he (hk k hle)
    · rw [List.flatten_singleton]
      exact List.take_prefix _ _
    · rw [all hd, List.take_length, List.flatten_singleton]
  | dropped stays h prepared sent =>
    rw [prepared, sent]
    exact ⟨h.le, Nat.zero_le _, nofun,
      fun _ => iff_of_false nofun fun ⟨k, hk, he⟩ => h.incomplete k hk he, nofun,
      fun _ _ => ⟨rfl, rfl, fun _ => stays⟩, List.nil_prefix, fun _ => rfl, hdone⟩

/-- A request in two parts, the first of which ends inside the blank line, with
a signal between them. -/
def cutRequest : List RecvOutcome :=
  unread (ascii "GET / HTTP/1.0\r\n\r") [.wouldBlock, .interrupted,
    .data Http.lf []]

/-- A tick with the first snapshot. -/
def firstTick : Tick where
  heap := ⟨[], fun _ => 0⟩
  snapshot := .zero
  held := held_foldl_snapshotPublish []
  now := 1

/-- **It is answered**, although it has been cut there. -/
theorem telemetry_connection_cutRequest :
    (connections.run (.accepted 1 cutRequest [.took 7, .wouldBlock])
      (List.replicate 4 firstTick)).prepared.length = 1 := by
  obtain ⟨_, _, _, hiff, _, _, _, _, hdone⟩ := telemetry_connection 1 cutRequest
    [.took 7, .wouldBlock] (List.replicate 4 firstTick)
    (by
      intro o h
      simp only [List.mem_cons, List.not_mem_nil, or_false] at h
      rcases h with rfl | rfl
      · trivial
      · trivial)
    (fun t h => by rw [List.eq_of_mem_replicate h]; decide)
  exact (hiff (hdone (by decide))).mpr ⟨18, by decide, by decide⟩

end Telemetry
