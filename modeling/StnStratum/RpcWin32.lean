import StnStratum.ChainTraffic
import StnStratum.Printf

/-!
# The Windows transport

`stn_rpc_win32.c` does over again what `stn_rpc_linux.c` does, and is not
compiled together with it. Three things are different. Winsock has to be
started before there can be a socket, and `stn_rpc_win32_close` cleans it up.
The calls of `send` and `recv` take an `int`, so that they are made for
`INT_MAX` bytes at most. And no call is interrupted by a signal: where it is
broken off, it has failed.

None of that can be told from outside. Whatever network the Windows transport
is on, there is a network on which the Linux transport carries the same
exchanges with the same bytes on the same connections, attempt by attempt
(`RpcWin32.carried_linux`), so that what has been proved of the one is known
of the other.

What the transport calls Winsock for it writes down. `Winsock` is what Winsock
makes of it, and has nothing to say to a call that is out of order.
-/

open Printf (intMax)

/-! ## Winsock -/

/-- **A call of Winsock.** -/
inductive WinsockCall where
  /-- `WSAStartup`, and whether it succeeds. -/
  | startup (ok : Bool)
  /-- `WSACleanup`. -/
  | cleanup
  /-- `getaddrinfo`. -/
  | resolve
  /-- `socket`, and the socket, if there is one. -/
  | socket (n : Option ℕ)
  /-- `connect`, `setsockopt`, or as many calls of `send` or `recv` as there
  are. -/
  | use (n : ℕ)
  /-- `closesocket`. -/
  | close (n : ℕ)
  deriving DecidableEq

/-- **What Winsock knows of its user.** -/
structure Winsock where
  /-- How often it has been started and not cleaned up. -/
  started : ℕ
  /-- The sockets there are. -/
  sockets : List ℕ
  deriving DecidableEq

namespace Winsock

/-- **What a call comes to**, if it is in order: Winsock has to be started,
the socket has to be one, and the last to clean up has to have closed its
sockets. -/
def call (w : Winsock) : WinsockCall → Option Winsock
  | .startup ok => some { w with started := w.started + ok.toNat }
  | .cleanup =>
    if w.started = 0 ∨ w.started = 1 ∧ w.sockets ≠ [] then none
    else some { w with started := w.started - 1 }
  | .resolve => if w.started = 0 then none else some w
  | .socket none => if w.started = 0 then none else some w
  | .socket (some n) =>
    if w.started = 0 ∨ n ∈ w.sockets then none
    else some { w with sockets := n :: w.sockets }
  | .use n => if n ∈ w.sockets then some w else none
  | .close n =>
    if n ∈ w.sockets then some { w with sockets := w.sockets.erase n }
    else none

/-- **What a list of calls comes to**, if all of them are in order. -/
def calls (w : Winsock) : List WinsockCall → Option Winsock
  | [] => some w
  | c :: cs => (w.call c).bind fun w => w.calls cs

theorem calls_append (w : Winsock) (cs ds : List WinsockCall) :
    w.calls (cs ++ ds) = (w.calls cs).bind fun w => w.calls ds := by
  induction cs generalizing w with
  | nil => rfl
  | cons c cs ih =>
    show (w.call c).bind _ = ((w.call c).bind _).bind _
    rw [Option.bind_assoc]
    exact congrArg _ (funext ih)

section One

variable (k n : ℕ) (cs : List WinsockCall)

/-- A socket that there is may be used. -/
@[simp] theorem calls_use : (⟨k, [n]⟩ : Winsock).calls (.use n :: cs)
    = (⟨k, [n]⟩ : Winsock).calls cs := by
  rw [calls, call, if_pos (List.mem_singleton_self n)]
  rfl

/-- It may be closed. -/
@[simp] theorem calls_close : (⟨k, [n]⟩ : Winsock).calls (.close n :: cs)
    = (⟨k, []⟩ : Winsock).calls cs := by
  rw [calls, call, if_pos (List.mem_singleton_self n), List.erase_cons_head]
  rfl

/-- Where Winsock is started there may be one. -/
@[simp] theorem calls_socket :
    (⟨k + 1, []⟩ : Winsock).calls (.socket (some n) :: cs)
      = (⟨k + 1, [n]⟩ : Winsock).calls cs := by
  rw [calls, call, if_neg (by simp)]
  rfl

@[simp] theorem calls_noSocket :
    (⟨k + 1, []⟩ : Winsock).calls (.socket none :: cs)
      = (⟨k + 1, []⟩ : Winsock).calls cs := rfl

@[simp] theorem calls_resolve :
    (⟨k + 1, []⟩ : Winsock).calls (.resolve :: cs)
      = (⟨k + 1, []⟩ : Winsock).calls cs := rfl

end One

end Winsock

/-! ## The loops -/

/-- **The Windows `send_all`.** A call is made for `INT_MAX` bytes at most. -/
def sendChunks : List SendOutcome → Bytes → SendResult
  | outcomes, [] => ⟨true, [], outcomes⟩
  | [], p => ⟨true, p, []⟩
  | .interrupted :: rest, _ => ⟨false, [], rest⟩
  | .failed :: rest, _ => ⟨false, [], rest⟩
  | .took 0 :: rest, _ => ⟨false, [], rest⟩
  | .took (k + 1) :: rest, p =>
    let sent := min (k + 1) intMax
    let r := sendChunks rest (p.drop sent)
    ⟨r.ok, p.take sent ++ r.sent, r.rest⟩

/-- The Windows `recv_all` with a bound on the calls. -/
def recvChunksAux : ℕ → List RecvOutcome → ℕ → ℕ → RecvResult
  | _, inbox, _, 0 => ⟨.filled, [], [], inbox⟩
  | 0, inbox, _, _ + 1 => ⟨.blocked, [], [], inbox⟩
  | _ + 1, [], off, n + 1 => ⟨.blocked, [], [(off, min (n + 1) intMax)], []⟩
  | _ + 1, .wouldBlock :: rest, off, n + 1 =>
    ⟨.blocked, [], [(off, min (n + 1) intMax)], rest⟩
  | _ + 1, .closed :: rest, off, n + 1 =>
    ⟨.closed, [], [(off, min (n + 1) intMax)], rest⟩
  | _ + 1, .failed :: rest, off, n + 1 =>
    ⟨.failed, [], [(off, min (n + 1) intMax)], rest⟩
  | _ + 1, .interrupted :: rest, off, n + 1 =>
    ⟨.failed, [], [(off, min (n + 1) intMax)], rest⟩
  | calls + 1, .data x xs :: rest, off, n + 1 =>
    let chunk := min (n + 1) intMax
    let got := (x :: xs).take chunk
    let r := recvChunksAux calls (unread ((x :: xs).drop chunk) rest)
      (off + got.length) (n + 1 - got.length)
    ⟨r.status, got ++ r.got, (off, chunk) :: r.asks, r.rest⟩

/-- **The Windows `recv_all`.** A call is made for `INT_MAX` bytes at most.
Every call but the last receives one at least, so that as many calls are
enough as there are bytes to receive. -/
def recvChunks (inbox : List RecvOutcome) (off n : ℕ) : RecvResult :=
  recvChunksAux n inbox off n

/-! ## The transport -/

/-- **What an attempt to connect will come to** on Windows. -/
structure WinsockTry extends ConnectTry where
  /-- Whether Winsock can be started, if it has to be. -/
  startup : Bool
  deriving DecidableEq

/-- **`stn_rpc_win32`**, with what the network will do and what has been
done. -/
structure RpcWin32 where
  /-- The host, once there is one. -/
  host : Option Bytes
  /-- The port. -/
  port : UInt16
  /-- `socket_handle`, if it is not `INVALID_SOCKET`. -/
  socket : Option ChainSocket
  /-- `winsock_ready`. -/
  ready : Bool
  /-- What the attempts to connect will come to. Once the list is used up,
  nothing succeeds. -/
  tries : List WinsockTry
  /-- The connections opened so far. -/
  opened : ℕ
  /-- The exchanges so far, the latest first. -/
  log : List Exchange
  /-- The calls of Winsock so far, in order. -/
  calls : List WinsockCall
  deriving DecidableEq

namespace RpcWin32

/-- Calls of Winsock are written down. -/
def called (t : RpcWin32) (cs : List WinsockCall) : RpcWin32 :=
  { t with calls := t.calls ++ cs }

/-- `drop_socket`. -/
def dropSocket (t : RpcWin32) : RpcWin32 :=
  match t.socket with
  | none => t
  | some s => { t with socket := none }.called [.close s.number]

/-- **`ensure_winsock`.** `winsock_ready` says afterwards whether it is. -/
def ensureWinsock (t : RpcWin32) (startup : Bool) : RpcWin32 :=
  if t.ready = true then t
  else { t with ready := startup }.called [.startup startup]

/-- The calls of the loop of `connect_socket`, with the number that a
connection would get. -/
def addressCalls (n : ℕ) : List AddressTry → List WinsockCall
  | [] => []
  | .noSocket :: rest => .socket none :: addressCalls n rest
  | .refused :: rest =>
    .socket (some n) :: .use n :: .close n :: addressCalls n rest
  | .connected _ _ :: _ => [.socket (some n), .use n]

/-- `connect_socket` behind `ensure_winsock`. -/
def dial (t : RpcWin32) (next : ConnectTry) : RpcWin32 :=
  match next.addresses with
  | none => t.called [.resolve]
  | some addresses =>
    let t := t.called (.resolve :: addressCalls t.opened addresses)
    match RpcLinux.firstConnected addresses with
    | none => t
    | some c =>
      let t := t.called [.use t.opened]
      if next.timeouts then
        { t with
          socket := some ⟨t.opened, c.1, c.2⟩
          opened := t.opened + 1 }
      else { t with opened := t.opened + 1 }.called [.close t.opened]

/-- **`connect_socket`**: Winsock is started first, if it is not yet. -/
def connectSocket (t : RpcWin32) : RpcWin32 :=
  match t.socket with
  | some _ => t
  | none =>
    let next := t.tries.headD ⟨⟨none, false⟩, false⟩
    let t := { t with tries := t.tries.tail }.ensureWinsock next.startup
    if t.ready = false then t else t.dial next.toConnectTry

/-- What one attempt leaves. -/
structure Once (m : ℕ) where
  /-- The transport afterwards. -/
  transport : RpcWin32
  /-- What the attempt returns. -/
  reply : Reply m
  /-- What happened. -/
  attempt : Attempt

/-- An attempt that fails on a connection, which is dropped. -/
def failed {m : ℕ} (t : RpcWin32) (s : ChainSocket) (response : Buf m)
    (written read : Bytes) : Once m :=
  ⟨t.dropSocket, ⟨false, response, 0⟩, ⟨some s.number, written, read, false⟩⟩

/-- **`exchange_once`.** -/
def exchangeOnce {m : ℕ} (t : RpcWin32) (request : Bytes) (response : Buf m) :
    Once m :=
  let t := t.connectSocket
  match t.socket with
  | none => ⟨t, ⟨false, response, 0⟩, ⟨none, [], [], false⟩⟩
  | some s =>
    let t := t.called [.use s.number]
    let out := sendChunks s.sends request
    if out.ok = false then failed t s response out.sent []
    else
      let head := recvChunks s.recvs 0 24
      let response := response.write 0 head.got
      if head.status ≠ .filled then failed t s response out.sent head.got
      else
        let payloadLength := readBE (slice response.bytes 20 4)
        if m < 24 + payloadLength then failed t s response out.sent head.got
        else
          let body := recvChunks head.rest 24 payloadLength
          let response := response.write 24 body.got
          if body.status ≠ .filled then
            failed t s response out.sent (head.got ++ body.got)
          else
            ⟨{ t with socket := some ⟨s.number, out.rest, body.rest⟩ },
              ⟨true, response, 24 + payloadLength⟩,
              ⟨some s.number, out.sent, head.got ++ body.got, true⟩⟩

/-- The transport once an exchange is written down. -/
def record (t : RpcWin32) (request : Bytes) (capacity : ℕ)
    (attempts : List Attempt) : RpcWin32 :=
  { t with log := ⟨request, capacity, attempts⟩ :: t.log }

/-- **`stn_rpc_win32_exchange`**: one attempt, and where that fails and the
request may be sent again, a second. -/
def exchange {m : ℕ} (t : RpcWin32) (request : Bytes) (response : Buf m) :
    RpcWin32 × Reply m :=
  if t.host = none ∨ m < 24 then
    (t.record request m [], ⟨false, response, 0⟩)
  else
    let first := t.exchangeOnce request response
    if first.reply.ok = true then
      (first.transport.record request m [first.attempt], first.reply)
    else if RpcLinux.mayRetry request = false then
      (first.transport.record request m [first.attempt], first.reply)
    else
      let second := first.transport.exchangeOnce request first.reply.response
      (second.transport.record request m [first.attempt, second.attempt],
        second.reply)

/-- `stn_rpc_win32_init`. -/
def init (t : RpcWin32) (host : Bytes) (port : UInt16) : RpcWin32 :=
  { t with host := some host, port := port, socket := none, ready := false }

/-- **`stn_rpc_win32_close`.** -/
def close (t : RpcWin32) : RpcWin32 :=
  let t := t.dropSocket
  if t.ready = true then { t with ready := false }.called [.cleanup] else t

/-- **The Windows transport**, as the client sees it. -/
def transport : ChainTransport RpcWin32 where
  init := RpcWin32.init
  close := close
  exchange := RpcWin32.exchange

end RpcWin32

/-! ## The same network on Linux -/

/-- What a call of `send` would return on Linux: no call is interrupted, and
none takes more than `INT_MAX` bytes. -/
def SendOutcome.posix : SendOutcome → SendOutcome
  | .took k => .took (min k intMax)
  | _ => .failed

/-- What a call of `recv` would return on Linux: none is interrupted. -/
def RecvOutcome.posix : RecvOutcome → RecvOutcome
  | .interrupted => .failed
  | o => o

/-- A connection with these calls. -/
def ChainSocket.posix (s : ChainSocket) : ChainSocket :=
  ⟨s.number, s.sends.map .posix, s.recvs.map .posix⟩

/-- An address with these calls. -/
def AddressTry.posix : AddressTry → AddressTry
  | .connected sends recvs => .connected (sends.map .posix) (recvs.map .posix)
  | a => a

/-- **The Windows `send_all` writes what the Linux one would.** -/
theorem sendAll_posix (outcomes : List SendOutcome) (p : Bytes) :
    sendAll true (outcomes.map .posix) p
      = ⟨(sendChunks outcomes p).ok, (sendChunks outcomes p).sent,
          (sendChunks outcomes p).rest.map .posix⟩ := by
  fun_induction sendChunks outcomes p with
  | case1 outcomes =>
    cases outcomes with
    | nil => rfl
    | cons o rest => rw [List.map_cons, sendAll]
  | case2 p hp =>
    cases p with
    | nil => exact absurd rfl hp
    | cons x p => rfl
  | case6 k rest p hp sent r ih =>
    cases p with
    | nil => exact absurd rfl hp
    | cons x p =>
      have hsent : sent = min k (intMax - 1) + 1 := by
        show min (k + 1) intMax = _
        have hmax : 0 < intMax := by decide
        omega
      have hposix : SendOutcome.posix (.took (k + 1))
          = .took (min k (intMax - 1) + 1) := congrArg _ hsent
      rw [List.map_cons, hposix, sendAll, ← hsent, ih]
      exact hp
  | _ =>
    rename_i p hp
    cases p with
    | nil => exact absurd rfl hp
    | cons x p => rfl

/-- What is put back is bytes. -/
theorem map_posix_unread (b : Bytes) (rest : List RecvOutcome) :
    (unread b rest).map .posix = unread b (rest.map .posix) := by
  cases b <;> rfl

/-- A call for fewer bytes than there are takes the front of them, and the
loop goes on with the rest. -/
theorem recvLoop_cut (x : UInt8) (xs : Bytes) (rest : List RecvOutcome)
    (off : ℕ) {n c : ℕ} (hc : 0 < c) (hn : c ≤ n + 1) :
    let got := (x :: xs).take c
    let r := recvLoop true (unread ((x :: xs).drop c) rest)
      (off + got.length) (n + 1 - got.length)
    (recvLoop true (.data x xs :: rest) off (n + 1)).status = r.status
      ∧ (recvLoop true (.data x xs :: rest) off (n + 1)).got = got ++ r.got
      ∧ (recvLoop true (.data x xs :: rest) off (n + 1)).rest = r.rest := by
  obtain ⟨d, rfl⟩ := Nat.exists_eq_succ_of_ne_zero hc.ne'
  have hd : d ≤ n := Nat.le_of_succ_le_succ hn
  dsimp only
  rw [List.take_succ_cons, List.drop_succ_cons]
  by_cases hlen : d < xs.length
  · obtain ⟨front, y, ys, rfl, rfl⟩ :
        ∃ front y ys, xs = front ++ y :: ys ∧ front.length = d :=
      ⟨xs.take d, xs[d], xs.drop (d + 1), by
        rw [← List.drop_eq_getElem_cons hlen, List.take_append_drop],
        List.length_take_of_le hlen.le⟩
    rw [List.take_left, List.drop_left, unread, List.length_cons,
      Nat.add_sub_add_right]
    obtain ⟨k, rfl⟩ := Nat.exists_eq_add_of_le hd
    rw [Nat.add_sub_cancel_left, recvLoop, List.length_append, List.length_cons]
    cases k with
    | zero =>
      rw [if_pos (by omega), recvLoop, List.append_nil, Nat.add_zero,
        List.take_left, List.drop_left]
      exact ⟨rfl, rfl, rfl⟩
    | succ k =>
      rw [recvLoop]
      by_cases hk : k < ys.length
      · rw [if_pos (by omega), if_pos hk, List.take_length_add_append,
          List.drop_length_add_append]
        exact ⟨rfl, rfl, rfl⟩
      · rw [if_neg (by omega), if_neg hk]
        have hoff : off + (front.length + (ys.length + 1) + 1)
            = off + (front.length + 1) + (ys.length + 1) := by omega
        have hleft : front.length + (k + 1) - (front.length + (ys.length + 1))
            = k - ys.length := by omega
        rw [hoff, hleft]
        refine ⟨rfl, ?_, rfl⟩
        simp only [List.cons_append, List.append_assoc]
  · rw [recvLoop, if_neg (by omega), List.drop_of_length_le (by omega),
      List.take_of_length_le (by omega), unread, List.length_cons,
      Nat.add_sub_add_right]
    exact ⟨rfl, rfl, rfl⟩

/-- The Windows `recv_all` reads what the Linux one would, if it may make as
many calls as there are bytes to receive. -/
theorem recvChunksAux_posix (calls : ℕ) (inbox : List RecvOutcome)
    (off n : ℕ) (hcalls : n ≤ calls) :
    (recvLoop true (inbox.map .posix) off n).status
        = (recvChunksAux calls inbox off n).status
      ∧ (recvLoop true (inbox.map .posix) off n).got
        = (recvChunksAux calls inbox off n).got
      ∧ (recvLoop true (inbox.map .posix) off n).rest
        = (recvChunksAux calls inbox off n).rest.map .posix := by
  fun_induction recvChunksAux calls inbox off n with
  | case1 calls inbox off =>
    rw [recvLoop]
    exact ⟨rfl, rfl, rfl⟩
  | case2 inbox off n => exact absurd hcalls (Nat.not_succ_le_zero n)
  | case8 calls x xs rest off n chunk got r ih =>
    have hmax : 0 < intMax := by decide
    have hchunk : 0 < chunk := lt_min (Nat.succ_pos n) hmax
    have hgot : 0 < got.length := by
      rw [List.length_take, List.length_cons]
      exact lt_min hchunk (Nat.succ_pos _)
    obtain ⟨h₁, h₂, h₃⟩ := recvLoop_cut x xs (rest.map .posix) off hchunk
      (Nat.min_le_left (n + 1) intMax)
    have ih := ih (by omega)
    rw [map_posix_unread] at ih
    obtain ⟨ih₁, ih₂, ih₃⟩ := ih
    exact ⟨h₁.trans ih₁, h₂.trans (congrArg _ ih₂), h₃.trans ih₃⟩
  | _ => exact ⟨rfl, rfl, rfl⟩

/-- **The Windows `recv_all` reads what the Linux one would.** -/
theorem recvLoop_posix (inbox : List RecvOutcome) (off n : ℕ) :
    (recvLoop true (inbox.map .posix) off n).status
        = (recvChunks inbox off n).status
      ∧ (recvLoop true (inbox.map .posix) off n).got
        = (recvChunks inbox off n).got
      ∧ (recvLoop true (inbox.map .posix) off n).rest
        = (recvChunks inbox off n).rest.map .posix :=
  recvChunksAux_posix n inbox off n le_rfl

/-- An attempt to connect with these calls. -/
def ConnectTry.posix (x : ConnectTry) : ConnectTry :=
  ⟨x.addresses.map (List.map .posix), x.timeouts⟩

theorem firstConnected_posix (addresses : List AddressTry) :
    RpcLinux.firstConnected (addresses.map .posix)
      = (RpcLinux.firstConnected addresses).map fun c =>
        (c.1.map .posix, c.2.map .posix) := by
  induction addresses with
  | nil => rfl
  | cons a rest ih =>
    cases a with
    | noSocket => exact ih
    | refused => exact ih
    | connected sends recvs => rfl

namespace RpcWin32

/-- **The transport on Linux**, with what attempts to connect will come to. -/
def linux (t : RpcWin32) (tries : List ConnectTry) : RpcLinux :=
  ⟨t.host, t.port, t.socket.map .posix, tries, t.opened, t.log⟩

/-- What an attempt leaves on Linux. -/
def Once.linux {m : ℕ} (o : Once m) (tries : List ConnectTry) :
    RpcLinux.Once m :=
  ⟨o.transport.linux tries, o.reply, o.attempt⟩

theorem linux_dropSocket (t : RpcWin32) (tries : List ConnectTry) :
    t.dropSocket.linux tries = (t.linux tries).dropSocket := by
  unfold dropSocket RpcLinux.dropSocket linux
  cases hs : t.socket with
  | none => rw [hs]; rfl
  | some s => rfl

theorem linux_close (t : RpcWin32) (tries : List ConnectTry) :
    t.close.linux tries = (t.linux tries).dropSocket := by
  rw [← linux_dropSocket]
  unfold close
  dsimp only
  split <;> rfl

/-- An attempt to connect that gets nowhere. -/
theorem connectSocket_of_none {t : RpcLinux} (hs : t.socket = none)
    {x : ConnectTry} (hx : x.addresses.bind RpcLinux.firstConnected = none)
    (more : List ConnectTry) :
    { t with tries := x :: more }.connectSocket = { t with tries := more } := by
  unfold RpcLinux.connectSocket
  dsimp only
  rw [hs]
  dsimp only
  rw [hx]

/-- The attempts are the same where Winsock is started. -/
theorem dial_linux {t : RpcWin32} (hs : t.socket = none) (next : ConnectTry)
    (more : List ConnectTry) :
    (t.linux (next.posix :: more)).connectSocket
      = (t.dial next).linux more := by
  have hlinux : (t.linux more).socket = none := by rw [linux, hs]; rfl
  unfold dial
  split
  next ha =>
    refine connectSocket_of_none hlinux ?_ more
    rw [ConnectTry.posix, ha]
    rfl
  next addresses ha =>
    have hfirst : next.posix.addresses.bind RpcLinux.firstConnected
        = (RpcLinux.firstConnected addresses).map fun c =>
          (c.1.map .posix, c.2.map .posix) := by
      rw [ConnectTry.posix, ha, ← firstConnected_posix]
      rfl
    dsimp only
    split
    next hc =>
      rw [hc] at hfirst
      exact connectSocket_of_none hlinux hfirst more
    next c hc =>
      rw [hc] at hfirst
      have hdial : (t.linux (next.posix :: more)).connectSocket
          = if next.timeouts then
            { t.linux more with
              socket := some ⟨t.opened, c.1.map .posix, c.2.map .posix⟩
              opened := t.opened + 1 }
            else { t.linux more with opened := t.opened + 1 } := by
        unfold RpcLinux.connectSocket linux
        rw [hs]
        dsimp only [Option.map_none]
        rw [hfirst]
        rfl
      rw [hdial]
      split <;> rfl

/-- **Connecting uses the same attempts**: where Winsock cannot be started, an
attempt at a host that does not resolve. -/
theorem connectSocket_linux (t : RpcWin32) :
    ∃ used, ∀ more, (t.linux (used ++ more)).connectSocket
      = t.connectSocket.linux more := by
  unfold connectSocket
  split
  next s hs =>
    refine ⟨[], fun more => ?_⟩
    unfold RpcLinux.connectSocket linux
    rw [hs]
    rfl
  next hs =>
    dsimp only
    generalize t.tries.headD ⟨⟨none, false⟩, false⟩ = next
    have hu : ∀ tries, (ensureWinsock { t with tries := t.tries.tail }
        next.startup).linux tries = t.linux tries
        ∧ (ensureWinsock { t with tries := t.tries.tail }
          next.startup).socket = none := by
      intro tries
      unfold ensureWinsock
      split <;> exact ⟨rfl, hs⟩
    generalize ensureWinsock { t with tries := t.tries.tail }
      next.startup = u at hu ⊢
    split
    · refine ⟨[⟨none, false⟩], fun more => ?_⟩
      rw [(hu more).1]
      exact connectSocket_of_none (t := t.linux more)
        (by rw [linux, hs]; rfl) rfl more
    · refine ⟨[next.toConnectTry.posix], fun more => ?_⟩
      rw [← dial_linux (hu more).2, (hu _).1]
      rfl

/-- **An attempt at an exchange does the same.** -/
theorem exchangeOnce_linux (t : RpcWin32) (request : Bytes) :
    ∃ used, ∀ more {m : ℕ} (response : Buf m),
      (t.linux (used ++ more)).exchangeOnce request response
        = (t.exchangeOnce request response).linux more := by
  obtain ⟨used, hconnect⟩ := connectSocket_linux t
  refine ⟨used, fun more m response => ?_⟩
  have hfailed : ∀ (s : ChainSocket) (response : Buf m)
      (written read : Bytes),
      (failed (t.connectSocket.called [.use s.number]) s response written
        read).linux more
        = RpcLinux.failed (t.connectSocket.linux more) s.posix response
          written read := by
    intro s response written read
    unfold Once.linux failed RpcLinux.failed
    rw [linux_dropSocket]
    rfl
  unfold RpcLinux.exchangeOnce exchangeOnce
  dsimp only
  rw [hconnect more]
  cases hs : t.connectSocket.socket with
  | none =>
    have hs' : (t.connectSocket.linux more).socket = none := by
      rw [linux, hs]
      rfl
    rw [hs']
    rfl
  | some s =>
    have hs' : (t.connectSocket.linux more).socket = some s.posix := by
      rw [linux, hs]
      rfl
    rw [hs']
    obtain ⟨hstatus, hgot, hrest⟩ := recvLoop_posix s.recvs 0 24
    dsimp only [ChainSocket.posix]
    rw [sendAll_posix, hstatus, hgot, hrest]
    dsimp only
    split
    · exact (hfailed s _ _ _).symm
    split
    · exact (hfailed s _ _ _).symm
    split
    · exact (hfailed s _ _ _).symm
    obtain ⟨hstatus, hgot, hrest⟩ := recvLoop_posix
      (recvChunks s.recvs 0 24).rest 24 (readBE (slice
        (response.write 0 (recvChunks s.recvs 0 24).got).bytes 20 4))
    rw [hstatus, hgot, hrest]
    split
    · exact (hfailed s _ _ _).symm
    · rfl

/-- **So does an exchange.** -/
theorem exchange_linux (t : RpcWin32) (request : Bytes) {m : ℕ}
    (response : Buf m) :
    ∃ used, ∀ more, (t.linux (used ++ more)).exchange request response
      = ((t.exchange request response).1.linux more,
        (t.exchange request response).2) := by
  obtain ⟨used, hfirst⟩ := exchangeOnce_linux t request
  obtain ⟨used', hsecond⟩ := exchangeOnce_linux
    (t.exchangeOnce request response).transport request
  by_cases hno : t.host = none ∨ m < 24
  · refine ⟨[], fun more => ?_⟩
    rw [exchange, if_pos hno]
    exact if_pos hno
  by_cases hok : (t.exchangeOnce request response).reply.ok = true
  · refine ⟨used, fun more => ?_⟩
    rw [exchange, if_neg hno, if_pos hok]
    refine (if_neg hno).trans ?_
    rw [hfirst]
    exact if_pos hok
  by_cases hretry : RpcLinux.mayRetry request = false
  · refine ⟨used, fun more => ?_⟩
    rw [exchange, if_neg hno, if_neg hok, if_pos hretry]
    refine (if_neg hno).trans ?_
    rw [hfirst]
    exact (if_neg hok).trans (if_pos hretry)
  · refine ⟨used ++ used', fun more => ?_⟩
    rw [exchange, if_neg hno, if_neg hok, if_neg hretry, List.append_assoc]
    refine (if_neg hno).trans ?_
    rw [hfirst]
    refine ((if_neg hok).trans (if_neg hretry)).trans ?_
    dsimp only [Once.linux]
    rw [hsecond]
    rfl

/-- **What the Windows transport carries, the Linux one would.** -/
theorem carried_linux {t u : RpcWin32} {xs : List (Bytes × Option Bytes)}
    (h : Carried transport t xs u) :
    ∃ used, ∀ more, Carried RpcLinux.transport (t.linux (used ++ more)) xs
      (u.linux more) := by
  induction h with
  | nothing => exact ⟨[], fun more => .nothing⟩
  | init _ host port ih =>
    obtain ⟨used, ih⟩ := ih
    exact ⟨used, fun more => (ih more).init host port⟩
  | close _ ih =>
    obtain ⟨used, ih⟩ := ih
    exact ⟨used, fun more => linux_close _ more ▸ (ih more).close⟩
  | @exchange xs u _ m request response ih =>
    obtain ⟨used, ih⟩ := ih
    obtain ⟨used', hx⟩ := exchange_linux u request response
    refine ⟨used ++ used', fun more => ?_⟩
    have hc := (ih (used' ++ more)).exchange request response
    have hx' : RpcLinux.transport.exchange (u.linux (used' ++ more)) request
        response = _ := hx more
    rw [hx'] at hc
    rw [List.append_assoc]
    exact hc

/-! ## In order -/

/-- **What Winsock should know of the transport.** -/
def winsock (t : RpcWin32) : Winsock :=
  ⟨t.ready.toNat, (t.socket.map ChainSocket.number).toList⟩

/-- **The calls that have been made since are in order**, and Winsock knows
what it should. -/
def InOrder (t u : RpcWin32) : Prop :=
  ∃ cs, u.calls = t.calls ++ cs ∧ t.winsock.calls cs = some u.winsock

namespace InOrder

variable {t u v : RpcWin32}

theorem refl (t : RpcWin32) : InOrder t t :=
  ⟨[], (List.append_nil _).symm, rfl⟩

theorem trans (h : InOrder t u) (h' : InOrder u v) : InOrder t v := by
  obtain ⟨cs, hcs, hw⟩ := h
  obtain ⟨ds, hds, hw'⟩ := h'
  refine ⟨cs ++ ds, by rw [hds, hcs, List.append_assoc], ?_⟩
  rw [Winsock.calls_append, hw]
  exact hw'

/-- `drop_socket`. -/
theorem dropSocket (t : RpcWin32) : InOrder t t.dropSocket := by
  unfold RpcWin32.dropSocket
  split
  · exact .refl t
  next s hs =>
    refine ⟨_, rfl, ?_⟩
    rw [winsock, hs]
    exact Winsock.calls_close _ _ []

/-- `ensure_winsock`. -/
theorem ensureWinsock (t : RpcWin32) (startup : Bool) :
    InOrder t (t.ensureWinsock startup) := by
  unfold RpcWin32.ensureWinsock
  split
  · exact .refl t
  next hr =>
    refine ⟨_, rfl, ?_⟩
    rw [winsock, Bool.eq_false_iff.mpr hr]
    show some (Winsock.mk (0 + startup.toNat) _) = some (Winsock.mk _ _)
    rw [Nat.zero_add]
    rfl

/-- The loop of `connect_socket` leaves a socket if it leaves a connection. -/
theorem calls_addressCalls (k n : ℕ) (addresses : List AddressTry)
    (cs : List WinsockCall) :
    (⟨k + 1, []⟩ : Winsock).calls (addressCalls n addresses ++ cs)
      = (if (RpcLinux.firstConnected addresses).isSome = true then
          (⟨k + 1, [n]⟩ : Winsock)
        else ⟨k + 1, []⟩).calls cs := by
  induction addresses with
  | nil => rfl
  | cons a rest ih =>
    cases a with
    | noSocket =>
      rw [addressCalls, List.cons_append, Winsock.calls_noSocket, ih]
      rfl
    | refused =>
      rw [addressCalls, List.cons_append, List.cons_append, List.cons_append,
        Winsock.calls_socket, Winsock.calls_use, Winsock.calls_close, ih]
      rfl
    | connected sends recvs =>
      rw [addressCalls, List.cons_append, List.cons_append,
        Winsock.calls_socket, Winsock.calls_use]
      rfl

/-- `connect_socket` behind `ensure_winsock`. -/
theorem dial (hs : t.socket = none) (hr : t.ready = true) (next : ConnectTry) :
    InOrder t (t.dial next) := by
  have hw : t.winsock = ⟨0 + 1, []⟩ := by
    rw [winsock, hs, hr]
    rfl
  unfold RpcWin32.dial
  split
  · refine ⟨[.resolve], rfl, ?_⟩
    rw [hw]
    exact congrArg some hw.symm
  next addresses _ =>
  have hcalls := calls_addressCalls 0 t.opened addresses
  dsimp only
  split
  next hc =>
    refine ⟨_, rfl, ?_⟩
    rw [hc] at hcalls
    rw [hw, Winsock.calls_resolve, ← List.append_nil (addressCalls _ _), hcalls]
    exact congrArg some hw.symm
  next c hc =>
    rw [hc] at hcalls
    have hready : t.ready.toNat = 0 + 1 := by rw [hr]; rfl
    split
    · refine ⟨.resolve :: (addressCalls t.opened addresses
        ++ [.use t.opened]), by simp [called], ?_⟩
      rw [hw, Winsock.calls_resolve, hcalls, Option.isSome_some, if_pos rfl,
        Winsock.calls_use]
      exact congrArg (fun k => some (⟨k, [t.opened]⟩ : Winsock)) hready.symm
    · refine ⟨.resolve :: (addressCalls t.opened addresses
        ++ [.use t.opened, .close t.opened]), by simp [called], ?_⟩
      rw [hw, Winsock.calls_resolve, hcalls, Option.isSome_some, if_pos rfl,
        Winsock.calls_use, Winsock.calls_close, ← hw]
      rfl

/-- **`connect_socket`.** -/
theorem connectSocket (t : RpcWin32) : InOrder t t.connectSocket := by
  unfold RpcWin32.connectSocket
  split
  · exact .refl t
  next hs =>
    dsimp only
    generalize t.tries.headD ⟨⟨none, false⟩, false⟩ = next
    have htries : InOrder t { t with tries := t.tries.tail } :=
      ⟨[], (List.append_nil _).symm, rfl⟩
    have hu := htries.trans (ensureWinsock _ next.startup)
    have hsocket : (RpcWin32.ensureWinsock { t with tries := t.tries.tail }
        next.startup).socket = none := by
      unfold RpcWin32.ensureWinsock
      split <;> exact hs
    split
    · exact hu
    next hr =>
      exact hu.trans (dial hsocket (Bool.eq_true_of_not_eq_false hr) _)

/-- **`exchange_once`.** -/
theorem exchangeOnce {m : ℕ} (t : RpcWin32) (request : Bytes)
    (response : Buf m) :
    InOrder t (t.exchangeOnce request response).transport := by
  have hconnect := connectSocket t
  unfold RpcWin32.exchangeOnce
  dsimp only
  split
  · exact hconnect
  next s hs =>
  have huse : InOrder t.connectSocket
      (t.connectSocket.called [.use s.number]) := by
    refine ⟨_, rfl, ?_⟩
    show t.connectSocket.winsock.calls _ = some t.connectSocket.winsock
    rw [winsock, hs]
    exact Winsock.calls_use _ _ []
  have h := hconnect.trans huse
  have hdrop := h.trans (dropSocket _)
  split
  · exact hdrop
  split
  · exact hdrop
  split
  · exact hdrop
  split
  · exact hdrop
  · obtain ⟨cs, hcs, hw⟩ := h
    refine ⟨cs, hcs, hw.trans (congrArg some ?_)⟩
    show winsock t.connectSocket = _
    rw [winsock, winsock, hs]
    rfl

/-- **`stn_rpc_win32_exchange`.** -/
theorem exchange {m : ℕ} (t : RpcWin32) (request : Bytes)
    (response : Buf m) : InOrder t (t.exchange request response).1 := by
  have hrecord : ∀ (u : RpcWin32) (as : List Attempt),
      InOrder u (u.record request m as) := fun u as =>
    ⟨[], (List.append_nil _).symm, rfl⟩
  have hfirst := exchangeOnce t request response
  unfold RpcWin32.exchange
  split
  · exact hrecord _ _
  dsimp only
  split
  · exact hfirst.trans (hrecord _ _)
  split
  · exact hfirst.trans (hrecord _ _)
  · exact (hfirst.trans (exchangeOnce _ request _)).trans (hrecord _ _)

/-- **`stn_rpc_win32_close`**, and initialising behind it, leave nothing for
Winsock to know of. -/
theorem close (t : RpcWin32) :
    InOrder t t.close ∧ t.close.winsock = ⟨0, []⟩ := by
  have hdrop := dropSocket t
  have hs : t.dropSocket.socket = none := by
    unfold RpcWin32.dropSocket
    split
    · assumption
    · rfl
  unfold RpcWin32.close
  dsimp only
  split
  next hr =>
    refine ⟨hdrop.trans ⟨_, rfl, ?_⟩, ?_⟩
    · rw [winsock, hs, hr]
      rfl
    · show Winsock.mk 0 (t.dropSocket.socket.map _).toList = _
      rw [hs]
      rfl
  next hr =>
    refine ⟨hdrop, ?_⟩
    rw [winsock, hs, Bool.eq_false_iff.mpr hr]
    rfl

end InOrder

end RpcWin32
