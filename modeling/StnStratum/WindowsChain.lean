import StnStratum.RpcWin32
import StnStratum.Holders

/-!
# Chain on Windows

What the Windows transport does is known in every run: of the transport alone,
whatever is done to it, and of the server that uses it. It is what the Linux
transport would do on another network (`run_linux`), so that a request that
is more than a question is made once at most on Windows, too
(`mutation_once_windows`). And its calls of Winsock are in order
(`winsock_in_order`): there is a socket only while Winsock is started, it is
closed once, and what has been started is cleaned up in the end. One call is
not. The server is cleared before its transport is ever initialised, and zero
is not `INVALID_SOCKET`, so that the first thing `chain_transport_select` does
is to close a socket that never was.
-/

/-! ## The transport by itself -/

/-- **What can be done to a transport.** -/
inductive TransportAction where
  /-- `stn_rpc_linux_init` or its sibling. -/
  | init (host : Bytes) (port : UInt16)
  /-- `stn_rpc_linux_close` or its sibling. -/
  | close
  /-- An exchange. -/
  | exchange (request : Bytes) {m : ℕ} (response : Buf m)

/-- **A transport as a machine**, with the requests that it has been given so
far and what has come back. -/
def ChainTransport.machine {τ : Type} (T : ChainTransport τ) :
    Machine (τ × List (Bytes × Option Bytes)) TransportAction where
  Start _ := True
  act s a :=
    match a with
    | .init host port => (T.init s.1 host port, s.2)
    | .close => (T.close s.1, s.2)
    | .exchange request response =>
      ((T.exchange s.1 request response).1,
        s.2 ++ [(request, (T.exchange s.1 request response).2.frame)])

/-- A transport carries the exchanges it is given. -/
theorem carried_run {τ : Type} (T : ChainTransport τ)
    (as : List TransportAction) (t : τ) (old : List (Bytes × Option Bytes)) :
    ∃ xs, (T.machine.run (t, old) as).2 = old ++ xs
      ∧ Carried T t xs (T.machine.run (t, old) as).1 := by
  induction as generalizing t old with
  | nil => exact ⟨[], (List.append_nil _).symm, .nothing⟩
  | cons a as ih =>
    cases a with
    | init host port =>
      obtain ⟨xs, hx, hc⟩ := ih (T.init t host port) old
      exact ⟨xs, hx, (Carried.nothing.init host port).trans hc⟩
    | close =>
      obtain ⟨xs, hx, hc⟩ := ih (T.close t) old
      exact ⟨xs, hx, Carried.nothing.close.trans hc⟩
    | exchange request response =>
      obtain ⟨xs, hx, hc⟩ := ih (T.exchange t request response).1
        (old ++ [(request, (T.exchange t request response).2.frame)])
      refine ⟨_, ?_, (Carried.nothing.exchange request response).trans hc⟩
      rw [List.nil_append, ← List.append_assoc]
      exact hx

/-- **Every run of the Windows transport is one of the Linux transport.**
Whatever is done to the Windows transport, on every network, there is a
network on which the Linux transport comes back with the same replies when the
same is done to it. It ends with the same log, which tells of every attempt
the connection it was made on and the bytes written and read, and with the
same connection. What is left of the network is anything. -/
theorem run_linux (as : List TransportAction) (t : RpcWin32)
    (replies : List (Bytes × Option Bytes)) :
    ∃ tries, ∀ more, RpcLinux.transport.machine.run
        (t.linux (tries ++ more), replies) as
      = ((RpcWin32.transport.machine.run (t, replies) as).1.linux more,
        (RpcWin32.transport.machine.run (t, replies) as).2) := by
  induction as generalizing t replies with
  | nil => exact ⟨[], fun _ => rfl⟩
  | cons a as ih =>
    cases a with
    | init host port =>
      obtain ⟨tries, ih⟩ := ih (RpcWin32.transport.init t host port) replies
      exact ⟨tries, ih⟩
    | close =>
      obtain ⟨tries, ih⟩ := ih (RpcWin32.transport.close t) replies
      refine ⟨tries, fun more => ?_⟩
      rw [Machine.run_cons, Machine.run_cons]
      refine Eq.trans ?_ (ih more)
      exact congrArg (fun u => RpcLinux.transport.machine.run (u, replies) as)
        (t.linux_close (tries ++ more)).symm
    | exchange request response =>
      obtain ⟨used, hx⟩ := t.exchange_linux request response
      obtain ⟨tries, ih⟩ := ih
        (RpcWin32.transport.exchange t request response).1
        (replies ++ [(request,
          (RpcWin32.transport.exchange t request response).2.frame)])
      refine ⟨used ++ tries, fun more => ?_⟩
      rw [Machine.run_cons, Machine.run_cons]
      refine Eq.trans ?_ (ih more)
      rw [List.append_assoc]
      exact congrArg (fun r : RpcLinux × Reply _ =>
        RpcLinux.transport.machine.run
          (r.1, replies ++ [(request, r.2.frame)]) as)
        (hx (tries ++ more))

/-- **The Windows transport sends a mutation once.** Whatever is done to the
Windows transport, on every network, what it is asked and answers is what it
has logged. Each of its exchanges was made by attempts that write a prefix of
the request on one connection, by one attempt at most unless the request only
asks and by two at most in any case, and what came back was read on the
connection of the last. No attempt is made on the connection of a failed one.
-/
theorem mutation_once_windows {t : RpcWin32} (hlog : t.log = [])
    (hs : t.socket = none) (as : List TransportAction) :
    let s := RpcWin32.transport.machine.run (t, []) as
    s.1.log.reverse.map (fun e => (e.request, e.reply)) = s.2
      ∧ (∀ e ∈ s.1.log, e.IsProper)
      ∧ (s.1.linux []).InOrder := by
  intro s
  obtain ⟨xs, hx, hc⟩ := carried_run RpcWin32.transport as t []
  obtain ⟨tries, hlinux⟩ := RpcWin32.carried_linux hc
  have hstart : (t.linux (tries ++ [])).Sound := by
    refine ⟨RpcLinux.inOrder_of_log hlog ?_, ?_⟩
    · rw [RpcWin32.linux, hs]
      rfl
    · show ∀ e ∈ t.log, e.IsProper
      rw [hlog]
      exact fun e he => absurd he List.not_mem_nil
  obtain ⟨hsound, hcarried⟩ := hstart.carried (hlinux [])
  have hnone : (t.linux (tries ++ [])).exchanges = [] := by
    unfold RpcLinux.exchanges
    rw [show (t.linux (tries ++ [])).log = [] from hlog]
    rfl
  rw [hnone] at hcarried
  exact ⟨hcarried.trans hx.symm, hsound.proper, hsound.inOrder⟩

/-- A transport whose network loses things. The first connection is broken off
before anything has been read. The second attempt to connect is refused, and
the third goes through and has an answer. -/
def lossyWindows : RpcWin32 :=
  ⟨none, 0, none, false,
    [⟨⟨some [.connected [] [.interrupted]], true⟩, true⟩,
      ⟨⟨some [.refused], true⟩, true⟩,
      ⟨⟨some [.noSocket, .connected [] (unread (Rpc.answerFrame
        Rpc.miningTemplate 2 []) [])], true⟩, true⟩], 1, [], []⟩

/-- What is done to it: a block is sent, and a template asked for. -/
def twoExchanges : List TransportAction :=
  [.init [] 0, .exchange (Rpc.requestFrame Rpc.submitWork 1 [7]) (.zero 64),
    .exchange (Rpc.requestFrame Rpc.miningTemplate 2 []) (.zero 64)]

set_option maxRecDepth 100000 in
/-- The block is sent once there, and the template is asked for twice. -/
theorem mutation_once_windows_lossy :
    (RpcWin32.transport.machine.run (lossyWindows, [])
        twoExchanges).1.log.map
        (fun e => (Rpc.methodOf e.request, e.attempts.map Attempt.ok))
      = [(Rpc.miningTemplate, [false, true]), (Rpc.submitWork, [false])]
    ∧ (RpcWin32.transport.machine.run (lossyWindows, [])
        twoExchanges).2.map Prod.snd
      = [none, some (Rpc.answerFrame Rpc.miningTemplate 2 [])]
    ∧ ((RpcWin32.transport.machine.run (lossyWindows, [])
        twoExchanges).1.linux []).InOrder := by
  have h := mutation_once_windows (t := lossyWindows) rfl rfl twoExchanges
  exact ⟨by decide +kernel, by decide +kernel, h.2.2⟩

/-- **The transport as `stn_stratum_server_init` leaves it**: every field of it
is zero, and so is `socket_handle`. What calls with this handle come to does
not matter. -/
def RpcWin32.zeroed (tries : List WinsockTry) (sends : List SendOutcome)
    (recvs : List RecvOutcome) : RpcWin32 :=
  ⟨none, 0, some ⟨0, sends, recvs⟩, false, tries, 1, [], []⟩

/-! ## Winsock -/

/-- **Everything that is done to the transport** is in order. -/
def RpcWin32.rule : TransportRule RpcWin32.transport where
  rel := RpcWin32.InOrder
  refl := .refl
  trans := .trans
  exchange := RpcWin32.InOrder.exchange
  close t := (RpcWin32.InOrder.close t).1
  rebind t host port := by
    obtain ⟨⟨cs, hcs, hw⟩, hclosed⟩ := RpcWin32.InOrder.close t
    refine ⟨cs, hcs, hw.trans (congrArg some hclosed)⟩

/-- Ending all sessions is about sessions. -/
theorem quiet_removeAll {τ : Type} (w : World τ) : Quiet w w.removeAll := by
  unfold World.removeAll
  generalize w.sockets = cs
  induction cs generalizing w with
  | nil => exact .refl
  | cons c cs ih => exact (own_clientRemove (c := c) _).toQuiet.trans (ih _)

/-- **The transport uses Winsock in order**, but for one call. The calls are
those that it makes itself; those of the listeners and the sessions are not
among them. In every run of the Windows server the first call of its transport
is to close the handle that clearing has left. From there on Winsock is started
before there is a socket, a socket is used only while there is one and closed
once, and Winsock is cleaned up when there is none. It is started once if
`winsock_ready` is set and not at all otherwise, and the one socket there is is
that of the connection. When the server is closed, all that was started has
been cleaned up, and all sockets are closed. -/
theorem winsock_in_order {w₀ : World RpcWin32} {tries : List WinsockTry}
    {sends : List SendOutcome} {recvs : List RecvOutcome} {host : Bytes}
    {port : UInt16}
    (h : w₀.server.chainTransport = RpcWin32.transport.init
      (RpcWin32.transport.close (.zeroed tries sends recvs)) host port)
    (as : List ServerAction) :
    let w := (stratum .windows RpcWin32.transport).run w₀ as
    ∃ cs ds, w.server.chainTransport.calls = .close 0 :: cs
      ∧ Winsock.calls ⟨0, []⟩ cs = some ⟨w.server.chainTransport.ready.toNat,
        (w.server.chainTransport.socket.map ChainSocket.number).toList⟩
      ∧ (w.serverClose RpcWin32.transport).server.chainTransport.calls
        = .close 0 :: (cs ++ ds)
      ∧ Winsock.calls ⟨0, []⟩ (cs ++ ds) = some ⟨0, []⟩ := by
  intro w
  obtain ⟨cs, hcs, hw⟩ := RpcWin32.rule.run (P := .windows) w₀ as
  have hclose : (w.serverClose RpcWin32.transport).server.chainTransport
      = w.server.chainTransport.close :=
    congrArg RpcWin32.close (quiet_removeAll w).endpoint.2.2
  obtain ⟨⟨ds, hds, hw'⟩, hclosed⟩ :=
    RpcWin32.InOrder.close w.server.chainTransport
  have hstart : w₀.server.chainTransport.winsock = ⟨0, []⟩ := by
    rw [h]
    rfl
  have hfirst : w₀.server.chainTransport.calls = [.close 0] := by
    rw [h]
    rfl
  rw [hfirst] at hcs
  rw [hstart] at hw
  refine ⟨cs, ds, hcs, hw, ?_, ?_⟩
  · rw [hclose, hds, show w.server.chainTransport.calls = _ from hcs]
    rfl
  · rw [Winsock.calls_append, hw]
    exact hw'.trans (congrArg some hclosed)

/-- A server on Windows where the host resolves once, to an address that
refuses to be connected to. A miner waits. -/
def deserted : World RpcWin32 :=
  boot RpcWin32.transport
    (.zeroed [⟨⟨some [.noSocket, .refused], true⟩, true⟩] [] [])
    (fun c => if c = 0 then unread addressFrame [] else []) fun _ => [.session]

set_option maxRecDepth 100000 in
/-- So it is where Chain cannot be reached: the poll has two attempts, and
the next Chain is selected. -/
theorem winsock_in_order_deserted :
    ((stratum .windows RpcWin32.transport).run deserted
        performance).server.chainTransport.calls
      = [.close 0, .startup true, .resolve, .socket none, .socket (some 1),
        .use 1, .close 1, .resolve, .cleanup]
    ∧ ∃ cs ds, (((stratum .windows RpcWin32.transport).run deserted
        performance).serverClose
          RpcWin32.transport).server.chainTransport.calls
        = .close 0 :: (cs ++ ds)
      ∧ Winsock.calls ⟨0, []⟩ (cs ++ ds) = some ⟨0, []⟩ := by
  have hstart : deserted.server.chainTransport = RpcWin32.transport.init
      (RpcWin32.transport.close (.zeroed
        [⟨⟨some [.noSocket, .refused], true⟩, true⟩] [] [])) _ _ := rfl
  obtain ⟨cs, ds, _, _, hcalls, hw⟩ := winsock_in_order hstart performance
  exact ⟨by decide +kernel, cs, ds, hcalls, hw⟩
