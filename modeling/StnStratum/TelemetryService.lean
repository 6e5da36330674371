import StnStratum.Mortal
import StnStratum.TelemetryClient
import Mathlib.Data.List.Nodup

/-!
# The telemetry service

The worker of the telemetry service owns a list of clients. In every turn of
its loop `network_tick` accepts whoever waits and ticks every client there is,
the latest first, with one snapshot and one reading of the clock for all of
them; a client whose tick returns zero is taken out of the list.

The clients share the list, the snapshot, the clock and the process, and
nothing else. `alone` says what that should mean: every connection goes through
the ticks from its acceptance on as if there was no other. The service does
that as long as it lives (`worker_alone`), so that what is known of one
connection is known of all of them; and it lives until one of them, on its own,
meets a broken pipe. That is the one thing a client can do to the others: it
resets the connection, and the next `send` to it kills the process.

None of them is there for long: behind a tick everyone who has been there for
two seconds by the clock is gone (`worker_timely`), whatever it sends and
however little it reads, unless the clock was at zero when it was accepted or
has been set back since.
-/

namespace Telemetry

open Http (EndsAt)

/-! ## The source -/

/-- **What one turn of the loop of `accept_clients` meets.** -/
inductive AcceptAttempt where
  /-- `accept` fails: nobody waits, a signal has come, or another error. -/
  | nobody
  /-- The connection cannot be made one that does not block. -/
  | blocking
  /-- There is no memory for the client. -/
  | noMemory
  /-- A client, with what its socket will return. -/
  | client (inbox : List RecvOutcome) (outbox : List SendAttempt)

/-- **What a call of `network_tick` is given.** -/
structure NetworkTick where
  /-- What uninitialised memory holds in the tick of each client. -/
  heap : ℕ → Heap
  /-- What `snapshot_read` has returned. -/
  snapshot : TelemetrySnapshot
  /-- The time. -/
  now : ℤ
  /-- What `accept_clients` will meet. Once the list is used up, nobody
  waits. -/
  attempts : List AcceptAttempt

/-- **The part of `stn_telemetry_service` that the worker owns.** Every client
is there with the number of its connection, and with its connection. -/
structure Service where
  /-- `clients`, the latest first. -/
  clients : List (ℕ × Connection)
  /-- `client_count`. -/
  clientCount : ℕ
  /-- The number the next connection will get. -/
  nextConn : ℕ
  /-- The clients that have been removed, in order. -/
  removed : List (ℕ × Connection)

/-- A connection behind a tick of its client. -/
def Connection.ticked (w : Connection) (r : Ticked) : Connection where
  client := r.client
  stays := r.stays
  inbox := r.inbox
  outbox := r.outbox
  prepared := w.prepared ++ r.prepared
  sent := w.sent ++ r.sent

namespace Service

/-- The service behind `stn_telemetry_service_init`. -/
def init : Service := ⟨[], 0, 0, []⟩

/-- A new client, at the head of the list. -/
def accept (s : Service) (now : ℤ) (inbox : List RecvOutcome)
    (outbox : List SendAttempt) : Service :=
  { s with
    clients := (s.nextConn, .accepted now inbox outbox) :: s.clients
    clientCount := s.clientCount + 1
    nextConn := s.nextConn + 1 }

/-- **`accept_clients`.** -/
def acceptClients (now : ℤ) : List AcceptAttempt → Service → Service
  | [], s => s
  | .nobody :: _, s => s
  | .blocking :: rest, s => acceptClients now rest s
  | .noMemory :: rest, s => acceptClients now rest s
  | .client inbox outbox :: rest, s =>
    acceptClients now rest (s.accept now inbox outbox)

/-- The client of a connection. -/
def client? (s : Service) (n : ℕ) : Option (ℕ × Connection) :=
  s.clients.find? fun e => e.1 == n

/-- **`client_remove`.** A client that is not in the list is left alone. -/
def clientRemove (s : Service) (n : ℕ) : Service :=
  match s.client? n with
  | none => s
  | some e =>
    { s with
      clients := s.clients.filter fun e => e.1 != n
      clientCount := s.clientCount - 1
      removed := s.removed ++ [e] }

/-- A store into a client. -/
def setClient (s : Service) (n : ℕ) (w : Connection) : Service :=
  { s with clients := s.clients.map fun e => if e.1 = n then (n, w) else e }

/-- What `network_tick` does with a client. -/
def tickClient (t : NetworkTick) (s : Service) (n : ℕ) : Service :=
  match s.client? n with
  | none => s
  | some e =>
    let r := clientTick (t.heap n) (some t.snapshot.toStatus) t.now e.2.inbox
      e.2.outbox e.2.client
    let s := s.setClient n (e.2.ticked r)
    if r.stays = false then s.clientRemove n else s

/-- **`network_tick`** behind `snapshot_read`. The next client is remembered
before the tick that may remove this one, so all of them are ticked. -/
def networkTick (s : Service) (t : NetworkTick) : Service :=
  let s := acceptClients t.now t.attempts s
  (s.clients.map Prod.fst).foldl (tickClient t) s

/-- The end of `stn_telemetry_service_close`: the first of the clients is
removed until there is none. -/
def close (s : Service) : Service :=
  (s.clients.map Prod.fst).foldl clientRemove s

end Service

/-- **The turns of `telemetry_worker` as a machine.** -/
def worker : Machine Service NetworkTick where
  Start s := s = .init
  act := Service.networkTick

/-- Whether the tick of a client kills the process. -/
def Connection.kills (n : ℕ) (w : Connection) (t : NetworkTick) : Bool :=
  w.stays && (clientTick (t.heap n) (some t.snapshot.toStatus) t.now w.inbox
    w.outbox w.client).killed

/-- **Whether `network_tick` kills the process**: the tick of one of the
clients does. Those that come before it in the list make no difference to it,
and those that come behind it are not ticked any more. -/
def Service.kills (s : Service) (t : NetworkTick) : Bool :=
  (acceptClients t.now t.attempts s).clients.any fun e => e.2.kills e.1 t

/-- **The worker in a process that SIGPIPE kills.** -/
def mortalWorker : Machine (Option Service) NetworkTick :=
  worker.mortal Service.kills

/-! ## Connections on their own -/

/-- **A tick of one connection**, whatever the others do. -/
def Connection.serve (n : ℕ) (w : Connection) (t : NetworkTick) : Connection :=
  if w.stays = true then
    w.ticked (clientTick (t.heap n) (some t.snapshot.toStatus) t.now w.inbox
      w.outbox w.client)
  else w

/-- The sockets that `accept_clients` accepts. -/
def admitted : List AcceptAttempt → List (List RecvOutcome × List SendAttempt)
  | [] => []
  | .nobody :: _ => []
  | .blocking :: rest => admitted rest
  | .noMemory :: rest => admitted rest
  | .client inbox outbox :: rest => (inbox, outbox) :: admitted rest

/-- The connections that a tick accepts, numbered from `n` on, the first
first. -/
def fresh (n : ℕ) (t : NetworkTick) : List (ℕ × Connection) :=
  ((admitted t.attempts).zipIdx n).map fun p =>
    (p.2, .accepted t.now p.1.1 p.1.2)

/-- **The connections of a run, each on its own**, the first first: from the
tick that has accepted it on, a connection goes through every tick, by itself.
They are numbered from `n` on. -/
def alone : ℕ → List NetworkTick → List (ℕ × Connection)
  | _, [] => []
  | n, t :: ts =>
    (fresh n t).map (fun e => (e.1, (t :: ts).foldl (Connection.serve e.1) e.2))
      ++ alone (n + (fresh n t).length) ts

/-- A tick of every one of some connections. -/
def serveAll (t : NetworkTick) (l : List (ℕ × Connection)) :
    List (ℕ × Connection) :=
  l.map fun e => (e.1, e.2.serve e.1 t)

/-- Those that are still there. -/
def staying (l : List (ℕ × Connection)) : List (ℕ × Connection) :=
  l.filter fun e => e.2.stays

/-- Those that are not. -/
def leaving (l : List (ℕ × Connection)) : List (ℕ × Connection) :=
  l.filter fun e => !e.2.stays

/-! ### What there is of them -/

theorem staying_append (l m : List (ℕ × Connection)) :
    staying (l ++ m) = staying l ++ staying m := List.filter_append ..

theorem leaving_append (l m : List (ℕ × Connection)) :
    leaving (l ++ m) = leaving l ++ leaving m := List.filter_append ..

theorem length_staying_add_leaving (l : List (ℕ × Connection)) :
    (staying l).length + (leaving l).length = l.length := by
  rw [← List.length_append]
  exact (List.filter_append_perm _ l).length_eq

theorem length_serveAll (t : NetworkTick) (l : List (ℕ × Connection)) :
    (serveAll t l).length = l.length := List.length_map _

theorem serveAll_append (t : NetworkTick) (l m : List (ℕ × Connection)) :
    serveAll t (l ++ m) = serveAll t l ++ serveAll t m := List.map_append

theorem map_fst_serveAll (t : NetworkTick) (l : List (ℕ × Connection)) :
    (serveAll t l).map Prod.fst = l.map Prod.fst := by
  rw [serveAll, List.map_map]
  rfl

theorem map_fst_fresh (n : ℕ) (t : NetworkTick) :
    (fresh n t).map Prod.fst = List.range' n (fresh n t).length := by
  rw [fresh, List.map_map, List.length_map, List.length_zipIdx]
  exact List.zipIdx_map_snd n _

/-- Those that have just been accepted are there. -/
theorem stays_of_mem_fresh {n : ℕ} {t : NetworkTick} {e : ℕ × Connection}
    (h : e ∈ fresh n t) : e.2.stays = true := by
  obtain ⟨p, _, rfl⟩ := List.mem_map.mp h
  rfl

/-- One that is gone stays gone. -/
theorem Connection.serve_of_gone {n : ℕ} {w : Connection} (t : NetworkTick)
    (h : w.stays = false) : w.serve n t = w :=
  if_neg (by rw [h]; exact Bool.false_ne_true)

/-- **One tick more.** -/
theorem alone_append (n : ℕ) (ts : List NetworkTick) (t : NetworkTick) :
    alone n (ts ++ [t])
      = serveAll t (alone n ts ++ fresh (n + (alone n ts).length) t) := by
  induction ts generalizing n with
  | nil =>
    show _ ++ [] = _
    rw [List.append_nil]
    rfl
  | cons u ts ih =>
    have hlen : n + (alone n (u :: ts)).length = n + (fresh n u).length
        + (alone (n + (fresh n u).length) ts).length := by
      rw [alone, List.length_append, List.length_map, Nat.add_assoc]
    rw [hlen, List.cons_append, alone, alone, ih, List.append_assoc,
      serveAll_append t (List.map _ _)]
    congr 1
    rw [serveAll, List.map_map]
    refine List.map_congr_left fun e _ => ?_
    show (e.1, (u :: ts ++ [t]).foldl _ _) = (e.1, _)
    rw [List.foldl_append]
    rfl

/-- They are numbered in the order in which they are accepted. -/
theorem map_fst_alone (n : ℕ) (ts : List NetworkTick) :
    (alone n ts).map Prod.fst = List.range' n (alone n ts).length := by
  induction ts generalizing n with
  | nil => rfl
  | cons t ts ih =>
    show ((fresh n t).map _ ++ alone _ ts).map _ = _
    rw [alone, List.map_append, List.map_map, ih, List.length_append,
      List.length_map]
    show (fresh n t).map Prod.fst ++ _ = _
    rw [map_fst_fresh, List.range'_append_1]

theorem Connection.stays_of_serve {n : ℕ} {w : Connection} {t : NetworkTick}
    (h : (w.serve n t).stays = true) : w.stays = true := by
  cases hw : w.stays with
  | true => rfl
  | false => rw [Connection.serve_of_gone t hw, hw] at h; exact h

/-- Those that are gone make no difference to those that stay. -/
theorem staying_serveAll_staying (t : NetworkTick)
    (l : List (ℕ × Connection)) :
    staying (serveAll t (staying l)) = staying (serveAll t l) := by
  unfold staying serveAll
  rw [List.filter_map, List.filter_map, List.filter_filter]
  refine congrArg (List.map _) (List.filter_congr fun e _ => ?_)
  rw [Bool.and_eq_left_iff_imp]
  exact Connection.stays_of_serve

/-- **Those that leave**: they have left before, or they leave now. -/
theorem leaving_serveAll_perm (t : NetworkTick) (l : List (ℕ × Connection)) :
    (leaving l ++ leaving (serveAll t (staying l))).Perm
      (leaving (serveAll t l)) := by
  have hgone : serveAll t (leaving l) = leaving l := by
    refine (List.map_congr_left fun e he => ?_).trans (List.map_id _)
    have hstays := (List.mem_filter.mp he).2
    rw [Connection.serve_of_gone t (by simpa using hstays)]
    rfl
  have hleft : leaving (serveAll t (leaving l)) = leaving l := by
    rw [hgone]
    exact List.filter_filter.trans (List.filter_congr fun e _ => Bool.and_self _)
  rw [← hleft, ← leaving_append, ← serveAll_append]
  refine List.Perm.filter _ (List.Perm.map _ ?_)
  exact (List.perm_append_comm).trans (List.filter_append_perm _ l)

/-! ## The service, step by step -/

namespace Service

/-- **Accepting**: the new clients are at the head of the list. -/
theorem acceptClients_eq (t : NetworkTick) (s : Service) :
    acceptClients t.now t.attempts s
      = { s with
          clients := (fresh s.nextConn t).reverse ++ s.clients
          clientCount := s.clientCount + (fresh s.nextConn t).length
          nextConn := s.nextConn + (fresh s.nextConn t).length } := by
  unfold fresh
  generalize t.attempts = attempts
  generalize t.now = now
  induction attempts generalizing s with
  | nil => rfl
  | cons a rest ih =>
    cases a with
    | nobody => rfl
    | blocking => exact ih s
    | noMemory => exact ih s
    | client inbox outbox =>
      rw [acceptClients, ih, admitted, List.zipIdx_cons, List.map_cons,
        List.reverse_cons, List.length_cons, List.append_assoc]
      dsimp only [accept]
      rw [Nat.add_right_comm, Nat.add_assoc s.nextConn 1, Nat.add_comm 1]
      rfl

/-- Looking up a connection behind others. -/
theorem client?_of_append {s : Service} {front rest : List (ℕ × Connection)}
    {e : ℕ × Connection} (h : s.clients = front ++ e :: rest)
    (hf : e.1 ∉ front.map Prod.fst) : s.client? e.1 = some e := by
  have hnone : front.find? (fun d => d.1 == e.1) = none := by
    rw [List.find?_eq_none]
    intro d hd he
    exact hf (List.mem_map.mpr ⟨d, hd, eq_of_beq he⟩)
  rw [client?, h, List.find?_append, hnone, Option.none_or]
  exact List.find?_cons_of_pos (beq_self_eq_true e.1)

/-- Taking a connection out from between the others. -/
theorem filter_ne_append {front rest : List (ℕ × Connection)} {n : ℕ}
    {w : Connection} (hf : n ∉ front.map Prod.fst)
    (hr : n ∉ rest.map Prod.fst) :
    (front ++ (n, w) :: rest).filter (fun e => e.1 != n) = front ++ rest := by
  have hkeep : ∀ l : List (ℕ × Connection), n ∉ l.map Prod.fst →
      l.filter (fun e => e.1 != n) = l := by
    intro l hl
    refine List.filter_eq_self.mpr fun d hd => bne_iff_ne.mpr fun he => ?_
    exact hl (List.mem_map.mpr ⟨d, hd, he⟩)
  rw [List.filter_append, List.filter_cons_of_neg (by simp), hkeep _ hf,
    hkeep _ hr]

/-- **A client is ticked**, and stays where it is or is taken out. -/
theorem tickClient_eq {t : NetworkTick} {s : Service}
    {front rest : List (ℕ × Connection)} {e : ℕ × Connection}
    (h : s.clients = front ++ e :: rest)
    (hn : ((front ++ e :: rest).map Prod.fst).Nodup)
    (hs : e.2.stays = true) :
    s.tickClient t e.1
      = { s with
          clients := front ++ staying (serveAll t [e]) ++ rest
          clientCount := s.clientCount - (leaving (serveAll t [e])).length
          removed := s.removed ++ leaving (serveAll t [e]) } := by
  have hf : e.1 ∉ front.map Prod.fst := fun hm => by
    rw [List.map_append, List.nodup_append] at hn
    exact hn.2.2 _ hm _ List.mem_cons_self rfl
  have hr : e.1 ∉ rest.map Prod.fst := by
    rw [List.map_append, List.nodup_append] at hn
    exact (List.nodup_cons.mp hn.2.1).1
  have hset : ∀ w, (s.setClient e.1 w).clients = front ++ (e.1, w) :: rest := by
    intro w
    have hkeep : ∀ l : List (ℕ × Connection), e.1 ∉ l.map Prod.fst →
        (l.map fun d => if d.1 = e.1 then (e.1, w) else d) = l := by
      intro l hl
      refine (List.map_congr_left fun d hd => if_neg fun he => ?_).trans
        (List.map_id l)
      exact hl (List.mem_map.mpr ⟨d, hd, he⟩)
    show s.clients.map _ = _
    rw [h, List.map_append, List.map_cons, hkeep _ hf, hkeep _ hr, if_pos rfl]
  have hserve : e.2.serve e.1 t = e.2.ticked (clientTick (t.heap e.1)
      (some t.snapshot.toStatus) t.now e.2.inbox e.2.outbox e.2.client) :=
    if_pos hs
  have hstays := congrArg Connection.stays hserve
  unfold tickClient
  rw [client?_of_append h hf]
  dsimp only
  rw [← hserve, show Ticked.stays _ = _ from hstays.symm]
  cases hst : (e.2.serve e.1 t).stays with
  | true =>
    have hstay : staying (serveAll t [e]) = [(e.1, e.2.serve e.1 t)] :=
      List.filter_cons_of_pos hst
    have hleave : leaving (serveAll t [e]) = [] :=
      List.filter_cons_of_neg (by rw [hst]; exact Bool.false_ne_true)
    rw [if_neg (Ne.symm Bool.false_ne_true), hstay, hleave, List.append_nil,
      List.append_assoc]
    exact congrArg (fun l => { s with clients := l }) (hset _)
  | false =>
    have hstay : staying (serveAll t [e]) = [] :=
      List.filter_cons_of_neg (by rw [hst]; exact Bool.false_ne_true)
    have hleave : leaving (serveAll t [e]) = [(e.1, e.2.serve e.1 t)] :=
      List.filter_cons_of_pos (by rw [hst]; rfl)
    rw [if_pos rfl, hstay, hleave, List.append_nil, clientRemove,
      client?_of_append (e := (e.1, e.2.serve e.1 t)) (hset _) hf]
    dsimp only
    rw [hset, filter_ne_append hf hr]
    rfl

/-- **All clients are ticked**, each by itself. -/
theorem foldl_tickClient (t : NetworkTick) (l front : List (ℕ × Connection))
    {s : Service} (h : s.clients = front ++ l)
    (hn : ((front ++ l).map Prod.fst).Nodup)
    (hs : ∀ e ∈ l, e.2.stays = true) :
    (l.map Prod.fst).foldl (tickClient t) s
      = { s with
          clients := front ++ staying (serveAll t l)
          clientCount := s.clientCount - (leaving (serveAll t l)).length
          removed := s.removed ++ leaving (serveAll t l) } := by
  induction l generalizing front s with
  | nil =>
    rw [List.append_nil] at h
    show s = { s with clients := front ++ [], removed := s.removed ++ [] }
    rw [List.append_nil, List.append_nil, ← h]
  | cons e l ih =>
    have hstay : staying (serveAll t (e :: l))
        = staying (serveAll t [e]) ++ staying (serveAll t l) := by
      rw [← List.singleton_append, serveAll_append, staying_append]
    have hleave : leaving (serveAll t (e :: l))
        = leaving (serveAll t [e]) ++ leaving (serveAll t l) := by
      rw [← List.singleton_append, serveAll_append, leaving_append]
    have hsub : ((front ++ staying (serveAll t [e]) ++ l).map
        Prod.fst).Nodup := by
      refine hn.sublist ?_
      rw [List.append_assoc, List.map_append, List.map_append, List.map_append]
      refine (List.Sublist.refl _).append ?_
      have hone : ((staying (serveAll t [e])).map Prod.fst).Sublist [e.1] :=
        List.filter_sublist.map Prod.fst
      exact hone.append (List.Sublist.refl _)
    rw [List.map_cons, List.foldl_cons,
      tickClient_eq h hn (hs e List.mem_cons_self),
      ih (front ++ staying (serveAll t [e])) rfl hsub
        fun d hd => hs d (List.mem_cons_of_mem _ hd)]
    dsimp only
    rw [hstay, hleave, List.append_assoc, List.append_assoc, List.length_append,
      Nat.sub_sub]

/-- **A turn of the worker**: everyone is ticked, those that have just come
included. -/
theorem networkTick_eq (t : NetworkTick) {s : Service}
    (hn : (((fresh s.nextConn t).reverse ++ s.clients).map Prod.fst).Nodup)
    (hs : ∀ e ∈ s.clients, e.2.stays = true) :
    s.networkTick t
      = { s with
          clients := staying (serveAll t
            ((fresh s.nextConn t).reverse ++ s.clients))
          clientCount := s.clientCount + (fresh s.nextConn t).length
            - (leaving (serveAll t
              ((fresh s.nextConn t).reverse ++ s.clients))).length
          nextConn := s.nextConn + (fresh s.nextConn t).length
          removed := s.removed ++ leaving (serveAll t
            ((fresh s.nextConn t).reverse ++ s.clients)) } := by
  unfold networkTick
  rw [acceptClients_eq]
  refine foldl_tickClient t _ [] rfl hn fun e he => ?_
  rcases List.mem_append.mp he with he | he
  · exact stays_of_mem_fresh (List.mem_reverse.mp he)
  · exact hs e he

/-- **Closing**: every client there is is removed. -/
theorem close_eq {s : Service} (hn : (s.clients.map Prod.fst).Nodup) :
    s.close = { s with
      clients := []
      clientCount := s.clientCount - s.clients.length
      removed := s.removed ++ s.clients } := by
  have key : ∀ (l : List (ℕ × Connection)) (s : Service), s.clients = l →
      (l.map Prod.fst).Nodup → (l.map Prod.fst).foldl clientRemove s
        = { s with
            clients := []
            clientCount := s.clientCount - l.length
            removed := s.removed ++ l } := by
    intro l
    induction l with
    | nil =>
      intro s h _
      show s = { s with clients := [], removed := s.removed ++ [] }
      rw [List.append_nil, ← h]
    | cons e l ih =>
      intro s h hn
      obtain ⟨hnot, hrest⟩ := List.nodup_cons.mp hn
      have hremove : s.clientRemove e.1 = { s with
          clients := l
          clientCount := s.clientCount - 1
          removed := s.removed ++ [e] } := by
        have hnil : e.1 ∉ ([] : List (ℕ × Connection)).map Prod.fst :=
          List.not_mem_nil
        have hfilter : (e :: l).filter (fun d => d.1 != e.1) = [] ++ l :=
          filter_ne_append hnil hnot
        have hfound : s.client? e.1 = some e := client?_of_append h hnil
        rw [clientRemove, hfound]
        dsimp only
        rw [h, hfilter, List.nil_append]
      rw [List.map_cons, List.foldl_cons, hremove, ih _ rfl hrest]
      dsimp only
      rw [Nat.sub_sub, Nat.add_comm 1, List.append_assoc]
      rfl
  exact key s.clients s rfl hn

end Service

/-! ## Every connection is on its own -/

/-- **What the service is behind some ticks**, by what its connections are on
their own. -/
structure Service.Alone (ts : List NetworkTick) (s : Service) : Prop where
  /-- The clients are those that are there, the latest first. -/
  clients : s.clients = (staying (alone 0 ts)).reverse
  /-- They are numbered as they come. -/
  nextConn : s.nextConn = (alone 0 ts).length
  /-- They are counted. -/
  count : s.clientCount = s.clients.length
  /-- The others have been removed, each of them once. -/
  removed : s.removed.Perm (leaving (alone 0 ts))

/-- Those that a tick finds, and those that come. -/
theorem Service.Alone.pool {ts : List NetworkTick} {s : Service}
    (h : s.Alone ts) (t : NetworkTick) :
    (fresh s.nextConn t).reverse ++ s.clients
      = (staying (alone 0 ts ++ fresh s.nextConn t)).reverse := by
  have hfresh : staying (fresh s.nextConn t) = fresh s.nextConn t :=
    List.filter_eq_self.mpr fun e he => stays_of_mem_fresh he
  rw [staying_append, hfresh, List.reverse_append, h.clients]

/-- The connections behind a tick are those before it and those that come. -/
theorem Service.Alone.alone_append {ts : List NetworkTick} {s : Service}
    (h : s.Alone ts) (t : NetworkTick) :
    alone 0 (ts ++ [t]) = serveAll t (alone 0 ts ++ fresh s.nextConn t) := by
  rw [Telemetry.alone_append, Nat.zero_add, h.nextConn]

/-- No two of them have the same number. -/
theorem Service.Alone.nodup {ts : List NetworkTick} {s : Service}
    (h : s.Alone ts) (t : NetworkTick) :
    (((fresh s.nextConn t).reverse ++ s.clients).map Prod.fst).Nodup := by
  have hall : ((alone 0 ts ++ fresh s.nextConn t).map Prod.fst).Nodup := by
    rw [← map_fst_serveAll t, ← h.alone_append, map_fst_alone]
    exact List.nodup_range'
  rw [h.pool, List.map_reverse]
  exact List.nodup_reverse.mpr (hall.sublist (List.filter_sublist.map Prod.fst))

/-- Whoever is there stays until it is ticked. -/
theorem Service.Alone.stays {ts : List NetworkTick} {s : Service}
    (h : s.Alone ts) : ∀ e ∈ s.clients, e.2.stays = true := by
  intro e he
  rw [h.clients, List.mem_reverse] at he
  exact (List.mem_filter.mp he).2

/-- **A tick keeps that.** -/
theorem Service.Alone.networkTick {ts : List NetworkTick} {s : Service}
    (h : s.Alone ts) (t : NetworkTick) : (s.networkTick t).Alone (ts ++ [t]) := by
  have hpool := h.pool t
  have hnext := h.alone_append t
  have hrev : ∀ l : List (ℕ × Connection),
      serveAll t l.reverse = (serveAll t l).reverse := fun l =>
    List.map_reverse
  have hclients : staying (serveAll t
        ((fresh s.nextConn t).reverse ++ s.clients))
      = (staying (alone 0 (ts ++ [t]))).reverse := by
    rw [hpool, hrev, staying, List.filter_reverse, hnext,
      ← staying_serveAll_staying]
    rfl
  have hleft : (leaving (serveAll t ((fresh s.nextConn t).reverse
      ++ s.clients))).Perm (leaving (serveAll t
        (staying (alone 0 ts ++ fresh s.nextConn t)))) := by
    rw [hpool, hrev, leaving, List.filter_reverse]
    exact List.reverse_perm _
  rw [s.networkTick_eq t (h.nodup t) h.stays]
  refine ⟨hclients, ?_, ?_, ?_⟩
  · rw [hnext, length_serveAll, List.length_append, h.nextConn]
  · have hlen := length_staying_add_leaving (serveAll t
      ((fresh s.nextConn t).reverse ++ s.clients))
    rw [length_serveAll, List.length_append, List.length_reverse] at hlen
    dsimp only
    rw [h.count]
    omega
  · have hleave : leaving (alone 0 ts ++ fresh s.nextConn t)
        = leaving (alone 0 ts) := by
      have hnone : leaving (fresh s.nextConn t) = [] :=
        List.filter_eq_nil_iff.mpr fun e he => by
          rw [stays_of_mem_fresh he]
          exact Bool.false_ne_true
      rw [leaving_append, hnone, List.append_nil]
    rw [hnext]
    refine (h.removed.append hleft).trans ?_
    rw [← hleave]
    exact leaving_serveAll_perm t _

/-- **Every run keeps it.** -/
theorem Service.alone_of_run (ts : List NetworkTick) :
    (worker.run .init ts).Alone ts := by
  induction ts using List.reverseRecOn with
  | nil => exact ⟨rfl, rfl, rfl, .rfl⟩
  | append_singleton ts t ih =>
    rw [Machine.run_append]
    exact ih.networkTick t

/-- **A tick kills the process** if it meets a broken pipe on one of the
connections, each on its own. -/
theorem Service.Alone.kills_iff {ts : List NetworkTick} {s : Service}
    (h : s.Alone ts) (t : NetworkTick) : s.kills t = true
      ↔ ∃ e ∈ alone 0 ts ++ fresh (alone 0 ts).length t,
        e.2.kills e.1 t = true := by
  unfold Service.kills
  rw [acceptClients_eq]
  dsimp only
  rw [h.pool, List.any_reverse, List.any_eq_true, ← h.nextConn]
  constructor
  · rintro ⟨e, he, hk⟩
    exact ⟨e, (List.mem_filter.mp he).1, hk⟩
  · rintro ⟨e, he, hk⟩
    -- a connection that is gone is not ticked
    have hstays : e.2.stays = true := (Bool.and_eq_true_iff.mp hk).1
    exact ⟨e, List.mem_filter.mpr ⟨he, hstays⟩, hk⟩

/-- **The connections of the telemetry service are isolated**, but for the
process they share. Whatever the ticks, whoever comes and whatever the others
do: the process is killed exactly if one of the connections, served on its own
from its acceptance on, meets a broken pipe. As long as it is not, what the
service makes of a connection is what `client_tick` makes of it alone, tick by
tick. The clients are those connections that have not been given up by then,
the latest first; the others have been removed, each of them once; and
`client_count` counts the clients. -/
theorem worker_alone (ts : List NetworkTick) :
    (mortalWorker.run (some .init) ts = none
        ↔ ∃ before t after, ts = before ++ t :: after
          ∧ ∃ e ∈ alone 0 before ++ fresh (alone 0 before).length t,
            e.2.kills e.1 t = true)
      ∧ ∀ s, mortalWorker.run (some .init) ts = some s →
        s.clients = ((alone 0 ts).filter fun e => e.2.stays).reverse
          ∧ (s.removed ++ s.clients).Perm (alone 0 ts)
          ∧ (s.removed.map Prod.fst ++ s.clients.map Prod.fst).Nodup
          ∧ s.clientCount = s.clients.length
          ∧ s.nextConn = (alone 0 ts).length := by
  constructor
  · refine Machine.run_mortal_eq_none.trans ?_
    refine exists_congr fun before => exists_congr fun t =>
      exists_congr fun after => and_congr_right fun _ => ?_
    exact (Service.alone_of_run before).kills_iff t
  · intro s hs
    have h : s.Alone ts := by
      rw [Machine.eq_run_of_mortal hs]
      exact Service.alone_of_run ts
    have hperm : (s.removed ++ s.clients).Perm (alone 0 ts) := by
      rw [h.clients]
      refine (h.removed.append (List.reverse_perm _)).trans ?_
      exact List.perm_append_comm.trans (List.filter_append_perm _ _)
    refine ⟨h.clients, hperm, ?_, h.count, h.nextConn⟩
    rw [← List.map_append, (hperm.map Prod.fst).nodup_iff, map_fst_alone]
    exact List.nodup_range'

/-- Two clients who ask for nothing. The first takes five bytes of its answer in
every tick; so does the second in the first, and in the second tick its socket
fails in a way of its own. -/
def twoComing (fails : SendAttempt) : List AcceptAttempt :=
  let asks : List RecvOutcome := [.data Http.cr [Http.lf, Http.cr, Http.lf]]
  [.client asks [.took 5, .wouldBlock, .took 5, .wouldBlock],
    .client asks [.took 5, .wouldBlock, fails]]

/-- Two ticks of theirs. -/
def twoClients (fails : SendAttempt) : List NetworkTick :=
  let t : NetworkTick := ⟨fun _ => ⟨[], fun _ => 0⟩, .zero, 1, []⟩
  [{ t with attempts := twoComing fails }, t]

/-- **One of them fails**, and the other stays. If it is a broken pipe that it
meets, neither of them does. -/
theorem worker_alone_twoClients :
    mortalWorker.run (some .init) (twoClients .brokenPipe) = none
      ∧ ∃ s, mortalWorker.run (some .init) (twoClients .failed) = some s
        ∧ s.clients.map (fun e => (e.1, e.2.sent.length)) = [(0, 10)]
        ∧ s.removed.map Prod.fst = [1] ∧ s.clientCount = 1 := by
  constructor
  · refine (worker_alone _).1.mpr ⟨(twoClients .brokenPipe).take 1, _, [], rfl,
      ?_⟩
    decide +kernel
  · have hlives : (mortalWorker.run (some .init)
        (twoClients .failed)).isSome = true := by decide +kernel
    obtain ⟨s, hs⟩ := Option.isSome_iff_exists.mp hlives
    obtain ⟨hclients, hperm, _, hcount, _⟩ := (worker_alone _).2 s hs
    have hsent : s.clients.map (fun e => (e.1, e.2.sent.length)) = [(0, 10)] := by
      rw [hclients]
      decide +kernel
    have hnumbers : (s.removed.map Prod.fst ++ [0]).Perm [0, 1] := by
      have h := hperm.map Prod.fst
      rw [List.map_append, map_fst_alone, hclients] at h
      exact h
    refine ⟨s, hs, hsent, ?_, ?_⟩
    · exact List.perm_singleton.mp
        ((List.perm_append_right_iff [0]).mp (hnumbers.trans (.swap 1 0 [])))
    · rw [hcount]
      simpa using congrArg List.length hsent

/-! ## Nobody is there for long -/

/-- Nothing but `accept_clients` sets `connected_at`. -/
theorem connectedAt_prepareResponse (heap : Heap) (c : Client)
    (status : Option TelemetryStatus) :
    (prepareResponse heap c status).2.connectedAt = c.connectedAt := by
  unfold prepareResponse
  dsimp only
  split
  · split <;> rfl
  · rfl

theorem connectedAt_receiveLoop (heap : Heap) (status : Option TelemetryStatus)
    (inbox : List RecvOutcome) (c : Client) :
    (receiveLoop heap status inbox c).client.connectedAt = c.connectedAt := by
  induction inbox generalizing c with
  | nil =>
    unfold receiveLoop
    split <;> rfl
  | cons o rest ih =>
    unfold receiveLoop
    split
    · rfl
    cases o with
    | data x xs =>
      dsimp only
      split
      · exact connectedAt_prepareResponse heap _ status
      split
      · rfl
      · exact ih _
    | interrupted => exact ih c
    | closed => rfl
    | wouldBlock => rfl
    | failed => rfl

theorem connectedAt_sendLoop (outbox : List SendAttempt) (c : Client) :
    (sendLoop outbox c).client.connectedAt = c.connectedAt := by
  induction outbox generalizing c with
  | nil =>
    unfold sendLoop
    split <;> rfl
  | cons o rest ih =>
    unfold sendLoop
    split
    · rfl
    cases o with
    | interrupted => exact ih c
    | wouldBlock => rfl
    | failed => rfl
    | brokenPipe => rfl
    | took k =>
      cases k with
      | zero => rfl
      | succ k => exact ih _

/-- **A client that stays** has not been there for too long. -/
theorem clientTick_timely (heap : Heap) (status : Option TelemetryStatus)
    (now : ℤ) (inbox : List RecvOutcome) (outbox : List SendAttempt)
    (c : Client) :
    let r := clientTick heap status now inbox outbox c
    r.client.connectedAt = c.connectedAt
      ∧ (r.stays = true → ¬ TimedOut c.connectedAt now) := by
  unfold clientTick
  generalize hr : (if c.responseLength = 0 then receiveLoop heap status inbox c
    else ⟨.blocked, c, inbox⟩) = r
  have hloop : r.client.connectedAt = c.connectedAt := by
    rw [← hr]
    split
    · exact connectedAt_receiveLoop heap status inbox c
    · rfl
  dsimp only
  split
  · exact ⟨hloop, fun h => absurd h Bool.false_ne_true⟩
  split
  · refine ⟨hloop, fun h => ?_⟩
    rw [← hloop]
    exact of_decide_eq_true h
  · have hsend := (connectedAt_sendLoop outbox r.client).trans hloop
    refine ⟨hsend, fun h => ?_⟩
    rw [← hsend]
    exact (of_decide_eq_true h).2

/-- So has a connection. -/
theorem Connection.serve_timely (n : ℕ) (w : Connection) (t : NetworkTick) :
    (w.serve n t).client.connectedAt = w.client.connectedAt
      ∧ ((w.serve n t).stays = true →
        ¬ TimedOut w.client.connectedAt t.now) := by
  unfold Connection.serve
  split
  · exact clientTick_timely ..
  next hs => exact ⟨rfl, fun h => absurd h hs⟩

theorem connectedAt_foldl_serve (n : ℕ) (ts : List NetworkTick)
    (w : Connection) :
    (ts.foldl (Connection.serve n) w).client.connectedAt
      = w.client.connectedAt := by
  induction ts generalizing w with
  | nil => rfl
  | cons t ts ih => exact (ih _).trans (w.serve_timely n t).1

/-- How many of the connections that a tick accepts can be there at some
time. -/
def arrivals (now : ℤ) (t : NetworkTick) : ℕ :=
  if TimedOut t.now now then 0 else (admitted t.attempts).length

/-- **Those that a tick has accepted**, behind more ticks, the last at some
time: they have the time of the tick, and none is there for too long. -/
theorem staying_of_fresh (n : ℕ) (u t : NetworkTick) (ts : List NetworkTick) :
    let l := staying ((fresh n u).map fun e =>
      (e.1, (ts ++ [t]).foldl (Connection.serve e.1) e.2))
    (∀ e ∈ l, e.2.client.connectedAt = u.now ∧ ¬ TimedOut u.now t.now)
      ∧ l.length ≤ arrivals t.now u := by
  intro l
  have hl : ∀ e ∈ l, e.2.client.connectedAt = u.now
      ∧ ¬ TimedOut u.now t.now := by
    intro e he
    obtain ⟨he, hstays⟩ := List.mem_filter.mp he
    obtain ⟨d, hd, rfl⟩ := List.mem_map.mp he
    obtain ⟨p, _, rfl⟩ := List.mem_map.mp hd
    dsimp only at hstays ⊢
    have hc := connectedAt_foldl_serve p.2 ts (.accepted u.now p.1.1 p.1.2)
    rw [List.foldl_append] at hstays
    refine ⟨connectedAt_foldl_serve p.2 (ts ++ [t]) _, fun ht => ?_⟩
    exact (Connection.serve_timely p.2 _ t).2 hstays (hc ▸ ht)
  refine ⟨hl, ?_⟩
  unfold arrivals
  split
  next ht =>
    refine le_of_eq (List.length_eq_zero_iff.mpr ?_)
    exact List.eq_nil_iff_forall_not_mem.mpr fun e he => (hl e he).2 ht
  next =>
    refine (List.length_filter_le _ _).trans_eq ?_
    rw [List.length_map, fresh, List.length_map, List.length_zipIdx]

/-- **Nobody is in the list for long.** Behind a tick, every client has been
accepted by a tick less than two seconds before, or by one that has seen a later
time, or by one at the time zero, which is taken for no time at all. So there
are no more clients than such ticks have accepted, whatever the clients send
and however little they read. -/
theorem worker_timely (ts : List NetworkTick) (t : NetworkTick) :
    let s := worker.run .init (ts ++ [t])
    (∀ e ∈ s.clients, ∃ u ∈ ts ++ [t], e.2.client.connectedAt = u.now
        ∧ (u.now = 0 ∨ t.now < u.now ∨ t.now - u.now < 2))
      ∧ s.clientCount ≤ ((ts ++ [t]).map (arrivals t.now)).sum := by
  intro s
  have key : ∀ n, (∀ e ∈ staying (alone n (ts ++ [t])), ∃ u ∈ ts ++ [t],
        e.2.client.connectedAt = u.now ∧ ¬ TimedOut u.now t.now)
      ∧ (staying (alone n (ts ++ [t]))).length
        ≤ ((ts ++ [t]).map (arrivals t.now)).sum := by
    induction ts with
    | nil =>
      intro n
      obtain ⟨hall, hlen⟩ := staying_of_fresh n t t []
      have he : alone n ([] ++ [t])
          = (fresh n t).map fun e =>
            (e.1, ([] ++ [t]).foldl (Connection.serve e.1) e.2) :=
        List.append_nil _
      rw [he]
      exact ⟨fun e he => ⟨t, List.mem_cons_self, hall e he⟩, hlen⟩
    | cons u ts ih =>
      intro n
      obtain ⟨hall, hlen⟩ := staying_of_fresh n u t (u :: ts)
      obtain ⟨hall', hlen'⟩ := ih (n + (fresh n u).length)
      rw [List.cons_append, alone, staying_append, List.map_cons, List.sum_cons,
        List.length_append]
      refine ⟨fun e he => ?_, Nat.add_le_add hlen hlen'⟩
      rcases List.mem_append.mp he with he | he
      · exact ⟨u, List.mem_cons_self, hall e he⟩
      · obtain ⟨v, hv, h⟩ := hall' e he
        exact ⟨v, List.mem_cons_of_mem _ hv, h⟩
  obtain ⟨hall, hlen⟩ := key 0
  have h : s.Alone (ts ++ [t]) := Service.alone_of_run _
  refine ⟨fun e he => ?_, ?_⟩
  · rw [h.clients, List.mem_reverse] at he
    obtain ⟨u, hu, hc, ht⟩ := hall e he
    refine ⟨u, hu, hc, ?_⟩
    unfold TimedOut clientTimeoutSeconds at ht
    omega
  · rw [h.count, h.clients, List.length_reverse]
    exact hlen

/-! ## What becomes of a connection -/

/-- **What a connection is between two ticks**, whatever its socket does and
however late it is. -/
inductive Course (request : Bytes) (snapshots : TelemetrySnapshot → Prop)
    (w : Connection) : Prop where
  /-- It is reading, or has been given up while it was. -/
  | reading {got : Bytes} (h : Reading request w.client w.inbox got)
    (prepared : w.prepared = []) (sent : w.sent = [])
  /-- It is answering, or has been given up while it was. -/
  | answering {snapshot : TelemetrySnapshot} (hs : snapshots snapshot)
    {reply : Bytes} (hr : reply = replyTo
      (requestValid (some request) request.length) snapshot.toStatus)
    (h : Answering request w.client reply) (prepared : w.prepared = [reply])
    (sent : w.sent = reply.take w.client.responseSent)
    (le : w.client.responseSent ≤ reply.length)
  /-- It has been given up without an answer. -/
  | dropped (stays : w.stays = false) (h : Dropped request w.client)
    (prepared : w.prepared = []) (sent : w.sent = [])

section Course

variable {request : Bytes} {snapshots : TelemetrySnapshot → Prop}
  {w : Connection} {t : NetworkTick}

/-- A client sends what it can of a response. -/
theorem course_of_send {snapshot : TelemetrySnapshot} (hs : snapshots snapshot)
    {reply : Bytes} (hr : reply = replyTo
      (requestValid (some request) request.length) snapshot.toStatus)
    {c : Client} (h : Answering request c reply)
    (hle : c.responseSent ≤ reply.length) (outbox : List SendAttempt)
    (hclient : w.client = (sendLoop outbox c).client)
    (hprepared : w.prepared = [reply])
    (hsent : w.sent = reply.take c.responseSent ++ (sendLoop outbox c).sent) :
    Course request snapshots w := by
  obtain ⟨ha, _, htake, hl, _, _⟩ := sendLoop_cases outbox h hle
  exact .answering hs hr (hclient ▸ ha) hprepared
    (by rw [hsent, hclient, htake]) (hclient ▸ hl)

/-- **A tick keeps that.** -/
theorem Course.serve (h : Course request snapshots w) (held : t.snapshot.Held)
    (hs : snapshots t.snapshot) (n : ℕ) :
    Course request snapshots (w.serve n t) := by
  cases hstays : w.stays with
  | false =>
    rw [Connection.serve_of_gone t hstays]
    exact h
  | true =>
  unfold Connection.serve
  rw [if_pos hstays]
  cases h with
  | reading h prepared sent =>
    obtain ⟨_, hcases⟩ := receiveLoop_cases held (t.heap n) h
    generalize hr : receiveLoop (t.heap n) (some t.snapshot.toStatus) w.inbox
      w.client = r at hcases
    rcases hcases with ⟨hb, _, _, got, h'⟩ | ⟨hf, hzero, ha⟩ | ⟨hc, hd⟩
    · rw [clientTick_blocked _ _ _ _ _ h.idle hr hb h'.idle]
      refine .reading h' ?_ ?_
      · exact (List.append_nil _).trans prepared
      · exact (List.append_nil _).trans sent
    · rw [clientTick_finished _ _ _ _ _ h.idle hr hf ha.pos.ne']
      refine course_of_send hs rfl ha (hzero ▸ Nat.zero_le _) w.outbox rfl ?_ ?_
      · show w.prepared ++ _ = _
        rw [prepared, ← ha.length]
        exact congrArg (fun b => [b])
          (List.prefix_iff_eq_take.mp ha.begins).symm
      · show w.sent ++ _ = _
        rw [sent, hzero]
        rfl
    · rw [clientTick_closed _ _ _ _ _ h.idle hr hc]
      refine .dropped rfl hd ?_ ?_
      · exact (List.append_nil _).trans prepared
      · exact (List.append_nil _).trans sent
  | answering hs' hr h prepared sent le =>
    rw [clientTick_answering _ _ _ _ _ h.pos.ne']
    refine course_of_send hs' hr h le w.outbox rfl ?_ ?_
    · exact (List.append_nil _).trans prepared
    · show w.sent ++ _ = _
      rw [sent]
  | dropped stays => exact absurd (hstays.symm.trans stays) (by decide)

/-- So do all of them. -/
theorem Course.foldl_serve {ts : List NetworkTick}
    (h : Course request snapshots w) (hs : ∀ t ∈ ts, t.snapshot.Held
      ∧ snapshots t.snapshot) (n : ℕ) :
    Course request snapshots (ts.foldl (Connection.serve n) w) := by
  induction ts generalizing w with
  | nil => exact h
  | cons t ts ih =>
    obtain ⟨held, ht⟩ := hs t List.mem_cons_self
    exact ih (h.serve held ht n) fun u hu => hs u (List.mem_cons_of_mem _ hu)

/-- It is reading at first. -/
theorem course_accepted (snapshots : TelemetrySnapshot → Prop)
    (connectedAt : ℤ) (inbox : List RecvOutcome) (outbox : List SendAttempt) :
    Course (stream inbox) snapshots (.accepted connectedAt inbox outbox) :=
  .reading ⟨List.nil_prefix, rfl, Nat.zero_le _, rfl,
    fun k h => absurd (h.four_le.trans h.le_length) (by decide), rfl⟩ rfl rfl

/-- **What has become of a connection**: it has received no more than fits;
there is one reply at most, once the request has come to its blank line, which
one depends on the request, and it is about one of some snapshots; and what has
been sent is the reply from its beginning. -/
structure Connection.Replied (request : Bytes)
    (snapshots : TelemetrySnapshot → Prop) (w : Connection) : Prop where
  /-- What has been received fits. -/
  received : w.client.requestLength ≤ 1023
  /-- There is one reply at most. -/
  once : w.prepared.length ≤ 1
  /-- The request has come to its blank line. -/
  complete : w.prepared ≠ [] → ∃ k ≤ 1023, EndsAt request k
  /-- What the reply is. -/
  reply : ∀ reply ∈ w.prepared, ∃ snapshot, snapshots snapshot ∧ reply
    = replyTo (requestValid (some request) request.length) snapshot.toStatus
  /-- What has been sent of it. -/
  sent : w.sent <+: w.prepared.flatten

theorem Course.replied (h : Course request snapshots w) :
    w.Replied request snapshots := by
  cases h with
  | reading h prepared sent =>
    constructor
    · exact h.le
    all_goals simp [prepared, sent]
  | @answering snapshot hs reply hr h prepared sent le =>
    constructor
    · exact h.le
    · exact (congrArg List.length prepared).le
    · exact fun _ => h.complete
    · intro reply' hm
      rw [prepared] at hm
      exact ⟨snapshot, hs, (List.mem_singleton.mp hm).trans hr⟩
    · rw [prepared, sent, List.flatten_singleton]
      exact List.take_prefix _ _
  | dropped stays h prepared sent =>
    constructor
    · exact h.le
    all_goals simp [prepared, sent]

end Course

/-- **What becomes of every connection of the service.** Each has been accepted
with something to receive, and has been replied to from one of the snapshots
that `network_tick` has read since. -/
theorem replied_of_alone {ts : List NetworkTick}
    (held : ∀ t ∈ ts, t.snapshot.Held) {n : ℕ} {e : ℕ × Connection}
    (h : e ∈ alone n ts) : ∃ before u after p, ts = before ++ u :: after
      ∧ p ∈ admitted u.attempts ∧ e.2.client.connectedAt = u.now
      ∧ e.2.Replied (stream p.1)
        (fun s => ∃ t ∈ u :: after, t.snapshot = s) := by
  induction ts generalizing n with
  | nil => exact absurd h List.not_mem_nil
  | cons t ts ih =>
    rcases List.mem_append.mp h with h | h
    · obtain ⟨d, hd, rfl⟩ := List.mem_map.mp h
      obtain ⟨p, hp, rfl⟩ := List.mem_map.mp hd
      have hmem : p.1 ∈ admitted t.attempts := by
        obtain ⟨_, _, hget⟩ := List.mem_zipIdx hp
        rw [hget]
        exact List.getElem_mem _
      refine ⟨[], t, ts, p.1, rfl, hmem, connectedAt_foldl_serve .., ?_⟩
      refine Course.replied (.foldl_serve (course_accepted _ _ _ _) ?_ _)
      exact fun u hu => ⟨held u hu, u, hu, rfl⟩
    · obtain ⟨before, u, after, p, hts, hp, hc, hr⟩ :=
        ih (fun u hu => held u (List.mem_cons_of_mem _ hu)) h
      exact ⟨t :: before, u, after, p, by rw [hts]; rfl, hp, hc, hr⟩

end Telemetry
