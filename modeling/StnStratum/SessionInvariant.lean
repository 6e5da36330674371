import Mathlib.Data.List.Nodup
import StnStratum.Turns
import StnStratum.ServicePass
import StnStratum.Rehearsal

/-!
# What is true of every session

A session has fields that say something about each other and about the server:
whether it has a job, which one, whether it has an address, what the hash rate
is. `SessionOk` is what is always true of them, and `Counted` of the list of
sessions as a whole. Both hold between any two turns. What a session has
received of a frame is only determined once its turns are over: it is less
than what it waits for (`Waiting`).
-/

variable {τ : Type}

/-! ## A session -/

/-- **An address**: `stn0_`, 64 lower-case hexadecimal characters, and a
zero. -/
def IsAddress (address : Buf Miner.addressSize) : Prop :=
  ∃ digits : Bytes, digits.length = 64 ∧ digits.all hexDigit = true
    ∧ address.bytes = addressPrefix ++ digits ++ [0]

/-- **What is always true of a session.** -/
structure SessionOk (work : ActiveWork) (s : ClientSession) : Prop where
  /-- A job is of the work there is, and it was sent to an address. -/
  job : s.hasJob = true → work.haveWork = true ∧ s.addressRegistered = true
  /-- Without a job there is no trace of one. -/
  noJob : s.hasJob = false → s.sentJobId = Buf.zero _ ∧ s.hashrate = 0
  /-- An address that is registered is one. -/
  address : s.addressRegistered = true → IsAddress s.address

/-- An address that has been checked is stored as one. -/
theorem isAddress_registered {s : ClientSession}
    (h : addressValid s.rx.bytes = true) :
    IsAddress (World.registered s).address := by
  unfold addressValid at h
  simp only [Bool.and_eq_true, beq_iff_eq] at h
  obtain ⟨⟨_, hprefix⟩, hdigits⟩ := h
  have hrx : s.rx.bytes.length = 77 := s.rx.size
  have hidentity : slice s.rx.bytes 8 69
      = addressPrefix ++ slice s.rx.bytes 13 64 := by
    rw [← hprefix]
    exact (slice_append_slice s.rx.bytes 8 5 64).symm
  refine ⟨slice s.rx.bytes 13 64, length_slice (by omega), hdigits, ?_⟩
  have hlen : (slice s.rx.bytes 8 69).length = 69 := length_slice (by omega)
  have hb := ((s.address.begins_nil).write (i := 0)
    (s := slice s.rx.bytes 8 69) rfl (by rw [hlen]; decide)).write (i := 69)
    (s := [0]) hlen (by decide)
  rw [← hidentity]
  exact hb.bytes_eq (by
    rw [List.nil_append, List.length_append, hlen]
    rfl)

/-- A new session. -/
theorem sessionOk_init (work : ActiveWork) (c : ConnId) (mode : ServiceMode) :
    SessionOk work (.init c mode) :=
  ⟨nofun, fun _ => ⟨rfl, rfl⟩, nofun⟩

/-- **It is kept.** -/
theorem sessionRule_ok : SessionRule SessionOk where
  stored := by
    intro work s s' h hs
    cases hs with
    | received rx n => exact ⟨h.job, h.noJob, h.address⟩
    | registered hreg haddr =>
      refine ⟨fun hj => ?_, h.noJob, fun _ => isAddress_registered haddr⟩
      exact ⟨(h.job hj).1, rfl⟩
    | sent hreg hwork => exact ⟨fun _ => ⟨hwork, hreg⟩, nofun, h.address⟩
    | rated rate hr =>
      refine ⟨h.job, fun hj => ?_, h.address⟩
      rcases hr with hj' | rfl
      · exact absurd (hj.symm.trans hj') Bool.false_ne_true
      · exact ⟨(h.noJob hj).1, rfl⟩
  cleared h _ := ⟨nofun, fun _ => ⟨rfl, rfl⟩, h.address⟩
  installed h hw := ⟨fun hj => ⟨hw, (h.job hj).2⟩, h.noJob, h.address⟩

/-- **A session whose address is registered keeps it**: so does every session
of its connection. -/
theorem sessionRule_address (c : ConnId) (address : Buf Miner.addressSize) :
    SessionRule fun _ s => s.socket = c → s.addressRegistered = true
      ∧ s.address = address where
  stored := by
    intro work s s' h hs
    cases hs with
    | registered hreg _ =>
      intro hc
      exact absurd (hreg.symm.trans (h hc).1) Bool.false_ne_true
    | _ => exact h
  cleared h _ := h
  installed h _ := h

/-! ## The list of sessions -/

/-- **The sessions are counted**: no connection has two, and the counter says
how many there are. -/
structure Counted (w : World τ) : Prop where
  /-- No session twice. -/
  nodup : w.sockets.Nodup
  /-- `client_count`. -/
  count : w.server.clientCount = w.server.clients.length
  /-- A new connection is new. -/
  lt : ∀ c ∈ w.sockets, c < w.nextConn

/-- A session that is removed was one of them. -/
theorem Counted.clientRemove {w : World τ} (h : Counted w) (c : ConnId)
    (reason : Removal) : Counted (w.clientRemove c reason) := by
  cases hs : w.client? c with
  | none => rwa [World.clientRemove_of_none _ _ _ hs]
  | some s =>
    have hmem := World.mem_sockets_iff.mpr ⟨s, hs⟩
    have hsockets := World.sockets_clientRemove w c reason
    have hlen : (w.clientRemove c reason).server.clients.length
        = w.server.clients.length - 1 := by
      have := congrArg List.length hsockets
      rw [← h.nodup.erase_eq_filter, List.length_erase_of_mem hmem] at this
      unfold World.sockets at this
      rwa [List.length_map, List.length_map] at this
    refine ⟨?_, ?_, fun d hd => ?_⟩
    · rw [hsockets]
      exact h.nodup.filter _
    · rw [hlen, ← h.count, World.clientRemove_of_some _ _ _ hs]
    · rw [hsockets] at hd
      rw [World.clientRemove_of_some _ _ _ hs]
      exact h.lt d (List.mem_of_mem_filter hd)

/-- **It is kept.** -/
theorem sessionsRule_counted : SessionsRule (τ := τ) Counted where
  same h hc hn _ hx _ := by
    refine ⟨?_, by rw [hn, hc]; exact h.count, ?_⟩ <;> unfold World.sockets
    · rw [hc]
      exact h.nodup
    · rw [hc, hx]
      exact h.lt
  setClient h hf _ := by
    refine ⟨?_, ?_, ?_⟩
    · rw [World.sockets_setClient hf]
      exact h.nodup
    · exact h.count.trans (List.length_map _).symm
    · rw [World.sockets_setClient hf]
      exact h.lt
  clientRemove c reason h := h.clientRemove c reason
  setServer := by
    intro w f h hk
    have hsockets : (w.setServer f).sockets = w.sockets := by
      unfold World.sockets
      rcases hk.2 with ⟨_, hc⟩ | ⟨_, hc⟩
      · rw [show (w.setServer f).server.clients = _ from hc]
      · rw [show (w.setServer f).server.clients = _ from hc, List.map_map]
        rfl
    have hlen : (w.setServer f).server.clients.length
        = w.server.clients.length := by
      have := congrArg List.length hsockets
      unfold World.sockets at this
      rwa [List.length_map, List.length_map] at this
    refine ⟨by rw [hsockets]; exact h.nodup, ?_, by rw [hsockets]; exact h.lt⟩
    rw [hlen, ← h.count]
    exact hk.1
  installs h hi := by
    refine ⟨?_, by rw [hi.clientCount, hi.clients]; exact h.count, ?_⟩ <;>
      unfold World.sockets <;> rw [hi.clients]
    · exact h.nodup
    · rw [hi.nextConn]
      exact h.lt

/-- An accepted session is one more. -/
theorem Counted.acceptSession {w : World τ} (h : Counted w)
    (mode : ServiceMode) : Counted (w.acceptSession mode) := by
  refine ⟨?_, congrArg (· + 1) h.count, ?_⟩
  · exact List.nodup_cons.mpr
      ⟨fun hm => Nat.lt_irrefl _ (h.lt _ hm), h.nodup⟩
  · intro c hc
    rcases List.mem_cons.mp hc with rfl | hc
    · exact Nat.lt_succ_self _
    · exact Nat.lt_succ_of_lt (h.lt c hc)

section Reachable

variable {P : Platform} {T : ChainTransport τ} {w : World τ}

/-- **The sessions are counted in every state that can be.** -/
theorem counted_of_turns (h : (turns P T).Reachable w) : Counted w := by
  refine h.invariant (P := Counted) (fun w hw => ?_) fun w a _ hc =>
    sessionsRule_counted.act (fun _ h mode => h.acceptSession mode) hc a
  refine ⟨hw.orderly.nodup, ?_, hw.orderly.lt⟩
  obtain ⟨entry, chain, transport, hs⟩ := hw.server
  rw [hs]
  rfl

/-- The session of a connection is the one in the list. -/
theorem Counted.client?_of_mem (h : Counted w) {s : ClientSession}
    (hs : s ∈ w.server.clients) : w.client? s.socket = some s := by
  obtain ⟨s', hs'⟩ := World.mem_sockets_iff.mp (List.mem_map_of_mem hs)
  rw [hs']
  refine congrArg some ?_
  exact List.inj_on_of_nodup_map h.nodup (World.mem_clients_of_client? hs') hs
    (World.socket_of_client? hs')

end Reachable

/-- **A session waits for more than it has**: fewer than the eight bytes of a
header, or fewer than the frame that its header selects. -/
def Waiting (s : ClientSession) : Prop :=
  s.rxUsed < 8 ∨ ∃ n, Miner.headerValid s.rx.bytes = true
    ∧ Miner.frameSizeOf (s.rx.bytes.getD 5 0) = some n ∧ s.rxUsed < n

/-- So it is between two actions. -/
theorem Ready.waiting {w : World τ} {c : ConnId} {s : ClientSession}
    (h : Ready c w) (hs : w.client? c = some s) : Waiting s := by
  obtain ⟨hu, hinc⟩ := h s hs
  by_cases h8 : s.rxUsed < 8
  · exact .inl h8
  · exact .inr (announced_of_incomplete hu hinc (not_lt.mp h8))

/-- **The session invariant.** Turn by turn no session is in the list twice,
`client_count` is their number, and all that `SessionOk` says is true of each
of them. An address that is registered stays as it is for as long as the
session lasts. And between two actions every session waits for more than it
has. -/
theorem session_invariant (T : ChainTransport τ) :
    (∀ w, (turns .linux T).Reachable w →
      w.server.clients.Nodup ∧ w.sockets.Nodup
      ∧ w.server.clientCount = w.server.clients.length
      ∧ (∀ s ∈ w.server.clients, SessionOk w.server.work s)
      ∧ ∀ as c s s', w.client? c = some s → s.addressRegistered = true →
        ((turns .linux T).run w as).client? c = some s' →
        s'.addressRegistered = true ∧ s'.address = s.address)
    ∧ ∀ w, (stratum .linux T).Reachable w →
      ∀ s ∈ w.server.clients, Waiting s := by
  constructor
  · intro w h
    have hc := counted_of_turns h
    refine ⟨.of_map _ hc.nodup, hc.nodup, hc.count, fun s hs => ?_, ?_⟩
    · exact Sessions.of_reachable sessionRule_ok sessionOk_init h _ _
        (hc.client?_of_mem hs)
    · intro as c s s' hs hreg hs'
      refine Sessions.run (sessionRule_address c s.address) (fun d s₁ hs₁ => ?_)
        (fun work d mode hd => ?_) as c s' hs' (World.socket_of_client? hs')
      · intro hd
        rw [World.socket_of_client? hs₁] at hd
        subst hd
        obtain rfl := Option.some.inj (hs.symm.trans hs₁)
        exact ⟨hreg, rfl⟩
      · intro he
        exact absurd (hc.lt c (World.mem_sockets_iff.mpr ⟨s, hs⟩))
          (not_lt.mpr (he ▸ hd))
  · intro w h s hs
    exact (ready_of_run h _).waiting
      ((counted_of_turns h.turns).client?_of_mem hs)

/-- In the rehearsal the miner registers and gets the job: its address is one,
and stays when the work is lost. -/
theorem session_invariant_rehearsal :
    let w := (stratum .linux Rpc.replay).run (rehearsal 0)
      (performance.take 3)
    ∃ s, w.client? 0 = some s ∧ s.hasJob = true ∧ IsAddress s.address
      ∧ Waiting s ∧ ∀ s', ((turns .linux Rpc.replay).run w
        [.service 0]).client? 0 = some s' → s'.address = s.address := by
  intro w
  have hjob : ((w.client? 0).map fun s => s.hasJob) = some true := by
    decide +kernel
  obtain ⟨s, hs, hj⟩ := Option.map_eq_some_iff.mp hjob
  have hw : (stratum .linux Rpc.replay).Reachable w := reachable_rehearsal ..
  have h := session_invariant Rpc.replay
  obtain ⟨_, _, _, hok, haddr⟩ := h.1 w hw.turns
  have hmem := World.mem_clients_of_client? hs
  have hreg := ((hok s hmem).job hj).2
  exact ⟨s, hs, hj, (hok s hmem).address hreg, h.2 w hw s hmem,
    fun s' hs' => (haddr [.service 0] 0 s s' hs hreg hs').2⟩
