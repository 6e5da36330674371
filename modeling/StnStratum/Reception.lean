import StnStratum.Moves

/-!
# The receive loops

A `service_client` can be left at any byte and taken up again at the next
pass. `TurnCase` says what one turn comes to, in terms of the bytes the
session has and those that can be read in one go: the turn waits if they make
no frame, it ends the session if they make a bad header, and otherwise it
takes just the bytes of the first frame and hands that over. The Windows loop
has a case of its own. It waits for eight bytes when it has fewer, and then
hands over those.

From this comes the invariant of the framing on Linux. The bytes received so
far are the frames handed over followed by what the session has, and no
further frame begins there; and a stream can be cut in only one such way
(`Framing.decompose_eq`). So what is handed over is a function of the bytes
and not of how they came.
-/

variable {τ : Type}

/-! ## Storing what was received -/

namespace ClientSession

variable {s : ClientSession}

theorem length_pending (h : s.rxUsed ≤ 77) : s.pending.length = s.rxUsed := by
  rw [pending, List.length_take, s.rx.size]
  exact Nat.min_eq_left h

/-- The frame grows by what is stored. -/
theorem pending_store {got : Bytes} (h : s.rxUsed + got.length ≤ 77) :
    (s.store got).pending = s.pending ++ got :=
  Buf.take_write h

/-- Nothing stored, nothing changed. -/
@[simp] theorem store_nil (s : ClientSession) : s.store [] = s := by
  unfold store
  rw [Buf.write_nil]
  rfl

/-- The header check of the buffer is that of the frame. -/
theorem headerValid_pending (h : 8 ≤ s.rxUsed) :
    Miner.headerValid s.pending = Miner.headerValid s.rx.bytes :=
  Miner.headerValid_take _ h

/-- The type in the buffer is that of the frame. -/
theorem type_pending (h : 8 ≤ s.rxUsed) :
    s.pending.getD 5 0 = s.rx.bytes.getD 5 0 :=
  Miner.getD_take (by omega)

end ClientSession

/-! ## Receiving into a session -/

/-- **Bytes received into a session**: they go to the end of its frame, they
come from the front of what there is to read, and nothing else changes. -/
structure Receives (c : ConnId) (w w' : World τ) (s s' : ClientSession)
    (got : Bytes) : Prop where
  /-- Nobody else is touched. -/
  acts : Acts c w w' []
  /-- The session is still there. -/
  client : w'.client? c = some s'
  /-- Its frame has grown. -/
  pending : s'.pending = s.pending ++ got
  /-- So has its count. -/
  rxUsed : s'.rxUsed = s.rxUsed + got.length
  /-- It still fits. -/
  fits : s'.rxUsed ≤ 77
  /-- Behind the frame the buffer is as it was. -/
  behind : ∀ i m, s'.rxUsed ≤ i → slice s'.rx.bytes i m = slice s.rx.bytes i m
  /-- The rest of the session is as it was. -/
  keeps : s' = { s with rx := s'.rx, rxUsed := s'.rxUsed }
  /-- The bytes have been received. -/
  received : (w'.peers c).received = (w.peers c).received ++ got
  /-- They were the next to be read. -/
  data : got ++ allData (w'.peers c).inbox = allData (w.peers c).inbox
  /-- No call asked for a byte past the end of `rx`. -/
  asks : ∃ as, (w'.peers c).asks = (w.peers c).asks ++ as
    ∧ ∀ a ∈ as, 0 < a.2 ∧ a.1 + a.2 ≤ 77
  /-- Nothing was sent. -/
  outcomes : (w'.peers c).outcomes = (w.peers c).outcomes
  /-- The work is as it was. -/
  work : w'.server.work = w.server.work
  /-- So is all of the server but its sessions. -/
  server : w'.server = { w.server with clients := w'.server.clients }
  /-- So are the other sessions. -/
  others : w'.others c = w.others c

/-- Receiving in two steps. -/
theorem Receives.trans {c : ConnId} {w w' w'' : World τ}
    {s s' s'' : ClientSession} {got got' : Bytes}
    (h : Receives c w w' s s' got) (h' : Receives c w' w'' s' s'' got') :
    Receives c w w'' s s'' (got ++ got') where
  acts := h.acts.trans h'.acts
  client := h'.client
  pending := by rw [h'.pending, h.pending, List.append_assoc]
  rxUsed := by rw [h'.rxUsed, h.rxUsed, List.length_append, Nat.add_assoc]
  fits := h'.fits
  behind i m hi := by
    rw [h'.behind i m hi, h.behind i m]
    have := h'.rxUsed
    omega
  keeps := by rw [h'.keeps, h.keeps]
  received := by rw [h'.received, h.received, List.append_assoc]
  data := by rw [List.append_assoc, h'.data, h.data]
  asks := by
    obtain ⟨as, ha, hall⟩ := h.asks
    obtain ⟨as', ha', hall'⟩ := h'.asks
    refine ⟨as ++ as', by rw [ha', ha, List.append_assoc], fun a hm => ?_⟩
    rcases List.mem_append.mp hm with hm | hm
    · exact hall a hm
    · exact hall' a hm
  outcomes := h'.outcomes.trans h.outcomes
  work := h'.work.trans h.work
  server := by rw [h'.server, h.server]
  others := h'.others.trans h.others

/-- **The receiving loop receives** what can be read in one go, up to the
bytes that are missing. -/
theorem receives_receiving (P : Platform) {c : ConnId} {w : World τ}
    {s : ClientSession} {m : ℕ} (hs : w.client? c = some s)
    (hu : s.rxUsed ≤ 77) (hm : m ≤ 77) :
    Receives c w (w.receive c (w.receiving P c s m)) s
      (s.store (w.receiving P c s m).got)
      ((readable P.retry (w.peers c).inbox).take (m - s.rxUsed)) := by
  have hg : (w.receiving P c s m).got
      = (readable P.retry (w.peers c).inbox).take (m - s.rxUsed) :=
    recvLoop_got _ _ _ _
  have hl : ((readable P.retry (w.peers c).inbox).take
      (m - s.rxUsed)).length ≤ m - s.rxUsed := List.length_take_le _ _
  rw [← hg] at hl ⊢
  refine {
    acts := acts_receive w c _
    client := client?_receive_self hs _
    pending := ClientSession.pending_store (by omega)
    rxUsed := rfl
    fits := by
      show s.rxUsed + _ ≤ 77
      omega
    behind := fun i m hi => Buf.slice_write_after hi
    keeps := rfl
    received := by rw [peers_receive]
    data := ?_
    asks := ⟨(w.receiving P c s m).asks, by rw [peers_receive], ?_⟩
    outcomes := by rw [peers_receive]
    work := rfl
    server := rfl
    others := World.others_setClient w c _ fun _ => rfl }
  · rw [peers_receive]
    exact recvLoop_allData _ _ _ _
  · intro a ha
    obtain ⟨h₁, h₂⟩ := recvLoop_asks ha
    -- a call is made only where something is missing, so `m` is the end
    exact ⟨h₁, by omega⟩

/-! ## One turn -/

open Miner (framing)

/-- **What a turn of `service_client` comes to.** -/
inductive TurnCase (P : Platform) (T : ChainTransport τ) (c : ConnId)
    (w : World τ) (s : ClientSession) : World τ × Bool → Prop where
  /-- There is no whole frame: everything that can be read is received, and
  the turn ends as reading does. -/
  | waiting {w₁ : World τ} {s₁ : ClientSession}
    (h : Receives c w w₁ s s₁ (readable P.retry (w.peers c).inbox))
    (hinc : framing.Incomplete s₁.pending)
    (hrest : (w₁.peers c).inbox = afterStop P.retry (w.peers c).inbox)
    (hearly : P = .windows → s.rxUsed < 8 → s₁.rxUsed < 8) :
    TurnCase P T c w s
      (w₁.stopped c (stopStatus P.retry (w.peers c).inbox), false)
  /-- There is a header that announces no frame: eight bytes of it are
  received, and the session ends. -/
  | refused {w₁ : World τ} {s₁ : ClientSession} (hp : P = .linux)
    (h : Receives c w w₁ s s₁
      ((readable P.retry (w.peers c).inbox).take (8 - s.rxUsed)))
    (href : framing.Refused s₁.pending) (h8 : s₁.rxUsed = 8)
    (reason : Removal)
    (hreason : reason = if Miner.headerValid s₁.pending = true
      then .unsupportedFrameType else .invalidFrameHeader) :
    TurnCase P T c w s (w₁.clientRemove c reason, false)
  /-- There is a frame: its bytes are received, and it is handed over. -/
  | complete {w₁ : World τ} {s₁ : ClientSession} {got : Bytes}
    (h : Receives c w w₁ s s₁ got) (hframe : framing.IsFrame s₁.pending)
    (hread : got ++ readable P.retry (w₁.peers c).inbox
      = readable P.retry (w.peers c).inbox)
    (hstop : stopStatus P.retry (w₁.peers c).inbox
        = stopStatus P.retry (w.peers c).inbox
      ∧ afterStop P.retry (w₁.peers c).inbox
        = afterStop P.retry (w.peers c).inbox)
    (hlate : P = .windows → 8 ≤ s.rxUsed) :
    TurnCase P T c w s ((w₁.dispatch P T c s₁).finishTurn c)
  /-- There are eight bytes: they are received, and handed over. -/
  | early {w₁ : World τ} {s₁ : ClientSession} {got : Bytes}
    (hp : P = .windows) (hu : s.rxUsed < 8)
    (h : Receives c w w₁ s s₁ got) (h8 : s₁.rxUsed = 8)
    (hread : got ++ readable P.retry (w₁.peers c).inbox
      = readable P.retry (w.peers c).inbox)
    (hstop : stopStatus P.retry (w₁.peers c).inbox
        = stopStatus P.retry (w.peers c).inbox
      ∧ afterStop P.retry (w₁.peers c).inbox
        = afterStop P.retry (w.peers c).inbox) :
    TurnCase P T c w s ((w₁.dispatch P T c s₁).finishTurn c)

/-- A loop that is not filled has received everything it could. -/
theorem not_filled {P : Platform} {c : ConnId} {w : World τ}
    {s : ClientSession} {m : ℕ} (h : (w.receiving P c s m).status ≠ .filled) :
    (readable P.retry (w.peers c).inbox).length < m - s.rxUsed
      ∧ (w.receiving P c s m).status = stopStatus P.retry (w.peers c).inbox
      ∧ (w.receiving P c s m).rest = afterStop P.retry (w.peers c).inbox := by
  have hst := recvLoop_status P.retry (w.peers c).inbox s.rxUsed (m - s.rxUsed)
  by_cases hl : m - s.rxUsed ≤ (readable P.retry (w.peers c).inbox).length
  · rw [if_pos hl] at hst
    exact absurd hst h
  · rw [if_neg hl] at hst
    exact ⟨not_le.mp hl, hst, recvLoop_rest_of_lt (not_le.mp hl)⟩

/-- A loop that is filled leaves the rest to be read. -/
theorem filled {P : Platform} {c : ConnId} {w : World τ}
    {s : ClientSession} {m : ℕ} (h : (w.receiving P c s m).status = .filled) :
    m - s.rxUsed ≤ (readable P.retry (w.peers c).inbox).length
      ∧ readable P.retry (w.receiving P c s m).rest
        = (readable P.retry (w.peers c).inbox).drop (m - s.rxUsed)
      ∧ stopStatus P.retry (w.receiving P c s m).rest
        = stopStatus P.retry (w.peers c).inbox
      ∧ afterStop P.retry (w.receiving P c s m).rest
        = afterStop P.retry (w.peers c).inbox := by
  have hst := recvLoop_status P.retry (w.peers c).inbox s.rxUsed (m - s.rxUsed)
  by_cases hl : m - s.rxUsed ≤ (readable P.retry (w.peers c).inbox).length
  · exact ⟨hl, recvLoop_rest_of_le hl⟩
  · rw [if_neg hl] at hst
    exact absurd (hst.symm.trans h) (stopStatus_ne_filled _ _)

/-- What the framing says of a session with a header, in the words of the
loop. -/
theorem frameSize_pending {s : ClientSession} (h : 8 ≤ s.rxUsed) :
    framing.frameSize (s.pending.take framing.header)
      = if Miner.headerValid s.rx.bytes
        then Miner.frameSizeOf (s.rx.bytes.getD 5 0) else none := by
  refine (Miner.frameSize_take s.pending le_rfl).trans ?_
  rw [ClientSession.headerValid_pending h, ClientSession.type_pending h]

/-- A header that has been received announces a frame that has not. -/
theorem announced_of_incomplete {s : ClientSession} (hu : s.rxUsed ≤ 77)
    (hinc : framing.Incomplete s.pending) (h8 : 8 ≤ s.rxUsed) :
    ∃ n, Miner.headerValid s.rx.bytes = true
      ∧ Miner.frameSizeOf (s.rx.bytes.getD 5 0) = some n ∧ s.rxUsed < n := by
  have hlen := ClientSession.length_pending hu
  rcases hinc with hlt | ⟨n, hn, hlt⟩
  · rw [hlen] at hlt
    exact absurd h8 (not_le.mpr hlt)
  · rw [frameSize_pending h8] at hn
    by_cases hv : Miner.headerValid s.rx.bytes = true
    · rw [if_pos hv] at hn
      exact ⟨n, hv, hn, hlen ▸ hlt⟩
    · rw [if_neg hv] at hn
      cases hn

/-- **Every turn of the Linux loop is one of the cases.** -/
theorem serviceTurnLinux_case (T : ChainTransport τ) {c : ConnId} {w : World τ}
    {s : ClientSession} (hs : w.client? c = some s) (hu : s.rxUsed ≤ 77)
    (hinc : framing.Incomplete s.pending) :
    TurnCase .linux T c w s (w.serviceTurnLinux T c) := by
  have hhead := announced_of_incomplete hu hinc
  unfold World.serviceTurnLinux
  rw [hs]
  dsimp only
  have r₁ := receives_receiving .linux hs hu (m := 8) (by decide)
  have hp₁ : (w.receive c (w.receiving .linux c s 8)).peers c = _ :=
    peers_receive w c _
  generalize hw₁ : w.receive c (w.receiving .linux c s 8) = w₁ at r₁ hp₁ ⊢
  generalize hs₁ : s.store (w.receiving .linux c s 8).got = s₁ at r₁ ⊢
  have hlen₁ := ClientSession.length_pending r₁.fits
  split
  next hst =>
    obtain ⟨hlt, hst', hrest⟩ := not_filled hst
    rw [List.take_of_length_le (le_of_lt hlt)] at r₁
    rw [hst']
    refine .waiting r₁ (.inl ?_) ?_ nofun
    · rw [hlen₁, r₁.rxUsed]
      exact show _ < 8 by omega
    · rw [hp₁]
      exact hrest
  next hst =>
  obtain ⟨hle, hread, hstop, hafter⟩ := filled (not_not.mp hst)
  have hgot₁ : ((readable true (w.peers c).inbox).take
      (8 - s.rxUsed)).length = 8 - s.rxUsed := by
    rw [List.length_take]
    exact Nat.min_eq_left hle
  have hu₁ : s₁.rxUsed = s.rxUsed + (8 - s.rxUsed) := by
    rw [r₁.rxUsed]
    exact congrArg (s.rxUsed + ·) hgot₁
  have h8 : 8 ≤ s₁.rxUsed := by omega
  have hheader : 8 ≤ s.rxUsed → s₁.rx.bytes = s.rx.bytes := by
    intro h
    have : (w.receiving .linux c s 8).got = [] := by
      show (recvLoop _ _ _ _).got = _
      rw [Nat.sub_eq_zero_of_le h, recvLoop_got, List.take_zero]
    rw [← hs₁, this, ClientSession.store_nil]
  have hnew : ∀ (hbad : framing.frameSize
      (s₁.pending.take framing.header) = none), s₁.rxUsed = 8 := by
    intro hbad
    by_contra hne
    have h8' : 8 ≤ s.rxUsed := by omega
    obtain ⟨n, hv, hn, _⟩ := hhead h8'
    rw [frameSize_pending h8, hheader h8', if_pos hv, hn] at hbad
    cases hbad
  split
  next hv =>
    have hbad : framing.frameSize (s₁.pending.take framing.header) = none := by
      rw [frameSize_pending h8, hv]
      rfl
    refine .refused rfl r₁ ⟨?_, hbad⟩ (hnew hbad) _ ?_
    · rw [hlen₁]
      exact h8
    · rw [ClientSession.headerValid_pending h8, hv]
      rfl
  next hv =>
  have hv' := Bool.eq_true_of_not_eq_false hv
  split
  next hn =>
    have hbad : framing.frameSize (s₁.pending.take framing.header) = none := by
      rw [frameSize_pending h8, if_pos hv', hn]
    refine .refused rfl r₁ ⟨?_, hbad⟩ (hnew hbad) _ ?_
    · rw [hlen₁]
      exact h8
    · rw [ClientSession.headerValid_pending h8, hv']
      rfl
  next n hn =>
  have hb := Miner.frameSizeOf_bounds hn
  have r₂ := receives_receiving .linux r₁.client r₁.fits hb.2
  have hp₂ : (w₁.receive c (w₁.receiving .linux c s₁ n)).peers c = _ :=
    peers_receive w₁ c _
  have hin₁ : (w₁.peers c).inbox = (w.receiving .linux c s 8).rest := by
    rw [hp₁]
  generalize hw₂ : w₁.receive c (w₁.receiving .linux c s₁ n) = w₂ at r₂ hp₂ ⊢
  generalize hs₂ : s₁.store (w₁.receiving .linux c s₁ n).got = s₂ at r₂ ⊢
  have r := r₁.trans r₂
  have hlen₂ := ClientSession.length_pending r₂.fits
  have hread₁ : readable true (w₁.peers c).inbox
      = (readable true (w.peers c).inbox).drop (8 - s.rxUsed) := by
    rw [hin₁]
    exact hread
  have hsplit : (readable true (w.peers c).inbox).take (8 - s.rxUsed)
      ++ readable true (w₁.peers c).inbox
      = readable true (w.peers c).inbox := by
    rw [hread₁, List.take_append_drop]
  -- the header is in front of what the second loop receives
  have hsize : framing.frameSize (s₂.pending.take framing.header)
      = some n := by
    rw [r₂.pending, List.take_append_of_le_length (by rw [hlen₁]; exact h8),
      frameSize_pending h8, if_pos hv', hn]
  split
  next hst₂ =>
    obtain ⟨hlt, hst', hrest⟩ := not_filled hst₂
    have htake : (readable Platform.linux.retry (w₁.peers c).inbox).take
        (n - s₁.rxUsed) = readable Platform.linux.retry (w₁.peers c).inbox :=
      List.take_of_length_le (le_of_lt hlt)
    rw [htake] at r
    have r' : Receives c w w₂ s s₂ (readable true (w.peers c).inbox) := by
      have := r
      rwa [show Platform.linux.retry = true from rfl, hsplit] at this
    rw [hst', hin₁, hstop]
    refine .waiting r' (.inr ⟨n, hsize, ?_⟩) ?_ nofun
    · rw [hlen₂, r₂.rxUsed, htake]
      omega
    · rw [hp₂]
      show (w₁.receiving .linux c s₁ n).rest = _
      rw [hrest, hin₁]
      exact hafter
  next hst₂ =>
    obtain ⟨hle₂, hread₂, hstop₂, hafter₂⟩ := filled (not_not.mp hst₂)
    have hin₂ : (w₂.peers c).inbox = (w₁.receiving .linux c s₁ n).rest := by
      rw [hp₂]
    have hlt : s₁.rxUsed ≤ n := by
      by_cases h8' : 8 ≤ s.rxUsed
      · obtain ⟨m, _, hm, hlt⟩ := hhead h8'
        rw [hheader h8'] at hn
        have := Option.some.inj (hm.symm.trans hn)
        omega
      · omega
    refine .complete r ⟨?_, ?_⟩ ?_ ⟨?_, ?_⟩ nofun
    · rw [hlen₂, r₂.rxUsed]
      exact le_trans h8 (Nat.le_add_right _ _)
    · rw [hsize, hlen₂, r₂.rxUsed, List.length_take, Nat.min_eq_left hle₂]
      congr 1
      omega
    · rw [hin₂]
      show (_ ++ _) ++ readable Platform.linux.retry _ = _
      rw [hread₂, List.append_assoc, List.take_append_drop]
      exact hsplit
    · rw [hin₂]
      exact hstop₂.trans (by rw [hin₁]; exact hstop)
    · rw [hin₂]
      exact hafter₂.trans (by rw [hin₁]; exact hafter)

/-- What the Windows loop waits for is eight bytes, or what the header that it
has announces. -/
theorem windowsFrameSize_eq {s : ClientSession} (hu : s.rxUsed ≤ 77)
    (hinc : framing.Incomplete s.pending) :
    (s.rxUsed < 8 ∧ World.windowsFrameSize s = .ok 8)
      ∨ ∃ n, 8 ≤ s.rxUsed
        ∧ framing.frameSize (s.pending.take framing.header) = some n
        ∧ s.rxUsed < n ∧ n ≤ 77 ∧ World.windowsFrameSize s = .ok n := by
  unfold World.windowsFrameSize
  by_cases h8 : s.rxUsed < 8
  · exact .inl ⟨h8, if_pos h8⟩
  · have h8' : 8 ≤ s.rxUsed := not_lt.mp h8
    obtain ⟨n, hv, hn, hlt⟩ := announced_of_incomplete hu hinc h8'
    refine .inr ⟨n, h8', ?_, hlt, (Miner.frameSizeOf_bounds hn).2, ?_⟩
    · rw [frameSize_pending h8', if_pos hv, hn]
    · rw [if_neg h8, hv, hn]
      rfl

/-- **Every turn of the Windows loop is one of the cases.** -/
theorem serviceTurnWindows_case (T : ChainTransport τ) {c : ConnId}
    {w : World τ} {s : ClientSession} (hs : w.client? c = some s)
    (hu : s.rxUsed ≤ 77) (hinc : framing.Incomplete s.pending) :
    TurnCase .windows T c w s (w.serviceTurnWindows T c) := by
  have hlen := ClientSession.length_pending hu
  -- the number of bytes waited for, what is known of it, and the turn
  obtain ⟨m, hm, hum, hsize, hturn⟩ : ∃ m, m ≤ 77 ∧ s.rxUsed < m
      ∧ (s.rxUsed < 8 ∧ m = 8 ∨ 8 ≤ s.rxUsed
        ∧ framing.frameSize (s.pending.take framing.header) = some m)
      ∧ World.windowsFrameSize s = .ok m := by
    rcases windowsFrameSize_eq hu hinc with ⟨h, he⟩ | ⟨n, h, hn, hlt, hle, he⟩
    · exact ⟨8, by decide, h, .inl ⟨h, rfl⟩, he⟩
    · exact ⟨n, hle, hlt, .inr ⟨h, hn⟩, he⟩
  unfold World.serviceTurnWindows
  rw [hs]
  dsimp only
  rw [hturn]
  dsimp only
  have r := receives_receiving .windows hs hu hm
  have hp : (w.receive c (w.receiving .windows c s m)).peers c = _ :=
    peers_receive w c _
  generalize hw₁ : w.receive c (w.receiving .windows c s m) = w₁ at r hp ⊢
  generalize hs₁ : s.store (w.receiving .windows c s m).got = s₁ at r ⊢
  have hlen₁ := ClientSession.length_pending r.fits
  -- a header in front of the rest announces what it did
  have hahead : 8 ≤ s.rxUsed → framing.frameSize
      (s₁.pending.take framing.header)
      = framing.frameSize (s.pending.take framing.header) := by
    intro h8
    rw [r.pending, List.take_append_of_le_length (by rw [hlen]; exact h8)]
  split
  next hst =>
    obtain ⟨hlt, hst', hrest⟩ := not_filled hst
    rw [List.take_of_length_le (le_of_lt hlt)] at r
    have hu₁ : s₁.rxUsed < m := by
      rw [r.rxUsed]
      omega
    rw [hst']
    refine .waiting r ?_ ?_ ?_
    · rcases hsize with ⟨_, rfl⟩ | ⟨h8, hn⟩
      · exact .inl (by rw [hlen₁]; exact hu₁)
      · exact .inr ⟨m, by rw [hahead h8, hn], by rw [hlen₁]; exact hu₁⟩
    · rw [hp]
      exact hrest
    · intro _ h
      rcases hsize with ⟨_, rfl⟩ | ⟨h8, _⟩
      · exact hu₁
      · exact absurd h (not_lt.mpr h8)
  next hst =>
    obtain ⟨hle, hread, hstop, hafter⟩ := filled (not_not.mp hst)
    have hin : (w₁.peers c).inbox = (w.receiving .windows c s m).rest := by
      rw [hp]
    have hu₁ : s₁.rxUsed = m := by
      rw [r.rxUsed, List.length_take, Nat.min_eq_left hle]
      omega
    have hread' : (readable Platform.windows.retry (w.peers c).inbox).take
          (m - s.rxUsed)
        ++ readable Platform.windows.retry (w₁.peers c).inbox
        = readable Platform.windows.retry (w.peers c).inbox := by
      rw [hin, hread, List.take_append_drop]
    rw [← hin] at hstop hafter
    rcases hsize with ⟨h, rfl⟩ | ⟨h8, hn⟩
    · exact .early rfl h r hu₁ hread' ⟨hstop, hafter⟩
    · refine .complete r ⟨?_, ?_⟩ hread' ⟨hstop, hafter⟩ fun _ => h8
      · rw [hlen₁, hu₁]
        exact h8.trans (le_of_lt hum)
      · rw [hahead h8, hn, hlen₁, hu₁]

/-- **Every turn is one of the cases**, on either platform. -/
theorem serviceTurn_case (P : Platform) (T : ChainTransport τ) {c : ConnId}
    {w : World τ} {s : ClientSession} (hs : w.client? c = some s)
    (hu : s.rxUsed ≤ 77) (hinc : framing.Incomplete s.pending) :
    TurnCase P T c w s (w.serviceTurn P T c) := by
  cases P with
  | linux => exact serviceTurnLinux_case T hs hu hinc
  | windows => exact serviceTurnWindows_case T hs hu hinc

/-! ## A frame handed over -/

theorem peers_finishTurn (w : World τ) (c : ConnId) :
    (w.finishTurn c).1.peers = w.peers := by
  unfold World.finishTurn
  split <;> rfl

theorem trace_finishTurn (w : World τ) (c : ConnId) :
    (w.finishTurn c).1.trace = w.trace := by
  unfold World.finishTurn
  split <;> rfl

/-- After a turn the session has nothing of the next frame. -/
theorem client?_finishTurn {w : World τ} {c : ConnId} {s : ClientSession}
    (h : (w.finishTurn c).1.client? c = some s) :
    s.pending = [] ∧ s.rxUsed = 0 := by
  unfold World.finishTurn at h
  split at h
  · rw [World.client?_setClient (f := fun s => { s with rxUsed := 0 })
      (fun _ => rfl), if_pos rfl] at h
    obtain ⟨s', _, rfl⟩ := Option.map_eq_some_iff.mp h
    exact ⟨List.take_zero, rfl⟩
  next hn =>
    rw [h] at hn
    exact absurd rfl hn

/-- **A turn that hands over a frame**: the frame and what follows it go on the
trace, nothing is received, and the buffer is empty if the session is still
there. -/
structure Handed (c : ConnId) (w : World τ) (s : ClientSession)
    (r : World τ × Bool) : Prop where
  /-- What goes on the trace. -/
  trace : ∃ es, Reaction c s.pending es
    ∧ r.1.trace = w.trace ++ .frame c s.pending :: es
  /-- One more frame has been handed over. -/
  frames : handedFrames c r.1.trace
    = handedFrames c w.trace ++ [s.pending]
  /-- Nothing is received. -/
  input : (r.1.peers c).inbox = (w.peers c).inbox
    ∧ (r.1.peers c).received = (w.peers c).received
    ∧ (r.1.peers c).asks = (w.peers c).asks
  /-- The buffer is empty. -/
  empty : ∀ s', r.1.client? c = some s' → s'.pending = [] ∧ s'.rxUsed = 0
  /-- There is another turn if there is a session. -/
  again : r.2 = (r.1.client? c).isSome

/-- Handing a frame over does so. -/
theorem handed_dispatch (P : Platform) (T : ChainTransport τ) {c : ConnId}
    {w : World τ} {s : ClientSession} (hs : w.client? c = some s)
    (h8 : 8 ≤ s.rxUsed) :
    Handed c w s ((w.dispatch P T c s).finishTurn c) := by
  obtain ⟨es, hr, ha⟩ := answers_dispatch P T hs h8
  have ht : (w.dispatch P T c s).trace
      = w.trace ++ .frame c s.pending :: es := by
    rw [ha.trace]
    exact List.append_assoc _ _ _
  refine ⟨⟨es, hr, by rw [trace_finishTurn, ht]⟩, ?_, ?_, ?_, ?_⟩
  · rw [trace_finishTurn, ht, handedFrames_append, handedFrames_frame,
      ha.handedFrames]
  · rw [peers_finishTurn]
    exact ha.input
  · exact fun s' hs' => client?_finishTurn hs'
  · unfold World.finishTurn
    split
    next h =>
      dsimp only
      rw [World.client?_setClient (f := fun s => { s with rxUsed := 0 })
        (fun _ => rfl), if_pos rfl, Option.isSome_map, h]
    next h => exact (Bool.eq_false_iff.mpr h).symm
