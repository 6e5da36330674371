import StnStratum.FairService

/-!
# The two framings

The two receive loops are meant to be one and the same to a miner. They are,
as long as no header is complete. When it is, the Linux loop goes on to the
frame it announces, and the Windows loop hands its eight bytes over as they
are. It waits for a frame only where it finds a header in the session at the
top of a turn, and no turn of its own ever leaves one there.

`framing_agrees_iff` compares any number of passes of either loop from the
same state, and says exactly when they show the miner the same framing.
-/

variable {τ : Type}

open Miner (framing)

/-! ## What the framing shows -/

/-- The two ends of a session that the framing decides on. -/
def Removal.isFraming : Removal → Bool
  | invalidFrameHeader => true
  | unsupportedFrameType => true
  | _ => false

/-- Whether an event is the framing's: a frame of the connection handed over,
or its session ended for a header, with the number of bytes received. -/
def Event.isFraming (c : ConnId) : Event → Bool
  | frame d _ => d == c
  | removed d reason _ => d == c && reason.isFraming
  | _ => false

/-- **What the framing of a connection shows.** -/
def framingEvents (c : ConnId) (es : List Event) : List Event :=
  es.filter (Event.isFraming c)

theorem framingEvents_append (c : ConnId) (es fs : List Event) :
    framingEvents c (es ++ fs) = framingEvents c es ++ framingEvents c fs :=
  List.filter_append ..

/-- It shows the frames handed over. -/
theorem handedFrames_framingEvents (c : ConnId) (es : List Event) :
    handedFrames c (framingEvents c es) = handedFrames c es := by
  unfold handedFrames framingEvents
  rw [List.filterMap_filter]
  refine List.filterMap_congr fun e _ => ?_
  cases e with
  | frame d bytes =>
    by_cases hd : d = c
    · exact if_pos (beq_iff_eq.mpr hd)
    · exact (if_neg fun h => hd (beq_iff_eq.mp h)).trans (if_neg hd).symm
  | _ => exact ite_self none

/-- The framing a world shows. -/
def World.framing (w : World τ) (c : ConnId) : List Event :=
  framingEvents c w.trace

section Events

variable {P : Platform} {T : ChainTransport τ} {c : ConnId} {w : World τ}
  {s : ClientSession}

/-- An event that is not the framing's does not show. -/
theorem framing_emit {e : Event} (he : e.isFraming c = false) :
    (w.emit e).framing c = w.framing c := by
  show framingEvents c (w.trace ++ [e]) = _
  have hnil : framingEvents c [e] = [] := by
    rw [framingEvents, List.filter_singleton, he]
    rfl
  rw [framingEvents_append, hnil, List.append_nil]
  rfl

/-- Ending a session for another reason does not show. -/
theorem framing_clientRemove {reason : Removal}
    (h : reason.isFraming = false) :
    (w.clientRemove c reason).framing c = w.framing c := by
  cases hs : w.client? c with
  | none => rw [World.clientRemove_of_none w c reason hs]
  | some s =>
    rw [World.clientRemove_of_some w c reason hs]
    refine framing_emit (w := w) (e := .removed c reason _) ?_
    rw [Event.isFraming, h, Bool.and_false]

theorem framing_clientSendResult (code : RpcCode) :
    (w.clientSendResult P c code).framing c = w.framing c := by
  have h : (w.emit (.result c (submitResultCode code))).framing c
      = w.framing c := framing_emit rfl
  unfold World.clientSendResult
  dsimp only
  split
  · exact (framing_clientRemove rfl).trans h
  · exact h

theorem framing_clientSendJob :
    (w.clientSendJob P c).framing c = w.framing c := by
  have h : ∀ header block, (w.emit (.job c header block)).framing c
      = w.framing c := fun _ _ => framing_emit rfl
  unfold World.clientSendJob
  split
  · rfl
  split
  · rfl
  dsimp only
  split
  · exact (framing_clientRemove rfl).trans (h _ _)
  split
  · exact (framing_clientRemove rfl).trans (h _ _)
  · exact h _ _

/-- Asking Chain does not show. -/
theorem framing_called {capacity : ℕ} (r : Rpc.Call τ capacity) :
    (w.called r).framing c = w.framing c := by
  show framingEvents c (w.trace ++ exchangeEvents r) = _
  rw [framingEvents_append]
  unfold exchangeEvents
  cases r.exchanged <;> exact List.append_nil _

theorem framing_processSubmission :
    (w.processSubmission P T c).framing c = w.framing c := by
  unfold World.processSubmission
  split
  · rfl
  split
  · exact framing_clientRemove rfl
  · exact framing_clientSendResult _
  · unfold World.submitShare
    dsimp only
    generalize Rpc.callSubmitShare T _ _ _ _ _ = r
    have h : ((w.called r).clientSendResult P c r.code).framing c
        = w.framing c :=
      (framing_clientSendResult r.code).trans (framing_called r)
    generalize (w.called r).clientSendResult P c r.code = w₁ at h
    split <;> exact h
  · unfold World.submitWork
    dsimp only
    split
    · generalize (w.heap.malloc _).2 = heap
      exact framing_clientSendResult (w := { w with heap := heap }) _
    · generalize Rpc.callSubmitWork T _ _ _ _ _ = r
      have h : ((w.called r).clientSendResult P c r.code).framing c
          = w.framing c :=
        (framing_clientSendResult r.code).trans (framing_called r)
      exact h

theorem framing_processAddress :
    (w.processAddress P c).framing c = w.framing c := by
  unfold World.processAddress
  split
  · rfl
  split
  · exact framing_clientRemove rfl
  split
  · exact framing_clientRemove rfl
  dsimp only
  split
  · exact framing_clientSendJob
  · rfl

theorem framing_processHashProgress :
    (w.processHashProgress c).framing c = w.framing c := by
  unfold World.processHashProgress
  split
  · rfl
  dsimp only
  split
  · exact framing_clientRemove rfl
  split_ifs <;> rfl

/-- **Handing a frame over shows the frame**, and nothing else. -/
theorem framing_dispatch :
    ((w.dispatch P T c s).finishTurn c).1.framing c
      = w.framing c ++ [.frame c s.pending] := by
  have h : (w.emit (.frame c s.pending)).framing c
      = w.framing c ++ [.frame c s.pending] := by
    show framingEvents c (w.trace ++ [_]) = _
    have hone : framingEvents c [.frame c s.pending]
        = [.frame c s.pending] := by
      rw [framingEvents, List.filter_singleton, Event.isFraming,
        beq_self_eq_true]
      rfl
    rw [framingEvents_append, hone]
    rfl
  have hfinish : ((w.dispatch P T c s).finishTurn c).1.framing c
      = (w.dispatch P T c s).framing c := by
    rw [World.framing, trace_finishTurn]
    rfl
  rw [hfinish, ← h]
  unfold World.dispatch
  dsimp only
  split
  · exact framing_processAddress
  split
  · exact framing_processSubmission
  · exact framing_processHashProgress

/-- What ends a session where reading stops does not show. -/
theorem framing_stopped (status : RecvStatus) :
    (w.stopped c status).framing c = w.framing c := by
  unfold World.stopped
  split
  · exact framing_clientRemove rfl
  · exact framing_clientRemove rfl
  · rfl

end Events

/-! ## Turns by the number of bytes -/

/-- **What a session waits for**: eight bytes, or the frame that the header it
has announces. -/
def Awaits (s : ClientSession) (n : ℕ) : Prop :=
  s.rxUsed < 8 ∧ n = 8
    ∨ 8 ≤ s.rxUsed ∧ s.rxUsed < n
      ∧ framing.frameSize (s.pending.take framing.header) = some n

section Turns

variable {P : Platform} {T : ChainTransport τ} {c : ConnId} {w w₁ : World τ}
  {s s₁ : ClientSession} {got : Bytes} {n : ℕ}

/-- A session between two turns waits for something. -/
theorem exists_awaits (hu : s.rxUsed ≤ 77)
    (hinc : framing.Incomplete s.pending) : ∃ n, Awaits s n := by
  rcases windowsFrameSize_eq hu hinc with
    ⟨h, _⟩ | ⟨n, h, hn, hlt, _, _⟩
  · exact ⟨8, .inl ⟨h, rfl⟩⟩
  · exact ⟨n, .inr ⟨h, hlt, hn⟩⟩

theorem Awaits.lt (h : Awaits s n) : s.rxUsed < n := by
  rcases h with ⟨h, rfl⟩ | ⟨_, h, _⟩ <;> exact h

/-- A header that has been received announces the same with more behind it. -/
theorem Receives.frameSize (h : Receives c w w₁ s s₁ got)
    (hu : s.rxUsed ≤ 77) (h8 : 8 ≤ s.rxUsed) :
    framing.frameSize (s₁.pending.take framing.header)
      = framing.frameSize (s.pending.take framing.header) := by
  rw [h.pending, List.take_append_of_le_length
    (by rw [ClientSession.length_pending hu]; exact h8)]

/-- A session with a header has no refused one, and no frame but the one it
waits for. -/
theorem Receives.isFrame_iff (h : Receives c w w₁ s s₁ got)
    (hu : s.rxUsed ≤ 77) (h8 : 8 ≤ s.rxUsed)
    (hn : framing.frameSize (s.pending.take framing.header) = some n) :
    framing.IsFrame s₁.pending ↔ s₁.rxUsed = n := by
  have hlen := ClientSession.length_pending h.fits
  have hsize := h.frameSize hu h8
  constructor
  · intro hf
    have := hf.2
    rw [hsize, hn, hlen] at this
    exact (Option.some.inj this).symm
  · intro he
    refine ⟨?_, by rw [hsize, hn, hlen, he]⟩
    rw [hlen, h.rxUsed]
    exact h8.trans (Nat.le_add_right _ _)

/-- **A turn with fewer bytes than the session waits for** receives them and
is the last, on either platform. -/
theorem Ready.turn_waits (h : Ready c w) (hs : w.client? c = some s)
    (hn : Awaits s n)
    (hlt : s.rxUsed + (readable P.retry (w.peers c).inbox).length < n) :
    ∃ w₁ s₁, Receives c w w₁ s s₁ (readable P.retry (w.peers c).inbox)
      ∧ Ready c w₁ ∧ Awaits s₁ n
      ∧ (w₁.peers c).inbox = afterStop P.retry (w.peers c).inbox
      ∧ w.serviceTurn P T c
        = (w₁.stopped c (stopStatus P.retry (w.peers c).inbox), false) := by
  obtain ⟨hu, hinc⟩ := h s hs
  have hcase := serviceTurn_case P T hs hu hinc
  generalize w.serviceTurn P T c = r at hcase ⊢
  -- no frame and no header can be made of the bytes
  have hshort : ∀ {w₁ : World τ} {s₁ : ClientSession} {got t : Bytes},
      Receives c w w₁ s s₁ got →
      got ++ t = readable P.retry (w.peers c).inbox →
      s₁.rxUsed < n := by
    intro w₁ s₁ got t hr he
    have := congrArg List.length he
    rw [List.length_append] at this
    rw [hr.rxUsed]
    omega
  cases hcase with
  | @waiting w₁ s₁ hr hinc' hrest _ =>
    refine ⟨w₁, s₁, hr, fun s' hs' => ?_, ?_, hrest, rfl⟩
    · obtain rfl := Option.some.inj (hr.client.symm.trans hs')
      exact ⟨hr.fits, hinc'⟩
    · have hlt₁ := hshort hr (List.append_nil _)
      rcases hn with ⟨_, rfl⟩ | ⟨h8, _, hsize⟩
      · exact .inl ⟨hlt₁, rfl⟩
      · refine .inr ⟨?_, hlt₁, (hr.frameSize hu h8).trans hsize⟩
        rw [hr.rxUsed]
        exact h8.trans (Nat.le_add_right _ _)
  | @refused w₁ s₁ _ hr href h8' _ _ =>
    have hlt₁ := hshort hr (List.take_append_drop _ _)
    rcases hn with ⟨_, rfl⟩ | ⟨h8, _, hsize⟩
    · omega
    · have := href.2
      rw [hr.frameSize hu h8, hsize] at this
      cases this
  | @complete w₁ s₁ got hr hframe hread _ _ =>
    have hlt₁ := hshort hr hread
    rcases hn with ⟨_, rfl⟩ | ⟨h8, _, hsize⟩
    · exact absurd (eight_le_of_isFrame hr.fits hframe) (not_le.mpr hlt₁)
    · exact absurd ((hr.isFrame_iff hu h8 hsize).mp hframe)
        (Nat.ne_of_lt hlt₁)
  | @early w₁ s₁ got _ hu' hr h8' hread _ =>
    have hlt₁ := hshort hr hread
    rcases hn with ⟨_, rfl⟩ | ⟨h8, _, _⟩
    · omega
    · omega

/-- **A turn with the bytes the session waits for** hands over what they make:
the frame where the header was there, on either platform, and on Windows the
header where it was not. -/
theorem Ready.turn_hands (h : Ready c w) (hs : w.client? c = some s)
    (hn : Awaits s n) (h8 : P = .windows ∨ 8 ≤ s.rxUsed)
    (hle : n ≤ s.rxUsed + (readable P.retry (w.peers c).inbox).length) :
    ∃ w₁ s₁ got, Receives c w w₁ s s₁ got ∧ s₁.rxUsed = n
      ∧ (8 ≤ s.rxUsed → framing.IsFrame s₁.pending)
      ∧ got ++ readable P.retry (w₁.peers c).inbox
        = readable P.retry (w.peers c).inbox
      ∧ stopStatus P.retry (w₁.peers c).inbox
        = stopStatus P.retry (w.peers c).inbox
      ∧ afterStop P.retry (w₁.peers c).inbox
        = afterStop P.retry (w.peers c).inbox
      ∧ w.serviceTurn P T c = (w₁.dispatch P T c s₁).finishTurn c := by
  obtain ⟨hu, hinc⟩ := h s hs
  have hcase := serviceTurn_case P T hs hu hinc
  generalize w.serviceTurn P T c = r at hcase ⊢
  cases hcase with
  | @waiting w₁ s₁ hr hinc' _ hearly =>
    have hle₁ : n ≤ s₁.rxUsed := by rwa [hr.rxUsed]
    rcases hn with ⟨hlt, rfl⟩ | ⟨h8', _, hsize⟩
    · have := hearly (h8.resolve_right (not_le.mpr hlt)) hlt
      omega
    · rcases hinc' with hlt | ⟨m, hm, hlt⟩
      · rw [ClientSession.length_pending hr.fits] at hlt
        have := hr.rxUsed
        exact absurd hlt (not_lt.mpr (show 8 ≤ s₁.rxUsed by omega))
      · rw [hr.frameSize hu h8', hsize] at hm
        obtain rfl := Option.some.inj hm
        rw [ClientSession.length_pending hr.fits] at hlt
        omega
  | @refused w₁ s₁ hp hr href _ _ _ =>
    have h8' : 8 ≤ s.rxUsed := h8.resolve_left (hp ▸ nofun)
    obtain ⟨hlt, _⟩ | ⟨_, _, hsize⟩ := hn
    · omega
    · have := href.2
      rw [hr.frameSize hu h8', hsize] at this
      cases this
  | @complete w₁ s₁ got hr hframe hread hstop hlate =>
    have h8' : 8 ≤ s.rxUsed := h8.elim hlate id
    obtain ⟨hlt, _⟩ | ⟨_, _, hsize⟩ := hn
    · omega
    · exact ⟨w₁, s₁, got, hr, (hr.isFrame_iff hu h8' hsize).mp hframe,
        fun _ => hframe, hread, hstop.1, hstop.2, rfl⟩
  | @early w₁ s₁ got _ hlt hr h8' hread hstop =>
    obtain ⟨_, rfl⟩ | ⟨hge, _, _⟩ := hn
    · exact ⟨w₁, s₁, got, hr, h8', fun hge => absurd hge (not_le.mpr hlt),
        hread, hstop.1, hstop.2, rfl⟩
    · omega

end Turns

/-! ## Passes by the number of bytes -/

/-- **`k` passes over a session.** -/
def World.passes (P : Platform) (T : ChainTransport τ) :
    ℕ → World τ → ConnId → World τ
  | 0, w, _ => w
  | k + 1, w, c => passes P T k (w.serviceClient P T c) c

section Passes

variable {P : Platform} {T : ChainTransport τ} {c : ConnId} {w : World τ}
  {s : ClientSession} {n k : ℕ}

/-- The trace only grows. -/
theorem trace_passes (P : Platform) (T : ChainTransport τ) (k : ℕ)
    (w : World τ) (c : ConnId) :
    ∃ es, (w.passes P T k c).trace = w.trace ++ es := by
  induction k generalizing w with
  | zero => exact ⟨[], (List.append_nil _).symm⟩
  | succ k ih =>
    obtain ⟨es, ha, _⟩ := acts_serviceClient P T w c
    obtain ⟨fs, hf⟩ := ih (w.serviceClient P T c)
    exact ⟨es ++ fs, hf.trans (by rw [ha.trace, List.append_assoc])⟩

/-- Without a session the passes do nothing. -/
theorem passes_of_none (hn : w.client? c = none) (k : ℕ) :
    w.passes P T k c = w := by
  induction k with
  | zero => rfl
  | succ k ih =>
    have hlast : w.serviceClient P T c = w := by
      rw [serviceClient_of_last (by rw [serviceTurn_of_none P T hn]),
        serviceTurn_of_none P T hn]
    rw [World.passes, hlast, ih]

/-- Passes that begin with a turn that is the last of its pass. -/
theorem passes_of_last {w' : World τ}
    (hturn : w.serviceTurn P T c = (w', false)) :
    w.passes P T (k + 1) c = w'.passes P T k c := by
  rw [World.passes, serviceClient_of_last (by rw [hturn]), hturn]

/-- Passes that begin with a turn that another one follows. -/
theorem Ready.passes_of_again {w' : World τ} (h : Ready c w)
    (hturn : w.serviceTurn P T c = (w', true)) :
    w.passes P T (k + 1) c = w'.passes P T (k + 1) c := by
  rw [World.passes, World.passes,
    h.serviceClient_of_again (by rw [hturn]), hturn]

/-- **Behind a turn passes go on.** -/
theorem Ready.passes_of_turn (h : Ready c w) (k : ℕ) : ∃ j,
    w.passes P T (k + 1) c = (w.serviceTurn P T c).1.passes P T j c := by
  cases ha : (w.serviceTurn P T c).2 with
  | false => exact ⟨k, passes_of_last (Prod.ext rfl ha)⟩
  | true => exact ⟨k + 1, h.passes_of_again (Prod.ext rfl ha)⟩

/-- Behind a turn that waits the passes go on, or there is no session any
more. -/
theorem stopped_cases (c : ConnId) (w₁ : World τ) {status : RecvStatus}
    (hf : status ≠ .filled) :
    (status = .blocked ∧ w₁.stopped c status = w₁)
      ∨ status ≠ .blocked ∧ (w₁.stopped c status).client? c = none := by
  cases status with
  | filled => exact absurd rfl hf
  | blocked => exact .inl ⟨rfl, rfl⟩
  | closed => exact .inr ⟨nofun, client?_clientRemove_self _⟩
  | failed => exact .inr ⟨nofun, client?_clientRemove_self _⟩

/-- **Fewer bytes than the session waits for show nothing**, on either
platform and in however many passes they come. -/
theorem Ready.passes_wait (h : Ready c w) (hs : w.client? c = some s)
    (hn : Awaits s n)
    (hlt : s.rxUsed + (readableIn P.retry k (w.peers c).inbox).length < n) :
    (w.passes P T k c).framing c = w.framing c := by
  induction k generalizing w s with
  | zero => rfl
  | succ k ih =>
    rw [readableIn, List.length_append] at hlt
    obtain ⟨w₁, s₁, hr, h₁, hn₁, hrest, hturn⟩ :=
      h.turn_waits (P := P) (T := T) hs hn (by omega)
    have hw₁ : w₁.framing c = w.framing c := by
      rw [World.framing, hr.acts.trace, List.append_nil]
      rfl
    rw [passes_of_last hturn]
    rcases stopped_cases c w₁
      (stopStatus_ne_filled P.retry (w.peers c).inbox) with
      ⟨hb, he⟩ | ⟨_, hnone⟩
    · rw [if_pos hb] at hlt
      rw [he, ih h₁ hr.client hn₁ (by rw [hrest, hr.rxUsed]; omega), hw₁]
    · rw [passes_of_none hnone, framing_stopped, hw₁]

/-- **Eight bytes are handed over on Windows**, as soon as there are as many.
-/
theorem Ready.passes_early (h : Ready c w) (hs : w.client? c = some s)
    (hu : s.rxUsed < 8)
    (hle : 8 ≤ s.rxUsed
      + (readableIn Platform.windows.retry k (w.peers c).inbox).length) :
    ∃ b fs, b.length = 8 ∧ handedFrames c (w.passes .windows T k c).trace
      = handedFrames c w.trace ++ b :: fs := by
  induction k generalizing w s with
  | zero =>
    rw [readableIn, List.length_nil] at hle
    omega
  | succ k ih =>
    rw [readableIn, List.length_append] at hle
    have hn : Awaits s 8 := .inl ⟨hu, rfl⟩
    by_cases hlt : s.rxUsed
        + (readable Platform.windows.retry (w.peers c).inbox).length < 8
    · obtain ⟨w₁, s₁, hr, h₁, hn₁, hrest, hturn⟩ :=
        h.turn_waits (P := .windows) (T := T) hs hn hlt
      have hr₁ := hr.rxUsed
      rw [passes_of_last hturn]
      rcases stopped_cases c w₁
        (stopStatus_ne_filled Platform.windows.retry (w.peers c).inbox) with
        ⟨hb, he⟩ | ⟨hb, _⟩
      · rw [if_pos hb] at hle
        obtain ⟨b, fs, hb8, hfs⟩ := ih h₁ hr.client hn₁.lt (by
          rw [hrest, hr₁, Nat.add_assoc]
          exact hle)
        refine ⟨b, fs, hb8, ?_⟩
        rw [he, hfs, hr.acts.trace, List.append_nil]
      · rw [if_neg hb, List.length_nil] at hle
        omega
    · obtain ⟨w₁, s₁, got, hr, h8, _, _, _, _, hturn⟩ :=
        h.turn_hands (P := .windows) (T := T) hs hn (.inl rfl) (not_lt.mp hlt)
      have hd := handed_dispatch .windows T hr.client (le_of_eq h8.symm)
      rw [← hturn] at hd
      obtain ⟨j, hj⟩ := h.passes_of_turn (P := .windows) (T := T) k
      obtain ⟨es, hes⟩ := trace_passes .windows T j
        (w.serviceTurn .windows T c).1 c
      refine ⟨s₁.pending, handedFrames c es, ?_, ?_⟩
      · rw [ClientSession.length_pending hr.fits, h8]
      · rw [hj, hes, handedFrames_append, hd.frames, hr.acts.trace,
          List.append_nil, List.append_assoc]
        rfl

/-- **Only complete frames are handed over on Linux.** -/
theorem Ready.passes_linux (h : Ready c w) (k : ℕ) :
    ∃ fs, handedFrames c (w.passes .linux T k c).trace
        = handedFrames c w.trace ++ fs
      ∧ ∀ f ∈ fs, framing.IsFrame f := by
  induction k generalizing w with
  | zero =>
    exact ⟨[], (List.append_nil _).symm, fun f hf => absurd hf
      List.not_mem_nil⟩
  | succ k ih =>
    cases hs : w.client? c with
    | none =>
      rw [passes_of_none hs]
      exact ⟨[], (List.append_nil _).symm, fun f hf => absurd hf
        List.not_mem_nil⟩
    | some s =>
      obtain ⟨fs, hfs, hall, _⟩ := h.handed_linux (T := T) hs
      obtain ⟨gs, hgs, hall'⟩ := ih (h.serviceClient (P := .linux) (T := T))
      refine ⟨fs ++ gs, ?_, fun f hf => ?_⟩
      · rw [World.passes, hgs, hfs, List.append_assoc]
      · rcases List.mem_append.mp hf with hf | hf
        · exact hall f hf
        · exact hall' f hf

/-- **A frame whose header was there is handed over on either platform**, when
its bytes have come, and the passes go on behind it. -/
theorem Ready.passes_frame (h : Ready c w) (hs : w.client? c = some s)
    (h8 : 8 ≤ s.rxUsed) (hn : Awaits s n)
    (hle : n ≤ s.rxUsed
      + (readableIn P.retry k (w.peers c).inbox).length) :
    ∃ w' j, w.passes P T k c = w'.passes P T j c ∧ Ready c w'
      ∧ w'.framing c = w.framing c ++ [.frame c
        ((s.pending ++ readableIn P.retry k (w.peers c).inbox).take n)]
      ∧ (w'.client? c = none ↔ endsSession P w.server.work
        (w.peers c).outcomes s.addressRegistered
        ((s.pending ++ readableIn P.retry k (w.peers c).inbox).take n) = true)
      ∧ ∀ s', w'.client? c = some s' → s'.rxUsed = 0
        ∧ s.rxUsed + (readableIn P.retry k (w.peers c).inbox).length
          = n + (readableIn P.retry j (w'.peers c).inbox).length := by
  induction k generalizing w s with
  | zero =>
    rw [readableIn, List.length_nil] at hle
    exact absurd hn.lt (not_lt.mpr hle)
  | succ k ih =>
    by_cases hlt : s.rxUsed
        + (readable P.retry (w.peers c).inbox).length < n
    · obtain ⟨w₁, s₁, hr, h₁, hn₁, hrest, hturn⟩ :=
        h.turn_waits (P := P) (T := T) hs hn hlt
      rw [passes_of_last hturn]
      rcases stopped_cases c w₁
        (stopStatus_ne_filled P.retry (w.peers c).inbox) with
        ⟨hb, he⟩ | ⟨hb, _⟩
      · -- the bytes of this go are in the session now
        have hall : s.pending ++ readableIn P.retry (k + 1) (w.peers c).inbox
            = s₁.pending ++ readableIn P.retry k (w₁.peers c).inbox := by
          rw [readableIn, if_pos hb, hr.pending, hrest, List.append_assoc]
        have hlen : s.rxUsed
            + (readableIn P.retry (k + 1) (w.peers c).inbox).length
            = s₁.rxUsed
              + (readableIn P.retry k (w₁.peers c).inbox).length := by
          rw [readableIn, if_pos hb, hr.rxUsed, hrest, List.length_append,
            Nat.add_assoc]
        have hw₁ : w₁.framing c = w.framing c := by
          rw [World.framing, hr.acts.trace, List.append_nil]
          rfl
        have hreg : s₁.addressRegistered = s.addressRegistered := by
          rw [hr.keeps]
        rw [hall, he, ← hw₁, ← hr.work, ← hr.outcomes, ← hreg, hlen]
        refine ih h₁ hr.client ?_ hn₁ (hlen ▸ hle)
        rw [hr.rxUsed]
        exact h8.trans (Nat.le_add_right _ _)
      · rw [readableIn, if_neg hb, List.append_nil] at hle
        omega
    · obtain ⟨w₁, s₁, got, hr, hu₁, hframe, hread, hstop, hafter, hturn⟩ :=
        h.turn_hands (P := P) (T := T) hs hn (.inr h8) (not_lt.mp hlt)
      have hframe := hframe h8
      have happ := readableIn_append (k := k) hread hstop hafter
      have htake : (s.pending ++ readableIn P.retry (k + 1)
          (w.peers c).inbox).take n = s₁.pending := by
        rw [happ, ← List.append_assoc, ← hr.pending, List.take_left']
        rw [ClientSession.length_pending hr.fits, hu₁]
      have hd := handed_dispatch P T hr.client
        (eight_le_of_isFrame hr.fits hframe)
      have hw' : (w.serviceTurn P T c).1.framing c
          = w.framing c ++ [.frame c s₁.pending] := by
        rw [hturn, framing_dispatch, World.framing, hr.acts.trace,
          List.append_nil]
        rfl
      have hends := client?_dispatch_eq_none_iff (P := P) (T := T) hr.client
        hr.fits hframe
      have hreg : s₁.addressRegistered = s.addressRegistered := by
        rw [hr.keeps]
      rw [hr.work, hr.outcomes, hreg, ← client?_finishTurn_eq_none_iff,
        ← hturn] at hends
      rw [← hturn] at hd
      rw [htake]
      cases ha : (w.serviceTurn P T c).2 with
      | false =>
        rw [hd.again] at ha
        refine ⟨_, k, passes_of_last (Prod.ext rfl (hd.again.trans ha)),
          h.serviceTurn, hw', hends, fun s' hs' => ?_⟩
        rw [hs'] at ha
        cases ha
      | true =>
        refine ⟨_, k + 1, h.passes_of_again (Prod.ext rfl ha), h.serviceTurn,
          hw', hends, fun s' hs' => ⟨(hd.empty s' hs').2, ?_⟩⟩
        have hgot := hr.rxUsed
        rw [happ, List.length_append, hd.input.1]
        omega

end Passes

/-! ## When the framings agree -/

/-- **The two framings agree** over `k` passes from the same state: both loops
show the same, and all that the Windows loop hands over are complete frames.
-/
def FramingAgrees (T : ChainTransport τ) (w : World τ) (c : ConnId) (k : ℕ) :
    Prop :=
  (w.passes .windows T k c).framing c = (w.passes .linux T k c).framing c
    ∧ ∃ es, (w.passes .windows T k c).trace = w.trace ++ es
      ∧ ∀ f ∈ handedFrames c es, framing.IsFrame f

/-- **When they do**, by the bytes the session has and those that come. A
session without a header must not get one. One with a header may get the frame
it announces, and then no other header, unless its frame ends it. -/
def AgreesWhen (w : World τ) (c : ConnId) (k : ℕ) (s : ClientSession) :
    Prop :=
  let t := s.pending ++ readableIn true k (w.peers c).inbox
  if s.rxUsed < 8 then t.length < 8
  else ∃ n, framing.frameSize (s.pending.take framing.header) = some n
    ∧ (t.length < n + 8 ∨ endsSession .linux w.server.work
      (w.peers c).outcomes s.addressRegistered (t.take n) = true)

section Agree

variable {T : ChainTransport τ} {c : ConnId} {w : World τ}
  {s : ClientSession} {k : ℕ}

/-- Without signals a frame ends its session on both platforms or on none. -/
theorem endsSession_uninterrupted {outcomes : List SendOutcome}
    (h : .interrupted ∉ outcomes) (work : ActiveWork) (registered : Bool)
    (frame : Bytes) :
    endsSession .linux work outcomes registered frame
      = endsSession .windows work outcomes registered frame := by
  have hjob : jobFails .linux work outcomes
      = jobFails .windows work outcomes := by
    unfold jobFails
    cases minerJobBuild work.template.bytes work.templateLength with
    | none => rfl
    | some b =>
      obtain ⟨header, blockLength⟩ := b
      obtain ⟨he, hr⟩ := sendAll_uninterrupted h header.bytes
      show (work.haveWork && (!(sendAll true _ _).ok
        || !takesAll true (sendAll true _ _).rest _)) = _
      rw [takesAll_uninterrupted hr, he]
      rfl
  unfold endsSession
  rw [hjob, show takesAll Platform.linux.retry outcomes _ = _ from
    takesAll_uninterrupted h _]
  rfl

/-- What shows the same on both platforms is complete frames. -/
theorem framingAgrees_iff_framing (h : Ready c w) :
    FramingAgrees T w c k ↔ (w.passes .windows T k c).framing c
      = (w.passes .linux T k c).framing c := by
  refine ⟨fun ha => ha.1, fun he => ⟨he, ?_⟩⟩
  obtain ⟨es, hes⟩ := trace_passes .windows T k w c
  obtain ⟨fs, hfs, hall⟩ := h.passes_linux (T := T) k
  refine ⟨es, hes, ?_⟩
  have hh := congrArg (handedFrames c) he
  unfold World.framing at hh
  rw [handedFrames_framingEvents, handedFrames_framingEvents, hfs, hes,
    handedFrames_append, List.append_cancel_left_eq] at hh
  rw [hh]
  exact hall

/-- **A header that comes on its own tells the platforms apart**: Windows
hands it over, and Linux hands over no such thing. -/
theorem framing_ne_of_early {w' : World τ} {j j' : ℕ}
    (h : Ready c w) (h' : Ready c w') (hs : w.client? c = some s)
    (hu : s.rxUsed < 8)
    (hle : 8 ≤ s.rxUsed
      + (readableIn Platform.windows.retry j (w.peers c).inbox).length)
    (he : w.framing c = w'.framing c) :
    (w.passes .windows T j c).framing c
      ≠ (w'.passes .linux T j' c).framing c := by
  intro hf
  obtain ⟨b, bs, hb, hbs⟩ := h.passes_early (T := T) hs hu hle
  obtain ⟨fs, hfs, hall⟩ := h'.passes_linux (T := T) j'
  have hh := congrArg (handedFrames c) hf
  have hh' := congrArg (handedFrames c) he
  unfold World.framing at hh hh'
  rw [handedFrames_framingEvents, handedFrames_framingEvents] at hh hh'
  rw [hbs, hfs, hh', List.append_cancel_left_eq] at hh
  exact not_isFrame_of_length hb (hall b (hh ▸ List.mem_cons_self))

/-- **When the two framings agree.** From any state between two turns and for
every number of passes, whatever can be read and sent in them: the Windows
loop shows the miner the same framing as the Linux one exactly where no header
is completed by a read. -/
theorem framing_agrees_iff (T : ChainTransport τ) (k : ℕ) (h : Ready c w)
    (hin : .interrupted ∉ (w.peers c).inbox)
    (hout : .interrupted ∉ (w.peers c).outcomes) :
    FramingAgrees T w c k
      ↔ ∀ s, w.client? c = some s → AgreesWhen w c k s := by
  rw [framingAgrees_iff_framing h]
  cases hs : w.client? c with
  | none =>
    rw [passes_of_none hs, passes_of_none hs]
    exact ⟨fun _ s hs => (nomatch hs), fun _ => rfl⟩
  | some s =>
  have hone : (∀ s', some s = some s' → AgreesWhen w c k s')
      ↔ AgreesWhen w c k s :=
    ⟨fun ha => ha s rfl, fun ha s' hs' => Option.some.inj hs' ▸ ha⟩
  rw [hone]
  obtain ⟨hu, hinc⟩ := h s hs
  obtain ⟨n, hn⟩ := exists_awaits hu hinc
  have hlen : (s.pending ++ readableIn true k (w.peers c).inbox).length
      = s.rxUsed + (readableIn true k (w.peers c).inbox).length := by
    rw [List.length_append, ClientSession.length_pending hu]
  have hretry : readableIn Platform.windows.retry k (w.peers c).inbox
      = readableIn true k (w.peers c).inbox :=
    (readableIn_uninterrupted hin k).symm
  -- fewer bytes than the session waits for
  have hwait : s.rxUsed + (readableIn true k (w.peers c).inbox).length < n →
      (w.passes .windows T k c).framing c
        = (w.passes .linux T k c).framing c := by
    intro hlt
    rw [h.passes_wait (P := .windows) (T := T) hs hn (by rw [hretry]; exact hlt),
      h.passes_wait (P := .linux) (T := T) hs hn hlt]
  unfold AgreesWhen
  dsimp only
  rw [hlen]
  rcases hn with ⟨hu8, rfl⟩ | ⟨h8, hun, hsize⟩
  · rw [if_pos hu8]
    refine ⟨fun he => ?_, hwait⟩
    by_contra hge
    exact framing_ne_of_early h h hs hu8
      (by rw [hretry]; exact not_lt.mp hge) rfl he
  · rw [if_neg (not_lt.mpr h8), hsize]
    by_cases hle : s.rxUsed + (readableIn true k (w.peers c).inbox).length < n
    · exact ⟨fun _ => ⟨n, rfl, .inl (hle.trans (Nat.lt_add_of_pos_right
        (by decide)))⟩, fun _ => hwait hle⟩
    -- both hand over the frame that the header announces
    have hn : Awaits s n := .inr ⟨h8, hun, hsize⟩
    obtain ⟨w₁, j₁, hp₁, hr₁, hf₁, he₁, hu₁⟩ :=
      h.passes_frame (P := .windows) (T := T) hs h8 hn
        (by rw [hretry]; exact not_lt.mp hle)
    obtain ⟨w₂, j₂, hp₂, hr₂, hf₂, he₂, hu₂⟩ :=
      h.passes_frame (P := .linux) (T := T) hs h8 hn (not_lt.mp hle)
    rw [hretry] at hf₁ he₁ hu₁
    rw [← endsSession_uninterrupted hout] at he₁
    have hsame : w₁.framing c = w₂.framing c := hf₁.trans hf₂.symm
    cases hc₁ : w₁.client? c with
    | none =>
      rw [hp₁, hp₂, passes_of_none hc₁, passes_of_none (he₂.mpr (he₁.mp hc₁))]
      exact ⟨fun _ => ⟨n, rfl, .inr (he₁.mp hc₁)⟩, fun _ => hsame⟩
    | some s₁ =>
    have hends : endsSession .linux w.server.work (w.peers c).outcomes
        s.addressRegistered ((s.pending
          ++ readableIn true k (w.peers c).inbox).take n) ≠ true :=
      fun hend => Option.some_ne_none s₁ (hc₁.symm.trans (he₁.mpr hend))
    obtain ⟨s₂, hc₂⟩ := Option.ne_none_iff_exists'.mp (hends ∘ he₂.mp)
    obtain ⟨hz₁, hl₁⟩ := hu₁ s₁ hc₁
    obtain ⟨hz₂, hl₂⟩ := hu₂ s₂ hc₂
    have hl₂ : s.rxUsed + (readableIn true k (w.peers c).inbox).length
      = n + (readableIn Platform.linux.retry j₂ (w₂.peers c).inbox).length :=
      hl₂
    rw [hp₁, hp₂]
    constructor
    · intro he
      refine ⟨n, rfl, .inl ?_⟩
      by_contra hge
      exact framing_ne_of_early hr₁ hr₂ hc₁ (by rw [hz₁]; decide)
        (by omega) hsame he
    · rintro ⟨_, hn', hlt | hend⟩
      · obtain rfl := Option.some.inj hn'
        rw [hr₁.passes_wait hc₁ (.inl ⟨by rw [hz₁]; decide, rfl⟩)
            (by omega),
          hr₂.passes_wait hc₂ (.inl ⟨by rw [hz₂]; decide, rfl⟩)
            (by omega), hsame]
      · obtain rfl := Option.some.inj hn'
        exact absurd hend hends

end Agree

/-! ## At a concrete miner -/

/-- **A miner whose ADDRESS comes in two parts**, the first of them longer than
the header. -/
def halting : World (List Bytes) :=
  boot Rpc.replay []
    (fun c => if c = 0 then
      unread (addressFrame.take 10)
        (.wouldBlock :: unread (addressFrame.drop 10) []) else [])
    fun _ => [.session]

set_option maxRecDepth 100000 in
/-- A Linux server has received the first part, and the second one is to be
read: either loop hands over the same frame. -/
theorem framing_agrees_halting :
    FramingAgrees Rpc.replay
      ((stratum .linux Rpc.replay).run halting [.accept .pool, .service 0])
      0 1 := by
  have hreach : (stratum .linux Rpc.replay).Reachable
      ((stratum .linux Rpc.replay).run halting [.accept .pool, .service 0]) :=
    ⟨halting, _, startup_boot .., rfl⟩
  refine (framing_agrees_iff Rpc.replay 1 (ready_of_run hreach 0)
    (by decide +kernel) (by decide +kernel)).mpr fun s hs => ?_
  have hall : ((((stratum .linux Rpc.replay).run halting
      [.accept .pool, .service 0]).client? 0).map fun s => (s.rxUsed,
        framing.frameSize (s.pending.take framing.header),
        (s.pending ++ readableIn true 1 ((((stratum .linux Rpc.replay).run
          halting [.accept .pool, .service 0]).peers 0).inbox)).length))
      = some (10, some 77, 77) := by
    decide +kernel
  rw [hs] at hall
  have hall := Option.some.inj hall
  have hu : s.rxUsed = 10 := congrArg Prod.fst hall
  have hsize := congrArg (fun p => p.2.1) hall
  have hlen := congrArg (fun p => p.2.2) hall
  unfold AgreesWhen
  dsimp only at hsize hlen ⊢
  rw [if_neg (by rw [hu]; decide), hlen]
  exact ⟨77, hsize, .inl (by decide)⟩

/-- **A miner that has sent its ADDRESS**, all of it. -/
def prompt : World (List Bytes) :=
  boot Rpc.replay []
    (fun c => if c = 0 then unread addressFrame [] else [])
    fun _ => [.session]

set_option maxRecDepth 100000 in
/-- **Where they do not agree**: the Linux loop hands over the ADDRESS, the
Windows loop eight bytes of it. -/
theorem not_framing_agrees_prompt :
    (stratum .windows Rpc.replay).Reachable
        ((stratum .windows Rpc.replay).run prompt [.accept .pool])
      ∧ ¬ FramingAgrees Rpc.replay
        ((stratum .windows Rpc.replay).run prompt [.accept .pool]) 0 1 := by
  refine ⟨⟨prompt, _, startup_boot .., rfl⟩, ?_⟩
  rintro ⟨he, _⟩
  have := congrArg (fun es => (handedFrames 0 es).map List.length) he
  revert this
  decide +kernel
