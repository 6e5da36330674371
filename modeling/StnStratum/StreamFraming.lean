import StnStratum.Reception
import StnStratum.Rehearsal

/-!
# A miner's stream and the frames made of it

`Framed` is the invariant of the Linux receive loop: what was received on a
connection is the frames handed over and, behind them, what its session has
of the next one. Every turn keeps it, every answer keeps it, and other
sessions have no part in it. `framing_of_stream` draws the conclusion: the
frames handed over are the decomposition of the bytes received, whatever the
calls of `recv` made of them and however many passes it took.
-/

variable {τ : Type}

open Miner (framing)

/-- **The framing of a connection is in step with its stream.** -/
structure Framed (c : ConnId) (w : World τ) : Prop where
  /-- What was handed over are frames. -/
  frames : ∀ f ∈ handedFrames c w.trace, framing.IsFrame f
  /-- Behind them no further frame begins, and if there is a session that is
  what it has. -/
  tail : ∃ t, (w.peers c).received = (handedFrames c w.trace).flatten ++ t
    ∧ (framing.Incomplete t ∨ framing.Refused t)
    ∧ ∀ s, w.client? c = some s →
      s.pending = t ∧ framing.Incomplete t ∧ s.rxUsed ≤ 77
  /-- No call of `recv` asked for a byte past the end of `rx`. -/
  asks : ∀ a ∈ (w.peers c).asks, 0 < a.2 ∧ a.1 + a.2 ≤ 77

/-- All the bytes of a connection: those received and those to come. -/
def stream (w : World τ) (c : ConnId) : Bytes :=
  (w.peers c).received ++ allData (w.peers c).inbox

theorem stream_eq (w : World τ) (c : ConnId) :
    stream w c = (w.peers c).received ++ allData (w.peers c).inbox := rfl

section Steps

variable {c : ConnId} {w w' : World τ} {es : List Event}

/-- A world with the same connection, the same frames and the same session. -/
theorem Framed.congr (h : Framed c w) (hr : (w'.peers c).received
      = (w.peers c).received) (ha : (w'.peers c).asks = (w.peers c).asks)
    (hf : handedFrames c w'.trace = handedFrames c w.trace)
    (hs : ∀ s', w'.client? c = some s' → ∃ s, w.client? c = some s
      ∧ s'.rx = s.rx ∧ s'.rxUsed = s.rxUsed) : Framed c w' := by
  obtain ⟨t, ht, hend, hc⟩ := h.tail
  refine ⟨by rw [hf]; exact h.frames, ⟨t, by rw [hr, hf]; exact ht, hend, ?_⟩,
    by rw [ha]; exact h.asks⟩
  intro s' hs'
  obtain ⟨s, hcl, hrx, hu⟩ := hs s' hs'
  have := hc s hcl
  rw [hu]
  refine ⟨?_, this.2⟩
  rw [← this.1, ClientSession.pending, ClientSession.pending, hrx, hu]

/-- Answering the session keeps its framing in step. -/
theorem Framed.answers (h : Framed c w) (ha : Answers c w w' es) :
    Framed c w' := by
  refine h.congr ha.input.2.1 ha.input.2.2 ?_ ha.mine
  rw [ha.trace, handedFrames_append, ha.handedFrames, List.append_nil]

/-- Acting on another session does, too. -/
theorem Framed.acts {d : ConnId} (h : Framed c w) (ha : Acts d w w' es)
    (hd : c ≠ d) : Framed c w' := by
  refine h.congr (by rw [ha.peers c hd]) (by rw [ha.peers c hd]) ?_ ?_
  · rw [ha.trace, handedFrames_append, handedFrames_eq_nil (ha.not_about hd),
      List.append_nil]
  · intro s' hs'
    obtain ⟨s, hs, hss⟩ := ha.client?_before hd hs'
    exact ⟨s, hs, (congrArg ClientSession.rx hss).symm,
      (congrArg ClientSession.rxUsed hss).symm⟩

/-- Receiving part of a frame keeps the framing in step. -/
theorem Framed.receives {s s' : ClientSession} {got : Bytes}
    (h : Framed c w) (hs : w.client? c = some s)
    (hr : Receives c w w' s s' got) :
    (∀ f ∈ handedFrames c w'.trace, framing.IsFrame f)
      ∧ (w'.peers c).received
        = (handedFrames c w'.trace).flatten ++ s'.pending
      ∧ ∀ a ∈ (w'.peers c).asks, 0 < a.2 ∧ a.1 + a.2 ≤ 77 := by
  obtain ⟨t, ht, _, hc⟩ := h.tail
  have htr : w'.trace = w.trace := by
    rw [hr.acts.trace, List.append_nil]
  obtain ⟨as, has, hall⟩ := hr.asks
  refine ⟨by rw [htr]; exact h.frames, ?_, ?_⟩
  · rw [hr.received, ht, htr, hr.pending, (hc s hs).1, List.append_assoc]
  · rw [has]
    intro a ha
    rcases List.mem_append.mp ha with ha | ha
    · exact h.asks a ha
    · exact hall a ha

/-- What is done after a turn has received does not read on. -/
theorem stream_receives {s s' : ClientSession} {got : Bytes}
    (hr : Receives c w w' s s' got) : stream w' c = stream w c := by
  rw [stream, stream, hr.received, List.append_assoc, hr.data]

theorem stream_answers (ha : Answers c w w' es) :
    stream w' c = stream w c := by
  rw [stream, stream, ha.input.1, ha.input.2.1]

/-- **A turn keeps the framing in step**, and takes nothing from the stream
but what it receives. -/
theorem Framed.serviceTurn (T : ChainTransport τ) (h : Framed c w) :
    Framed c (w.serviceTurn .linux T c).1
      ∧ stream (w.serviceTurn .linux T c).1 c = stream w c := by
  cases hs : w.client? c with
  | none =>
    rw [serviceTurn_of_none .linux T hs]
    exact ⟨h, rfl⟩
  | some s =>
    obtain ⟨t, ht, _, hc⟩ := h.tail
    obtain ⟨hp, hinc, hu⟩ := hc s hs
    rw [← hp] at hinc
    have hcase := serviceTurn_case .linux T hs hu hinc
    generalize w.serviceTurn .linux T c = r at hcase ⊢
    cases hcase with
    | waiting hr hinc' hrest _ =>
      obtain ⟨hf, hrec, has⟩ := h.receives hs hr
      obtain ⟨es, _, ha⟩ := answers_stopped hr.client
        (stopStatus true (w.peers c).inbox)
      refine ⟨Framed.answers ⟨hf, ⟨_, hrec, .inl hinc', ?_⟩, has⟩ ha,
        (stream_answers ha).trans (stream_receives hr)⟩
      intro s' hs'
      obtain rfl := Option.some.inj (hr.client.symm.trans hs')
      exact ⟨rfl, hinc', hr.fits⟩
    | refused _ hr href h8 reason hreason =>
      obtain ⟨hf, hrec, has⟩ := h.receives hs hr
      have ha := answers_clientRemove hr.client reason
      have htr := ha.handedFrames c
      refine ⟨⟨?_, ⟨_, ?_, .inr href, ?_⟩, ?_⟩,
        (stream_answers ha).trans (stream_receives hr)⟩
      · rw [ha.trace, handedFrames_append, htr, List.append_nil]
        exact hf
      · rw [ha.input.2.1, ha.trace, handedFrames_append, htr, List.append_nil]
        exact hrec
      · intro s' hs'
        rw [World.client?_clientRemove, if_pos rfl] at hs'
        cases hs'
      · rw [ha.input.2.2]
        exact has
    | complete hr hframe hread hstop _ =>
      obtain ⟨hf, hrec, has⟩ := h.receives hs hr
      have h8 := hframe.1
      rw [ClientSession.length_pending hr.fits] at h8
      have hd := handed_dispatch .linux T hr.client h8
      refine ⟨⟨?_, ⟨[], ?_, .inl framing.incomplete_nil, ?_⟩, ?_⟩, ?_⟩
      · rw [hd.frames]
        intro f hm
        rcases List.mem_append.mp hm with hm | hm
        · exact hf f hm
        · rw [List.mem_singleton.mp hm]
          exact hframe
      · rw [hd.input.2.1, hd.frames, hrec, List.append_nil,
          List.flatten_append, List.flatten_singleton]
      · intro s' hs'
        obtain ⟨hp', hu'⟩ := hd.empty s' hs'
        exact ⟨hp', framing.incomplete_nil, by rw [hu']; decide⟩
      · rw [hd.input.2.2]
        exact has
      · rw [stream, hd.input.1, hd.input.2.1]
        exact stream_receives hr
    | early hp => cases hp

/-- A session that is accepted starts in step. -/
theorem Framed.acceptSession (h : Framed c w) (ho : Orderly w)
    (mode : ServiceMode) : Framed c (w.acceptSession mode) := by
  have hh : ∀ c, handedFrames c (w.acceptSession mode).trace
      = handedFrames c w.trace := by
    intro c
    exact (handedFrames_append c w.trace _).trans (List.append_nil _)
  by_cases hc : c = w.nextConn
  · subst hc
    have hb := ho.blank w.nextConn le_rfl
    have hnone : handedFrames w.nextConn w.trace = [] :=
      handedFrames_eq_nil ho.not_about
    have hcl : (w.acceptSession mode).client? w.nextConn
        = some (.init w.nextConn mode) :=
      List.find?_cons_of_pos (beq_self_eq_true _)
    refine ⟨by rw [hh, hnone]; exact fun f hf => absurd hf List.not_mem_nil,
      ⟨[], ?_, .inl framing.incomplete_nil, ?_⟩, h.asks⟩
    · rw [hh, hnone]
      exact hb.1
    · intro s hs
      rw [hcl] at hs
      obtain rfl := Option.some.inj hs
      exact ⟨List.take_zero, framing.incomplete_nil, Nat.zero_le _⟩
  · refine h.congr rfl rfl (hh c) fun s' hs' => ⟨s', ?_, rfl, rfl⟩
    rw [← hs']
    refine (List.find?_cons_of_neg ?_).symm
    exact fun h => hc (eq_of_beq h).symm

end Steps

/-! ## Every run -/

/-- **Every connection is in step**, and its whole stream is what it is at
the start. -/
structure InStep (K : ConnId → Bytes) (w : World τ) : Prop where
  /-- The connections are in order. -/
  orderly : Orderly w
  /-- Every framing is in step. -/
  framed : ∀ c, Framed c w
  /-- No byte of a stream is lost or made up. -/
  stream : ∀ c, stream w c = K c

/-- A server that starts is in step. -/
theorem Startup.inStep {T : ChainTransport τ} {w : World τ}
    (hw : Startup T w) : InStep (stream w) w := by
  refine ⟨hw.orderly, fun c => ?_, fun _ => rfl⟩
  have hh : handedFrames c w.trace = [] := by
    rw [hw.trace]
    rfl
  refine ⟨by rw [hh]; exact fun f hf => absurd hf List.not_mem_nil, ⟨[], ?_,
    .inl framing.incomplete_nil, ?_⟩, ?_⟩
  · rw [hh, (hw.peers c).1]
    rfl
  · intro s hs
    have := World.mem_sockets_iff.mpr ⟨s, hs⟩
    rw [hw.sockets] at this
    exact absurd this List.not_mem_nil
  · rw [(hw.peers c).2.1]
    exact fun a ha => absurd ha List.not_mem_nil

/-- **Every action keeps everything in step.** -/
theorem InStep.act {T : ChainTransport τ} {K : ConnId → Bytes} {w : World τ}
    (h : InStep K w) (a : ServerAction) : InStep K ((stratum .linux T).act w a) := by
  refine World.act_induction (I := InStep K) ?_ ?_ ?_ ?_ h a
  · intro w w' hm h
    refine ⟨h.orderly.move hm, fun c => ?_, fun c => ?_⟩ <;>
      obtain ⟨es, _, hq | ⟨d, s, hs, _, ha⟩⟩ := hm
    · exact (h.framed c).answers (hq c)
    · by_cases hd : c = d
      · exact (h.framed c).answers (hd ▸ ha)
      · exact (h.framed c).acts ha.toActs hd
    · exact (stream_answers (hq c)).trans (h.stream c)
    · by_cases hd : c = d
      · exact (stream_answers (hd ▸ ha)).trans (h.stream c)
      · rw [← h.stream c, stream_eq, ha.peers c hd]
        rfl
  · exact fun w mode h => ⟨h.orderly.acceptSession mode,
      fun c => (h.framed c).acceptSession h.orderly mode, h.stream⟩
  · exact fun w b h => ⟨⟨h.orderly.nodup, h.orderly.lt, h.orderly.blank,
      h.orderly.unseen⟩, fun c => ⟨(h.framed c).frames, (h.framed c).tail,
        (h.framed c).asks⟩, h.stream⟩
  · intro w d h
    obtain ⟨es, _, ha⟩ := acts_serviceTurn .linux T w d
    refine ⟨h.orderly.serviceTurn .linux T d, fun c => ?_, fun c => ?_⟩ <;>
      by_cases hd : c = d
    · subst hd
      exact ((h.framed c).serviceTurn T).1
    · exact (h.framed c).acts ha hd
    · subst hd
      exact ((h.framed c).serviceTurn T).2.trans (h.stream c)
    · rw [← h.stream c, stream_eq, ha.peers c hd]
      rfl

/-- Every run keeps everything in step. -/
theorem InStep.run {T : ChainTransport τ} {K : ConnId → Bytes} {w : World τ}
    (h : InStep K w) (as : List ServerAction) :
    InStep K ((stratum .linux T).run w as) :=
  Machine.run_induction (M := stratum .linux T) (P := InStep K)
    (fun _ a h => h.act a) h as

/-- The framing of a connection is in step in every reachable state. -/
theorem framed_of_run {T : ChainTransport τ} {w : World τ}
    (h : (stratum .linux T).Reachable w) (c : ConnId) : Framed c w := by
  obtain ⟨w₀, as, hw, rfl⟩ := h
  exact (hw.inStep.run as).framed c

/-- **The frames handed over are the decomposition of the stream.** Whatever
a miner sends and however it arrives, the frames handed over so far are those
of the bytes received so far, which are a part from the front of the stream;
a session that is still there has exactly the incomplete frame behind them;
and no call of `recv` asked for a byte past the end of `rx`. Two connections
on which the same bytes were received have had the same frames handed over,
in whatever two runs. -/
theorem framing_of_stream {T : ChainTransport τ} {w₀ : World τ}
    (h₀ : Startup T w₀) (as : List ServerAction) (c : ConnId) :
    let w := (stratum .linux T).run w₀ as
    (w.peers c).received ++ allData (w.peers c).inbox
        = allData (w₀.peers c).inbox
      ∧ handedFrames c w.trace = (framing.decompose (w.peers c).received).1
      ∧ (∀ s, w.client? c = some s →
        s.pending = (framing.decompose (w.peers c).received).2
          ∧ s.rxUsed = (framing.decompose (w.peers c).received).2.length
          ∧ framing.Incomplete s.pending ∧ s.rxUsed ≤ 77)
      ∧ (∀ a ∈ (w.peers c).asks, 0 < a.2 ∧ a.1 + a.2 ≤ 77)
      ∧ ∀ (T' : ChainTransport τ) (w' : World τ) (d : ConnId),
        (stratum .linux T').Reachable w' →
        (w'.peers d).received = (w.peers c).received →
        handedFrames d w'.trace = handedFrames c w.trace := by
  dsimp only
  have hin := h₀.inStep.run (T := T) as
  generalize (stratum .linux T).run w₀ as = w at hin ⊢
  have hdec : ∀ {w : World τ} {c : ConnId}, Framed c w →
      handedFrames c w.trace = (framing.decompose (w.peers c).received).1
        ∧ ∀ s, w.client? c = some s →
          s.pending = (framing.decompose (w.peers c).received).2
            ∧ framing.Incomplete s.pending ∧ s.rxUsed ≤ 77 := by
    intro w c hf
    obtain ⟨t, ht, hend, hc⟩ := hf.tail
    have := framing.decompose_eq hf.frames hend
    rw [← ht] at this
    rw [this]
    refine ⟨rfl, fun s hs => ?_⟩
    obtain ⟨hp, hi, hu⟩ := hc s hs
    exact ⟨hp, hp ▸ hi, hu⟩
  obtain ⟨h₁, h₂⟩ := hdec (hin.framed c)
  refine ⟨?_, h₁, fun s hs => ?_, (hin.framed c).asks, ?_⟩
  · refine (hin.stream c).trans ?_
    rw [stream, (h₀.peers c).1]
    rfl
  · obtain ⟨hp, hi, hu⟩ := h₂ s hs
    exact ⟨hp, by rw [← hp, ClientSession.length_pending hu], hi, hu⟩
  · intro T' w' d hr he
    rw [h₁, (hdec (framed_of_run hr d)).1, he]

/-- Both frames of a miner that was served twice have been handed over. -/
theorem framing_of_stream_rehearsal :
    handedFrames 0 ((stratum .linux Rpc.replay).run (rehearsal 0)
        performance).trace
      = (framing.decompose (addressFrame ++ submitFrame)).1 := by
  have h := framing_of_stream (startup_rehearsal 0) performance 0
  have hr : (((stratum .linux Rpc.replay).run (rehearsal 0)
      performance).peers 0).received = addressFrame ++ submitFrame := by
    decide +kernel
  exact h.2.1.trans (by rw [hr])
