import StnStratum.Moves
import StnStratum.Rehearsal

/-!
# What a miner reads

Everything the server writes to a miner's connection is a RESULT or a JOB,
and the miner tells them apart by reading on from where the last one ended. A
frame that is cut would put it out of step for good, so the server ends a
session whose frame it could not write in full, and writes to it no more.
Among the frames the RESULTs have no number of their own: the miner takes the
first for its first SUBMIT, the second for its second. `Replies` is what makes
that right: a session that is still there has had one RESULT for every SUBMIT
handed over, each before the next frame, and none for anything else.
-/

variable {τ : Type}

/-! ## The frames -/

/-- **A RESULT as it is sent.** -/
structure IsResult (f : Bytes) : Prop where
  /-- It has its length. -/
  length : f.length = Miner.resultSize
  /-- Magic, version, type and the reserved bytes. -/
  head : slice f 0 8
    = Miner.magic ++ [Miner.version] ++ [Miner.result] ++ [0, 0]

/-- **A frame the server sends.** -/
inductive IsOutput : Bytes → Prop where
  /-- A RESULT. -/
  | result {f : Bytes} (h : IsResult f) : IsOutput f
  /-- A JOB, header and block. -/
  | job {header block : Bytes} (h : IsJob header block) :
    IsOutput (header ++ block)

theorem isResult_resultFrame (code : ℕ) :
    IsResult (resultFrame code).bytes := by
  refine ⟨(resultFrame code).size, ?_⟩
  rw [resultFrame_bytes, slice_append_left (by decide)]
  decide

/-! ## Frames handed over and RESULTs -/

/-- What an event is to the miner: a frame of its own handed over, or a RESULT
with a code. -/
def Event.said? (c : ConnId) : Event → Option (Bytes ⊕ ℕ)
  | frame d bytes => if d = c then some (.inl bytes) else none
  | result d code => if d = c then some (.inr code) else none
  | _ => none

/-- The frames of a connection handed over and the RESULTs sent to it, in
their order. -/
def conversation (c : ConnId) (es : List Event) : List (Bytes ⊕ ℕ) :=
  es.filterMap (Event.said? c)

/-- The codes of the RESULTs sent to a connection. -/
def resultCodes (c : ConnId) (es : List Event) : List ℕ :=
  (conversation c es).filterMap Sum.getRight?

/-- The SUBMIT frames of a connection that were handed over. -/
def submitFrames (c : ConnId) (es : List Event) : List Bytes :=
  ((conversation c es).filterMap Sum.getLeft?).filter
    fun f => f.getD 5 0 == Miner.submit

/-- **A conversation in which every SUBMIT has been answered**: each frame is
followed by its RESULT, if it is a SUBMIT, and by no RESULT otherwise. -/
def Answered (said : List (Bytes ⊕ ℕ)) : Prop :=
  ∃ pairs : List (Bytes × Option ℕ),
    said = pairs.flatMap (fun p => .inl p.1 :: (p.2.toList.map .inr))
      ∧ ∀ p ∈ pairs, p.2.isSome = true ↔ p.1.getD 5 0 = Miner.submit

theorem conversation_append (c : ConnId) (es fs : List Event) :
    conversation c (es ++ fs) = conversation c es ++ conversation c fs :=
  List.filterMap_append

/-- Nothing about `c`, nothing said to it. -/
theorem conversation_eq_nil {c : ConnId} {es : List Event}
    (h : ∀ e ∈ es, e.client? ≠ some c) : conversation c es = [] := by
  refine List.filterMap_eq_nil_iff.mpr fun e he => ?_
  have := h e he
  cases e with
  | frame d bytes => exact if_neg fun hd : d = c => this (congrArg some hd)
  | result d code => exact if_neg fun hd : d = c => this (congrArg some hd)
  | _ => rfl

theorem answered_nil : Answered [] :=
  ⟨[], rfl, fun _ h => absurd h List.not_mem_nil⟩

/-- **One more frame, and its reply if it has one.** -/
theorem Answered.append {said : List (Bytes ⊕ ℕ)} (h : Answered said)
    {f : Bytes} {reply : Option ℕ}
    (hr : reply.isSome = true ↔ f.getD 5 0 = Miner.submit) :
    Answered (said ++ .inl f :: reply.toList.map .inr) := by
  obtain ⟨pairs, rfl, hall⟩ := h
  refine ⟨pairs ++ [(f, reply)], ?_, fun p hp => ?_⟩
  · rw [List.flatMap_append, List.flatMap_singleton]
  · rcases List.mem_append.mp hp with hp | hp
    · exact hall p hp
    · rw [List.mem_singleton.mp hp]
      exact hr

/-- **As many RESULTs as SUBMITs.** -/
theorem Answered.length_eq {said : List (Bytes ⊕ ℕ)} (h : Answered said) :
    (said.filterMap Sum.getRight?).length
      = ((said.filterMap Sum.getLeft?).filter
          fun f => f.getD 5 0 == Miner.submit).length := by
  obtain ⟨pairs, rfl, hall⟩ := h
  induction pairs with
  | nil => rfl
  | cons p pairs ih =>
    have ih := ih fun q hq => hall q (List.mem_cons_of_mem _ hq)
    have hp := hall p List.mem_cons_self
    obtain ⟨f, reply⟩ := p
    rw [List.flatMap_cons, List.filterMap_append, List.filterMap_append,
      List.filter_append, List.length_append, List.length_append, ih]
    congr 1
    cases reply with
    | none =>
      have hf : (f.getD 5 0 == Miner.submit) = false :=
        beq_eq_false_iff_ne.mpr fun h => nomatch hp.mpr h
      show 0 = ([f].filter _).length
      rw [List.filter_singleton, hf]
      rfl
    | some code =>
      have hf : (f.getD 5 0 == Miner.submit) = true := beq_iff_eq.mpr (hp.mp rfl)
      show 1 = ([f].filter _).length
      rw [List.filter_singleton, hf]
      rfl

/-! ## What each episode says and sends -/

/-- The end of a session says and sends nothing. -/
theorem Ending.silent {c : ConnId} {es : List Event} (h : Ending c es) :
    conversation c es = [] ∧ sentFrames c es = [] := by
  rcases h with rfl | ⟨reason, n, rfl⟩ <;> exact ⟨rfl, rfl⟩

/-- A session that is there after an ending was not ended. -/
theorem Ending.eq_nil {c : ConnId} {es fs : List Event} (h : Ending c fs)
    (hs : ∀ e ∈ fs, e ∈ es)
    (hk : ∀ reason n, Event.removed c reason n ∉ es) : fs = [] := by
  rcases h with rfl | ⟨reason, n, rfl⟩
  · rfl
  · exact absurd (hs _ List.mem_cons_self) (hk reason n)

/-- **What the server does on its own is a JOB or nothing** to the miner. -/
theorem Initiative.output {es : List Event} (h : Initiative es) (c : ConnId) :
    conversation c es = [] ∧ ∀ f ∈ sentFrames c es, IsOutput f := by
  cases h with
  | polled => exact ⟨rfl, fun f hf => absurd hf List.not_mem_nil⟩
  | @job d header block hj es he =>
    by_cases hd : d = c
    · subst hd
      have hes := he.silent
      refine ⟨hes.1, fun f hf => ?_⟩
      unfold sentFrames at hf hes
      rw [List.filterMap_cons, hes.2,
        show Event.sent? d (.job d header block) = _ from if_pos rfl] at hf
      rw [List.mem_singleton.mp hf]
      exact .job hj
    · have hne : ∀ e ∈ Event.job d header block :: es, e.client? ≠ some c := by
        intro e he' h
        rcases List.mem_cons.mp he' with rfl | he'
        · exact hd (Option.some.inj h)
        · rcases he with rfl | ⟨reason, n, rfl⟩
          · exact absurd he' List.not_mem_nil
          · rw [List.mem_singleton.mp he'] at h
            exact hd (Option.some.inj h)
      rw [sentFrames_eq_nil hne]
      exact ⟨conversation_eq_nil hne, fun f hf => absurd hf List.not_mem_nil⟩
  | ended => exact ⟨rfl, fun f hf => absurd hf List.not_mem_nil⟩

/-- What follows a frame sends frames. -/
theorem Reaction.output {c : ConnId} {frame : Bytes} {es : List Event}
    (h : Reaction c frame es) : ∀ f ∈ sentFrames c es, IsOutput f := by
  intro f hf
  cases h with
  | ended => exact absurd hf List.not_mem_nil
  | silent => exact absurd hf List.not_mem_nil
  | @job _ header block hj es he =>
    have hes := he.silent.2
    unfold sentFrames at hf hes
    rw [List.filterMap_cons, hes,
      show Event.sent? c (.job c header block) = _ from if_pos rfl] at hf
    rw [List.mem_singleton.mp hf]
    exact .job hj
  | @refused _ code _ es he =>
    have hes := he.silent.2
    unfold sentFrames at hf hes
    rw [List.filterMap_cons, hes,
      show Event.sent? c (.result c (submitResultCode code)) = _ from
        if_pos rfl] at hf
    rw [List.mem_singleton.mp hf]
    exact .result (isResult_resultFrame _)
  | @asked _ request reply code _ es he =>
    have hes := he.silent.2
    unfold sentFrames at hf hes
    rw [List.filterMap_cons, List.filterMap_cons, hes,
      show Event.sent? c (.result c (submitResultCode code)) = _ from
        if_pos rfl] at hf
    rw [List.mem_singleton.mp hf]
    exact .result (isResult_resultFrame _)

/-- **What follows a frame answers it**, unless the session ends. -/
theorem Reaction.answered {c : ConnId} {frame : Bytes} {es : List Event}
    (h : Reaction c frame es)
    (hk : ∀ reason n, Event.removed c reason n ∉ es) :
    ∃ reply : Option ℕ, conversation c (.frame c frame :: es)
        = .inl frame :: reply.toList.map .inr
      ∧ (reply.isSome = true ↔ frame.getD 5 0 = Miner.submit) := by
  have hframe : ∀ es, conversation c (.frame c frame :: es)
      = .inl frame :: conversation c es := fun es => by
    unfold conversation
    rw [List.filterMap_cons,
      show Event.said? c (.frame c frame) = _ from if_pos rfl]
  have hresult : ∀ code, conversation c [.result c code] = [.inr code] :=
    fun code => by
      unfold conversation
      rw [List.filterMap_cons,
        show Event.said? c (.result c code) = _ from if_pos rfl]
      rfl
  rw [hframe]
  cases h with
  | ended reason n => exact absurd List.mem_cons_self (hk reason n)
  | silent h => exact ⟨none, rfl, by simpa using h⟩
  | @job h header block hj es he =>
    refine ⟨none, ?_, by simpa using h⟩
    rw [he.eq_nil (fun e he => List.mem_cons_of_mem _ he) hk]
    rfl
  | @refused h code _ es he =>
    refine ⟨some (submitResultCode code), ?_, by simpa using h⟩
    rw [he.eq_nil (fun e he => List.mem_cons_of_mem _ he) hk, hresult]
    rfl
  | @asked h request reply code _ es he =>
    refine ⟨some (submitResultCode code), ?_, by simpa using h⟩
    rw [he.eq_nil (fun e he => List.mem_cons_of_mem _
      (List.mem_cons_of_mem _ he)) hk]
    show .inl frame :: conversation c [.result c _] = _
    rw [hresult]
    rfl

/-! ## Every run -/

/-- **What has been written to a connection**, and what it answers. -/
structure Replies (c : ConnId) (w : World τ) : Prop where
  /-- Every frame sent is a RESULT or a JOB. -/
  output : ∀ f ∈ sentFrames c w.trace, IsOutput f
  /-- A session that is there has been sent all of them in full. -/
  whole : w.client? c ≠ none →
    (w.peers c).written = (sentFrames c w.trace).flatten
  /-- Without a session the last one may be cut. -/
  cut : w.client? c = none →
    Cut (sentFrames c w.trace) (w.peers c).written
  /-- Every SUBMIT of a session that is there has been answered. -/
  answered : w.client? c ≠ none → Answered (conversation c w.trace)

section Steps

variable {c d : ConnId} {w w' : World τ} {es : List Event}

/-- **What acting on the session itself makes of it**, given what the events
send and say. -/
theorem Replies.acts_self (h : Replies c w) (ha : Acts c w w' es)
    (ho : ∀ f ∈ sentFrames c es, IsOutput f)
    (hs : w'.client? c ≠ none → Answered (conversation c w.trace) →
      Answered (conversation c w.trace ++ conversation c es)) :
    Replies c w' := by
  have hthere : w'.client? c ≠ none → w.client? c ≠ none :=
    fun hn h' => hn (ha.delivers.gone h').1
  refine ⟨?_, fun hn => ?_, fun hn => ?_, fun hn => ?_⟩
  · rw [ha.trace, sentFrames_append]
    intro f hf
    rcases List.mem_append.mp hf with hf | hf
    · exact h.output f hf
    · exact ho f hf
  · rw [ha.delivers.stays hn, h.whole (hthere hn), ha.trace,
      sentFrames_append, List.flatten_append]
  · rw [ha.trace, sentFrames_append]
    by_cases hw : w.client? c = none
    · obtain ⟨_, hwr, hnil⟩ := ha.delivers.gone hw
      rw [hwr, hnil, List.append_nil]
      exact h.cut hw
    · obtain ⟨q, hq, hc⟩ := ha.delivers.ends hn
      rw [hq, h.whole hw]
      exact hc.append _
  · rw [ha.trace, conversation_append]
    exact hs hn (h.answered (hthere hn))

/-- Acting on another session leaves it alone. -/
theorem Replies.acts_other (h : Replies c w) (ha : Acts d w w' es)
    (hd : c ≠ d) : Replies c w' := by
  have hcl := ha.client?_eq_none_iff hd
  have hs := sentFrames_eq_nil (ha.not_about hd)
  have hc := conversation_eq_nil (ha.not_about hd)
  refine ⟨?_, fun hn => ?_, fun hn => ?_, fun hn => ?_⟩
  · rw [ha.trace, sentFrames_append, hs, List.append_nil]
    exact h.output
  · rw [ha.trace, sentFrames_append, hs, List.append_nil, ha.peers c hd]
    exact h.whole fun h' => hn (hcl.mpr h')
  · rw [ha.trace, sentFrames_append, hs, List.append_nil, ha.peers c hd]
    exact h.cut (hcl.mp hn)
  · rw [ha.trace, conversation_append, hc, List.append_nil]
    exact h.answered fun h' => hn (hcl.mpr h')

/-- What the server does on its own keeps it. -/
theorem Replies.initiative (h : Replies c w) (ha : Acts c w w' es)
    (he : es = [] ∨ Initiative es) : Replies c w' := by
  have hes : conversation c es = [] ∧ ∀ f ∈ sentFrames c es, IsOutput f := by
    rcases he with rfl | he
    · exact ⟨rfl, fun f hf => absurd hf List.not_mem_nil⟩
    · exact he.output c
  refine h.acts_self ha hes.2 fun _ hs => ?_
  rwa [hes.1, List.append_nil]

/-- A turn keeps it: the frame that is handed over is answered in the same
turn. -/
theorem Replies.turn (h : Replies c w) (ha : Acts c w w' es)
    (he : TurnEvents c es) : Replies c w' := by
  rcases he with he | ⟨frame, es', hr, rfl⟩
  · have hes := he.silent
    refine h.acts_self ha (fun f hf => ?_) fun _ hs => ?_
    · rw [hes.2] at hf
      exact absurd hf List.not_mem_nil
    · rwa [hes.1, List.append_nil]
  · refine h.acts_self ha hr.output fun hn hs => ?_
    obtain ⟨reply, hc, hrep⟩ := hr.answered fun reason n hm =>
      ha.delivers.kept hn reason n (List.mem_cons_of_mem _ hm)
    rw [hc]
    exact hs.append hrep

/-- A connection to which nothing was sent and said has its replies. -/
theorem Replies.of_blank (hs : sentFrames c w.trace = [])
    (hc : conversation c w.trace = []) (hw : (w.peers c).written = []) :
    Replies c w := by
  refine ⟨?_, fun _ => ?_, fun _ => ?_, fun _ => ?_⟩
  · rw [hs]
    exact fun f hf => absurd hf List.not_mem_nil
  · rw [hs, hw]
    rfl
  · rw [hs, hw]
    exact cut_flatten []
  · rw [hc]
    exact answered_nil

/-- Accepting a session keeps it. -/
theorem Replies.acceptSession (h : Replies c w) (ho : Orderly w)
    (mode : ServiceMode) : Replies c (w.acceptSession mode) := by
  have hs : sentFrames c (w.acceptSession mode).trace
      = sentFrames c w.trace :=
    (sentFrames_append c w.trace _).trans (List.append_nil _)
  have hco : conversation c (w.acceptSession mode).trace
      = conversation c w.trace :=
    (conversation_append c w.trace _).trans (List.append_nil _)
  by_cases hc : c = w.nextConn
  · subst hc
    exact Replies.of_blank (hs.trans (sentFrames_eq_nil ho.not_about))
      (hco.trans (conversation_eq_nil ho.not_about))
      (ho.blank w.nextConn le_rfl).2.2
  · have hcl : (w.acceptSession mode).client? c = w.client? c :=
      List.find?_cons_of_neg fun h => hc (eq_of_beq h).symm
    exact ⟨by rw [hs]; exact h.output, by rw [hs, hcl]; exact h.whole,
      by rw [hs, hcl]; exact h.cut, by rw [hco, hcl]; exact h.answered⟩

end Steps

/-- **Every action keeps every connection's replies in order.** -/
theorem replies_of_run {P : Platform} {T : ChainTransport τ} {w : World τ}
    (h : (stratum P T).Reachable w) (c : ConnId) : Replies c w := by
  have hall : Orderly w ∧ ∀ c, Replies c w := by
    refine h.invariant (P := fun w => Orderly w ∧ ∀ c, Replies c w) ?_ ?_
    · intro w hw
      refine ⟨hw.orderly, fun c => Replies.of_blank ?_ ?_ (hw.peers c).2.2⟩ <;>
        rw [hw.trace] <;> rfl
    · intro w a _ hw
      refine World.act_induction (I := fun w => Orderly w ∧ ∀ c, Replies c w)
        ?_ ?_ ?_ ?_ hw a
      · rintro w w' hm ⟨ho, hr⟩
        refine ⟨ho.move hm, fun c => ?_⟩
        obtain ⟨es, he, hq | ⟨d, s, _, _, ha⟩⟩ := hm
        · exact (hr c).initiative (hq c).toActs he
        · by_cases hd : c = d
          · subst hd
            exact (hr c).initiative ha.toActs he
          · exact (hr c).acts_other ha.toActs hd
      · exact fun w mode hw => ⟨hw.1.acceptSession mode,
          fun c => (hw.2 c).acceptSession hw.1 mode⟩
      · exact fun w b hw => ⟨⟨hw.1.nodup, hw.1.lt, hw.1.blank, hw.1.unseen⟩,
          fun c => ⟨(hw.2 c).output, (hw.2 c).whole, (hw.2 c).cut,
            (hw.2 c).answered⟩⟩
      · intro w d hw
        obtain ⟨es, he, ha⟩ := acts_serviceTurn P T w d
        refine ⟨hw.1.serviceTurn P T d, fun c => ?_⟩
        by_cases hd : c = d
        · subst hd
          exact (hw.2 c).turn ha he
        · exact (hw.2 c).acts_other ha hd
  exact hall.2 c

/-! ## Sessions that are gone -/

/-- **A session that is gone stays gone**, and nothing is written to its
connection any more. -/
structure Gone (c : ConnId) (written : Bytes) (w : World τ) : Prop where
  /-- The connection has been accepted. -/
  lt : c < w.nextConn
  /-- It has no session. -/
  client : w.client? c = none
  /-- It has been written these bytes. -/
  written : (w.peers c).written = written

theorem Gone.acts {c d : ConnId} {q : Bytes} {w w' : World τ}
    {es : List Event} (h : Gone c q w) (ha : Acts d w w' es) :
    Gone c q w' := by
  by_cases hd : c = d
  · subst hd
    obtain ⟨hn, hw, _⟩ := ha.delivers.gone h.client
    exact ⟨by rw [ha.nextConn]; exact h.lt, hn, hw.trans h.written⟩
  · exact ⟨by rw [ha.nextConn]; exact h.lt,
      (ha.client?_eq_none_iff hd).mpr h.client,
      by rw [ha.peers c hd]; exact h.written⟩

/-- Every run leaves alone a session that is gone. -/
theorem Gone.run {P : Platform} {T : ChainTransport τ} {c : ConnId}
    {q : Bytes} {w : World τ} (h : Gone c q w) (as : List ServerAction) :
    Gone c q ((stratum P T).run w as) := by
  refine Machine.run_induction (M := stratum P T) (P := Gone c q)
    (fun w a h => ?_) h as
  refine World.act_induction (I := Gone c q) ?_ ?_ ?_ ?_ h a
  · rintro w w' ⟨es, _, hq | ⟨d, s, _, _, ha⟩⟩ h
    · exact h.acts (hq c).toActs
    · exact h.acts ha.toActs
  · intro w mode h
    refine ⟨Nat.lt_succ_of_lt h.lt, ?_, h.written⟩
    refine (List.find?_cons_of_neg ?_).trans h.client
    exact fun hc => Nat.ne_of_lt h.lt (eq_of_beq hc).symm
  · exact fun w b h => ⟨h.lt, h.client, h.written⟩
  · intro w d h
    obtain ⟨es, _, ha⟩ := acts_serviceTurn P T w d
    exact h.acts ha

/-- **What a miner reads is frames, and one RESULT for each SUBMIT.** In every
reachable state and for every connection: the bytes written are RESULTs and
JOBs, one behind the other, all of them in full if the session is still there,
the last one perhaps in part if it is not, and nothing is ever written behind
that; and while the session is there, each SUBMIT handed over has had exactly
one RESULT, before the next frame, and no other frame has had any. -/
theorem output_of_run {T : ChainTransport τ} {w : World τ}
    (h : (stratum .linux T).Reachable w) (c : ConnId) :
    (∀ f ∈ sentFrames c w.trace, IsOutput f)
      ∧ (w.client? c ≠ none →
        (w.peers c).written = (sentFrames c w.trace).flatten)
      ∧ (w.client? c = none →
        Cut (sentFrames c w.trace) (w.peers c).written
          ∧ (c < w.nextConn → ∀ as,
            (((stratum .linux T).run w as).peers c).written
              = (w.peers c).written))
      ∧ (w.client? c ≠ none → Answered (conversation c w.trace)
        ∧ (resultCodes c w.trace).length
          = (submitFrames c w.trace).length) := by
  have hr := replies_of_run h c
  exact ⟨hr.output, hr.whole,
    fun hn => ⟨hr.cut hn, fun hlt as =>
      (Gone.run (T := T) ⟨hlt, hn, rfl⟩ as).written⟩,
    fun hn => ⟨hr.answered hn, (hr.answered hn).length_eq⟩⟩

set_option maxRecDepth 100000 in
/-- A miner that has sent one SUBMIT has had one RESULT. -/
theorem output_of_run_rehearsal :
    let w := (stratum .linux Rpc.replay).run (rehearsal 0) performance
    (w.peers 0).written = (sentFrames 0 w.trace).flatten
      ∧ (submitFrames 0 w.trace).length = 1
      ∧ (resultCodes 0 w.trace).length = 1 := by
  intro w
  obtain ⟨hc, hs⟩ : (w.client? 0).isSome = true
      ∧ (submitFrames 0 w.trace).length = 1 := by decide +kernel
  have hw : (stratum .linux Rpc.replay).Reachable w :=
    reachable_rehearsal 0 performance
  clear_value w
  have h := output_of_run hw 0
  have hne := Option.isSome_iff_ne_none.mp hc
  exact ⟨h.2.1 hne, hs, (h.2.2.2 hne).2.trans hs⟩
