import StnStratum.Service

/-!
# What a function of the server may touch

A function that acts on one session may store into that session, write to its
connection and end it. It may clear every session's job along with the work.
It does nothing else to anybody: the other connections are as they were, the
other sessions are as they were up to their jobs, and the list of sessions
keeps its order. `Acts` says so of a function and of the events it adds to
the trace, and ties what was written to the connection to those events: a
frame for each, in their order, and only a session that ends may have been
sent the last one in part. `Answers` adds that nothing was received.

Both compose, so a function is shown to satisfy them piece by piece, once.
-/

variable {τ : Type}

namespace Event

/-- The frame an event sends to `c`, if it sends one. -/
def sent? (c : ConnId) : Event → Option Bytes
  | result d code => if d = c then some (resultFrame code).bytes else none
  | job d header block => if d = c then some (header ++ block) else none
  | _ => none

/-- The request of an exchange with Chain, and what it came back with. -/
def exchange? : Event → Option (Bytes × Option Bytes)
  | exchange request reply => some (request, reply)
  | _ => none

end Event

/-- **The frames sent to a connection**, by the events. -/
def sentFrames (c : ConnId) (es : List Event) : List Bytes :=
  es.filterMap (Event.sent? c)

/-- **The frames of a connection handed over**, by the events. -/
def handedFrames (c : ConnId) (es : List Event) : List Bytes :=
  es.filterMap (Event.frame? c)

/-- **The exchanges with Chain**, by the events. -/
def exchangesOf (es : List Event) : List (Bytes × Option Bytes) :=
  es.filterMap Event.exchange?

theorem mem_exchangesOf {es : List Event} {request : Bytes}
    {reply : Option Bytes} :
    (request, reply) ∈ exchangesOf es ↔ .exchange request reply ∈ es := by
  unfold exchangesOf
  rw [List.mem_filterMap]
  constructor
  · rintro ⟨e, he, h⟩
    cases e with
    | exchange request' reply' =>
      obtain ⟨rfl, rfl⟩ := Prod.mk.inj (Option.some.inj h)
      exact he
    | _ => cases h
  · exact fun h => ⟨_, h, rfl⟩

theorem sentFrames_append (c : ConnId) (es fs : List Event) :
    sentFrames c (es ++ fs) = sentFrames c es ++ sentFrames c fs :=
  List.filterMap_append

theorem handedFrames_append (c : ConnId) (es fs : List Event) :
    handedFrames c (es ++ fs) = handedFrames c es ++ handedFrames c fs :=
  List.filterMap_append

/-- A frame handed over is the first of those of its event and the rest. -/
@[simp] theorem handedFrames_frame (c : ConnId) (bytes : Bytes)
    (es : List Event) :
    handedFrames c (.frame c bytes :: es) = bytes :: handedFrames c es := by
  simp [handedFrames, Event.frame?]

/-- Nothing about `c`, nothing sent to it. -/
theorem sentFrames_eq_nil {c : ConnId} {es : List Event}
    (h : ∀ e ∈ es, e.client? ≠ some c) : sentFrames c es = [] := by
  refine List.filterMap_eq_nil_iff.mpr fun e he => ?_
  have := h e he
  cases e with
  | result d code => exact if_neg fun hd : d = c => this (congrArg some hd)
  | job d header block => exact if_neg fun hd : d = c => this (congrArg some hd)
  | _ => rfl

/-- Nothing about `c`, no frame of it handed over. -/
theorem handedFrames_eq_nil {c : ConnId} {es : List Event}
    (h : ∀ e ∈ es, e.client? ≠ some c) : handedFrames c es = [] := by
  refine List.filterMap_eq_nil_iff.mpr fun e he => ?_
  have := h e he
  cases e with
  | frame d bytes => exact if_neg fun hd : d = c => this (congrArg some hd)
  | _ => rfl

/-! ## Complete frames and a last one in part -/

/-- **Frames of which the last may be cut**: `q` is all of them, or all but
the last and a part of that. -/
def Cut (fs : List Bytes) (q : Bytes) : Prop :=
  ∃ (done last : List Bytes) (part : Bytes), fs = done ++ last
    ∧ last.length ≤ 1 ∧ part <+: last.flatten ∧ q = done.flatten ++ part

/-- Frames that are not cut. -/
theorem cut_flatten (fs : List Bytes) : Cut fs fs.flatten :=
  ⟨fs, [], [], (List.append_nil _).symm, Nat.zero_le _, List.nil_prefix,
    (List.append_nil _).symm⟩

/-- Frames of which the last may be cut are a part of all of them. -/
theorem Cut.prefix_flatten {fs : List Bytes} {q : Bytes} (h : Cut fs q) :
    q <+: fs.flatten := by
  obtain ⟨done, last, part, rfl, _, hp, rfl⟩ := h
  rw [List.flatten_append]
  exact (List.prefix_append_right_inj _).mpr hp

/-- A single frame of which a part was sent. -/
theorem cut_singleton {f q : Bytes} (h : q <+: f) : Cut [f] q :=
  ⟨[], [f], q, rfl, le_rfl, by rwa [List.flatten_singleton], rfl⟩

/-- Complete frames in front of frames that may be cut. -/
theorem Cut.append {gs : List Bytes} {q : Bytes} (h : Cut gs q)
    (fs : List Bytes) : Cut (fs ++ gs) (fs.flatten ++ q) := by
  obtain ⟨done, last, part, rfl, hl, hp, rfl⟩ := h
  refine ⟨fs ++ done, last, part, (List.append_assoc _ _ _).symm, hl, hp, ?_⟩
  rw [List.flatten_append, List.append_assoc]

/-! ## Acting on a session -/

open ClientSession (clearJob)

/-- **What was written to `c`** between two worlds: the frames of the events
if the session is still there, the last one perhaps in part if it is not, and
nothing if it was not there to begin with. -/
structure Delivers (c : ConnId) (w w' : World τ) (es : List Event) : Prop where
  /-- No session, nothing written. -/
  gone : w.client? c = none → w'.client? c = none
    ∧ (w'.peers c).written = (w.peers c).written ∧ sentFrames c es = []
  /-- A session that stays. -/
  stays : w'.client? c ≠ none →
    (w'.peers c).written = (w.peers c).written ++ (sentFrames c es).flatten
  /-- A session that ends. -/
  ends : w'.client? c = none → ∃ q,
    (w'.peers c).written = (w.peers c).written ++ q ∧ Cut (sentFrames c es) q
  /-- A session that is there has not been removed. -/
  kept : w'.client? c ≠ none → ∀ reason n, Event.removed c reason n ∉ es

/-- **What a function acting on `c` may touch**, and the events it adds. -/
structure Acts (c : ConnId) (w w' : World τ) (es : List Event) : Prop where
  /-- The events are added to the trace. -/
  trace : w'.trace = w.trace ++ es
  /-- They are about `c`, or about Chain. -/
  about : ∀ e ∈ es, ∀ d, e.client? = some d → d = c
  /-- Nobody is accepted. -/
  nextConn : w'.nextConn = w.nextConn
  /-- The listeners are left alone. -/
  backlog : w'.backlog = w.backlog
  /-- So are the other connections. -/
  peers : ∀ d, d ≠ c → w'.peers d = w.peers d
  /-- So are the other sessions, their jobs apart. -/
  others : ∀ d, d ≠ c →
    (w'.client? d).map clearJob = (w.client? d).map clearJob
  /-- The list of sessions keeps its order. -/
  sockets : w'.sockets = w.sockets ∨ w'.sockets = w.sockets.filter (· != c)
  /-- What was written is what the events say. -/
  delivers : Delivers c w w' es

/-- **What a function answering `c` may touch**: it receives nothing. -/
structure Answers (c : ConnId) (w w' : World τ) (es : List Event) : Prop
    extends Acts c w w' es where
  /-- The frame in the session is left alone. -/
  mine : ∀ s', w'.client? c = some s' → ∃ s, w.client? c = some s
    ∧ s'.rx = s.rx ∧ s'.rxUsed = s.rxUsed
  /-- Nothing is received. -/
  input : (w'.peers c).inbox = (w.peers c).inbox
    ∧ (w'.peers c).received = (w.peers c).received
    ∧ (w'.peers c).asks = (w.peers c).asks
  /-- No frame is handed over. -/
  noFrame : ∀ e ∈ es, ∀ d, e.frame? d = none

section Compose

variable {c : ConnId} {w w' w'' : World τ} {es fs : List Event}

/-- **Writing nothing**, whatever else is done to the session short of ending
it. -/
theorem Delivers.of_silent (hn : w'.client? c = none ↔ w.client? c = none)
    (hw : (w'.peers c).written = (w.peers c).written)
    (hs : sentFrames c es = [])
    (hr : ∀ reason n, Event.removed c reason n ∉ es) :
    Delivers c w w' es where
  gone h := ⟨hn.mpr h, hw, hs⟩
  stays _ := by rw [hs, List.flatten_nil, List.append_nil, hw]
  ends _ := ⟨[], by rw [List.append_nil, hw], by
    rw [hs]
    exact cut_flatten []⟩
  kept _ := hr

/-- **Ending the session**, whatever part of a frame was written to it. -/
theorem Delivers.of_ended (q : Bytes) (hs : w.client? c ≠ none)
    (hn : w'.client? c = none)
    (hw : (w'.peers c).written = (w.peers c).written ++ q)
    (hq : Cut (sentFrames c es) q) : Delivers c w w' es where
  gone h := absurd h hs
  stays h := absurd hn h
  ends _ := ⟨q, hw, hq⟩
  kept h := absurd hn h

theorem Delivers.refl : Delivers c w w [] :=
  .of_silent Iff.rfl rfl rfl fun _ _ => List.not_mem_nil

theorem Delivers.trans (h : Delivers c w w' es) (h' : Delivers c w' w'' fs) :
    Delivers c w w'' (es ++ fs) where
  gone hn := by
    obtain ⟨hn', hw, he⟩ := h.gone hn
    obtain ⟨hn'', hw', hf⟩ := h'.gone hn'
    exact ⟨hn'', hw'.trans hw, by rw [sentFrames_append, he, hf]; rfl⟩
  stays hs := by
    have hs' : w'.client? c ≠ none := fun hn => hs (h'.gone hn).1
    rw [h'.stays hs, h.stays hs', sentFrames_append, List.flatten_append,
      List.append_assoc]
  ends hn := by
    by_cases hn' : w'.client? c = none
    · -- the session had ended before, and nothing has been written since
      obtain ⟨_, hw, hf⟩ := h'.gone hn'
      obtain ⟨q, hq, hc⟩ := h.ends hn'
      exact ⟨q, hw.trans hq, by rwa [sentFrames_append, hf, List.append_nil]⟩
    · obtain ⟨q, hq, hc⟩ := h'.ends hn
      refine ⟨(sentFrames c es).flatten ++ q, ?_, ?_⟩
      · rw [hq, h.stays hn', List.append_assoc]
      · rw [sentFrames_append]
        exact hc.append _
  kept hs reason n hm := by
    have hs' : w'.client? c ≠ none := fun hn => hs (h'.gone hn).1
    rcases List.mem_append.mp hm with hm | hm
    · exact h.kept hs' reason n hm
    · exact h'.kept hs reason n hm

theorem Acts.refl : Acts c w w [] where
  trace := (List.append_nil _).symm
  about _ he := absurd he List.not_mem_nil
  nextConn := rfl
  backlog := rfl
  peers _ _ := rfl
  others _ _ := rfl
  sockets := .inl rfl
  delivers := .refl

theorem Acts.trans (h : Acts c w w' es) (h' : Acts c w' w'' fs) :
    Acts c w w'' (es ++ fs) where
  trace := by rw [h'.trace, h.trace, List.append_assoc]
  about e he := by
    rcases List.mem_append.mp he with he | he
    · exact h.about e he
    · exact h'.about e he
  nextConn := h'.nextConn.trans h.nextConn
  backlog := h'.backlog.trans h.backlog
  peers d hd := (h'.peers d hd).trans (h.peers d hd)
  others d hd := (h'.others d hd).trans (h.others d hd)
  sockets := by
    rcases h.sockets with hs | hs <;> rcases h'.sockets with hs' | hs' <;>
      rw [hs', hs]
    · exact .inl rfl
    · exact .inr rfl
    · exact .inr rfl
    · rw [List.filter_filter]
      exact .inr (by simp only [Bool.and_self])
  delivers := h.delivers.trans h'.delivers

theorem Answers.refl : Answers c w w [] where
  toActs := .refl
  mine s hs := ⟨s, hs, rfl, rfl⟩
  input := ⟨rfl, rfl, rfl⟩
  noFrame _ he := absurd he List.not_mem_nil

theorem Answers.trans (h : Answers c w w' es) (h' : Answers c w' w'' fs) :
    Answers c w w'' (es ++ fs) where
  toActs := h.toActs.trans h'.toActs
  mine s'' hs'' := by
    obtain ⟨s', hs', hr', hu'⟩ := h'.mine s'' hs''
    obtain ⟨s, hs, hr, hu⟩ := h.mine s' hs'
    exact ⟨s, hs, hr'.trans hr, hu'.trans hu⟩
  input := ⟨h'.input.1.trans h.input.1, h'.input.2.1.trans h.input.2.1,
    h'.input.2.2.trans h.input.2.2⟩
  noFrame e he := by
    rcases List.mem_append.mp he with he | he
    · exact h.noFrame e he
    · exact h'.noFrame e he

/-- Answering hands over no frames. -/
theorem Answers.handedFrames (h : Answers c w w' es) (d : ConnId) :
    handedFrames d es = [] :=
  List.filterMap_eq_nil_iff.mpr fun e he => h.noFrame e he d

/-- Nothing is added to the trace about another connection. -/
theorem Acts.not_about (h : Acts c w w' es) {d : ConnId} (hd : d ≠ c) :
    ∀ e ∈ es, e.client? ≠ some d :=
  fun e he hc => hd (h.about e he d hc)

/-- A session another one's treatment has left in place was there, up to its
job. -/
theorem Acts.client?_before (h : Acts c w w' es) {d : ConnId} (hd : d ≠ c)
    {s' : ClientSession} (hs : w'.client? d = some s') :
    ∃ s, w.client? d = some s ∧ s.clearJob = s'.clearJob := by
  have := h.others d hd
  rw [hs, Option.map_some] at this
  exact Option.map_eq_some_iff.mp this.symm

/-- Whether another connection has a session does not change. -/
theorem Acts.client?_eq_none_iff (h : Acts c w w' es) {d : ConnId}
    (hd : d ≠ c) : w'.client? d = none ↔ w.client? d = none := by
  rw [← Option.map_eq_none_iff (f := clearJob), h.others d hd,
    Option.map_eq_none_iff]

end Compose

/-! ## Changes of the server -/

namespace StratumServer

/-- **A server whose sessions are as they were**, up to their jobs. -/
def SameSessions (s s' : StratumServer τ) : Prop :=
  s'.clients.map clearJob = s.clients.map clearJob

theorem SameSessions.refl (s : StratumServer τ) : SameSessions s s := rfl

theorem SameSessions.trans {s s' s'' : StratumServer τ}
    (h : SameSessions s s') (h' : SameSessions s' s'') :
    SameSessions s s'' := Eq.trans h' h

theorem clearWork_same (s : StratumServer τ) :
    SameSessions s s.clearWork := by
  show (s.clients.map clearJob).map clearJob = _
  rw [List.map_map]
  rfl

theorem chainTransportSelect_same (T : ChainTransport τ)
    (s : StratumServer τ) (index : ℕ) :
    SameSessions s (s.chainTransportSelect T index) := by
  unfold chainTransportSelect
  split
  · exact .refl s
  · exact clearWork_same s

theorem chainTransportNext_same (T : ChainTransport τ)
    (s : StratumServer τ) : SameSessions s (s.chainTransportNext T) := by
  unfold chainTransportNext
  split
  · exact .refl s
  · exact chainTransportSelect_same T s _

theorem afterWork_same (P : Platform) (T : ChainTransport τ) (code : RpcCode)
    (s : StratumServer τ) : SameSessions s (World.afterWork P T code s) := by
  have h : SameSessions s (World.settleWork P code s) := by
    unfold World.settleWork
    cases P <;> dsimp only <;> split
    · exact clearWork_same s
    · exact .refl s
    · exact .refl s
    · exact .refl s
  unfold World.afterWork
  dsimp only
  split
  · exact h.trans (chainTransportNext_same T _)
  · exact h

end StratumServer

/-- **A change of the server that keeps the sessions answers anybody.** -/
theorem answers_of_sameSessions {c : ConnId} {w w' : World τ}
    {es : List Event}
    (h : StratumServer.SameSessions w.server w'.server)
    (hp : w'.peers = w.peers) (hn : w'.nextConn = w.nextConn)
    (hb : w'.backlog = w.backlog)
    (ht : w'.trace = w.trace ++ es) (he : ∀ e ∈ es, e.client? = none) :
    Answers c w w' es := by
  have hcl : ∀ d, (w'.client? d).map clearJob
      = (w.client? d).map clearJob := by
    intro d
    unfold World.client?
    rw [← World.find?_map_socket _ (f := clearJob) (fun _ => rfl),
      ← World.find?_map_socket _ (f := clearJob) (fun _ => rfl), h]
  have hnone : ∀ d, w'.client? d = none ↔ w.client? d = none := by
    intro d
    rw [← Option.map_eq_none_iff (f := clearJob), hcl, Option.map_eq_none_iff]
  have hso : w'.sockets = w.sockets := by
    have := congrArg (List.map ClientSession.socket) h
    rw [List.map_map, List.map_map] at this
    exact this
  have hsent : ∀ e ∈ es, ∀ d, e.sent? d = none ∧ e.frame? d = none := by
    intro e hm d
    have := he e hm
    cases e <;> first | exact ⟨rfl, rfl⟩ | cases this
  have hframes : sentFrames c es = [] :=
    List.filterMap_eq_nil_iff.mpr fun e hm => (hsent e hm c).1
  refine ⟨⟨ht, ?_, hn, hb, fun d _ => by rw [hp], fun d _ => hcl d, .inl hso,
    .of_silent (hnone c) (by rw [hp]) hframes fun _ _ hm => nomatch he _ hm⟩,
    ?_, by rw [hp]; exact ⟨rfl, rfl, rfl⟩, fun e hm d => (hsent e hm d).2⟩
  · intro e hm d hd
    rw [he e hm] at hd
    cases hd
  · intro s' hs'
    have := hcl c
    rw [hs', Option.map_some] at this
    obtain ⟨s, hs, hss⟩ := Option.map_eq_some_iff.mp this.symm
    refine ⟨s, hs, ?_, ?_⟩
    · exact (congrArg ClientSession.rx hss).symm
    · exact (congrArg ClientSession.rxUsed hss).symm

theorem answers_setServer {c : ConnId} {w : World τ}
    {f : StratumServer τ → StratumServer τ}
    (h : StratumServer.SameSessions w.server (f w.server)) :
    Answers c w (w.setServer f) [] :=
  answers_of_sameSessions h rfl rfl rfl (List.append_nil _).symm
    fun _ he => absurd he List.not_mem_nil

/-- The event of a call, if it made an exchange. -/
def exchangeEvents {capacity : ℕ} (r : Rpc.Call τ capacity) : List Event :=
  (r.exchanged.map fun e => Event.exchange e.1 e.2).toList

/-- **A call answers anybody.** -/
theorem answers_called {c : ConnId} {w : World τ} {capacity : ℕ}
    (r : Rpc.Call τ capacity) :
    Answers c w (w.called r) (exchangeEvents r) := by
  refine answers_of_sameSessions (StratumServer.SameSessions.refl _) rfl rfl
    rfl rfl fun e he => ?_
  unfold exchangeEvents at he
  rw [Option.mem_toList, Option.map_eq_some_iff] at he
  obtain ⟨x, _, rfl⟩ := he
  rfl

/-! ## Stores, writes and removals -/

/-- A session that is removed is gone. -/
theorem client?_clientRemove_self {w : World τ} {c : ConnId}
    (reason : Removal) : (w.clientRemove c reason).client? c = none := by
  rw [World.client?_clientRemove, if_pos rfl]

section Primitive

variable {c : ConnId} {w : World τ}

/-- A store into the session that leaves the frame alone. -/
theorem answers_setClient {f : ClientSession → ClientSession}
    (hs : ∀ s, (f s).socket = s.socket)
    (hf : ∀ s, (f s).rx = s.rx ∧ (f s).rxUsed = s.rxUsed) :
    Answers c w (w.setClient c f) [] := by
  have hcl : (w.setClient c f).client? c = (w.client? c).map f := by
    rw [World.client?_setClient hs, if_pos rfl]
  refine ⟨⟨(List.append_nil _).symm, fun _ he => absurd he List.not_mem_nil,
    rfl, rfl, fun _ _ => rfl, ?_, .inl (World.sockets_setClient hs), ?_⟩,
    ?_, ⟨rfl, rfl, rfl⟩, fun _ he => absurd he List.not_mem_nil⟩
  · intro d hd
    rw [World.client?_setClient hs, if_neg hd]
  · exact .of_silent (by rw [hcl, Option.map_eq_none_iff]) rfl rfl
      fun _ _ => List.not_mem_nil
  · intro s' hs'
    rw [hcl] at hs'
    obtain ⟨s, hss, rfl⟩ := Option.map_eq_some_iff.mp hs'
    exact ⟨s, hss, (hf s).1, (hf s).2⟩

/-- **Bytes written to a session** under an event that sends them, all of them
or a part with which the session ends. -/
theorem answers_write {s : ClientSession} (w' : World τ) {e : Event}
    {es : List Event} {f : Bytes} (q : Bytes) (r : Removal)
    (hs : w.client? c = some s)
    (hc : e.client? = some c) (hf : e.sent? c = some f)
    (hn : ∀ d, e.frame? d = none)
    (hw : w' = { w with
      trace := w.trace ++ [e]
      peers := w'.peers })
    (hne : ∀ d, d ≠ c → w'.peers d = w.peers d)
    (hin : (w'.peers c).inbox = (w.peers c).inbox
      ∧ (w'.peers c).received = (w.peers c).received
      ∧ (w'.peers c).asks = (w.peers c).asks)
    (hq : (w'.peers c).written = (w.peers c).written ++ q)
    {w'' : World τ}
    (h : q = f ∧ w'' = w' ∧ es = []
      ∨ q <+: f ∧ w'' = w'.clientRemove c r
        ∧ es = [.removed c r (w.peers c).received.length]) :
    Answers c w w'' (e :: es) := by
  have hcl : ∀ d, w'.client? d = w.client? d := by
    intro d
    rw [hw]
    rfl
  have hso : w'.sockets = w.sockets := by
    rw [hw]
    rfl
  have htr : w'.trace = w.trace ++ [e] := by rw [hw]
  have hnc : w'.nextConn = w.nextConn := by rw [hw]
  have hbl : w'.backlog = w.backlog := by rw [hw]
  rcases h with ⟨rfl, rfl, rfl⟩ | ⟨hp, rfl, rfl⟩
  · have hsf : sentFrames c [e] = [q] := by
      rw [sentFrames, List.filterMap_cons, hf]
      rfl
    refine ⟨⟨htr, ?_, hnc, hbl, hne, fun d _ => by rw [hcl], .inl hso,
      ⟨?_, ?_, ?_, ?_⟩⟩, ?_, hin, ?_⟩
    · intro e' he d hd
      rw [List.mem_singleton.mp he, hc] at hd
      exact (Option.some.inj hd).symm
    · intro h
      rw [h] at hs
      cases hs
    · intro _
      rw [hq, hsf, List.flatten_singleton]
    · intro h
      rw [hcl, hs] at h
      cases h
    · intro _ reason n hm
      rw [← List.mem_singleton.mp hm] at hf
      cases hf
    · intro s' hs'
      exact ⟨s', by rw [← hcl]; exact hs', rfl, rfl⟩
    · intro e' he
      rw [List.mem_singleton.mp he]
      exact hn
  · have hs' : w'.client? c = some s := by rw [hcl, hs]
    have hsf : sentFrames c
        [e, .removed c r (w.peers c).received.length] = [f] := by
      rw [sentFrames, List.filterMap_cons, hf]
      rfl
    have hended := client?_clientRemove_self (w := w') (c := c) r
    refine ⟨⟨?_, ?_, ?_, ?_, ?_, ?_, ?_, .of_ended q ?_ hended ?_ ?_⟩, ?_, ?_,
      ?_⟩
    · rw [World.clientRemove_of_some _ _ _ hs']
      dsimp only
      rw [htr, hin.2.1, List.append_assoc]
      rfl
    · intro e' he d hd
      rcases List.mem_cons.mp he with rfl | he
      · rw [hc] at hd
        exact (Option.some.inj hd).symm
      · rw [List.mem_singleton.mp he] at hd
        exact (Option.some.inj hd).symm
    · rw [World.clientRemove_of_some _ _ _ hs']
      exact hnc
    · rw [World.clientRemove_of_some _ _ _ hs']
      exact hbl
    · intro d hd
      rw [World.peers_clientRemove]
      exact hne d hd
    · intro d hd
      rw [World.client?_clientRemove, if_neg hd, hcl]
    · rw [World.sockets_clientRemove, hso]
      exact .inr rfl
    · rw [hs]
      exact Option.some_ne_none s
    · rw [World.peers_clientRemove, hq]
    · rw [hsf]
      exact cut_singleton hp
    · exact fun _ hs'' => absurd (hended.symm.trans hs'') nofun
    · rw [World.peers_clientRemove]
      exact hin
    · intro e' he d
      rcases List.mem_cons.mp he with rfl | he
      · exact hn d
      · rw [List.mem_singleton.mp he]
        rfl

/-- **Ending a session** answers it. -/
theorem answers_clientRemove {s : ClientSession} (hs : w.client? c = some s)
    (reason : Removal) :
    Answers c w (w.clientRemove c reason)
      [.removed c reason (w.peers c).received.length] := by
  have he : w.clientRemove c reason = _ :=
    World.clientRemove_of_some w c reason hs
  have hended := client?_clientRemove_self (w := w) (c := c) reason
  refine ⟨⟨by rw [he], ?_, by rw [he], by rw [he], ?_, ?_, ?_,
    .of_ended [] ?_ hended ?_ (cut_flatten [])⟩, ?_, ?_, ?_⟩
  · intro e he d hd
    rw [List.mem_singleton.mp he] at hd
    exact (Option.some.inj hd).symm
  · intro d _
    rw [World.peers_clientRemove]
  · intro d hd
    rw [World.client?_clientRemove, if_neg hd]
  · rw [World.sockets_clientRemove]
    exact .inr rfl
  · rw [hs]
    exact Option.some_ne_none s
  · rw [World.peers_clientRemove]
    exact (List.append_nil _).symm
  · exact fun _ hs'' => absurd (hended.symm.trans hs'') nofun
  · rw [World.peers_clientRemove]
    exact ⟨rfl, rfl, rfl⟩
  · intro e he d
    rw [List.mem_singleton.mp he]
    rfl

end Primitive

/-! ## What answers a miner -/

section Answering

variable (P : Platform) {c : ConnId} {w : World τ} {s : ClientSession}

/-- The end of a session, if it comes: nothing, or one removal. -/
def Ending (c : ConnId) (es : List Event) : Prop :=
  es = [] ∨ ∃ reason n, es = [.removed c reason n]

@[simp] theorem peers_send (P : Platform) (w : World τ) (c : ConnId)
    (p : Bytes) : ((w.send P c p).peers c) = { w.peers c with
      outcomes := (w.sending P c p).rest
      written := (w.peers c).written ++ (w.sending P c p).sent } :=
  Function.update_self ..

theorem peers_send_ne (P : Platform) (w : World τ) {c d : ConnId}
    (h : d ≠ c) (p : Bytes) : (w.send P c p).peers d = w.peers d :=
  Function.update_of_ne h ..

/-- **A RESULT answers the miner**: one frame with the code, and the end of
the session if it cannot be sent. -/
theorem answers_clientSendResult (hs : w.client? c = some s) (code : RpcCode) :
    ∃ es, Ending c es ∧ Answers c w (w.clientSendResult P c code)
      (.result c (submitResultCode code) :: es) := by
  unfold World.clientSendResult
  dsimp only
  have hf : (Event.result c (submitResultCode code)).sent? c
      = some (resultFrame (submitResultCode code)).bytes := if_pos rfl
  generalize (resultFrame (submitResultCode code)).bytes = p at hf ⊢
  generalize hw₁ : w.emit (.result c (submitResultCode code)) = w₁
  have hin : ((w₁.send P c p).peers c).inbox = (w.peers c).inbox
      ∧ ((w₁.send P c p).peers c).received = (w.peers c).received
      ∧ ((w₁.send P c p).peers c).asks = (w.peers c).asks := by
    rw [peers_send, ← hw₁]
    exact ⟨rfl, rfl, rfl⟩
  have hwr : ((w₁.send P c p).peers c).written
      = (w.peers c).written ++ (w₁.sending P c p).sent := by
    rw [peers_send, ← hw₁]
    rfl
  have hne : ∀ d, d ≠ c → (w₁.send P c p).peers d = w.peers d := by
    intro d hd
    rw [peers_send_ne P w₁ hd, ← hw₁]
    rfl
  have hw : w₁.send P c p = { w with
      trace := w.trace ++ [.result c (submitResultCode code)]
      peers := (w₁.send P c p).peers } := by
    rw [← hw₁]
    rfl
  split
  next h =>
    exact ⟨_, .inr ⟨_, _, rfl⟩, answers_write _ _ _ hs rfl hf (fun _ => rfl)
      hw hne hin hwr (.inr ⟨sendAll_sent_begins _ _ _, rfl, rfl⟩)⟩
  next h =>
    exact ⟨_, .inl rfl, answers_write _ _ .resultSendFailed hs rfl hf
      (fun _ => rfl) hw hne hin hwr
      (.inl ⟨sendAll_sent_of_ok (Bool.eq_true_of_not_eq_false h), rfl, rfl⟩)⟩

/-- **A JOB answers the miner**: nothing, if there is nothing to send, and
otherwise one frame, and the end of the session if it cannot be sent. -/
theorem answers_clientSendJob (hs : w.client? c = some s) :
    ∃ es, (es = [] ∨ ∃ header block es', IsJob header block ∧ Ending c es'
        ∧ es = .job c header block :: es')
      ∧ Answers c w (w.clientSendJob P c) es := by
  unfold World.clientSendJob
  split
  · exact ⟨[], .inl rfl, .refl⟩
  cases hb : minerJobBuild w.server.work.template.bytes
      w.server.work.templateLength with
  | none => exact ⟨[], .inl rfl, .refl⟩
  | some b =>
    obtain ⟨header, blockLength⟩ := b
    dsimp only
    have hj := isJob_of_minerJobBuild (by
      rw [w.server.work.template.size]
      exact w.server.work.fits) hb
    revert hj
    generalize slice w.server.work.template.bytes 68 blockLength = block
    generalize header.bytes = h
    intro hj
    have hf : (Event.job c h block).sent? c = some (h ++ block) := if_pos rfl
    generalize hw₁ : w.emit (.job c h block) = w₁
    have hne₁ : ∀ d, d ≠ c → (w₁.send P c h).peers d = w.peers d := by
      intro d hd
      rw [peers_send_ne P w₁ hd, ← hw₁]
      rfl
    have hin₁ : ((w₁.send P c h).peers c).inbox = (w.peers c).inbox
        ∧ ((w₁.send P c h).peers c).received = (w.peers c).received
        ∧ ((w₁.send P c h).peers c).asks = (w.peers c).asks := by
      rw [peers_send, ← hw₁]
      exact ⟨rfl, rfl, rfl⟩
    have hwr₁ : ((w₁.send P c h).peers c).written
        = (w.peers c).written ++ (w₁.sending P c h).sent := by
      rw [peers_send, ← hw₁]
      rfl
    have hw₂ : w₁.send P c h = { w with
        trace := w.trace ++ [.job c h block]
        peers := (w₁.send P c h).peers } := by
      rw [← hw₁]
      rfl
    split
    next hok =>
      -- the header is cut, and the block is not sent at all
      exact ⟨_, .inr ⟨_, _, _, hj, .inr ⟨_, _, rfl⟩, rfl⟩,
        answers_write _ _ _ hs
        rfl hf (fun _ => rfl) hw₂ hne₁ hin₁ hwr₁
        (.inr ⟨(sendAll_sent_begins _ _ _).trans (List.prefix_append _ _), rfl,
          rfl⟩)⟩
    next hok =>
    have hhead : (w₁.sending P c h).sent = h :=
      sendAll_sent_of_ok (Bool.eq_true_of_not_eq_false hok)
    have hne₂ : ∀ d, d ≠ c →
        ((w₁.send P c h).send P c block).peers d = w.peers d := by
      intro d hd
      rw [peers_send_ne P _ hd, hne₁ d hd]
    have hin₂ : (((w₁.send P c h).send P c block).peers c).inbox
          = (w.peers c).inbox
        ∧ (((w₁.send P c h).send P c block).peers c).received
          = (w.peers c).received
        ∧ (((w₁.send P c h).send P c block).peers c).asks
          = (w.peers c).asks := by
      rw [peers_send]
      exact hin₁
    have hwr₂ : (((w₁.send P c h).send P c block).peers c).written
        = (w.peers c).written
          ++ (h ++ ((w₁.send P c h).sending P c block).sent) := by
      rw [peers_send, hwr₁, hhead, List.append_assoc]
    have hw₃ : (w₁.send P c h).send P c block = { w with
        trace := w.trace ++ [.job c h block]
        peers := ((w₁.send P c h).send P c block).peers } := by
      rw [← hw₁]
      rfl
    split
    next hok₂ =>
      exact ⟨_, .inr ⟨_, _, _, hj, .inr ⟨_, _, rfl⟩, rfl⟩,
        answers_write _ _ _ hs
        rfl hf (fun _ => rfl) hw₃ hne₂ hin₂ hwr₂
        (.inr ⟨(List.prefix_append_right_inj _).mpr (sendAll_sent_begins _ _ _),
          rfl, rfl⟩)⟩
    next hok₂ =>
      have hblock : ((w₁.send P c h).sending P c block).sent = block :=
        sendAll_sent_of_ok (Bool.eq_true_of_not_eq_false hok₂)
      have ha : Answers c w ((w₁.send P c h).send P c block)
          [.job c h block] :=
        answers_write _ _ .jobSendFailed hs rfl hf (fun _ => rfl) hw₃ hne₂ hin₂
          hwr₂ (.inl ⟨by rw [hblock], rfl, rfl⟩)
      exact ⟨_, .inr ⟨_, _, _, hj, .inl rfl, rfl⟩,
        ha.trans (answers_setClient (fun _ => rfl) fun _ => ⟨rfl, rfl⟩)⟩

/-! ## How a frame is answered -/

/-- **A request that changes Chain, and what backs the code that answers
it**: it is a submission with an ID, and the code says accepted only if an
answer to this very request came back. -/
def Backed (request : Bytes) (reply : Option Bytes) (code : RpcCode) :
    Prop :=
  ∃ (method : ℕ) (client : RpcClient) (payload : Bytes),
    (method = Rpc.submitWork ∨ method = Rpc.submitShare)
      ∧ request = Rpc.requestFrame method client.requestId.toNat payload
      ∧ (code = .ok →
        ∃ frame, reply = some frame
          ∧ Rpc.IsAnswer method client.requestId.toNat frame)

/-- **What may follow a frame of `c`.** A SUBMIT is answered with one RESULT,
by the server alone and then never with acceptance, or by what Chain said to
one request, or it ends the session. The other types are never answered with
a RESULT. -/
inductive Reaction (c : ConnId) (frame : Bytes) : List Event → Prop where
  /-- The session ends. -/
  | ended (reason : Removal) (n : ℕ) : Reaction c frame [.removed c reason n]
  /-- Nothing more. -/
  | silent (h : frame.getD 5 0 ≠ Miner.submit) : Reaction c frame []
  /-- A JOB. -/
  | job (h : frame.getD 5 0 ≠ Miner.submit) {header block : Bytes}
    (hj : IsJob header block) {es : List Event} (he : Ending c es) :
    Reaction c frame (.job c header block :: es)
  /-- A RESULT without Chain. -/
  | refused (h : frame.getD 5 0 = Miner.submit) {code : RpcCode}
    (hc : code ≠ .ok) {es : List Event} (he : Ending c es) :
    Reaction c frame (.result c (submitResultCode code) :: es)
  /-- A RESULT by what Chain said. -/
  | asked (h : frame.getD 5 0 = Miner.submit) {request : Bytes}
    {reply : Option Bytes} {code : RpcCode} (hb : Backed request reply code)
    {es : List Event} (he : Ending c es) :
    Reaction c frame
      (.exchange request reply :: .result c (submitResultCode code) :: es)

/-- What a call that ends in one code leaves on the trace: nothing, and then
the code is not success, or a backed exchange. -/
theorem exchangeEvents_call {T : ChainTransport τ} {transport : τ}
    {client : RpcClient} {heap : Heap} {method : ℕ}
    (hm : method = Rpc.submitWork ∨ method = Rpc.submitShare)
    {payload : Bytes} {capacity : ℕ} {buffer : Option (Buf capacity)}
    {code : RpcCode}
    (hc : code = .ok →
      (Rpc.call T transport client heap method payload buffer).code = .ok) :
    (exchangeEvents (Rpc.call T transport client heap method payload buffer)
        = [] ∧ code ≠ .ok)
      ∨ ∃ request reply, exchangeEvents
            (Rpc.call T transport client heap method payload buffer)
          = [.exchange request reply] ∧ Backed request reply code := by
  by_cases hok : code = .ok
  · obtain ⟨frame, ha, he, _⟩ := Rpc.call_ok (hc hok)
    refine .inr ⟨_, _, by rw [exchangeEvents, he]; rfl, _, _, _, hm, rfl, ?_⟩
    exact fun _ => ⟨frame, rfl, ha⟩
  · rcases Rpc.call_exchanged T transport client heap method payload buffer
      with he | ⟨reply, he, _⟩
    · exact .inl ⟨by rw [exchangeEvents, he]; rfl, hok⟩
    · refine .inr ⟨_, _, by rw [exchangeEvents, he]; rfl, _, _, _, hm, rfl, ?_⟩
      exact fun h => absurd h hok

/-- The same for `stn_rpc_client_submit_share`. -/
theorem exchangeEvents_callSubmitShare (T : ChainTransport τ) (transport : τ)
    (client : RpcClient) (heap : Heap) (payload : Bytes) (shareId : Buf 32) :
    (exchangeEvents
          (Rpc.callSubmitShare T transport client heap payload shareId) = []
        ∧ (Rpc.callSubmitShare T transport client heap payload shareId).code
          ≠ .ok)
      ∨ ∃ request reply, exchangeEvents
            (Rpc.callSubmitShare T transport client heap payload shareId)
          = [.exchange request reply]
        ∧ Backed request reply
            (Rpc.callSubmitShare T transport client heap payload
              shareId).code := by
  unfold Rpc.callSubmitShare
  split
  · exact .inl ⟨rfl, by rintro ⟨⟩⟩
  · dsimp only
    split
    next h =>
      have hi : RpcCode.invalid = .ok → (Rpc.call T transport client heap
          Rpc.submitShare payload (some shareId)).code = .ok := by
        rintro ⟨⟩
      exact exchangeEvents_call (.inr rfl) hi
    next h => exact exchangeEvents_call (.inr rfl) (fun h => h)

/-- The same for `stn_rpc_client_submit_work`. -/
theorem exchangeEvents_callSubmitWork (T : ChainTransport τ) (transport : τ)
    (client : RpcClient) (heap : Heap) (payload : Bytes) {capacity : ℕ}
    (buffer : Buf capacity) :
    (exchangeEvents
          (Rpc.callSubmitWork T transport client heap payload buffer) = []
        ∧ (Rpc.callSubmitWork T transport client heap payload buffer).code
          ≠ .ok)
      ∨ ∃ request reply, exchangeEvents
            (Rpc.callSubmitWork T transport client heap payload buffer)
          = [.exchange request reply]
        ∧ Backed request reply
            (Rpc.callSubmitWork T transport client heap payload
              buffer).code := by
  unfold Rpc.callSubmitWork
  split
  · exact .inl ⟨rfl, nofun⟩
  · exact exchangeEvents_call (.inl rfl) (fun h => h)

/-- An exchange of a call is made with its request, and its payload is within
the bound. -/
theorem request_of_exchangeEvents {T : ChainTransport τ} {transport : τ}
    {client : RpcClient} {heap : Heap} {method : ℕ} {payload : Bytes}
    {capacity : ℕ} {buffer : Option (Buf capacity)} {request : Bytes}
    {reply : Option Bytes}
    (h : .exchange request reply ∈ exchangeEvents
      (Rpc.call T transport client heap method payload buffer)) :
    request = Rpc.requestFrame method client.requestId.toNat payload
      ∧ payload.length ≤ Rpc.maxPayload := by
  unfold exchangeEvents at h
  rcases Rpc.call_exchanged T transport client heap method payload buffer
    with he | ⟨r, he, hle⟩
  · rw [he] at h
    exact absurd h List.not_mem_nil
  · rw [he] at h
    exact ⟨(Event.exchange.inj (List.mem_singleton.mp h)).1, hle⟩

/-- The same for `stn_rpc_client_submit_share`. -/
theorem request_of_callSubmitShare {T : ChainTransport τ} {transport : τ}
    {client : RpcClient} {heap : Heap} {payload : Bytes} {shareId : Buf 32}
    {request : Bytes} {reply : Option Bytes}
    (h : .exchange request reply ∈ exchangeEvents
      (Rpc.callSubmitShare T transport client heap payload shareId)) :
    request = Rpc.requestFrame Rpc.submitShare client.requestId.toNat payload
      ∧ payload.length ≤ Rpc.maxPayload := by
  unfold Rpc.callSubmitShare at h
  split at h
  · exact absurd h List.not_mem_nil
  · dsimp only at h
    split at h
    · exact request_of_exchangeEvents (T := T) h
    · exact request_of_exchangeEvents h

/-- The same for `stn_rpc_client_submit_work`. -/
theorem request_of_callSubmitWork {T : ChainTransport τ} {transport : τ}
    {client : RpcClient} {heap : Heap} {payload : Bytes} {capacity : ℕ}
    {buffer : Buf capacity} {request : Bytes} {reply : Option Bytes}
    (h : .exchange request reply ∈ exchangeEvents
      (Rpc.callSubmitWork T transport client heap payload buffer)) :
    request = Rpc.requestFrame Rpc.submitWork client.requestId.toNat payload
      ∧ payload.length ≤ Rpc.maxPayload := by
  unfold Rpc.callSubmitWork at h
  split at h
  · exact absurd h List.not_mem_nil
  · exact request_of_exchangeEvents h

/-- **The requests a submission leads to**: a share or a block, by the verdict
on it. What the memory of the payload held before does not matter yet. -/
inductive Requests (w : World τ) (client : ClientSession) : Bytes → Prop where
  /-- A share. -/
  | share {nonce : ℕ} (hv : submissionVerdict w.server.work client
      = .share nonce) (memory : Buf Rpc.shareSize) :
    Requests w client (Rpc.requestFrame Rpc.submitShare
      w.server.chainRpc.requestId.toNat
      (sharePayload memory w.server.work client nonce).bytes)
  /-- A block. -/
  | work {nonce : ℕ} (hv : submissionVerdict w.server.work client
      = .work nonce)
    (hle : w.server.work.templateLength + Miner.addressLength
      ≤ Rpc.maxPayload)
    (memory : Buf (w.server.work.templateLength + Miner.addressLength)) :
    Requests w client (Rpc.requestFrame Rpc.submitWork
      w.server.chainRpc.requestId.toNat
      (workPayload memory w.server.work client nonce).bytes)

/-- The end of a session makes no exchange. -/
theorem Ending.no_exchange {es : List Event} (h : Ending c es) :
    exchangesOf es = [] := by
  rcases h with rfl | ⟨reason, n, rfl⟩ <;> rfl

/-- Nor does a RESULT. -/
theorem Ending.no_exchange_result {es : List Event} (h : Ending c es)
    (code : ℕ) : exchangesOf (.result c code :: es) = [] := h.no_exchange

/-- What follows a frame makes one exchange at most. -/
theorem Reaction.length_exchangesOf {frame : Bytes} {es : List Event}
    (h : Reaction c frame es) : (exchangesOf es).length ≤ 1 := by
  cases h with
  | ended => exact Nat.zero_le _
  | silent => exact Nat.zero_le _
  | job _ _ he => exact le_of_eq_of_le (congrArg _ he.no_exchange) (by decide)
  | refused _ _ he =>
    exact le_of_eq_of_le (congrArg _ he.no_exchange) (by decide)
  | @asked _ request reply code _ es he =>
    show (_ :: exchangesOf es).length ≤ 1
    rw [he.no_exchange]
    exact le_rfl

/-- A call, the RESULT for its code, and a change of the server. -/
theorem answers_asked (hs : w.client? c = some s) {frame : Bytes}
    (hf : frame.getD 5 0 = Miner.submit) {capacity : ℕ}
    (r : Rpc.Call τ capacity)
    (hr : (exchangeEvents r = [] ∧ r.code ≠ .ok)
      ∨ ∃ request reply, exchangeEvents r = [.exchange request reply]
        ∧ Backed request reply r.code)
    {f : StratumServer τ → StratumServer τ}
    (hsame : ∀ s, StratumServer.SameSessions s (f s)) :
    ∃ es, Reaction c frame es
      ∧ Answers c w (((w.called r).clientSendResult P c r.code).setServer f) es
      ∧ ∀ p ∈ exchangesOf es, p ∈ exchangesOf (exchangeEvents r) := by
  have h₁ : Answers c w (w.called r) (exchangeEvents r) := answers_called r
  obtain ⟨es, he, h₂⟩ := answers_clientSendResult P (w := w.called r)
    (s := s) hs r.code
  have h₃ := (h₁.trans h₂).trans (answers_setServer (hsame _))
  rw [List.append_nil] at h₃
  have hmem : exchangesOf (exchangeEvents r
      ++ .result c (submitResultCode r.code) :: es)
      = exchangesOf (exchangeEvents r) := by
    rw [exchangesOf, List.filterMap_append]
    exact (congrArg _ (he.no_exchange_result _)).trans (List.append_nil _)
  refine ⟨_, ?_, h₃, fun p hp => hmem ▸ hp⟩
  rcases hr with ⟨hr, hc⟩ | ⟨request, reply, hr, hb⟩ <;> rw [hr]
  · exact .refused hf hc he
  · exact .asked hf hb he

/-- **`process_submission` answers the miner**, and what it asks of Chain is
what the verdict says. -/
theorem answers_processSubmission (T : ChainTransport τ)
    (hs : w.client? c = some s) {frame : Bytes}
    (hf : frame.getD 5 0 = Miner.submit) :
    ∃ es, Reaction c frame es
      ∧ Answers c w (w.processSubmission P T c) es
      ∧ ∀ p ∈ exchangesOf es, Requests w s p.1 := by
  unfold World.processSubmission
  rw [hs]
  dsimp only
  have hrefused : ∀ (w' : World τ) (code : RpcCode), w'.client? c = some s →
      Answers c w w' [] → code ≠ .ok → ∃ es, Reaction c frame es
        ∧ Answers c w (w'.clientSendResult P c code) es
        ∧ ∀ p ∈ exchangesOf es, Requests w s p.1 := by
    intro w' code hs' ha hne
    obtain ⟨es, he, h⟩ := answers_clientSendResult P hs' code
    exact ⟨_, .refused hf hne he, ha.trans h,
      fun p hp => absurd (he.no_exchange_result _ ▸ hp) List.not_mem_nil⟩
  cases hv : submissionVerdict w.server.work s with
  | unregistered =>
    exact ⟨_, .ended _ _, answers_clientRemove hs _,
      fun p hp => absurd hp List.not_mem_nil⟩
  | refused code =>
    refine hrefused w code hs .refl ?_
    rintro rfl
    exact submissionVerdict_ne_refused_ok hv
  | share nonce =>
    unfold World.submitShare
    dsimp only
    have hr := exchangeEvents_callSubmitShare T w.server.chainTransport
      w.server.chainRpc w.heap
      (sharePayload (w.heap.uninit _) w.server.work s nonce).bytes
      (w.heap.uninit 32)
    have hq := fun request reply => @request_of_callSubmitShare _ T
      w.server.chainTransport w.server.chainRpc w.heap
      (sharePayload (w.heap.uninit _) w.server.work s nonce).bytes
      (w.heap.uninit 32) request reply
    generalize Rpc.callSubmitShare T w.server.chainTransport w.server.chainRpc
      w.heap (sharePayload (w.heap.uninit _) w.server.work s nonce).bytes
      (w.heap.uninit 32) = r at hr hq ⊢
    have key : ∀ f : StratumServer τ → StratumServer τ,
        (∀ s, StratumServer.SameSessions s (f s)) →
        ∃ es, Reaction c frame es
          ∧ Answers c w
            (((w.called r).clientSendResult P c r.code).setServer f) es
          ∧ ∀ p ∈ exchangesOf es, Requests w s p.1 := by
      intro f hf'
      obtain ⟨es, hre, ha, hm⟩ := answers_asked P hs hf r hr hf'
      refine ⟨es, hre, ha, fun p hp => ?_⟩
      rw [(hq p.1 p.2 (mem_exchangesOf.mp (hm p hp))).1]
      exact .share hv _
    split
    · exact key _ StratumServer.clearWork_same
    · exact key id StratumServer.SameSessions.refl
  | work nonce =>
    unfold World.submitWork
    dsimp only
    split
    · refine hrefused _ .provider hs ?_ (fun h => nomatch h)
      exact answers_of_sameSessions (.refl _) rfl rfl rfl
        (List.append_nil _).symm fun _ he => absurd he List.not_mem_nil
    next payload _ =>
      obtain ⟨es, hre, ha, hm⟩ := answers_asked P hs hf _
        (exchangeEvents_callSubmitWork ..)
        (StratumServer.afterWork_same P T _)
      refine ⟨es, hre, ha, fun p hp => ?_⟩
      obtain ⟨he, hle⟩ := request_of_callSubmitWork
        (mem_exchangesOf.mp (hm p hp))
      rw [(workPayload payload w.server.work s nonce).size] at hle
      rw [he]
      exact .work hv hle _

/-- **`process_address` answers the miner.** -/
theorem answers_processAddress (hs : w.client? c = some s) {frame : Bytes}
    (hf : frame.getD 5 0 ≠ Miner.submit) :
    ∃ es, Reaction c frame es ∧ Answers c w (w.processAddress P c) es := by
  unfold World.processAddress
  rw [hs]
  dsimp only
  split
  · exact ⟨_, .ended _ _, answers_clientRemove hs _⟩
  split
  · exact ⟨_, .ended _ _, answers_clientRemove hs _⟩
  have h₁ : Answers c w (w.setClient c World.registered) [] :=
    answers_setClient (fun _ => rfl) fun _ => ⟨rfl, rfl⟩
  split
  · have hs₁ : (w.setClient c World.registered).client? c
        = some (World.registered s) := by
      rw [World.client?_setClient (f := World.registered) (fun _ => rfl),
        if_pos rfl, hs]
      rfl
    obtain ⟨es, he, h₂⟩ := answers_clientSendJob P hs₁
    refine ⟨es, ?_, h₁.trans h₂⟩
    rcases he with rfl | ⟨header, block, es', hj, he, rfl⟩
    · exact .silent hf
    · exact .job hf hj he
  · exact ⟨[], .silent hf, h₁⟩

/-- **`process_hash_progress` answers the miner.** -/
theorem answers_processHashProgress (hs : w.client? c = some s)
    {frame : Bytes} (hf : frame.getD 5 0 ≠ Miner.submit) :
    ∃ es, Reaction c frame es ∧ Answers c w (w.processHashProgress c) es := by
  unfold World.processHashProgress
  rw [hs]
  dsimp only
  split
  · exact ⟨_, .ended _ _, answers_clientRemove hs _⟩
  have hset : ∀ rate : UInt64, Answers c w
      (w.setClient c fun s => { s with hashrate := rate }) [] :=
    fun rate => answers_setClient (fun _ => rfl) fun _ => ⟨rfl, rfl⟩
  split
  · exact ⟨[], .silent hf, .refl⟩
  split
  · exact ⟨[], .silent hf, hset 0⟩
  split
  · exact ⟨[], .silent hf, hset 0⟩
  · exact ⟨[], .silent hf, hset _⟩

/-- **A frame that is handed over is answered** by what may follow it. -/
theorem answers_dispatch (T : ChainTransport τ) (hs : w.client? c = some s)
    (hu : 8 ≤ s.rxUsed) :
    ∃ es, Reaction c s.pending es
      ∧ Answers c (w.emit (.frame c s.pending)) (w.dispatch P T c s) es := by
  have htype : s.pending.getD 5 0 = s.rx.bytes.getD 5 0 :=
    Miner.getD_take (by omega)
  have hs' : (w.emit (.frame c s.pending)).client? c = some s := hs
  unfold World.dispatch
  dsimp only
  split
  next h =>
    refine answers_processAddress P hs' ?_
    rw [htype, h]
    decide
  split
  next h =>
    obtain ⟨es, hr, ha, _⟩ :=
      answers_processSubmission P T hs' (htype.trans h)
    exact ⟨es, hr, ha⟩
  next h => exact answers_processHashProgress hs' (fun h' => h (htype ▸ h'))

/-- **`send_pending_jobs` answers each session**, with nothing or a JOB. -/
theorem answers_sendPendingJob (w : World τ) (c : ConnId) :
    ∃ es, (es = [] ∨ ∃ header block es', IsJob header block ∧ Ending c es'
        ∧ es = .job c header block :: es')
      ∧ Answers c w (w.sendPendingJob P c) es := by
  unfold World.sendPendingJob
  cases hs : w.client? c with
  | none => exact ⟨[], .inl rfl, .refl⟩
  | some s =>
    dsimp only
    split
    · exact answers_clientSendJob P hs
    · exact ⟨[], .inl rfl, .refl⟩

/-- What reading comes to answers the miner: nothing, or the end of the
session. -/
theorem answers_stopped (hs : w.client? c = some s) (status : RecvStatus) :
    ∃ es, Ending c es ∧ Answers c w (w.stopped c status) es := by
  unfold World.stopped
  split
  · exact ⟨_, .inr ⟨_, _, rfl⟩, answers_clientRemove hs _⟩
  · exact ⟨_, .inr ⟨_, _, rfl⟩, answers_clientRemove hs _⟩
  · exact ⟨[], .inl rfl, .refl⟩

end Answering

/-! ## Receiving -/

section Receiving

variable {c : ConnId} {w : World τ}

@[simp] theorem peers_receive (w : World τ) (c : ConnId) (r : RecvResult) :
    (w.receive c r).peers c = { w.peers c with
      inbox := r.rest
      received := (w.peers c).received ++ r.got
      asks := (w.peers c).asks ++ r.asks } :=
  Function.update_self ..

theorem peers_receive_ne (w : World τ) {c d : ConnId} (h : d ≠ c)
    (r : RecvResult) : (w.receive c r).peers d = w.peers d :=
  Function.update_of_ne h ..

theorem client?_receive (w : World τ) (c : ConnId) (r : RecvResult)
    (d : ConnId) : (w.receive c r).client? d
      = if d = c then (w.client? c).map (·.store r.got) else w.client? d :=
  World.client?_setClient (f := (·.store r.got)) (fun _ => rfl) d

/-- **Receiving acts on the session only**, and writes nothing. -/
theorem acts_receive (w : World τ) (c : ConnId) (r : RecvResult) :
    Acts c w (w.receive c r) [] where
  trace := (List.append_nil _).symm
  about _ he := absurd he List.not_mem_nil
  nextConn := rfl
  backlog := rfl
  peers d hd := peers_receive_ne w hd r
  others d hd := by rw [client?_receive, if_neg hd]
  sockets := .inl (World.sockets_setClient fun _ => rfl)
  delivers := .of_silent
    (by rw [client?_receive, if_pos rfl, Option.map_eq_none_iff])
    (by rw [peers_receive]) rfl fun _ _ => List.not_mem_nil

/-- Writing down that a frame is handed over acts on its session only. -/
theorem acts_emit_frame (w : World τ) (c : ConnId) (bytes : Bytes) :
    Acts c w (w.emit (.frame c bytes)) [.frame c bytes] where
  trace := rfl
  about e he d hd := by
    rw [List.mem_singleton.mp he] at hd
    exact (Option.some.inj hd).symm
  nextConn := rfl
  backlog := rfl
  peers _ _ := rfl
  others _ _ := rfl
  sockets := .inl rfl
  delivers := .of_silent Iff.rfl rfl rfl fun _ _ hm =>
    nomatch List.mem_singleton.mp hm

/-- Emptying the buffer acts on the session only. -/
theorem acts_finishTurn (w : World τ) (c : ConnId) :
    Acts c w (w.finishTurn c).1 [] := by
  unfold World.finishTurn
  split
  · have hset := World.client?_setClient (w := w) (c := c)
      (f := fun s => { s with rxUsed := 0 }) fun _ => rfl
    have hcl : (w.setClient c fun s => { s with rxUsed := 0 }).client? c = none
        ↔ w.client? c = none := by
      rw [hset, if_pos rfl, Option.map_eq_none_iff]
    exact {
      trace := (List.append_nil _).symm
      about := fun _ he => absurd he List.not_mem_nil
      nextConn := rfl
      backlog := rfl
      peers := fun _ _ => rfl
      others := fun d hd => by
        rw [hset, if_neg hd]
      sockets := .inl (World.sockets_setClient fun _ => rfl)
      delivers := .of_silent hcl rfl rfl fun _ _ => List.not_mem_nil }
  · exact .refl

end Receiving
