import StnStratum.ServicePass
import StnStratum.Replies

/-!
# Fair service

A pass over the sessions is meant to be fair: one complete frame of each
client, so that a busy miner does not keep the others waiting. The loop of
`service_client` does not stop behind a frame, though, but where there is
nothing left to read, and the Windows one never gets to a complete frame.
`fair_pass_iff` says when a pass is fair all the same.
-/

variable {τ : Type}

open Miner (framing)

/-! ## Queued frames -/

/-- **The complete frames a session has queued**: those that the bytes it has
and the bytes that can be read in one go begin with. -/
def queuedFrames (P : Platform) (w : World τ) (c : ConnId)
    (s : ClientSession) : List Bytes :=
  (framing.decompose (s.pending ++ readable P.retry (w.peers c).inbox)).1

/-- The complete frames among those handed over. -/
def completeFrames (c : ConnId) (es : List Event) : List Bytes :=
  (handedFrames c es).filter fun f => framing.IsFrame f

/-- **What a session may have queued when its turn comes**, for the pass to be
fair. On Linux that is a complete frame at most, or more if the first one
ends the session. On Windows it is none. -/
def OneFrame (P : Platform) (w : World τ) (c : ConnId) : Prop :=
  ∀ s, w.client? c = some s →
    match P with
    | .linux => ∀ f g rest, queuedFrames .linux w c s = f :: g :: rest →
      endsSession .linux w.server.work (w.peers c).outcomes
        s.addressRegistered f = true
    | .windows => queuedFrames .windows w c s = []

/-! ## A pass on Linux -/

section Linux

variable {T : ChainTransport τ} {c : ConnId} {w : World τ}
  {s : ClientSession}

/-- The end of a turn ends no session. -/
theorem client?_finishTurn_eq_none_iff :
    (w.finishTurn c).1.client? c = none ↔ w.client? c = none := by
  unfold World.finishTurn
  split
  · exact client?_setClient_eq_none_iff fun _ => rfl
  · exact Iff.rfl

/-- A header that is refused stays so with more behind it. -/
theorem refused_append {t u : Bytes} (h : framing.Refused t) :
    framing.Refused (t ++ u) := by
  refine ⟨?_, ?_⟩
  · rw [List.length_append]
    exact h.1.trans (Nat.le_add_right _ _)
  · rw [List.take_append_of_le_length h.1]
    exact h.2

/-- **What a turn does to the queue.** Where no complete frame is queued it
hands none over and is the last. Otherwise it hands the first one over and
leaves the others, and it is the last exactly where that ends the session. -/
theorem Ready.turn_linux (h : Ready c w) (hs : w.client? c = some s) :
    (queuedFrames .linux w c s = [] ∧ (w.serviceTurn .linux T c).2 = false
        ∧ handedFrames c (w.serviceTurn .linux T c).1.trace
          = handedFrames c w.trace)
      ∨ ∃ f rest, queuedFrames .linux w c s = f :: rest ∧ framing.IsFrame f
        ∧ handedFrames c (w.serviceTurn .linux T c).1.trace
          = handedFrames c w.trace ++ [f]
        ∧ (endsSession .linux w.server.work (w.peers c).outcomes
            s.addressRegistered f = true
          ↔ (w.serviceTurn .linux T c).1.client? c = none)
        ∧ (w.serviceTurn .linux T c).2
          = ((w.serviceTurn .linux T c).1.client? c).isSome
        ∧ ∀ s', (w.serviceTurn .linux T c).1.client? c = some s' →
          queuedFrames .linux (w.serviceTurn .linux T c).1 c s' = rest := by
  obtain ⟨hu, hinc⟩ := h s hs
  have hcase := serviceTurn_case .linux T hs hu hinc
  generalize w.serviceTurn .linux T c = r at hcase ⊢
  have hhanded : ∀ {w₁ w₂ : World τ} {s₁ : ClientSession} {got : Bytes}
      {es : List Event}, Receives c w w₁ s s₁ got → Answers c w₁ w₂ es →
      handedFrames c w₂.trace = handedFrames c w.trace := by
    intro w₁ w₂ s₁ got es hr ha
    rw [ha.trace, handedFrames_append, ha.handedFrames, List.append_nil,
      hr.acts.trace, List.append_nil]
  cases hcase with
  | @waiting w₁ s₁ hr hinc' _ _ =>
    obtain ⟨es, _, ha⟩ := answers_stopped hr.client
      (stopStatus Platform.linux.retry (w.peers c).inbox)
    refine .inl ⟨?_, rfl, hhanded hr ha⟩
    rw [queuedFrames, ← hr.pending, framing.decompose_of_tail (.inl hinc')]
  | @refused w₁ s₁ _ hr href _ reason _ =>
    refine .inl ⟨?_, rfl, hhanded hr (answers_clientRemove hr.client reason)⟩
    have : s.pending ++ readable Platform.linux.retry (w.peers c).inbox
        = s₁.pending ++ (readable Platform.linux.retry
          (w.peers c).inbox).drop (8 - s.rxUsed) := by
      rw [hr.pending, List.append_assoc, List.take_append_drop]
    rw [queuedFrames, this,
      framing.decompose_of_tail (.inr (refused_append href))]
  | early hp => cases hp
  | @complete w₁ s₁ got hr hframe hread _ _ =>
    have hd := handed_dispatch .linux T hr.client
      (eight_le_of_isFrame hr.fits hframe)
    have hends := client?_dispatch_eq_none_iff (P := .linux) (T := T)
      hr.client hr.fits hframe
    have hreg : s₁.addressRegistered = s.addressRegistered := by
      rw [hr.keeps]
    rw [hr.work, hr.outcomes, hreg] at hends
    refine .inr ⟨s₁.pending, (framing.decompose (readable
      Platform.linux.retry (w₁.peers c).inbox)).1, ?_, hframe, ?_, ?_,
      hd.again, fun s' hs' => ?_⟩
    · rw [queuedFrames, ← hread, ← List.append_assoc, ← hr.pending,
        framing.decompose_append hframe]
    · rw [hd.frames, hr.acts.trace, List.append_nil]
    · rw [client?_finishTurn_eq_none_iff]
      exact hends.symm
    · rw [queuedFrames, (hd.empty s' hs').1, hd.input.1, List.nil_append]

/-- **What a pass hands over on Linux** are complete frames: none exactly
where none is queued, and one at most exactly where `OneFrame` says so. -/
theorem Ready.handed_linux (h : Ready c w) (hs : w.client? c = some s) :
    ∃ fs, handedFrames c (w.serviceClient .linux T c).trace
        = handedFrames c w.trace ++ fs
      ∧ (∀ f ∈ fs, framing.IsFrame f)
      ∧ (fs = [] ↔ queuedFrames .linux w c s = [])
      ∧ (fs.length ≤ 1 ↔ OneFrame .linux w c) := by
  induction hn : (allData (w.peers c).inbox).length using
    Nat.strong_induction_on generalizing w s with
  | _ n ih =>
  -- `OneFrame` is about this session
  have hone : OneFrame .linux w c ↔ ∀ f g rest,
      queuedFrames .linux w c s = f :: g :: rest →
      endsSession .linux w.server.work (w.peers c).outcomes
        s.addressRegistered f = true := by
    refine ⟨fun ho => ho s hs, fun ho s' hs' => ?_⟩
    obtain rfl := Option.some.inj (hs.symm.trans hs')
    exact ho
  rw [hone]
  rcases h.turn_linux (T := T) hs with
    ⟨hq, hlast, hh⟩ | ⟨f, rest, hq, hf, hh, hends, hagain, hrest⟩ <;> rw [hq]
  · rw [serviceClient_of_last hlast]
    exact ⟨[], by rw [hh, List.append_nil],
      fun f hf => absurd hf List.not_mem_nil, Iff.rfl,
      fun _ f g rest he => (nomatch he), fun _ => Nat.zero_le _⟩
  have hhead : (∀ f' g rest', f :: rest = f' :: g :: rest' →
      endsSession .linux w.server.work (w.peers c).outcomes
        s.addressRegistered f' = true)
      ↔ rest ≠ [] → endsSession .linux w.server.work (w.peers c).outcomes
        s.addressRegistered f = true := by
    constructor
    · intro hall hne
      obtain ⟨g, rest', rfl⟩ := List.exists_cons_of_ne_nil hne
      exact hall f g rest' rfl
    · rintro himp f' g rest' he
      obtain ⟨rfl, rfl⟩ := List.cons.inj he
      exact himp (List.cons_ne_nil _ _)
  rw [hhead, hends]
  cases hc : (w.serviceTurn .linux T c).1.client? c with
  | none =>
    rw [hc] at hagain
    rw [serviceClient_of_last hagain]
    exact ⟨[f], hh, fun f' hf' => List.mem_singleton.mp hf' ▸ hf,
      ⟨fun he => (nomatch he), fun he => nomatch he⟩,
      fun _ _ => rfl, fun _ => le_rfl⟩
  | some s' =>
    rw [hc] at hagain
    obtain ⟨fs, hfs, hall, hnil, _⟩ := ih _ (hn ▸ h.progress hagain)
      h.serviceTurn hc rfl
    rw [hrest s' hc] at hnil
    rw [h.serviceClient_of_again hagain, hfs, hh]
    refine ⟨f :: fs, by rw [List.append_assoc]; rfl, fun f' hf' => ?_,
      ⟨fun he => (nomatch he), fun he => nomatch he⟩, ?_⟩
    · rcases List.mem_cons.mp hf' with rfl | hf'
      · exact hf
      · exact hall f' hf'
    · rw [List.length_cons]
      constructor
      · intro hle hne
        have : fs = [] := List.eq_nil_of_length_eq_zero (by omega)
        exact absurd (hnil.mp this) hne
      · intro himp
        by_cases hr : rest = []
        · rw [hnil.mpr hr]
          exact le_rfl
        · cases himp hr

end Linux

/-! ## A pass on Windows -/

/-- **A session of the Windows server**: it has not got past a header. Its
miner has not given an address, and behind the header the buffer has the zeros
it was allocated with. -/
structure Unheard (s : ClientSession) : Prop where
  /-- Less than a header. -/
  header : s.rxUsed < 8
  /-- No address. -/
  unregistered : s.addressRegistered = false
  /-- Nothing behind the header. -/
  blank : slice s.rx.bytes 8 5 = List.replicate 5 0

section Windows

variable {T : ChainTransport τ} {c : ConnId} {w : World τ}
  {s : ClientSession}

/-- **Whatever is handed over of such a session ends it.** -/
theorem client?_dispatch_windows {s₁ : ClientSession}
    (hs : w.client? c = some s₁) (hr : s₁.addressRegistered = false)
    (hb : slice s₁.rx.bytes 8 5 = List.replicate 5 0) :
    (w.dispatch .windows T c s₁).client? c = none := by
  have hs' : (w.emit (.frame c s₁.pending)).client? c = some s₁ := hs
  have hv : addressValid s₁.rx.bytes = false := by
    unfold addressValid
    rw [hb]
    simp [addressPrefix]
  unfold World.dispatch
  dsimp only
  split
  · refine (client?_processAddress_eq_none_iff hs').mpr ?_
    rw [hv, Bool.not_false, Bool.or_true, Bool.true_or]
  split
  · refine (client?_processSubmission_eq_none_iff hs').mpr ?_
    rw [hr]
    rfl
  · refine (client?_processHashProgress_eq_none_iff hs').mpr ?_
    rw [hr]
    rfl

/-- **What a turn does on Windows**: it waits, or it hands eight bytes over and
ends the session. -/
theorem Unheard.turn (hu : Unheard s) (hs : w.client? c = some s) :
    (w.serviceTurn .windows T c).2 = false
      ∧ (∀ s', (w.serviceTurn .windows T c).1.client? c = some s' →
        Unheard s')
      ∧ (handedFrames c (w.serviceTurn .windows T c).1.trace
          = handedFrames c w.trace
        ∨ ∃ f, f.length = 8
          ∧ handedFrames c (w.serviceTurn .windows T c).1.trace
            = handedFrames c w.trace ++ [f]) := by
  have h77 : s.rxUsed ≤ 77 := (le_of_lt hu.header).trans (by decide)
  have hcase := serviceTurn_case .windows T hs h77
    (.inl (by rw [ClientSession.length_pending h77]; exact hu.header))
  generalize w.serviceTurn .windows T c = r at hcase ⊢
  cases hcase with
  | @waiting w₁ s₁ hr _ _ hearly =>
    obtain ⟨es, _, ha⟩ := answers_stopped hr.client
      (stopStatus Platform.windows.retry (w.peers c).inbox)
    refine ⟨rfl, fun s' hs' => ?_, .inl ?_⟩
    · obtain rfl := Option.some.inj
        (hr.client.symm.trans (client?_of_stopped hs'))
      have h8 := hearly rfl hu.header
      refine ⟨h8, ?_, ?_⟩
      · rw [hr.keeps]
        exact hu.unregistered
      · rw [hr.behind 8 5 (le_of_lt h8)]
        exact hu.blank
    · rw [ha.trace, handedFrames_append, ha.handedFrames, List.append_nil,
        hr.acts.trace, List.append_nil]
  | refused hp => cases hp
  | complete _ _ _ _ hlate =>
    exact absurd (hlate rfl) (not_le.mpr hu.header)
  | @early w₁ s₁ got _ _ hr h8 _ _ =>
    have hd := handed_dispatch .windows T hr.client (le_of_eq h8.symm)
    have hgone : ((w₁.dispatch .windows T c s₁).finishTurn c).1.client? c
        = none := by
      refine client?_finishTurn_eq_none_iff.mpr ?_
      refine client?_dispatch_windows hr.client ?_ ?_
      · rw [hr.keeps]
        exact hu.unregistered
      · rw [hr.behind 8 5 (le_of_eq h8)]
        exact hu.blank
    refine ⟨by rw [hd.again, hgone]; rfl, fun s' hs' => ?_,
      .inr ⟨s₁.pending, ?_, ?_⟩⟩
    · rw [hgone] at hs'
      cases hs'
    · rw [ClientSession.length_pending hr.fits, h8]
    · rw [hd.frames, hr.acts.trace, List.append_nil]

/-- The job of a session is no part of it. -/
theorem Unheard.of_clearJob {s' : ClientSession} (h : Unheard s)
    (hss : s.clearJob = s'.clearJob) : Unheard s' := by
  refine ⟨?_, ?_, ?_⟩
  · rw [show s'.rxUsed = s.rxUsed from
      (congrArg ClientSession.rxUsed hss).symm]
    exact h.header
  · exact (congrArg ClientSession.addressRegistered hss).symm.trans
      h.unregistered
  · rw [show s'.rx = s.rx from (congrArg ClientSession.rx hss).symm]
    exact h.blank

/-- **Every session of the Windows server is one**, in every reachable
state. -/
theorem unheard_of_run (h : (stratum .windows T).Reachable w)
    (hs : w.client? c = some s) : Unheard s := by
  have hall : ∀ c s, w.client? c = some s → Unheard s := by
    refine h.invariant (P := fun w : World τ => ∀ c s, w.client? c = some s →
      Unheard s) ?_ ?_
    · intro w hw c s hs
      have := World.mem_sockets_iff.mpr ⟨s, hs⟩
      rw [hw.sockets] at this
      exact absurd this List.not_mem_nil
    · intro w a _ hw
      refine World.act_induction (I := fun w : World τ => ∀ c s,
        w.client? c = some s → Unheard s) ?_ ?_ (fun _ _ h => h) ?_ hw a
      · intro w w' hm h c s' hs'
        obtain ⟨s, hs, hss⟩ := hm.client?_before hs'
        exact (h c s hs).of_clearJob hss
      · intro w mode h c s hs
        rcases client?_acceptSession hs with rfl | hs
        · exact ⟨Nat.zero_lt_succ 7, rfl, rfl⟩
        · exact h c s hs
      · intro w d h c s' hs'
        by_cases hd : c = d
        · subst hd
          cases hs : w.client? c with
          | none =>
            rw [serviceTurn_of_none .windows T hs] at hs'
            cases hs.symm.trans hs'
          | some s => exact ((h c s hs).turn hs).2.1 s' hs'
        · obtain ⟨es, _, ha⟩ := acts_serviceTurn .windows T w d
          obtain ⟨s, hs, hss⟩ := ha.client?_before hd hs'
          exact (h c s hs).of_clearJob hss
  exact hall c s hs

end Windows

/-! ## Whole passes -/

section Passes

variable {P : Platform} {T : ChainTransport τ} {c : ConnId} {w : World τ}

/-- What follows a frame has one RESULT at most. -/
theorem Reaction.length_resultCodes {frame : Bytes} {es : List Event}
    (h : Reaction c frame es) : (resultCodes c es).length ≤ 1 := by
  have hone : ∀ (code : ℕ) {es : List Event}, Ending c es →
      (resultCodes c (.result c code :: es)).length ≤ 1 := by
    intro code es he
    have hes := he.silent.1
    unfold conversation at hes
    rw [resultCodes, conversation, List.filterMap_cons, hes,
      show Event.said? c (.result c code) = _ from if_pos rfl]
    exact le_rfl
  cases h with
  | ended => exact Nat.zero_le _
  | silent => exact Nat.zero_le _
  | job _ _ he =>
    have hes := he.silent.1
    unfold conversation at hes
    rw [resultCodes, conversation, List.filterMap_cons, hes]
    exact Nat.zero_le _
  | refused _ _ he => exact hone _ he
  | asked _ _ he => exact hone _ he

/-- **A turn sends no more RESULTs than it hands over frames.** -/
theorem TurnEvents.length_resultCodes {es : List Event}
    (h : TurnEvents c es) :
    (resultCodes c es).length ≤ (handedFrames c es).length := by
  rcases h with he | ⟨frame, es', hr, rfl⟩
  · rw [resultCodes, he.silent.1]
    exact Nat.zero_le _
  · have hle := hr.length_resultCodes
    rw [handedFrames_frame, List.length_cons]
    unfold resultCodes conversation at hle ⊢
    rw [List.filterMap_cons,
      show Event.said? c (.frame c frame) = _ from if_pos rfl,
      List.filterMap_cons]
    exact hle.trans (Nat.le_add_left 1 _)

/-- **A pass over a session acts on it**, and sends no more RESULTs than it
hands over frames. -/
theorem acts_serviceClient (P : Platform) (T : ChainTransport τ) (w : World τ)
    (c : ConnId) : ∃ es, Acts c w (w.serviceClient P T c) es
      ∧ (resultCodes c es).length ≤ (handedFrames c es).length := by
  refine World.serviceLoop_induction (I := fun w' => ∃ es, Acts c w w' es
    ∧ (resultCodes c es).length ≤ (handedFrames c es).length) ?_ _
    ⟨[], .refl, le_rfl⟩
  rintro w' ⟨es, ha, hle⟩
  obtain ⟨fs, hf, ha'⟩ := acts_serviceTurn P T w' c
  refine ⟨es ++ fs, ha.trans ha', ?_⟩
  have hle' := hf.length_resultCodes
  rw [handedFrames_append, List.length_append, resultCodes,
    conversation_append, List.filterMap_append, List.length_append]
  exact Nat.add_le_add hle hle'

/-- The state once some sessions have had their turn in a pass. -/
def World.served (P : Platform) (T : ChainTransport τ) (w : World τ)
    (cs : List ConnId) : World τ :=
  cs.foldl (fun w c => w.serviceClient P T c) w

/-- **Whoever is served, others are left alone**: nothing of theirs goes on
the trace, and their connections and sessions are as they were, up to the
jobs. -/
theorem served_others {cs : List ConnId} (hc : c ∉ cs) (w : World τ) :
    ∃ es, (w.served P T cs).trace = w.trace ++ es
      ∧ (∀ e ∈ es, e.client? ≠ some c)
      ∧ (w.served P T cs).peers c = w.peers c
      ∧ ((w.served P T cs).client? c).map ClientSession.clearJob
        = (w.client? c).map ClientSession.clearJob := by
  induction cs generalizing w with
  | nil =>
    exact ⟨[], (List.append_nil _).symm, fun e he => absurd he
      List.not_mem_nil, rfl, rfl⟩
  | cons d cs ih =>
    have hd : c ≠ d := fun h => hc (h ▸ List.mem_cons_self)
    obtain ⟨es, ha, _⟩ := acts_serviceClient P T w d
    obtain ⟨fs, ht, hf, hp, hs⟩ := ih (fun h => hc (List.mem_cons_of_mem _ h))
      (w.serviceClient P T d)
    refine ⟨es ++ fs, ?_, ?_, hp.trans (ha.peers c hd),
      hs.trans (ha.others c hd)⟩
    · rw [← List.append_assoc, ← ha.trace]
      exact ht
    · intro e he
      rcases List.mem_append.mp he with he | he
      · exact ha.not_about hd e he
      · exact hf e he

end Passes

/-- **A fair pass.** Of every client one complete frame at most is handed
over, and it is sent one RESULT at most; and where a client has a complete
frame queued, one is handed over. -/
def FairPass (P : Platform) (T : ChainTransport τ) (w : World τ) : Prop :=
  ∃ es, (w.serviceClients P T).trace = w.trace ++ es
    ∧ ∀ c s, w.client? c = some s →
      (completeFrames c es).length ≤ 1
        ∧ (resultCodes c es).length ≤ 1
        ∧ (queuedFrames P w c s ≠ [] → (completeFrames c es).length = 1)

section Fair

variable {P : Platform} {T : ChainTransport τ} {c : ConnId} {w : World τ}
  {s : ClientSession} {es : List Event}

/-- Eight bytes are not a complete frame. -/
theorem not_isFrame_of_length {f : Bytes} (h : f.length = 8) :
    ¬ framing.IsFrame f := by
  intro hf
  have hsize := (Miner.frameSize_take f (n := 8) le_rfl).symm.trans hf.2
  split at hsize
  · have := (Miner.frameSizeOf_bounds hsize).1
    omega
  · cases hsize

/-- **What a pass does for one of its sessions** is fair exactly where
`OneFrame` says so of the state in which its turn comes. -/
theorem fair_iff_oneFrame (h : (stratum P T).Reachable w)
    (hs : w.client? c = some s)
    (ht : (w.serviceClient P T c).trace = w.trace ++ es)
    (hle : (resultCodes c es).length ≤ (handedFrames c es).length) :
    ((completeFrames c es).length ≤ 1 ∧ (resultCodes c es).length ≤ 1
        ∧ (queuedFrames P w c s ≠ [] → (completeFrames c es).length = 1))
      ↔ OneFrame P w c := by
  have hone : ∀ {p : Prop}, (∀ s', w.client? c = some s' → p) ↔ p :=
    ⟨fun hp => hp s hs, fun hp _ _ => hp⟩
  cases P with
  | linux =>
    obtain ⟨fs, hfs, hall, hnil, hiff⟩ :=
      (ready_of_run h c).handed_linux (T := T) hs
    rw [ht, handedFrames_append, List.append_cancel_left_eq] at hfs
    have hcomplete : completeFrames c es = fs := by
      rw [completeFrames, hfs]
      exact List.filter_eq_self.mpr fun f hf => decide_eq_true (hall f hf)
    rw [hfs] at hle
    rw [hcomplete, ← hiff]
    refine ⟨fun h => h.1, fun hl => ⟨hl, hle.trans hl, fun hq => ?_⟩⟩
    have := List.length_pos_of_ne_nil fun hf => hq (hnil.mp hf)
    omega
  | windows =>
    obtain ⟨hlast, _, hh⟩ := (unheard_of_run h hs).turn (T := T) hs
    rw [← serviceClient_of_last hlast, ht, handedFrames_append] at hh
    have hshort : (handedFrames c es).length ≤ 1
        ∧ completeFrames c es = [] := by
      rcases hh with hh | ⟨f, hf, hh⟩
      · have : handedFrames c es = [] := List.append_right_eq_self.mp hh
        rw [completeFrames, this]
        exact ⟨Nat.zero_le _, rfl⟩
      · rw [List.append_cancel_left_eq] at hh
        rw [completeFrames, hh]
        refine ⟨le_rfl, ?_⟩
        rw [List.filter_singleton, decide_eq_false (not_isFrame_of_length hf)]
        rfl
    rw [hshort.2]
    constructor
    · rintro ⟨_, _, hq⟩ s' hs'
      obtain rfl := Option.some.inj (hs.symm.trans hs')
      exact not_not.mp fun hne => nomatch hq hne
    · intro ho
      exact ⟨Nat.zero_le _, hle.trans hshort.1,
        fun hq => absurd (ho s hs) hq⟩

/-- **A session's share of a pass** is what its own turn adds to it. -/
theorem pass_events (hn : w.sockets.Nodup) (hs : w.client? c = some s)
    {before after : List ConnId} (hc : w.sockets = before ++ c :: after) :
    ∃ s' es es', (w.served P T before).client? c = some s'
      ∧ queuedFrames P (w.served P T before) c s' = queuedFrames P w c s
      ∧ ((w.served P T before).serviceClient P T c).trace
        = (w.served P T before).trace ++ es'
      ∧ (resultCodes c es').length ≤ (handedFrames c es').length
      ∧ (w.serviceClients P T).trace = w.trace ++ es
      ∧ handedFrames c es = handedFrames c es'
      ∧ resultCodes c es = resultCodes c es' := by
  rw [hc] at hn
  have hb : c ∉ before := fun h =>
    (List.nodup_append.mp hn).2.2 c h c List.mem_cons_self rfl
  have ha : c ∉ after :=
    (List.nodup_cons.mp (List.nodup_append.mp hn).2.1).1
  obtain ⟨es₁, ht₁, he₁, hp₁, hs₁⟩ := served_others (P := P) (T := T) hb w
  obtain ⟨es₂, ha₂, hle⟩ := acts_serviceClient P T (w.served P T before) c
  obtain ⟨es₃, ht₃, he₃, _, _⟩ := served_others (P := P) (T := T) ha
    ((w.served P T before).serviceClient P T c)
  have hfinal : w.serviceClients P T
      = ((w.served P T before).serviceClient P T c).served P T after := by
    unfold World.serviceClients World.served
    rw [hc, List.foldl_append, List.foldl_cons]
  rw [hs, Option.map_some] at hs₁
  obtain ⟨s', hs', hss⟩ := Option.map_eq_some_iff.mp hs₁
  refine ⟨s', es₁ ++ es₂ ++ es₃, es₂, hs', ?_, ha₂.trace, hle, ?_, ?_, ?_⟩
  · rw [queuedFrames, queuedFrames, hp₁,
      show s'.pending = s.pending from
        (congrArg ClientSession.pending hss.symm).symm]
  · rw [hfinal, ht₃, ha₂.trace, ht₁, List.append_assoc, List.append_assoc,
      List.append_assoc]
  · rw [handedFrames_append, handedFrames_append, handedFrames_eq_nil he₁,
      handedFrames_eq_nil he₃, List.nil_append, List.append_nil]
  · unfold resultCodes
    rw [conversation_append, conversation_append, conversation_eq_nil he₁,
      conversation_eq_nil he₃, List.nil_append, List.append_nil]

/-- **When a pass is fair**: exactly where, for every session, `OneFrame` holds
of the state in which its turn comes. -/
theorem fair_pass_iff (h : (stratum P T).Reachable w) :
    FairPass P T w ↔ ∀ before c after, w.sockets = before ++ c :: after →
      OneFrame P (w.served P T before) c := by
  have hn := (orderly_of_run h).nodup
  have hreach : ∀ cs, (stratum P T).Reachable (w.served P T cs) := by
    intro cs
    rw [World.served, foldl_service_eq_run]
    exact h.run _
  constructor
  · rintro ⟨es, ht, hfair⟩ before c after hc
    obtain ⟨s, hs⟩ := World.mem_sockets_iff.mp (show c ∈ w.sockets by
      rw [hc]
      exact List.mem_append_right _ List.mem_cons_self)
    obtain ⟨s', es', fs, hs', hq, hft, hle, ht', hh, hr⟩ :=
      pass_events (P := P) (T := T) hn hs hc
    obtain rfl := List.append_cancel_left (ht.symm.trans ht')
    refine (fair_iff_oneFrame (hreach before) hs' hft hle).mp ?_
    rw [hq, ← hr, completeFrames, ← hh]
    exact hfair c s hs
  · intro hone
    have hnew : w.nextConn ∉ w.sockets :=
      fun hm => Nat.lt_irrefl _ ((orderly_of_run h).lt w.nextConn hm)
    obtain ⟨es, ht, _⟩ := served_others (P := P) (T := T) hnew w
    refine ⟨es, ht, fun c s hs => ?_⟩
    obtain ⟨before, after, hc⟩ :=
      List.append_of_mem (World.mem_sockets_iff.mpr ⟨s, hs⟩)
    obtain ⟨s', es', fs, hs', hq, hft, hle, ht', hh, hr⟩ :=
      pass_events (P := P) (T := T) hn hs hc
    obtain rfl := List.append_cancel_left (ht.symm.trans ht')
    have := (fair_iff_oneFrame (hreach before) hs' hft hle).mpr
      (hone before c after hc)
    rw [hq, ← hr, completeFrames, ← hh] at this
    exact this

end Fair

set_option maxRecDepth 100000 in
/-- A pass over a single miner that has sent its ADDRESS is fair. -/
theorem fair_pass_rehearsal :
    FairPass .linux Rpc.replay
      ((stratum .linux Rpc.replay).run (rehearsal 0) [.accept .pool]) := by
  have hreach := reachable_rehearsal 0 [.accept .pool]
  have hs : ((stratum .linux Rpc.replay).run (rehearsal 0)
      [.accept .pool]).sockets = [0] := by decide +kernel
  have hq : (((stratum .linux Rpc.replay).run (rehearsal 0)
      [.accept .pool]).client? 0).map (fun s => (queuedFrames .linux
        ((stratum .linux Rpc.replay).run (rehearsal 0) [.accept .pool]) 0
        s).length) = some 1 := by
    decide +kernel
  generalize (stratum .linux Rpc.replay).run (rehearsal 0) [.accept .pool] = w
    at hreach hs hq ⊢
  refine (fair_pass_iff hreach).mpr fun before c after hc s hc' => ?_
  rw [hs] at hc
  rcases before with _ | ⟨b, before⟩
  · obtain ⟨rfl, _⟩ := List.cons.inj hc
    have hc' : w.client? 0 = some s := hc'
    rw [hc'] at hq
    have hq : (queuedFrames .linux w 0 s).length = 1 := Option.some.inj hq
    intro f g rest (he : queuedFrames .linux w 0 s = f :: g :: rest)
    rw [he] at hq
    cases hq
  · exact absurd (List.cons.inj hc).2.symm
      (List.append_ne_nil_of_right_ne_nil _ (List.cons_ne_nil _ _))

/-- **A busy miner**: its ADDRESS and two SUBMITs wait to be read. -/
def busy : World (List Bytes) :=
  boot Rpc.replay []
    (fun c => if c = 0 then
      unread (addressFrame ++ submitFrame ++ submitFrame) [] else [])
    fun _ => [.session]

set_option maxRecDepth 100000 in
/-- **A pass that is not fair**: of the busy miner it hands over three frames
and sends it two RESULTs. -/
theorem not_fair_pass_busy :
    (stratum .linux Rpc.replay).Reachable
        ((stratum .linux Rpc.replay).run busy [.accept .pool])
      ∧ ¬ FairPass .linux Rpc.replay
        ((stratum .linux Rpc.replay).run busy [.accept .pool]) := by
  refine ⟨⟨busy, _, startup_boot .., rfl⟩, ?_⟩
  rintro ⟨es, ht, hfair⟩
  have hes := congrArg (List.drop
    ((stratum .linux Rpc.replay).run busy [.accept .pool]).trace.length) ht
  rw [List.drop_left] at hes
  have hthree : (resultCodes 0 es).length = 2 := by
    rw [← hes]
    decide +kernel
  obtain ⟨s, hs⟩ := World.mem_sockets_iff.mp (show 0 ∈ ((stratum .linux
    Rpc.replay).run busy [.accept .pool]).sockets by decide +kernel)
  have := (hfair 0 s hs).2.1
  omega
