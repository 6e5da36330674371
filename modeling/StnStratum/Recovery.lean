import StnStratum.Rotation

/-!
# Back to work

The endpoint goes round the configuration, and it does so in order to find a
Chain that has work. Whether it gets there is a question of what the Chains
do. Here each of them serves, and then its answer to a poll is a template, or
does not, and then a poll of it is lost (`Endpoints`). A Chain that answers
and has no template is neither: the server stays with it, by design.

Where one of them serves, the server comes back to work with as many polls as
there are Chains, whatever happens between them (`work_found`). A poll that is
lost moves the endpoint on and leaves no work. Without work nothing is
submitted, so that nothing but the next poll moves it on, and the polls come
by all Chains in their order (`RoundRobin.Seeks`).
-/

variable {τ : Type}

open Rpc (miningTemplate requestFrame maxPayload)

/-! ## Chains that serve -/

/-- **Chains of which each serves or is lost.** What a transport does depends
on what it is bound to, and it is bound by `init` and by nothing else. -/
structure Endpoints (T : ChainTransport τ)
    (serves : ChainConfigEntry → Prop) where
  /-- The transport is bound to the entry. -/
  Bound : τ → ChainConfigEntry → Prop
  /-- A transport is bound by `init`. -/
  init : ∀ t (e : ChainConfigEntry), Bound (T.init (T.close t) e.host e.port) e
  /-- An exchange does not bind it to another. -/
  exchange : ∀ {t e}, Bound t e → ∀ (request : Bytes) {m : ℕ}
    (response : Buf m), Bound (T.exchange t request response).1 e
  /-- A poll of a Chain that does not serve is lost. -/
  lost : ∀ {t e}, Bound t e → ¬ serves e → ∀ (id : ℕ)
    (response : Buf (24 + maxPayload)),
    (T.exchange t (requestFrame miningTemplate id []) response).2.frame = none
  /-- A poll of one that serves is answered with a template. -/
  answers : ∀ {t e}, Bound t e → serves e → ∀ id < 2 ^ 64, ∀
    (response : Buf (24 + maxPayload)) {r : Reply (24 + maxPayload)},
    (T.exchange t (requestFrame miningTemplate id []) response).2 = r →
    r.ok = true ∧ r.frameLength ≤ 24 + maxPayload
      ∧ Rpc.IsAnswer miningTemplate id (r.response.bytes.take r.frameLength)

/-! ## Polls -/

/-- **A poll that reaches Chain**, on which the memory for it has been had. -/
def Polls (T : ChainTransport τ) (w : World τ) (a : ServerAction) : Prop :=
  a = .refresh ∧ (w.poll T).exchanged.isSome = true

instance (T : ChainTransport τ) (w : World τ) (a : ServerAction) :
    Decidable (Polls T w a) :=
  inferInstanceAs (Decidable (_ ∧ _))

section Poll

variable {T : ChainTransport τ} {w : World τ}

/-- **What a poll exchanges**, and what it takes for the poll to succeed. -/
theorem poll_exchange (h : (w.poll T).exchanged.isSome = true) :
    ∃ response : Buf (24 + maxPayload),
      ∀ r, (T.exchange w.server.chainTransport (requestFrame miningTemplate
          w.server.chainRpc.requestId.toNat []) response).2 = r →
        (w.poll T).exchanged = some (requestFrame miningTemplate
          w.server.chainRpc.requestId.toNat [], r.frame)
        ∧ (r.ok = true → r.frameLength ≤ 24 + maxPayload →
          Rpc.IsAnswer miningTemplate w.server.chainRpc.requestId.toNat
            (r.response.bytes.take r.frameLength) → (w.poll T).code = .ok) := by
  have hx : (w.poll T).exchanged = (Rpc.call T w.server.chainTransport
      w.server.chainRpc w.heap miningTemplate []
      (some w.server.work.template)).exchanged := rfl
  have hcode : (w.poll T).code = if (Rpc.call T w.server.chainTransport
      w.server.chainRpc w.heap miningTemplate []
      (some w.server.work.template)).code = .capacity then .unavailable
      else (Rpc.call T w.server.chainTransport w.server.chainRpc w.heap
        miningTemplate [] (some w.server.work.template)).code := rfl
  obtain ⟨code, heap', _, he⟩ | ⟨b, response, heap', _, he⟩ :=
    Rpc.call_cases T w.server.chainTransport w.server.chainRpc w.heap
      miningTemplate [] (some w.server.work.template)
  · rw [hx, he] at h
    cases h
  · rw [he] at hx hcode
    refine ⟨response, ?_⟩
    rintro r rfl
    constructor
    · rw [hx]
      unfold Rpc.exchangeWith
      dsimp only
      rw [Rpc.buildRequest_bytes]
      unfold Rpc.concluded
      dsimp only
      split
      · rfl
      · split <;> rfl
    · intro hok hle ha
      rw [hcode, (Rpc.exchangeWith_of_answer rfl hok hle ha).1]
      rfl

end Poll

/-! ## The endpoint seeks -/

/-- **The server is back to work**: there is work, Chain is there, and it is
one that serves. -/
structure AtWork (serves : ChainConfigEntry → Prop) (s : StratumServer τ) :
    Prop where
  /-- There is work. -/
  haveWork : s.work.haveWork = true
  /-- Chain is there. -/
  available : s.chainAvailable = true
  /-- It is one that serves. -/
  active : ∃ e, s.activeChain = some e ∧ serves e

section Seek

variable {T : ChainTransport τ} {serves : ChainConfigEntry → Prop}
  {w w' : World τ} {a : ServerAction}

/-- **Without work a session is its own affair**: there is nothing to
submit. -/
theorem quiet_serviceTurn_of_noWork {c : ConnId} (h : Ready c w)
    (hw : w.server.work.haveWork = false) :
    Quiet w (w.serviceTurn .linux T c).1 := by
  cases hc : w.client? c with
  | none =>
    rw [serviceTurn_of_none .linux T hc]
    exact .refl
  | some s =>
    rcases h.own_turn T hc with ho | ⟨_, _, _, _, _, ⟨_, hwork, _⟩, _⟩
    · exact ho.toQuiet
    · exact absurd (hwork.symm.trans hw) Bool.noConfusion

/-- **Without work only a poll moves the endpoint on**, and only a poll finds
work. -/
theorem rests_act (h : (turns .linux T).Reachable w)
    (hw : w.server.work.haveWork = false) (ha : a ≠ .close)
    (hp : ¬ Polls T w a) :
    ((turns .linux T).act w a).server.activeChainServer
        = w.server.activeChainServer
      ∧ ((turns .linux T).act w a).server.work.haveWork = false := by
  have hquiet : ∀ {w'}, Quiet w w' →
      w'.server.activeChainServer = w.server.activeChainServer
        ∧ w'.server.work.haveWork = false := by
    intro w' hq
    rw [hq.server]
    exact ⟨rfl, hw⟩
  cases a with
  | service c =>
    exact hquiet (quiet_serviceTurn_of_noWork (ready_of_turns h c) hw)
  | accept mode => exact hquiet (quiet_acceptFrom mode _ w)
  | sendPending => exact hquiet (quiet_sendPendingJobs .linux w)
  | tick => exact ⟨rfl, hw⟩
  | stop => exact ⟨rfl, hw⟩
  | close => exact absurd rfl ha
  | refresh =>
    have hnone : (w.poll T).exchanged = none :=
      Option.not_isSome_iff_eq_none.mp fun hs => hp ⟨rfl, hs⟩
    have htransport : (w.poll T).code ≠ .transport := fun hc => by
      obtain ⟨request, hx⟩ := Rpc.callMiningTemplate_transport_iff.mp hc
      exact nomatch hnone.symm.trans hx
    have hok : (w.poll T).code ≠ .ok := fun hc => by
      obtain ⟨_, _, _, hx, _⟩ := Rpc.callMiningTemplate_ok hc
      exact nomatch hnone.symm.trans hx
    refine ⟨(World.active_refreshWork .linux htransport).2.1, ?_⟩
    rcases World.refreshWork_of_failed (P := .linux) hok with ⟨hwork, _⟩ | hcl
    · exact (congrArg ActiveWork.haveWork hwork).trans hw
    · exact hcl.haveWork

/-- What a transport is used for does not bind it to another. -/
theorem Endpoints.bound_used (E : Endpoints T serves) {t u : τ}
    {e : ChainConfigEntry} (hb : E.Bound t e) (h : Used T t u) :
    E.Bound u e := by
  cases h with
  | idle => exact hb
  | exchange request response => exact E.exchange hb request response

/-- **The transport is bound to the active entry in every state that can
be**, until the server is closed. -/
theorem Endpoints.bound_of_turns (E : Endpoints T serves)
    (h : (turns .linux T).Reachable w) (hs : w.server.chainServers ≠ []) :
    ∃ e, w.server.activeChain = some e
      ∧ E.Bound w.server.chainTransport e := by
  refine h.invariant (P := fun w => w.server.chainServers ≠ [] →
    ∃ e, w.server.activeChain = some e ∧ E.Bound w.server.chainTransport e)
    (fun w hw _ => ?_) (fun w a hw ih hne => ?_) hs
  · obtain ⟨entry, chain, transport, hserver⟩ := Startup.server hw
    rw [hserver]
    exact ⟨entry, rfl, E.init transport entry⟩
  · by_cases ha : a = .close
    · subst ha
      exact absurd rfl hne
    cases rotates_act (T := T) hw ha with
    | stays servers active used _ _ =>
      rw [servers] at hne
      obtain ⟨e, he, hb⟩ := ih hne
      refine ⟨e, ?_, ?_⟩
      · rw [StratumServer.activeChain, servers, active]
        exact he
      · exact E.bound_used hb used
    | next servers _ _ offline =>
      rw [servers] at hne
      obtain ⟨entry, transport, he, ht, _⟩ := (offline hne).bound
      refine ⟨entry, ?_, ?_⟩
      · rw [StratumServer.activeChain, servers]
        exact he
      · rw [ht]
        exact E.init transport entry

/-- **The endpoint seeks a Chain that serves.** -/
theorem Endpoints.seeks (E : Endpoints T serves)
    {servers : List ChainConfigEntry} (hs : servers ≠ []) :
    RoundRobin.Seeks (turns .linux T) (Polls T)
      (fun w => w.server.activeChainServer)
      (fun w => (turns .linux T).Reachable w
        ∧ w.server.chainServers = servers)
      (· ≠ .close) (fun w => w.server.work.haveWork = false)
      (fun i => ∃ e, servers[i]? = some e ∧ serves e)
      (fun w => AtWork serves w.server) servers.length where
  good w a hw ha :=
    ⟨hw.1.act a, (rotates_act (T := T) hw.1 ha).servers.trans hw.2⟩
  place_lt w hw := by
    obtain ⟨hreach, rfl⟩ := hw
    exact (inRange_of_turns hreach).resolve_left hs
  found w a hw ha hp hserves := by
    obtain ⟨hreach, rfl⟩ := hw
    obtain ⟨rfl, hx⟩ := hp
    obtain ⟨e, he, hb⟩ := E.bound_of_turns hreach hs
    obtain ⟨e', he', hserves⟩ := hserves
    obtain rfl := Option.some.inj (he.symm.trans he')
    obtain ⟨response, hpoll⟩ := poll_exchange hx
    obtain ⟨hok, hle, ha'⟩ := E.answers hb hserves _
      w.server.chainRpc.requestId.toNat_lt response rfl
    have hcode : (w.poll T).code = .ok := (hpoll _ rfl).2 hok hle ha'
    have hne : (w.poll T).code ≠ .transport := by
      rw [hcode]
      decide
    obtain ⟨hservers, hactive, _⟩ := World.active_refreshWork .linux hne
    obtain ⟨_, _, hwork, _⟩ := World.refreshWork_of_ok (P := .linux) hcode
    refine ⟨hwork, ?_, e, ?_, hserves⟩
    · exact ((workCoherent_of_turns (hreach.act .refresh)).installed hwork).1
    · show (w.refreshWork .linux T).server.activeChain = some e
      rw [StratumServer.activeChain, hservers, hactive]
      exact he
  moves w a hw ha hp hserves := by
    obtain ⟨hreach, rfl⟩ := hw
    obtain ⟨rfl, hx⟩ := hp
    obtain ⟨e, he, hb⟩ := E.bound_of_turns hreach hs
    obtain ⟨response, hpoll⟩ := poll_exchange hx
    have hlost := E.lost hb (fun h => hserves ⟨e, he, h⟩)
      w.server.chainRpc.requestId.toNat response
    have hcode : (w.poll T).code = .transport :=
      Rpc.callMiningTemplate_transport_iff.mpr
        ⟨_, (hpoll _ rfl).1.trans (by rw [hlost])⟩
    have hoffline := (World.lost_refreshWork (P := .linux)
      (inRange_of_turns hreach) hcode).offline hs
    exact ⟨hoffline.advanced, hoffline.haveWork⟩
  rests w a hw ha hidle hp := rests_act hw.1 hidle ha hp

end Seek

/-- **A network with one Chain.** It is at the host `b`, and has the same
template for everyone. -/
def oneServes : ChainTransport Bytes where
  init _ host _ := host
  close host := host
  exchange host request response :=
    if host = [0x62] then
      (host, ⟨true, response.write 0 (Rpc.answerFrame (Rpc.methodOf request)
        (Rpc.requestIdOf request) (Rpc.mineableTemplate easyTarget 0)), 260⟩)
    else (host, ⟨false, response, 0⟩)

/-- It is a network of the kind. -/
def oneServesEndpoints : Endpoints oneServes fun e => e.host = [0x62] where
  Bound host e := host = e.host
  init _ _ := rfl
  exchange := by
    intro t e ht request m response
    show (ite _ _ _ : Bytes × Reply m).1 = _
    split <;> exact ht
  lost := by
    rintro t e rfl hne id response
    show Reply.frame (ite _ _ _ : Bytes × Reply _).2 = none
    rw [if_neg hne]
    rfl
  answers := by
    rintro t e rfl he id hid response r rfl
    have hlen := Rpc.length_answerFrame miningTemplate id
      (Rpc.mineableTemplate easyTarget 0)
    have htemplate : (Rpc.mineableTemplate easyTarget 0).length = 236 :=
      Rpc.length_mineableTemplate rfl
    have hx : (oneServes.exchange e.host (requestFrame miningTemplate id [])
        response).2 = ⟨true, response.write 0 (Rpc.answerFrame miningTemplate id
          (Rpc.mineableTemplate easyTarget 0)), 260⟩ := by
      show (ite _ _ _ : Bytes × Reply _).2 = _
      rw [if_pos he, Rpc.methodOf_requestFrame _ _ _ (by decide),
        Rpc.requestIdOf_requestFrame _ _ _ hid]
    have htake := @Buf.take_write _ response 0
      (Rpc.answerFrame miningTemplate id
        (Rpc.mineableTemplate easyTarget 0)) (by
        rw [hlen, htemplate]
        decide)
    rw [Nat.zero_add, List.take_zero, List.nil_append, hlen, htemplate] at htake
    have hfits : 260 ≤ 24 + maxPayload := by decide
    rw [hx]
    refine ⟨rfl, hfits, ?_⟩
    rw [htake]
    refine Rpc.isAnswer_answerFrame (by decide) hid (by rw [htemplate]; decide)
      ((Rpc.refusesPayload_template_iff _).mpr ?_)
    rw [Rpc.payloadOf_answerFrame]
    exact Rpc.isTemplate_mineableTemplate rfl (by decide)

/-- **A server with three Chains**, of which the last but one serves. -/
def threeChains : World Bytes :=
  { boot oneServes [] (fun _ => []) fun _ => [.session] with
    server := StratumServer.chainTransportSelect oneServes
      { chainServers := [⟨[0x61], 1⟩, ⟨[0x62], 2⟩, ⟨[0x63], 3⟩]
        activeChainServer := 0
        chainTransport := []
        chainRpc := ⟨0⟩
        work := ⟨Buf.zero _, Buf.zero _, Buf.zero _, 0, false, Nat.zero_le _⟩
        clients := []
        clientCount := 0
        running := true
        chainAvailable := false
        loopCount := 0 } 0 }
