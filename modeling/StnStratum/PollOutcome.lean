import StnStratum.Failover
import StnStratum.JobHistory
import StnStratum.RpcLinux

/-!
# What a poll comes to

`refresh_work` does one of four things, and the code of the call decides
which. Where Chain has no template it keeps everything, where Chain answers
with one it takes it, where nobody answers it gives the work up and turns to
the next Chain, and on any other code it gives the work up and stays. A Chain
without room for a template, and a server without memory for the call, count
as a Chain without a template: the client says so
(`stn_rpc_client_mining_template`), so the branch for CAPACITY in
`refresh_work` is never taken.

The call receives into the active template. That the template is kept with the
work rests on the client, which stores a payload only once it has accepted it.
-/

variable {τ : Type}

/-! ## What a reply comes to -/

namespace Rpc

/-- The result code of a response. -/
def codeOf (frame : Bytes) : ℕ := readBE (slice frame 10 2)

/-- It stands in the header. -/
theorem codeOf_take (b : Bytes) :
    codeOf (b.take 24) = readBE (slice b 10 2) :=
  congrArg readBE (slice_take (by decide))

/-- **A refusal**: a header without a payload that answers the request, with a
result code other than that of success. -/
structure IsRefusal (method id : ℕ) (frame : Bytes) : Prop where
  /-- There is nothing but the header. -/
  size : frame.length = 24
  /-- It starts with the magic. -/
  magic : slice frame 0 4 = Rpc.magic
  /-- It has the version. -/
  version : readBE (slice frame 4 2) = Rpc.version
  /-- It is a response. -/
  kind : readBE (slice frame 6 2) = 2
  /-- It names the method. -/
  method_eq : methodOf frame = method
  /-- It names the request. -/
  id_eq : requestIdOf frame = id
  /-- It announces no payload. -/
  length : readBE (slice frame 20 4) = 0
  /-- Its result code is not success. -/
  code : codeOf frame ≠ 0

section Reply

variable {T : ChainTransport τ} {transport : τ} {client : RpcClient}
  {heap : Heap} {method id capacity : ℕ} {payload response : Bytes}
  {frameLength : ℕ} {code : RpcCode}

/-- **The other codes are Chain's own**: apart from success and INVALID, what a
response is taken for is what a refusal says. -/
theorem checkResponse_eq_iff (hcap : response.length = 24 + capacity)
    (hpos : 0 < capacity) (hok : code ≠ .ok) (hinvalid : code ≠ .invalid) :
    checkResponse method id capacity true response frameLength = code
      ↔ IsRefusal method id (response.take frameLength)
        ∧ mapCode (codeOf (response.take frameLength)) = code := by
  constructor
  · intro h
    unfold checkResponse at h
    split at h
    · exact absurd h.symm hinvalid
    next h₁ =>
    dsimp only at h
    split at h
    · exact absurd h.symm hinvalid
    next h₂ =>
    simp only [not_or, not_not, not_lt] at h₁ h₂
    obtain ⟨h24, hle, hm, hv, hk, hme, hid⟩ := h₁
    split at h
    next h₃ =>
      split at h
      · exact absurd h.symm hinvalid
      next h₄ =>
      rw [not_not] at h₄
      obtain rfl : frameLength = 24 := by omega
      refine ⟨⟨?_, ?_, ?_, ?_, ?_, ?_, ?_, codeOf_take response ▸ h₃⟩,
        codeOf_take response ▸ h⟩
      · rw [List.length_take, hcap]
        omega
      · rw [slice_take (by decide), hm]
      · rw [slice_take (by decide), hv]
      · rw [slice_take (by decide), hk]
      · rw [methodOf, slice_take (by decide), hme]
      · rw [requestIdOf, slice_take (by decide), hid]
      · rw [slice_take (by decide), h₄]
    · split at h
      next h₅ =>
        -- no payload is longer than its frame, and there is a buffer
        rcases h₅ with h₅ | ⟨_, h₅⟩
        · omega
        · exact Bool.noConfusion h₅
      split at h
      · exact absurd h.symm hinvalid
      · exact absurd h.symm hok
  · rintro ⟨hr, rfl⟩
    obtain rfl : frameLength = 24 := by
      have := hr.size
      rw [List.length_take, hcap] at this
      omega
    have hm := hr.magic
    have hv := hr.version
    have hk := hr.kind
    have hme := hr.method_eq
    have hid := hr.id_eq
    have hl := hr.length
    have hc := hr.code
    rw [slice_take (by decide)] at hm hv hk hl
    rw [methodOf, slice_take (by decide)] at hme
    rw [requestIdOf, slice_take (by decide)] at hid
    rw [codeOf_take] at hc ⊢
    unfold checkResponse
    rw [if_neg (by
      simp only [not_or, not_not, not_lt]
      exact ⟨le_rfl, by omega, hm, hv, hk, hme, hid⟩)]
    dsimp only
    rw [if_neg (not_not.mpr hl), if_pos hc, if_neg (not_not.mpr hl)]

/-- **A malformed response** is INVALID. -/
theorem checkResponse_malformed (hcap : response.length = 24 + capacity)
    (hpos : 0 < capacity)
    (hanswer : ¬ IsAnswer method id (response.take frameLength))
    (hrefusal : ¬ IsRefusal method id (response.take frameLength)) :
    checkResponse method id capacity true response frameLength = .invalid := by
  by_contra hinvalid
  by_cases hok : checkResponse method id capacity true response frameLength
      = .ok
  · exact hanswer (isAnswer_of_checkResponse hcap hok).1
  · exact hrefusal ((checkResponse_eq_iff hcap hpos hok hinvalid).mp rfl).1

/-- **What a call makes of the frame it gets back** is what the response is
taken for. -/
theorem call_code_of_frame {buffer : Buf capacity} {request frame : Bytes}
    (h : (call T transport client heap method payload
      (some buffer)).exchanged = some (request, some frame)) :
    ∃ response frameLength, response.length = 24 + capacity
      ∧ response.take frameLength = frame
      ∧ (call T transport client heap method payload (some buffer)).code
        = checkResponse method client.requestId.toNat capacity true response
          frameLength := by
  obtain ⟨code, heap', _, he⟩ | ⟨b, r, heap', _, he⟩ :=
    call_cases T transport client heap method payload (some buffer)
  · rw [he] at h
    cases h
  · rw [he] at h ⊢
    unfold exchangeWith concluded at h ⊢
    dsimp only at h ⊢
    generalize T.exchange transport _ r = e at h ⊢
    have hframe : e.2.frame = some frame := by
      split at h
      · exact (Prod.mk.inj (Option.some.inj h)).2
      · split at h <;> exact (Prod.mk.inj (Option.some.inj h)).2
    unfold Reply.frame at hframe
    split at hframe
    next hok =>
      refine ⟨_, _, e.2.response.size, Option.some.inj hframe, ?_⟩
      rw [if_neg (by rw [hok]; exact Bool.noConfusion)]
      split
      next hc => exact hc.symm
      · rfl
    · cases hframe

end Reply

end Rpc

/-! ## The outcome of a poll -/

namespace World

variable {P : Platform} {T : ChainTransport τ} {w w' : World τ}

/-- **The outcome of a poll**: the code that `call` ends in, before
`stn_rpc_client_mining_template` looks at it. -/
def outcome (T : ChainTransport τ) (w : World τ) : RpcCode :=
  (Rpc.call T w.server.chainTransport w.server.chainRpc w.heap
    Rpc.miningTemplate [] (some w.server.work.template)).code

/-- To `refresh_work`, CAPACITY is UNAVAILABLE. -/
theorem poll_code (T : ChainTransport τ) (w : World τ) : (w.poll T).code
    = if w.outcome T = .capacity then .unavailable else w.outcome T := rfl

/-- **A reply that is no answer and no refusal** has the outcome INVALID. -/
theorem outcome_of_malformed {request frame : Bytes}
    (h : (w.poll T).exchanged = some (request, some frame))
    (hanswer : ¬ Rpc.IsAnswer Rpc.miningTemplate
      w.server.chainRpc.requestId.toNat frame)
    (hrefusal : ¬ Rpc.IsRefusal Rpc.miningTemplate
      w.server.chainRpc.requestId.toNat frame) :
    w.outcome T = .invalid := by
  obtain ⟨response, frameLength, hcap, rfl, hcode⟩ := Rpc.call_code_of_frame h
  exact hcode.trans
    (Rpc.checkResponse_malformed hcap (by decide) hanswer hrefusal)

/-- **Short of a lost call, a poll stays with its Chain**: the active server is
the same, on the transport that the call has left. -/
theorem active_refreshWork (P : Platform) (h : (w.poll T).code ≠ .transport) :
    (w.refreshWork P T).server.chainServers = w.server.chainServers
      ∧ (w.refreshWork P T).server.activeChainServer
        = w.server.activeChainServer
      ∧ (w.refreshWork P T).server.chainTransport = (w.poll T).transport := by
  have hp : (w.polled (w.poll T)).server.chainServers = w.server.chainServers
      ∧ (w.polled (w.poll T)).server.activeChainServer
        = w.server.activeChainServer
      ∧ (w.polled (w.poll T)).server.chainTransport
        = (w.poll T).transport := ⟨rfl, rfl, rfl⟩
  unfold refreshWork
  dsimp only
  generalize w.polled (w.poll T) = w₁ at hp ⊢
  rw [← hp.1, ← hp.2.1, ← hp.2.2]
  unfold afterPoll
  split
  · split
    · exact ⟨rfl, rfl, rfl⟩
    split
    · exact ⟨rfl, rfl, rfl⟩
    dsimp only
    split
    · rw [(quiet_sendPendingJobs P _).server]
      exact ⟨rfl, rfl, rfl⟩
    · exact ⟨rfl, rfl, rfl⟩
  · exact ⟨rfl, rfl, rfl⟩
  next hc => exact absurd hc h
  · exact ⟨rfl, rfl, rfl⟩

/-! ## The four outcomes -/

/-- **Everything is kept**: nothing has changed but that Chain is there. -/
structure Retained (w w' : World τ) : Prop where
  /-- The work is as it was, the template included. -/
  work : w'.server.work = w.server.work
  /-- So is every session. -/
  clients : w'.server.clients = w.server.clients
  /-- Nobody was sent anything. -/
  peers : w'.peers = w.peers
  /-- Chain is there. -/
  available : w'.server.chainAvailable = true
  /-- It is the same Chain. -/
  active : w'.server.activeChainServer = w.server.activeChainServer

/-- **The work is given up**, and every job with it. Of a session nothing but
its job is touched. -/
structure Cleared (w w' : World τ) : Prop where
  /-- There is no work. -/
  work : w'.server.work.IsCleared
  /-- No session has a job. -/
  clients : w'.server.clients
    = w.server.clients.map ClientSession.clearJob
  /-- Nobody was sent anything. -/
  peers : w'.peers = w.peers

/-- **The work is given up, and Chain is there.** -/
structure Dropped (w w' : World τ) : Prop extends Cleared w w' where
  /-- Chain is there. -/
  available : w'.server.chainAvailable = true
  /-- It is the same Chain. -/
  active : w'.server.activeChainServer = w.server.activeChainServer

/-- **The work is given up, and Chain is not there.** -/
structure Lost (T : ChainTransport τ) (w w' : World τ) : Prop
    extends Cleared w w' where
  /-- Chain is not there. -/
  unavailable : w'.server.chainAvailable = false
  /-- The server has turned to the next one. -/
  offline : w.server.chainServers ≠ [] → Offline T w.server w'.server

/-- **What becomes of a session when a template is taken**: it is kept as it
is, or it was without the job and is sent it, or it was without the job and
is removed because the job could not be sent. -/
inductive Offered (t : Bytes) (jobId : Buf 32) (d : ConnId)
    (es : List Event) : Option ClientSession → Option ClientSession → Prop where
  /-- The session is kept, if there is one. -/
  | kept {s : Option ClientSession} (hjobs : jobsOf d es = []) :
    Offered t jobId d es s s
  /-- The session is sent the job. -/
  | sent {s : ClientSession} (hp : s.Pending jobId)
    (hjobs : jobsOf d es = [jobOf t]) :
    Offered t jobId d es (some s)
      (some { s with sentJobId := jobId, hasJob := true })
  /-- The session is removed. -/
  | removed {s : ClientSession} {n : ℕ} (hp : s.Pending jobId)
    (hjobs : jobsOf d es = [jobOf t]) (he : .removed d .jobSendFailed n ∈ es) :
    Offered t jobId d es (some s) none

/-- **The reply becomes the whole active work**, and the sessions are offered
it. -/
structure Replaced (w w' : World τ) (frame : Bytes) : Prop where
  /-- The reply is an answer to the request. -/
  answer : Rpc.IsAnswer Rpc.miningTemplate w.server.chainRpc.requestId.toNat
    frame
  /-- There is work. -/
  haveWork : w'.server.work.haveWork = true
  /-- Its template is the payload of the reply, and so is its length. -/
  stores : w'.server.work.Stores (Rpc.payloadOf frame)
  /-- Its base is the template's. -/
  base : w'.server.work.base.bytes = slice (Rpc.payloadOf frame) 0 32
  /-- Its ID is the template's. -/
  jobId : w'.server.work.jobId.bytes = slice (Rpc.payloadOf frame) 32 32
  /-- Chain is there. -/
  available : w'.server.chainAvailable = true
  /-- It is the same Chain. -/
  active : w'.server.activeChainServer = w.server.activeChainServer
  /-- What was done is the exchange, and the sending of the job. -/
  sessions : ∃ es, w'.trace = w.trace ++ .exchange (Rpc.requestFrame
        Rpc.miningTemplate w.server.chainRpc.requestId.toNat [])
          (some frame) :: es
    ∧ ∀ d, Offered (Rpc.payloadOf frame) w'.server.work.jobId d es
        (w.client? d) (w'.client? d)

/-- **What `refresh_work` does**, by the outcome of its call. -/
def PollOutcome (T : ChainTransport τ) (w w' : World τ) : RpcCode → Prop
  | .unavailable => Retained w w'
  | .capacity => Retained w w'
  | .ok => ∃ frame, Replaced w w' frame
  | .transport => Lost T w w'
  | _ => Dropped w w'

/-- **A poll without a template** keeps everything. -/
theorem retained_refreshWork (hc : (w.poll T).code = .unavailable) :
    Retained w (w.refreshWork P T) := by
  have hok : (w.poll T).code ≠ .ok := by
    rw [hc]
    exact nofun
  have hwork : (w.polled (w.poll T)).server.work = w.server.work := by
    rw [work_polled, show (w.poll T).payload = _ from
      Rpc.callMiningTemplate_payload hok]
    rfl
  have he : w.refreshWork P T = (w.polled (w.poll T)).setServer fun s =>
      { s with chainAvailable := true } := by
    unfold refreshWork
    dsimp only
    rw [hc]
    rfl
  rw [he]
  exact ⟨hwork, rfl, rfl, rfl, rfl⟩

/-- **A poll that is lost** gives the work up and turns to the next Chain. -/
theorem lost_refreshWork (hr : w.server.InRange)
    (hc : (w.poll T).code = .transport) : Lost T w (w.refreshWork P T) := by
  let s : StratumServer τ :=
    { (w.polled (w.poll T)).server.clearWork with chainAvailable := false }
  have he : w.refreshWork P T = (w.polled (w.poll T)).setServer fun _ =>
      s.chainTransportNext T := by
    unfold refreshWork
    dsimp only
    rw [hc]
    rfl
  have hs : s.work.IsCleared := StratumServer.isCleared_clearWork _
  have hclear : (s.chainTransportNext T).work.IsCleared
      ∧ (s.chainTransportNext T).clients
        = w.server.clients.map ClientSession.clearJob := by
    have hsc : s.clients = w.server.clients.map ClientSession.clearJob := rfl
    rcases (StratumServer.keepsJobs_next T s).2 with ⟨hw, hcl⟩ | ⟨hw, hcl⟩
    · exact ⟨hw ▸ hs, hcl.trans hsc⟩
    · refine ⟨hw, ?_⟩
      rw [hcl, hsc, List.map_map]
      rfl
  have hgone : (s.chainTransportNext T).chainAvailable = false := by
    unfold StratumServer.chainTransportNext StratumServer.chainTransportSelect
    split
    · rfl
    · dsimp only
      split <;> rfl
  rw [he]
  exact ⟨⟨hclear.1, hclear.2, rfl⟩, hgone,
    fun hne => StratumServer.offline_next s hne hr rfl rfl⟩

/-- **A poll that is refused or answered with nonsense** gives the work up. -/
theorem dropped_refreshWork (hok : (w.poll T).code ≠ .ok)
    (hunavailable : (w.poll T).code ≠ .unavailable)
    (htransport : (w.poll T).code ≠ .transport) :
    Dropped w (w.refreshWork P T) := by
  have he : w.refreshWork P T = (w.polled (w.poll T)).setServer fun s =>
      { s.clearWork with chainAvailable := true } := by
    unfold refreshWork
    dsimp only
    cases hc : (w.poll T).code with
    | ok => exact absurd hc hok
    | unavailable => exact absurd hc hunavailable
    | transport => exact absurd hc htransport
    | _ => rfl
  rw [he]
  exact ⟨⟨StratumServer.isCleared_clearWork _, rfl, rfl⟩, rfl, rfl⟩

/-! ## Offering the job -/

section Offer

variable {t : Bytes} {jobId : Buf 32} {c d : ConnId} {es fs : List Event}
  {s : ClientSession} {a b : Option ClientSession}

/-- More that is not a JOB for the connection makes no difference. -/
theorem Offered.mono (h : Offered t jobId d es a b)
    (hjobs : jobsOf d fs = jobsOf d es) (hsub : es ⊆ fs) :
    Offered t jobId d fs a b := by
  cases h with
  | kept hj => exact .kept (hjobs.trans hj)
  | sent hp hj => exact .sent hp (hjobs.trans hj)
  | removed hp hj he => exact .removed hp (hjobs.trans hj) (hsub he)

/-- **Whoever is sent the job** has it, or is removed. -/
theorem offered_clientSendJob (hs : w.client? d = some s)
    (hp : s.Pending w.server.work.jobId)
    (hwork : w.server.work.haveWork = true)
    (hi : w.server.work.IsInstalled) (hst : w.server.work.Stores t) :
    ∃ es, (w.clientSendJob P d).trace = w.trace ++ es
      ∧ Offered t w.server.work.jobId d es (some s)
        ((w.clientSendJob P d).client? d) := by
  obtain ⟨header, peers, hh, he⟩ := clientSendJob_cases P w d hwork hi
  have hjob : (header, slice w.server.work.template.bytes 68
      (w.server.work.templateLength - 68)) = jobOf t :=
    Prod.ext (hh.trans hst.headerBytes) hst.wholeBlock
  generalize slice w.server.work.template.bytes 68
    (w.server.work.templateLength - 68) = block at he hjob
  have hjobs : ∀ es, jobsOf d es = [] →
      jobsOf d ([.job d header block] ++ es) = [jobOf t] := fun es hes => by
    rw [jobsOf_append, hes, List.append_nil, ← hjob]
    exact List.filterMap_cons_some (if_pos rfl)
  generalize hw₁ : ({ w.emit (.job d header block) with peers := peers } :
    World τ) = w₁ at he
  have hs₁ : w₁.client? d = some s := by rw [← hw₁]; exact hs
  have ht₁ : w₁.trace = w.trace ++ [.job d header block] := by
    rw [← hw₁]
    rfl
  rcases he with he | he <;> rw [he]
  · rw [client?_clientRemove, if_pos rfl, clientRemove_of_some w₁ d _ hs₁]
    refine ⟨[.job d header block] ++ [.removed d .jobSendFailed
      (w₁.peers d).received.length], ?_, .removed hp (hjobs _ rfl)
      (List.mem_cons_of_mem _ List.mem_cons_self)⟩
    show w₁.trace ++ _ = _
    rw [ht₁, List.append_assoc]
  · rw [client?_setClient (f := fun s => { s with
      sentJobId := w.server.work.jobId, hasJob := true }) (fun _ => rfl),
      if_pos rfl, hs₁]
    exact ⟨[.job d header block], ht₁, .sent hp (hjobs [] rfl)⟩

/-- Whoever does not have it is sent it, and the others are left alone. -/
theorem offered_sendPendingJob (hwork : w.server.work.haveWork = true)
    (hi : w.server.work.IsInstalled) (hst : w.server.work.Stores t) :
    ∃ es, (w.sendPendingJob P d).trace = w.trace ++ es
      ∧ Offered t w.server.work.jobId d es (w.client? d)
        ((w.sendPendingJob P d).client? d) := by
  have hkeep : ∃ es, w.trace = w.trace ++ es
      ∧ Offered t w.server.work.jobId d es (w.client? d) (w.client? d) :=
    ⟨[], (List.append_nil _).symm, .kept rfl⟩
  unfold sendPendingJob
  cases hs : w.client? d with
  | none =>
    rw [hs] at hkeep
    simpa only [hs] using hkeep
  | some s =>
    dsimp only
    by_cases hp : s.Pending w.server.work.jobId
    · rw [if_pos ⟨hwork, hp⟩]
      exact offered_clientSendJob hs hp hwork hi hst
    · rw [if_neg fun h => hp h.2]
      simpa only [hs] using hkeep

/-- **The job is offered to one after the other**, and to nobody else. -/
theorem offered_sockets {cs : List ConnId} (hn : cs.Nodup)
    (hwork : w.server.work.haveWork = true)
    (hi : w.server.work.IsInstalled) (hst : w.server.work.Stores t) :
    ∃ es, (cs.foldl (fun w d => w.sendPendingJob P d) w).trace = w.trace ++ es
      ∧ ∀ c, Offered t w.server.work.jobId c es (w.client? c)
          ((cs.foldl (fun w d => w.sendPendingJob P d) w).client? c)
        ∧ (c ∉ cs → (cs.foldl (fun w d => w.sendPendingJob P d) w).client? c
            = w.client? c ∧ jobsOf c es = []) := by
  induction cs generalizing w with
  | nil => exact ⟨[], (List.append_nil _).symm, fun c => ⟨.kept rfl,
      fun _ => ⟨rfl, rfl⟩⟩⟩
  | cons d cs ih =>
    obtain ⟨hd, hn⟩ := List.nodup_cons.mp hn
    have ho := own_sendPendingJob P w d
    obtain ⟨es, ht, hoffer⟩ := offered_sendPendingJob (P := P) (d := d)
      hwork hi hst
    obtain ⟨fs, ht', hrest⟩ := ih (w := w.sendPendingJob P d) hn
      (by rw [ho.work, hwork]) (by rw [ho.work]; exact hi)
      (by rw [ho.work]; exact hst)
    rw [List.foldl_cons]
    refine ⟨es ++ fs, by rw [ht', ht, List.append_assoc], fun c => ?_⟩
    rw [ho.work] at hrest
    by_cases hc : c = d
    · subst hc
      -- its turn is now, and it does not come again
      obtain ⟨hsame, hnone⟩ := (hrest c).2 hd
      rw [hsame]
      refine ⟨hoffer.mono ?_ (List.subset_append_left _ _),
        fun hm => absurd List.mem_cons_self hm⟩
      rw [jobsOf_append, hnone, List.append_nil]
    · have hnone : jobsOf c es = [] := by
        obtain ⟨es', _, ha⟩ := answers_sendPendingJob (P := P) w d
        rw [List.append_cancel_left (ht.symm.trans ha.trace)]
        exact jobsOf_eq_nil (ha.not_about hc)
      obtain ⟨hoffer', hout⟩ := hrest c
      rw [ho.client? hc] at hoffer' hout
      refine ⟨hoffer'.mono ?_ (List.subset_append_right _ _), fun hm => ?_⟩
      · rw [jobsOf_append, hnone, List.nil_append]
      · obtain ⟨hsame, hnone'⟩ := hout fun h => hm (List.mem_cons_of_mem _ h)
        exact ⟨hsame, by rw [jobsOf_append, hnone, hnone', List.nil_append]⟩

end Offer

/-- **A poll that is answered** takes the template and offers the job. -/
theorem replaced_refreshWork (hn : w.sockets.Nodup)
    (hc : (w.poll T).code = .ok) :
    ∃ frame, Replaced w (w.refreshWork P T) frame := by
  obtain ⟨frame, w₁, hi, _, he⟩ := refreshWork_installs (P := P) hc
  have hactive := (active_refreshWork P
    (by rw [hc]; exact nofun : (w.poll T).code ≠ .transport)).2.1
  have hst := hi.stores
  have h236 := hi.template.length
  have hbase := hi.installed.base.trans (hst.slice_eq 0 32 (by omega))
  have hid := hi.installed.jobId.trans (hst.slice_eq 32 32 (by omega))
  have hcl : ∀ d, w₁.client? d = w.client? d := fun d => by
    unfold client?
    rw [hi.clients]
  refine ⟨frame, ?_⟩
  rcases he with he | ⟨he, _⟩
  · have hq := quiet_sendPendingJobs P w₁
    have hn₁ : w₁.sockets.Nodup := by
      unfold sockets
      rw [hi.clients]
      exact hn
    obtain ⟨es, ht, hoffer⟩ := offered_sockets (P := P) hn₁ hi.haveWork
      hi.installed hst
    rw [← he] at hq
    refine ⟨hi.answer, by rw [hq.work]; exact hi.haveWork,
      by rw [hq.work]; exact hst, by rw [hq.work]; exact hbase,
      by rw [hq.work]; exact hid, by rw [hq.server]; exact hi.available,
      hactive, es, ?_, fun d => ?_⟩
    · rw [he]
      refine ht.trans ?_
      rw [hi.trace, List.append_assoc]
      rfl
    · rw [hq.work, ← hcl d, he]
      exact (hoffer d).1
  · rw [he] at hactive ⊢
    refine ⟨hi.answer, hi.haveWork, hst, hbase, hid, hi.available, hactive,
      [], hi.trace, fun d => ?_⟩
    rw [hcl d]
    exact .kept rfl

end World

/-! ## Every poll -/

/-- **What a poll does is decided by the outcome of its call.** In every state
that can be, `refresh_work` keeps everything where the outcome is UNAVAILABLE
or CAPACITY, be it a reply or a lack of memory. It takes the reply for the
whole active work where the outcome is OK. It gives the work up and turns to
the next Chain where the call is lost, and gives it up and stays on every
other code, which a malformed reply ends in too. -/
theorem poll_outcome (T : ChainTransport τ) {w : World τ}
    (h : (turns .linux T).Reachable w) :
    World.PollOutcome T w (w.refreshWork .linux T) (w.outcome T)
      ∧ ∀ request frame, (w.poll T).exchanged = some (request, some frame) →
        ¬ Rpc.IsAnswer Rpc.miningTemplate w.server.chainRpc.requestId.toNat
          frame →
        ¬ Rpc.IsRefusal Rpc.miningTemplate w.server.chainRpc.requestId.toNat
          frame →
        w.outcome T = .invalid := by
  refine ⟨?_, fun request frame hx ha hr =>
    World.outcome_of_malformed hx ha hr⟩
  have hcode := w.poll_code T
  unfold World.PollOutcome
  split
  next ho =>
    rw [ho, if_neg (by decide)] at hcode
    exact World.retained_refreshWork hcode
  next ho =>
    rw [ho, if_pos rfl] at hcode
    exact World.retained_refreshWork hcode
  next ho =>
    rw [ho, if_neg (by decide)] at hcode
    exact World.replaced_refreshWork (counted_of_turns h).nodup hcode
  next ho =>
    rw [ho, if_neg (by decide)] at hcode
    exact World.lost_refreshWork (inRange_of_turns h) hcode
  next hunavailable hcapacity hok htransport =>
    rw [if_neg hcapacity] at hcode
    exact World.dropped_refreshWork (hcode ▸ hok) (hcode ▸ hunavailable)
      (hcode ▸ htransport)

/-- **A response frame** that says a code other than success. -/
def Rpc.refusalFrame (method id code : ℕ) : Bytes :=
  magic ++ writeBE 2 version ++ writeBE 2 2 ++ writeBE 2 method
    ++ writeBE 2 code ++ writeBE 8 id ++ writeBE 4 0

/-- **A Chain without room**: it answers a first poll with a template and a
second with CAPACITY. -/
def crowded : World RpcLinux :=
  boot RpcLinux.transport
    { host := none
      port := 0
      socket := none
      tries := [⟨some [.connected [] (unread (Rpc.answerFrame
        Rpc.miningTemplate 1 (Rpc.mineableTemplate easyTarget 0))
        (unread (Rpc.refusalFrame Rpc.miningTemplate 2 9) [.closed]))], true⟩]
      opened := 0
      log := [] }
    (fun _ => []) fun _ => []

set_option maxRecDepth 100000 in
/-- There the server keeps the work it has. -/
theorem poll_outcome_crowded :
    let w := (turns .linux RpcLinux.transport).act crowded .refresh
    w.server.work.haveWork = true
      ∧ w.outcome RpcLinux.transport = .capacity
      ∧ World.Retained w (w.refreshWork .linux RpcLinux.transport) := by
  intro w
  have hw : (turns .linux RpcLinux.transport).Reachable w :=
    (Machine.Reachable.start (startup_boot ..)).act ServerAction.refresh
  obtain ⟨hwork, hout⟩ : w.server.work.haveWork = true
      ∧ w.outcome RpcLinux.transport = .capacity := by decide +kernel
  clear_value w
  have := (poll_outcome RpcLinux.transport hw).1
  rw [hout] at this
  exact ⟨hwork, hout, this⟩
