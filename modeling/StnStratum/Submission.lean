import StnStratum.Session
import StnStratum.ShareVerify

/-!
# Submissions

`process_submission` is where a miner's proof meets Chain. It first decides
by itself: whether the miner may submit, whether the job is the active one,
whether the template is in order, and what the proof is worth. That part is
`submissionVerdict`, a function of the work and the session. What is worth
something goes to Chain, a share with its own short payload and a block with
the whole template, and what Chain says goes to the miner and decides what
becomes of the work.

The two platforms agree up to the answer and part behind it: the Linux branch
clears the work on most codes, the Windows branch leaves it to the next poll.
-/

variable {τ : Type}

/-! ## Clearing the work, choosing an endpoint -/

namespace StratumServer

/-- `clear_client_jobs`. -/
def clearClientJobs (s : StratumServer τ) : StratumServer τ :=
  { s with clients := s.clients.map ClientSession.clearJob }

/-- **`clear_work`**: no work, and no session has a job. The bytes of the
template stay. -/
def clearWork (s : StratumServer τ) : StratumServer τ :=
  let s := { s with work := { s.work with
    base := Buf.zero _
    jobId := Buf.zero _
    templateLength := 0
    haveWork := false
    fits := Nat.zero_le _ } }
  s.clearClientJobs

/-- `active_chain`. -/
def activeChain (s : StratumServer τ) : Option ChainConfigEntry :=
  s.chainServers[s.activeChainServer]?

/-- **`chain_transport_select`**: the work is cleared, and the transport and
the client begin anew at another endpoint. -/
def chainTransportSelect (T : ChainTransport τ) (s : StratumServer τ)
    (index : ℕ) : StratumServer τ :=
  match s.chainServers[index]? with
  | none => s
  | some entry =>
    let s := { s.clearWork with chainAvailable := false }
    let transport := T.close s.chainTransport
    { s with
      activeChainServer := index
      chainTransport := T.init transport entry.host entry.port
      chainRpc := RpcClient.init }

/-- **`chain_transport_next`**: the endpoint behind the active one, and the
first behind the last. -/
def chainTransportNext (T : ChainTransport τ) (s : StratumServer τ) :
    StratumServer τ :=
  if s.chainServers.length = 0 then s
  else
    let next := s.activeChainServer + 1
    let next := if s.chainServers.length ≤ next then 0 else next
    s.chainTransportSelect T next

/-- Turning to the next Chain keeps the configuration. -/
theorem chainServers_next (T : ChainTransport τ) (s : StratumServer τ) :
    (s.chainTransportNext T).chainServers = s.chainServers := by
  unfold chainTransportNext chainTransportSelect
  split
  · rfl
  · dsimp only
    split <;> rfl

/-- Work that is cleared stays as it is when it is cleared again. -/
theorem clearWork_clearWork (s : StratumServer τ) :
    s.clearWork.clearWork = s.clearWork := by
  have h : (s.clients.map ClientSession.clearJob).map ClientSession.clearJob
      = s.clients.map ClientSession.clearJob := List.map_map ..
  show { s.clearWork with
    clients := (s.clients.map ClientSession.clearJob).map
      ClientSession.clearJob } = _
  rw [h]
  rfl

/-- **Going on to the next endpoint**, where there is one: the work is
cleared, and the transport and the client begin anew. -/
theorem chainTransportNext_eq (T : ChainTransport τ) (s : StratumServer τ)
    (h : s.chainServers ≠ []) :
    ∃ entry, s.chainServers[if s.chainServers.length ≤ s.activeChainServer + 1
        then 0 else s.activeChainServer + 1]? = some entry
      ∧ s.chainTransportNext T = { s.clearWork with
        chainAvailable := false
        activeChainServer := if s.chainServers.length
          ≤ s.activeChainServer + 1 then 0 else s.activeChainServer + 1
        chainTransport := T.init (T.close s.chainTransport) entry.host
          entry.port
        chainRpc := RpcClient.init } := by
  have hlen : s.chainServers.length ≠ 0 := mt List.eq_nil_of_length_eq_zero h
  have hlt : (if s.chainServers.length ≤ s.activeChainServer + 1 then 0
      else s.activeChainServer + 1) < s.chainServers.length := by
    split <;> omega
  unfold chainTransportNext
  rw [if_neg hlen]
  dsimp only
  unfold chainTransportSelect
  rw [List.getElem?_eq_getElem hlt]
  exact ⟨_, rfl, rfl⟩

end StratumServer

/-! ## Frames for the miner -/

/-- **`submit_result_code`.** -/
def submitResultCode : RpcCode → ℕ
  | .ok => Miner.resultAccepted
  | .stale => Miner.resultStale
  | .rejected => Miner.resultRejected
  | .invalid => Miner.resultProtocol
  | .versionError => Miner.resultProtocol
  | _ => Miner.resultProvider

/-- The stores that make a RESULT. -/
def resultFrame (code : ℕ) : Buf Miner.resultSize :=
  let response := Buf.zero Miner.resultSize
  let response := response.write 0 Miner.magic
  let response := response.write 4 [Miner.version]
  let response := response.write 5 [Miner.result]
  response.write 8 (writeBE 4 code)

/-- **A RESULT**: the header and the code. -/
theorem resultFrame_bytes (code : ℕ) :
    (resultFrame code).bytes
      = Miner.magic ++ [Miner.version, Miner.result, 0, 0]
        ++ writeBE 4 code := by
  have b₀ : ((((Buf.zero Miner.resultSize).write 0 Miner.magic).write 4
      [Miner.version]).write 5 [Miner.result]).Begins
        (Miner.magic ++ [Miner.version, Miner.result, 0, 0]) := by
    unfold Buf.Begins
    decide
  have b₁ := b₀.write (i := 8) (s := writeBE 4 code) rfl
    (by rw [length_writeBE])
  refine b₁.bytes_eq ?_
  rw [List.length_append, length_writeBE]
  rfl

namespace World

/-- **`client_send_result`.** -/
def clientSendResult (P : Platform) (w : World τ) (c : ConnId)
    (rpcCode : RpcCode) : World τ :=
  let response := (resultFrame (submitResultCode rpcCode)).bytes
  let w := w.emit (.result c (submitResultCode rpcCode))
  let sent := (w.sending P c response).ok
  let w := w.send P c response
  if sent = false then w.clientRemove c .resultSendFailed else w

/-- **`client_send_job`**: the header and then the block, if there is work
and a header can be built for it. -/
def clientSendJob (P : Platform) (w : World τ) (c : ConnId) : World τ :=
  if w.server.work.haveWork = false then w
  else
    match minerJobBuild w.server.work.template.bytes
        w.server.work.templateLength with
    | none => w
    | some (header, blockLength) =>
      let block := slice w.server.work.template.bytes 68 blockLength
      let w := w.emit (.job c header.bytes block)
      let headerSent := (w.sending P c header.bytes).ok
      let w := w.send P c header.bytes
      if headerSent = false then w.clientRemove c .jobSendFailed
      else
        let blockSent := (w.sending P c block).ok
        let w := w.send P c block
        if blockSent = false then w.clientRemove c .jobSendFailed
        else
          w.setClient c fun s => { s with
            sentJobId := w.server.work.jobId
            hasJob := true }

end World

/-! ## The verdict on a submission -/

/-- **What becomes of a submission**, before Chain is asked. -/
inductive Verdict where
  /-- The miner has not given its address: the session ends. -/
  | unregistered
  /-- A RESULT with this code. -/
  | refused (code : RpcCode)
  /-- A share with this nonce goes to Chain. -/
  | share (nonce : ℕ)
  /-- A block with this nonce goes to Chain. -/
  | work (nonce : ℕ)
  deriving DecidableEq

namespace ActiveWork

/-- The block of the template. -/
def block (work : ActiveWork) : Bytes := work.template.bytes.drop 68

/-- The chain target of the template. -/
def chainTarget (work : ActiveWork) : Bytes :=
  slice work.template.bytes (68 + Miner.chainTargetOffset) 32

/-- The block length the template gives. -/
def blockLength (work : ActiveWork) : ℕ :=
  readBE (slice work.template.bytes 64 4)

end ActiveWork

/-- **The checks of `process_submission`**, in its order. -/
def submissionVerdict (work : ActiveWork) (client : ClientSession) : Verdict :=
  let p := client.rx.bytes
  if client.addressRegistered = false then .unregistered
  else if (Miner.headerValid p && p.getD 5 0 == Miner.submit) = false then
    .refused .invalid
  else if work.haveWork = false ∨ slice p 8 32 ≠ work.jobId.bytes then
    .refused .stale
  else if work.templateLength < 68 then .refused .invalid
  else if work.blockLength ≠ work.templateLength - 68
      ∨ work.blockLength < Miner.chainHeaderSize then .refused .invalid
  else
    let nonce := readBE (slice p 40 8)
    match Server.shareTargetFromChain work.chainTarget with
    | none => .refused .invalid
    | some shareTarget =>
      match (ShareVerify.shareClassify work.block work.blockLength nonce
          shareTarget work.chainTarget).1 with
      | .invalid => .refused .rejected
      | .qualifying => .share nonce
      | .block => .work nonce

/-- The checks refuse with codes that say so. -/
theorem submissionVerdict_ne_refused_ok {work : ActiveWork}
    {client : ClientSession} :
    submissionVerdict work client ≠ .refused .ok := by
  unfold submissionVerdict
  dsimp only
  split_ifs
  case neg =>
    split
    · rintro ⟨⟩
    · split <;> rintro ⟨⟩
  all_goals rintro ⟨⟩

/-! ## What goes to Chain -/

/-- **The payload of a share**, stored into an array nobody initialised: the
work ID, the address, the nonce and the header of the block. -/
def sharePayload (payload : Buf Rpc.shareSize) (work : ActiveWork)
    (client : ClientSession) (nonce : ℕ) : Buf Rpc.shareSize :=
  let payload := payload.write 0 work.jobId.bytes
  let payload := payload.write 32 client.identity
  let payload := payload.storeBE 101 8 nonce
  payload.write Rpc.sharePrefixSize
    (slice work.template.bytes 68 Miner.chainHeaderSize)

/-- **The payload of a block**, stored into the memory allocated for it: the
prefix of the template, the address, the block, and the nonce over the
block's. -/
def workPayload {n : ℕ} (payload : Buf n) (work : ActiveWork)
    (client : ClientSession) (nonce : ℕ) : Buf n :=
  let payload := payload.write 0 (slice work.template.bytes 0 68)
  let payload := payload.write 68 client.identity
  let payload := payload.write (68 + Miner.addressLength)
    (slice work.template.bytes 68 (work.templateLength - 68))
  payload.storeBE (68 + Miner.addressLength + Miner.chainNonceOffset) 8 nonce

namespace World

/-- A world in which a call has been made: the transport, the client and the
heap are as the call left them, and the exchange is on the trace. -/
def called {capacity : ℕ} (w : World τ) (r : Rpc.Call τ capacity) : World τ :=
  { w with
    server := { w.server with
      chainTransport := r.transport
      chainRpc := r.client }
    heap := r.heap
    trace := w.trace ++ (r.exchanged.map fun e => Event.exchange e.1 e.2).toList }

/-- A change of the server. -/
def setServer (w : World τ) (f : StratumServer τ → StratumServer τ) :
    World τ :=
  { w with server := f w.server }

/-- The codes after which a share's work is cleared. -/
def shareClears (code : RpcCode) : Bool :=
  code == .stale || code == .transport || code == .unavailable
    || code == .provider || code == .invalid

/-- **The share branch of `process_submission`.** -/
def submitShare (P : Platform) (T : ChainTransport τ) (w : World τ)
    (c : ConnId) (client : ClientSession) (nonce : ℕ) : World τ :=
  let payload := sharePayload (w.heap.uninit _) w.server.work client nonce
  let r := Rpc.callSubmitShare T w.server.chainTransport w.server.chainRpc
    w.heap payload.bytes (w.heap.uninit 32)
  let w := w.called r
  let w := w.clientSendResult P c r.code
  if shareClears r.code = true then w.setServer StratumServer.clearWork else w

/-- What becomes of the work once Chain has answered a block, on either
platform. -/
def settleWork (P : Platform) (code : RpcCode) (s : StratumServer τ) :
    StratumServer τ :=
  match P with
  | .linux =>
    if code = .ok ∨ code = .stale ∨ code = .transport ∨ code = .unavailable
        ∨ code = .provider ∨ code = .invalid then s.clearWork else s
  | .windows =>
    if code = .transport then { s with chainAvailable := false } else s

/-- Settling the work is no affair of the endpoint. -/
theorem settleWork_endpoint (P : Platform) (code : RpcCode)
    (s : StratumServer τ) :
    (settleWork P code s).chainServers = s.chainServers
      ∧ (settleWork P code s).activeChainServer = s.activeChainServer
      ∧ (settleWork P code s).chainTransport = s.chainTransport := by
  unfold settleWork
  cases P <;> dsimp only <;> split <;> exact ⟨rfl, rfl, rfl⟩

/-- What `process_submission` does behind the RESULT for a block: it settles
the work, and goes on to the next Chain where this one cannot be reached. -/
def afterWork (P : Platform) (T : ChainTransport τ) (code : RpcCode)
    (s : StratumServer τ) : StratumServer τ :=
  let s := settleWork P code s
  if code = .transport ∨ code = .unavailable then s.chainTransportNext T else s

/-- **The block branch of `process_submission`.** -/
def submitWork (P : Platform) (T : ChainTransport τ) (w : World τ)
    (c : ConnId) (client : ClientSession) (nonce : ℕ) : World τ :=
  let memory := w.heap.malloc
    (w.server.work.templateLength + Miner.addressLength)
  match memory.1 with
  | none => { w with heap := memory.2 }.clientSendResult P c .provider
  | some payload =>
    let payload := workPayload payload w.server.work client nonce
    let r := Rpc.callSubmitWork T w.server.chainTransport w.server.chainRpc
      memory.2 payload.bytes (memory.2.uninit 80)
    let w := w.called r
    let w := w.clientSendResult P c r.code
    w.setServer (afterWork P T r.code)

/-- **`process_submission`.** -/
def processSubmission (P : Platform) (T : ChainTransport τ) (w : World τ)
    (c : ConnId) : World τ :=
  match w.client? c with
  | none => w
  | some client =>
    match submissionVerdict w.server.work client with
    | .unregistered => w.clientRemove c .addressRequired
    | .refused code => w.clientSendResult P c code
    | .share nonce => w.submitShare P T c client nonce
    | .work nonce => w.submitWork P T c client nonce

end World
