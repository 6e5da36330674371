import StnStratum.Service

/-!
# A Chain that answers

The theorems about the server hold for every Chain, also for one that never
answers, and some of them say little then. `replay` is a Chain that answers
each request with the next payload of a list, `boot` is a server that starts,
and `mineableTemplate` is a template for a given chain target. With them a
theorem can be applied where something happens: a poll of a server that
starts on such a Chain installs the template (`poll_replay`).
-/

namespace Rpc

/-! ## Answering -/

/-- **A response frame** that says success. -/
def answerFrame (method id : ℕ) (payload : Bytes) : Bytes :=
  magic ++ writeBE 2 version ++ writeBE 2 2 ++ writeBE 2 method
    ++ writeBE 2 0 ++ writeBE 8 id ++ writeBE 4 payload.length ++ payload

section Answer

variable (method id : ℕ) (payload : Bytes)

theorem length_answerFrame :
    (answerFrame method id payload).length = 24 + payload.length := by
  unfold answerFrame
  simp only [List.length_append, length_writeBE]
  rfl

/-- The fields of the header do not depend on the payload. -/
theorem slice_answerFrame {off len : ℕ} (h : off + len ≤ 24) :
    slice (answerFrame method id payload) off len
      = slice (magic ++ writeBE 2 version ++ writeBE 2 2 ++ writeBE 2 method
        ++ writeBE 2 0 ++ writeBE 8 id ++ writeBE 4 payload.length) off len :=
  slice_append_left h

theorem payloadOf_answerFrame :
    payloadOf (answerFrame method id payload) = payload :=
  List.drop_left' rfl

variable {method id payload}

/-- **A response frame is an answer**, if the method's payload rule does not
refuse it. -/
theorem isAnswer_answerFrame (hm : method < 65536) (hid : id < 2 ^ 64)
    (hl : payload.length < 2 ^ 32)
    (hp : refusesPayload method (answerFrame method id payload)
      payload.length = false) :
    IsAnswer method id (answerFrame method id payload) where
  header := by rw [length_answerFrame]; omega
  magic := slice_answerFrame method id payload (by decide)
  version := by rw [slice_answerFrame method id payload (by decide)]; rfl
  kind := by rw [slice_answerFrame method id payload (by decide)]; rfl
  method_eq := by
    rw [methodOf, slice_answerFrame method id payload (by decide)]
    exact readBE_writeBE (n := 2) hm
  code := by rw [slice_answerFrame method id payload (by decide)]; rfl
  id_eq := by
    rw [requestIdOf, slice_answerFrame method id payload (by decide)]
    exact readBE_writeBE (n := 8) hid
  length := by
    rw [slice_answerFrame method id payload (by decide),
      payloadOf_answerFrame]
    exact readBE_writeBE (n := 4) hl
  payload := by rw [payloadOf_answerFrame]; exact hp

end Answer

/-- **A Chain that answers** each request with the next payload of a list. -/
def replay : ChainTransport (List Bytes) where
  init payloads _ _ := payloads
  close payloads := payloads
  exchange payloads request response :=
    match payloads with
    | [] => ([], ⟨false, response, 0⟩)
    | p :: rest => (rest, ⟨true, response.write 0
        (answerFrame (methodOf request) (requestIdOf request) p),
        24 + p.length⟩)

/-- **A call to a Chain that answers succeeds**, if the answer fits the buffer
and the method's payload rule does not refuse it. -/
theorem call_replay {p : Bytes} {rest : List Bytes} {client : RpcClient}
    {heap : Heap} {method : ℕ} {payload : Bytes} {capacity : ℕ}
    {buffer : Buf capacity} (hg : heap.Generous) (hm : method < 65536)
    (hpay : payload.length ≤ maxPayload) (hcap : capacity ≤ maxPayload)
    (hle : p.length ≤ capacity)
    (hp : refusesPayload method
      (answerFrame method client.requestId.toNat p) p.length = false) :
    (call replay (p :: rest) client heap method payload (some buffer)).code
        = .ok
      ∧ (call replay (p :: rest) client heap method payload
          (some buffer)).exchanged
        = some (requestFrame method client.requestId.toNat payload,
            some (answerFrame method client.requestId.toNat p)) := by
  obtain ⟨b, r, heap', hcall⟩ := call_of_generous replay (p :: rest) client
    method (some buffer) hpay hcap hg
  have hid : client.requestId.toNat < 2 ^ 64 := client.requestId.toNat_lt
  have hlen := length_answerFrame method client.requestId.toNat p
  have htake : ((r.write 0 (answerFrame method client.requestId.toNat
      p)).bytes.take (24 + p.length))
      = answerFrame method client.requestId.toNat p := by
    have := @Buf.take_write _ r 0
      (answerFrame method client.requestId.toNat p) (by rw [hlen]; omega)
    rw [Nat.zero_add, List.take_zero, List.nil_append, hlen] at this
    exact this
  have hmax : p.length < 2 ^ 32 := lt_of_le_of_lt (hle.trans hcap) (by decide)
  have ha := isAnswer_answerFrame hm hid hmax hp
  rw [hcall]
  have h := @exchangeWith_of_answer _ replay (p :: rest) client heap' method
    payload _ b r buffer _ rfl rfl
    (Nat.add_le_add_left hle 24) (by
      show IsAnswer _ _ ((r.write 0 (answerFrame (methodOf _)
        (requestIdOf _) p)).bytes.take (24 + p.length))
      rw [methodOf_requestFrame _ _ _ hm, requestIdOf_requestFrame _ _ _ hid,
        htake]
      exact ha)
  refine ⟨h.1, h.2.trans ?_⟩
  show some (_, some ((r.write 0 (answerFrame (methodOf _)
    (requestIdOf _) p)).bytes.take (24 + p.length))) = _
  rw [methodOf_requestFrame _ _ _ hm, requestIdOf_requestFrame _ _ _ hid,
    htake]

/-! ## Templates -/

/-- The first 236 bytes of a template with a chain target, for a block with
`tail` bytes behind its header. -/
def templateFront (target : Bytes) (tail : ℕ) : Bytes :=
  List.replicate 64 0 ++ writeBE 4 (168 + tail) ++ blockMagic ++ [0, 3]
    ++ List.replicate 114 0 ++ target ++ List.replicate 16 0

/-- **A template** with a chain target and a block with `tail` bytes behind its
header. All the other fields are zero. -/
def mineableTemplate (target : Bytes) (tail : ℕ) : Bytes :=
  templateFront target tail ++ List.replicate tail 0

variable {target : Bytes} {tail : ℕ}

theorem length_templateFront (h : target.length = 32) :
    (templateFront target tail).length = 236 := by
  unfold templateFront
  simp only [List.length_append, length_writeBE, List.length_replicate, h]
  rfl

theorem length_mineableTemplate (h : target.length = 32) :
    (mineableTemplate target tail).length = 236 + tail := by
  rw [mineableTemplate, List.length_append, length_templateFront h,
    List.length_replicate]

/-- The fields in front are those of every tail. -/
theorem slice_mineableTemplate (h : target.length = 32) {off len : ℕ}
    (hl : off + len ≤ 236) :
    slice (mineableTemplate target tail) off len
      = slice (templateFront target tail) off len :=
  slice_append_left (by rw [length_templateFront h]; exact hl)

/-- **It can be mined**, as far as the length fits its field. -/
theorem isTemplate_mineableTemplate (h : target.length = 32)
    (hl : 168 + tail < 2 ^ 32) : IsTemplate (mineableTemplate target tail) where
  length := by rw [length_mineableTemplate h]; omega
  blockLength := by
    rw [slice_mineableTemplate h (by decide), length_mineableTemplate h]
    refine (readBE_writeBE (n := 4) hl).trans ?_
    omega
  magic := by rw [slice_mineableTemplate h (by decide)]; rfl
  version := by rw [slice_mineableTemplate h (by decide)]; rfl

/-- Its chain target. -/
theorem target_mineableTemplate (h : target.length = 32) :
    slice (mineableTemplate target tail) (68 + Miner.chainTargetOffset) 32
      = target := by
  rw [slice_mineableTemplate h (by decide)]
  have := slice_append_right (List.replicate 64 0 ++ writeBE 4 (168 + tail)
    ++ blockMagic ++ [0, 3] ++ List.replicate 114 0)
    (target ++ List.replicate 16 0) 0 32
  rw [slice_append_self h] at this
  refine Eq.trans ?_ this
  unfold templateFront
  simp only [List.append_assoc, List.length_append, length_writeBE,
    List.length_replicate]
  rfl

end Rpc

/-! ## A server that starts -/

variable {τ : Type}

/-- **A server that starts**: one Chain server, no history, and memory for
everything. -/
def boot (T : ChainTransport τ) (transport : τ)
    (inbox : ConnId → List RecvOutcome)
    (backlog : ServiceMode → List AcceptOutcome) : World τ where
  server := StratumServer.chainTransportSelect T
    { chainServers := [⟨[], 0⟩]
      activeChainServer := 0
      chainTransport := transport
      chainRpc := ⟨0⟩
      work := ⟨Buf.zero _, Buf.zero _, Buf.zero _, 0, false, Nat.zero_le _⟩
      clients := []
      clientCount := 0
      running := true
      chainAvailable := false
      loopCount := 0 } 0
  peers c := ⟨inbox c, [], [], [], []⟩
  heap := ⟨[], fun _ => 0⟩
  nextConn := 0
  backlog := backlog
  trace := []

theorem startup_boot (T : ChainTransport τ) (transport : τ)
    (inbox : ConnId → List RecvOutcome)
    (backlog : ServiceMode → List AcceptOutcome) :
    Startup T (boot T transport inbox backlog) :=
  ⟨⟨_, _, _, rfl⟩, rfl, fun _ => ⟨rfl, rfl, rfl⟩, rfl⟩

/-- **A poll of a Chain that answers with a template** succeeds. -/
theorem poll_replay {w : World (List Bytes)} {t : Bytes} {rest : List Bytes}
    (hT : w.server.chainTransport = t :: rest) (hg : w.heap.Generous)
    (ht : Rpc.IsTemplate t) (hle : t.length ≤ Rpc.maxPayload) :
    (w.poll Rpc.replay).code = .ok
      ∧ (w.poll Rpc.replay).exchanged
        = some (Rpc.requestFrame Rpc.miningTemplate
            w.server.chainRpc.requestId.toNat [],
          some (Rpc.answerFrame Rpc.miningTemplate
            w.server.chainRpc.requestId.toNat t)) := by
  have hp : Rpc.refusesPayload Rpc.miningTemplate (Rpc.answerFrame
      Rpc.miningTemplate w.server.chainRpc.requestId.toNat t) t.length
      = false := by
    have := (Rpc.refusesPayload_template_iff (Rpc.answerFrame
      Rpc.miningTemplate w.server.chainRpc.requestId.toNat t)).mpr
    rw [Rpc.payloadOf_answerFrame] at this
    exact this ht
  obtain ⟨hc, hx⟩ := @Rpc.call_replay t rest w.server.chainRpc w.heap
    Rpc.miningTemplate [] _ w.server.work.template hg (by decide)
    (Nat.zero_le _) le_rfl hle hp
  unfold World.poll Rpc.callMiningTemplate
  rw [hT]
  dsimp only
  rw [hc]
  exact ⟨rfl, hx⟩

/-! ## A miner and its Chain -/

/-- The chain target `2^255 - 1`. -/
def easyTarget : Bytes := 0x7f :: List.replicate 31 0xff

/-- An ADDRESS. -/
def addressFrame : Bytes :=
  Miner.magic ++ [Miner.version, Miner.address, 0, 0] ++ addressPrefix
    ++ List.replicate 64 0x30

/-- A SUBMIT for the work ID zero with the nonce zero. -/
def submitFrame : Bytes :=
  Miner.magic ++ [Miner.version, Miner.submit, 0, 0] ++ List.replicate 40 0

/-- **A server that starts** on a Chain with a template of `236 + tail` bytes
and the chain target `2^255 - 1`, which will then accept a block. A miner
waits at the pool's listener. It will send its ADDRESS and, when it is served
again, a SUBMIT that meets the chain target. -/
def rehearsal (tail : ℕ) : World (List Bytes) :=
  boot Rpc.replay
    [Rpc.mineableTemplate easyTarget tail, List.replicate 80 0]
    (fun c => if c = 0 then
      unread addressFrame (.wouldBlock :: unread submitFrame []) else [])
    fun _ => [.session]

/-- **The whole of it**: the miner registers, the template is installed and
sent as a job, and the miner solves it. -/
def performance : List ServerAction :=
  [.accept .pool, .service 0, .refresh, .service 0]

theorem startup_rehearsal (tail : ℕ) : Startup Rpc.replay (rehearsal tail) :=
  startup_boot ..

/-- Every state of it is reachable. -/
theorem reachable_rehearsal (tail : ℕ) (as : List ServerAction) :
    (stratum .linux Rpc.replay).Reachable
      ((stratum .linux Rpc.replay).run (rehearsal tail) as) :=
  ⟨_, as, startup_rehearsal tail, rfl⟩

/-- This miner's session when its SUBMIT has been received. -/
def solver : ClientSession :=
  { ClientSession.init 0 .pool with
    rx := (Buf.zero _).write 0 submitFrame
    rxUsed := Miner.submitSize
    address := (Buf.zero _).write 0 (slice addressFrame 8 69)
    addressRegistered := true }

/-- A server with this miner as its only one, and memory for everything. -/
def withSolver (w : World τ) : World τ :=
  { w with
    server := { w.server with clients := [solver] }
    heap := ⟨[], fun _ => 0⟩ }

/-- **A server that has installed the template**, with a miner that has solved
it. -/
def solved (tail : ℕ) : World (List Bytes) :=
  withSolver ((rehearsal tail).refreshWork .linux Rpc.replay)
