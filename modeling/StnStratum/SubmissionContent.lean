import StnStratum.Acceptance

/-!
# What a submission contains

A share goes to Chain as a work ID, an address, a nonce and a header, and a
block as the prefix of its template, an address and the block with the nonce
in it. Both payloads are put together from offsets added by hand, in memory
nobody initialised, and three loops store the nonce at three places. The
theorems say that the pieces tile the payload whatever the memory held, and
that the header Chain will find in it is the one the server has hashed.
-/

variable {τ : Type}

/-! ## The nonce in a block -/

/-- **A block with another nonce**: bytes 152 to 159 are its big-endian
digits, the others stay. -/
def withNonce (block : Bytes) (nonce : ℕ) : Bytes :=
  block.take Miner.chainNonceOffset ++ writeBE 8 nonce
    ++ block.drop (Miner.chainNonceOffset + 8)

/-- **The header the server hashes** is that of the block with the nonce. -/
theorem header_eq_withNonce {block : Bytes} (h : 168 ≤ block.length)
    (nonce : ℕ) : (ShareVerify.header block nonce).bytes
      = withNonce (block.take 168) nonce := by
  rw [ShareVerify.header_bytes h, withNonce, List.take_take]
  congr 1
  rw [slice, List.drop_take]
  rfl

/-- The front of a block with a nonce is the front with the nonce. -/
theorem take_withNonce {block : Bytes} (h : 168 ≤ block.length) (nonce : ℕ) :
    (withNonce block nonce).take 168 = withNonce (block.take 168) nonce := by
  have ht : (block.take 152 ++ writeBE 8 nonce).length = 160 := by
    rw [List.length_append, List.length_take, length_writeBE]
    omega
  show (block.take 152 ++ writeBE 8 nonce ++ block.drop 160).take 168
    = (block.take 168).take 152 ++ writeBE 8 nonce
      ++ (block.take 168).drop 160
  rw [List.take_append, List.take_of_length_le (by rw [ht]; decide), ht,
    List.take_take, List.drop_take]
  rfl

/-! ## The two payloads -/

@[simp] theorem ClientSession.length_identity (s : ClientSession) :
    s.identity.length = 69 :=
  length_slice (by rw [s.address.size]; decide)

namespace ActiveWork

/-- The block as far as the template goes. -/
def wholeBlock (work : ActiveWork) : Bytes :=
  slice work.template.bytes 68 (work.templateLength - 68)

variable {work : ActiveWork}

theorem length_wholeBlock (h : 68 ≤ work.templateLength) :
    work.wholeBlock.length = work.templateLength - 68 := by
  refine length_slice ?_
  rw [work.template.size]
  have := work.fits
  omega

/-- The header of the block is read from the template. -/
theorem take_wholeBlock (h : 236 ≤ work.templateLength) :
    work.wholeBlock.take 168 = slice work.template.bytes 68 168 := by
  rw [wholeBlock, slice, slice, List.take_take, Nat.min_eq_left (by omega)]

/-- The header that is hashed is that of the whole block. -/
theorem header_block (h : 236 ≤ work.templateLength) (nonce : ℕ) :
    (ShareVerify.header work.block nonce).bytes
      = withNonce (work.wholeBlock.take 168) nonce := by
  have hl : 168 ≤ work.block.length := by
    rw [block, List.length_drop, work.template.size]
    decide
  rw [header_eq_withNonce hl, take_wholeBlock h]
  rfl

end ActiveWork

/-- **The payload of a share**: four fields that tile it, whatever the array
held. -/
theorem sharePayload_bytes (payload : Buf Rpc.shareSize) (work : ActiveWork)
    (client : ClientSession) (nonce : ℕ) :
    (sharePayload payload work client nonce).bytes
      = work.jobId.bytes ++ client.identity ++ writeBE 8 nonce
        ++ slice work.template.bytes 68 168 := by
  have l₁ : work.jobId.bytes.length = 32 := work.jobId.size
  have l₂ := client.length_identity
  have l₃ := length_writeBE 8 nonce
  have l₄ : (slice work.template.bytes 68 168).length = 168 :=
    length_slice (by rw [work.template.size]; decide)
  unfold sharePayload
  dsimp only
  rw [Buf.storeBE_eq_write (by decide)]
  have b₁ := (payload.begins_nil).write (i := 0) (s := work.jobId.bytes) rfl
    (by rw [l₁]; decide)
  have b₂ := b₁.write (i := 32) (s := client.identity)
    (by rw [List.nil_append, l₁]) (by rw [l₂]; decide)
  have b₃ := b₂.write (i := 101) (s := writeBE 8 nonce)
    (by rw [List.nil_append, List.length_append, l₁, l₂])
    (by rw [l₃]; decide)
  have b₄ := b₃.write (i := Rpc.sharePrefixSize)
    (s := slice work.template.bytes 68 168)
    (by rw [List.nil_append, List.length_append, List.length_append, l₁, l₂,
      l₃]) (by rw [l₄])
  refine b₄.bytes_eq ?_
  rw [List.nil_append, List.length_append, List.length_append,
    List.length_append, l₁, l₂, l₃, l₄]

/-- **The payload of a block**: the prefix, the address and the block with the
nonce tile it, whatever the memory held. -/
theorem workPayload_bytes {work : ActiveWork}
    (payload : Buf (work.templateLength + Miner.addressLength))
    (client : ClientSession) (nonce : ℕ) (h : 236 ≤ work.templateLength) :
    (workPayload payload work client nonce).bytes
      = slice work.template.bytes 0 68 ++ client.identity
        ++ withNonce work.wholeBlock nonce := by
  have l₁ : (slice work.template.bytes 0 68).length = 68 :=
    length_slice (by rw [work.template.size]; decide)
  have l₂ := client.length_identity
  have l₃ : (slice work.template.bytes 68 (work.templateLength - 68)).length
      = work.templateLength - 68 := ActiveWork.length_wholeBlock (by omega)
  have hfront : (slice work.template.bytes 0 68 ++ client.identity).length
      = 137 := by
    rw [List.length_append, l₁, l₂]
  unfold workPayload
  dsimp only
  have b₁ := (payload.begins_nil).write (i := 0)
    (s := slice work.template.bytes 0 68) rfl (by rw [l₁]; omega)
  have b₂ := b₁.write (i := 68) (s := client.identity)
    (by rw [List.nil_append, l₁]) (by rw [l₂]; omega)
  have b₃ := b₂.write (i := 68 + Miner.addressLength)
    (s := slice work.template.bytes 68 (work.templateLength - 68))
    (by rw [List.nil_append, hfront]; rfl) (by rw [l₃]; omega)
  rw [List.nil_append] at b₃
  have hb := b₃.bytes_eq (by
    rw [List.length_append, hfront, l₃]
    show 137 + (work.templateLength - 68) = work.templateLength + 69
    omega)
  -- the nonce is stored over that of the template's block
  rw [Buf.storeBE_eq_write (by
      show 68 + 69 + 152 + 8 ≤ work.templateLength + 69
      omega),
    Buf.write_bytes (by
      rw [length_writeBE]
      show 68 + 69 + 152 + 8 ≤ work.templateLength + 69
      omega), hb, length_writeBE]
  have ht := @List.take_length_add_append _ (slice work.template.bytes 0 68
    ++ client.identity) (slice work.template.bytes 68
    (work.templateLength - 68)) 152
  have hd := @List.drop_length_add_append _ (slice work.template.bytes 0 68
    ++ client.identity) (slice work.template.bytes 68
    (work.templateLength - 68)) 160
  rw [hfront] at ht hd
  show (_ : Bytes).take (137 + 152) ++ _ ++ (_ : Bytes).drop (137 + 160) = _
  rw [ht, hd, withNonce]
  simp only [List.append_assoc]
  rfl

/-- **Four fields of known lengths are read back from where they meet.** -/
theorem fields_unique {a b c d a' b' c' d' : Bytes}
    (h : a ++ b ++ c ++ d = a' ++ b' ++ c' ++ d') (ha : a.length = a'.length)
    (hb : b.length = b'.length) (hc : c.length = c'.length) :
    a = a' ∧ b = b' ∧ c = c' ∧ d = d' := by
  obtain ⟨h₁, hd⟩ := List.append_inj h (by
    simp only [List.length_append, ha, hb, hc])
  obtain ⟨h₂, hc⟩ := List.append_inj h₁ (by
    simp only [List.length_append, ha, hb])
  obtain ⟨ha, hb⟩ := List.append_inj h₂ ha
  exact ⟨ha, hb, hc, hd⟩

/-! ## What Chain is sent -/

/-- **The payload of a request**, by the work, the session and the nonce, and
the header Chain will find in it. -/
inductive IsContent (work : ActiveWork) (client : ClientSession)
    (request : Bytes) : Prop where
  /-- A block: the prefix, the address, and the block with the nonce, of which
  the first 168 bytes are the header that was hashed. -/
  | work (hm : Rpc.methodOf request = Rpc.submitWork)
    (hp : Rpc.payloadOf request
      = slice work.template.bytes 0 68 ++ client.identity
        ++ withNonce work.wholeBlock client.nonce)
    (hl : (Rpc.payloadOf request).length = work.templateLength + 69)
    (hh : slice (Rpc.payloadOf request) (68 + 69) 168
      = (ShareVerify.header work.block client.nonce).bytes)
  /-- A share: the work ID, the address, the nonce and the header without it,
  which are the only fields of these lengths in it, and the header that was
  hashed is that header with that nonce. -/
  | share (hm : Rpc.methodOf request = Rpc.submitShare)
    (hp : Rpc.payloadOf request
      = work.jobId.bytes ++ client.identity ++ writeBE 8 client.nonce
        ++ work.wholeBlock.take 168)
    (hl : (Rpc.payloadOf request).length = 277)
    (hu : ∀ a b c d : Bytes, Rpc.payloadOf request = a ++ b ++ c ++ d →
      a.length = 32 → b.length = 69 → c.length = 8 →
      a = work.jobId.bytes ∧ b = client.identity
        ∧ readBE c = client.nonce ∧ d = work.wholeBlock.take 168
        ∧ withNonce d (readBE c)
          = (ShareVerify.header work.block client.nonce).bytes)

/-- **A request that a submission leads to has its content.** -/
theorem Requests.content {w : World τ} {client : ClientSession}
    {request : Bytes} (h : Requests w client request) :
    IsContent w.server.work client request := by
  cases h with
  | share hv memory =>
    obtain ⟨ha, rfl, _⟩ := submissionVerdict_eq_share_iff.mp hv
    have h236 : 236 ≤ w.server.work.templateLength := by
      have := ha.prefixed
      have := ha.blockLength
      have := ha.blockHeader
      omega
    have hp : Rpc.payloadOf (Rpc.requestFrame Rpc.submitShare
        w.server.chainRpc.requestId.toNat
        (sharePayload memory w.server.work client client.nonce).bytes)
        = w.server.work.jobId.bytes ++ client.identity
          ++ writeBE 8 client.nonce ++ w.server.work.wholeBlock.take 168 := by
      rw [Rpc.payloadOf_requestFrame, sharePayload_bytes,
        ActiveWork.take_wholeBlock h236]
    refine .share (Rpc.methodOf_requestFrame _ _ _ (by decide)) hp ?_ ?_
    · rw [Rpc.payloadOf_requestFrame]
      exact (sharePayload memory _ _ _).size
    · intro a b c d h la lb lc
      obtain ⟨rfl, rfl, rfl, rfl⟩ := fields_unique (h.symm.trans hp)
        (la.trans w.server.work.jobId.size.symm)
        (lb.trans client.length_identity.symm)
        (lc.trans (length_writeBE 8 _).symm)
      have hn : readBE (writeBE 8 client.nonce) = client.nonce :=
        readBE_writeBE client.nonce_lt
      refine ⟨rfl, rfl, hn, rfl, ?_⟩
      rw [hn, ActiveWork.header_block h236]
  | work hv hle memory =>
    obtain ⟨ha, rfl, _⟩ := submissionVerdict_eq_work_iff.mp hv
    have h236 : 236 ≤ w.server.work.templateLength := by
      have := ha.prefixed
      have := ha.blockLength
      have := ha.blockHeader
      omega
    have hp : Rpc.payloadOf (Rpc.requestFrame Rpc.submitWork
        w.server.chainRpc.requestId.toNat
        (workPayload memory w.server.work client client.nonce).bytes)
        = slice w.server.work.template.bytes 0 68 ++ client.identity
          ++ withNonce w.server.work.wholeBlock client.nonce := by
      rw [Rpc.payloadOf_requestFrame, workPayload_bytes memory client _ h236]
    refine .work (Rpc.methodOf_requestFrame _ _ _ (by decide)) hp ?_ ?_
    · rw [Rpc.payloadOf_requestFrame]
      exact (workPayload memory _ _ _).size
    · have hfront : (slice w.server.work.template.bytes 0 68
          ++ client.identity).length = 137 := by
        rw [List.length_append, client.length_identity,
          length_slice (by rw [w.server.work.template.size]; decide)]
      have hs := slice_append_right (slice w.server.work.template.bytes 0 68
        ++ client.identity) (withNonce w.server.work.wholeBlock client.nonce)
        0 168
      have hb := ActiveWork.length_wholeBlock ha.prefixed
      rw [hfront] at hs
      rw [hp]
      refine hs.trans ?_
      rw [slice, List.drop_zero, take_withNonce (by omega),
        ActiveWork.header_block h236]

/-- **The content of a submission is exact.** Whenever `process_submission`
asks Chain, whatever the memory of the payload held before: a block goes as
the prefix of the active template, the 69 bytes of the address and the active
block with bytes 152 to 159 replaced by the nonce, and its header is the one
that was hashed; a share goes as 277 bytes that are the active work ID, the
address, the nonce and the unchanged header, in one way only, and the header
with the nonce is the one that was hashed. -/
theorem submission_content {T : ChainTransport τ} {w : World τ} {c : ConnId}
    {client : ClientSession} (hs : w.client? c = some client) :
    ∃ es, (w.processSubmission .linux T c).trace = w.trace ++ es
      ∧ ∀ p ∈ exchangesOf es, IsContent w.server.work client p.1 := by
  obtain ⟨es, ht, _, hq⟩ := requests_of_submission .linux T hs
  exact ⟨es, ht, fun p hp => (hq p hp).content⟩

/-- **A miner that has found a share**: the nonce zero meets ten times the
chain target, and not the chain target. -/
def solvedShare : World (List Bytes) :=
  withSolver ((boot Rpc.replay
    [Rpc.mineableTemplate (0x0d :: List.replicate 31 0xff) 0,
      List.replicate 80 0] (fun _ => []) fun _ => []).refreshWork .linux Rpc.replay)

set_option maxRecDepth 100000 in
/-- **A solved block and a share** are each sent once, with their content. -/
theorem submission_content_both :
    (∃ es, ((solved 0).processSubmission .linux Rpc.replay 0).trace
        = (solved 0).trace ++ es
      ∧ (exchangesOf es).map (fun p => Rpc.methodOf p.1) = [Rpc.submitWork]
      ∧ ∀ p ∈ exchangesOf es, IsContent (solved 0).server.work solver p.1)
    ∧ ∃ es, (solvedShare.processSubmission .linux Rpc.replay 0).trace
        = solvedShare.trace ++ es
      ∧ (exchangesOf es).map (fun p => Rpc.methodOf p.1) = [Rpc.submitShare]
      ∧ ∀ p ∈ exchangesOf es, IsContent solvedShare.server.work solver p.1 := by
  have hsent : ∀ (w : World (List Bytes)) (method : ℕ),
      w.client? 0 = some solver →
      ((exchangesOf (w.processSubmission .linux Rpc.replay 0).trace).drop
        (exchangesOf w.trace).length).map (fun p => Rpc.methodOf p.1)
          = [method] →
      ∃ es, (w.processSubmission .linux Rpc.replay 0).trace = w.trace ++ es
        ∧ (exchangesOf es).map (fun p => Rpc.methodOf p.1) = [method]
        ∧ ∀ p ∈ exchangesOf es, IsContent w.server.work solver p.1 := by
    intro w method hs hm
    obtain ⟨es, ht, h⟩ := submission_content (T := Rpc.replay) hs
    rw [ht, exchangesOf, exchangesOf, List.filterMap_append,
      List.drop_left] at hm
    exact ⟨es, ht, hm, h⟩
  exact ⟨hsent (solved 0) _ rfl (by decide +kernel),
    hsent solvedShare _ rfl (by decide +kernel)⟩
