import StnStratum.Submission

/-!
# What a submission is worth

The checks of `process_submission` stand one behind the other, and what they
let through is their conjunction. `Admissible` is the part that does not
depend on the proof, and the two theorems of this module say that a share
goes to Chain exactly where an admissible submission's digest meets the share
target and misses the chain target, and a block exactly where it meets both.
Digests and targets are compared as the numbers they spell.
-/

namespace ClientSession

/-- The nonce of a SUBMIT in the buffer. -/
def nonce (s : ClientSession) : ℕ := readBE (slice s.rx.bytes 40 8)

theorem nonce_lt (s : ClientSession) : s.nonce < 2 ^ 64 := by
  have h := readBE_lt (slice s.rx.bytes 40 8)
  have hl : (slice s.rx.bytes 40 8).length = 8 :=
    length_slice (by rw [s.rx.size]; decide)
  rw [hl] at h
  exact h

end ClientSession

namespace ActiveWork

variable (work : ActiveWork)

/-- **The digest a nonce is judged by**: that of the header of the block with
the nonce in it. -/
def proof (nonce : ℕ) : Bytes :=
  ShareVerify.digest (ShareVerify.header work.block nonce).bytes

@[simp] theorem length_chainTarget : work.chainTarget.length = 32 :=
  length_slice (by rw [work.template.size]; decide)

@[simp] theorem length_proof (nonce : ℕ) : (work.proof nonce).length = 32 :=
  ShareVerify.length_digest _

/-- **What a proof has to meet**: the share target, if the chain target has
one. -/
def MeetsShareTarget (nonce : ℕ) : Prop :=
  ∃ share, Server.shareTargetFromChain work.chainTarget = some share
    ∧ readBE (work.proof nonce) ≤ readBE share

/-- The chain target is met. -/
def MeetsChainTarget (nonce : ℕ) : Prop :=
  readBE (work.proof nonce) ≤ readBE work.chainTarget

instance (nonce : ℕ) : Decidable (work.MeetsChainTarget nonce) :=
  inferInstanceAs (Decidable (_ ≤ _))

end ActiveWork

/-- **What the server demands of a submission**, the proof apart: a session
with an address, a SUBMIT, work that it is for, and a template whose block
has a header and the length it gives. -/
structure Admissible (work : ActiveWork) (client : ClientSession) : Prop where
  /-- The miner has given its address. -/
  registered : client.addressRegistered = true
  /-- The frame has a checked header. -/
  header : Miner.headerValid client.rx.bytes = true
  /-- It is a SUBMIT. -/
  submit : client.rx.bytes.getD 5 0 = Miner.submit
  /-- There is work. -/
  haveWork : work.haveWork = true
  /-- The frame is for it. -/
  job : slice client.rx.bytes 8 32 = work.jobId.bytes
  /-- The template has its prefix. -/
  prefixed : 68 ≤ work.templateLength
  /-- The rest is the block. -/
  blockLength : work.blockLength = work.templateLength - 68
  /-- The block has a header. -/
  blockHeader : 168 ≤ work.blockLength

/-- **Where the checks are passed**, the verdict is the proof's. -/
theorem submissionVerdict_of_admissible {work : ActiveWork}
    {client : ClientSession} (h : Admissible work client) {share : Bytes}
    (hs : Server.shareTargetFromChain work.chainTarget = some share) :
    submissionVerdict work client
      = match (ShareVerify.shareClassify work.block work.blockLength
          client.nonce share work.chainTarget).1 with
        | .invalid => .refused .rejected
        | .qualifying => .share client.nonce
        | .block => .work client.nonce := by
  have hd : (Miner.headerValid client.rx.bytes
      && client.rx.bytes.getD 5 0 == Miner.submit) = true := by
    rw [h.header, h.submit]
    rfl
  unfold submissionVerdict
  dsimp only
  rw [if_neg (by rw [h.registered]; exact Bool.noConfusion),
    if_neg (by rw [hd]; exact Bool.noConfusion),
    if_neg (by
      rw [h.haveWork, h.job]
      rintro (h | h)
      · exact Bool.noConfusion h
      · exact h rfl),
    if_neg (not_lt.mpr h.prefixed),
    if_neg (by
      rintro (hb | hb)
      · exact hb h.blockLength
      · exact not_lt.mpr h.blockHeader hb),
    hs]
  rfl

/-- **A submission is judged**: its proof is classified, and refused or sent
to Chain. -/
def Judged (work : ActiveWork) (client : ClientSession) : Prop :=
  submissionVerdict work client = .refused .rejected
    ∨ ∃ nonce, submissionVerdict work client = .share nonce
      ∨ submissionVerdict work client = .work nonce

/-- **A submission that is judged has passed the checks.** -/
theorem Judged.admissible {work : ActiveWork} {client : ClientSession}
    (h : Judged work client) : Admissible work client ∧ ∃ share,
      Server.shareTargetFromChain work.chainTarget = some share := by
  have hnot : ∀ {v : Verdict}, v ≠ .refused .rejected →
      (∀ nonce, v ≠ .share nonce) → (∀ nonce, v ≠ .work nonce) →
      submissionVerdict work client ≠ v := by
    intro v h₁ h₂ h₃ hv
    unfold Judged at h
    rw [hv] at h
    rcases h with h | ⟨nonce, h | h⟩
    · exact h₁ h
    · exact h₂ nonce h
    · exact h₃ nonce h
  unfold submissionVerdict at hnot
  dsimp only at hnot
  split at hnot
  · exact absurd rfl (hnot nofun nofun nofun)
  next h₁ =>
  split at hnot
  · exact absurd rfl (hnot nofun nofun nofun)
  next h₂ =>
  split at hnot
  · exact absurd rfl (hnot nofun nofun nofun)
  next h₃ =>
  split at hnot
  · exact absurd rfl (hnot nofun nofun nofun)
  next h₄ =>
  split at hnot
  · exact absurd rfl (hnot nofun nofun nofun)
  next h₅ =>
  split at hnot
  · exact absurd rfl (hnot nofun nofun nofun)
  next share hs =>
  rw [Bool.not_eq_false, Bool.and_eq_true, beq_iff_eq] at h₂
  rw [not_or, not_not, Bool.not_eq_false] at h₃
  rw [not_or, not_not, not_lt] at h₅
  exact ⟨⟨Bool.eq_true_of_not_eq_false h₁, h₂.1, h₂.2, h₃.1, h₃.2,
    not_lt.mp h₄, h₅.1, h₅.2⟩, share, hs⟩

/-- A submission that goes to Chain has passed the checks. -/
theorem admissible_of_verdict {work : ActiveWork} {client : ClientSession}
    {nonce : ℕ} (h : submissionVerdict work client = .share nonce
      ∨ submissionVerdict work client = .work nonce) :
    Admissible work client ∧ ∃ share,
      Server.shareTargetFromChain work.chainTarget = some share :=
  Judged.admissible (.inr ⟨nonce, h⟩)

/-- The byte-wise comparison with the chain target is that of the numbers. -/
theorem leBytes_chainTarget {work : ActiveWork} {nonce : ℕ} :
    leBytes (work.proof nonce) work.chainTarget = true
      ↔ work.MeetsChainTarget nonce :=
  leBytes_iff (by rw [ActiveWork.length_proof, ActiveWork.length_chainTarget])

/-- The same for the share target. -/
theorem leBytes_share {work : ActiveWork} {nonce : ℕ} {share : Bytes}
    (hs : Server.shareTargetFromChain work.chainTarget = some share) :
    leBytes (work.proof nonce) share = true
      ↔ readBE (work.proof nonce) ≤ readBE share := by
  obtain ⟨_, rfl⟩ := (Server.shareTargetFromChain_eq_some_iff
    work.length_chainTarget).mp hs
  refine leBytes_iff ?_
  rw [ActiveWork.length_proof]
  exact (length_scaleTarget work.length_chainTarget).symm

/-- **When a submission goes to Chain as a share.** -/
theorem submissionVerdict_eq_share_iff {work : ActiveWork}
    {client : ClientSession} {nonce : ℕ} :
    submissionVerdict work client = .share nonce
      ↔ Admissible work client ∧ nonce = client.nonce
        ∧ work.MeetsShareTarget nonce ∧ ¬ work.MeetsChainTarget nonce := by
  constructor
  · intro h
    obtain ⟨ha, share, hs⟩ := admissible_of_verdict (.inl h)
    rw [submissionVerdict_of_admissible ha hs] at h
    split at h
    · cases h
    next hc =>
      obtain rfl := Verdict.share.inj h
      obtain ⟨_, h₁, h₂⟩ := ShareVerify.shareClassify_eq_qualifying_iff.mp hc
      refine ⟨ha, rfl, ⟨share, hs, (leBytes_share hs).mp h₁⟩, fun hm => ?_⟩
      exact Bool.noConfusion (h₂.symm.trans (leBytes_chainTarget.mpr hm))
    · cases h
  · rintro ⟨ha, rfl, ⟨share, hs, h₁⟩, h₂⟩
    rw [submissionVerdict_of_admissible ha hs,
      ShareVerify.shareClassify_eq_qualifying_iff.mpr
        ⟨ha.blockHeader, (leBytes_share hs).mpr h₁,
          Bool.eq_false_iff.mpr fun h => h₂ (leBytes_chainTarget.mp h)⟩]

/-- **When a submission goes to Chain as a block.** -/
theorem submissionVerdict_eq_work_iff {work : ActiveWork}
    {client : ClientSession} {nonce : ℕ} :
    submissionVerdict work client = .work nonce
      ↔ Admissible work client ∧ nonce = client.nonce
        ∧ work.MeetsShareTarget nonce ∧ work.MeetsChainTarget nonce := by
  constructor
  · intro h
    obtain ⟨ha, share, hs⟩ := admissible_of_verdict (.inr h)
    rw [submissionVerdict_of_admissible ha hs] at h
    split at h
    · cases h
    · cases h
    next hc =>
      obtain rfl := Verdict.work.inj h
      obtain ⟨_, h₁, h₂⟩ := ShareVerify.shareClassify_eq_block_iff.mp hc
      exact ⟨ha, rfl, ⟨share, hs, (leBytes_share hs).mp h₁⟩,
        leBytes_chainTarget.mp h₂⟩
  · rintro ⟨ha, rfl, ⟨share, hs, h₁⟩, h₂⟩
    rw [submissionVerdict_of_admissible ha hs,
      ShareVerify.shareClassify_eq_block_iff.mpr
        ⟨ha.blockHeader, (leBytes_share hs).mpr h₁,
          leBytes_chainTarget.mpr h₂⟩]
