import StnStratum.Prototype

/-!
# Jobs of the session prototype

The session of `stn_stratum.c` has Chain behind three functions that the
caller supplies: one reads the tip, one gets a template and one submits
(`StratumChain`). They share a state of a type `σ`, which is what their `user`
points at, and nothing else is known of them. A job is filled from what the
second of them stores, and a submission asks the first whether the job is
still current before the third sees it.

A submission reports, besides what the C function returns, what it has handed
to the third function and what that answered (`ChainSubmit`), which is how the
theorems speak of what Chain was told.
-/

/-- `STN_STRATUM_PROTOCOL_VERSION`. -/
abbrev stratumProtocolVersion : UInt16 := 1

/-- `STN_STRATUM_BLOCK_CAPACITY`. -/
abbrev stratumBlockCapacity : ℕ := 1048576

/-- **`stn_stratum_job`.** -/
structure StratumJob where
  /-- The block the job builds on. -/
  baseTip : Buf 32
  /-- Its number. -/
  id : Buf 32
  /-- The target. -/
  target : Buf 32
  /-- The block, in the front of the array. -/
  block : Buf stratumBlockCapacity
  /-- How long the block is. -/
  blockLength : ℕ
  /-- The height of the block. -/
  height : UInt64
  /-- Whether there is a job. -/
  active : Bool

/-- **What a `stn_stratum_template_fn` stores**, in the variables of its
caller. -/
structure TemplateOut where
  /-- `base_tip`. -/
  baseTip : Buf 32
  /-- `job_id`. -/
  jobId : Buf 32
  /-- `target`. -/
  target : Buf 32
  /-- `height`. -/
  height : UInt64
  /-- `block`, of which the size is the capacity. -/
  block : Buf stratumBlockCapacity
  /-- `written`. -/
  written : ℕ

/-- **`stn_stratum_chain`**, the functions behind a session. A function that
is missing is a null pointer. -/
structure StratumChain (σ : Type) where
  /-- The tip of the chain, stored over what the caller's array held. -/
  tip : Option (σ → Buf 32 → StratumStatus × Buf 32 × σ)
  /-- A template, stored over what the caller's variables held. -/
  templateGet : Option (σ → TemplateOut → StratumStatus × TemplateOut × σ)
  /-- A submission: the base, the work ID, the block and its length, the
  identity and the nonce. -/
  submit : Option (σ → Buf 32 → Buf 32 → Buf stratumBlockCapacity → ℕ →
    Buf stratumMinerIdentitySize → UInt64 → StratumStatus × σ)

variable {σ : Type}

/-- **`stn_stratum_subscribe`**, for a session that is there. -/
def StratumSession.subscribe (s : StratumSession) (version : UInt16) :
    StratumStatus × StratumSession :=
  if version ≠ stratumProtocolVersion then (.profile, s)
  else (.ok, { s with subscribed := true })

/-- The nonces submitted. -/
def StratumSession.history (s : StratumSession) : List UInt64 :=
  s.submitted.toList.take s.submittedCount

namespace StratumJob

/-- **`stn_stratum_job_set`**, for pointers that are there. -/
def set (out : StratumJob) (baseTip jobId target : Buf 32) (height : UInt64)
    (block : Bytes) (blockLength : ℕ) : StratumStatus × StratumJob :=
  if blockLength = 0 then (.badStructure, out)
  else if stratumBlockCapacity < blockLength then (.capacity, out)
  else
    (.ok, {
      baseTip := baseTip
      id := jobId
      target := target
      block := (Buf.zero _).write 0 (block.take blockLength)
      blockLength := blockLength
      height := height
      active := true })

/-- **`stn_stratum_job_refresh`**, for a job that is there. `out` is what the
local variables hold, the last two of which it sets. -/
def refresh (job : StratumJob) (chain : Option (StratumChain σ)) (user : σ)
    (out : TemplateOut) : StratumStatus × StratumJob × σ :=
  match chain.bind StratumChain.templateGet with
  | none => (.argument, job, user)
  | some templateGet =>
    let (status, out, user) :=
      templateGet user { out with written := 0, height := 0 }
    if status ≠ .ok then
      (if status = .capacity then .capacity else .provider, job, user)
    else
      let (status, job) := job.set out.baseTip out.jobId out.target out.height
        out.block.bytes out.written
      (status, job, user)

/-- `stn_stratum_job_invalidate`. -/
def invalidate (job : StratumJob) : StratumJob := { job with active := false }

end StratumJob

/-! ## Submitting -/

/-- **A call of `chain->submit`**: its arguments, and the status it
returned. -/
structure ChainSubmit where
  /-- The base. -/
  baseTip : Buf 32
  /-- The work ID. -/
  jobId : Buf 32
  /-- The block. -/
  block : Buf stratumBlockCapacity
  /-- Its length. -/
  blockLength : ℕ
  /-- The identity. -/
  minerIdentity : Buf stratumMinerIdentitySize
  /-- The nonce. -/
  nonce : UInt64
  /-- What it returned. -/
  answer : StratumStatus

/-- **What a submission comes to.** -/
structure Submitted (σ : Type) where
  /-- What it returns. -/
  status : StratumStatus
  /-- The session afterwards. -/
  session : StratumSession
  /-- The state of the functions behind it. -/
  user : σ
  /-- What was handed to `chain->submit`, if anything was. -/
  handed : Option ChainSubmit

namespace StratumSession

/-- `s->submitted[s->submitted_count++] = nonce`. -/
def record (s : StratumSession) (nonce : UInt64) : StratumSession :=
  { s with
    submitted := s.submitted.setIfInBounds s.submittedCount nonce
    submittedCount := s.submittedCount + 1 }

/-- **`stn_stratum_submit`**, for a session that is there, with what its array
`tip` holds. -/
def submit (s : StratumSession) (job : Option StratumJob) (nonce : UInt64)
    (chain : Option (StratumChain σ)) (user : σ) (tip : Buf 32) :
    Submitted σ :=
  match job, chain.bind StratumChain.tip, chain.bind StratumChain.submit with
  | some j, some chainTip, some chainSubmit =>
    if s.subscribed = false ∨ j.active = false then ⟨.noJob, s, user, none⟩
    else if s.identityRegistered = false then ⟨.badStructure, s, user, none⟩
    else
      let (status, tip, user) := chainTip user tip
      if status ≠ .ok then ⟨.provider, s, user, none⟩
      else if j.baseTip ≠ tip then ⟨.stale, s, user, none⟩
      else if nonce ∈ s.history then ⟨.duplicate, s, user, none⟩
      else if s.submittedCount = stratumDuplicateCapacity then
        ⟨.capacity, s, user, none⟩
      else
        -- recorded before Chain is asked, and whatever it answers
        let s := s.record nonce
        let (status, user) := chainSubmit user j.baseTip j.id j.block
          j.blockLength s.minerIdentity nonce
        let handed := some ⟨j.baseTip, j.id, j.block, j.blockLength,
          s.minerIdentity, nonce, status⟩
        if status = .ok ∨ status = .stale ∨ status = .rejected then
          ⟨status, s, user, handed⟩
        else ⟨.provider, s, user, handed⟩
  | _, _, _ => ⟨.argument, s, user, none⟩

end StratumSession

namespace StratumSession

/-! ## What a submission does -/

/-- **The job is current** for a submission: the miner has subscribed and
registered, there is a job, and the tip that Chain gives for it is its
base. -/
structure Current (s : StratumSession) (job : Option StratumJob)
    (chain : Option (StratumChain σ)) (user : σ) (tip : Buf 32)
    (j : StratumJob) : Prop where
  /-- It is the job of the submission. -/
  job : job = some j
  /-- The miner has subscribed. -/
  subscribed : s.subscribed = true
  /-- There is a job. -/
  active : j.active = true
  /-- The miner has registered. -/
  registered : s.identityRegistered = true
  /-- The tip that was just read is the base of the job. -/
  tip : ∃ chainTip, chain.bind StratumChain.tip = some chainTip
    ∧ (chainTip user tip).1 = .ok ∧ (chainTip user tip).2.1 = j.baseTip
  /-- There is a function that submits. -/
  submits : (chain.bind StratumChain.submit).isSome = true

section Submit

variable {s : StratumSession} {job : Option StratumJob} {nonce : UInt64}
  {chain : Option (StratumChain σ)} {user : σ} {tip : Buf 32}

/-- **The statuses of a submission that stays here.** -/
def refusals : List StratumStatus :=
  [.argument, .noJob, .badStructure, .provider, .stale, .duplicate, .capacity]

/-- **A submission that stays here.** -/
structure Refused (s : StratumSession) (job : Option StratumJob)
    (nonce : UInt64) (chain : Option (StratumChain σ)) (user : σ)
    (tip : Buf 32) (r : Submitted σ) : Prop where
  /-- Nothing is handed to Chain. -/
  handed : r.handed = none
  /-- The session is what it was. -/
  session : r.session = s
  /-- The status says why. -/
  status : r.status ∈ refusals
  /-- It is a duplicate exactly if the job is current and the nonce was
  submitted before. -/
  duplicate : r.status = .duplicate
    ↔ (∃ j, Current s job chain user tip j) ∧ nonce ∈ s.history

/-- **A submission that is handed to Chain**, which gives an answer. -/
structure Handed (s : StratumSession) (job : Option StratumJob)
    (nonce : UInt64) (chain : Option (StratumChain σ)) (user : σ)
    (tip : Buf 32) (j : StratumJob) (answer : StratumStatus)
    (r : Submitted σ) : Prop where
  /-- The job is current. -/
  current : Current s job chain user tip j
  /-- The nonce was not submitted before. -/
  fresh : nonce ∉ s.history
  /-- There is room for it. -/
  room : s.submittedCount ≠ stratumDuplicateCapacity
  /-- The job goes to Chain with the identity and the nonce. -/
  handed : r.handed = some ⟨j.baseTip, j.id, j.block, j.blockLength,
    s.minerIdentity, nonce, answer⟩
  /-- The nonce is recorded. -/
  session : r.session = s.record nonce
  /-- The answer decides the status. -/
  status : r.status = if answer = .ok ∨ answer = .stale ∨ answer = .rejected
    then answer else .provider

/-- **A submission stays here or is handed to Chain.** -/
theorem submit_cases (s : StratumSession) (job : Option StratumJob)
    (nonce : UInt64) (chain : Option (StratumChain σ)) (user : σ)
    (tip : Buf 32) :
    Refused s job nonce chain user tip (s.submit job nonce chain user tip)
      ∨ ∃ j answer, Handed s job nonce chain user tip j answer
        (s.submit job nonce chain user tip) := by
  -- a submission that does not get to the history is no duplicate
  have early : ∀ (status : StratumStatus) (user' : σ), status ∈ refusals →
      status ≠ .duplicate → (¬ ∃ j, Current s job chain user tip j) →
      Refused s job nonce chain user tip ⟨status, s, user', none⟩ :=
    fun status user' hmem hne hnot => ⟨rfl, rfl, hmem,
      iff_of_false hne fun h => hnot h.1⟩
  unfold submit
  split
  next j chainTip chainSubmit htip hsubmit =>
    by_cases hjob : s.subscribed = false ∨ j.active = false
    · rw [if_pos hjob]
      refine .inl (early _ _ (by decide) (by decide) ?_)
      rintro ⟨j', hc⟩
      obtain rfl := Option.some.inj hc.job
      rw [hc.subscribed, hc.active] at hjob
      exact absurd hjob (by decide)
    rw [if_neg hjob]
    by_cases hreg : s.identityRegistered = false
    · rw [if_pos hreg]
      refine .inl (early _ _ (by decide) (by decide) ?_)
      rintro ⟨j', hc⟩
      rw [hc.registered] at hreg
      cases hreg
    rw [if_neg hreg]
    -- what it takes for the job to be current, now that the miner may submit
    have hcurrent : ∀ j', Current s (some j) chain user tip j' →
        j' = j ∧ (chainTip user tip).1 = .ok
          ∧ (chainTip user tip).2.1 = j.baseTip := fun j' hc => by
      obtain rfl := Option.some.inj hc.job
      obtain ⟨chainTip', htip', hok, hbase⟩ := hc.tip
      obtain rfl := Option.some.inj (htip.symm.trans htip')
      exact ⟨rfl, hok, hbase⟩
    have hcheck : (chainTip user tip).1 = .ok →
        (chainTip user tip).2.1 = j.baseTip →
        Current s (some j) chain user tip j := fun hok hbase =>
      ⟨rfl, by simpa using mt Or.inl hjob, by simpa using mt Or.inr hjob,
        by simpa using hreg, ⟨chainTip, htip, hok, hbase⟩, by rw [hsubmit]; rfl⟩
    generalize chainTip user tip = t at hcurrent hcheck
    obtain ⟨status, tip', user'⟩ := t
    dsimp only at hcurrent hcheck ⊢
    by_cases hok : status ≠ .ok
    · rw [if_pos hok]
      exact .inl (early _ _ (by decide) (by decide) fun ⟨j', hc⟩ =>
        hok (hcurrent j' hc).2.1)
    rw [if_neg hok]
    by_cases hbase : j.baseTip ≠ tip'
    · rw [if_pos hbase]
      exact .inl (early _ _ (by decide) (by decide) fun ⟨j', hc⟩ =>
        hbase (hcurrent j' hc).2.2.symm)
    rw [if_neg hbase]
    have hc := hcheck (not_not.mp hok) (not_not.mp hbase).symm
    by_cases hdup : nonce ∈ s.history
    · rw [if_pos hdup]
      have hmem : StratumStatus.duplicate ∈ refusals := by decide
      exact .inl ⟨rfl, rfl, hmem, iff_of_true rfl ⟨⟨j, hc⟩, hdup⟩⟩
    rw [if_neg hdup]
    by_cases hfull : s.submittedCount = stratumDuplicateCapacity
    · rw [if_pos hfull]
      have hmem : StratumStatus.capacity ∈ refusals := by decide
      have hne : StratumStatus.capacity ≠ .duplicate := by decide
      exact .inl ⟨rfl, rfl, hmem, iff_of_false hne fun h => hdup h.2⟩
    rw [if_neg hfull]
    refine .inr ⟨j, (chainSubmit user' j.baseTip j.id j.block j.blockLength
      s.minerIdentity nonce).1, ?_⟩
    show Handed s (some j) nonce chain user tip j _ (if _ then _ else _)
    split
    next hans => exact ⟨hc, hdup, hfull, rfl, rfl, (if_pos hans).symm⟩
    next hans => exact ⟨hc, hdup, hfull, rfl, rfl, (if_neg hans).symm⟩
  next hnone =>
    refine .inl (early _ _ (by decide) (by decide) ?_)
    rintro ⟨j, hc⟩
    obtain ⟨chainTip, htip, _⟩ := hc.tip
    obtain ⟨chainSubmit, hsubmit⟩ := Option.isSome_iff_exists.mp hc.submits
    exact hnone j chainTip chainSubmit hc.job htip hsubmit

end Submit

end StratumSession
