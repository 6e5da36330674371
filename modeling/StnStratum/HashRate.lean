import StnStratum.Rehearsal

/-!
# The arithmetic of a hash rate

A miner reports so many hashes in so many milliseconds, and the session keeps
the rate per second: `hashes * 1000 / elapsed_ms`, cut off at what 64 bits
hold. The product does not fit 64 bits, so `process_hash_progress` multiplies
quotient and remainder apart, and divides a great remainder by a thousandth of
the divisor instead.

`rateNat` is the same computation on natural numbers, where nothing wraps.
`toNat_hashRate` says that it is what the 64 bits hold, `rateChecked_eq` that
no step of it leaves them, and `rate_bounds` how far it is from the exact
rate: not at all, or by one where the remainder is great.
-/

/-! ## Arithmetic that is checked -/

/-! ### Operations

On words of `w` bits, and without a result where the machine would wrap or
trap. -/

namespace Checked

/-- A sum that fits. -/
def add (w a b : ℕ) : Option ℕ := if a + b < 2 ^ w then some (a + b) else none

/-- A difference that is not negative. -/
def sub (a b : ℕ) : Option ℕ := if b ≤ a then some (a - b) else none

/-- A product that fits. -/
def mul (w a b : ℕ) : Option ℕ := if a * b < 2 ^ w then some (a * b) else none

/-- A quotient by a divisor other than zero. -/
def div (a b : ℕ) : Option ℕ := if b ≠ 0 then some (a / b) else none

/-- A remainder by a divisor other than zero. -/
def mod (a b : ℕ) : Option ℕ := if b ≠ 0 then some (a % b) else none

variable {w a b : ℕ}

theorem add_eq (h : a + b < 2 ^ w) : add w a b = some (a + b) := if_pos h

theorem sub_eq (h : b ≤ a) : sub a b = some (a - b) := if_pos h

theorem mul_eq (h : a * b < 2 ^ w) : mul w a b = some (a * b) := if_pos h

theorem div_eq (h : b ≠ 0) : div a b = some (a / b) := if_pos h

theorem mod_eq (h : b ≠ 0) : mod a b = some (a % b) := if_pos h

end Checked

/-! ## The computation -/

/-- `UINT64_MAX`. -/
abbrev uint64Max : ℕ := 2 ^ 64 - 1

/-- **The computation with every operation checked.** -/
def rateChecked (hashes elapsedMs : ℕ) : Option ℕ := do
  let quotient ← Checked.div hashes elapsedMs
  let remainder ← Checked.mod hashes elapsedMs
  let bound ← Checked.div uint64Max 1000
  if bound < quotient then return uint64Max
  let rate ← Checked.mul 64 quotient 1000
  let extra ←
    if remainder ≤ bound then do
      let scaled ← Checked.mul 64 remainder 1000
      Checked.div scaled elapsedMs
    else do
      let thousandth ← Checked.div elapsedMs 1000
      let scaledDivisor ← Checked.add 64 thousandth 1
      let extra ← Checked.div remainder scaledDivisor
      pure (if 999 < extra then 999 else extra)
  let room ← Checked.sub uint64Max rate
  if room < extra then return uint64Max
  Checked.add 64 rate extra

/-- What the remainder adds to the rate. -/
def extraNat (elapsedMs remainder : ℕ) : ℕ :=
  if remainder ≤ uint64Max / 1000 then remainder * 1000 / elapsedMs
  else
    let extra := remainder / (elapsedMs / 1000 + 1)
    if 999 < extra then 999 else extra

/-- **The computation on natural numbers.** -/
def rateNat (hashes elapsedMs : ℕ) : ℕ :=
  if uint64Max / 1000 < hashes / elapsedMs then uint64Max
  else
    let rate := hashes / elapsedMs * 1000
    let extra := extraNat elapsedMs (hashes % elapsedMs)
    if uint64Max - rate < extra then uint64Max else rate + extra

section Computation

variable {hashes elapsedMs : ℕ}

/-- **No operation wraps, and none divides by zero.** -/
theorem rateChecked_eq (he : elapsedMs ≠ 0) (hlt : elapsedMs < 2 ^ 64) :
    rateChecked hashes elapsedMs = some (rateNat hashes elapsedMs) := by
  have hmax : uint64Max = 2 ^ 64 - 1 := rfl
  have hbound : Checked.div uint64Max 1000 = some (uint64Max / 1000) :=
    Checked.div_eq (by decide)
  have hthousand : Checked.div elapsedMs 1000 = some (elapsedMs / 1000) :=
    Checked.div_eq (by decide)
  have hdivisor : Checked.add 64 (elapsedMs / 1000) 1
      = some (elapsedMs / 1000 + 1) := Checked.add_eq (by omega)
  unfold rateChecked rateNat extraNat
  simp only [Checked.div_eq he, Checked.mod_eq he, hbound, hthousand, hdivisor,
    Checked.div_eq (Nat.succ_ne_zero _), Option.bind_eq_bind,
    Option.bind_some, Option.pure_def]
  by_cases hq : uint64Max / 1000 < hashes / elapsedMs
  · rw [if_pos hq, if_pos hq]
  rw [if_neg hq, if_neg hq, Checked.mul_eq (by omega), Option.bind_some,
    Checked.sub_eq (by omega)]
  -- what the remainder adds is added where there is room for it
  have hsum : ∀ extra : ℕ, ((some (uint64Max - hashes / elapsedMs * 1000)).bind
      fun room => if room < extra then some uint64Max
        else Checked.add 64 (hashes / elapsedMs * 1000) extra)
      = some (if uint64Max - hashes / elapsedMs * 1000 < extra then uint64Max
        else hashes / elapsedMs * 1000 + extra) := by
    intro extra
    rw [Option.bind_some]
    split
    · rfl
    · exact Checked.add_eq (by omega)
  by_cases hr : hashes % elapsedMs ≤ uint64Max / 1000
  · rw [if_pos hr, if_pos hr, Checked.mul_eq (by omega)]
    exact hsum _
  · rw [if_neg hr, if_neg hr]
    exact hsum _

/-! ## How exact it is -/

/-- **The exact rate**, cut off at what 64 bits hold. -/
def exactRate (hashes elapsedMs : ℕ) : ℕ :=
  min uint64Max (hashes * 1000 / elapsedMs)

/-- Quotient and remainder are multiplied apart. -/
theorem mul_thousand_div (he : 0 < elapsedMs) : hashes * 1000 / elapsedMs
    = hashes / elapsedMs * 1000 + hashes % elapsedMs * 1000 / elapsedMs := by
  have hsplit : hashes * 1000 = elapsedMs * (hashes / elapsedMs * 1000)
      + hashes % elapsedMs * 1000 := by
    calc hashes * 1000
        = (elapsedMs * (hashes / elapsedMs) + hashes % elapsedMs) * 1000 := by
          rw [Nat.div_add_mod]
      _ = _ := by ring
  rw [hsplit, Nat.mul_add_div he]

/-- What the remainder adds is less than a thousand. -/
theorem extra_lt (hashes : ℕ) (he : 0 < elapsedMs) :
    hashes % elapsedMs * 1000 / elapsedMs < 1000 := by
  rw [Nat.div_lt_iff_lt_mul he]
  have := Nat.mod_lt hashes he
  omega

/-- **Dividing by a thousandth of the divisor** falls short of the exact
quotient by one at most, where the remainder is great enough for that. -/
theorem scaled_extra {remainder : ℕ} (hlt : remainder < elapsedMs)
    (hbig : 2 ^ 20 ≤ elapsedMs) :
    remainder / (elapsedMs / 1000 + 1) ≤ remainder * 1000 / elapsedMs
      ∧ remainder * 1000 / elapsedMs
        ≤ remainder / (elapsedMs / 1000 + 1) + 1 := by
  have he : 0 < elapsedMs := by omega
  generalize hd : elapsedMs / 1000 + 1 = d
  generalize hx : remainder / d = x
  have hover : elapsedMs < 1000 * d := by omega
  have hunder : 1000 * d ≤ elapsedMs + 1000 := by omega
  have hmul : x * d ≤ remainder := hx ▸ Nat.div_mul_le_self remainder d
  have hnext : remainder < d * (x + 1) :=
    hx ▸ Nat.lt_mul_div_succ remainder (by omega)
  -- the quotient is below a thousand, which is what makes up for the rounding
  have hle : x ≤ remainder * 1000 / elapsedMs := by
    rw [Nat.le_div_iff_mul_le he]
    calc x * elapsedMs ≤ x * (1000 * d) := Nat.mul_le_mul_left x hover.le
      _ = x * d * 1000 := by ring
      _ ≤ remainder * 1000 := Nat.mul_le_mul_right 1000 hmul
  have hsmall : x < 1000 := by
    refine lt_of_le_of_lt hle ((Nat.div_lt_iff_lt_mul he).mpr ?_)
    omega
  refine ⟨hle, Nat.lt_succ_iff.mp ((Nat.div_lt_iff_lt_mul he).mpr ?_)⟩
  have hscaled : 1000 * (d * (x + 1)) ≤ (elapsedMs + 1000) * (x + 1) := by
    rw [← Nat.mul_assoc]
    exact Nat.mul_le_mul_right (x + 1) hunder
  have hexpand : (elapsedMs + 1000) * (x + 1)
      = (x + 1) * elapsedMs + 1000 * x + 1000 := by ring
  rw [Nat.succ_mul]
  omega

/-- What is added for a small remainder is exact. -/
theorem extraNat_of_le {remainder : ℕ}
    (h : remainder ≤ uint64Max / 1000) :
    extraNat elapsedMs remainder = remainder * 1000 / elapsedMs := if_pos h

/-- **What is added for the remainder** is exact, or one too little. -/
theorem extraNat_bounds (hashes : ℕ) (he : 0 < elapsedMs) :
    extraNat elapsedMs (hashes % elapsedMs)
        ≤ hashes % elapsedMs * 1000 / elapsedMs
      ∧ hashes % elapsedMs * 1000 / elapsedMs
        ≤ extraNat elapsedMs (hashes % elapsedMs) + 1 := by
  by_cases hr : hashes % elapsedMs ≤ uint64Max / 1000
  · rw [extraNat_of_le hr]
    omega
  · have hmod := Nat.mod_lt hashes he
    have hmax : uint64Max / 1000 = (2 ^ 64 - 1) / 1000 := rfl
    obtain ⟨hle, hge⟩ := scaled_extra hmod (by omega)
    have hlt := extra_lt hashes he
    unfold extraNat
    rw [if_neg hr]
    dsimp only
    rw [if_neg (by omega)]
    exact ⟨hle, hge⟩

/-- **The rate is exact, or one too little.** -/
theorem rate_bounds (he : 0 < elapsedMs) :
    rateNat hashes elapsedMs ≤ exactRate hashes elapsedMs
      ∧ exactRate hashes elapsedMs ≤ rateNat hashes elapsedMs + 1 := by
  obtain ⟨hle, hge⟩ := extraNat_bounds hashes he
  unfold exactRate rateNat
  rw [mul_thousand_div he]
  generalize hashes % elapsedMs * 1000 / elapsedMs = exact at *
  generalize extraNat elapsedMs (hashes % elapsedMs) = extra at *
  generalize hashes / elapsedMs = quotient
  have hmax : uint64Max = 2 ^ 64 - 1 := rfl
  dsimp only
  split
  · omega
  · split <;> omega

/-- **The rate is exact** where the remainder is small, or where the quotient
alone is more than 64 bits hold a thousand times. -/
theorem rate_exact (he : 0 < elapsedMs)
    (h : hashes % elapsedMs ≤ uint64Max / 1000
      ∨ uint64Max / 1000 < hashes / elapsedMs) :
    rateNat hashes elapsedMs = exactRate hashes elapsedMs := by
  unfold exactRate rateNat
  rw [mul_thousand_div he]
  have hextra : hashes % elapsedMs ≤ uint64Max / 1000 →
      extraNat elapsedMs (hashes % elapsedMs)
        = hashes % elapsedMs * 1000 / elapsedMs := extraNat_of_le
  generalize hashes % elapsedMs * 1000 / elapsedMs = exact at *
  generalize extraNat elapsedMs (hashes % elapsedMs) = extra at *
  generalize hashes / elapsedMs = quotient at *
  have hmax : uint64Max = 2 ^ 64 - 1 := rfl
  dsimp only
  split
  · omega
  next hq =>
    have := hextra (h.resolve_right hq)
    split <;> omega

end Computation

/-! ## The rate of a session -/

/-- What the remainder adds, in 64 bits. -/
theorem toNat_extra (elapsedMs remainder : UInt64) :
    (if remainder ≤ (0xffffffffffffffff : UInt64) / 1000 then
        remainder * 1000 / elapsedMs
      else if 999 < remainder / (elapsedMs / 1000 + 1) then 999
      else remainder / (elapsedMs / 1000 + 1)).toNat
      = extraNat elapsedMs.toNat remainder.toNat := by
  have hmax : uint64Max = 2 ^ 64 - 1 := rfl
  have hbound : ((0xffffffffffffffff : UInt64) / 1000).toNat
      = uint64Max / 1000 := rfl
  have helapsed := elapsedMs.toNat_lt
  have hle : remainder ≤ (0xffffffffffffffff : UInt64) / 1000
      ↔ remainder.toNat ≤ uint64Max / 1000 := by
    rw [UInt64.le_iff_toNat_le, hbound]
  unfold extraNat
  by_cases hr : remainder.toNat ≤ uint64Max / 1000
  · have hmul : (remainder * 1000).toNat = remainder.toNat * 1000 := by
      rw [UInt64.toNat_mul]
      exact Nat.mod_eq_of_lt (by show remainder.toNat * 1000 < _; omega)
    rw [if_pos (hle.mpr hr), if_pos hr, UInt64.toNat_div, hmul]
  · have hdivisor : (elapsedMs / 1000 + 1).toNat
        = elapsedMs.toNat / 1000 + 1 := by
      rw [UInt64.toNat_add, UInt64.toNat_div]
      exact Nat.mod_eq_of_lt (by show elapsedMs.toNat / 1000 + 1 < _; omega)
    have hclamp : 999 < remainder / (elapsedMs / 1000 + 1)
        ↔ 999 < remainder.toNat / (elapsedMs.toNat / 1000 + 1) := by
      rw [UInt64.lt_iff_toNat_lt, UInt64.toNat_div, hdivisor]
      rfl
    rw [if_neg (mt hle.mp hr), if_neg hr]
    dsimp only
    by_cases hc : 999 < remainder.toNat / (elapsedMs.toNat / 1000 + 1)
    · rw [if_pos (hclamp.mpr hc), if_pos hc]
      rfl
    · rw [if_neg (mt hclamp.mp hc), if_neg hc, UInt64.toNat_div, hdivisor]

/-- **The computation in 64 bits is the one on natural numbers.** -/
theorem toNat_hashRate (hashes elapsedMs : UInt64) :
    (hashRate hashes elapsedMs).toNat
      = rateNat hashes.toNat elapsedMs.toNat := by
  have hmax : uint64Max = 2 ^ 64 - 1 := rfl
  have hbound : ((0xffffffffffffffff : UInt64) / 1000).toNat
      = uint64Max / 1000 := rfl
  have hextra := toNat_extra elapsedMs (hashes % elapsedMs)
  rw [UInt64.toNat_mod] at hextra
  have hlt : (0xffffffffffffffff : UInt64) / 1000 < hashes / elapsedMs
      ↔ uint64Max / 1000 < hashes.toNat / elapsedMs.toNat := by
    rw [UInt64.lt_iff_toNat_lt, hbound, UInt64.toNat_div]
  unfold hashRate rateNat
  dsimp only
  by_cases hq : uint64Max / 1000 < hashes.toNat / elapsedMs.toNat
  · rw [if_pos (hlt.mpr hq), if_pos hq]
    rfl
  rw [if_neg (mt hlt.mp hq), if_neg hq]
  generalize (if hashes % elapsedMs ≤ (0xffffffffffffffff : UInt64) / 1000 then
        hashes % elapsedMs * 1000 / elapsedMs
      else if 999 < hashes % elapsedMs / (elapsedMs / 1000 + 1) then 999
      else hashes % elapsedMs / (elapsedMs / 1000 + 1)) = extra at hextra ⊢
  have hrate : (hashes / elapsedMs * 1000).toNat
      = hashes.toNat / elapsedMs.toNat * 1000 := by
    rw [UInt64.toNat_mul, UInt64.toNat_div]
    exact Nat.mod_eq_of_lt (by
      show hashes.toNat / elapsedMs.toNat * 1000 < _
      omega)
  have hroom : ((0xffffffffffffffff : UInt64)
      - hashes / elapsedMs * 1000).toNat
        = uint64Max - hashes.toNat / elapsedMs.toNat * 1000 := by
    rw [UInt64.toNat_sub_of_le, hrate]
    · rfl
    · rw [UInt64.le_iff_toNat_le, hrate]
      show _ ≤ uint64Max
      omega
  have hfull : (0xffffffffffffffff : UInt64) - hashes / elapsedMs * 1000
      < extra ↔ uint64Max - hashes.toNat / elapsedMs.toNat * 1000
        < extraNat elapsedMs.toNat (hashes.toNat % elapsedMs.toNat) := by
    rw [UInt64.lt_iff_toNat_lt, hroom, hextra]
  by_cases hc : uint64Max - hashes.toNat / elapsedMs.toNat * 1000
      < extraNat elapsedMs.toNat (hashes.toNat % elapsedMs.toNat)
  · rw [if_pos (hfull.mpr hc), if_pos hc]
    rfl
  · rw [if_neg (mt hfull.mp hc), if_neg hc, UInt64.toNat_add, hrate, hextra]
    exact Nat.mod_eq_of_lt (by omega)

variable {τ : Type}

namespace World

/-- **A HASH_PROGRESS that is accepted**: of a session that has its address
and works on the active job, and with a time other than zero. -/
structure AcceptsProgress (w : World τ) (client : ClientSession) : Prop where
  /-- The session has its address. -/
  registered : client.addressRegistered = true
  /-- The frame is one. -/
  header : Miner.headerValid client.rx.bytes = true
  type : client.rx.bytes.getD 5 0 = Miner.hashProgress
  /-- There is work, and the session has it. -/
  haveWork : w.server.work.haveWork = true
  hasJob : client.hasJob = true
  /-- The frame is for it. -/
  active : slice client.rx.bytes 8 32 = w.server.work.jobId.bytes
  sent : slice client.rx.bytes 8 32 = client.sentJobId.bytes
  /-- Some time has passed. -/
  elapsed : readBE (slice client.rx.bytes 48 8) ≠ 0

/-- **Hash rates are exact but for one.** A HASH_PROGRESS that is accepted, on
either platform, with any number of hashes and any time, is computed without
an operation that wraps or divides by zero. The rate that is stored is the
exact one, cut off at `2^64 - 1`, or one less; and it is the exact one where
the remainder of hashes by time is at most a thousandth of `2^64 - 1`, or the
quotient alone exceeds that. -/
theorem hash_progress_rate {w : World τ} {c : ConnId} {client : ClientSession}
    (hs : w.client? c = some client) (ha : w.AcceptsProgress client) :
    let hashes := readBE (slice client.rx.bytes 40 8)
    let elapsedMs := readBE (slice client.rx.bytes 48 8)
    ∃ rate : UInt64,
      (w.processHashProgress c).client? c
          = some { client with hashrate := rate }
        ∧ rateChecked hashes elapsedMs = some rate.toNat
        ∧ rate.toNat ≤ exactRate hashes elapsedMs
        ∧ exactRate hashes elapsedMs ≤ rate.toNat + 1
        ∧ (hashes % elapsedMs ≤ (2 ^ 64 - 1) / 1000
            ∨ (2 ^ 64 - 1) / 1000 < hashes / elapsedMs →
          rate.toNat = exactRate hashes elapsedMs) := by
  intro hashes elapsedMs
  have hread : ∀ off, readBE (slice client.rx.bytes off 8) < 2 ^ 64 := by
    intro off
    refine lt_of_lt_of_le (readBE_lt _) ?_
    rw [show 2 ^ 64 = 256 ^ 8 from rfl]
    refine Nat.pow_le_pow_right (by decide) ?_
    exact List.length_take_le _ _
  have hh : (UInt64.ofNat hashes).toNat = hashes :=
    UInt64.toNat_ofNat_of_lt' (hread 40)
  have he : (UInt64.ofNat elapsedMs).toNat = elapsedMs :=
    UInt64.toNat_ofNat_of_lt' (hread 48)
  have hne : UInt64.ofNat elapsedMs ≠ 0 := fun h0 =>
    ha.elapsed (he.symm.trans (congrArg UInt64.toNat h0))
  have hrate := toNat_hashRate (UInt64.ofNat hashes) (UInt64.ofNat elapsedMs)
  rw [hh, he] at hrate
  refine ⟨hashRate (UInt64.ofNat hashes) (UInt64.ofNat elapsedMs), ?_, ?_, ?_⟩
  · unfold processHashProgress
    rw [hs]
    dsimp only
    rw [if_neg (by rw [ha.registered]; exact Bool.noConfusion),
      if_neg (by rw [ha.header, ha.type]; decide), if_neg (by
        rw [ha.haveWork, ha.hasJob]
        rintro (h | h | h | h)
        · cases h
        · cases h
        · exact h ha.active
        · exact h ha.sent), if_neg hne]
    let noted (s : ClientSession) : ClientSession :=
      { s with hashrate :=
          hashRate (UInt64.ofNat hashes) (UInt64.ofNat elapsedMs) }
    have hsocket : ∀ s, (noted s).socket = s.socket := fun _ => rfl
    have hset : (w.setClient c noted).client? c = some (noted client) := by
      rw [client?_setClient hsocket, if_pos rfl, hs]
      rfl
    exact hset
  · rw [hrate]
    exact rateChecked_eq ha.elapsed (hread 48)
  · rw [hrate]
    have hpos : 0 < elapsedMs := Nat.pos_of_ne_zero ha.elapsed
    exact ⟨(rate_bounds hpos).1, (rate_bounds hpos).2, rate_exact hpos⟩

end World

/-! ### A rate that is noted -/

/-- A HASH_PROGRESS for the work ID zero: a million hashes in two seconds. -/
def progressFrame : Bytes :=
  Miner.magic ++ [Miner.version, Miner.hashProgress, 0, 0]
    ++ List.replicate 32 0 ++ writeBE 8 1000000 ++ writeBE 8 2000

/-- The session of a miner when its HASH_PROGRESS has been received. -/
def hasher : ClientSession :=
  { solver with
    rx := (Buf.zero _).write 0 progressFrame
    rxUsed := Miner.hashProgressSize
    hasJob := true }

/-- A server with this miner as its only one, and with the work ID zero. -/
def hashing : World (List Bytes) :=
  (rehearsal 0).setServer fun s => { s with
    clients := [hasher]
    work := { s.work with haveWork := true } }

/-- Half a million hashes a second are noted. -/
theorem hash_progress_rate_hashing :
    ∃ rate : UInt64, (hashing.processHashProgress 0).client? 0
        = some { hasher with hashrate := rate }
      ∧ rate.toNat = 500000 := by
  have ha : hashing.AcceptsProgress hasher := by
    constructor <;> decide +kernel
  have hs : hashing.client? 0 = some hasher := rfl
  obtain ⟨rate, hnoted, _, _, _, hexact⟩ := World.hash_progress_rate hs ha
  have hr : exactRate (readBE (slice hasher.rx.bytes 40 8))
      (readBE (slice hasher.rx.bytes 48 8)) = 500000 := by decide +kernel
  have hsmall : readBE (slice hasher.rx.bytes 40 8)
      % readBE (slice hasher.rx.bytes 48 8) ≤ (2 ^ 64 - 1) / 1000 := by
    decide +kernel
  exact ⟨rate, hnoted, (hexact (.inl hsmall)).trans hr⟩
