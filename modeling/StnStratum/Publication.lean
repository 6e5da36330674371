import StnStratum.Failover
import StnStratum.HashRate
import StnStratum.Hex
import StnStratum.SessionInvariant
import StnStratum.StatusReply

/-!
# What the telemetry is told

In every turn of its loop the server publishes its state: `telemetry_tick`
counts the sessions and adds their hash rates, writes the work in hexadecimal,
and leaves the rest to `snapshot_publish`. The sum stops at what 64 bits hold,
and stops early there, which is the same in every order of the sessions
(`toNat_totalHashrate`).

What is published of a server that can be reached is what its state is
(`telemetry_tick_publishes`): a session without a job has no hash rate, so only
those with one are in the sum, and the work that there is has its target in the
template.
-/

variable {τ : Type}

/-! ## The source -/

/-- The loop of `stn_client_session_total_hashrate`. -/
def totalHashrateFrom (total : UInt64) : List ClientSession → UInt64
  | [] => total
  | session :: sessions =>
    if 0xffffffffffffffff - total < session.hashrate then 0xffffffffffffffff
    else totalHashrateFrom (total + session.hashrate) sessions

/-- **`stn_client_session_total_hashrate`.** -/
def totalHashrate (sessions : List ClientSession) : UInt64 :=
  totalHashrateFrom 0 sessions

/-- The loop of `stn_client_session_count`. -/
def sessionCountFrom (count : UInt64) : List ClientSession → UInt64
  | [] => count
  | _ :: sessions =>
    if count = 0xffffffffffffffff then 0xffffffffffffffff
    else sessionCountFrom (count + 1) sessions

/-- **`stn_client_session_count`.** -/
def sessionCount (sessions : List ClientSession) : UInt64 :=
  sessionCountFrom 0 sessions

/-- **`telemetry_hex32`.** -/
def telemetryHex32 (out : Buf telemetryHexSize) (value : Bytes) :
    Buf telemetryHexSize :=
  let out := (List.range 32).foldl
    (fun out i =>
      (out.write (i * 2)
        [Hex.digits.getD (((value.getD i 0) >>> 4) &&& 0x0f).toNat 0]).write
        (i * 2 + 1) [Hex.digits.getD ((value.getD i 0) &&& 0x0f).toNat 0])
    out
  out.write 64 [0]

/-- `job`, `base` or `target` before there is anything in it. -/
def noDigits (out : Buf telemetryHexSize) : Buf telemetryHexSize :=
  (out.write 0 (List.replicate 64 0x30)).write 64 [0]

namespace StratumServer

variable (s : StratumServer τ) (heap : Heap) (startedAt now : ℤ)

/-- **The status that `telemetry_tick` publishes.** The heap is for what is in
its arrays before it stores in them. -/
def telemetryStatus : TelemetryStatus :=
  let digits := noDigits (heap.uninit _)
  let work := s.work
  let job := if work.haveWork = true then telemetryHex32 digits work.jobId.bytes
    else digits
  let base := if work.haveWork = true then telemetryHex32 digits work.base.bytes
    else digits
  let target :=
    if work.haveWork = true
        ∧ 68 + Miner.chainTargetOffset + 32 ≤ work.templateLength then
      telemetryHex32 digits
        (slice work.template.bytes (68 + Miner.chainTargetOffset) 32)
    else digits
  { chainConnected := if s.chainAvailable = true then 1 else 0
    chainHost := some ((s.activeChain.map ChainConfigEntry.host).getD [])
    chainPort := (s.activeChain.map ChainConfigEntry.port).getD 0
    workAvailable := if work.haveWork = true then 1 else 0
    miners := sessionCount s.clients
    hashrate := totalHashrate s.clients
    jobId := some (ChainConfig.cString job.bytes)
    baseId := some (ChainConfig.cString base.bytes)
    target := some (ChainConfig.cString target.bytes)
    uptimeSeconds := if startedAt ≠ 0 ∧ startedAt ≤ now then
      UInt64.ofNat (now - startedAt).toNat else 0 }

/-- **`telemetry_tick`**: the snapshot of the service behind it. -/
def telemetryTick (snapshot : TelemetrySnapshot) : TelemetrySnapshot :=
  snapshotPublish snapshot (s.telemetryStatus heap startedAt now)

end StratumServer

/-! ## The sums -/

/-- **The sum stops at what 64 bits hold.** -/
theorem toNat_totalHashrateFrom (total : UInt64)
    (sessions : List ClientSession) :
    (totalHashrateFrom total sessions).toNat = min uint64Max
      (total.toNat + (sessions.map fun s => s.hashrate.toNat).sum) := by
  have hmax : (0xffffffffffffffff : UInt64).toNat = uint64Max := rfl
  induction sessions generalizing total with
  | nil =>
    have := total.toNat_lt
    show total.toNat = min (2 ^ 64 - 1) (total.toNat + 0)
    omega
  | cons s sessions ih =>
    have ht := total.toNat_lt
    have hroom : ((0xffffffffffffffff : UInt64) - total).toNat
        = uint64Max - total.toNat := by
      rw [UInt64.toNat_sub_of_le _ _ (UInt64.le_iff_toNat_le.mpr
        (show total.toNat ≤ 2 ^ 64 - 1 by omega)), hmax]
    rw [List.map_cons, List.sum_cons, totalHashrateFrom]
    split
    next hlt =>
      rw [UInt64.lt_iff_toNat_lt, hroom] at hlt
      rw [hmax]
      omega
    next hle =>
      rw [UInt64.lt_iff_toNat_lt, hroom, not_lt] at hle
      unfold uint64Max at hle
      rw [ih, UInt64.toNat_add, Nat.mod_eq_of_lt (by omega), Nat.add_assoc]

theorem toNat_totalHashrate (sessions : List ClientSession) :
    (totalHashrate sessions).toNat
      = min uint64Max (sessions.map fun s => s.hashrate.toNat).sum := by
  rw [totalHashrate, toNat_totalHashrateFrom]
  exact congrArg (min uint64Max) (Nat.zero_add _)

/-- **The order makes no difference.** -/
theorem totalHashrate_perm {sessions sessions' : List ClientSession}
    (h : sessions.Perm sessions') :
    totalHashrate sessions = totalHashrate sessions' := by
  rw [← UInt64.toNat_inj, toNat_totalHashrate, toNat_totalHashrate,
    (h.map _).sum_nat]

/-- **Sessions without a hash rate make no difference** either. -/
theorem sum_filter_hashrate {sessions : List ClientSession}
    {p : ClientSession → Bool}
    (h : ∀ s ∈ sessions, p s = false → s.hashrate = 0) :
    ((sessions.filter p).map fun s => s.hashrate.toNat).sum
      = (sessions.map fun s => s.hashrate.toNat).sum := by
  induction sessions with
  | nil => rfl
  | cons s sessions ih =>
    have hrest := ih fun a ha => h a (List.mem_cons_of_mem _ ha)
    rw [List.map_cons, List.sum_cons]
    cases hp : p s with
    | true =>
      rw [List.filter_cons_of_pos hp, List.map_cons, List.sum_cons, hrest]
    | false =>
      rw [List.filter_cons_of_neg (by rw [hp]; exact Bool.false_ne_true), hrest,
        h s List.mem_cons_self hp]
      exact (Nat.zero_add _).symm

/-- The count stops there, too. -/
theorem toNat_sessionCount (sessions : List ClientSession) :
    (sessionCount sessions).toNat = min uint64Max sessions.length := by
  have key : ∀ (count : UInt64) (sessions : List ClientSession),
      (sessionCountFrom count sessions).toNat
        = min uint64Max (count.toNat + sessions.length) := by
    intro count sessions
    induction sessions generalizing count with
    | nil =>
      have := count.toNat_lt
      show count.toNat = min (2 ^ 64 - 1) (count.toNat + 0)
      omega
    | cons s sessions ih =>
      have hc := count.toNat_lt
      rw [List.length_cons, sessionCountFrom]
      split
      next he =>
        rw [he]
        show uint64Max = min uint64Max (uint64Max + _)
        omega
      next hne =>
        have hlt : count.toNat ≠ 2 ^ 64 - 1 := fun h =>
          hne (UInt64.toNat_inj.mp h)
        have hone : (count + 1).toNat = count.toNat + 1 := by
          rw [UInt64.toNat_add]
          exact Nat.mod_eq_of_lt (show count.toNat + 1 < 2 ^ 64 by omega)
        rw [ih, hone, Nat.add_right_comm, Nat.add_assoc]
  rw [sessionCount, key]
  exact congrArg (min uint64Max) (Nat.zero_add _)

/-! ## The strings -/

/-- The upper four bits of a byte. -/
theorem digits_high (b : UInt8) :
    Hex.digits.getD ((b >>> 4) &&& 0x0f).toNat 0 = Hex.digit (b.toNat / 16) := by
  have hb := b.toNat_lt
  have h : ((b >>> 4) &&& 0x0f).toNat = b.toNat / 16 := by
    rw [UInt8.toNat_and, UInt8.toNat_shiftRight]
    show b.toNat >>> 4 &&& (2 ^ 4 - 1) = _
    rw [Nat.and_two_pow_sub_one_eq_mod, Nat.shiftRight_eq_div_pow]
    omega
  rw [h]
  rfl

/-- The lower four. -/
theorem digits_low (b : UInt8) :
    Hex.digits.getD (b &&& 0x0f).toNat 0 = Hex.digit (b.toNat % 16) := by
  have h : (b &&& 0x0f).toNat = b.toNat % 16 := by
    rw [UInt8.toNat_and]
    exact Nat.and_two_pow_sub_one_eq_mod _ 4
  rw [h]
  rfl

/-- **`telemetry_hex32` stores the digits**, whatever was there. -/
theorem begins_telemetryHex32 (out : Buf telemetryHexSize) {value : Bytes}
    (h : value.length = 32) :
    (telemetryHex32 out value).Begins (Hex.encode value ++ [0]) := by
  have key : ∀ n ≤ 32, ((List.range n).foldl
      (fun (out : Buf telemetryHexSize) i =>
        (out.write (i * 2)
          [Hex.digits.getD (((value.getD i 0) >>> 4) &&& 0x0f).toNat 0]).write
          (i * 2 + 1) [Hex.digits.getD ((value.getD i 0) &&& 0x0f).toNat 0])
      out).Begins (Hex.encode (value.take n)) := by
    intro n hn
    induction n with
    | zero => exact out.begins_nil
    | succ n ih =>
      have hi : n < value.length := by omega
      have hlen : (Hex.encode (value.take n)).length = n * 2 := by
        rw [Hex.length_encode, List.length_take]
        omega
      have hb := ((ih (by omega)).write (s := [Hex.digit
          ((value.getD n 0).toNat / 16)]) hlen
          (show n * 2 + 1 ≤ 65 by omega)).write
        (s := [Hex.digit ((value.getD n 0).toNat % 16)]) (i := n * 2 + 1)
        (by rw [List.length_append, hlen]; rfl)
        (show n * 2 + 1 + 1 ≤ 65 by omega)
      rw [List.range_succ, List.foldl_append, List.foldl_cons, List.foldl_nil,
        digits_high, digits_low, List.take_succ_eq_append_getElem hi,
        Hex.encode_append]
      rw [List.append_assoc] at hb
      have hget : value.getD n 0 = value[n] := by
        rw [List.getD_eq_getElem?_getD, List.getElem?_eq_getElem hi]
        rfl
      rw [← hget]
      exact hb
  have h32 := key 32 le_rfl
  rw [List.take_of_length_le (by omega)] at h32
  exact h32.write (by rw [Hex.length_encode, h]) (by decide)

/-- **A string is cut off where it does not fit**, and ends with a
terminator. -/
theorem begins_copyText {n : ℕ} (hn : 0 < n) (output : Buf n) (s : Bytes) :
    (copyText output (some s)).Begins (s.take (n - 1) ++ [0]) := by
  have hlen : (if n ≤ s.length then n - 1 else s.length)
      = (s.take (n - 1)).length := by
    rw [List.length_take]
    split <;> omega
  have htake : s.take (s.take (n - 1)).length = s.take (n - 1) := by
    rw [List.length_take, ← List.take_eq_take_min]
  have hle : (s.take (n - 1)).length ≤ n - 1 := List.length_take_le _ _
  unfold copyText
  rw [if_neg (by omega)]
  dsimp only
  rw [hlen, htake]
  refine Buf.Begins.write ?_ rfl (by rw [List.length_singleton]; omega)
  by_cases h0 : (s.take (n - 1)).length = 0
  · rw [List.length_eq_zero_iff.mp h0]
    exact Buf.begins_nil _
  · rw [if_pos h0]
    exact (Buf.begins_nil _).write (i := 0) rfl (by omega)

/-- An array before there is anything in it holds zeros. -/
theorem begins_noDigits (out : Buf telemetryHexSize) :
    (noDigits out).Begins (List.replicate 64 0x30 ++ [0]) :=
  ((out.begins_nil.write (i := 0) (s := List.replicate 64 0x30) rfl
    (by decide)).write (i := 64) List.length_replicate (by decide))

/-- **What is published of an array** with so many digits in it is the
digits. -/
theorem cString_copyText {array : Buf telemetryHexSize} {digits : Bytes}
    (h : array.Begins (digits ++ [0])) (hlen : digits.length = 64)
    (h₀ : 0 ∉ digits) (output : Buf telemetryHexSize) :
    ChainConfig.cString
        (copyText output (some (ChainConfig.cString array.bytes))).bytes
      = digits := by
  rw [ChainConfig.cString_of_begins h h₀]
  have hb := begins_copyText (by decide) output digits
  rw [List.take_of_length_le (by rw [hlen]; decide)] at hb
  exact ChainConfig.cString_of_begins hb h₀

/-- **What is published of an array in hexadecimal** is read back. -/
theorem decode_copyText (array : Buf telemetryHexSize) {value : Bytes}
    (h : value.length = 32) (output : Buf telemetryHexSize) :
    Hex.decode (ChainConfig.cString (copyText output (some
        (ChainConfig.cString (telemetryHex32 array value).bytes))).bytes)
      = some value := by
  have h₀ : 0 ∉ Hex.encode value := fun hm =>
    absurd (Hex.mem_digits_of_mem_encode hm) (by decide)
  rw [cString_copyText (begins_telemetryHex32 array h)
    (by rw [Hex.length_encode, h]) h₀, Hex.decode_encode]

/-- The array that is published holds a value, where there is one. -/
theorem decode_published (digits : Buf telemetryHexSize) {c : Prop}
    [Decidable c] (hc : c) {value : Bytes} (h : value.length = 32)
    (output : Buf telemetryHexSize) :
    Hex.decode (ChainConfig.cString (copyText output (some
        (ChainConfig.cString
          (if c then telemetryHex32 digits value else digits).bytes))).bytes)
      = some value := by
  rw [if_pos hc]
  exact decode_copyText digits h output

/-- Else it holds zeros. -/
theorem cString_published (out : Buf telemetryHexSize) {c : Prop}
    [Decidable c] (hc : ¬ c) (value : Bytes) (output : Buf telemetryHexSize) :
    ChainConfig.cString (copyText output (some (ChainConfig.cString
        (if c then telemetryHex32 (noDigits out) value
          else noDigits out).bytes))).bytes
      = List.replicate 64 0x30 := by
  rw [if_neg hc]
  exact cString_copyText (begins_noDigits out) List.length_replicate (by decide)
    output

/-! ## What is published -/

/-- **What is published is the state of the server.** There are as many miners
as sessions, which is `client_count`, a number of 64 bits; the hash rate is
their sum, as far as it fits, in whatever order they are added, and it is the
sum over those with a job; the strings of the work are its work ID, its base and
its target, or zeros; and the host and the port are those of the active
Chain. -/
theorem telemetry_tick_publishes {T : ChainTransport τ} {w : World τ}
    (h : (turns .linux T).Reachable w) (heap : Heap) (startedAt now : ℤ)
    (snapshot : TelemetrySnapshot) :
    let s := w.server
    let p := s.telemetryTick heap startedAt now snapshot
    (p.miners.toNat = min uint64Max s.clients.length
        ∧ (s.clientCount ≤ uint64Max → p.miners.toNat = s.clients.length
          ∧ p.miners.toNat = s.clientCount))
      ∧ (p.hashrate.toNat
          = min uint64Max (s.clients.map fun c => c.hashrate.toNat).sum
        ∧ (∀ sessions, s.clients.Perm sessions →
          totalHashrate sessions = p.hashrate)
        ∧ p.hashrate.toNat = min uint64Max
          ((s.clients.filter (·.hasJob)).map fun c => c.hashrate.toNat).sum)
      ∧ (s.work.haveWork = true →
        Hex.decode (ChainConfig.cString p.jobId.bytes)
            = some s.work.jobId.bytes
          ∧ Hex.decode (ChainConfig.cString p.baseId.bytes)
            = some s.work.base.bytes
          ∧ 68 + Miner.chainTargetOffset + 32 ≤ s.work.templateLength
          ∧ Hex.decode (ChainConfig.cString p.target.bytes)
            = some (slice s.work.template.bytes (68 + Miner.chainTargetOffset) 32))
      ∧ (s.work.haveWork = false →
        ChainConfig.cString p.jobId.bytes = List.replicate 64 0x30
          ∧ ChainConfig.cString p.baseId.bytes = List.replicate 64 0x30
          ∧ ChainConfig.cString p.target.bytes = List.replicate 64 0x30)
      ∧ (s.chainServers ≠ [] → ∃ entry, s.activeChain = some entry
        ∧ p.chainHost.Begins (entry.host.take 255 ++ [0])
        ∧ p.chainPort = entry.port) := by
  intro s p
  have hc := counted_of_turns h
  have hok : ∀ c ∈ s.clients, SessionOk s.work c := fun c hm =>
    Sessions.of_reachable sessionRule_ok sessionOk_init h _ _
      (hc.client?_of_mem hm)
  have hminers := toNat_sessionCount s.clients
  have hsum := toNat_totalHashrate s.clients
  refine ⟨⟨hminers, fun hle => ?_⟩, ⟨hsum, fun sessions hp => ?_, ?_⟩,
    fun hw => ?_, fun hw => ?_, fun hs => ?_⟩
  · have hcount : s.clientCount = s.clients.length := hc.count
    have : p.miners.toNat = s.clients.length := by
      rw [← hcount]
      rw [← hcount] at hminers
      exact hminers.trans (Nat.min_eq_right hle)
    exact ⟨this, this.trans hcount.symm⟩
  · exact (totalHashrate_perm hp).symm
  · rw [sum_filter_hashrate fun c hm hj => ((hok c hm).noJob hj).2]
    exact hsum
  · have hlen := ((workCoherent_of_turns h).installed hw).2.length.1
    have htarget : 68 + Miner.chainTargetOffset + 32 ≤ s.work.templateLength :=
      le_trans (by decide) hlen
    have hfits := s.work.fits
    have hslice : (slice s.work.template.bytes
        (68 + Miner.chainTargetOffset) 32).length = 32 :=
      length_slice (by rw [s.work.template.size]; exact htarget.trans hfits)
    exact ⟨decode_published _ hw s.work.jobId.size _,
      decode_published _ hw s.work.base.size _, htarget,
      decode_published _ ⟨hw, htarget⟩ hslice _⟩
  · have hnot : ¬ s.work.haveWork = true := by
      rw [hw]
      exact Bool.false_ne_true
    exact ⟨cString_published _ hnot _ _, cString_published _ hnot _ _,
      cString_published _ (fun hn => hnot hn.1) _ _⟩
  · have hlt := (inRange_of_turns h).resolve_left hs
    have he : s.activeChain = some s.chainServers[s.activeChainServer] :=
      List.getElem?_eq_getElem hlt
    refine ⟨_, he, ?_, ?_⟩
    · show (copyText _ (some ((s.activeChain.map _).getD []))).Begins _
      rw [he]
      exact begins_copyText (by decide) _ _
    · show (s.activeChain.map _).getD 0 = _
      rw [he]
      rfl

/-- The rehearsal when the miner has its job. -/
def rehearsed : World (List Bytes) :=
  (stratum .linux Rpc.replay).run (rehearsal 0) (performance.take 3)

/-- There is a miner and there is work, and both are published. -/
theorem telemetry_tick_publishes_rehearsed :
    (rehearsed.server.telemetryTick ⟨[], fun _ => 0⟩ 1 2 .zero).miners.toNat = 1
      ∧ Hex.decode (ChainConfig.cString (rehearsed.server.telemetryTick
          ⟨[], fun _ => 0⟩ 1 2 .zero).jobId.bytes)
        = some rehearsed.server.work.jobId.bytes := by
  have hw : (stratum .linux Rpc.replay).Reachable rehearsed :=
    reachable_rehearsal 0 (performance.take 3)
  obtain ⟨⟨_, hminers⟩, _, hwork, _⟩ := telemetry_tick_publishes hw.turns
    ⟨[], fun _ => 0⟩ 1 2 .zero
  have hcount : rehearsed.server.clientCount = 1 := by decide +kernel
  have hfits : rehearsed.server.clientCount ≤ uint64Max := by
    rw [hcount]
    unfold uint64Max
    omega
  have hhave : rehearsed.server.work.haveWork = true := by decide +kernel
  exact ⟨(hminers hfits).2.trans hcount, (hwork hhave).1⟩
