import StnStratum.Buffer
import StnStratum.Seqlock

/-!
# The telemetry snapshot

The main thread publishes what the telemetry shows, and the telemetry worker
reads it, without a lock: `snapshot_publish` and `snapshot_read` share a
counter of 32 bits and a structure of ten fields. Here are the fields, the
stores of the one and the copies of the other; the two threads are those of
`Seqlock`, whose reader and writer take the steps of the two functions between
them.

What is published replaces the text fields up to their terminating zeros and
leaves what is behind them, so a snapshot is made of all publications so far
(`snapshotPublish`).
-/

/-- `STN_TELEMETRY_HOST_SIZE`. -/
abbrev telemetryHostSize : ℕ := 256
/-- `STN_TELEMETRY_HEX_SIZE`. -/
abbrev telemetryHexSize : ℕ := 65

/-- **`stn_telemetry_status`**, with the strings its pointers point at. -/
structure TelemetryStatus where
  /-- `chain_connected`. -/
  chainConnected : Int32
  /-- `chain_host`. -/
  chainHost : Option Bytes
  /-- `chain_port`. -/
  chainPort : UInt16
  /-- `work_available`. -/
  workAvailable : Int32
  /-- `miners`. -/
  miners : UInt64
  /-- `hashrate`. -/
  hashrate : UInt64
  /-- `job_id`. -/
  jobId : Option Bytes
  /-- `base_id`. -/
  baseId : Option Bytes
  /-- `target`. -/
  target : Option Bytes
  /-- `uptime_seconds`. -/
  uptimeSeconds : UInt64

/-- **`stn_telemetry_snapshot`.** -/
structure TelemetrySnapshot where
  /-- `chain_connected`. -/
  chainConnected : Int32
  /-- `chain_host`. -/
  chainHost : Buf telemetryHostSize
  /-- `chain_port`. -/
  chainPort : UInt16
  /-- `work_available`. -/
  workAvailable : Int32
  /-- `miners`. -/
  miners : UInt64
  /-- `hashrate`. -/
  hashrate : UInt64
  /-- `job_id`. -/
  jobId : Buf telemetryHexSize
  /-- `base_id`. -/
  baseId : Buf telemetryHexSize
  /-- `target`. -/
  target : Buf telemetryHexSize
  /-- `uptime_seconds`. -/
  uptimeSeconds : UInt64

/-- **`copy_text`**, of a string without its terminating zero. -/
def copyText {n : ℕ} (output : Buf n) (input : Option Bytes) : Buf n :=
  if n = 0 then output
  else
    let output := output.write 0 [0]
    match input with
    | none => output
    | some s =>
      let length := if n ≤ s.length then n - 1 else s.length
      let output := if length ≠ 0 then output.write 0 (s.take length)
        else output
      output.write length [0]

namespace TelemetrySnapshot

/-- **`snapshot_zero`.** -/
def zero : TelemetrySnapshot :=
  let digits := (Buf.zero telemetryHexSize).write 0 (List.replicate 64 0x30)
  { chainConnected := 0
    chainHost := Buf.zero _
    chainPort := 0
    workAvailable := 0
    miners := 0
    hashrate := 0
    jobId := digits.write 64 [0]
    baseId := digits.write 64 [0]
    target := digits.write 64 [0]
    uptimeSeconds := 0 }

/-- **The stores of `snapshot_publish`**, in its order. -/
def stores (status : TelemetryStatus) :
    List (TelemetrySnapshot → TelemetrySnapshot) :=
  [fun s => { s with chainConnected := status.chainConnected },
    fun s => { s with chainHost := copyText s.chainHost status.chainHost },
    fun s => { s with chainPort := status.chainPort },
    fun s => { s with workAvailable := status.workAvailable },
    fun s => { s with miners := status.miners },
    fun s => { s with hashrate := status.hashrate },
    fun s => { s with jobId := copyText s.jobId status.jobId },
    fun s => { s with baseId := copyText s.baseId status.baseId },
    fun s => { s with target := copyText s.target status.target },
    fun s => { s with uptimeSeconds := status.uptimeSeconds }]

/-- **The copies of `snapshot_read`**, field by field. -/
def copies : List (TelemetrySnapshot → TelemetrySnapshot → TelemetrySnapshot) :=
  [fun s copy => { copy with chainConnected := s.chainConnected },
    fun s copy => { copy with chainHost := s.chainHost },
    fun s copy => { copy with chainPort := s.chainPort },
    fun s copy => { copy with workAvailable := s.workAvailable },
    fun s copy => { copy with miners := s.miners },
    fun s copy => { copy with hashrate := s.hashrate },
    fun s copy => { copy with jobId := s.jobId },
    fun s copy => { copy with baseId := s.baseId },
    fun s copy => { copy with target := s.target },
    fun s copy => { copy with uptimeSeconds := s.uptimeSeconds }]

end TelemetrySnapshot

/-- **The telemetry service as two threads.** -/
def telemetry : Seqlock TelemetrySnapshot TelemetryStatus where
  initial := .zero
  stores := TelemetrySnapshot.stores
  copies := TelemetrySnapshot.copies
  copies_all _ _ := rfl

/-- **A snapshot behind a publication.** -/
def snapshotPublish (s : TelemetrySnapshot) (status : TelemetryStatus) :
    TelemetrySnapshot where
  chainConnected := status.chainConnected
  chainHost := copyText s.chainHost status.chainHost
  chainPort := status.chainPort
  workAvailable := status.workAvailable
  miners := status.miners
  hashrate := status.hashrate
  jobId := copyText s.jobId status.jobId
  baseId := copyText s.baseId status.baseId
  target := copyText s.target status.target
  uptimeSeconds := status.uptimeSeconds

/-- The stores make that snapshot. -/
theorem publish_telemetry :
    telemetry.publish = snapshotPublish := by
  funext s status
  rfl

/-- **No snapshot is torn.** In whatever order the steps of `snapshot_publish`
and `snapshot_read` interleave, and whatever is in the reader's variables at
first, a snapshot that is returned is the one at the beginning or the one
behind some publication, if fewer than `2 ^ 31` publications are completed
during one pass of the reader's loop. -/
theorem snapshot_whole
    {s : Seqlock.State TelemetrySnapshot TelemetryStatus 32}
    (h : (telemetry.machine 32).Start s)
    {as : List (Seqlock.Action TelemetrySnapshot TelemetryStatus 32)}
    (hpace : ∀ bs, bs <+: as → ((telemetry.machine 32).run s bs).Unhurried)
    {snapshot : TelemetrySnapshot}
    (hret : ((telemetry.machine 32).run s as).reader = .returned snapshot) :
    ∃ k ≤ ((telemetry.machine 32).run s as).completed.length,
      snapshot = (((telemetry.machine 32).run s as).completed.take k).foldl
        snapshotPublish .zero := by
  have hwhole := Seqlock.returned_whole (by decide) h hpace hret
  rw [← publish_telemetry]
  exact hwhole

/-! ### A pass that a publication disturbs -/

/-- A publication. -/
def busyStatus : TelemetryStatus where
  chainConnected := 1
  chainHost := none
  chainPort := 18473
  workAvailable := 1
  miners := 3
  hashrate := 1000
  jobId := none
  baseId := none
  target := none
  uptimeSeconds := 60

/-- The telemetry service at the beginning, with zeros in the reader's
variables. -/
def telemetryStart : Seqlock.State TelemetrySnapshot TelemetryStatus 32 where
  sequence := 0
  contents := .zero
  writer := .idle
  reader := .atHead 0 .zero
  completed := []
  began := 0

/-- The reader copies three fields before the publication and the others behind
it, starts over, and returns. -/
def disturbed : List (Seqlock.Action TelemetrySnapshot TelemetryStatus 32) :=
  List.replicate 4 .read ++ .publish busyStatus :: List.replicate 12 .write
    ++ List.replicate 22 .read

/-- It returns a snapshot, which is not torn. -/
theorem snapshot_whole_disturbed :
    ∃ snapshot, ((telemetry.machine 32).run telemetryStart disturbed).reader
        = .returned snapshot
      ∧ ∃ k ≤ 1, snapshot = ([busyStatus].take k).foldl snapshotPublish
        .zero := by
  have hstart : (telemetry.machine 32).Start telemetryStart :=
    ⟨rfl, rfl, rfl, ⟨_, _, rfl⟩, rfl⟩
  have hpace := Seqlock.unhurried_of_short hstart
    (show disturbed.length < 2 ^ (32 - 1) by decide)
  exact ⟨_, rfl, snapshot_whole hstart hpace rfl⟩
