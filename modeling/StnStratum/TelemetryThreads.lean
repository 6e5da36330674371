import StnStratum.TelemetryService

/-!
# The main thread and the telemetry worker

`stn_telemetry_service_open` starts the worker; from then on the main thread
publishes and the worker shows what has been published, until
`stn_telemetry_service_close` clears `worker_running`, waits for the worker to
end, and removes the clients that are left. The steps of the two interleave in
any order, down to the single stores of `snapshot_publish` and the single
copies of `snapshot_read`. What is behind `snapshot_read` in `network_tick`
touches nothing that the main thread touches, so it is one step, although it is
a step with loops in it: it ends because only so many wait to be accepted, and
because its sockets, which do not block, have only so much to say.

Here everything about the telemetry comes together: `Seqlock` for what a
snapshot is, `worker_alone` for what the clients do to each other, and
`Connection.Replied` for what one client is told. All that is ever told is what
the state of the server was at some moment, or that it is all zeros, before
there has been a publication; and what is told later is not from an earlier
moment (`telemetry_threads`). And `stn_telemetry_service_close` returns, if a
broken pipe does not kill the process while it waits (`telemetry_close`).
-/

namespace Telemetry

/-! ## The two threads -/

/-- **Where the worker is.** -/
inductive WorkerAt where
  /-- At the condition of its loop. -/
  | atLoop
  /-- In `snapshot_read`, or behind it in `network_tick`. -/
  | reading
  /-- It has returned. -/
  | ended
  deriving DecidableEq

/-- **Where the main thread is.** -/
inductive MainAt where
  /-- Behind `stn_telemetry_service_open`. -/
  | serving
  /-- In `stn_telemetry_service_close`, where it waits for the worker. -/
  | joining
  /-- Behind `stn_telemetry_service_close`. -/
  | closed
  deriving DecidableEq

/-- **The two threads and what they share.** -/
structure Threads where
  /-- The counter and the snapshot, the writer and the reader. -/
  memory : Seqlock.State TelemetrySnapshot TelemetryStatus 32
  /-- `worker_running`. -/
  workerRunning : Bool
  /-- The worker. -/
  worker : WorkerAt
  /-- The main thread. -/
  main : MainAt
  /-- What the worker owns. -/
  service : Service
  /-- What the calls of `network_tick` were given. -/
  ticks : List NetworkTick

/-- **What a step of the worker is given**, as far as it makes use of it. -/
structure WorkerStep where
  /-- What uninitialised memory holds in the tick of each client. -/
  heap : ℕ → Heap
  /-- The time. -/
  now : ℤ
  /-- What `accept_clients` will meet. -/
  attempts : List AcceptAttempt
  /-- What is in the variables of the next call of `snapshot_read`. -/
  after : BitVec 32
  /-- What is in its snapshot. -/
  copy : TelemetrySnapshot

/-- **A step of one of the two.** -/
inductive ThreadAction where
  /-- `stn_telemetry_service_tick` begins. -/
  | publish (status : TelemetryStatus)
  /-- The main thread goes on with it. -/
  | store
  /-- `stn_telemetry_service_close` begins. -/
  | close
  /-- The worker has ended, and `stn_telemetry_service_close` goes on. -/
  | join
  /-- The worker makes its next step. -/
  | work (step : WorkerStep)

namespace Threads

/-- What the worker does behind `snapshot_read`: the rest of `network_tick`,
and back to its loop. -/
def networked (s : Threads) (snapshot : TelemetrySnapshot)
    (step : WorkerStep) : Threads :=
  let t : NetworkTick := ⟨step.heap, snapshot, step.now, step.attempts⟩
  { s with
    memory := Seqlock.called s.memory step.after step.copy
    worker := .atLoop
    service := s.service.networkTick t
    ticks := s.ticks ++ [t] }

/-- **A step of the worker.** -/
def work (s : Threads) (step : WorkerStep) : Threads :=
  match s.worker with
  | .ended => s
  | .atLoop =>
    if s.workerRunning = true then { s with worker := .reading }
    else { s with worker := .ended }
  | .reading =>
    match s.memory.reader with
    | .returned snapshot => s.networked snapshot step
    | _ => { s with memory := telemetry.readOn s.memory }

/-- **A step of either.** -/
def act (s : Threads) : ThreadAction → Threads
  | .publish status =>
    if s.main = .serving then
      { s with memory := Seqlock.begun s.memory status }
    else s
  | .store => { s with memory := telemetry.written s.memory }
  | .close =>
    match s.main, s.memory.writer with
    | .serving, .idle => { s with workerRunning := false, main := .joining }
    | _, _ => s
  | .join =>
    if s.main = .joining ∧ s.worker = .ended then
      { s with main := .closed, service := s.service.close }
    else s
  | .work step => s.work step

end Threads

/-- **The machine of the two threads**, from where `stn_telemetry_service_open`
has started the worker. -/
def threads : Machine Threads ThreadAction where
  Start s := (telemetry.machine 32).Start s.memory ∧ s.workerRunning = true
    ∧ s.worker = .atLoop ∧ s.main = .serving ∧ s.service = .init ∧ s.ticks = []
  act := Threads.act

/-- **Whether a step kills the process**: it goes on behind `snapshot_read`, and
`network_tick` kills it. -/
def Threads.kills (s : Threads) : ThreadAction → Bool
  | .work step =>
    match s.worker, s.memory.reader with
    | .reading, .returned snapshot =>
      s.service.kills ⟨step.heap, snapshot, step.now, step.attempts⟩
    | _, _ => false
  | _ => false

/-- **The two threads in a process that SIGPIPE kills.** -/
def mortalThreads : Machine (Option Threads) ThreadAction :=
  threads.mortal Threads.kills

namespace Threads

/-! ## What is shown -/

/-- **What the ticks have shown**, by how many publications it is behind. -/
structure Shown (s : Threads) (ks : List ℕ) : Prop where
  /-- Every tick has shown the snapshot behind so many publications. -/
  snapshots : s.ticks.map NetworkTick.snapshot
    = ks.map fun k => telemetry.after (s.memory.completed.take k)
  /-- They do not go back. -/
  sorted : ks.Pairwise (· ≤ ·)
  /-- So many have been completed. -/
  le : ∀ k ∈ ks, k ≤ s.memory.completed.length
  /-- A pass of the reader begins behind them. -/
  began : (∀ after copy, s.memory.reader ≠ .atHead after copy) →
    ∀ k ∈ ks, k ≤ s.memory.began

/-- **What the two threads keep**, at any pace. -/
structure Served (s : Threads) : Prop where
  /-- What the writer keeps. -/
  writer : telemetry.WriterInv s.memory
  /-- The service is what the ticks have made of it. -/
  service : s.service = if s.main = .closed then
      (Telemetry.worker.run .init s.ticks).close
    else Telemetry.worker.run .init s.ticks
  /-- The main thread closes the service behind the worker. -/
  ended : s.main = .closed → s.worker = .ended
  /-- It does not publish while it closes it. -/
  idle : s.main ≠ .serving →
    s.workerRunning = false ∧ s.memory.writer = .idle
  /-- The reader has no more copies to make than there are. -/
  within : s.memory.reader.Within telemetry.copies.length

/-- **What they keep if the passes of the reader are short.** -/
structure Sound (s : Threads) : Prop extends Served s where
  /-- What the reader keeps. -/
  reader : telemetry.ReaderInv s.memory
  /-- What the reader has is recent. -/
  recent : telemetry.Recent s.memory
  /-- What the ticks have shown. -/
  shown : ∃ ks, s.Shown ks

/-- What the counter keeps. -/
theorem Sound.inv {s : Threads} (h : s.Sound) : telemetry.Inv s.memory :=
  ⟨h.writer, h.reader⟩

/-- More publications make no difference to what has been shown. -/
theorem Shown.writer {s s' : Threads} {ks : List ℕ} (h : s.Shown ks)
    (hticks : s'.ticks = s.ticks)
    (hreader : s'.memory.reader = s.memory.reader)
    (hbegan : s'.memory.began = s.memory.began)
    (hcompleted : ∃ qs, s'.memory.completed = s.memory.completed ++ qs) :
    s'.Shown ks := by
  obtain ⟨qs, hqs⟩ := hcompleted
  refine ⟨?_, h.sorted, fun k hk => ?_, ?_⟩
  · rw [hticks, h.snapshots]
    refine List.map_congr_left fun k hk => ?_
    rw [hqs, List.take_append_of_le_length (h.le k hk)]
  · rw [hqs, List.length_append]
    exact (h.le k hk).trans (Nat.le_add_right _ _)
  · rw [hreader, hbegan]
    exact h.began

/-- A step of `snapshot_read` makes no difference to it either. -/
theorem Shown.readOn {s : Threads} {ks : List ℕ} (h : s.Shown ks) :
    Shown { s with memory := telemetry.readOn s.memory } ks := by
  obtain ⟨hcompleted, _, _, hbegan⟩ := Seqlock.completed_readOn
    (L := telemetry) s.memory
  refine ⟨?_, h.sorted, fun k hk => ?_, fun _ k hk => ?_⟩
  · show s.ticks.map _ = _
    rw [h.snapshots]
    dsimp only
    rw [hcompleted]
  · show k ≤ (telemetry.readOn s.memory).completed.length
    rw [hcompleted]
    exact h.le k hk
  · show k ≤ (telemetry.readOn s.memory).began
    rcases hbegan with hbegan | ⟨hbegan, hreader⟩
    · rw [hbegan]
      exact h.le k hk
    · rw [hbegan]
      exact h.began hreader k hk

/-- **A tick shows one more**, and not an earlier one. -/
theorem Shown.networked {s : Threads} {ks : List ℕ} (h : s.Shown ks)
    (hrecent : telemetry.Recent s.memory) {snapshot : TelemetrySnapshot}
    (hreader : s.memory.reader = .returned snapshot) (step : WorkerStep) :
    ∃ k, (s.networked snapshot step).Shown (ks ++ [k]) := by
  have hmemory : (s.networked snapshot step).memory
      = { s.memory with reader := .atHead step.after step.copy } := by
    show Seqlock.called s.memory step.after step.copy = _
    unfold Seqlock.called
    rw [hreader]
  unfold Seqlock.Recent at hrecent
  rw [hreader] at hrecent
  obtain ⟨k, hbegan, hk, hsnapshot⟩ := hrecent
  have hle : ∀ j ∈ ks, j ≤ k := fun j hj =>
    (h.began (by rw [hreader]; exact nofun) j hj).trans hbegan
  refine ⟨k, ?_, ?_, fun j hj => ?_, fun hhead => ?_⟩
  · show (s.ticks ++ [_]).map _ = _
    rw [List.map_append, h.snapshots, List.map_append, hmemory,
      List.map_singleton, List.map_singleton, ← hsnapshot]
  · refine List.pairwise_append.mpr ⟨h.sorted, List.pairwise_singleton _ _, ?_⟩
    intro i hi j hj
    rw [List.mem_singleton.mp hj]
    exact hle i hi
  · rw [hmemory]
    rcases List.mem_append.mp hj with hj | hj
    · exact h.le j hj
    · rw [List.mem_singleton.mp hj]
      exact hk
  · rw [hmemory] at hhead
    exact absurd rfl (hhead step.after step.copy)

/-! ## Every step -/

/-- The worker is called again where it has returned. -/
theorem called_of_returned {s : Threads} {snapshot : TelemetrySnapshot}
    (hreader : s.memory.reader = .returned snapshot) (step : WorkerStep) :
    Seqlock.called s.memory step.after step.copy
      = { s.memory with reader := .atHead step.after step.copy } := by
  unfold Seqlock.called
  rw [hreader]

/-- The worker leaves the main thread alone. -/
theorem main_work (s : Threads) (step : WorkerStep) :
    (s.work step).main = s.main
      ∧ (s.work step).memory.writer = s.memory.writer := by
  unfold Threads.work
  split
  next => exact ⟨rfl, rfl⟩
  next => split <;> exact ⟨rfl, rfl⟩
  next =>
    split
    next hreader =>
      refine ⟨rfl, ?_⟩
      show (Seqlock.called s.memory _ _).writer = _
      rw [called_of_returned hreader]
    next => exact ⟨rfl, (Seqlock.completed_readOn s.memory).2.1⟩

/-- **A step of the worker keeps it served.** -/
theorem Served.work {s : Threads} (h : s.Served) (step : WorkerStep) :
    (s.work step).Served := by
  unfold Threads.work
  split
  next => exact h
  next hat =>
    have hmain : s.main ≠ .closed := fun hm => by
      rw [h.ended hm] at hat
      exact absurd hat (by decide)
    split
    · exact ⟨h.writer, h.service, fun hm => absurd hm hmain, h.idle, h.within⟩
    · exact ⟨h.writer, h.service, fun _ => rfl, h.idle, h.within⟩
  next hat =>
    have hmain : s.main ≠ .closed := fun hm => by
      rw [h.ended hm] at hat
      exact absurd hat (by decide)
    split
    next snapshot hreader =>
      have hcalled := called_of_returned hreader step
      have hservice := h.service
      rw [if_neg hmain] at hservice
      refine ⟨?_, ?_, fun hm => absurd hm hmain,
        fun hm => ⟨(h.idle hm).1, ?_⟩, ?_⟩
      · show telemetry.WriterInv (Seqlock.called s.memory _ _)
        rw [hcalled]
        exact h.writer.congr rfl rfl rfl rfl
      · show s.service.networkTick _ = if s.main = .closed then _ else
          Telemetry.worker.run .init (s.ticks ++ [_])
        rw [if_neg hmain, Machine.run_append, hservice]
        rfl
      · show (Seqlock.called s.memory _ _).writer = _
        rw [hcalled]
        exact (h.idle hm).2
      · show (Seqlock.called s.memory _ _).reader.Within _
        rw [hcalled]
        trivial
    next =>
      refine ⟨h.writer.readOn, h.service, h.ended,
        fun hm => ⟨(h.idle hm).1, ?_⟩, h.within.readOn⟩
      exact (Seqlock.completed_readOn s.memory).2.1.trans (h.idle hm).2

/-- **Every step keeps it served.** -/
theorem Served.act {s : Threads} (h : s.Served) (a : ThreadAction) :
    (s.act a).Served := by
  cases a with
  | publish status =>
    simp only [Threads.act]
    split
    next hmain =>
      have hreader := (Seqlock.completed_begun s.memory status).1
      exact ⟨h.writer.begun status, h.service, h.ended,
        fun hm => absurd hmain hm, hreader ▸ h.within⟩
    next => exact h
  | store =>
    have hreader := (Seqlock.completed_written (L := telemetry) s.memory).1
    refine ⟨h.writer.written, h.service, h.ended,
      fun hm => ⟨(h.idle hm).1, ?_⟩, ?_⟩
    · show (telemetry.written s.memory).writer = _
      unfold Seqlock.written
      rw [(h.idle hm).2]
      exact (h.idle hm).2
    · show (telemetry.written s.memory).reader.Within _
      rw [hreader]
      exact h.within
  | close =>
    simp only [Threads.act]
    split
    next hmain hwriter =>
      have hservice := h.service
      rw [hmain, if_neg (by decide)] at hservice
      exact ⟨h.writer, hservice, nofun, fun _ => ⟨rfl, hwriter⟩, h.within⟩
    next => exact h
  | join =>
    simp only [Threads.act]
    split
    next hj =>
      have hservice := h.service
      rw [hj.1, if_neg (by decide)] at hservice
      exact ⟨h.writer, congrArg Service.close hservice, fun _ => hj.2,
        fun _ => h.idle (by rw [hj.1]; decide), h.within⟩
    next => exact h
  | work step => exact h.work step

/-- It is at the beginning. -/
theorem served_start {s : Threads} (h : threads.Start s) : s.Served := by
  obtain ⟨hmemory, _, _, hmain, hservice, hticks⟩ := h
  obtain ⟨after, copy, hreader⟩ := hmemory.2.2.2.1
  refine ⟨(Seqlock.inv_start hmemory).writer, ?_, fun hc => ?_,
    fun hm => absurd hmain hm, ?_⟩
  · rw [hmain, hticks, if_neg (by decide)]
    exact hservice
  · exact absurd (hmain.symm.trans hc) (by decide)
  · rw [hreader]
    trivial

/-- **In every run it is served.** -/
theorem served_of_run {s : Threads} (h : threads.Start s)
    (as : List ThreadAction) : (threads.run s as).Served :=
  threads.run_induction (fun _ a hs => hs.act a) (served_start h) as

/-- What makes no difference to what has been shown: more publications. -/
theorem Sound.of_written {s s' : Threads} (h : s.Sound) (hs : s'.Served)
    (hinv : telemetry.Inv s'.memory) (hticks : s'.ticks = s.ticks)
    (hreader : s'.memory.reader = s.memory.reader)
    (hbegan : s'.memory.began = s.memory.began)
    (hcompleted : ∃ qs, s'.memory.completed = s.memory.completed ++ qs) :
    s'.Sound where
  toServed := hs
  reader := hinv.reader
  recent := h.recent.writer hreader hbegan hcompleted
  shown := h.shown.imp fun _ hks => hks.writer hticks hreader hbegan hcompleted

/-- **A step of the worker keeps it sound**, if its pass is short. -/
theorem Sound.work {s : Threads} (h : s.Sound) (hpace : s.memory.Unhurried)
    (step : WorkerStep) : (s.work step).Sound := by
  have hserved := h.toServed.work step
  have hsame : ∀ s' : Threads, s'.Served → s'.memory = s.memory →
      s'.ticks = s.ticks → s'.Sound := fun s' hs hm ht =>
    h.of_written hs (hm ▸ h.inv) ht (by rw [hm]) (by rw [hm])
      ⟨[], by rw [hm, List.append_nil]⟩
  unfold Threads.work at hserved ⊢
  split at hserved
  next => exact h
  next =>
    split
    next hrunning =>
      rw [if_pos hrunning] at hserved
      exact hsame _ hserved rfl rfl
    next hrunning =>
      rw [if_neg hrunning] at hserved
      exact hsame _ hserved rfl rfl
  next =>
    split at hserved
    next snapshot hreader =>
      obtain ⟨ks, hks⟩ := h.shown
      obtain ⟨k, hk⟩ := hks.networked h.recent hreader step
      have hcalled := called_of_returned hreader step
      refine ⟨hserved, ?_, ?_, ⟨_, hk⟩⟩
      · show telemetry.ReaderInv (Seqlock.called s.memory _ _)
        rw [hcalled]
        trivial
      · show Seqlock.Recent telemetry (Seqlock.called s.memory _ _)
        rw [hcalled]
        trivial
    next =>
      obtain ⟨ks, hks⟩ := h.shown
      exact ⟨hserved, (h.inv.readOn (by decide) hpace).reader,
        h.recent.readOn (by decide) h.inv hpace, ⟨ks, hks.readOn⟩⟩

/-- **Every step keeps it sound**, if the pass of the reader is short. -/
theorem Sound.act {s : Threads} (h : s.Sound) (hpace : s.memory.Unhurried)
    (a : ThreadAction) : (s.act a).Sound := by
  have hserved := h.toServed.act a
  cases a with
  | publish status =>
    simp only [Threads.act] at hserved ⊢
    split at hserved
    next hmain =>
      obtain ⟨hreader, hbegan, hcompleted⟩ := Seqlock.completed_begun s.memory
        status
      rw [if_pos hmain]
      exact h.of_written hserved (h.inv.begun status) rfl hreader hbegan
        ⟨[], by rw [List.append_nil]; exact hcompleted⟩
    next hmain =>
      rw [if_neg hmain]
      exact h
  | store =>
    obtain ⟨hreader, hbegan, hcompleted⟩ := Seqlock.completed_written
      (L := telemetry) s.memory
    exact h.of_written hserved h.inv.written rfl hreader hbegan hcompleted
  | close =>
    simp only [Threads.act] at hserved ⊢
    split at hserved
    · exact h.of_written hserved h.inv rfl rfl rfl
        ⟨[], (List.append_nil _).symm⟩
    · exact h
  | join =>
    simp only [Threads.act] at hserved ⊢
    split at hserved
    next hj =>
      rw [if_pos hj]
      exact h.of_written hserved h.inv rfl rfl rfl
        ⟨[], (List.append_nil _).symm⟩
    next hj =>
      rw [if_neg hj]
      exact h
  | work step => exact h.work hpace step

/-- It is at the beginning. -/
theorem sound_start {s : Threads} (h : threads.Start s) : s.Sound := by
  have hserved := served_start h
  obtain ⟨hmemory, _, _, _, _, hticks⟩ := h
  obtain ⟨after, copy, hreader⟩ := hmemory.2.2.2.1
  refine ⟨hserved, (Seqlock.inv_start hmemory).reader, ?_,
    ⟨[], ?_, .nil, nofun, nofun⟩⟩
  · unfold Seqlock.Recent
    rw [hreader]
    trivial
  · rw [hticks]
    rfl

/-- **Every run is sound** whose passes of the reader are short. -/
theorem sound_of_run {s : Threads} (h : threads.Start s)
    {as : List ThreadAction}
    (hpace : ∀ bs, bs <+: as → (threads.run s bs).memory.Unhurried) :
    (threads.run s as).Sound := by
  induction as using List.reverseRecOn with
  | nil => exact sound_start h
  | append_singleton as a ih =>
    have hpre : as <+: as ++ [a] := List.prefix_append as [a]
    rw [Machine.run_append]
    exact (ih fun bs hbs => hpace bs (hbs.trans hpre)).act (hpace as hpre) a

/-- The service as the worker has left it. -/
theorem Served.service_alone {s : Threads} (h : s.Served)
    (hmain : s.main ≠ .closed) : s.service.Alone s.ticks := by
  have hservice := h.service
  rw [if_neg hmain] at hservice
  rw [hservice]
  exact Service.alone_of_run s.ticks

/-- **The service behind the ticks**: the connections are those of the ticks,
and if it is closed, all of them have been removed. -/
theorem Served.service_perm {s : Threads} (h : s.Served) :
    (s.service.removed ++ s.service.clients).Perm (alone 0 s.ticks)
      ∧ s.service.clientCount = s.service.clients.length
      ∧ (s.main = .closed → s.service.clients = []) := by
  have ha := Service.alone_of_run s.ticks
  have hperm : ((Telemetry.worker.run .init s.ticks).removed
      ++ (Telemetry.worker.run .init s.ticks).clients).Perm
        (alone 0 s.ticks) := by
    rw [ha.clients]
    refine (ha.removed.append (List.reverse_perm _)).trans ?_
    exact List.perm_append_comm.trans (List.filter_append_perm _ _)
  have hs := h.service
  by_cases hm : s.main = .closed
  · have hn : ((Telemetry.worker.run .init s.ticks).clients.map
        Prod.fst).Nodup := by
      have hall : ((alone 0 s.ticks).map Prod.fst).Nodup := by
        rw [map_fst_alone]
        exact List.nodup_range'
      refine ((hperm.map Prod.fst).nodup_iff.mpr hall).sublist ?_
      rw [List.map_append]
      exact List.sublist_append_right _ _
    rw [if_pos hm, Service.close_eq hn] at hs
    rw [hs]
    refine ⟨?_, ?_, fun _ => rfl⟩
    · rw [List.append_nil]
      exact hperm
    · show _ - _ = 0
      rw [ha.count, Nat.sub_self]
  · rw [if_neg hm] at hs
    rw [hs]
    exact ⟨hperm, ha.count, fun hc => absurd hc hm⟩

/-! ## Closing -/

/-- **How many steps the worker needs** to end, once it has to. -/
def toEnd (s : Threads) : ℕ :=
  match s.worker with
  | .ended => 0
  | .atLoop => 1
  | .reading => telemetry.toReturn s.memory + 2

/-- **Each of its steps is one of them.** -/
theorem toEnd_work {s : Threads} (hrunning : s.workerRunning = false)
    (heven : s.memory.sequence &&& 1 = 0) (step : WorkerStep) :
    (s.work step).toEnd = s.toEnd - 1
      ∧ (s.work step).workerRunning = false
      ∧ (s.work step).memory.sequence &&& 1 = 0 := by
  unfold Threads.work
  split
  next hat =>
    refine ⟨?_, hrunning, heven⟩
    unfold toEnd
    rw [hat]
    rfl
  next hat =>
    rw [if_neg (by rw [hrunning]; exact Bool.false_ne_true)]
    refine ⟨?_, hrunning, heven⟩
    unfold toEnd
    rw [hat]
    rfl
  next hat =>
    split
    next snapshot hreader =>
      refine ⟨?_, hrunning, ?_⟩
      · show 1 = s.toEnd - 1
        unfold toEnd Seqlock.toReturn
        rw [hat, hreader]
        rfl
      · show (Seqlock.called s.memory _ _).sequence &&& 1 = 0
        unfold Seqlock.called
        rw [hreader]
        exact heven
    next hreader =>
      have hseq := (Seqlock.completed_readOn (L := telemetry) s.memory).2.2.1
      refine ⟨?_, hrunning, ?_⟩
      · have hpos : telemetry.toReturn s.memory ≠ 0 := fun h0 => by
          obtain ⟨copy, hreturned⟩ := Seqlock.returned_of_toReturn h0
          exact hreader copy hreturned
        show toEnd { s with memory := telemetry.readOn s.memory } = _
        unfold toEnd
        rw [hat]
        dsimp only
        rw [Seqlock.toReturn_readOn heven]
        omega
      · show (telemetry.readOn s.memory).sequence &&& 1 = 0
        rw [hseq]
        exact heven

/-- The worker leaves the main thread where it is. -/
theorem main_run_work (s : Threads) (steps : List WorkerStep) :
    (threads.run s (steps.map .work)).main = s.main := by
  induction steps generalizing s with
  | nil => rfl
  | cons step steps ih => exact (ih _).trans (s.main_work step).1

/-- **The worker ends** if it goes on for long enough. -/
theorem ended_of_work {s : Threads} (hrunning : s.workerRunning = false)
    (heven : s.memory.sequence &&& 1 = 0) {steps : List WorkerStep}
    (hlen : s.toEnd ≤ steps.length) :
    (threads.run s (steps.map .work)).worker = .ended := by
  induction steps generalizing s with
  | nil =>
    have h0 : s.toEnd = 0 := Nat.le_zero.mp hlen
    unfold toEnd at h0
    show s.worker = .ended
    split at h0
    next h => exact h
    next => exact absurd h0 (by decide)
    next => exact absurd h0 (Nat.succ_ne_zero _)
  | cons step steps ih =>
    obtain ⟨hend, hr, he⟩ := toEnd_work hrunning heven step
    rw [List.length_cons] at hlen
    exact ih hr he (hend.trans_le (Nat.sub_le_iff_le_add.mpr hlen))

/-- It does not need many. -/
theorem Served.toEnd_le {s : Threads} (h : s.Served) : s.toEnd ≤ 27 := by
  have hle := Seqlock.toReturn_le h.within
  have hten : telemetry.copies.length = 10 := rfl
  unfold toEnd
  split <;> omega

/-- Once the service is closed nothing but the snapshot is touched. -/
theorem act_of_closed {s : Threads} (hmain : s.main = .closed)
    (hworker : s.worker = .ended) (a : ThreadAction) :
    ∃ memory, s.act a = { s with memory := memory } := by
  cases a with
  | publish status =>
    exact ⟨s.memory, if_neg (by rw [hmain]; decide)⟩
  | store => exact ⟨_, rfl⟩
  | close =>
    have hs : s.act .close = s := by simp only [Threads.act, hmain]
    exact ⟨s.memory, hs⟩
  | join =>
    exact ⟨s.memory, if_neg fun h => absurd (hmain.symm.trans h.1) (by decide)⟩
  | work step =>
    have hs : s.act (.work step) = s := by
      simp only [Threads.act, Threads.work, hworker]
    exact ⟨s.memory, hs⟩

/-- So nothing happens to the clients any more. -/
theorem service_of_closed {s : Threads} (hmain : s.main = .closed)
    (hworker : s.worker = .ended) (as : List ThreadAction) :
    (threads.run s as).service = s.service := by
  have key : (threads.run s as).main = .closed
      ∧ (threads.run s as).worker = .ended
      ∧ (threads.run s as).service = s.service := by
    refine threads.run_induction (P := fun s' => s'.main = .closed
      ∧ s'.worker = .ended ∧ s'.service = s.service) ?_ ⟨hmain, hworker, rfl⟩ as
    rintro s' a ⟨hm, hw, hs⟩
    obtain ⟨memory, he⟩ := act_of_closed hm hw a
    show (s'.act a).main = _ ∧ (s'.act a).worker = _ ∧ (s'.act a).service = _
    rw [he]
    exact ⟨hm, hw, hs⟩
  exact key.2.2

end Threads

/-! ## What comes of it -/

/-- **Nobody but `stn_telemetry_service_tick` publishes.** -/
theorem Threads.publications_act (s : Threads) {a : ThreadAction}
    (ha : ∀ status, a ≠ .publish status) :
    (s.act a).memory.publications = s.memory.publications := by
  cases a with
  | publish status => exact absurd rfl (ha status)
  | store => exact Seqlock.publications_written s.memory
  | close =>
    simp only [Threads.act]
    split <;> rfl
  | join =>
    simp only [Threads.act]
    split <;> rfl
  | work step =>
    show (s.work step).memory.publications = _
    unfold Threads.work
    split
    next => rfl
    next => split <;> rfl
    next =>
      split
      next => exact Seqlock.publications_called s.memory _ _
      next => exact Seqlock.publications_readOn s.memory

/-- More snapshots to choose from. -/
theorem Connection.Replied.mono {request : Bytes}
    {snapshots snapshots' : TelemetrySnapshot → Prop} {w : Connection}
    (h : w.Replied request snapshots)
    (hle : ∀ s, snapshots s → snapshots' s) : w.Replied request snapshots' :=
  { h with reply := fun reply hm =>
      (h.reply reply hm).imp fun s hs => ⟨hle s hs.1, hs.2⟩ }

/-- **What has been told** when the passes of the reader have been short. -/
theorem Threads.Sound.told {s : Threads} (h : s.Sound) :
    let published := fun k =>
      (s.memory.completed.take k).foldl snapshotPublish .zero
    ∃ ks : List ℕ, ks.Pairwise (· ≤ ·)
      ∧ (∀ k ∈ ks, k ≤ s.memory.completed.length)
      ∧ s.ticks.map NetworkTick.snapshot = ks.map published
      ∧ ∀ e ∈ s.service.removed ++ s.service.clients,
        ∃ before u after p, s.ticks = before ++ u :: after
          ∧ p ∈ admitted u.attempts ∧ e.2.client.connectedAt = u.now
          ∧ e.2.Replied (stream p.1) fun snapshot =>
            ∃ k ∈ ks.drop before.length, snapshot = published k := by
  intro published
  obtain ⟨ks, hks⟩ := h.shown
  have hticks : s.ticks.map NetworkTick.snapshot = ks.map published := by
    refine hks.snapshots.trans (List.map_congr_left fun k _ => ?_)
    rw [Seqlock.after, publish_telemetry]
    rfl
  have held : ∀ t ∈ s.ticks, t.snapshot.Held := by
    intro t ht
    have hm : t.snapshot ∈ ks.map published :=
      hticks ▸ List.mem_map_of_mem ht
    obtain ⟨k, _, hk⟩ := List.mem_map.mp hm
    rw [← hk]
    exact held_foldl_snapshotPublish _
  refine ⟨ks, hks.sorted, hks.le, hticks, fun e he => ?_⟩
  have hmem : e ∈ alone 0 s.ticks := h.service_perm.1.mem_iff.mp he
  obtain ⟨before, u, after, p, hsplit, hp, hc, hr⟩ := replied_of_alone held hmem
  refine ⟨before, u, after, p, hsplit, hp, hc, hr.mono ?_⟩
  rintro snapshot ⟨t, ht, rfl⟩
  have hdrop : (u :: after).map NetworkTick.snapshot
      = (ks.drop before.length).map published := by
    rw [List.map_drop, ← hticks, hsplit, List.map_append,
      ← List.length_map NetworkTick.snapshot, List.drop_left]
  have hm : t.snapshot ∈ (ks.drop before.length).map published :=
    hdrop ▸ List.mem_map_of_mem ht
  obtain ⟨k, hk, hs⟩ := List.mem_map.mp hm
  exact ⟨k, hk, hs.symm⟩

/-- **The telemetry tells what was the case.** In whatever order the steps of
the two threads interleave, the snapshots that the worker goes through are
those behind some of the publications, in their order, if fewer than `2 ^ 31`
publications are completed during one pass of the reader's loop. Those from
before the first publication are all zeros (`k = 0`). Every
connection there has ever been has been replied to once at most, as its request
demands, with what one of those snapshots says that the worker has gone through
since it accepted the connection, however late or slow the client is; and it
has been sent the reply from its beginning. -/
theorem telemetry_threads {s : Threads} (h : threads.Start s)
    {as : List ThreadAction}
    (hpace : ∀ bs, bs <+: as → (threads.run s bs).memory.Unhurried) :
    let s' := threads.run s as
    let published := fun k =>
      (s'.memory.completed.take k).foldl snapshotPublish .zero
    ∃ ks : List ℕ, ks.Pairwise (· ≤ ·)
      ∧ (∀ k ∈ ks, k ≤ s'.memory.completed.length)
      ∧ s'.ticks.map NetworkTick.snapshot = ks.map published
      ∧ ∀ e ∈ s'.service.removed ++ s'.service.clients,
        ∃ before u after p, s'.ticks = before ++ u :: after
          ∧ p ∈ admitted u.attempts ∧ e.2.client.connectedAt = u.now
          ∧ e.2.Replied (stream p.1) fun snapshot =>
            ∃ k ∈ ks.drop before.length, snapshot = published k :=
  (Threads.sound_of_run h hpace).told

/-- A step of either completes one publication at most. -/
theorem length_completed_threads (s : Threads) (a : ThreadAction) :
    (s.act a).memory.completed.length ≤ s.memory.completed.length + 1 := by
  have hmachine := Seqlock.length_completed_act (L := telemetry) s.memory
  cases a with
  | publish status =>
    simp only [Threads.act]
    split
    · exact hmachine (.publish status)
    · exact Nat.le_succ _
  | store => exact hmachine .write
  | close =>
    simp only [Threads.act]
    split <;> exact Nat.le_succ _
  | join =>
    simp only [Threads.act]
    split <;> exact Nat.le_succ _
  | work step =>
    show (s.work step).memory.completed.length ≤ _
    unfold Threads.work
    split
    next => exact Nat.le_succ _
    next => split <;> exact Nat.le_succ _
    next =>
      split
      next => exact hmachine (.call _ _)
      next => exact hmachine .read

/-- **In a run that is short itself**, every pass is. -/
theorem unhurried_of_short_threads {s : Threads} (h : threads.Start s)
    {as : List ThreadAction} (hlen : as.length < 2 ^ 31) :
    ∀ bs, bs <+: as → (threads.run s bs).memory.Unhurried := by
  have hcount : ∀ bs : List ThreadAction,
      (threads.run s bs).memory.completed.length ≤ bs.length := by
    intro bs
    induction bs using List.reverseRecOn with
    | nil => exact le_of_eq (congrArg List.length h.1.2.2.2.2)
    | append_singleton bs a ih =>
      rw [Machine.run_append, List.length_append, List.length_singleton]
      exact (length_completed_threads _ a).trans (Nat.succ_le_succ ih)
  intro bs hbs
  have hle := (hcount bs).trans hbs.length_le
  unfold Seqlock.State.Unhurried
  split
  next => omega
  next => omega
  next => trivial

/-- The threads at the beginning. -/
def threadsStart : Threads where
  memory := telemetryStart
  workerRunning := true
  worker := .atLoop
  main := .serving
  service := .init
  ticks := []

/-- They may start there. -/
theorem start_threadsStart : threads.Start threadsStart :=
  ⟨⟨rfl, rfl, rfl, ⟨_, _, rfl⟩, rfl⟩, rfl, rfl, rfl, rfl, rfl⟩

/-- A step of the worker in which nobody comes. -/
def quietStep : WorkerStep where
  heap := fun _ => ⟨[], fun _ => 0⟩
  now := 1
  attempts := []
  after := 0
  copy := .zero

/-- A step of the worker. If it is the one behind `snapshot_read`, somebody
comes and asks for the status. -/
def visitedStep : WorkerStep :=
  { quietStep with attempts :=
      [.client (unread (ascii "GET / HTTP/1.0\r\n\r\n") []) [.took 5]] }

/-- A publication in the middle of a turn of the worker. -/
def disturbedTurn : List ThreadAction :=
  List.replicate 5 (.work quietStep) ++ .publish busyStatus
    :: List.replicate 12 .store ++ List.replicate 24 (.work visitedStep)

/-- What that turn shows is not torn, and whoever comes in it is told as much. -/
theorem telemetry_threads_disturbedTurn :
    let s := threads.run threadsStart disturbedTurn
    let published := fun k => ([busyStatus].take k).foldl snapshotPublish .zero
    ∃ k ≤ 1, s.ticks.map NetworkTick.snapshot = [published k]
      ∧ ∃ e, s.service.removed ++ s.service.clients = [e] ∧ e.2.sent.length = 5
        ∧ e.2.Replied (ascii "GET / HTTP/1.0\r\n\r\n")
          fun snapshot => snapshot = published k := by
  intro s published
  obtain ⟨ks, _, hle, hticks, hreplied⟩ := telemetry_threads start_threadsStart
    (unhurried_of_short_threads start_threadsStart
      (show disturbedTurn.length < 2 ^ 31 by decide))
  have hone : ks.length = 1 := by
    have hlen := congrArg List.length hticks
    rw [List.length_map, List.length_map] at hlen
    exact hlen.symm.trans rfl
  obtain ⟨k, rfl⟩ := List.length_eq_one_iff.mp hone
  refine ⟨k, hle k List.mem_cons_self, hticks, ?_⟩
  have hcount : (s.service.removed ++ s.service.clients).map
      (fun e => e.2.sent.length) = [5] := by decide +kernel
  obtain ⟨e, he, hsent⟩ := List.map_eq_singleton_iff.mp hcount
  refine ⟨e, he, hsent, ?_⟩
  -- there is one tick, and it has accepted the one who has come
  obtain ⟨before, u, after, p, hsplit, hp, _, hr⟩ :=
    hreplied e (he ▸ List.mem_singleton_self e)
  have hu : s.ticks.map NetworkTick.attempts = [visitedStep.attempts] := rfl
  rw [hsplit, List.map_append] at hu
  cases before with
  | nil =>
    rw [(List.cons.inj hu).1] at hp
    obtain rfl := List.mem_singleton.mp hp
    refine hr.mono ?_
    rintro snapshot ⟨k', hk', hsnapshot⟩
    rw [List.mem_singleton.mp hk'] at hsnapshot
    exact hsnapshot
  | cons t before =>
    have hlen := congrArg List.length hu
    rw [List.length_append, List.length_map, List.length_map] at hlen
    simp only [List.length_cons, List.length_nil] at hlen
    omega

/-- **While the main thread waits**, a step of the worker kills the process only
by a broken pipe on one of the connections, each on its own. -/
theorem Threads.Served.kills_work {s : Threads} (h : s.Served)
    (hmain : s.main = .joining) {step : WorkerStep}
    (hk : s.kills (.work step) = true) :
    ∃ snapshot, s.memory.reader = .returned snapshot
      ∧ ∃ e ∈ alone 0 s.ticks ++ fresh (alone 0 s.ticks).length
          ⟨step.heap, snapshot, step.now, step.attempts⟩,
        e.2.kills e.1 ⟨step.heap, snapshot, step.now, step.attempts⟩
          = true := by
  have hservice := h.service
  rw [if_neg (by rw [hmain]; decide)] at hservice
  have halone : s.service.Alone s.ticks := by
    rw [hservice]
    exact Service.alone_of_run s.ticks
  unfold Threads.kills at hk
  dsimp only at hk
  split at hk
  next snapshot _ hreader =>
    exact ⟨snapshot, hreader, (halone.kills_iff _).mp hk⟩
  next => exact absurd hk Bool.false_ne_true

/-- **`stn_telemetry_service_close` returns, and leaves nothing behind**, unless
the process is killed while it waits. Once it has cleared `worker_running`, the
worker ends within 27 of its steps, wherever it is in `snapshot_read` and
whatever its sockets do; one of these may be all that is left of
`network_tick`. Then there is no client left, each connection there has ever
been has been removed exactly once, and neither thread touches the clients any
more. The process is killed only by a broken pipe on one of the connections. -/
theorem telemetry_close {s : Threads} (h : threads.Start s)
    {as : List ThreadAction} {s₁ : Threads}
    (hlives : mortalThreads.run (some s) as = some s₁)
    (hjoining : s₁.main = .joining) {steps : List WorkerStep}
    (hlen : 27 ≤ steps.length) :
    (∀ s', mortalThreads.run (some s₁) (steps.map .work ++ [.join]) = some s' →
      s'.main = .closed ∧ s'.service.clients = [] ∧ s'.service.clientCount = 0
        ∧ s'.service.removed.Perm (alone 0 s'.ticks)
        ∧ (s'.service.removed.map Prod.fst).Nodup
        ∧ ∀ bs, (threads.run s' bs).service = s'.service)
      ∧ (mortalThreads.run (some s₁) (steps.map .work ++ [.join]) = none →
        ∃ before step after snapshot, steps = before ++ step :: after
          ∧ let s₂ := threads.run s₁ (before.map .work)
            let t : NetworkTick :=
              ⟨step.heap, snapshot, step.now, step.attempts⟩
            s₂.memory.reader = .returned snapshot
              ∧ ∃ e ∈ alone 0 s₂.ticks ++ fresh (alone 0 s₂.ticks).length t,
                e.2.kills e.1 t = true) := by
  obtain rfl := Machine.eq_run_of_mortal hlives
  have hserved := Threads.served_of_run h as
  have hnot : (threads.run s as).main ≠ .serving := by
    rw [hjoining]
    decide
  obtain ⟨hrunning, hidle⟩ := hserved.idle hnot
  have hended := Threads.ended_of_work hrunning
    (hserved.writer.even (by decide) hidle) (hserved.toEnd_le.trans hlen)
  have hmain := Threads.main_run_work (threads.run s as) steps
  constructor
  · intro s' hs'
    obtain rfl := Machine.eq_run_of_mortal hs'
    have he : threads.run (threads.run s as) (steps.map .work ++ [.join])
        = (threads.run (threads.run s as) (steps.map .work)).act .join :=
      threads.run_append _ _ _
    have hclosed := (threads.run_induction (fun _ a hs => hs.act a) hserved
      (steps.map .work ++ [.join]) : Threads.Served _)
    generalize threads.run (threads.run s as) (steps.map .work ++ [.join]) = s'
      at he hclosed
    have hboth : s'.main = .closed ∧ s'.worker = .ended := by
      rw [he]
      simp only [Threads.act, hmain, hjoining, hended, and_self, if_true]
    obtain ⟨hperm, hcount, hnone⟩ := hclosed.service_perm
    have hclients := hnone hboth.1
    rw [hclients, List.append_nil] at hperm
    refine ⟨hboth.1, hclients, ?_, hperm, ?_, ?_⟩
    · rw [hcount, hclients]
      rfl
    · rw [(hperm.map Prod.fst).nodup_iff, map_fst_alone]
      exact List.nodup_range'
    · exact Threads.service_of_closed hboth.1 hboth.2
  · intro hnone
    rcases (Machine.kills_append ..).mp (Machine.run_mortal_eq_none.mp hnone)
      with hk | hk
    · obtain ⟨before, step, after, rfl, hkills⟩ := Machine.kills_map.mp hk
      have hs₂ : (threads.run (threads.run s as) (before.map .work)).Served :=
        threads.run_induction (fun _ a hs => hs.act a) hserved _
      have hmain₂ := (Threads.main_run_work (threads.run s as) before).trans
        hjoining
      obtain ⟨snapshot, hreader, hpipe⟩ := hs₂.kills_work hmain₂ hkills
      exact ⟨before, step, after, snapshot, rfl, hreader, hpipe⟩
    · rcases (Machine.kills_cons ..).mp hk with hk | hk
      · exact absurd hk Bool.false_ne_true
      · exact absurd hk (Machine.not_kills_nil _)

/-- The service is to be closed when the worker is in the middle of its second
call of `snapshot_read`, with two clients in its list. -/
def closedMidRead (fails : SendAttempt) : List ThreadAction :=
  List.replicate 21 (.work { quietStep with attempts := twoComing fails })
    ++ [.close]

/-- **It returns**, behind a tick that gives one of the two up, and removes the
other. If that one has met a broken pipe instead, the process is dead. -/
theorem telemetry_close_midRead :
    let steps := (List.replicate 27 quietStep).map .work ++ [.join]
    (∃ s', mortalThreads.run (some threadsStart)
          (closedMidRead .failed ++ steps) = some s'
        ∧ s'.main = .closed ∧ s'.service.clients = []
        ∧ s'.service.removed.map Prod.fst = [1, 0])
      ∧ mortalThreads.run (some threadsStart)
          (closedMidRead .brokenPipe ++ steps) = none := by
  intro steps
  have halive : ∀ as, (mortalThreads.run (some threadsStart) as).isSome = true →
      mortalThreads.run (some threadsStart) as
        = some (threads.run threadsStart as) := by
    intro as h
    obtain ⟨s, hs⟩ := Option.isSome_iff_exists.mp h
    rw [hs, Machine.eq_run_of_mortal hs]
  have hmid := halive (closedMidRead .failed) (by decide +kernel)
  have hend := halive (closedMidRead .failed ++ steps) (by decide +kernel)
  have hjoining : (threads.run threadsStart (closedMidRead .failed)).main
      = .joining := by decide +kernel
  have hwait : mortalThreads.run
      (some (threads.run threadsStart (closedMidRead .failed))) steps
      = some (threads.run threadsStart (closedMidRead .failed ++ steps)) := by
    rw [← hend, ← hmid]
    exact (mortalThreads.run_append _ _ _).symm
  obtain ⟨hmain, hclients, _⟩ := (telemetry_close start_threadsStart hmid
    hjoining List.length_replicate.ge).1 _ hwait
  refine ⟨⟨_, hend, hmain, hclients, ?_⟩, ?_⟩
  · decide +kernel
  · exact Option.not_isSome_iff_eq_none.mp (by decide +kernel)

end Telemetry
