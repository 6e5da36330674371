import StnStratum.Bytes

/-!
# Stream sockets and the loops around them

A program reads a stream socket in a loop, because one call returns as many
bytes as happen to be there, and it writes in a loop, because one call takes
as many bytes as it likes. What the calls will return is not the program's
to choose, so it is given here as a list of outcomes, consumed in order:
`SendOutcome` for `send` and `RecvOutcome` for `recv`. Every theorem about
the loops is about every list.

The two loops of interest are `sendAll`, which writes a whole string or
gives up, and `recvLoop`, which reads until a given number of bytes is
there or a call returns something other than bytes. Both take a flag `retry`:
whether a call interrupted by a signal is made again, as POSIX programs do,
or is a failure like any other.

What `recvLoop` can read in one go is `readable`, the bytes in front of the
first outcome that stops it, and `recvLoop_got` says that the loop reads a
prefix of it that does not depend on how the bytes were cut into outcomes.
-/

/-! ## Sending -/

/-- **What one call of `send` returns.** -/
inductive SendOutcome where
  /-- `-1` with `EINTR`. -/
  | interrupted
  /-- `-1` with any other error, a full socket buffer included. -/
  | failed
  /-- The number of bytes taken, of those offered. -/
  | took (k : ℕ)
  deriving DecidableEq

/-- What a sending loop comes to. -/
structure SendResult where
  /-- Whether every byte was taken. -/
  ok : Bool
  /-- The bytes taken. -/
  sent : Bytes
  /-- The outcomes left for later calls. -/
  rest : List SendOutcome
  deriving DecidableEq

/-- **The sending loop**: `send` is called for what is left until nothing is,
and the loop gives up on an error or when a call takes nothing. Once the list
of outcomes is used up, the socket takes everything. -/
def sendAll (retry : Bool) : List SendOutcome → Bytes → SendResult
  | outcomes, [] => ⟨true, [], outcomes⟩
  | [], p => ⟨true, p, []⟩
  | .interrupted :: rest, p =>
    if retry then sendAll retry rest p else ⟨false, [], rest⟩
  | .failed :: rest, _ => ⟨false, [], rest⟩
  | .took 0 :: rest, _ => ⟨false, [], rest⟩
  | .took (k + 1) :: rest, p =>
    let r := sendAll retry rest (p.drop (k + 1))
    ⟨r.ok, p.take (k + 1) ++ r.sent, r.rest⟩

/-- **Whether a socket takes `n` bytes**: the outcomes decide, and the bytes
offered do not. -/
def takesAll (retry : Bool) : List SendOutcome → ℕ → Bool
  | _, 0 => true
  | [], _ => true
  | .interrupted :: rest, n => retry && takesAll retry rest n
  | .failed :: _, _ => false
  | .took 0 :: _, _ => false
  | .took (k + 1) :: rest, n => takesAll retry rest (n - (k + 1))

/-- **What was taken is a prefix of what was offered**: no byte is sent twice,
none is skipped. -/
theorem sendAll_sent_begins (retry : Bool) (outcomes : List SendOutcome)
    (p : Bytes) : (sendAll retry outcomes p).sent <+: p := by
  fun_induction sendAll retry outcomes p with
  | case1 => exact List.prefix_refl _
  | case2 => exact List.prefix_refl _
  | case3 _ _ _ _ ih => exact ih
  | case7 k rest p _ r ih =>
    obtain ⟨t, ht⟩ := ih
    refine ⟨t, ?_⟩
    dsimp only
    rw [List.append_assoc, ht, List.take_append_drop]
  | _ => exact List.nil_prefix

/-- **A loop that succeeds has sent everything.** -/
theorem sendAll_sent_of_ok {retry : Bool} {outcomes : List SendOutcome}
    {p : Bytes} (h : (sendAll retry outcomes p).ok = true) :
    (sendAll retry outcomes p).sent = p := by
  fun_induction sendAll retry outcomes p with
  | case1 => rfl
  | case2 => rfl
  | case3 _ _ _ _ ih => exact ih h
  | case7 k rest p _ r ih =>
    dsimp only at h ⊢
    rw [ih h, List.take_append_drop]
  | _ => exact absurd h Bool.false_ne_true

/-- **The loop succeeds exactly where the socket takes as many bytes.** -/
theorem sendAll_ok (retry : Bool) (outcomes : List SendOutcome) (p : Bytes) :
    (sendAll retry outcomes p).ok = takesAll retry outcomes p.length := by
  fun_induction sendAll retry outcomes p with
  | case1 outcomes => cases outcomes <;> rfl
  | case2 p hp =>
    cases p with
    | nil => exact absurd rfl hp
    | cons x p => rfl
  | case3 rest p hp hr ih =>
    cases p with
    | nil => exact absurd rfl hp
    | cons x p => rw [ih]; simp [takesAll, hr]
  | case4 rest p hp hr =>
    cases p with
    | nil => exact absurd rfl hp
    | cons x p => simp [takesAll, hr]
  | case5 rest p hp =>
    cases p with
    | nil => exact absurd rfl hp
    | cons x p => rfl
  | case6 rest p hp =>
    cases p with
    | nil => exact absurd rfl hp
    | cons x p => rfl
  | case7 k rest p hp r ih =>
    cases p with
    | nil => exact absurd rfl hp
    | cons x p =>
      dsimp only
      rw [ih, List.length_drop]
      rfl

/-! ## Receiving -/

/-- **What one call of `recv` returns.** -/
inductive RecvOutcome where
  /-- Bytes, at least one. A call that asks for fewer takes the front of them
  and leaves the rest for the next call. -/
  | data (x : UInt8) (xs : Bytes)
  /-- `0`: the peer has closed the connection. -/
  | closed
  /-- `-1` with `EINTR`. -/
  | interrupted
  /-- `-1` with `EAGAIN` or `EWOULDBLOCK`. -/
  | wouldBlock
  /-- `-1` with any other error. -/
  | failed
  deriving DecidableEq

/-- Why a receiving loop ended. -/
inductive RecvStatus where
  /-- The bytes asked for are there. -/
  | filled
  /-- The peer has closed the connection. -/
  | closed
  /-- Nothing to read for now. -/
  | blocked
  /-- An error. -/
  | failed
  deriving DecidableEq

/-- Bytes put back in front of the outcomes to come. -/
def unread : Bytes → List RecvOutcome → List RecvOutcome
  | [], rest => rest
  | x :: xs, rest => .data x xs :: rest

/-- What a receiving loop comes to. -/
structure RecvResult where
  /-- Why it ended. -/
  status : RecvStatus
  /-- The bytes received. -/
  got : Bytes
  /-- The calls made: the offset each writes at and the number of bytes it
  asks for. -/
  asks : List (ℕ × ℕ)
  /-- The outcomes left for later calls. -/
  rest : List RecvOutcome
  deriving DecidableEq

/-- **The receiving loop**: `recv` is called for what is missing of `n` bytes
at offset `off`, until nothing is missing or a call returns something other
than bytes. Once the list of outcomes is used up there is nothing to read. -/
def recvLoop (retry : Bool) : List RecvOutcome → ℕ → ℕ → RecvResult
  | inbox, _, 0 => ⟨.filled, [], [], inbox⟩
  | [], off, n + 1 => ⟨.blocked, [], [(off, n + 1)], []⟩
  | .wouldBlock :: rest, off, n + 1 => ⟨.blocked, [], [(off, n + 1)], rest⟩
  | .closed :: rest, off, n + 1 => ⟨.closed, [], [(off, n + 1)], rest⟩
  | .failed :: rest, off, n + 1 => ⟨.failed, [], [(off, n + 1)], rest⟩
  | .interrupted :: rest, off, n + 1 =>
    if retry then
      let r := recvLoop retry rest off (n + 1)
      { r with asks := (off, n + 1) :: r.asks }
    else ⟨.failed, [], [(off, n + 1)], rest⟩
  | .data x xs :: rest, off, n + 1 =>
    if n < xs.length then
      ⟨.filled, x :: xs.take n, [(off, n + 1)], unread (xs.drop n) rest⟩
    else
      let r := recvLoop retry rest (off + (xs.length + 1)) (n - xs.length)
      ⟨r.status, x :: xs ++ r.got, (off, n + 1) :: r.asks, r.rest⟩

/-- **What can be read in one go**: the bytes in front of the first outcome
that is not bytes. -/
def readable (retry : Bool) : List RecvOutcome → Bytes
  | .data x xs :: rest => x :: xs ++ readable retry rest
  | .interrupted :: rest => if retry then readable retry rest else []
  | .wouldBlock :: _ => []
  | .closed :: _ => []
  | .failed :: _ => []
  | [] => []

/-- Why reading in one go comes to an end. -/
def stopStatus (retry : Bool) : List RecvOutcome → RecvStatus
  | .data _ _ :: rest => stopStatus retry rest
  | .interrupted :: rest => if retry then stopStatus retry rest else .failed
  | .closed :: _ => .closed
  | .failed :: _ => .failed
  | _ => .blocked

/-- Reading in one go does not end because enough is there. -/
theorem stopStatus_ne_filled (retry : Bool) (inbox : List RecvOutcome) :
    stopStatus retry inbox ≠ .filled := by
  fun_induction stopStatus retry inbox with
  | case1 _ _ _ ih => exact ih
  | case2 _ _ ih => exact ih
  | _ => exact nofun

/-- What is left once reading in one go has come to its end. -/
def afterStop (retry : Bool) : List RecvOutcome → List RecvOutcome
  | .data _ _ :: rest => afterStop retry rest
  | .interrupted :: rest => if retry then afterStop retry rest else rest
  | _ :: rest => rest
  | [] => []

/-- Every byte there is to read, whatever stands between. -/
def allData : List RecvOutcome → Bytes
  | .data x xs :: rest => x :: xs ++ allData rest
  | _ :: rest => allData rest
  | [] => []

section Unread

variable (retry : Bool) (b : Bytes) (rest : List RecvOutcome)

@[simp] theorem readable_unread :
    readable retry (unread b rest) = b ++ readable retry rest := by
  cases b <;> rfl

@[simp] theorem stopStatus_unread :
    stopStatus retry (unread b rest) = stopStatus retry rest := by
  cases b <;> rfl

@[simp] theorem afterStop_unread :
    afterStop retry (unread b rest) = afterStop retry rest := by
  cases b <;> rfl

@[simp] theorem allData_unread :
    allData (unread b rest) = b ++ allData rest := by
  cases b <;> rfl

end Unread

/-- **The loop reads a prefix of what can be read in one go**, and which one
depends on the number of bytes asked for, not on how they were cut. -/
theorem recvLoop_got (retry : Bool) (inbox : List RecvOutcome) (off n : ℕ) :
    (recvLoop retry inbox off n).got = (readable retry inbox).take n := by
  fun_induction recvLoop retry inbox off n with
  | case1 => rw [List.take_zero]
  | case6 rest off n hr r ih =>
    rw [readable, if_pos hr]
    exact ih
  | case8 x xs rest off n h =>
    dsimp only
    rw [readable, List.cons_append, List.take_succ_cons,
      List.take_append_of_le_length (by omega)]
  | case9 x xs rest off n h r ih =>
    dsimp only
    rw [ih, readable, List.cons_append, List.cons_append, List.take_succ_cons,
      List.take_append, show xs.take n = xs from
        List.take_of_length_le (by omega)]
  | case7 rest off n hr => rw [readable, if_neg hr, List.take_nil]
  | _ => rfl

/-- **The loop is filled exactly where enough can be read in one go**, and
otherwise ends as reading in one go does. -/
theorem recvLoop_status (retry : Bool) (inbox : List RecvOutcome)
    (off n : ℕ) :
    (recvLoop retry inbox off n).status
      = if n ≤ (readable retry inbox).length then .filled
        else stopStatus retry inbox := by
  fun_induction recvLoop retry inbox off n with
  | case1 => rw [if_pos (Nat.zero_le _)]
  | case6 rest off n hr r ih =>
    dsimp only
    rw [ih, readable, stopStatus, if_pos hr, if_pos hr]
  | case7 rest off n hr =>
    rw [readable, stopStatus, if_neg hr, if_neg hr,
      if_neg (by rw [List.length_nil]; omega)]
  | case8 x xs rest off n h =>
    dsimp only
    rw [readable, List.length_append, List.length_cons, if_pos (by omega)]
  | case9 x xs rest off n h r ih =>
    dsimp only
    rw [ih, readable, stopStatus, List.length_append, List.length_cons]
    refine if_congr ?_ rfl rfl
    omega
  | _ => rfl

/-- **A filled loop leaves the rest of what can be read.** -/
theorem recvLoop_rest_of_le {retry : Bool} {inbox : List RecvOutcome}
    {off n : ℕ} (h : n ≤ (readable retry inbox).length) :
    readable retry (recvLoop retry inbox off n).rest
        = (readable retry inbox).drop n
      ∧ stopStatus retry (recvLoop retry inbox off n).rest
        = stopStatus retry inbox
      ∧ afterStop retry (recvLoop retry inbox off n).rest
        = afterStop retry inbox := by
  fun_induction recvLoop retry inbox off n with
  | case1 => exact ⟨rfl, rfl, rfl⟩
  | case6 rest off n hr r ih =>
    rw [readable, if_pos hr] at h ⊢
    rw [stopStatus, if_pos hr, afterStop, if_pos hr]
    exact ih h
  | case7 rest off n hr =>
    rw [readable, if_neg hr, List.length_nil] at h
    omega
  | case8 x xs rest off n hl =>
    dsimp only
    rw [readable_unread, stopStatus_unread, afterStop_unread, readable,
      stopStatus, afterStop, List.cons_append, List.drop_succ_cons,
      List.drop_append_of_le_length (by omega)]
    exact ⟨rfl, rfl, rfl⟩
  | case9 x xs rest off n hl r ih =>
    rw [readable, List.length_append, List.length_cons] at h
    obtain ⟨h₁, h₂, h₃⟩ := ih (by omega)
    dsimp only
    rw [h₁, h₂, h₃, readable, stopStatus, afterStop, List.cons_append,
      List.drop_succ_cons, List.drop_append, show xs.drop n = [] from
        List.drop_eq_nil_of_le (by omega), List.nil_append]
    exact ⟨rfl, rfl, rfl⟩
  | _ => exact absurd h (Nat.not_succ_le_zero _)

/-- A loop that is not filled has read up to the end of one go. -/
theorem recvLoop_rest_of_lt {retry : Bool} {inbox : List RecvOutcome}
    {off n : ℕ} (h : (readable retry inbox).length < n) :
    (recvLoop retry inbox off n).rest = afterStop retry inbox := by
  fun_induction recvLoop retry inbox off n with
  | case1 => omega
  | case6 rest off n hr r ih =>
    rw [readable, if_pos hr] at h
    rw [afterStop, if_pos hr]
    exact ih h
  | case7 rest off n hr => rw [afterStop, if_neg hr]
  | case8 x xs rest off n hl =>
    rw [readable, List.length_append, List.length_cons] at h
    omega
  | case9 x xs rest off n hl r ih =>
    rw [readable, List.length_append, List.length_cons] at h
    rw [afterStop]
    exact ih (by omega)
  | _ => rfl

/-- **The loop loses, repeats and reorders nothing**: what it received and
what is left to read are what was there. -/
theorem recvLoop_allData (retry : Bool) (inbox : List RecvOutcome)
    (off n : ℕ) :
    (recvLoop retry inbox off n).got
        ++ allData (recvLoop retry inbox off n).rest
      = allData inbox := by
  fun_induction recvLoop retry inbox off n with
  | case1 => rfl
  | case6 rest off n hr r ih => exact ih
  | case8 x xs rest off n h =>
    dsimp only
    rw [allData_unread, allData, List.cons_append, ← List.append_assoc,
      List.take_append_drop, List.cons_append]
  | case9 x xs rest off n h r ih =>
    dsimp only
    rw [List.append_assoc, ih, allData]
  | _ => rfl

/-- **No call asks for a byte past the end**: each writes inside the `n` bytes
at `off`, and asks for at least one. -/
theorem recvLoop_asks {retry : Bool} {inbox : List RecvOutcome} {off n : ℕ}
    {a : ℕ × ℕ} (h : a ∈ (recvLoop retry inbox off n).asks) :
    0 < a.2 ∧ a.1 + a.2 = off + n := by
  fun_induction recvLoop retry inbox off n with
  | case1 => exact absurd h List.not_mem_nil
  | case6 rest off n hr r ih =>
    obtain rfl | h := List.mem_cons.mp h
    · exact ⟨Nat.succ_pos _, rfl⟩
    · exact ih h
  | case9 x xs rest off n hl r ih =>
    obtain rfl | h := List.mem_cons.mp h
    · exact ⟨Nat.succ_pos _, rfl⟩
    · obtain ⟨h₁, h₂⟩ := ih h
      exact ⟨h₁, by omega⟩
  | _ =>
    obtain rfl := List.mem_singleton.mp h
    exact ⟨Nat.succ_pos _, rfl⟩

/-! ## Several goes -/

/-- **What can be read in `k` goes**, each behind a call that would block. A
peer that has closed the connection or an error ends it. -/
def readableIn (retry : Bool) : ℕ → List RecvOutcome → Bytes
  | 0, _ => []
  | k + 1, inbox => readable retry inbox
    ++ if stopStatus retry inbox = .blocked then
      readableIn retry k (afterStop retry inbox) else []

/-- Where reading in one go ends as it does elsewhere, the goes behind it are
the same. -/
theorem readableIn_append {retry : Bool} {k : ℕ}
    {inbox inbox' : List RecvOutcome} {got : Bytes}
    (hread : got ++ readable retry inbox' = readable retry inbox)
    (hstop : stopStatus retry inbox' = stopStatus retry inbox)
    (hafter : afterStop retry inbox' = afterStop retry inbox) :
    readableIn retry (k + 1) inbox
      = got ++ readableIn retry (k + 1) inbox' := by
  rw [readableIn, readableIn, hstop, hafter, ← hread, List.append_assoc]

/-! ## Without signals

Where no call is interrupted the flag makes no difference. -/

section Uninterrupted

variable {inbox : List RecvOutcome} {outcomes : List SendOutcome}

theorem readable_uninterrupted (h : .interrupted ∉ inbox) :
    readable true inbox = readable false inbox
      ∧ stopStatus true inbox = stopStatus false inbox
      ∧ afterStop true inbox = afterStop false inbox
      ∧ .interrupted ∉ afterStop true inbox := by
  induction inbox with
  | nil => exact ⟨rfl, rfl, rfl, h⟩
  | cons o rest ih =>
    have hrest : .interrupted ∉ rest := fun hm => h (List.mem_cons_of_mem _ hm)
    obtain ⟨h₁, h₂, h₃, h₄⟩ := ih hrest
    cases o with
    | data x xs => exact ⟨congrArg (x :: xs ++ ·) h₁, h₂, h₃, h₄⟩
    | interrupted => exact absurd List.mem_cons_self h
    | closed => exact ⟨rfl, rfl, rfl, hrest⟩
    | wouldBlock => exact ⟨rfl, rfl, rfl, hrest⟩
    | failed => exact ⟨rfl, rfl, rfl, hrest⟩

/-- Several goes read the same. -/
theorem readableIn_uninterrupted (h : .interrupted ∉ inbox) (k : ℕ) :
    readableIn true k inbox = readableIn false k inbox := by
  induction k generalizing inbox with
  | zero => rfl
  | succ k ih =>
    obtain ⟨h₁, h₂, h₃, h₄⟩ := readable_uninterrupted h
    rw [readableIn, readableIn, h₁, h₂, ih h₄, h₃]

/-- Sending is the same. -/
theorem sendAll_uninterrupted (h : .interrupted ∉ outcomes) (p : Bytes) :
    sendAll true outcomes p = sendAll false outcomes p
      ∧ .interrupted ∉ (sendAll true outcomes p).rest := by
  induction outcomes generalizing p with
  | nil => cases p <;> exact ⟨rfl, h⟩
  | cons o rest ih =>
    have hrest : .interrupted ∉ rest := fun hm => h (List.mem_cons_of_mem _ hm)
    cases p with
    | nil => exact ⟨rfl, h⟩
    | cons x p =>
      cases o with
      | interrupted => exact absurd List.mem_cons_self h
      | failed => exact ⟨rfl, hrest⟩
      | took k =>
        cases k with
        | zero => exact ⟨rfl, hrest⟩
        | succ k =>
          obtain ⟨he, hr⟩ := ih hrest ((x :: p).drop (k + 1))
          have hcons : ∀ retry, sendAll retry (.took (k + 1) :: rest) (x :: p)
              = (let r := sendAll retry rest ((x :: p).drop (k + 1))
                ⟨r.ok, (x :: p).take (k + 1) ++ r.sent, r.rest⟩) :=
            fun _ => rfl
          rw [hcons, hcons, ← he]
          exact ⟨rfl, hr⟩

/-- The socket takes the same. -/
theorem takesAll_uninterrupted (h : .interrupted ∉ outcomes) (n : ℕ) :
    takesAll true outcomes n = takesAll false outcomes n := by
  have hp := (sendAll_uninterrupted h (List.replicate n 0)).1
  have := congrArg SendResult.ok hp
  rwa [sendAll_ok, sendAll_ok, List.length_replicate] at this

end Uninterrupted
