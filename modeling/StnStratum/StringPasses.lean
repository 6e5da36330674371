import StnStratum.ConfigGrammar

/-!
# The two passes of a string

`parse_string` walks over the characters of a string twice: the first pass
looks for the closing quote and counts them, and the second one decodes them
into a block of that many bytes and one more. They tell an escape apart in
different ways, the one by stepping over whatever is behind a backslash, the
other by switching on it, and neither checks the other.

Here the second pass is followed index by index, and keeps the positions that
it reads the text at and stores in the block at. Between two turns it has
decoded a string in front of what the first pass has still counted
(`Between`), so it reads nothing from the closing quote on, and the block is
filled exactly (`string_passes`).
-/

namespace ChainConfig

open Scanner (Loop Next)

/-! ## The pass -/

/-- **The second pass between two turns**: its indices, the block, and the
positions it has read the text at and stored in the block at. -/
structure SecondPass (n : ℕ) where
  /-- The index in the text, from the opening quote on. -/
  i : ℕ
  /-- The index in the block. -/
  j : ℕ
  /-- The block. -/
  value : Buf n
  /-- Where the text has been read. -/
  reads : List ℕ
  /-- Where the block has been stored in. -/
  stores : List ℕ

namespace SecondPass

variable {n : ℕ}

/-- The pass before its first turn. -/
def init (value : Buf n) : SecondPass n := ⟨0, 0, value, [], []⟩

/-- `value[j++]=c`, with the next character to read behind `count` of them. -/
def store (s : SecondPass n) (c : UInt8) (count : ℕ) : SecondPass n :=
  { s with i := s.i + count, j := s.j + 1, value := s.value.write s.j [c]
           stores := s.stores ++ [s.j] }

/-- The text is read at some positions. -/
def read (s : SecondPass n) (ps : List ℕ) : SecondPass n :=
  { s with reads := s.reads ++ ps }

/-- **A turn**: an escape takes two characters and anything else one, which is
read twice. At the closing quote the terminator is stored. -/
def step (text : Bytes) (start scan : ℕ) (s : SecondPass n) :
    Next (SecondPass n) (Bool × SecondPass n) :=
  if start + s.i < scan then
    if text.getD (start + s.i) 0 = backslash then
      let read := s.read [start + s.i, start + (s.i + 1)]
      match escape? (text.getD (start + (s.i + 1)) 0) with
      | none => .done (false, read)
      | some c => .more (read.store c 2)
    else
      .more ((s.read [start + s.i, start + s.i]).store
        (text.getD (start + s.i) 0) 1)
  else
    .done (true, { s with value := s.value.write s.j [0]
                          stores := s.stores ++ [s.j] })

/-- **The second pass of `parse_string`**, from the character behind the
opening quote to the closing one. -/
def loop (n : ℕ) (text : Bytes) (start scan : ℕ) :
    Loop (SecondPass n) (Bool × SecondPass n) where
  step := step text start scan
  size s := scan - (start + s.i)
  decreases := by
    intro s s' h
    unfold step at h
    split at h
    next hi =>
      split at h
      · dsimp only at h
        split at h
        · cases h
        · obtain rfl := Next.more.inj h
          show scan - (start + (s.i + 2)) < _
          omega
      · obtain rfl := Next.more.inj h
        show scan - (start + (s.i + 1)) < _
        omega
    next => cases h

end SecondPass

/-- **`skip_space`** on a position. -/
def skipSpaceAt (text : Bytes) (p : ℕ) : ℕ :=
  p + ((text.drop p).takeWhile isSpace).length

/-- **What a call of `parse_string` leaves**: its result, `*p`, the string at
`*out` if there is one, and the heap. -/
structure StringParse where
  /-- What it returns. -/
  ok : Bool
  /-- Where the text goes on. -/
  p : ℕ
  /-- The string. -/
  out : Option Bytes
  /-- The heap. -/
  heap : Heap

/-- **`parse_string`** on positions. -/
def parseStringAt (heap : Heap) (text : Bytes) (p : ℕ) (out : Option Bytes) :
    StringParse :=
  if text.getD (skipSpaceAt text p) 0 ≠ quote then
    ⟨false, skipSpaceAt text p, out, heap⟩
  else
    let start := skipSpaceAt text p + 1
    match scanString (text.drop start) 0 0 with
    | none => ⟨false, start, out, heap⟩
    | some (scan, length) =>
      match heap.malloc (length + 1) with
      | (none, heap) => ⟨false, start, out, heap⟩
      | (some value, heap) =>
        match (SecondPass.loop _ text start (start + scan)).run (.init value) with
        | some (true, s) =>
          ⟨true, start + scan + 1, some (cString s.value.bytes), heap⟩
        | _ => ⟨false, start, out, heap⟩

/-- What it comes to for a caller that does not look at `*p` or `*out` unless
it returns 1. -/
def StringParse.toOption (text : Bytes) (r : StringParse) :
    Option (Bytes × Bytes × Heap) :=
  if r.ok = true then r.out.map fun v => (v, text.drop r.p, r.heap) else none

/-! ## Strings with an escape that there is not -/

theorem StringBody.append {raw raw' v v' : Bytes} (h : StringBody raw v)
    (h' : StringBody raw' v') : StringBody (raw ++ raw') (v ++ v') := by
  induction h with
  | nil => exact h'
  | plain h₀ hq hb _ ih => exact .plain h₀ hq hb ih
  | escape he _ ih => exact .escape he ih

/-- **An unknown escape**, with a string in front of it. -/
def UnknownEscape (raw : Bytes) : Prop :=
  ∃ front v e back, StringBody front v ∧ raw = front ++ backslash :: e :: back
    ∧ ∀ c, (e, c) ∉ escapes

theorem StringBody.of_plain {b : UInt8} {raw v : Bytes} (hb : b ≠ backslash)
    (h : StringBody (b :: raw) v) : ∃ v, StringBody raw v := by
  cases h with
  | plain _ _ _ h => exact ⟨_, h⟩
  | escape _ _ => exact absurd rfl hb

theorem StringBody.of_escape {e : UInt8} {raw v : Bytes}
    (h : StringBody (backslash :: e :: raw) v) :
    (∃ c, (e, c) ∈ escapes) ∧ ∃ v, StringBody raw v := by
  cases h with
  | plain _ _ hb _ => exact absurd rfl hb
  | escape he h => exact ⟨⟨_, he⟩, _, h⟩

/-- Characters with an unknown escape are no string. -/
theorem UnknownEscape.not_body {raw v : Bytes} (h : UnknownEscape raw) :
    ¬ StringBody raw v := by
  obtain ⟨front, u, e, back, hf, rfl, he⟩ := h
  induction hf generalizing v with
  | nil => exact fun h => h.of_escape.1.elim he
  | plain _ _ hb _ ih => exact fun h => (h.of_plain hb).elim fun _ => ih
  | escape _ _ ih => exact fun h => h.of_escape.2.elim fun _ => ih

/-! ## What a turn keeps -/

theorem getD_of_drop {text rest : Bytes} {b : UInt8} {start : ℕ}
    (front : Bytes) (h : text.drop start = front ++ b :: rest) :
    text.getD (start + front.length) 0 = b := by
  rw [List.getD_eq_getElem?_getD, ← List.getElem?_drop, h,
    List.getElem?_append_right le_rfl, Nat.sub_self]
  rfl

section Pass

variable {text raw rest : Bytes} {start scan length : ℕ}

/-- **The pass between two turns**: the characters between the quotes are
those that are decoded and those that are still counted. -/
structure Between (start : ℕ) (raw : Bytes) (length : ℕ)
    (s : SecondPass (length + 1)) (front back v : Bytes) : Prop where
  /-- Nothing else is between the quotes. -/
  raw_eq : raw = front ++ back
  /-- What is decoded. -/
  body : StringBody front v
  /-- What is still counted. -/
  scanned : ∃ k, Scanned back k ∧ v.length + k = length
  /-- The index in the text. -/
  i_eq : s.i = front.length
  /-- The index in the block. -/
  j_eq : s.j = v.length
  /-- Nothing has been read from the closing quote on. -/
  reads : ∀ p ∈ s.reads, p < start + raw.length
  /-- What has been stored at. -/
  stores : s.stores = List.range v.length
  /-- What has been stored. -/
  begins : s.value.Begins v

/-- **What the last turn comes to.** -/
structure Passed (start : ℕ) (raw : Bytes) (length : ℕ)
    (r : Bool × SecondPass (length + 1)) : Prop where
  /-- Nothing has been read from the closing quote on. -/
  reads : ∀ p ∈ r.2.reads, p < start + raw.length
  /-- Nothing has been stored past the block. -/
  stores : ∀ p ∈ r.2.stores, p < length + 1
  /-- It gives up at an unknown escape only. -/
  unknown : r.1 = false → UnknownEscape raw
  /-- Else the block is filled, byte by byte, with the string. -/
  decoded : r.1 = true → r.2.stores = List.range (length + 1)
    ∧ ∃ v, StringBody raw v ∧ v.length = length ∧ r.2.value.bytes = v ++ [0]

/-- A character more is decoded. -/
theorem Between.store {s : SecondPass (length + 1)}
    {front back' v : Bytes} {c : UInt8} {k : ℕ} (chars : Bytes)
    (ps : List ℕ) (h : Between start raw length s front (chars ++ back') v)
    (hb : StringBody chars [c]) (hs : Scanned back' k)
    (hk : v.length + (k + 1) = length)
    (hp : ∀ p ∈ ps, p < start + raw.length) :
    Between start raw length ((s.read ps).store c chars.length)
      (front ++ chars) back' (v ++ [c]) where
  raw_eq := by rw [h.raw_eq, List.append_assoc]
  body := h.body.append hb
  scanned := ⟨k, hs, by rw [List.length_append, List.length_singleton]; omega⟩
  i_eq := by rw [List.length_append, ← h.i_eq]; rfl
  j_eq := by rw [List.length_append, ← h.j_eq]; rfl
  reads p hm := (List.mem_append.mp hm).elim (h.reads p) (hp p)
  stores := by
    show s.stores ++ [s.j] = _
    rw [h.stores, h.j_eq, List.length_append, List.length_singleton,
      List.range_succ]
  begins := by
    refine h.begins.write h.j_eq.symm ?_
    show s.j + 1 ≤ length + 1
    rw [h.j_eq]
    omega

/-- **What a turn comes to**: what is between two turns is there again, or the
pass is over. -/
theorem Between.step {s : SecondPass (length + 1)} {front back v : Bytes}
    (ht : text.drop start = raw ++ quote :: rest)
    (h : Between start raw length s front back v) :
    (∃ s' front' back' v', SecondPass.step text start (start + raw.length) s
        = .more s' ∧ Between start raw length s' front' back' v')
      ∨ ∃ r, SecondPass.step text start (start + raw.length) s = .done r
        ∧ Passed start raw length r := by
  obtain ⟨k, hs, hk⟩ := h.scanned
  have hlen : raw.length = front.length + back.length := by
    rw [h.raw_eq, List.length_append]
  have hi := h.i_eq
  rw [h.raw_eq, List.append_assoc] at ht
  cases hs with
  | nil =>
    refine .inr ⟨_, if_neg ?_, h.reads, ?_, nofun, fun _ => ⟨?_, v, ?_, hk, ?_⟩⟩
    · rw [List.length_nil] at hlen
      omega
    · intro p hm
      rcases List.mem_append.mp hm with hm | hm
      · rw [h.stores, List.mem_range] at hm
        omega
      · rw [List.mem_singleton.mp hm, h.j_eq]
        omega
    · show s.stores ++ [s.j] = _
      rw [h.stores, h.j_eq, ← List.range_succ, ← hk]
    · rw [h.raw_eq, List.append_nil]
      exact h.body
    · refine (h.begins.write h.j_eq.symm ?_).bytes_eq ?_
      · rw [h.j_eq, List.length_singleton]
        omega
      · rw [List.length_append, List.length_singleton, ← hk]
  | @plain b back k h₀ hq hb hs =>
    have hb' : text.getD (start + s.i) 0 = b := hi ▸ getD_of_drop front ht
    rw [List.length_cons] at hlen
    refine .inl ⟨_, _, _, _, ?_, h.store [b]
      [start + s.i, start + s.i] (.plain h₀ hq hb .nil) hs hk ?_⟩
    · unfold SecondPass.step
      rw [if_pos (by omega), hb', if_neg hb]
      rfl
    · simp only [List.mem_cons, List.not_mem_nil, or_false, or_self,
        forall_eq]
      omega
  | @pair e back k h₀ hs =>
    have hb : text.getD (start + s.i) 0 = backslash := hi ▸ getD_of_drop front ht
    have he : text.getD (start + (s.i + 1)) 0 = e := by
      have := getD_of_drop (front ++ [backslash])
        (ht.trans (List.append_assoc front [backslash] _).symm)
      rwa [List.length_append, List.length_singleton, ← hi] at this
    rw [List.length_cons, List.length_cons] at hlen
    have hp : ∀ p ∈ [start + s.i, start + (s.i + 1)],
        p < start + raw.length := by
      simp only [List.mem_cons, List.not_mem_nil, or_false, forall_eq_or_imp,
        forall_eq]
      omega
    cases hc : escape? e with
    | some c =>
      refine .inl ⟨_, _, _, _, ?_, h.store
        [backslash, e] _ (.escape (escape?_eq_some_iff.mp hc) .nil) hs hk hp⟩
      unfold SecondPass.step
      rw [if_pos (by omega), if_pos hb, he, hc]
      rfl
    | none =>
      refine .inr ⟨(false, s.read _), ?_, fun p hm =>
        (List.mem_append.mp hm).elim (h.reads p) (hp p), fun p hm => ?_,
        fun _ => ⟨front, v, e, back, h.body, h.raw_eq, fun c hm => ?_⟩, nofun⟩
      · unfold SecondPass.step
        rw [if_pos (by omega), if_pos hb, he, hc]
      · rw [show (s.read [start + s.i, start + (s.i + 1)]).stores
          = List.range v.length from h.stores, List.mem_range] at hm
        omega
      · rw [escape?_eq_some_iff.mpr hm] at hc
        cases hc

/-- **The pass is over some time**, and it has kept to the characters and to
the block. -/
theorem passed (hs : scanString (text.drop start) 0 0 = some (scan, length))
    (value : Buf (length + 1)) :
    ∃ r, (SecondPass.loop _ text start (start + scan)).run (.init value)
        = some r
      ∧ Passed start (slice text start scan) length r := by
  obtain ⟨raw, k, rest, hraw, ht, hscan, hlength⟩ := scanned_of_scanString hs
  rw [Nat.zero_add] at hscan hlength
  have hslice : slice text start scan = raw := by
    rw [slice, ht, hscan, List.take_left]
  rw [hslice, hscan]
  refine Loop.exists_run _
    (I := fun s => ∃ front back v, Between start raw length s front back v)
    ?_ ?_ ?_ ⟨[], raw, [], rfl, .nil, ⟨k, hraw, ?_⟩, rfl, rfl,
      List.forall_mem_nil _, rfl, value.begins_nil⟩
  · rintro s ⟨front, back, v, h⟩ he
    rcases h.step ht with ⟨_, _, _, _, hs, _⟩ | ⟨_, hs, _⟩
    · cases hs.symm.trans he
    · cases hs.symm.trans he
  · rintro s s' ⟨front, back, v, h⟩ he
    rcases h.step ht with ⟨_, _, _, _, hs, h'⟩ | ⟨_, hs, _⟩
    · obtain rfl := Next.more.inj (hs.symm.trans he)
      exact ⟨_, _, _, h'⟩
    · cases hs.symm.trans he
  · rintro s r ⟨front, back, v, h⟩ he
    rcases h.step ht with ⟨_, _, _, _, hs, _⟩ | ⟨_, hs, h'⟩
    · cases hs.symm.trans he
    · obtain rfl := Next.done.inj (hs.symm.trans he)
      exact h'
  · rw [List.length_nil, Nat.zero_add, hlength]

end Pass

/-! ## The call -/

section Call

variable {heap heap' : Heap} {text : Bytes} {p scan length : ℕ}

/-- **What a call leaves** where the first pass has found the closing quote
and there is a block: the string, or nothing at all. -/
theorem parseStringAt_cases (out : Option Bytes) {value : Buf (length + 1)}
    (hq : text.getD (skipSpaceAt text p) 0 = quote)
    (hs : scanString (text.drop (skipSpaceAt text p + 1)) 0 0
      = some (scan, length))
    (hm : heap.malloc (length + 1) = (some value, heap')) :
    (UnknownEscape (slice text (skipSpaceAt text p + 1) scan)
        ∧ parseStringAt heap text p out
          = ⟨false, skipSpaceAt text p + 1, out, heap'⟩)
      ∨ ∃ v, StringBody (slice text (skipSpaceAt text p + 1) scan) v
        ∧ v.length = length
        ∧ parseStringAt heap text p out
          = ⟨true, skipSpaceAt text p + 1 + scan + 1, some v, heap'⟩ := by
  obtain ⟨⟨ok, s⟩, hr, h⟩ := passed hs value
  unfold parseStringAt
  rw [if_neg (not_not.mpr hq)]
  dsimp only
  rw [hs]
  dsimp only
  rw [hm]
  dsimp only
  rw [hr]
  cases ok with
  | false => exact .inl ⟨h.unknown rfl, rfl⟩
  | true =>
    obtain ⟨_, v, hv, hl, hb⟩ := h.decoded rfl
    refine .inr ⟨v, hv, hl, ?_⟩
    dsimp only at hb ⊢
    rw [hb, cString_append_zero hv.zero_not_mem]

/-- Where the pass gives up, the string is not decoded. -/
theorem decodeString_eq_none {start : Bytes}
    (hs : scanString start 0 0 = some (scan, length))
    (hu : UnknownEscape (start.take scan)) (value : Buf (length + 1)) :
    decodeString scan start 0 0 value = none := by
  obtain ⟨raw, k, rest, hraw, rfl, rfl, rfl⟩ := scanned_of_scanString hs
  rw [Nat.zero_add, List.take_left] at hu
  refine Option.eq_none_iff_forall_ne_some.mpr fun value' hd => ?_
  obtain ⟨v, hv, _⟩ := body_of_decodeString (w := []) (j := 0) hraw rfl
    (by omega) value.begins_nil hd
  exact hu.not_body hv

/-- Where it does not, it is. -/
theorem decodeString_eq_some {start v : Bytes}
    (hs : scanString start 0 0 = some (scan, length))
    (hv : StringBody (start.take scan) v) (hl : v.length = length)
    (value : Buf (length + 1)) :
    ∃ value', decodeString scan start 0 0 value = some value'
      ∧ cString value'.bytes = v := by
  obtain ⟨raw, k, rest, _, rfl, rfl, rfl⟩ := scanned_of_scanString hs
  rw [Nat.zero_add, List.take_left] at hv
  obtain ⟨value', hd, hb⟩ := decodeString_of_body (w := []) (j := 0) hv
    (quote :: rest) rfl (by omega) value.begins_nil
  refine ⟨value', hd, ?_⟩
  rw [hb.bytes_eq (by rw [List.nil_append, List.length_append, hl]; rfl)]
  exact cString_append_zero hv.zero_not_mem []

/-- **On positions it is the same function.** -/
theorem toOption_parseStringAt (heap : Heap) (text : Bytes) (p : ℕ)
    (out : Option Bytes) : (parseStringAt heap text p out).toOption text
      = parseString heap (text.drop p) := by
  have hdrop : skipSpace (text.drop p) = text.drop (skipSpaceAt text p) := by
    rw [skipSpaceAt, ← List.drop_drop, skipSpace]
    exact (List.drop_left' rfl ▸ congrArg (List.drop _)
      (List.takeWhile_append_dropWhile (p := isSpace) (l := text.drop p)).symm).symm
  cases ht : text.drop (skipSpaceAt text p) with
  | nil =>
    have hb : text.getD (skipSpaceAt text p) 0 = 0 := by
      rw [List.getD_eq_getElem?_getD,
        List.getElem?_eq_none (List.drop_eq_nil_iff.mp ht)]
      rfl
    unfold parseStringAt parseString
    rw [if_pos (by rw [hb]; decide), hdrop, ht]
    rfl
  | cons b start =>
    have hb : text.getD (skipSpaceAt text p) 0 = b := getD_of_drop [] ht
    have hstart : text.drop (skipSpaceAt text p + 1) = start := by
      rw [← List.drop_drop, ht]
      rfl
    by_cases hq : b = quote
    · cases hs : scanString start 0 0 with
      | none =>
        unfold parseStringAt parseString
        rw [if_neg (by rw [hb]; exact not_not.mpr hq), hdrop, ht]
        dsimp only
        rw [hstart, if_neg (not_not.mpr hq), hs]
        rfl
      | some r =>
        obtain ⟨scan, length⟩ := r
        rw [← hstart] at hs
        cases hm : heap.malloc (length + 1) with
        | mk block heap' =>
          cases block with
          | none =>
            unfold parseStringAt parseString
            rw [if_neg (by rw [hb]; exact not_not.mpr hq), hdrop, ht]
            dsimp only
            rw [if_neg (not_not.mpr hq), ← hstart, hs]
            dsimp only
            rw [hm]
            rfl
          | some value =>
            unfold parseString
            rw [hdrop, ht]
            dsimp only
            rw [if_neg (not_not.mpr hq), ← hstart, hs]
            dsimp only
            rw [hm]
            dsimp only
            rcases parseStringAt_cases out (hb.trans hq) hs hm
              with ⟨hu, he⟩ | ⟨v, hv, hl, he⟩
            · rw [decodeString_eq_none hs hu, he]
              rfl
            · obtain ⟨value', hd, hc⟩ := decodeString_eq_some hs hv hl value
              rw [hd, he]
              dsimp only
              rw [hc, List.drop_drop]
              rfl
    · unfold parseStringAt parseString
      rw [if_pos (by rw [hb]; exact hq), hdrop, ht]
      dsimp only
      rw [if_pos hq]
      rfl

end Call

/-- **Both passes agree on a string.** Where the first pass finds a closing
quote, the second one is over some time, reads the text in front of that quote
only and stores inside the block; it gives up at an unknown escape, or it
stores each byte of the block once, and they are the string and its
terminator. The call leaves `*out` alone then, or it leaves the string there
and the text goes on behind the quote. -/
theorem string_passes (heap heap' : Heap) (text : Bytes) (p : ℕ)
    (out : Option Bytes) {scan length : ℕ}
    (hq : text.getD (skipSpaceAt text p) 0 = quote)
    (hs : scanString (text.drop (skipSpaceAt text p + 1)) 0 0
      = some (scan, length)) (value : Buf (length + 1)) :
    text.getD (skipSpaceAt text p + 1 + scan) 0 = quote
      ∧ (∃ ok s, (SecondPass.loop _ text (skipSpaceAt text p + 1)
          (skipSpaceAt text p + 1 + scan)).run (.init value) = some (ok, s)
        ∧ (∀ k ∈ s.reads, k < skipSpaceAt text p + 1 + scan)
        ∧ (∀ k ∈ s.stores, k < length + 1)
        ∧ (ok = false →
          UnknownEscape (slice text (skipSpaceAt text p + 1) scan))
        ∧ (ok = true → s.stores = List.range (length + 1)
          ∧ ∃ v, StringBody (slice text (skipSpaceAt text p + 1) scan) v
            ∧ v.length = length ∧ s.value.bytes = v ++ [0]))
      ∧ (heap.malloc (length + 1) = (some value, heap') →
        (UnknownEscape (slice text (skipSpaceAt text p + 1) scan)
          ∧ parseStringAt heap text p out
            = ⟨false, skipSpaceAt text p + 1, out, heap'⟩)
        ∨ ∃ v, StringBody (slice text (skipSpaceAt text p + 1) scan) v
          ∧ parseStringAt heap text p out
            = ⟨true, skipSpaceAt text p + 1 + scan + 1, some v, heap'⟩) := by
  obtain ⟨raw, k, rest, hraw, ht, hscan, -⟩ := scanned_of_scanString hs
  rw [Nat.zero_add] at hscan
  have hlen : (slice text (skipSpaceAt text p + 1) scan).length = scan := by
    rw [slice, ht, hscan, List.take_left]
  obtain ⟨⟨ok, s⟩, hr, h⟩ := passed hs value
  refine ⟨hscan ▸ getD_of_drop raw ht, ⟨ok, s, hr, ?_, h.stores, h.unknown,
    h.decoded⟩, fun hm => ?_⟩
  · rw [← hlen]
    exact hlen.symm ▸ h.reads
  · rcases parseStringAt_cases out hq hs hm with hu | ⟨v, hv, _, he⟩
    · exact .inl hu
    · exact .inr ⟨v, hv, he⟩

/-- Of `"a\\""` the first pass counts two characters, and the second one
stores three bytes. -/
theorem string_passes_escapedBackslash : ∃ ok s,
    (SecondPass.loop 3 [quote, 0x61, backslash, backslash, quote] 1 (1 + 3)).run
      (.init (.zero 3)) = some (ok, s)
      ∧ (ok = true → s.stores = List.range 3 ∧ ∃ v,
        StringBody [0x61, backslash, backslash] v ∧ v.length = 2
          ∧ s.value.bytes = v ++ [0]) := by
  obtain ⟨_, ⟨ok, s, hr, _, _, _, hd⟩, _⟩ := string_passes ⟨[], fun _ => 0⟩
    ⟨[], fun _ => 0⟩ [quote, 0x61, backslash, backslash, quote] 0 none
    (by decide) (show scanString [0x61, backslash, backslash, quote] 0 0
      = some (3, 2) by decide) (.zero 3)
  exact ⟨ok, s, hr, hd⟩

end ChainConfig
