import StnStratum.ChainConfig

/-!
# What a configuration is

The grammar of the configuration says nothing of how it is parsed: a text is
spelled by tokens, and the tokens are an object with the list of the servers
in it. `parse_config` accepts exactly what the grammar derives
(`chain_config`), and the servers it comes back with are the ones the text
denotes, in their order.

Both passes of `parse_string` are needed for a string to be accepted, and
they agree on what its characters are (`Scanned`). The bound on a port is
checked digit by digit, and a number is within it exactly where every part of
it is.
-/

namespace ChainConfig

open Scanner (Token Lexicon Items ItemTokens)

/-! ## Tokens -/

/-- A value in the text. -/
inductive Value where
  /-- A string. -/
  | string (v : Bytes)
  /-- A number. -/
  | number (n : ℕ)

/-- **The escapes**: the character behind the backslash, and the one that it
stands for. -/
def escapes : List (UInt8 × UInt8) :=
  [(0x22, 0x22), (0x5c, 0x5c), (0x2f, 0x2f), (0x62, 0x08), (0x66, 0x0c),
    (0x6e, 0x0a), (0x72, 0x0d), (0x74, 0x09)]

/-- **The characters between two quotes**, and the string they are. -/
inductive StringBody : Bytes → Bytes → Prop where
  /-- No more characters. -/
  | nil : StringBody [] []
  /-- A character that stands for itself. -/
  | plain {b : UInt8} {raw v : Bytes} (h₀ : b ≠ 0) (hq : b ≠ quote)
    (hb : b ≠ backslash) (h : StringBody raw v) : StringBody (b :: raw) (b :: v)
  /-- An escape. -/
  | escape {e c : UInt8} {raw v : Bytes} (he : (e, c) ∈ escapes)
    (h : StringBody raw v) : StringBody (backslash :: e :: raw) (c :: v)

/-- The number that digits are behind another one. -/
def decimalFrom (n : ℕ) (raw : Bytes) : ℕ :=
  raw.foldl (fun n b => n * 10 + (b.toNat - 0x30)) n

/-- **The number that digits are.** -/
def decimal (raw : Bytes) : ℕ := decimalFrom 0 raw

/-- **How values are spelled.** -/
def Spells : Value → Bytes → Prop
  | .string v, raw => ∃ body, StringBody body v
      ∧ raw = quote :: (body ++ [quote])
  | .number n, raw => raw ≠ [] ∧ (∀ b ∈ raw, isDigit b = true)
      ∧ decimal raw = n

theorem isSpace_of_isDigit {b : UInt8} (h : isDigit b = true) :
    isSpace b = false := by
  unfold isDigit at h
  unfold isSpace
  rw [Bool.and_eq_true, decide_eq_true_eq, decide_eq_true_eq] at h
  rw [Bool.or_eq_false_iff, beq_eq_false_iff_ne, Bool.and_eq_false_iff,
    decide_eq_false_iff_not, decide_eq_false_iff_not]
  simp only [UInt8.le_iff_toNat_le, ne_eq, ← UInt8.toNat_inj] at h ⊢
  have h₁ : (0x30 : UInt8).toNat = 48 := rfl
  have h₂ : (0x0d : UInt8).toNat = 13 := rfl
  have h₃ : (0x20 : UInt8).toNat = 32 := rfl
  omega

/-- **How tokens are spelled.** -/
def lexicon : Lexicon UInt8 Value where
  blank := isSpace
  Spells := Spells
  solid := by
    intro v raw h
    cases v with
    | string v =>
      obtain ⟨body, _, rfl⟩ := h
      exact ⟨quote, _, rfl, by decide⟩
    | number n =>
      cases raw with
      | nil => exact absurd rfl h.1
      | cons b raw =>
        exact ⟨b, raw, rfl, isSpace_of_isDigit (h.2.1 b List.mem_cons_self)⟩

/-! ## The grammar -/

/-- A member of an object. -/
def memberTokens (key : Bytes) (v : List (Token UInt8 Value)) :
    List (Token UInt8 Value) :=
  .value (.string key) :: .mark colon :: v

/-- A comma behind the last member, or nothing. -/
def trailing (last : Bool) : List (Token UInt8 Value) :=
  if last = true then [.mark comma] else []

/-- **A server**: an object with its host and its port, in either order. -/
inductive ServerTokens (entry : ChainConfigEntry) :
    List (Token UInt8 Value) → Prop where
  /-- The host comes first. -/
  | hostFirst (hh : entry.host ≠ []) (hp : entry.port ≠ 0) (last : Bool) :
    ServerTokens entry (.mark openBrace
      :: (memberTokens hostKey [.value (.string entry.host)]
        ++ .mark comma
        :: (memberTokens portKey [.value (.number entry.port.toNat)]
          ++ (trailing last ++ [.mark closeBrace]))))
  /-- The port comes first. -/
  | portFirst (hh : entry.host ≠ []) (hp : entry.port ≠ 0) (last : Bool) :
    ServerTokens entry (.mark openBrace
      :: (memberTokens portKey [.value (.number entry.port.toNat)]
        ++ .mark comma
        :: (memberTokens hostKey [.value (.string entry.host)]
          ++ (trailing last ++ [.mark closeBrace]))))

/-- **Servers with commas between them.** -/
inductive ServersTokens : List ChainConfigEntry →
    List (Token UInt8 Value) → Prop where
  /-- One. -/
  | one {entry : ChainConfigEntry} {ts : List (Token UInt8 Value)}
    (h : ServerTokens entry ts) : ServersTokens [entry] ts
  /-- One and others. -/
  | more {entry : ChainConfigEntry} {entries : List ChainConfigEntry}
    {ts us : List (Token UInt8 Value)} (h : ServerTokens entry ts)
    (h' : ServersTokens entries us) :
    ServersTokens (entry :: entries) (ts ++ .mark comma :: us)

/-- **A configuration**: an object whose only member is the list of the
servers. -/
def configTokens (ts : List (Token UInt8 Value)) (last : Bool) :
    List (Token UInt8 Value) :=
  .mark openBrace
    :: (memberTokens chainServersKey
        (.mark openBracket :: (ts ++ [.mark closeBracket]))
      ++ (trailing last ++ [.mark closeBrace]))

/-- **A text that denotes servers**: a configuration, and nothing but blanks
behind it. -/
def Denotes (text : Bytes) (servers : List ChainConfigEntry) : Prop :=
  ∃ ts last rest, ServersTokens servers ts
    ∧ lexicon.Reads (configTokens ts last) text rest
    ∧ ∀ b ∈ rest, isSpace b = true

/-! ## Strings -/

theorem expect_eq_some_iff {p rest : Bytes} {b : UInt8}
    (hb : isSpace b = false) :
    expect p b = some rest ↔ lexicon.Starts (.mark b) p rest := by
  rw [Lexicon.starts_mark_iff hb]
  unfold expect skipSpace
  show _ ↔ p.dropWhile isSpace = _
  cases p.dropWhile isSpace with
  | nil => exact iff_of_false nofun nofun
  | cons b' rest' =>
    dsimp only
    split
    next h =>
      rw [h, Option.some.injEq, List.cons.injEq]
      exact (and_iff_right rfl).symm
    next h => exact iff_of_false nofun fun he => h (List.cons.inj he).1

theorem escape?_eq_some_iff {e c : UInt8} :
    escape? e = some c ↔ (e, c) ∈ escapes := by
  unfold escape? escapes
  constructor
  · intro h
    split_ifs at h <;> obtain rfl := Option.some.inj h <;> subst e <;> decide
  · intro h
    simp only [List.mem_cons, Prod.mk.injEq, List.not_mem_nil, or_false] at h
    rcases h with ⟨rfl, rfl⟩ | ⟨rfl, rfl⟩ | ⟨rfl, rfl⟩ | ⟨rfl, rfl⟩
      | ⟨rfl, rfl⟩ | ⟨rfl, rfl⟩ | ⟨rfl, rfl⟩ | ⟨rfl, rfl⟩ <;> rfl

/-- **What the first pass walks over**: characters that stand for themselves
and pairs of a backslash and whatever is behind it, so many in number. -/
inductive Scanned : Bytes → ℕ → Prop where
  /-- Nothing. -/
  | nil : Scanned [] 0
  /-- A character. -/
  | plain {b : UInt8} {raw : Bytes} {k : ℕ} (h₀ : b ≠ 0) (hq : b ≠ quote)
    (hb : b ≠ backslash) (h : Scanned raw k) : Scanned (b :: raw) (k + 1)
  /-- A pair. -/
  | pair {e : UInt8} {raw : Bytes} {k : ℕ} (h₀ : e ≠ 0) (h : Scanned raw k) :
    Scanned (backslash :: e :: raw) (k + 1)

/-- The characters of a string are walked over. -/
theorem StringBody.scanned {raw v : Bytes} (h : StringBody raw v) :
    Scanned raw v.length := by
  induction h with
  | nil => exact .nil
  | plain h₀ hq hb _ ih => exact .plain h₀ hq hb ih
  | @escape e c _ _ he _ ih =>
    refine .pair ?_ ih
    rintro rfl
    revert he
    unfold escapes
    simp

/-- **The first pass stops at the closing quote** of what it walks over. -/
theorem scanString_of_scanned {raw : Bytes} {k : ℕ} (h : Scanned raw k)
    (rest : Bytes) (i n : ℕ) :
    scanString (raw ++ quote :: rest) i n = some (i + raw.length, n + k) := by
  induction h generalizing i n with
  | nil => exact scanString_quote rest i n
  | @plain b raw k h₀ hq hb _ ih =>
    rw [List.cons_append, scanString_plain h₀ hq hb, ih, List.length_cons,
      Nat.add_assoc, Nat.add_comm 1, Nat.add_assoc, Nat.add_comm 1]
  | @pair e raw k h₀ _ ih =>
    rw [List.cons_append, List.cons_append, scanString_pair h₀, ih,
      List.length_cons, List.length_cons, Nat.add_assoc, Nat.add_comm 2,
      Nat.add_assoc, Nat.add_comm 1]

/-- **Where it stops, it has walked over something.** -/
theorem scanned_of_scanString {start : Bytes} {i n scan length : ℕ}
    (h : scanString start i n = some (scan, length)) :
    ∃ raw k rest, Scanned raw k ∧ start = raw ++ quote :: rest
      ∧ scan = i + raw.length ∧ length = n + k := by
  fun_induction scanString start i n with
  | case3 =>
    obtain ⟨rfl, rfl⟩ := Prod.mk.inj (Option.some.inj h)
    exact ⟨[], 0, _, .nil, rfl, rfl, rfl⟩
  | case6 i n e rest he _ _ ih =>
    obtain ⟨raw, k, rest, hs, rfl, rfl, rfl⟩ := ih h
    refine ⟨_, _, rest, .pair he hs, rfl, ?_, ?_⟩
    · rw [List.length_cons, List.length_cons]
      omega
    · omega
  | case7 b rest i n h₀ hq hb ih =>
    obtain ⟨raw, k, rest, hs, rfl, rfl, rfl⟩ := ih h
    refine ⟨b :: raw, _, rest, .plain h₀ hq hb hs, rfl, ?_, ?_⟩
    · rw [List.length_cons]
      omega
    · omega
  | _ => cases h

section Decode

variable {n : ℕ} {value value' : Buf n} {w raw rest : Bytes} {i j k : ℕ}

/-- **What the second pass stores** is the string, with its terminator. -/
theorem decodeString_of_body {v : Bytes} (h : StringBody raw v)
    (rest : Bytes) (hw : w.length = j) (hj : j + v.length < n)
    (hb : value.Begins w) :
    ∃ value', decodeString (i + raw.length) (raw ++ rest) i j value
        = some value' ∧ value'.Begins (w ++ v ++ [0]) := by
  induction h generalizing i j w value with
  | nil =>
    refine ⟨_, decodeString_end _ _ _, ?_⟩
    rw [List.append_nil]
    exact hb.write hw (by rw [List.length_singleton]; exact hj)
  | @plain b raw v h₀ hq hne _ ih =>
    rw [List.length_cons] at hj
    obtain ⟨value', he, hb'⟩ := ih (i := i + 1) (w := w ++ [b])
      (j := j + 1)
      (by rw [List.length_append, hw]; rfl) (by omega)
      (hb.write hw (by rw [List.length_singleton]; omega))
    refine ⟨value', ?_, ?_⟩
    · rw [List.cons_append,
        decodeString_plain _ _ _ (by rw [List.length_cons]; omega) hne, ← he,
        List.length_cons, Nat.add_assoc, Nat.add_comm 1]
    · rwa [List.append_assoc w] at hb'
  | @escape e c raw v he _ ih =>
    rw [List.length_cons] at hj
    obtain ⟨value', hd, hb'⟩ := ih (i := i + 2) (w := w ++ [c])
      (j := j + 1)
      (by rw [List.length_append, hw]; rfl) (by omega)
      (hb.write hw (by rw [List.length_singleton]; omega))
    refine ⟨value', ?_, ?_⟩
    · rw [List.cons_append, List.cons_append,
        decodeString_pair _ _ _ (by rw [List.length_cons]; omega),
        escape?_eq_some_iff.mpr he, Option.bind_some, ← hd, List.length_cons,
        List.length_cons, Nat.add_assoc raw.length, Nat.add_assoc,
        Nat.add_comm 2]
    · rwa [List.append_assoc w] at hb'

/-- **Where the second pass stores, it stores a string.** -/
theorem body_of_decodeString (h : Scanned raw k) (hw : w.length = j)
    (hj : j + k < n) (hb : value.Begins w)
    (hd : decodeString (i + raw.length) (raw ++ rest) i j value
      = some value') :
    ∃ v, StringBody raw v ∧ v.length = k := by
  induction h generalizing i j w value with
  | nil => exact ⟨[], .nil, rfl⟩
  | @plain b raw k h₀ hq hne _ ih =>
    rw [List.cons_append,
      decodeString_plain _ _ _ (by rw [List.length_cons]; omega) hne,
      List.length_cons, Nat.add_comm raw.length, ← Nat.add_assoc] at hd
    obtain ⟨v, hv, hl⟩ := ih (w := w ++ [b])
      (by rw [List.length_append, hw]; rfl) (by omega)
      (hb.write hw (by rw [List.length_singleton]; omega)) hd
    exact ⟨b :: v, .plain h₀ hq hne hv, by rw [List.length_cons, hl]⟩
  | @pair e raw k h₀ _ ih =>
    rw [List.cons_append, List.cons_append,
      decodeString_pair _ _ _ (by rw [List.length_cons]; omega)] at hd
    obtain ⟨c, hc, hd⟩ := Option.bind_eq_some_iff.mp hd
    rw [List.length_cons, List.length_cons, Nat.add_assoc raw.length,
      Nat.add_comm raw.length, ← Nat.add_assoc] at hd
    obtain ⟨v, hv, hl⟩ := ih (w := w ++ [c])
      (by rw [List.length_append, hw]; rfl) (by omega)
      (hb.write hw (by rw [List.length_singleton]; omega)) hd
    exact ⟨c :: v, .escape (escape?_eq_some_iff.mp hc) hv,
      by rw [List.length_cons, hl]⟩

end Decode

/-- A string has no terminator in it. -/
theorem StringBody.zero_not_mem {raw v : Bytes} (h : StringBody raw v) :
    (0 : UInt8) ∉ v := by
  induction h with
  | nil => exact List.not_mem_nil
  | plain h₀ _ _ _ ih =>
    exact fun hm => (List.mem_cons.mp hm).elim (fun h => h₀ h.symm) ih
  | @escape e c _ _ he _ ih =>
    refine fun hm => (List.mem_cons.mp hm).elim ?_ ih
    rintro rfl
    revert he
    unfold escapes
    simp

/-- **A string is accepted**, if there is memory. -/
theorem parseString_of_starts {heap : Heap} {p v rest : Bytes}
    (h : lexicon.Starts (.value (.string v)) p rest) (hg : heap.Generous) :
    ∃ heap', parseString heap p = some (v, rest, heap')
      ∧ heap'.Generous := by
  obtain ⟨_, ⟨raw, hv, rfl⟩, hp⟩ := Lexicon.starts_iff.mp h
  obtain ⟨⟨value, hm⟩, hg'⟩ := hg.malloc (v.length + 1)
  obtain ⟨value', hd, hb⟩ := decodeString_of_body (i := 0) (j := 0)
    (w := []) hv (quote :: rest) rfl (by omega) value.begins_nil
  have hbytes : value'.bytes = v ++ [0] := by
    refine hb.bytes_eq ?_
    rw [List.nil_append, List.length_append]
    rfl
  have hscan := scanString_of_scanned hv.scanned rest 0 0
  rw [Nat.zero_add] at hscan hd
  rw [Nat.zero_add] at hscan
  refine ⟨_, ?_, hg'⟩
  unfold parseString skipSpace
  rw [show p.dropWhile isSpace = quote :: (raw ++ quote :: rest) by
    rw [show p.dropWhile isSpace = _ from hp]
    simp]
  dsimp only
  rw [if_neg (not_not.mpr rfl), hscan]
  dsimp only
  split
  next hnone => rw [hnone] at hm; cases hm
  next value₁ heap₁ hsome =>
    rw [hsome] at hm
    obtain rfl : value₁ = value := Option.some.inj hm
    rw [hd]
    dsimp only
    rw [hbytes, cString_append_zero hv.zero_not_mem, hsome]
    congr 3
    rw [List.drop_append, List.drop_eq_nil_of_le (by omega), List.nil_append,
      Nat.add_sub_cancel_left]
    rfl

/-- **Only a string is accepted.** -/
theorem starts_of_parseString {heap heap' : Heap} {p v rest : Bytes}
    (h : parseString heap p = some (v, rest, heap')) :
    lexicon.Starts (.value (.string v)) p rest := by
  unfold parseString at h
  split at h
  · cases h
  next b start hp =>
  split at h
  · cases h
  next hq =>
  obtain rfl := not_not.mp hq
  split at h
  · cases h
  next scan length hscan =>
  obtain ⟨raw, k, rest', hs, rfl, rfl, rfl⟩ := scanned_of_scanString hscan
  split at h
  · cases h
  next value heap₁ _ =>
  split at h
  · cases h
  next value' hd =>
  obtain ⟨u, hu, hk⟩ := body_of_decodeString (w := []) (j := 0) hs rfl
    (by omega) value.begins_nil hd
  obtain ⟨value₂, hd', hb⟩ := decodeString_of_body (i := 0) (j := 0)
    (w := []) hu (quote :: rest') rfl (by omega) value.begins_nil
  obtain rfl : value₂ = value' := Option.some.inj (hd'.symm.trans hd)
  have hbytes : value₂.bytes = u ++ [0] := by
    refine hb.bytes_eq ?_
    rw [List.nil_append, List.length_append, hk]
    exact congrArg (· + 1) (Nat.zero_add k).symm
  rw [hbytes, cString_append_zero hu.zero_not_mem, List.drop_append,
    List.drop_eq_nil_of_le (by omega), List.nil_append] at h
  obtain ⟨rfl, hrest⟩ := Prod.mk.inj (Option.some.inj h)
  obtain ⟨rfl, _⟩ := Prod.mk.inj hrest
  refine Lexicon.starts_iff.mpr ⟨_, ⟨raw, hu, rfl⟩, ?_⟩
  show skipSpace p = _
  rw [hp, show 0 + raw.length + 1 - raw.length = 1 by omega]
  simp

/-! ## Numbers -/

/-- Digits only make a number larger. -/
theorem le_decimalFrom (n : ℕ) (raw : Bytes) : n ≤ decimalFrom n raw := by
  induction raw generalizing n with
  | nil => exact le_rfl
  | cons b raw ih =>
    exact le_trans (by omega) (ih (n * 10 + (b.toNat - 0x30)))

/-- A digit is less than ten. -/
theorem digit_le {b : UInt8} (h : isDigit b = true) : b.toNat - 0x30 ≤ 9 := by
  unfold isDigit at h
  rw [Bool.and_eq_true, decide_eq_true_eq, decide_eq_true_eq,
    UInt8.le_iff_toNat_le, UInt8.le_iff_toNat_le] at h
  have : (0x39 : UInt8).toNat = 57 := rfl
  omega

/-- **The loop takes all the digits**, if the number they are is in range. -/
theorem portLoop_eq {n : ℕ} (hn : n ≤ 65535) (p : Bytes) (haveDigit : Bool) :
    portLoop p n haveDigit
      = if decimalFrom n (p.takeWhile isDigit) ≤ 65535 then
          some (decimalFrom n (p.takeWhile isDigit),
            haveDigit || !(p.takeWhile isDigit).isEmpty, p.dropWhile isDigit)
        else none := by
  induction p generalizing n haveDigit with
  | nil =>
    rw [portLoop, List.takeWhile_nil, List.dropWhile_nil]
    simp [decimalFrom, hn]
  | cons b p ih =>
    rw [portLoop]
    by_cases hb : isDigit b = true
    · have hd := digit_le hb
      rw [if_pos hb, List.takeWhile_cons_of_pos hb, List.dropWhile_cons_of_pos hb]
      dsimp only
      have hnext : decimalFrom n (b :: p.takeWhile isDigit)
          = decimalFrom (n * 10 + (b.toNat - 0x30)) (p.takeWhile isDigit) := rfl
      split
      next hbig =>
        -- a number that is too large stays so
        rw [if_neg]
        have := le_decimalFrom (n * 10 + (b.toNat - 0x30))
          (p.takeWhile isDigit)
        omega
      next hsmall =>
        rw [ih (by omega) true, hnext]
        simp
    · rw [if_neg hb, List.takeWhile_cons_of_neg hb, List.dropWhile_cons_of_neg hb,
        if_pos (by exact hn)]
      simp [decimalFrom]

/-- No digit comes next. -/
def NoDigit (p : Bytes) : Prop := ∀ b, p.head? = some b → isDigit b = false

/-- **A port is accepted exactly where it is in range**, with all of its
digits. -/
theorem parsePort_eq_some_iff {p rest : Bytes} {port : UInt16} :
    parsePort p = some (port, rest)
      ↔ lexicon.Starts (.value (.number port.toNat)) p rest ∧ port ≠ 0
        ∧ NoDigit rest := by
  rw [Lexicon.starts_iff]
  show _ ↔ (∃ raw, Spells (.number port.toNat) raw ∧ skipSpace p = raw ++ rest)
    ∧ _
  unfold parsePort
  rw [portLoop_eq (Nat.zero_le _)]
  generalize skipSpace p = q
  constructor
  · intro h
    split at h
    · cases h
    next value haveDigit rest' hloop =>
    split at hloop
    next hle =>
      obtain ⟨rfl, hdigits⟩ := Prod.mk.inj (Option.some.inj hloop)
      obtain ⟨rfl, rfl⟩ := Prod.mk.inj hdigits
      split at h
      · cases h
      next hok =>
      obtain ⟨rfl, rfl⟩ := Prod.mk.inj (Option.some.inj h)
      rw [not_or, Bool.false_or] at hok
      have hlt : decimalFrom 0 (q.takeWhile isDigit) < 2 ^ 16 := by omega
      refine ⟨⟨q.takeWhile isDigit, ⟨?_, fun b hb => ?_, ?_⟩, ?_⟩, ?_, ?_⟩
      · intro hnil
        rw [hnil] at hok
        exact hok.1 rfl
      · exact List.mem_takeWhile_imp hb
      · rw [UInt16.toNat_ofNat_of_lt' hlt]
        rfl
      · exact List.takeWhile_append_dropWhile.symm
      · intro h0
        have := congrArg UInt16.toNat h0
        rw [UInt16.toNat_ofNat_of_lt' hlt] at this
        exact hok.2 this
      · intro b hb
        have := List.head?_dropWhile_not isDigit q
        rw [hb] at this
        simpa using this
    · cases hloop
  · rintro ⟨⟨raw, ⟨hne, hdigits, hval⟩, rfl⟩, hport, hrest⟩
    have htake : (raw ++ rest).takeWhile isDigit = raw := by
      rw [List.takeWhile_append_of_pos hdigits]
      cases rest with
      | nil => exact List.append_nil _
      | cons b rest =>
        rw [List.takeWhile_cons_of_neg (by rw [hrest b rfl]; exact Bool.noConfusion),
          List.append_nil]
    have hdrop : (raw ++ rest).dropWhile isDigit = rest := by
      rw [List.dropWhile_append_of_pos hdigits]
      cases rest with
      | nil => rfl
      | cons b rest =>
        exact List.dropWhile_cons_of_neg (by rw [hrest b rfl]; exact Bool.noConfusion)
    have hdec : decimalFrom 0 raw = port.toNat := hval
    have hlt := port.toNat_lt
    rw [htake, hdrop, hdec, if_pos (by omega)]
    dsimp only
    rw [if_neg, UInt16.ofNat_toNat]
    rintro (h | h)
    · rw [Bool.false_or, Bool.not_eq_false', List.isEmpty_iff] at h
      exact hne h
    · exact hport (UInt16.toNat_inj.mp h)

/-! ## Members -/

section Members

variable {σ : Type} {V : ValueParser σ}
  {N : Bytes → σ → List (Token UInt8 Value) → σ → Prop} {heap heap' : Heap}
  {s s' : σ} {p p' : Bytes} {ts : List (Token UInt8 Value)}

/-- **A member of an object**, as tokens: `N` says what the value is, given
the key. -/
def Member (N : Bytes → σ → List (Token UInt8 Value) → σ → Prop) (s : σ)
    (ts : List (Token UInt8 Value)) (s' : σ) : Prop :=
  ∃ key us, ts = memberTokens key us ∧ N key s us s'

theorem marks_members : (members V).Marks lexicon :=
  ⟨rfl, (by decide : isSpace comma = false),
    (by decide : isSpace closeBrace = false),
    (by decide : closeBrace ≠ comma)⟩

/-- Only members are accepted. -/
theorem member_of_parse
    (hV : ∀ {heap key s p s' p' heap'},
      V.parse heap key s p = some (s', p', heap') →
      ∃ us, N key s us s' ∧ lexicon.Reads us p p')
    (h : (members V).item.parse heap s p = some (s', p', heap')) :
    ∃ ts, ts ≠ [] ∧ Member N s ts s' ∧ lexicon.Reads ts p p' := by
  replace h : parseMember V.parse heap s p = _ := h
  unfold parseMember at h
  split at h
  · cases h
  next key p₁ heap₁ hkey =>
  split at h
  · cases h
  next p₂ hcolon =>
  obtain ⟨us, hN, hr⟩ := hV h
  exact ⟨memberTokens key us, List.cons_ne_nil _ _, ⟨key, us, rfl, hN⟩, p₁,
    starts_of_parseString hkey, p₂, (expect_eq_some_iff (by decide)).mp hcolon,
    hr⟩

/-- Members are accepted. -/
theorem parse_of_member
    (hV : ∀ {heap key s us s' p p'}, N key s us s' → lexicon.Reads us p p' →
      (members V).Follows p' → heap.Generous →
      ∃ heap', V.parse heap key s p = some (s', p', heap') ∧ heap'.Generous)
    (h : Member N s ts s') (hr : lexicon.Reads ts p p')
    (hf : (members V).Follows p') (hg : heap.Generous) :
    ∃ heap', (members V).item.parse heap s p = some (s', p', heap')
      ∧ heap'.Generous := by
  obtain ⟨key, us, rfl, hN⟩ := h
  obtain ⟨p₁, hkey, p₂, hcolon, hr⟩ := hr
  obtain ⟨heap₁, hkey, hg₁⟩ := parseString_of_starts hkey hg
  obtain ⟨heap₂, hval, hg₂⟩ := hV hN hr hf hg₁
  refine ⟨heap₂, ?_, hg₂⟩
  show parseMember V.parse heap s p = _
  unfold parseMember
  rw [hkey]
  dsimp only
  rw [(expect_eq_some_iff (by decide)).mpr hcolon]
  exact hval

/-- A member begins with its key. -/
theorem first_of_member (h : Member N s ts s') (hr : lexicon.Reads ts p p') :
    ts ≠ [] ∧ (p.dropWhile lexicon.blank).head? ≠ some (members V).close := by
  obtain ⟨key, us, rfl, _⟩ := h
  obtain ⟨p₁, hkey, _⟩ := hr
  obtain ⟨_, ⟨raw, _, rfl⟩, hp⟩ := Lexicon.starts_iff.mp hkey
  refine ⟨List.cons_ne_nil _ _, ?_⟩
  rw [hp]
  exact fun h => absurd (Option.some.inj h) (by decide : quote ≠ closeBrace)

/-- Behind a value there is no digit. -/
theorem noDigit_of_follows (h : (members V).Follows p) : NoDigit p := by
  obtain ⟨b, rest, hb, hp⟩ := h
  intro c hc
  obtain ⟨p, rfl⟩ : ∃ q, p = c :: q := by
    cases p with
    | nil => cases hc
    | cons d q => exact ⟨q, by rw [Option.some.inj hc]⟩
  by_contra hdigit
  have hspace := isSpace_of_isDigit (Bool.eq_true_of_not_eq_false hdigit)
  replace hp : (c :: p).dropWhile isSpace = b :: rest := hp
  rw [List.dropWhile_cons_of_neg (by rw [hspace]; exact Bool.noConfusion)] at hp
  obtain ⟨rfl, _⟩ := List.cons.inj hp
  have hcomma : isDigit comma = false := by decide
  have hclose : isDigit closeBrace = false := by decide
  rcases hb with rfl | rfl
  · exact hdigit hcomma
  · exact hdigit hclose

/-- A member closes the object, with or without a comma. -/
theorem itemTokens_last (last : Bool) (h : Member N s ts s') :
    ItemTokens comma closeBrace true (Member N) s
      (ts ++ (trailing last ++ [.mark closeBrace])) s' := by
  cases last with
  | false => exact .last h
  | true => exact .more h (.stop rfl)

/-- **One member is left**, if it leaves nothing to be found. -/
theorem last_member (Full : σ → Prop)
    (hfull : ∀ {s us s'}, Full s → ¬ Member N s us s')
    (hone : ∀ {us s'}, Member N s us s' → Full s')
    (hs : ¬ Full s) (hs' : Full s')
    (h : ItemTokens comma closeBrace true (Member N) s ts s') :
    ∃ us last, Member N s us s'
      ∧ ts = us ++ (trailing last ++ [.mark closeBrace]) := by
  cases h with
  | stop => exact absurd hs' hs
  | last hm => exact ⟨_, false, hm, rfl⟩
  | more hm hrest =>
    cases hrest with
    | stop => exact ⟨_, true, hm, rfl⟩
    | last hm' => exact absurd hm' (hfull (hone hm))
    | more hm' => exact absurd hm' (hfull (hone hm))

end Members

/-! ## Servers -/

/-- **What is behind the key of a server's member**, and what has been found
then. -/
inductive ServerValue : Bytes → Option Bytes × Option UInt16 →
    List (Token UInt8 Value) → Option Bytes × Option UInt16 → Prop where
  /-- The host. -/
  | host {host : Bytes} {port : Option UInt16} (hne : host ≠ []) :
    ServerValue hostKey (none, port) [.value (.string host)] (some host, port)
  /-- The port. -/
  | port {host : Option Bytes} {port : UInt16} (hne : port ≠ 0) :
    ServerValue portKey (host, none) [.value (.number port.toNat)]
      (host, some port)

section Servers

variable {heap heap' : Heap} {p p' rest : Bytes} {key : Bytes}
  {s s' : Option Bytes × Option UInt16} {ts us : List (Token UInt8 Value)}
  {entry : ChainConfigEntry}

theorem serverValue_of_parse
    (h : serverValue heap key s p = some (s', p', heap')) :
    ∃ us, ServerValue key s us s' ∧ lexicon.Reads us p p' := by
  obtain ⟨host, port⟩ := s
  unfold serverValue at h
  split at h
  next hkey =>
    split at h
    · cases h
    next hnone =>
    split at h
    · cases h
    next value p₁ heap₁ hstring =>
    split at h
    · cases h
    next hne =>
    obtain ⟨rfl, hrest⟩ := Prod.mk.inj (Option.some.inj h)
    obtain ⟨rfl, rfl⟩ := Prod.mk.inj hrest
    obtain rfl : host = none := Option.not_isSome_iff_eq_none.mp hnone
    subst hkey
    exact ⟨_, .host hne, Lexicon.reads_singleton.mpr
      (starts_of_parseString hstring)⟩
  next =>
  split at h
  next hkey =>
    split at h
    · cases h
    next hnone =>
    split at h
    · cases h
    next value p₁ hnumber =>
    obtain ⟨rfl, hrest⟩ := Prod.mk.inj (Option.some.inj h)
    obtain ⟨rfl, rfl⟩ := Prod.mk.inj hrest
    obtain rfl : port = none := Option.not_isSome_iff_eq_none.mp hnone
    subst hkey
    obtain ⟨hs, hne, _⟩ := parsePort_eq_some_iff.mp hnumber
    exact ⟨_, .port hne, Lexicon.reads_singleton.mpr hs⟩
  next => cases h

theorem parse_of_serverValue (h : ServerValue key s us s')
    (hr : lexicon.Reads us p p') (hf : serverMembers.Follows p')
    (hg : heap.Generous) : ∃ heap', serverValue heap key s p
      = some (s', p', heap') ∧ heap'.Generous := by
  cases h with
  | host hne =>
    obtain ⟨heap', hs, hg'⟩ :=
      parseString_of_starts (Lexicon.reads_singleton.mp hr) hg
    refine ⟨heap', ?_, hg'⟩
    unfold serverValue
    rw [if_pos rfl, if_neg Bool.noConfusion, hs]
    exact if_neg hne
  | port hne =>
    have hs := parsePort_eq_some_iff.mpr
      ⟨Lexicon.reads_singleton.mp hr, hne, noDigit_of_follows hf⟩
    refine ⟨heap, ?_, hg⟩
    unfold serverValue
    rw [if_neg (by decide), if_pos rfl, if_neg Bool.noConfusion, hs]

/-- Both members have been found. -/
def Full (s : Option Bytes × Option UInt16) : Prop :=
  s.1.isSome = true ∧ s.2.isSome = true

/-- Then nothing is a member any more. -/
theorem not_member_of_full (hs : Full s) : ¬ Member ServerValue s us s' := by
  rintro ⟨_, _, _, hN⟩
  cases hN with
  | host => exact Bool.noConfusion hs.1
  | port => exact Bool.noConfusion hs.2

/-- **The members of a server are its host and its port**, in either order. -/
theorem serverTokens_iff {host : Bytes} {port : UInt16} :
    ServerTokens ⟨host, port⟩ (.mark openBrace :: ts)
      ↔ ItemTokens comma closeBrace true (Member ServerValue) (none, none) ts
        (some host, some port) := by
  constructor
  · intro h
    cases h with
    | hostFirst hh hp last =>
      exact .more ⟨hostKey, _, rfl, .host hh⟩
        (itemTokens_last last ⟨portKey, _, rfl, .port hp⟩)
    | portFirst hh hp last =>
      exact .more ⟨portKey, _, rfl, .port hp⟩
        (itemTokens_last last ⟨hostKey, _, rfl, .host hh⟩)
  · intro h
    have hfull : Full (some host, some port) := ⟨rfl, rfl⟩
    generalize hs : ((some host, some port) : Option Bytes × Option UInt16)
      = s' at h hfull
    cases h with
    | stop => cases hs
    | last hm =>
      obtain ⟨_, _, _, hN⟩ := hm
      cases hN <;> cases hs
    | more hm hrest =>
      obtain ⟨_, _, rfl, hN⟩ := hm
      cases hN with
      | host hne =>
        obtain ⟨us, last, ⟨_, _, rfl, hN⟩, rfl⟩ := last_member Full
          not_member_of_full
          (fun ⟨_, _, _, hN⟩ => by cases hN; exact ⟨rfl, rfl⟩)
          (fun h => Bool.noConfusion h.2) hfull hrest
        cases hN
        obtain ⟨rfl, rfl⟩ : host = _ ∧ port = _ := by simpa using hs
        exact .hostFirst hne ‹_› last
      | port hne =>
        obtain ⟨us, last, ⟨_, _, rfl, hN⟩, rfl⟩ := last_member Full
          not_member_of_full
          (fun ⟨_, _, _, hN⟩ => by cases hN; exact ⟨rfl, rfl⟩)
          (fun h => Bool.noConfusion h.1) hfull hrest
        cases hN
        obtain ⟨rfl, rfl⟩ : host = _ ∧ port = _ := by simpa using hs
        exact .portFirst ‹_› hne last

/-- Only servers are accepted. -/
theorem serverTokens_of_parse
    (h : parseServer heap p = some (entry, rest, heap')) :
    ∃ ts, ServerTokens entry ts ∧ lexicon.Reads ts p rest := by
  unfold parseServer at h
  split at h
  · cases h
  next p₁ hopen =>
  split at h
  next host port p₂ heap₂ hrun =>
    obtain ⟨rfl, hrest⟩ := Prod.mk.inj (Option.some.inj h)
    obtain ⟨rfl, rfl⟩ := Prod.mk.inj hrest
    obtain ⟨ts, hts, hr⟩ := Items.sound marks_members
      (member_of_parse serverValue_of_parse) hrun
    exact ⟨_, serverTokens_iff.mpr hts, p₁,
      (expect_eq_some_iff (by decide)).mp hopen, hr⟩
  · cases h

/-- A server begins with its brace. -/
theorem ServerTokens.exists_cons (h : ServerTokens entry ts) :
    ∃ us, ts = .mark openBrace :: us := by
  cases h <;> exact ⟨_, rfl⟩

/-- Servers are accepted. -/
theorem parse_of_serverTokens (h : ServerTokens entry ts)
    (hr : lexicon.Reads ts p rest) (hg : heap.Generous) :
    ∃ heap', parseServer heap p = some (entry, rest, heap')
      ∧ heap'.Generous := by
  obtain ⟨us, rfl⟩ := h.exists_cons
  obtain ⟨p₁, hopen, hr⟩ := hr
  obtain ⟨heap', hrun, hg'⟩ := Items.complete (I := serverMembers)
    marks_members (parse_of_member parse_of_serverValue) first_of_member
    (serverTokens_iff.mp h) hr hg
  refine ⟨heap', ?_, hg'⟩
  unfold parseServer
  rw [(expect_eq_some_iff (by decide)).mpr hopen]
  dsimp only
  rw [hrun]

end Servers

/-! ## The list -/

/-- **An entry of the list**, as tokens: a server, if there is room for it. -/
def Appended (config : List ChainConfigEntry) (ts : List (Token UInt8 Value))
    (config' : List ChainConfigEntry) : Prop :=
  config.length ≠ sizeMax / entrySize
    ∧ ∃ entry, ServerTokens entry ts ∧ config' = config ++ [entry]

section Entries

variable {heap heap' : Heap} {config config' servers : List ChainConfigEntry}
  {p p' : Bytes} {ts : List (Token UInt8 Value)}

theorem appendServer_eq {entry : ChainConfigEntry}
    (h : appendServer heap config entry = some (config', heap')) :
    config.length ≠ sizeMax / entrySize ∧ config' = config ++ [entry] := by
  unfold appendServer at h
  split at h
  · cases h
  next hroom =>
  split at h
  · cases h
  · exact ⟨hroom, (Prod.mk.inj (Option.some.inj h)).1.symm⟩

theorem appendServer_of_room (entry : ChainConfigEntry)
    (h : config.length ≠ sizeMax / entrySize) (hg : heap.Generous) :
    ∃ heap', appendServer heap config entry = some (config ++ [entry], heap')
      ∧ heap'.Generous := by
  obtain ⟨⟨block, hm⟩, hg'⟩ := hg.malloc ((config.length + 1) * entrySize)
  refine ⟨_, ?_, hg'⟩
  unfold appendServer
  rw [if_neg h]
  split
  next hnone => rw [hnone] at hm; cases hm
  next hsome => rw [hsome]

theorem marks_entries : entries.Marks lexicon :=
  ⟨rfl, (by decide : isSpace comma = false),
    (by decide : isSpace closeBracket = false),
    (by decide : closeBracket ≠ comma)⟩

/-- Only entries are accepted. -/
theorem appended_of_parse
    (h : entries.item.parse heap config p = some (config', p', heap')) :
    ∃ ts, ts ≠ [] ∧ Appended config ts config' ∧ lexicon.Reads ts p p' := by
  replace h : parseEntry heap config p = _ := h
  unfold parseEntry at h
  split at h
  · cases h
  next entry p₁ heap₁ hserver =>
  split at h
  · cases h
  next config₁ heap₂ happend =>
  obtain ⟨rfl, hrest⟩ := Prod.mk.inj (Option.some.inj h)
  obtain ⟨rfl, rfl⟩ := Prod.mk.inj hrest
  obtain ⟨ts, hts, hr⟩ := serverTokens_of_parse hserver
  obtain ⟨hroom, heq⟩ := appendServer_eq happend
  obtain ⟨us, rfl⟩ := hts.exists_cons
  exact ⟨_, List.cons_ne_nil _ _, ⟨hroom, entry, hts, heq⟩, hr⟩

/-- Entries are accepted. -/
theorem parse_of_appended (h : Appended config ts config')
    (hr : lexicon.Reads ts p p') (hg : heap.Generous) :
    ∃ heap', entries.item.parse heap config p = some (config', p', heap')
      ∧ heap'.Generous := by
  obtain ⟨hroom, entry, hts, rfl⟩ := h
  obtain ⟨heap₁, hserver, hg₁⟩ := parse_of_serverTokens hts hr hg
  obtain ⟨heap₂, happend, hg₂⟩ := appendServer_of_room entry hroom hg₁
  refine ⟨heap₂, ?_, hg₂⟩
  show parseEntry heap config p = _
  unfold parseEntry
  rw [hserver]
  dsimp only
  rw [happend]

/-- An entry begins with its brace. -/
theorem first_of_appended (h : Appended config ts config')
    (hr : lexicon.Reads ts p p') :
    ts ≠ [] ∧ (p.dropWhile lexicon.blank).head? ≠ some entries.close := by
  obtain ⟨_, entry, hts, _⟩ := h
  obtain ⟨us, rfl⟩ := hts.exists_cons
  obtain ⟨p₁, hopen, _⟩ := hr
  refine ⟨List.cons_ne_nil _ _, ?_⟩
  rw [(Lexicon.starts_mark_iff (by decide)).mp hopen]
  exact fun h => absurd (Option.some.inj h)
    (by decide : openBrace ≠ closeBracket)

/-- **The entries are servers**, one behind the other. -/
theorem servers_of_itemTokens
    (h : ItemTokens comma closeBracket false Appended config ts config') :
    ∃ servers us, ServersTokens servers us
      ∧ ts = us ++ [.mark closeBracket] ∧ config' = config ++ servers := by
  induction h with
  | stop h => exact Bool.noConfusion h
  | last hm =>
    obtain ⟨_, entry, hts, rfl⟩ := hm
    exact ⟨[entry], _, .one hts, rfl, rfl⟩
  | more hm _ ih =>
    obtain ⟨_, entry, hts, rfl⟩ := hm
    obtain ⟨servers, us, hus, rfl, rfl⟩ := ih
    exact ⟨entry :: servers, _, .more hts hus,
      by rw [List.append_assoc, List.cons_append], List.append_assoc _ _ _⟩

/-- **Servers are entries**, if there is room for them. -/
theorem itemTokens_of_servers (h : ServersTokens servers ts)
    (hroom : config.length + servers.length ≤ sizeMax / entrySize) :
    ItemTokens comma closeBracket false Appended config
      (ts ++ [.mark closeBracket]) (config ++ servers) := by
  induction h generalizing config with
  | @one entry ts hts =>
    rw [List.length_singleton] at hroom
    exact .last ⟨by omega, entry, hts, rfl⟩
  | @more entry servers ts us hts _ ih =>
    rw [List.length_cons] at hroom
    have hroom' : (config ++ [entry]).length + servers.length
        ≤ sizeMax / entrySize := by
      rw [List.length_append, List.length_singleton]
      omega
    have hus := ih hroom'
    rw [List.append_assoc] at hus
    rw [List.append_assoc]
    exact .more ⟨by omega, entry, hts, rfl⟩ hus

/-- The list as `parse_servers` reads it: its bracket and its entries. -/
theorem itemTokens_of_parse
    (h : parseServers heap config p = some (config', p', heap')) :
    ∃ ts, ItemTokens comma closeBracket false Appended config ts config'
      ∧ lexicon.Reads (.mark openBracket :: ts) p p' := by
  unfold parseServers at h
  split at h
  · cases h
  next p₁ hopen =>
  split at h
  · cases h
  obtain ⟨ts, hts, hr⟩ := Items.sound marks_entries appended_of_parse h
  have hne : ts ≠ [] := by
    obtain ⟨_, us, _, rfl, _⟩ := servers_of_itemTokens hts
    exact List.append_ne_nil_of_right_ne_nil _ (List.cons_ne_nil _ _)
  exact ⟨ts, hts, p₁, (expect_eq_some_iff (by decide)).mp hopen,
    (Lexicon.reads_dropWhile hne).mp hr⟩

/-- It reads every list, if there is memory. -/
theorem parse_of_itemTokens
    (h : ItemTokens comma closeBracket false Appended config ts config')
    (hr : lexicon.Reads (.mark openBracket :: ts) p p') (hg : heap.Generous) :
    ∃ heap', parseServers heap config p = some (config', p', heap')
      ∧ heap'.Generous := by
  obtain ⟨p₁, hopen, hr⟩ := hr
  obtain ⟨hne, hfirst⟩ := Items.not_closed first_of_appended h hr
  unfold parseServers
  rw [(expect_eq_some_iff (by decide)).mpr hopen]
  dsimp only
  rw [if_neg (show (skipSpace p₁).head? ≠ some closeBracket from hfirst)]
  exact Items.complete marks_entries
    (fun hm hr _ hg => parse_of_appended hm hr hg) first_of_appended h
    ((Lexicon.reads_dropWhile hne).mpr hr) hg

/-! ## The configuration -/

/-- **What is behind the key of the configuration's member**, and what has
been found then. -/
inductive ConfigValue : Bytes → Bool × List ChainConfigEntry →
    List (Token UInt8 Value) → Bool × List ChainConfigEntry → Prop where
  /-- The list. -/
  | servers {config config' : List ChainConfigEntry}
    {ts : List (Token UInt8 Value)}
    (h : ItemTokens comma closeBracket false Appended config ts config') :
    ConfigValue chainServersKey (false, config) (.mark openBracket :: ts)
      (true, config')

theorem configValue_of_parse {key : Bytes}
    {s s' : Bool × List ChainConfigEntry}
    (h : configValue heap key s p = some (s', p', heap')) :
    ∃ us, ConfigValue key s us s' ∧ lexicon.Reads us p p' := by
  obtain ⟨have_servers, config⟩ := s
  unfold configValue at h
  split at h
  next hkey =>
    split at h
    · cases h
    next hnone =>
    split at h
    · cases h
    next config₁ p₁ heap₁ hservers =>
    obtain ⟨rfl, hrest⟩ := Prod.mk.inj (Option.some.inj h)
    obtain ⟨rfl, rfl⟩ := Prod.mk.inj hrest
    obtain rfl : have_servers = false := Bool.eq_false_of_not_eq_true hnone
    subst hkey
    obtain ⟨ts, hts, hr⟩ := itemTokens_of_parse hservers
    exact ⟨_, .servers hts, hr⟩
  · cases h

theorem parse_of_configValue {key : Bytes}
    {s s' : Bool × List ChainConfigEntry} (h : ConfigValue key s ts s')
    (hr : lexicon.Reads ts p p') (hg : heap.Generous) :
    ∃ heap', configValue heap key s p = some (s', p', heap')
      ∧ heap'.Generous := by
  cases h with
  | servers hts =>
    obtain ⟨heap', hservers, hg'⟩ := parse_of_itemTokens hts hr hg
    refine ⟨heap', ?_, hg'⟩
    unfold configValue
    rw [if_pos rfl, if_neg Bool.noConfusion, hservers]

/-- **The member of a configuration is the list of its servers.** -/
theorem configTokens_of_itemTokens
    (h : ItemTokens comma closeBrace true (Member ConfigValue) (false, []) ts
      (true, servers)) :
    ∃ us last, ServersTokens servers us
      ∧ .mark openBrace :: ts = configTokens us last := by
  obtain ⟨_, last, ⟨key, _, rfl, hN⟩, rfl⟩ := last_member
    (fun s : Bool × List ChainConfigEntry => s.1 = true)
    (fun hs ⟨_, _, _, hN⟩ => by cases hN; exact Bool.noConfusion hs)
    (fun ⟨_, _, _, hN⟩ => by cases hN; rfl)
    Bool.noConfusion rfl h
  cases hN with
  | servers hts =>
    obtain ⟨servers, us, hus, rfl, rfl⟩ := servers_of_itemTokens hts
    exact ⟨us, last, hus, rfl⟩

theorem itemTokens_of_configTokens (last : Bool)
    (h : ServersTokens servers ts)
    (hroom : servers.length ≤ sizeMax / entrySize) :
    ∃ us, configTokens ts last = .mark openBrace :: us
      ∧ ItemTokens comma closeBrace true (Member ConfigValue) (false, []) us
        (true, servers) :=
  have hts : ItemTokens comma closeBracket false Appended []
      (ts ++ [.mark closeBracket]) servers :=
    itemTokens_of_servers h (by rwa [List.length_nil, Nat.zero_add])
  ⟨_, rfl, itemTokens_last last ⟨chainServersKey, _, rfl, .servers hts⟩⟩

end Entries

/-- How long a token is at least. -/
def tokenSize : Token UInt8 Value → ℕ
  | .mark _ => 1
  | .value (.string v) => v.length + 2
  | .value (.number _) => 1

/-- A string is no longer than its spelling. -/
theorem StringBody.length_le {raw v : Bytes} (h : StringBody raw v) :
    v.length ≤ raw.length := by
  induction h with
  | nil => exact le_rfl
  | plain _ _ _ _ ih => exact Nat.succ_le_succ ih
  | escape _ _ ih => exact Nat.succ_le_succ (Nat.le_succ_of_le ih)

theorem tokenSize_le (t : Token UInt8 Value) (raw : Bytes)
    (h : lexicon.Raw t raw) : tokenSize t ≤ raw.length := by
  cases t with
  | mark b =>
    obtain ⟨rfl, _⟩ := h
    exact le_rfl
  | value v =>
    cases v with
    | string v =>
      obtain ⟨body, hv, rfl⟩ := h
      rw [tokenSize, List.length_cons, List.length_append,
        List.length_singleton]
      exact Nat.succ_le_succ (Nat.succ_le_succ hv.length_le)
    | number n => exact List.length_pos_iff.mpr h.1

/-- **A server is longer than its entry**, -/
theorem ServerTokens.size_le {entry : ChainConfigEntry}
    {ts : List (Token UInt8 Value)} (h : ServerTokens entry ts) :
    entrySize ≤ (ts.map tokenSize).sum := by
  cases h <;>
  · simp only [memberTokens, List.map_cons, List.map_append, List.sum_cons,
      List.sum_append, tokenSize, hostKey, portKey, List.length_cons,
      entrySize]
    omega

/-- and so are many of them. -/
theorem ServersTokens.size_le {servers : List ChainConfigEntry}
    {ts : List (Token UInt8 Value)} (h : ServersTokens servers ts) :
    servers.length * entrySize ≤ (ts.map tokenSize).sum := by
  induction h with
  | one h =>
    rw [List.length_singleton, Nat.one_mul]
    exact h.size_le
  | more h _ ih =>
    have := h.size_le
    rw [List.length_cons, Nat.succ_mul, List.map_append, List.sum_append,
      List.map_cons, List.sum_cons]
    omega

section Config

variable {heap heap' : Heap} {servers : List ChainConfigEntry}
  {text : Bytes}

/-- **There is room for the servers of a text**, since it has a size. -/
theorem Denotes.room (h : Denotes text servers)
    (hfits : text.length < sizeMax) :
    servers.length ≤ sizeMax / entrySize := by
  obtain ⟨ts, last, rest, hts, hr, _⟩ := h
  have hlen := hr.length_le tokenSize_le
  have hsize := hts.size_le
  rw [Nat.le_div_iff_mul_le (by decide)]
  unfold configTokens memberTokens at hlen
  simp only [List.map_cons, List.map_append, List.sum_cons, List.sum_append,
    List.cons_append] at hlen
  omega

/-- Behind the configuration there is the terminator exactly where there are
only blanks. -/
theorem headD_skipSpace {p : Bytes} (hz : (0 : UInt8) ∉ p) :
    (skipSpace p).headD 0 = 0 ↔ ∀ b ∈ p, isSpace b = true := by
  unfold skipSpace
  rw [← List.dropWhile_eq_nil_iff]
  constructor
  · intro h
    cases hp : p.dropWhile isSpace with
    | nil => rfl
    | cons b rest =>
      rw [hp, List.headD_cons] at h
      exact absurd ((List.dropWhile_suffix isSpace).mem
        (hp ▸ h ▸ List.mem_cons_self)) hz
  · intro h
    rw [h, List.headD_nil]

/-- **Only configurations are accepted.** -/
theorem denotes_of_parseConfig (hz : (0 : UInt8) ∉ text)
    (h : parseConfig heap text [] = some (servers, heap')) :
    Denotes text servers := by
  unfold parseConfig at h
  split at h
  · cases h
  next p₁ hopen =>
  split at h
  · cases h
  next have_servers config p₂ heap₂ hrun =>
  split at h
  · cases h
  next hend =>
  obtain ⟨rfl, rfl⟩ := Prod.mk.inj (Option.some.inj h)
  rw [not_or, not_or, not_not] at hend
  obtain rfl : have_servers = true := Bool.eq_true_of_not_eq_false hend.2.1
  obtain ⟨ts, hts, hr⟩ := Items.sound marks_members
    (member_of_parse configValue_of_parse) hrun
  obtain ⟨us, last, hus, he⟩ := configTokens_of_itemTokens hts
  have hreads : lexicon.Reads (configTokens us last) text p₂ :=
    he ▸ ⟨p₁, (expect_eq_some_iff (by decide)).mp hopen, hr⟩
  refine ⟨us, last, p₂, hus, hreads, ?_⟩
  exact (headD_skipSpace fun hm => hz (hreads.suffix.mem hm)).mp hend.1

/-- **Configurations are accepted**, if there is memory. -/
theorem parseConfig_of_denotes (hz : (0 : UInt8) ∉ text)
    (hfits : text.length < sizeMax) (hg : heap.Generous)
    (h : Denotes text servers) :
    ∃ heap', parseConfig heap text [] = some (servers, heap') := by
  have hroom := h.room hfits
  obtain ⟨ts, last, rest, hts, hr, hblank⟩ := h
  have hend := (headD_skipSpace fun hm => hz (hr.suffix.mem hm)).mpr hblank
  obtain ⟨us, he, hus⟩ := itemTokens_of_configTokens last hts hroom
  rw [he] at hr
  obtain ⟨p₁, hopen, hr⟩ := hr
  obtain ⟨heap', hrun, _⟩ := Items.complete (I := configMembers)
    marks_members
    (parse_of_member fun hN hr _ hg => parse_of_configValue hN hr hg)
    first_of_member hus hr hg
  refine ⟨heap', ?_⟩
  unfold parseConfig
  rw [(expect_eq_some_iff (by decide)).mpr hopen]
  dsimp only
  rw [hrun]
  refine if_neg ?_
  rintro (h | h | h)
  · exact h hend
  · exact Bool.noConfusion h
  · cases hts <;> cases h

end Config

/-! ## Texts and files -/

/-- **A text in memory**: what there is in front of a terminator, which has a
size with it. -/
structure Text where
  /-- The text. -/
  bytes : Bytes
  /-- The terminator is behind it. -/
  zero_not_mem : (0 : UInt8) ∉ bytes
  /-- It has a size. -/
  fits : bytes.length < sizeMax

/-- The text of a file. -/
def Text.ofContents (contents : Bytes) (h : contents.length < sizeMax) :
    Text where
  bytes := cString contents
  zero_not_mem hm := absurd (List.mem_takeWhile_imp hm) (by decide)
  fits := (List.takeWhile_prefix _).length_le.trans_lt h

/-- **A text denotes one list** at most. -/
theorem Denotes.unique {text : Text} {servers servers' : List ChainConfigEntry}
    (h : Denotes text.bytes servers) (h' : Denotes text.bytes servers') :
    servers = servers' := by
  have hg : Heap.Generous ⟨[], fun _ => 0⟩ := List.not_mem_nil
  obtain ⟨_, hp⟩ := parseConfig_of_denotes text.zero_not_mem text.fits hg h
  obtain ⟨_, hp'⟩ := parseConfig_of_denotes text.zero_not_mem text.fits hg h'
  exact (Prod.mk.inj (Option.some.inj (hp.symm.trans hp'))).1

section Files

variable {files : Bytes → Option Bytes} {heap heap' : Heap}
  {path contents text : Bytes}

/-- The terminator behind the contents is one of the string. -/
theorem cString_terminated (contents : Bytes) :
    cString (contents ++ [0]) = cString contents := by
  unfold cString
  rw [List.takeWhile_append]
  split
  next h =>
    rw [List.takeWhile_cons_of_neg (by decide), List.append_nil]
    exact ((List.takeWhile_prefix _).eq_of_length h).symm
  · rfl

/-- What is stored for a file. -/
theorem bytes_stored (value : Buf (contents.length + 1)) :
    ((value.write 0 contents).write contents.length [0]).bytes
      = contents ++ [0] := by
  have hb := (value.begins_nil.write (i := 0) (s := contents) rfl (by omega)).write
    (i := contents.length) (s := [0]) rfl (by rw [List.length_singleton])
  exact hb.bytes_eq (by rw [List.length_append]; rfl)

theorem readFile_eq (h : readFile files heap path = (some text, heap')) :
    ∃ contents, files path = some contents ∧ contents.length < sizeMax
      ∧ text = contents ++ [0] := by
  unfold readFile at h
  split at h
  · cases h
  next contents hfile =>
  split at h
  · cases h
  next hsize =>
  split at h
  · cases h
  · rw [bytes_stored] at h
    exact ⟨contents, hfile, not_le.mp hsize,
      (Option.some.inj (Prod.mk.inj h).1).symm⟩

theorem readFile_of_generous (hfile : files path = some contents)
    (hsize : contents.length < sizeMax) (hg : heap.Generous) :
    ∃ heap', readFile files heap path = (some (contents ++ [0]), heap')
      ∧ heap'.Generous := by
  obtain ⟨⟨value, hm⟩, hg'⟩ := hg.malloc (contents.length + 1)
  refine ⟨_, ?_, hg'⟩
  unfold readFile
  rw [hfile]
  dsimp only
  rw [if_neg (not_le.mpr hsize)]
  split
  next hnone => rw [hnone] at hm; cases hm
  next hsome => rw [bytes_stored, hsome]

/-- **What a load comes to**: nothing has changed, or the configuration is
what the file denotes. -/
theorem load_cases (files : Bytes → Option Bytes) (heap : Heap)
    (config : Option (List ChainConfigEntry)) (path : Option Bytes) :
    load files heap config path = (false, config)
    ∨ ∃ p contents servers, path = some p ∧ files p = some contents
      ∧ Denotes (cString contents) servers
      ∧ load files heap config path = (true, some servers) := by
  unfold load
  split
  next old p =>
    split
    · exact .inl rfl
    next text heap₁ hread =>
    split
    · exact .inl rfl
    next servers heap₂ hparse =>
    obtain ⟨contents, hfile, hsize, rfl⟩ := readFile_eq hread
    rw [cString_terminated] at hparse
    exact .inr ⟨p, contents, servers, rfl, hfile, denotes_of_parseConfig
      (Text.ofContents contents hsize).zero_not_mem hparse, rfl⟩
  · exact .inl rfl

/-- **A file that denotes servers is loaded**, if there is memory. -/
theorem load_of_denotes {p : Bytes} {old servers : List ChainConfigEntry}
    (hfile : files p = some contents) (hsize : contents.length < sizeMax)
    (hg : heap.Generous) (h : Denotes (cString contents) servers) :
    load files heap (some old) (some p) = (true, some servers) := by
  obtain ⟨heap₁, hread, hg₁⟩ := readFile_of_generous hfile hsize hg
  obtain ⟨zero_not_mem, fits⟩ : 0 ∉ cString contents
      ∧ (cString contents).length < sizeMax :=
    ⟨(Text.ofContents contents hsize).zero_not_mem,
      (Text.ofContents contents hsize).fits⟩
  obtain ⟨heap₂, hparse⟩ := parseConfig_of_denotes zero_not_mem fits hg₁ h
  unfold load
  dsimp only
  rw [hread]
  dsimp only
  rw [cString_terminated, hparse]

end Files

/-- **The parser accepts exactly its grammar.** What it accepts denotes the
servers it comes back with, in their order; what denotes servers is accepted,
if there is memory; and a text denotes one list at most. A file is loaded only
if its text denotes servers, and they are the configuration then; otherwise
the caller's is as it was. -/
theorem chain_config (text : Text) (files : Bytes → Option Bytes)
    (heap : Heap) (config : Option (List ChainConfigEntry))
    (path : Option Bytes) :
    (∀ servers heap', parseConfig heap text.bytes [] = some (servers, heap') →
        Denotes text.bytes servers)
      ∧ (heap.Generous → ∀ servers, Denotes text.bytes servers →
        ∃ heap', parseConfig heap text.bytes [] = some (servers, heap'))
      ∧ (∀ servers servers', Denotes text.bytes servers →
        Denotes text.bytes servers' → servers = servers')
      ∧ ((load files heap config path).1 = false →
        (load files heap config path).2 = config)
      ∧ ((load files heap config path).1 = true →
        ∃ p contents servers, path = some p ∧ files p = some contents
          ∧ Denotes (cString contents) servers
          ∧ (load files heap config path).2 = some servers)
      ∧ (heap.Generous → ∀ old p contents servers, config = some old →
        path = some p → files p = some contents →
        contents.length < sizeMax → Denotes (cString contents) servers →
        load files heap config path = (true, some servers)) := by
  refine ⟨fun _ _ => denotes_of_parseConfig text.zero_not_mem,
    fun hg _ => parseConfig_of_denotes text.zero_not_mem text.fits hg,
    fun _ _ => Denotes.unique, fun h => ?_, fun h => ?_, ?_⟩
  · rcases load_cases files heap config path with he | ⟨_, _, _, _, _, _, he⟩
    · rw [he]
    · rw [he] at h
      exact Bool.noConfusion h
  · rcases load_cases files heap config path with he | ⟨p, contents, servers, hp, hf, hd, he⟩
    · rw [he] at h
      exact Bool.noConfusion h
    · exact ⟨p, contents, servers, hp, hf, hd, by rw [he]⟩
  · rintro hg old p contents servers rfl rfl hfile hsize hd
    exact load_of_denotes hfile hsize hg hd

/-- A mark is spelled as itself. -/
theorem raw_mark {b : UInt8} (hb : isSpace b = false) :
    lexicon.Raw (.mark b) [b] :=
  ⟨rfl, hb⟩

/-- So is a string, between quotes, if nothing in it has to be escaped. -/
theorem raw_string {v : Bytes}
    (h : v.all (fun b => b != 0 && b != quote && b != backslash) = true) :
    lexicon.Raw (.value (.string v)) (quote :: (v ++ [quote])) := by
  refine ⟨v, ?_, rfl⟩
  induction v with
  | nil => exact .nil
  | cons b v ih =>
    rw [List.all_cons, Bool.and_eq_true, Bool.and_eq_true, Bool.and_eq_true,
      bne_iff_ne, bne_iff_ne, bne_iff_ne] at h
    obtain ⟨⟨⟨h₀, hq⟩, hb⟩, h⟩ := h
    exact .plain h₀ hq hb (ih h)

/-- The spellings of the tokens of a configuration with two servers. There is a
comma behind the port of the first, and the second has its port first. -/
def twoServers : List Bytes :=
  [[openBrace], quote :: (chainServersKey ++ [quote]), [colon], [openBracket],
    [openBrace], quote :: (hostKey ++ [quote]), [colon],
    quote :: ([0x61] ++ [quote]), [comma], quote :: (portKey ++ [quote]),
    [colon], [0x37], [comma], [closeBrace], [comma],
    [openBrace], quote :: (portKey ++ [quote]), [colon],
    [0x34, 0x30, 0x30, 0x30], [comma], quote :: (hostKey ++ [quote]), [colon],
    quote :: ([0x62, 0x2e, 0x63] ++ [quote]), [closeBrace],
    [closeBracket], [closeBrace]]

/-- They are those of `a` and `b.c`, in this order. -/
theorem denotes_twoServers : Denotes (twoServers.flatten ++ [0x0a])
    [⟨[0x61], 7⟩, ⟨[0x62, 0x2e, 0x63], 4000⟩] := by
  have hseven : lexicon.Raw (.value (.number (7 : UInt16).toNat)) [0x37] :=
    ⟨by decide, List.forall_mem_singleton.mpr (by decide), rfl⟩
  have hthousands : lexicon.Raw (.value (.number (4000 : UInt16).toNat))
      [0x34, 0x30, 0x30, 0x30] :=
    ⟨by decide, by decide +kernel, by decide +kernel⟩
  have hfirst : ServerTokens ⟨[0x61], 7⟩ _ :=
    .hostFirst (by decide) (by decide) true
  have hsecond : ServerTokens ⟨[0x62, 0x2e, 0x63], 4000⟩ _ :=
    .portFirst (by decide) (by decide) false
  refine ⟨_, false, [0x0a], .more hfirst (.one hsecond),
    Lexicon.reads_of_raws ?_ _, List.forall_mem_singleton.mpr (by decide)⟩
  exact .cons (raw_mark (by decide)) (.cons (raw_string (by decide))
    (.cons (raw_mark (by decide)) (.cons (raw_mark (by decide))
    -- the first
    (.cons (raw_mark (by decide)) (.cons (raw_string (by decide))
    (.cons (raw_mark (by decide)) (.cons (raw_string (by decide))
    (.cons (raw_mark (by decide)) (.cons (raw_string (by decide))
    (.cons (raw_mark (by decide)) (.cons hseven
    (.cons (raw_mark (by decide)) (.cons (raw_mark (by decide))
    (.cons (raw_mark (by decide))
    -- the second
    (.cons (raw_mark (by decide)) (.cons (raw_string (by decide))
    (.cons (raw_mark (by decide)) (.cons hthousands
    (.cons (raw_mark (by decide)) (.cons (raw_string (by decide))
    (.cons (raw_mark (by decide)) (.cons (raw_string (by decide))
    (.cons (raw_mark (by decide)) (.cons (raw_mark (by decide))
    (.cons (raw_mark (by decide)) .nil)))))))))))))))))))))))))

/-- **They are accepted**, with a line feed behind them, and loaded. -/
theorem chain_config_twoServers :
    (∃ heap', parseConfig ⟨[], fun _ => 0⟩ (twoServers.flatten ++ [0x0a]) []
        = some ([⟨[0x61], 7⟩, ⟨[0x62, 0x2e, 0x63], 4000⟩], heap'))
      ∧ load (fun _ => some (twoServers.flatten ++ [0x0a])) ⟨[], fun _ => 0⟩
          (some [⟨[0x7a], 1⟩]) (some [0x70])
        = (true, some [⟨[0x61], 7⟩, ⟨[0x62, 0x2e, 0x63], 4000⟩]) := by
  have h := chain_config ⟨twoServers.flatten ++ [0x0a], by decide, by decide⟩
    (fun _ => some (twoServers.flatten ++ [0x0a])) ⟨[], fun _ => 0⟩
    (some [⟨[0x7a], 1⟩]) (some [0x70])
  obtain ⟨_, hparse, _, _, _, hload⟩ := h
  refine ⟨hparse List.not_mem_nil _ denotes_twoServers, ?_⟩
  exact hload List.not_mem_nil _ _ _ _ rfl rfl rfl (by decide)
    (show Denotes (cString (twoServers.flatten ++ [0x0a])) _ from
      denotes_twoServers)

end ChainConfig
