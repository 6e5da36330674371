import Mathlib.Algebra.Field.Rat
import Mathlib.Data.Bool.AllAny
import Mathlib.Data.List.Nodup
import StnStratum.Hex
import StnStratum.Scanner

/-!
# JSON

What a text in JSON is, and what it says: the grammar of values over tokens,
and of tokens over bytes. Strings are bytes here, and bytes from `0x80` on are
left alone.

A value that is printed compactly is read as what it is (`members_read`), if
its strings need no escapes. The other way round, a text that begins with an
object is read member by member, and there is one way to do so as long as its
keys need no escapes (`Members.peel`). What is between two quotes may differ
from the string that it stands for; where it begins with this string, and a
quote and a comma, it does not (`StringBody.plain_of_text`).
-/

namespace Json

open Scanner (Token Lexicon)

/-! ## Strings -/

/-- The mark `"`. -/
abbrev quote : UInt8 := 0x22
/-- The mark `\`. -/
abbrev backslash : UInt8 := 0x5c
/-- The mark `,`. -/
abbrev comma : UInt8 := 0x2c
/-- The mark `:`. -/
abbrev colon : UInt8 := 0x3a
/-- The mark that opens an object. -/
abbrev openBrace : UInt8 := 0x7b
/-- The mark that closes an object. -/
abbrev closeBrace : UInt8 := 0x7d
/-- The mark `[`. -/
abbrev openBracket : UInt8 := 0x5b
/-- The mark `]`. -/
abbrev closeBracket : UInt8 := 0x5d

/-- The escapes of one character, and the ones that they stand for. -/
def escapes : List (UInt8 × UInt8) :=
  [(0x22, 0x22), (0x5c, 0x5c), (0x2f, 0x2f), (0x62, 0x08), (0x66, 0x0c),
    (0x6e, 0x0a), (0x72, 0x0d), (0x74, 0x09)]

/-- A character that needs no escape. -/
def Plain (b : UInt8) : Prop := 0x20 ≤ b ∧ b ≠ quote ∧ b ≠ backslash

instance (b : UInt8) : Decidable (Plain b) :=
  inferInstanceAs (Decidable (_ ∧ _ ∧ _))

/-- **A string that needs no escapes.** -/
def PlainText (v : Bytes) : Prop := ∀ b ∈ v, Plain b

instance (v : Bytes) : Decidable (PlainText v) :=
  List.decidableBAll Plain v

/-- The number that four digits are. -/
def hexUnit (h₁ h₂ h₃ h₄ : UInt8) : Option ℕ :=
  match Hex.value? h₁, Hex.value? h₂, Hex.value? h₃, Hex.value? h₄ with
  | some a, some b, some c, some d => some (((a * 16 + b) * 16 + c) * 16 + d)
  | _, _, _, _ => none

/-- **A character of a string**, and the bytes that it stands for. Half a
surrogate pair stands for none. -/
inductive StringUnit : Bytes → Bytes → Prop where
  /-- A character that stands for itself. -/
  | plain {b : UInt8} (h : Plain b) : StringUnit [b] [b]
  /-- An escape of one character. -/
  | escape {e c : UInt8} (h : (e, c) ∈ escapes) :
    StringUnit [backslash, e] [c]
  /-- A code point. -/
  | unicode {h₁ h₂ h₃ h₄ : UInt8} {n : ℕ} (h : hexUnit h₁ h₂ h₃ h₄ = some n)
    (hn : n.isValidChar) : StringUnit [backslash, 0x75, h₁, h₂, h₃, h₄]
      (String.utf8EncodeChar (Char.ofNatAux n hn))
  /-- A code point in two halves. -/
  | pair {h₁ h₂ h₃ h₄ l₁ l₂ l₃ l₄ : UInt8} {high low : ℕ}
    (h : hexUnit h₁ h₂ h₃ h₄ = some (0xd800 + high)) (hhigh : high < 0x400)
    (l : hexUnit l₁ l₂ l₃ l₄ = some (0xdc00 + low)) (hlow : low < 0x400) :
    StringUnit [backslash, 0x75, h₁, h₂, h₃, h₄, backslash, 0x75, l₁, l₂, l₃,
        l₄]
      (String.utf8EncodeChar (Char.ofNat (0x10000 + high * 0x400 + low)))

/-- **The characters between two quotes**, and the string they are. -/
inductive StringBody : Bytes → Bytes → Prop where
  /-- No more characters. -/
  | nil : StringBody [] []
  /-- A character. -/
  | unit {raw v body w : Bytes} (u : StringUnit raw v) (h : StringBody body w) :
    StringBody (raw ++ body) (v ++ w)

/-! ## Values -/

/-- The digits of a number in front of its point. -/
def IntegerPart (raw : Bytes) : Prop :=
  raw = [0x30] ∨ ∃ d ds, raw = d :: ds ∧ 0x31 ≤ d ∧ d ≤ 0x39
    ∧ ∀ b ∈ ds, 0x30 ≤ b ∧ b ≤ 0x39

/-- A point and digits, or nothing, and the number that is added. -/
def FractionPart (raw : Bytes) (q : ℚ) : Prop :=
  raw = [] ∧ q = 0 ∨ ∃ ds, raw = 0x2e :: ds ∧ ds ≠ []
    ∧ (∀ b ∈ ds, 0x30 ≤ b ∧ b ≤ 0x39)
    ∧ q = (Printf.number ds : ℚ) / 10 ^ ds.length

/-- An exponent, or nothing. -/
def ExponentPart (raw : Bytes) (k : ℤ) : Prop :=
  raw = [] ∧ k = 0 ∨ ∃ e sign ds, raw = e :: (sign ++ ds)
    ∧ (e = 0x65 ∨ e = 0x45) ∧ ds ≠ [] ∧ (∀ b ∈ ds, 0x30 ≤ b ∧ b ≤ 0x39)
    ∧ ((sign = [] ∨ sign = [0x2b]) ∧ k = Printf.number ds
      ∨ sign = [0x2d] ∧ k = -(Printf.number ds : ℤ))

/-- **How numbers are spelled.** -/
def Number (raw : Bytes) (q : ℚ) : Prop :=
  ∃ sign int frac exp f k, raw = sign ++ (int ++ (frac ++ exp))
    ∧ IntegerPart int ∧ FractionPart frac f ∧ ExponentPart exp k
    ∧ (sign = [] ∧ q = (Printf.number int + f) * 10 ^ k
      ∨ sign = [0x2d] ∧ q = -((Printf.number int + f) * 10 ^ k))

/-- A value that has no others in it. -/
inductive Scalar where
  /-- `null`. -/
  | null
  /-- `true` or `false`. -/
  | bool (b : Bool)
  /-- A number. -/
  | number (q : ℚ)
  /-- A string. -/
  | string (s : Bytes)
  deriving DecidableEq

/-- **A value.** -/
inductive Value where
  /-- One that has no others in it. -/
  | scalar (s : Scalar)
  /-- An array. -/
  | array (vs : List Value)
  /-- An object. -/
  | object (ms : List (Bytes × Value))

/-- What may stand between tokens. -/
def isBlank (b : UInt8) : Bool := b == 0x20 || b == 0x09 || b == 0x0a || b == 0x0d

/-- **How scalars are spelled.** -/
def Spells : Scalar → Bytes → Prop
  | .null, raw => raw = ascii "null"
  | .bool true, raw => raw = ascii "true"
  | .bool false, raw => raw = ascii "false"
  | .number q, raw => Number raw q
  | .string s, raw => ∃ body, StringBody body s
      ∧ raw = quote :: (body ++ [quote])

theorem Number.head {raw : Bytes} {q : ℚ} (h : Number raw q) :
    ∃ b rest, raw = b :: rest ∧ 0x2d ≤ b ∧ b ≤ 0x39 := by
  obtain ⟨sign, int, frac, exp, f, k, rfl, hint, _, _, hsign⟩ := h
  rcases hsign with ⟨rfl, _⟩ | ⟨rfl, _⟩
  · rcases hint with rfl | ⟨d, ds, rfl, h₁, h₂, _⟩
    · exact ⟨0x30, _, rfl, by decide, by decide⟩
    · exact ⟨d, _, rfl, UInt8.le_trans (by decide) h₁, h₂⟩
  · exact ⟨0x2d, _, rfl, by decide, by decide⟩

/-- What a spelling may begin with. -/
def Leads : Scalar → UInt8 → Prop
  | .null, b => b = 0x6e
  | .bool true, b => b = 0x74
  | .bool false, b => b = 0x66
  | .number _, b => 0x2d ≤ b ∧ b ≤ 0x39
  | .string _, b => b = quote

theorem Spells.leads {s : Scalar} {raw : Bytes} (h : Spells s raw) :
    ∃ b rest, raw = b :: rest ∧ Leads s b := by
  match s, h with
  | .null, h => exact ⟨_, _, h, rfl⟩
  | .bool true, h => exact ⟨_, _, h, rfl⟩
  | .bool false, h => exact ⟨_, _, h, rfl⟩
  | .number q, h => exact Number.head h
  | .string s, ⟨body, _, h⟩ => exact ⟨_, _, h, rfl⟩

theorem Leads.solid {s : Scalar} {b : UInt8} (h : Leads s b) :
    isBlank b = false := by
  match s, h with
  | .null, h => exact h ▸ rfl
  | .bool true, h => exact h ▸ rfl
  | .bool false, h => exact h ▸ rfl
  | .string _, h => exact h ▸ rfl
  | .number _, h =>
    have hle := UInt8.le_iff_toNat_le.mp h.1
    unfold isBlank
    simp only [Bool.or_eq_false_iff, beq_eq_false_iff_ne, ne_eq,
      ← UInt8.toNat_inj]
    have h₁ : (0x2d : UInt8).toNat = 45 := rfl
    have h₂ : (0x20 : UInt8).toNat = 32 := rfl
    have h₃ : (0x09 : UInt8).toNat = 9 := rfl
    have h₄ : (0x0a : UInt8).toNat = 10 := rfl
    have h₅ : (0x0d : UInt8).toNat = 13 := rfl
    omega

theorem Leads.string {s : Scalar} (h : Leads s quote) : ∃ v, s = .string v := by
  match s, h with
  | .null, h => exact absurd h (show quote ≠ 0x6e by decide)
  | .bool true, h => exact absurd h (show quote ≠ 0x74 by decide)
  | .bool false, h => exact absurd h (show quote ≠ 0x66 by decide)
  | .number _, h => exact absurd h.1 (by decide)
  | .string v, _ => exact ⟨v, rfl⟩

theorem Leads.bool {s : Scalar} {c : Bool}
    (h : Leads s (if c = true then 0x74 else 0x66)) : s = .bool c := by
  cases c with
  | true =>
    match s, h with
    | .null, h => exact absurd h (show (0x74 : UInt8) ≠ 0x6e by decide)
    | .bool true, _ => rfl
    | .bool false, h => exact absurd h (show (0x74 : UInt8) ≠ 0x66 by decide)
    | .number _, h => exact absurd h.2 (by decide)
    | .string _, h => exact absurd h (show (0x74 : UInt8) ≠ quote by decide)
  | false =>
    match s, h with
    | .null, h => exact absurd h (show (0x66 : UInt8) ≠ 0x6e by decide)
    | .bool true, h => exact absurd h (show (0x66 : UInt8) ≠ 0x74 by decide)
    | .bool false, _ => rfl
    | .number _, h => exact absurd h.2 (by decide)
    | .string _, h => exact absurd h (show (0x66 : UInt8) ≠ quote by decide)

/-- **How tokens are spelled.** -/
def lexicon : Lexicon UInt8 Scalar where
  blank := isBlank
  Spells := Spells
  solid := by
    intro s raw h
    obtain ⟨b, rest, rfl, hb⟩ := h.leads
    exact ⟨b, rest, rfl, hb.solid⟩

mutual

/-- **The tokens of a value.** -/
inductive Derives : Value → List (Token UInt8 Scalar) → Prop where
  /-- A scalar. -/
  | scalar (s : Scalar) : Derives (.scalar s) [.value s]
  /-- An array with nothing in it. -/
  | emptyArray : Derives (.array []) [.mark openBracket, .mark closeBracket]
  /-- An array. -/
  | array {vs : List Value} {ts : List (Token UInt8 Scalar)}
    (h : Elements vs ts) : Derives (.array vs) (.mark openBracket :: ts)
  /-- An object with nothing in it. -/
  | emptyObject : Derives (.object []) [.mark openBrace, .mark closeBrace]
  /-- An object. -/
  | object {ms : List (Bytes × Value)} {ts : List (Token UInt8 Scalar)}
    (h : Members ms ts) : Derives (.object ms) (.mark openBrace :: ts)

/-- **The elements of an array**, with the mark behind them. -/
inductive Elements : List Value → List (Token UInt8 Scalar) → Prop where
  /-- The last one. -/
  | last {v : Value} {ts : List (Token UInt8 Scalar)} (h : Derives v ts) :
    Elements [v] (ts ++ [.mark closeBracket])
  /-- One and others. -/
  | more {v : Value} {vs : List Value} {ts us : List (Token UInt8 Scalar)}
    (h : Derives v ts) (h' : Elements vs us) :
    Elements (v :: vs) (ts ++ .mark comma :: us)

/-- **The members of an object**, with the mark behind them. -/
inductive Members : List (Bytes × Value) → List (Token UInt8 Scalar) →
    Prop where
  /-- The last one. -/
  | last {key : Bytes} {v : Value} {ts : List (Token UInt8 Scalar)}
    (h : Derives v ts) : Members [(key, v)]
      (.value (.string key) :: .mark colon :: (ts ++ [.mark closeBrace]))
  /-- One and others. -/
  | more {key : Bytes} {v : Value} {ms : List (Bytes × Value)}
    {ts us : List (Token UInt8 Scalar)} (h : Derives v ts)
    (h' : Members ms us) : Members ((key, v) :: ms)
      (.value (.string key) :: .mark colon :: (ts ++ .mark comma :: us))

end

/-- **A text that says a value**, with nothing but blanks behind it. -/
def Text (text : Bytes) (v : Value) : Prop :=
  ∃ ts rest, Derives v ts ∧ lexicon.Reads ts text rest
    ∧ ∀ b ∈ rest, isBlank b = true

/-! ## What is between two quotes -/

theorem isSome_of_hexUnit {h₁ h₂ h₃ h₄ : UInt8} {n : ℕ}
    (h : hexUnit h₁ h₂ h₃ h₄ = some n) :
    ∀ b ∈ [h₁, h₂, h₃, h₄], (Hex.value? b).isSome = true := by
  unfold hexUnit at h
  split at h
  next a b c d e₁ e₂ e₃ e₄ =>
    intro b hb
    simp only [List.mem_cons, List.not_mem_nil, or_false] at hb
    rcases hb with rfl | rfl | rfl | rfl
    · rw [e₁]; rfl
    · rw [e₂]; rfl
    · rw [e₃]; rfl
    · rw [e₄]; rfl
  · cases h

section Units

variable {raw v : Bytes}

/-- **A character stands for itself**, or it begins with a backslash and is
longer than what it stands for. -/
theorem StringUnit.cases_plain (u : StringUnit raw v) :
    (∃ b, Plain b ∧ raw = [b] ∧ v = [b])
      ∨ (∃ rest, raw = backslash :: rest) ∧ v.length < raw.length := by
  cases u with
  | plain h => exact .inl ⟨_, h, rfl, rfl⟩
  | escape h => exact .inr ⟨⟨_, rfl⟩, show 1 < 2 by decide⟩
  | unicode h hn =>
    refine .inr ⟨⟨_, rfl⟩, ?_⟩
    rw [String.length_utf8EncodeChar]
    exact (Char.utf8Size_le_four _).trans_lt (show 4 < 6 by decide)
  | pair h _ l _ =>
    refine .inr ⟨⟨_, rfl⟩, ?_⟩
    rw [String.length_utf8EncodeChar]
    exact (Char.utf8Size_le_four _).trans_lt (show 4 < 12 by decide)

/-- A mark that is no digit is not inside a code point. -/
theorem not_mem_unicode {b h₁ h₂ h₃ h₄ : UInt8} {n : ℕ}
    (h : hexUnit h₁ h₂ h₃ h₄ = some n) (hb : Hex.value? b = none)
    (h₅ : b ≠ backslash) (h₆ : b ≠ 0x75) :
    b ∉ [backslash, 0x75, h₁, h₂, h₃, h₄] := by
  intro hm
  rcases List.mem_cons.mp hm with rfl | hm
  · exact h₅ rfl
  rcases List.mem_cons.mp hm with rfl | hm
  · exact h₆ rfl
  have := isSome_of_hexUnit h b hm
  rw [hb] at this
  cases this

/-- **A quote is behind a backslash.** -/
theorem StringUnit.of_quote_mem (u : StringUnit raw v) (h : quote ∈ raw) :
    raw = [backslash, quote] := by
  cases u with
  | @plain b hp => exact absurd (List.mem_singleton.mp h).symm hp.2.1
  | @escape e c he =>
    rcases List.mem_cons.mp h with h | h
    · exact absurd h (by decide)
    · rw [List.mem_singleton.mp h]
  | unicode hx _ =>
    exact absurd h (not_mem_unicode hx (by decide) (by decide) (by decide))
  | pair hx _ hy _ =>
    rcases List.mem_append.mp (show quote ∈ [_, _, _, _, _, _] ++ _ from h)
      with h | h
    · exact absurd h (not_mem_unicode hx (by decide) (by decide) (by decide))
    · exact absurd h (not_mem_unicode hy (by decide) (by decide) (by decide))

/-- **A comma stands for itself.** -/
theorem StringUnit.of_comma_mem (u : StringUnit raw v) (h : comma ∈ raw) :
    raw = [comma] ∧ v = [comma] := by
  cases u with
  | @plain b hp =>
    rw [← List.mem_singleton.mp h]
    exact ⟨rfl, rfl⟩
  | @escape e c he =>
    rcases List.mem_cons.mp h with h | h
    · exact absurd h (by decide)
    · have hnot : ∀ p ∈ escapes, p.1 ≠ comma :=
        List.all_iff_forall_prop.mp (by decide)
      exact absurd (List.mem_singleton.mp h).symm (hnot _ he)
  | unicode hx _ =>
    exact absurd h (not_mem_unicode hx (by decide) (by decide) (by decide))
  | pair hx _ hy _ =>
    rcases List.mem_append.mp (show comma ∈ [_, _, _, _, _, _] ++ _ from h)
      with h | h
    · exact absurd h (not_mem_unicode hx (by decide) (by decide) (by decide))
    · exact absurd h (not_mem_unicode hy (by decide) (by decide) (by decide))

end Units

section Bodies

variable {body v x y r r' : Bytes}

/-- What needs no escapes stands for itself. -/
theorem body_of_plain (h : PlainText v) : StringBody v v := by
  induction v with
  | nil => exact .nil
  | cons b v ih =>
    exact .unit (.plain (h b List.mem_cons_self))
      (ih fun a ha => h a (List.mem_cons_of_mem _ ha))

/-- **Characters are no shorter than the string they are**, and as long only if
they are the string. -/
theorem StringBody.length_cases (h : StringBody body v) :
    v.length < body.length ∨ body = v ∧ PlainText v := by
  induction h with
  | nil => exact .inr ⟨rfl, nofun⟩
  | @unit raw v body w u _ ih =>
    rw [List.length_append, List.length_append]
    rcases u.cases_plain with ⟨b, hb, rfl, rfl⟩ | ⟨_, hlt⟩
    · rcases ih with hlt | ⟨rfl, hw⟩
      · exact .inl (Nat.add_lt_add_left hlt 1)
      · exact .inr ⟨rfl, List.forall_mem_cons.mpr ⟨hb, hw⟩⟩
    · rcases ih with hlt' | ⟨rfl, _⟩
      · exact .inl (Nat.add_lt_add hlt hlt')
      · exact .inl (Nat.add_lt_add_right hlt _)

theorem StringBody.plain_of_length (h : StringBody body v)
    (hl : body.length ≤ v.length) : PlainText v :=
  h.length_cases.elim (fun hlt => absurd hl (Nat.not_le_of_lt hlt)) (·.2)

/-- **A quote between two quotes is behind a backslash.** -/
theorem StringBody.of_quote (h : StringBody body v)
    (he : body = x ++ quote :: y) : ∃ front, x = front ++ [backslash] := by
  induction h generalizing x with
  | nil => exact absurd he.symm (by simp)
  | @unit raw v body w u _ ih =>
    rcases List.append_eq_append_iff.mp he with ⟨mid, rfl, hm⟩ | ⟨mid, rfl, hm⟩
    · obtain ⟨front, rfl⟩ := ih hm
      exact ⟨raw ++ front, (List.append_assoc _ _ _).symm⟩
    · match mid, hm with
      | [], hm =>
        obtain ⟨front, hf⟩ := ih (x := []) hm.symm
        exact absurd hf.symm (by simp)
      | b :: mid, hm =>
        obtain rfl := (List.cons.inj hm).1
        have hraw := u.of_quote_mem
          (List.mem_append_right x List.mem_cons_self)
        match x, hraw with
        | [], hraw => exact absurd (List.cons.inj hraw).1 (by decide)
        | [_], hraw => exact ⟨[], by rw [(List.cons.inj hraw).1]; rfl⟩
        | _ :: _ :: _, hraw =>
          exact absurd (List.cons.inj (List.cons.inj hraw).2).2 (by simp)

/-- A comma at the end is one of the string. -/
theorem StringBody.of_comma (h : StringBody body v) (he : body = x ++ [comma]) :
    ∃ front, v = front ++ [comma] := by
  induction h generalizing x with
  | nil => exact absurd he.symm (by simp)
  | @unit raw v body w u hb ih =>
    rcases List.append_eq_append_iff.mp he with ⟨mid, rfl, hm⟩ | ⟨mid, rfl, hm⟩
    · obtain ⟨front, rfl⟩ := ih hm
      exact ⟨v ++ front, (List.append_assoc _ _ _).symm⟩
    · match mid, hm with
      | [], hm =>
        obtain ⟨front, rfl⟩ := ih (x := []) hm.symm
        exact ⟨v ++ front, (List.append_assoc _ _ _).symm⟩
      | b :: mid, hm =>
        obtain ⟨rfl, hnil⟩ := List.cons.inj hm
        obtain ⟨rfl, rfl⟩ := List.append_eq_nil_iff.mp hnil.symm
        have hw : w = [] := hb.length_cases.elim
          (fun hlt => absurd hlt (Nat.not_lt_zero _)) fun h => h.1.symm
        rw [(u.of_comma_mem (List.mem_append_right x List.mem_cons_self)).2, hw]
        exact ⟨[], rfl⟩

/-- **A string that needs no escapes is what is between the quotes.** -/
theorem StringBody.eq_of_plain (h : StringBody body v) (hx : PlainText x)
    (he : body ++ quote :: r = x ++ quote :: r') :
    body = x ∧ v = x ∧ r = r' := by
  induction h generalizing x with
  | nil =>
    match x, he with
    | [], he => exact ⟨rfl, rfl, (List.cons.inj he).2⟩
    | b :: x, he =>
      exact absurd (List.cons.inj he).1.symm (hx b List.mem_cons_self).2.1
  | @unit raw v body w u _ ih =>
    rcases u.cases_plain with ⟨b, hb, rfl, rfl⟩ | ⟨⟨rest, rfl⟩, _⟩
    · match x, he with
      | [], he => exact absurd (List.cons.inj he).1 hb.2.1
      | c :: x, he =>
        obtain ⟨rfl, he'⟩ := List.cons.inj he
        obtain ⟨rfl, rfl, hr⟩ := ih
          (fun a ha => hx a (List.mem_cons_of_mem _ ha)) he'
        exact ⟨rfl, rfl, hr⟩
    · match x, he with
      | [], he => exact absurd (List.cons.inj he).1 (by decide)
      | c :: x, he =>
        exact absurd (List.cons.inj he).1.symm (hx c List.mem_cons_self).2.2

/-- **Where the text goes on with the string itself**, and a quote, a comma and
a quote behind it, the string needs no escapes. -/
theorem StringBody.plain_of_text (h : StringBody body v)
    (he : body ++ quote :: r = v ++ quote :: comma :: quote :: r') :
    PlainText v := by
  rcases List.append_eq_append_iff.mp he with ⟨mid, hv, _⟩ | ⟨mid, hb, hm⟩
  · exact h.plain_of_length (by
      rw [hv, List.length_append]
      exact Nat.le_add_right _ _)
  match mid, hb, hm with
  | [], hb, _ =>
    rw [List.append_nil] at hb
    exact h.plain_of_length (le_of_eq (congrArg List.length hb))
  | [a], _, hm => exact absurd (List.cons.inj (List.cons.inj hm).2).1 (by decide)
  | [a, b], hb, hm =>
    -- the string ends with a backslash, and what it is spelled as does not
    obtain ⟨rfl, h₁⟩ := List.cons.inj hm
    obtain ⟨rfl, _⟩ := List.cons.inj h₁
    obtain ⟨front, hf⟩ := h.of_quote hb
    obtain ⟨front', hf'⟩ := h.of_comma (x := v ++ [quote])
      (hb.trans (List.append_assoc v [quote] [comma]).symm)
    exact absurd (List.append_inj' (hf.symm.trans hf') rfl).2 (by decide)
  | a :: b :: c :: mid, hb, hm =>
    obtain ⟨rfl, h₁⟩ := List.cons.inj hm
    obtain ⟨rfl, h₂⟩ := List.cons.inj h₁
    obtain ⟨rfl, _⟩ := List.cons.inj h₂
    obtain ⟨front, hf⟩ := h.of_quote (x := v ++ [quote, comma])
      (hb.trans (List.append_assoc v [quote, comma] _).symm)
    have hf' : (v ++ [quote]) ++ [comma] = front ++ [backslash] :=
      (List.append_assoc v [quote] [comma]).trans hf
    exact absurd (List.append_inj' hf' rfl).2 (by decide)

end Bodies

/-! ## Reading what there is -/

section Peel

variable {t : Token UInt8 Scalar} {ts us : List (Token UInt8 Scalar)}
  {text mid rest key s tail : Bytes} {b : UInt8} {v : Value}
  {ms : List (Bytes × Value)}

/-- A text that does not begin with a blank begins with its token. -/
theorem starts_solid (hb : isBlank b = false)
    (h : lexicon.Starts t (b :: tail) rest) :
    ∃ raw, lexicon.Raw t raw ∧ b :: tail = raw ++ rest := by
  obtain ⟨raw, hraw, he⟩ := Lexicon.starts_iff.mp h
  rw [List.dropWhile_cons_of_neg (by
    show ¬ isBlank b = true
    rw [hb]
    exact Bool.false_ne_true)] at he
  exact ⟨raw, hraw, he⟩

/-- A mark is the mark there is. -/
theorem starts_mark {a : UInt8} (hb : isBlank b = false)
    (h : lexicon.Starts (.mark a) (b :: tail) rest) : a = b ∧ rest = tail := by
  obtain ⟨raw, ⟨rfl, _⟩, he⟩ := starts_solid hb h
  exact ⟨(List.cons.inj he).1.symm, (List.cons.inj he).2.symm⟩

/-- A string is the string there is, if it needs no escapes. -/
theorem starts_string (hs : PlainText s)
    (h : lexicon.Starts (.value (.string key))
      (quote :: (s ++ quote :: tail)) rest) : key = s ∧ rest = tail := by
  obtain ⟨raw, ⟨body, hbody, rfl⟩, he⟩ := starts_solid (by decide) h
  have he' : s ++ quote :: tail = body ++ ([quote] ++ rest) :=
    (List.cons.inj he).2.trans (List.append_assoc _ _ _)
  obtain ⟨_, hv, hr⟩ := hbody.eq_of_plain hs he'.symm
  exact ⟨hv, hr⟩

/-- **A value that begins with neither bracket is a scalar.** -/
theorem Derives.scalar_of_head (h : Derives v ts)
    (hr : lexicon.Reads ts (b :: tail) rest) (hb : isBlank b = false)
    (h₁ : b ≠ openBracket) (h₂ : b ≠ openBrace) :
    ∃ s raw, v = .scalar s ∧ Spells s raw ∧ Leads s b
      ∧ b :: tail = raw ++ rest := by
  cases h with
  | scalar s =>
    obtain ⟨raw, hraw, he⟩ := starts_solid hb (Lexicon.reads_singleton.mp hr)
    obtain ⟨c, raw', rfl, hc⟩ := Spells.leads hraw
    exact ⟨s, _, rfl, hraw, (List.cons.inj he).1 ▸ hc, he⟩
  | emptyArray | array _ =>
    obtain ⟨mid, hm, _⟩ := hr
    exact absurd (starts_mark hb hm).1.symm h₁
  | emptyObject | object _ =>
    obtain ⟨mid, hm, _⟩ := hr
    exact absurd (starts_mark hb hm).1.symm h₂

/-- **A value that begins with a quote is a string.** -/
theorem Derives.string_of_quote (h : Derives v ts)
    (hr : lexicon.Reads ts (quote :: tail) rest) :
    ∃ body s, v = .scalar (.string s) ∧ StringBody body s
      ∧ tail = body ++ quote :: rest := by
  obtain ⟨s, raw, hv, hraw, hl, he⟩ := h.scalar_of_head hr (by decide)
    (by decide) (by decide)
  obtain ⟨w, rfl⟩ := hl.string
  obtain ⟨body, hbody, rfl⟩ := hraw
  exact ⟨body, w, hv, hbody,
    (List.cons.inj he).2.trans (List.append_assoc body [quote] rest)⟩

/-- It is the string there is, if this needs no escapes. -/
theorem Derives.plain_string (h : Derives v ts) (hs : PlainText s)
    (hr : lexicon.Reads ts (quote :: (s ++ quote :: tail)) rest) :
    v = .scalar (.string s) ∧ rest = tail := by
  obtain ⟨body, w, hv, hbody, he⟩ := h.string_of_quote hr
  obtain ⟨_, rfl, hrest⟩ := hbody.eq_of_plain hs he.symm
  exact ⟨hv, hrest⟩

/-- One that says `true` or `false` is that. -/
theorem Derives.bool_of_text (h : Derives v ts) (c : Bool)
    (hr : lexicon.Reads ts
      ((if c = true then ascii "true" else ascii "false") ++ tail) rest) :
    v = .scalar (.bool c) ∧ rest = tail := by
  cases c with
  | true =>
    obtain ⟨s, raw, hv, hraw, hl, he⟩ := h.scalar_of_head
      (show lexicon.Reads ts (0x74 :: (ascii "rue" ++ tail)) rest from hr)
      (by decide) (by decide) (by decide)
    obtain rfl := Leads.bool (c := true) hl
    obtain rfl : raw = ascii "true" := hraw
    have he' : ascii "true" ++ tail = ascii "true" ++ rest := he
    exact ⟨hv, (List.append_cancel_left he').symm⟩
  | false =>
    obtain ⟨s, raw, hv, hraw, hl, he⟩ := h.scalar_of_head
      (show lexicon.Reads ts (0x66 :: (ascii "alse" ++ tail)) rest from hr)
      (by decide) (by decide) (by decide)
    obtain rfl := Leads.bool (c := false) hl
    obtain rfl : raw = ascii "false" := hraw
    have he' : ascii "false" ++ tail = ascii "false" ++ rest := he
    exact ⟨hv, (List.append_cancel_left he').symm⟩

/-- The member of an object, in front of what comes behind it. -/
def memberText (key raw : Bytes) : Bytes := quote :: (key ++ quote :: colon :: raw)

/-- **The first member has the key there is**, and its value is next. -/
theorem Members.first (h : Members ms ts) (hk : PlainText key)
    (hr : lexicon.Reads ts (memberText key text) rest) :
    ∃ v us mid, Derives v us ∧ lexicon.Reads us text mid
      ∧ (ms = [(key, v)] ∧ lexicon.Starts (.mark closeBrace) mid rest
        ∨ ∃ ms' ts' mid', ms = (key, v) :: ms' ∧ Members ms' ts'
          ∧ lexicon.Starts (.mark comma) mid mid'
          ∧ lexicon.Reads ts' mid' rest) := by
  cases h with
  | last hv =>
    obtain ⟨m₁, h₁, m₂, h₂, h₃⟩ := hr
    obtain ⟨rfl, rfl⟩ := starts_string hk h₁
    obtain ⟨_, rfl⟩ := starts_mark (by decide) h₂
    obtain ⟨mid, h₄, h₅⟩ := Lexicon.reads_append.mp h₃
    exact ⟨_, _, mid, hv, h₄, .inl ⟨rfl, Lexicon.reads_singleton.mp h₅⟩⟩
  | more hv hms =>
    obtain ⟨m₁, h₁, m₂, h₂, h₃⟩ := hr
    obtain ⟨rfl, rfl⟩ := starts_string hk h₁
    obtain ⟨_, rfl⟩ := starts_mark (by decide) h₂
    obtain ⟨mid, h₄, mid', h₅, h₆⟩ := Lexicon.reads_append.mp h₃
    exact ⟨_, _, mid, hv, h₄, .inr ⟨_, _, mid', rfl, hms, h₅, h₆⟩⟩

/-- **A member with others behind it**: if the text has one value there, the
object has that member, and others. -/
theorem Members.peel {v₀ : Value} (h : Members ms ts)
    (hk : PlainText key) (hr : lexicon.Reads ts (memberText key text) rest)
    (hv : ∀ v us mid, Derives v us → lexicon.Reads us text mid →
      v = v₀ ∧ mid = comma :: tail) :
    ∃ ms' ts', ms = (key, v₀) :: ms' ∧ Members ms' ts'
      ∧ lexicon.Reads ts' tail rest := by
  obtain ⟨v, us, mid, hd, hu, hcases⟩ := h.first hk hr
  obtain ⟨rfl, rfl⟩ := hv v us mid hd hu
  rcases hcases with ⟨_, hc⟩ | ⟨ms', ts', mid', rfl, hms, hc, hrest⟩
  · exact absurd (starts_mark (by decide) hc).1 (by decide)
  · obtain ⟨_, rfl⟩ := starts_mark (by decide) hc
    exact ⟨ms', ts', rfl, hms, hrest⟩

/-- A text that says an object has its members behind the mark. -/
theorem Text.members (h : Text (openBrace :: quote :: tail) (.object ms)) :
    ∃ ts rest, Members ms ts ∧ lexicon.Reads ts (quote :: tail) rest := by
  obtain ⟨ts, rest, hd, hr, _⟩ := h
  cases hd with
  | emptyObject =>
    obtain ⟨mid, h₁, hr⟩ := hr
    obtain ⟨_, rfl⟩ := starts_mark (by decide) h₁
    have h₂ := Lexicon.reads_singleton.mp hr
    exact absurd (starts_mark (by decide) h₂).1 (by decide)
  | object hm =>
    obtain ⟨mid, h₁, hr⟩ := hr
    obtain ⟨_, rfl⟩ := starts_mark (by decide) h₁
    exact ⟨_, rest, hm, hr⟩

end Peel

/-! ## Printing -/

/-- **A member to print**: its key, its value, and how that is spelled. -/
structure Field where
  /-- The key. -/
  key : Bytes
  /-- The value. -/
  value : Scalar
  /-- How it is spelled. -/
  raw : Bytes

/-- It says what it is, and its key needs no escapes. -/
structure Field.Ok (f : Field) : Prop where
  /-- The key needs no escapes. -/
  key : PlainText f.key
  /-- The value is spelled so. -/
  raw : Spells f.value f.raw

/-- **The members of an object**, printed compactly, with the mark behind
them. -/
def membersText : List Field → Bytes
  | [] => [closeBrace]
  | [f] => memberText f.key f.raw ++ [closeBrace]
  | f :: g :: fs => memberText f.key f.raw ++ comma :: membersText (g :: fs)

/-- The members themselves. -/
def fieldMembers (fs : List Field) : List (Bytes × Value) :=
  fs.map fun f => (f.key, .scalar f.value)

/-- What is printed of a member is read as that member. -/
theorem Field.Ok.reads {f : Field} (h : f.Ok) {ts : List (Token UInt8 Scalar)}
    {b : UInt8} (hb : isBlank b = false) {text rest : Bytes}
    (hr : lexicon.Reads ts text rest) :
    lexicon.Reads (.value (.string f.key) :: .mark colon
        :: ([.value f.value] ++ .mark b :: ts))
      (memberText f.key f.raw ++ b :: text) rest := by
  refine ⟨colon :: (f.raw ++ b :: text), ⟨[], quote :: (f.key ++ [quote]),
    nofun, ⟨f.key, body_of_plain h.key, rfl⟩, ?_⟩, f.raw ++ b :: text,
    ⟨[], [colon], nofun, ⟨rfl, by decide⟩, rfl⟩, b :: text,
    ⟨[], f.raw, nofun, h.raw, rfl⟩, text, ⟨[], [b], nofun, ⟨rfl, hb⟩, rfl⟩, hr⟩
  simp [memberText]

/-- **What is printed is read** as the members. -/
theorem members_read {fs : List Field} (hne : fs ≠ []) (h : ∀ f ∈ fs, f.Ok)
    (rest : Bytes) :
    ∃ ts, Members (fieldMembers fs) ts
      ∧ lexicon.Reads ts (membersText fs ++ rest) rest := by
  induction fs with
  | nil => exact absurd rfl hne
  | cons f fs ih =>
    have hf := h f List.mem_cons_self
    cases fs with
    | nil =>
      refine ⟨_, .last (.scalar f.value), ?_⟩
      have := hf.reads (b := closeBrace) (by decide)
        (show lexicon.Reads [] rest rest from rfl)
      rw [membersText, List.append_assoc]
      exact this
    | cons g gs =>
      obtain ⟨ts, hm, hr⟩ := ih (List.cons_ne_nil _ _)
        fun a ha => h a (List.mem_cons_of_mem _ ha)
      refine ⟨_, .more (.scalar f.value) hm, ?_⟩
      have := hf.reads (b := comma) (by decide) hr
      rw [membersText, List.append_assoc]
      exact this

/-- **An object that is printed is one.** -/
theorem text_object {fs : List Field} (hne : fs ≠ []) (h : ∀ f ∈ fs, f.Ok)
    {rest : Bytes} (hrest : ∀ b ∈ rest, isBlank b = true) :
    Text (openBrace :: (membersText fs ++ rest)) (.object (fieldMembers fs)) := by
  obtain ⟨ts, hm, hr⟩ := members_read hne h rest
  exact ⟨_, rest, .object hm, ⟨_, ⟨[], [openBrace], nofun, ⟨rfl, by decide⟩, rfl⟩,
    hr⟩, hrest⟩

/-- A number in decimal is a number. -/
theorem number_decimal (n : ℕ) : Number (Printf.decimal n) n := by
  refine ⟨[], Printf.decimal n, [], [], 0, 0, by simp, ?_, .inl ⟨rfl, rfl⟩,
    .inl ⟨rfl, rfl⟩, .inl ⟨rfl, by simp [Printf.number_decimal]⟩⟩
  have hd := fun b => Printf.digit_of_mem_decimal (n := n) (b := b)
  rcases Printf.decimal_head n with he | ⟨d, ds, he, hne⟩
  · exact .inl he
  · rw [he] at hd
    have h := hd d List.mem_cons_self
    refine .inr ⟨d, ds, he, ?_, h.2, fun b hb => hd b (List.mem_cons_of_mem _ hb)⟩
    have hle := UInt8.le_iff_toNat_le.mp h.1
    have hne' : d.toNat ≠ 48 := fun h => hne (UInt8.toNat_inj.mp h)
    rw [UInt8.le_iff_toNat_le]
    have h₁ : (0x30 : UInt8).toNat = 48 := rfl
    have h₂ : (0x31 : UInt8).toNat = 49 := rfl
    omega

/-! ## Members to print -/

/-- A member with a string that needs no escapes, or should not. -/
def Field.ofString (key s : Bytes) : Field :=
  ⟨key, .string s, quote :: (s ++ [quote])⟩

/-- A member with a truth value. -/
def Field.ofBool (key : Bytes) (b : Bool) : Field :=
  ⟨key, .bool b, if b = true then ascii "true" else ascii "false"⟩

/-- A member with a number. -/
def Field.ofNat (key : Bytes) (n : ℕ) : Field :=
  ⟨key, .number n, Printf.decimal n⟩

section Fields

variable {key s : Bytes}

theorem Field.ok_ofString (hk : PlainText key) (hs : PlainText s) :
    (Field.ofString key s).Ok :=
  ⟨hk, s, body_of_plain hs, rfl⟩

theorem Field.ok_ofBool (hk : PlainText key) (b : Bool) :
    (Field.ofBool key b).Ok := by
  refine ⟨hk, ?_⟩
  cases b with
  | true => exact rfl
  | false => exact rfl

theorem Field.ok_ofNat (hk : PlainText key) (n : ℕ) :
    (Field.ofNat key n).Ok :=
  ⟨hk, number_decimal n⟩

/-! ## Reading what is printed -/

/-- **A member that is read in one way**, with another one behind it. -/
structure Field.Fixed (f : Field) : Prop where
  /-- The key needs no escapes. -/
  key : PlainText f.key
  /-- There is no other value than its own. -/
  value : ∀ {v ts tail rest}, Derives v ts →
    lexicon.Reads ts (f.raw ++ comma :: tail) rest →
    v = .scalar f.value ∧ rest = comma :: tail

theorem Field.fixed_ofString (hk : PlainText key) (hs : PlainText s) :
    (Field.ofString key s).Fixed where
  key := hk
  value {v ts tail rest} h hr := by
    have he : (Field.ofString key s).raw ++ comma :: tail
        = quote :: (s ++ quote :: comma :: tail) :=
      congrArg (quote :: ·) (List.append_assoc s [quote] _)
    exact h.plain_string hs (he ▸ hr)

theorem Field.fixed_ofBool (hk : PlainText key) (b : Bool) :
    (Field.ofBool key b).Fixed where
  key := hk
  value h hr := h.bool_of_text b hr

/-- What is printed of a member with others behind it. -/
theorem membersText_cons {fs : List Field} (hne : fs ≠ []) (f : Field)
    (rest : Bytes) : membersText (f :: fs) ++ rest
      = memberText f.key (f.raw ++ comma :: (membersText fs ++ rest)) := by
  cases fs with
  | nil => exact absurd rfl hne
  | cons g fs => simp [membersText, memberText]

/-- There is a quote in front of the members. -/
theorem membersText_head {fs : List Field} (hne : fs ≠ []) (rest : Bytes) :
    ∃ tail, membersText fs ++ rest = quote :: tail := by
  cases fs with
  | nil => exact absurd rfl hne
  | cons f fs =>
    cases fs with
    | nil => exact ⟨_, rfl⟩
    | cons g fs => exact ⟨_, rfl⟩

variable {ms : List (Bytes × Value)} {ts : List (Token UInt8 Scalar)}
  {front fs : List Field} {rest rest' : Bytes}

/-- **The members in front** are read as they are, if there is one way to read
each of them. -/
theorem Members.behind (hfront : ∀ f ∈ front, f.Fixed) (hne : fs ≠ [])
    (h : Members ms ts)
    (hr : lexicon.Reads ts (membersText (front ++ fs) ++ rest) rest') :
    ∃ ms' ts', ms = fieldMembers front ++ ms' ∧ Members ms' ts'
      ∧ lexicon.Reads ts' (membersText fs ++ rest) rest' := by
  induction front generalizing ms ts with
  | nil => exact ⟨ms, ts, rfl, h, hr⟩
  | cons f front ih =>
    have hf := hfront f List.mem_cons_self
    rw [List.cons_append,
      membersText_cons (List.append_ne_nil_of_right_ne_nil front hne)] at hr
    obtain ⟨ms', ts', rfl, hms, hr'⟩ := h.peel hf.key hr
      fun _ _ _ => hf.value
    obtain ⟨ms'', ts'', rfl, hms', hr''⟩ := ih
      (fun g hg => hfront g (List.mem_cons_of_mem _ hg)) hms hr'
    exact ⟨ms'', ts'', rfl, hms', hr''⟩

/-- **A string in an object**: whatever the object is, the member with this key
has the string that is spelled there, and this is the one that was printed only
if it needs no escapes. -/
theorem Text.plain_of_mem {g : Field} {gs : List Field}
    (hfront : ∀ f ∈ front, f.Fixed) (hk : PlainText key)
    (h : Text (openBrace :: (membersText (front
      ++ Field.ofString key s :: g :: gs) ++ rest)) (.object ms))
    (hnodup : (ms.map Prod.fst).Nodup)
    (hm : (key, .scalar (.string s)) ∈ ms) : PlainText s := by
  have hne : front ++ Field.ofString key s :: g :: gs ≠ [] :=
    List.append_ne_nil_of_right_ne_nil front (List.cons_ne_nil _ _)
  obtain ⟨tail, htail⟩ := membersText_head hne rest
  rw [htail] at h
  obtain ⟨ts, rest', hms, hr⟩ := h.members
  rw [← htail] at hr
  obtain ⟨ms', ts', rfl, hms', hr'⟩ := hms.behind hfront
    (List.cons_ne_nil _ _) hr
  obtain ⟨tail', htail'⟩ := membersText_head (List.cons_ne_nil g gs) rest
  rw [membersText_cons (List.cons_ne_nil _ _), htail'] at hr'
  obtain ⟨v, us, mid, hd, hu, hcases⟩ := hms'.first hk hr'
  obtain ⟨body, w, rfl, hbody, he⟩ := hd.string_of_quote hu
  have hmem : (key, Value.scalar (.string w)) ∈ ms' := by
    rcases hcases with ⟨rfl, _⟩ | ⟨_, _, _, rfl, _⟩
    · exact List.mem_cons_self
    · exact List.mem_cons_self
  have hw : w = s := by
    have := List.inj_on_of_nodup_map hnodup (List.mem_append_right _ hmem) hm rfl
    simpa using this
  subst hw
  have hbegins : body ++ quote :: mid = w ++ quote :: comma :: quote :: tail' :=
    he.symm.trans (List.append_assoc w [quote] _)
  exact hbody.plain_of_text hbegins

end Fields

end Json
