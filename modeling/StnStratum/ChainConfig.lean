import StnStratum.Scanner
import StnStratum.Session

/-!
# The list of Chain servers

`stn_chain_config_load` reads the servers from a file. The text is an object
with one member, the list, of objects with two members each, and it is parsed
by hand: every function takes the text from where the last one stopped, and a
byte zero or the end of the text is the terminator.

The loops of `parse_server`, `parse_servers` and `parse_config` differ in what
an item is, in their marks, and in whether a separator may stand behind the
last item, so they are one loop (`Scanner.Items.loop`), and their items are
what each of them makes of one.
-/

namespace ChainConfig

open Scanner (ItemParser Items)

/-- **A string in memory** goes up to its terminator. -/
def cString (bytes : Bytes) : Bytes := bytes.takeWhile (· != 0)

/-- What is in front of the terminator. -/
theorem cString_append_zero {v : Bytes} (h : (0 : UInt8) ∉ v) (rest : Bytes) :
    cString (v ++ 0 :: rest) = v := by
  have hpos : ∀ b ∈ v, (b != 0) = true := fun b hb =>
    bne_iff_ne.mpr fun h' => h (h' ▸ hb)
  unfold cString
  rw [List.takeWhile_append_of_pos hpos, List.takeWhile_cons_of_neg (by decide),
    List.append_nil]

/-- A buffer that begins with a string and its terminator holds the string. -/
theorem cString_of_begins {n : ℕ} {b : Buf n} {v : Bytes}
    (h : b.Begins (v ++ [0])) (h₀ : 0 ∉ v) : cString b.bytes = v := by
  obtain ⟨rest, hr⟩ := h
  rw [← hr, List.append_assoc]
  exact cString_append_zero h₀ rest

/-- An array with a terminator holds a shorter string. -/
theorem length_cString_lt {b : Bytes} (h : 0 ∈ b) :
    (cString b).length < b.length := by
  refine lt_of_le_of_ne (List.takeWhile_prefix _).length_le fun he => ?_
  have hb := (List.takeWhile_prefix _).eq_of_length he
  exact absurd (List.mem_takeWhile_imp (hb ▸ h)) (by decide)

theorem zero_not_mem_cString (b : Bytes) : 0 ∉ cString b :=
  fun h => absurd (List.mem_takeWhile_imp h) (by decide)

/-- **`isspace`** in the C locale. -/
def isSpace (b : UInt8) : Bool := b == 0x20 || 0x09 ≤ b && b ≤ 0x0d

/-- **`isdigit`**. -/
def isDigit (b : UInt8) : Bool := 0x30 ≤ b && b ≤ 0x39

/-- The mark `"`. -/
abbrev quote : UInt8 := 0x22
/-- The mark `\`. -/
abbrev backslash : UInt8 := 0x5c
/-- The mark `:`. -/
abbrev colon : UInt8 := 0x3a
/-- The mark `,`. -/
abbrev comma : UInt8 := 0x2c
/-- The mark that opens an object. -/
abbrev openBrace : UInt8 := 0x7b
/-- The mark that closes an object. -/
abbrev closeBrace : UInt8 := 0x7d
/-- The mark `[`. -/
abbrev openBracket : UInt8 := 0x5b
/-- The mark `]`. -/
abbrev closeBracket : UInt8 := 0x5d

/-- `host`. -/
def hostKey : Bytes := [0x68, 0x6f, 0x73, 0x74]

/-- `port`. -/
def portKey : Bytes := [0x70, 0x6f, 0x72, 0x74]

/-- `chain_servers`. -/
def chainServersKey : Bytes :=
  [0x63, 0x68, 0x61, 0x69, 0x6e, 0x5f, 0x73, 0x65, 0x72, 0x76, 0x65, 0x72,
    0x73]

/-- **`skip_space`**. -/
def skipSpace (p : Bytes) : Bytes := p.dropWhile isSpace

/-- **`expect`**: what is behind the mark. -/
def expect (p : Bytes) (value : UInt8) : Option Bytes :=
  match skipSpace p with
  | [] => none
  | b :: rest => if b = value then some rest else none

/-! ## Strings -/

/-- **The first pass of `parse_string`**: where the closing quote is, and how
many characters there are in front of it. -/
def scanString : Bytes → ℕ → ℕ → Option (ℕ × ℕ)
  | [], _, _ => none
  | b :: rest, scan, length =>
    if b = 0 then none
    else if b = quote then some (scan, length)
    else if b = backslash then
      match rest with
      | [] => none
      | e :: rest =>
        if e = 0 then none else scanString rest (scan + 2) (length + 1)
    else scanString rest (scan + 1) (length + 1)

theorem scanString_quote (rest : Bytes) (scan length : ℕ) :
    scanString (quote :: rest) scan length = some (scan, length) := by
  rw [scanString.eq_def]
  rfl

theorem scanString_plain {b : UInt8} (h₀ : b ≠ 0) (hq : b ≠ quote)
    (hb : b ≠ backslash) (rest : Bytes) (scan length : ℕ) :
    scanString (b :: rest) scan length
      = scanString rest (scan + 1) (length + 1) := by
  rw [scanString.eq_def]
  dsimp only
  rw [if_neg h₀, if_neg hq, if_neg hb]

theorem scanString_pair {e : UInt8} (he : e ≠ 0) (rest : Bytes)
    (scan length : ℕ) : scanString (backslash :: e :: rest) scan length
      = scanString rest (scan + 2) (length + 1) := by
  rw [scanString.eq_def]
  dsimp only
  rw [if_neg (by decide), if_neg (by decide), if_pos rfl, if_neg he]

/-- What the character behind a backslash stands for. -/
def escape? (b : UInt8) : Option UInt8 :=
  if b = 0x22 then some 0x22
  else if b = 0x5c then some 0x5c
  else if b = 0x2f then some 0x2f
  else if b = 0x62 then some 0x08
  else if b = 0x66 then some 0x0c
  else if b = 0x6e then some 0x0a
  else if b = 0x72 then some 0x0d
  else if b = 0x74 then some 0x09
  else none

/-- **The second pass of `parse_string`**: the characters up to `scan` are
stored, and the terminator behind them. The rest of the text is what there is
from `start + i` on; the pass stops in front of its end, since the closing
quote is there. -/
def decodeString {n : ℕ} (scan : ℕ) : Bytes → ℕ → ℕ → Buf n → Option (Buf n)
  | [], i, j, value => if i < scan then none else some (value.write j [0])
  | b :: rest, i, j, value =>
    if i < scan then
      if b = backslash then
        match rest with
        | [] => none
        | e :: rest =>
          match escape? e with
          | none => none
          | some c => decodeString scan rest (i + 2) (j + 1) (value.write j [c])
      else decodeString scan rest (i + 1) (j + 1) (value.write j [b])
    else some (value.write j [0])

section Decode

variable {n scan i : ℕ} (rest : Bytes) (j : ℕ) (value : Buf n)

/-- The terminator is stored behind the characters. -/
theorem decodeString_end : decodeString scan rest scan j value
    = some (value.write j [0]) := by
  rw [decodeString.eq_def]
  cases rest <;> exact if_neg (Nat.lt_irrefl _)

theorem decodeString_plain {b : UInt8} (hi : i < scan) (hb : b ≠ backslash) :
    decodeString scan (b :: rest) i j value
      = decodeString scan rest (i + 1) (j + 1) (value.write j [b]) := by
  rw [decodeString.eq_def]
  dsimp only
  rw [if_pos hi, if_neg hb]

theorem decodeString_pair {e : UInt8} (hi : i < scan) :
    decodeString scan (backslash :: e :: rest) i j value
      = (escape? e).bind fun c =>
        decodeString scan rest (i + 2) (j + 1) (value.write j [c]) := by
  rw [decodeString.eq_def]
  dsimp only
  rw [if_pos hi, if_pos rfl]
  cases escape? e <;> rfl

end Decode

/-- **`parse_string`**: the string, the text behind it, and the heap. -/
def parseString (heap : Heap) (p : Bytes) : Option (Bytes × Bytes × Heap) :=
  match skipSpace p with
  | [] => none
  | b :: start =>
    if b ≠ quote then none
    else
      match scanString start 0 0 with
      | none => none
      | some (scan, length) =>
        match heap.malloc (length + 1) with
        | (none, _) => none
        | (some value, heap) =>
          match decodeString scan start 0 0 value with
          | none => none
          | some value => some (cString value.bytes, start.drop (scan + 1), heap)

/-! ## Ports -/

/-- The loop of `parse_port`: the value, whether there was a digit, and the
text behind the digits. -/
def portLoop : Bytes → ℕ → Bool → Option (ℕ × Bool × Bytes)
  | [], value, haveDigit => some (value, haveDigit, [])
  | b :: rest, value, haveDigit =>
    if isDigit b = true then
      let digit := b.toNat - 0x30
      if 6553 < value ∨ value = 6553 ∧ 5 < digit then none
      else portLoop rest (value * 10 + digit) true
    else some (value, haveDigit, b :: rest)

/-- **`parse_port`**. -/
def parsePort (p : Bytes) : Option (UInt16 × Bytes) :=
  match portLoop (skipSpace p) 0 false with
  | none => none
  | some (value, haveDigit, rest) =>
    if haveDigit = false ∨ value = 0 then none
    else some (UInt16.ofNat value, rest)

/-! ## Lengths -/

theorem length_skipSpace_le (p : Bytes) : (skipSpace p).length ≤ p.length :=
  (List.dropWhile_suffix _).length_le

theorem length_of_expect {p rest : Bytes} {value : UInt8}
    (h : expect p value = some rest) : rest.length < p.length := by
  unfold expect at h
  have hle := length_skipSpace_le p
  split at h
  · cases h
  next hp =>
  rw [hp, List.length_cons] at hle
  split at h
  · obtain rfl := Option.some.inj h
    exact hle
  · cases h

theorem length_of_parseString {heap heap' : Heap} {p value rest : Bytes}
    (h : parseString heap p = some (value, rest, heap')) :
    rest.length < p.length := by
  unfold parseString at h
  have hle := length_skipSpace_le p
  split at h
  · cases h
  next b start hp =>
  rw [hp, List.length_cons] at hle
  split at h
  · cases h
  split at h
  · cases h
  next scan length _ =>
  split at h
  · cases h
  split at h
  · cases h
  obtain ⟨_, rfl, _⟩ : _ ∧ start.drop (scan + 1) = rest ∧ _ := by
    simpa using h
  rw [List.length_drop]
  omega

theorem length_of_portLoop {p rest : Bytes} {value value' : ℕ}
    {haveDigit haveDigit' : Bool}
    (h : portLoop p value haveDigit = some (value', haveDigit', rest)) :
    rest.length ≤ p.length := by
  induction p generalizing value haveDigit with
  | nil =>
    obtain ⟨_, _, rfl⟩ : _ ∧ _ ∧ [] = rest := by simpa [portLoop] using h
    exact le_rfl
  | cons b p ih =>
    unfold portLoop at h
    split at h
    · dsimp only at h
      split at h
      · cases h
      · exact Nat.le_succ_of_le (ih h)
    · obtain ⟨_, _, rfl⟩ : _ ∧ _ ∧ b :: p = rest := by simpa using h
      exact le_rfl

theorem length_of_parsePort {p rest : Bytes} {port : UInt16}
    (h : parsePort p = some (port, rest)) : rest.length ≤ p.length := by
  unfold parsePort at h
  split at h
  · cases h
  next hloop =>
  split at h
  · cases h
  · obtain ⟨_, rfl⟩ := Prod.mk.inj (Option.some.inj h)
    exact (length_of_portLoop hloop).trans (length_skipSpace_le p)

/-! ## Members of objects -/

section Members

variable {σ : Type}

/-- **A member of an object**: its key, the colon, and its value, which is
left to `value`. -/
def parseMember (value : Heap → Bytes → σ → Bytes → Option (σ × Bytes × Heap))
    (heap : Heap) (s : σ) (p : Bytes) : Option (σ × Bytes × Heap) :=
  match parseString heap p with
  | none => none
  | some (key, p, heap) =>
    match expect p colon with
    | none => none
    | some p => value heap key s p

/-- **What parses a value**, given its key. -/
structure ValueParser (σ : Type) where
  /-- The parser. -/
  parse : Heap → Bytes → σ → Bytes → Option (σ × Bytes × Heap)
  /-- It never has more text than before. -/
  shrinks : ∀ {heap key s p s' p' heap'},
    parse heap key s p = some (s', p', heap') → p'.length ≤ p.length

/-- **The members of an object**, up to its closing brace. -/
def members (V : ValueParser σ) : Items Heap σ UInt8 where
  item := {
    parse := parseMember V.parse
    shrinks := by
      intro heap s p s' p' heap' h
      unfold parseMember at h
      split at h
      · cases h
      next hkey =>
      split at h
      · cases h
      next hcolon =>
      have h₁ := length_of_parseString hkey
      have h₂ := length_of_expect hcolon
      have h₃ := V.shrinks h
      omega }
  blank := isSpace
  sep := comma
  close := closeBrace
  lenient := true

end Members

/-! ## One server -/

/-- What `parse_server` does with a key: `host` and `port` are looked for, and
each is taken once. The state is what has been found. -/
def serverValue (heap : Heap) (key : Bytes) (s : Option Bytes × Option UInt16)
    (p : Bytes) : Option ((Option Bytes × Option UInt16) × Bytes × Heap) :=
  if key = hostKey then
    if s.1.isSome then none
    else
      match parseString heap p with
      | none => none
      | some (host, p, heap) =>
        if host = [] then none else some ((some host, s.2), p, heap)
  else if key = portKey then
    if s.2.isSome then none
    else
      match parsePort p with
      | none => none
      | some (port, p) => some ((s.1, some port), p, heap)
  else none

/-- The members of a server. -/
def serverMembers : Items Heap (Option Bytes × Option UInt16) UInt8 :=
  members {
    parse := serverValue
    shrinks := by
      intro heap key s p s' p' heap' h
      unfold serverValue at h
      split at h
      · split at h
        · cases h
        split at h
        · cases h
        next hhost =>
        split at h
        · cases h
        · obtain ⟨_, rfl, _⟩ : _ ∧ _ = p' ∧ _ := by simpa using h
          exact le_of_lt (length_of_parseString hhost)
      split at h
      · split at h
        · cases h
        split at h
        · cases h
        next hport =>
        obtain ⟨_, rfl, _⟩ : _ ∧ _ = p' ∧ _ := by simpa using h
        exact length_of_parsePort hport
      · cases h }

/-- **`parse_server`**: the entry, if both members have been found. -/
def parseServer (heap : Heap) (p : Bytes) :
    Option (ChainConfigEntry × Bytes × Heap) :=
  match expect p openBrace with
  | none => none
  | some p =>
    match serverMembers.loop.run ((none, none), p, heap) with
    | some ((some host, some port), p, heap) => some (⟨host, port⟩, p, heap)
    | _ => none

theorem length_of_parseServer {heap heap' : Heap} {p rest : Bytes}
    {entry : ChainConfigEntry}
    (h : parseServer heap p = some (entry, rest, heap')) :
    rest.length < p.length := by
  unfold parseServer at h
  split at h
  · cases h
  next hopen =>
  split at h
  next hrun =>
    obtain ⟨_, rfl, _⟩ : _ ∧ _ = rest ∧ _ := by simpa using h
    exact (Items.length_lt hrun).trans (length_of_expect hopen)
  · cases h

/-! ## The list -/

/-- `SIZE_MAX`. -/
def sizeMax : ℕ := 2 ^ 64 - 1

/-- The size of an entry. -/
def entrySize : ℕ := 16

/-- **`append_server`**: the list with the entry, if there is memory. -/
def appendServer (heap : Heap) (config : List ChainConfigEntry)
    (entry : ChainConfigEntry) : Option (List ChainConfigEntry × Heap) :=
  if config.length = sizeMax / entrySize then none
  else
    match heap.malloc ((config.length + 1) * entrySize) with
    | (none, _) => none
    | (some _, heap) => some (config ++ [entry], heap)

/-- A server is parsed and appended. -/
def parseEntry (heap : Heap) (config : List ChainConfigEntry) (p : Bytes) :
    Option (List ChainConfigEntry × Bytes × Heap) :=
  match parseServer heap p with
  | none => none
  | some (entry, p, heap) =>
    match appendServer heap config entry with
    | none => none
    | some (config, heap) => some (config, p, heap)

/-- The entries of the list. -/
def entries : Items Heap (List ChainConfigEntry) UInt8 where
  item := {
    parse := parseEntry
    shrinks := by
      intro heap config p config' p' heap' h
      unfold parseEntry at h
      split at h
      · cases h
      next hserver =>
      split at h
      · cases h
      · obtain ⟨_, rfl, _⟩ : _ ∧ _ = p' ∧ _ := by simpa using h
        exact le_of_lt (length_of_parseServer hserver) }
  blank := isSpace
  sep := comma
  close := closeBracket
  lenient := false

/-- **`parse_servers`**: the list must not be empty. -/
def parseServers (heap : Heap) (config : List ChainConfigEntry) (p : Bytes) :
    Option (List ChainConfigEntry × Bytes × Heap) :=
  match expect p openBracket with
  | none => none
  | some p =>
    if (skipSpace p).head? = some closeBracket then none
    else entries.loop.run (config, skipSpace p, heap)

theorem length_of_parseServers {heap heap' : Heap}
    {config config' : List ChainConfigEntry} {p rest : Bytes}
    (h : parseServers heap config p = some (config', rest, heap')) :
    rest.length < p.length := by
  unfold parseServers at h
  split at h
  · cases h
  next p₁ hopen =>
  split at h
  · cases h
  · exact (Items.length_lt h).trans_le ((length_skipSpace_le p₁).trans
      (le_of_lt (length_of_expect hopen)))

/-! ## The configuration -/

/-- What `parse_config` does with a key: `chain_servers` is looked for, and
taken once. The state is whether it has been found, and the list. -/
def configValue (heap : Heap) (key : Bytes)
    (s : Bool × List ChainConfigEntry) (p : Bytes) :
    Option ((Bool × List ChainConfigEntry) × Bytes × Heap) :=
  if key = chainServersKey then
    if s.1 = true then none
    else
      match parseServers heap s.2 p with
      | none => none
      | some (config, p, heap) => some ((true, config), p, heap)
  else none

/-- The members of the configuration. -/
def configMembers : Items Heap (Bool × List ChainConfigEntry) UInt8 :=
  members {
    parse := configValue
    shrinks := by
      intro heap key s p s' p' heap' h
      unfold configValue at h
      split at h
      · split at h
        · cases h
        split at h
        · cases h
        next hservers =>
        obtain ⟨_, rfl, _⟩ : _ ∧ _ = p' ∧ _ := by simpa using h
        exact le_of_lt (length_of_parseServers hservers)
      · cases h }

/-- **`parse_config`**: the servers of the text behind those there are. -/
def parseConfig (heap : Heap) (text : Bytes) (config : List ChainConfigEntry) :
    Option (List ChainConfigEntry × Heap) :=
  match expect text openBrace with
  | none => none
  | some p =>
    match configMembers.loop.run ((false, config), p, heap) with
    | none => none
    | some ((haveServers, config), p, heap) =>
      if (skipSpace p).headD 0 ≠ 0 ∨ haveServers = false ∨ config = [] then none
      else some (config, heap)

/-! ## The file -/

/-- **`read_file`**: the contents of a file with a terminator behind them.
`files` is what opening a path, asking for its length and reading it come
to. -/
def readFile (files : Bytes → Option Bytes) (heap : Heap) (path : Bytes) :
    Option Bytes × Heap :=
  match files path with
  | none => (none, heap)
  | some contents =>
    if sizeMax ≤ contents.length then (none, heap)
    else
      match heap.malloc (contents.length + 1) with
      | (none, heap) => (none, heap)
      | (some text, heap) =>
        (some ((text.write 0 contents).write contents.length [0]).bytes, heap)

/-- **`stn_chain_config_load`**: whether the file could be loaded, and the
caller's configuration then. -/
def load (files : Bytes → Option Bytes) (heap : Heap)
    (config : Option (List ChainConfigEntry)) (path : Option Bytes) :
    Bool × Option (List ChainConfigEntry) :=
  match config, path with
  | some _, some path =>
    match readFile files heap path with
    | (none, _) => (false, config)
    | (some text, heap) =>
      match parseConfig heap (cString text) [] with
      | none => (false, config)
      | some (loaded, _) => (true, some loaded)
  | _, _ => (false, config)

end ChainConfig
