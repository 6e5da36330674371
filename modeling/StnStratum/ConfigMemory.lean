import StnStratum.ChainConfig
import StnStratum.OwnedItems
import StnStratum.Machine

/-!
# The memory of the configuration

`stn_chain_config_load` asks for memory all along: for the text of the file,
for every string, and for the list of servers, which is moved with each server
that is appended. On its way it can fail at any point, for want of memory or
because of the text, and what it has asked for by then has to be given back.
Here is the parser once more, with its blocks: whatever is read through a
pointer or stored through one is a use of the block it points into, the text
included.

It is the same parser (`parseConfig_spec`), and it gives back everything
(`config_memory`): whatever is loaded and whatever fails, the blocks that are
live are those of the configuration, none is freed twice, and none is used
that is not live.
-/

namespace ConfigMemory

open ChainConfig (skipSpace expect scanString decodeString cString parsePort
  ValueParser quote colon comma openBrace closeBrace openBracket closeBracket
  hostKey portKey chainServersKey sizeMax entrySize)
open Scanner (erase)

/-! ## Strings -/

/-- **A string and its block.** -/
structure OwnedString where
  /-- The string. -/
  bytes : Bytes
  /-- The block. -/
  block : ℕ

/-- **`parse_string`**: the string and the text behind it. The text is read
from the block `text` in both passes, and the second stores in the new block,
at least the terminator. -/
def parseString (text : ℕ) (m : Memory) (p : Bytes) :
    Option (OwnedString × Bytes) × Memory :=
  let m := m.use (some text)
  match skipSpace p with
  | [] => (none, m)
  | b :: start =>
    if b ≠ quote then (none, m)
    else
      match scanString start 0 0 with
      | none => (none, m)
      | some (scan, length) =>
        match m.malloc (length + 1) with
        | (none, m) => (none, m)
        | (some (block, value), m) =>
          let m := (m.use (some text)).use (some block)
          match decodeString scan start 0 0 value with
          | none => (none, m.free (some block))
          | some value =>
            (some (⟨cString value.bytes, block⟩, start.drop (scan + 1)), m)

/-- **The two ways of `parse_string`.** -/
theorem parseString_cases (text : ℕ) (m : Memory) (p : Bytes) :
    (∃ m', parseString text m p = (none, m')
        ∧ ChainConfig.parseString m.heap p = none
        ∧ ∀ bs, text ∈ bs → m.Holds bs → m'.Holds bs)
      ∨ ∃ s p' m', parseString text m p = (some (s, p'), m')
        ∧ ChainConfig.parseString m.heap p = some (s.bytes, p', m'.heap)
        ∧ ∀ bs, text ∈ bs → m.Holds bs → m'.Holds (s.block :: bs) := by
  have hread : ∀ bs, text ∈ bs → m.Holds bs → (m.use (some text)).Holds bs :=
    fun _ ht h => h.use ht
  unfold parseString ChainConfig.parseString
  cases skipSpace p with
  | nil => exact .inl ⟨_, rfl, rfl, hread⟩
  | cons b start =>
    dsimp only
    by_cases hb : b ≠ quote
    · rw [if_pos hb, if_pos hb]
      exact .inl ⟨_, rfl, rfl, hread⟩
    rw [if_neg hb, if_neg hb]
    cases scanString start 0 0 with
    | none => exact .inl ⟨_, rfl, rfl, hread⟩
    | some found =>
      obtain ⟨scan, length⟩ := found
      dsimp only
      obtain ⟨m', he, hh, hk⟩ | ⟨block, value, m', he, hh, hk⟩ :=
        (m.use (some text)).malloc_cases (length + 1)
      · rw [Memory.heap_use] at hh
        rw [he, hh]
        exact .inl ⟨m', rfl, rfl, fun bs ht h => hk bs (hread bs ht h)⟩
      rw [Memory.heap_use] at hh
      rw [he, hh]
      have hstored : ∀ bs, text ∈ bs → m.Holds bs →
          ((m'.use (some text)).use (some block)).Holds (block :: bs) :=
        fun bs ht h => ((hk bs (hread bs ht h)).use
          (List.mem_cons_of_mem block ht)).use List.mem_cons_self
      dsimp only
      cases decodeString scan start 0 0 value with
      | none => exact .inl ⟨_, rfl, rfl, fun bs ht h => (hstored bs ht h).free⟩
      | some value =>
        refine .inr ⟨_, _, _, rfl, ?_, hstored⟩
        rw [Memory.heap_use, Memory.heap_use]

/-! ## Members of objects -/

section Members

variable {σ τ : Type}

/-- **A member of an object**: its key, the colon, and its value, which is
left to `value`. The key is freed behind the value. -/
def parseMember
    (value : Memory → OwnedString → σ → Bytes → Option Bytes × σ × Memory)
    (text : ℕ) (m : Memory) (s : σ) (p : Bytes) :
    Option ℕ × Option Bytes × σ × Memory :=
  match parseString text m p with
  | (none, m) => (none, none, s, m)
  | (some (key, p), m) =>
    let m := m.use (some text)
    match expect p colon with
    | none => (some key.block, none, s, m)
    | some p =>
      match value (m.use (some key.block)) key s p with
      | (none, s, m) => (some key.block, none, s, m)
      | (some p, s, m) => (none, some p, s, m.free (some key.block))

/-- **What parses a value**, given its key. -/
structure OwnedValue (P : ValueParser τ) (text : ℕ) (σ : Type) where
  /-- The parser. -/
  parse : Memory → OwnedString → σ → Bytes → Option Bytes × σ × Memory
  /-- What the variables stand for. -/
  view : σ → τ
  /-- The blocks they own. -/
  owned : σ → List ℕ
  /-- The values are the same. -/
  erases : ∀ m key s p, P.parse m.heap key.bytes (view s) p
    = erase view (parse m key s p)
  /-- What is held is owned, if the text is held. -/
  keeps : ∀ {m s bs} key p, text ∈ bs → m.Holds (owned s ++ bs) →
    (parse m key s p).2.2.Holds (owned (parse m key s p).2.1 ++ bs)

variable {P : ValueParser τ} {text : ℕ}

/-- **The members of an object**, up to its closing brace. -/
def members (V : OwnedValue P text σ) :
    OwnedItems (ChainConfig.members P) text σ where
  parse := parseMember V.parse text
  view := V.view
  owned := V.owned
  erases m s p := by
    show ChainConfig.parseMember P.parse m.heap (V.view s) p = _
    unfold ChainConfig.parseMember parseMember
    obtain ⟨m₁, he, hp, _⟩ | ⟨key, p₁, m₁, he, hp, _⟩ :=
      parseString_cases text m p
    · rw [he, hp]
      rfl
    rw [he, hp]
    dsimp only
    cases expect p₁ colon with
    | none => rfl
    | some p₂ =>
      have herase := V.erases ((m₁.use (some text)).use (some key.block)) key s
        p₂
      rw [Memory.heap_use, Memory.heap_use] at herase
      dsimp only
      rw [herase]
      obtain ⟨_ | p₃, s, m⟩ :=
        V.parse ((m₁.use (some text)).use (some key.block)) key s p₂
      all_goals rfl
  keeps {m s bs} p ht h := by
    have hmem : text ∈ V.owned s ++ bs := List.mem_append_right _ ht
    unfold parseMember
    obtain ⟨m₁, he, _, hk⟩ | ⟨key, p₁, m₁, he, _, hk⟩ :=
      parseString_cases text m p
    · rw [he]
      exact hk _ hmem h
    rw [he]
    have hkey := (hk _ hmem h).use (List.mem_cons_of_mem key.block hmem)
    dsimp only
    cases expect p₁ colon with
    | none => exact hkey
    | some p₂ =>
      have howned : ((m₁.use (some text)).use (some key.block)).Holds
          (V.owned s ++ key.block :: bs) :=
        (hkey.use List.mem_cons_self).perm List.perm_middle.symm
      have hvalue := V.keeps key p₂ (List.mem_cons_of_mem _ ht) howned
      dsimp only
      revert hvalue
      obtain ⟨_ | p₃, s, m⟩ :=
        V.parse ((m₁.use (some text)).use (some key.block)) key s p₂
      · exact fun hvalue => hvalue.perm List.perm_middle
      · exact fun hvalue => (hvalue.perm List.perm_middle).free
  settled {m s p} h := by
    revert h
    unfold parseMember
    dsimp only
    repeat' split
    all_goals first | exact fun _ => rfl | exact fun h => absurd rfl h

end Members

/-! ## One server -/

/-- **A server with its blocks**: the host is the entry's. -/
structure OwnedEntry where
  /-- The host. -/
  host : OwnedString
  /-- The port. -/
  port : UInt16

/-- What the entry says. -/
def OwnedEntry.entry (e : OwnedEntry) : ChainConfigEntry :=
  ⟨e.host.bytes, e.port⟩

/-- What `parse_server` does with a key. The variables are `host` and `port`.
An empty host is not taken, but is in its variable. -/
def serverValue (text : ℕ) (m : Memory) (key : OwnedString)
    (s : Option OwnedString × Option UInt16) (p : Bytes) :
    Option Bytes × (Option OwnedString × Option UInt16) × Memory :=
  if key.bytes = hostKey then
    if s.1.isSome then (none, s, m)
    else
      match parseString text m p with
      | (none, m) => (none, s, m)
      | (some (host, p), m) =>
        if host.bytes = [] then
          (none, (some host, s.2), m.use (some host.block))
        else (some p, (some host, s.2), m.use (some host.block))
  else if key.bytes = portKey then
    if s.2.isSome then (none, s, m)
    else
      let m := m.use (some text)
      match parsePort p with
      | none => (none, s, m)
      | some (port, p) => (some p, (s.1, some port), m)
  else (none, s, m)

/-- The members of a server. -/
def serverMembers (text : ℕ) : OwnedItems ChainConfig.serverMembers text
    (Option OwnedString × Option UInt16) :=
  members {
    parse := serverValue text
    view := fun s => (s.1.map OwnedString.bytes, s.2)
    owned := fun s => (s.1.map OwnedString.block).toList
    erases := by
      intro m key s p
      show ChainConfig.serverValue m.heap key.bytes _ p = _
      unfold ChainConfig.serverValue serverValue
      by_cases hhost : key.bytes = hostKey
      · rw [if_pos hhost, if_pos hhost, Option.isSome_map]
        by_cases hs : s.1.isSome
        · rw [if_pos hs, if_pos hs]
          rfl
        rw [if_neg hs, if_neg hs]
        obtain ⟨m₁, he, hp, _⟩ | ⟨host, p₁, m₁, he, hp, _⟩ :=
          parseString_cases text m p
        · rw [he, hp]
          rfl
        rw [he, hp]
        dsimp only
        by_cases hempty : host.bytes = []
        · rw [if_pos hempty, if_pos hempty]
          rfl
        · rw [if_neg hempty, if_neg hempty, ← m₁.heap_use (some host.block)]
          rfl
      rw [if_neg hhost, if_neg hhost]
      by_cases hport : key.bytes = portKey
      · rw [if_pos hport, if_pos hport]
        by_cases hs : s.2.isSome
        · rw [if_pos hs, if_pos hs]
          rfl
        rw [if_neg hs, if_neg hs, ← m.heap_use (some text)]
        cases parsePort p <;> rfl
      · rw [if_neg hport, if_neg hport]
        rfl
    keeps := by
      intro m s bs key p ht h
      have hmem : text ∈ (s.1.map OwnedString.block).toList ++ bs :=
        List.mem_append_right _ ht
      unfold serverValue
      split
      · split
        · exact h
        next hs =>
        have hnone : s.1 = none := Option.not_isSome_iff_eq_none.mp hs
        obtain ⟨m₁, he, _, hk⟩ | ⟨host, p₁, m₁, he, _, hk⟩ :=
          parseString_cases text m p
        · rw [he]
          exact hk _ hmem h
        rw [hnone] at h
        have hhost := (hk _ ht h).use List.mem_cons_self
        rw [he]
        dsimp only
        split
        · exact hhost
        · exact hhost
      split
      · split
        · exact h
        have hread := h.use hmem
        dsimp only
        split
        · exact hread
        · exact hread
      · exact h }

/-- **`parse_server`**: the entry, if both members have been found. What has
been found of one that fails is freed. -/
def parseServer (text : ℕ) (m : Memory) (p : Bytes) :
    Option (OwnedEntry × Bytes) × Memory :=
  let m := m.use (some text)
  match expect p openBrace with
  | none => (none, m)
  | some p =>
    match (serverMembers text).items (none, none) p m with
    | (_, some p, (some host, some port), m) => (some (⟨host, port⟩, p), m)
    | (key, _, s, m) =>
      (none, (m.free key).free (s.1.map OwnedString.block))

/-- **The two ways of `parse_server`.** -/
theorem parseServer_cases (text : ℕ) (m : Memory) (p : Bytes) :
    (∃ m', parseServer text m p = (none, m')
        ∧ ChainConfig.parseServer m.heap p = none
        ∧ ∀ bs, text ∈ bs → m.Holds bs → m'.Holds bs)
      ∨ ∃ e p' m', parseServer text m p = (some (e, p'), m')
        ∧ ChainConfig.parseServer m.heap p = some (e.entry, p', m'.heap)
        ∧ ∀ bs, text ∈ bs → m.Holds bs → m'.Holds (e.host.block :: bs) := by
  have hread : ∀ bs, text ∈ bs → m.Holds bs → (m.use (some text)).Holds bs :=
    fun _ ht h => h.use ht
  rw [← m.heap_use (some text)]
  unfold parseServer ChainConfig.parseServer
  dsimp only
  generalize m.use (some text) = m₁ at hread ⊢
  cases expect p openBrace with
  | none => exact .inl ⟨m₁, rfl, rfl, hread⟩
  | some p =>
    have herase := (serverMembers text).items_erase (none, none) p m₁
    have hkeep : ∀ bs, text ∈ bs → m₁.Holds bs → _ :=
      fun bs ht (h : m₁.Holds ([] ++ bs)) =>
        (serverMembers text).items_keeps (s := (none, none)) p ht h
    have hsettled : ∀ p',
        ((serverMembers text).items (none, none) p m₁).2.1 = some p' →
          ((serverMembers text).items (none, none) p m₁).1 = none :=
      fun p' h => (serverMembers text).items_settled h
    dsimp only
    rw [show ChainConfig.serverMembers.loop.run ((none, none), p, m₁.heap)
      = _ from herase]
    revert hkeep hsettled
    obtain ⟨key, rest, s, m'⟩ := (serverMembers text).items (none, none) p m₁
    intro hkeep hsettled
    have hfail : ∀ bs, text ∈ bs → m.Holds bs →
        ((m'.free key).free (s.1.map OwnedString.block)).Holds bs :=
      fun bs ht h => (hkeep bs ht (hread bs ht h)).freeOption.freeOption
    obtain _ | p' := rest
    · exact .inl ⟨_, rfl, rfl, hfail⟩
    obtain ⟨_ | host, port⟩ := s
    · exact .inl ⟨_, rfl, rfl, hfail⟩
    obtain _ | port := port
    · exact .inl ⟨_, rfl, rfl, hfail⟩
    refine .inr ⟨⟨host, port⟩, p', m', rfl, rfl, fun bs ht h => ?_⟩
    obtain rfl : key = none := hsettled p' rfl
    exact hkeep bs ht (hread bs ht h)

/-! ## The list -/

/-- **A list of servers with its blocks**: `stn_chain_config`. There are only
entries where there is memory for them. -/
structure OwnedConfig where
  /-- `servers`. -/
  servers : Option ℕ
  /-- The entries. -/
  entries : List OwnedEntry
  /-- There is memory for them. -/
  allocated : entries ≠ [] → servers ≠ none

namespace OwnedConfig

/-- A configuration filled with zeros. -/
def zero : OwnedConfig := ⟨none, [], fun h => absurd rfl h⟩

/-- What the configuration says. -/
def view (config : OwnedConfig) : List ChainConfigEntry :=
  config.entries.map OwnedEntry.entry

/-- The hosts of the entries. -/
def hosts (config : OwnedConfig) : List ℕ :=
  config.entries.map fun e => e.host.block

/-- **The blocks of the configuration**: the list, and the hosts in it. -/
def owned (config : OwnedConfig) : List ℕ :=
  config.servers.toList ++ config.hosts

end OwnedConfig

/-- **`append_server`**: the list is moved, and the entry stored in it. -/
def appendServer (m : Memory) (config : OwnedConfig) (entry : OwnedEntry) :
    Option OwnedConfig × Memory :=
  if config.entries.length = sizeMax / entrySize then (none, m)
  else
    match m.realloc config.servers
        ((config.entries.length + 1) * entrySize) with
    | (none, m) => (none, m)
    | (some b, m) =>
      (some ⟨some b, config.entries ++ [entry], fun _ => Option.some_ne_none b⟩,
        m.use (some b))

/-- **The two ways of `append_server`.** If it appends the entry, the
configuration owns its host. -/
theorem appendServer_cases (m : Memory) (config : OwnedConfig)
    (entry : OwnedEntry) :
    (∃ m', appendServer m config entry = (none, m')
        ∧ ChainConfig.appendServer m.heap config.view entry.entry = none
        ∧ ∀ bs, m.Holds bs → m'.Holds bs)
      ∨ ∃ config' m', appendServer m config entry = (some config', m')
        ∧ ChainConfig.appendServer m.heap config.view entry.entry
          = some (config'.view, m'.heap)
        ∧ ∀ bs, m.Holds (entry.host.block :: (config.owned ++ bs)) →
          m'.Holds (config'.owned ++ bs) := by
  have hlength : config.view.length = config.entries.length :=
    List.length_map _
  unfold appendServer ChainConfig.appendServer
  rw [← hlength]
  by_cases hfull : config.view.length = sizeMax / entrySize
  · rw [if_pos hfull, if_pos hfull]
    exact .inl ⟨m, rfl, rfl, fun _ h => h⟩
  rw [if_neg hfull, if_neg hfull]
  obtain ⟨m', he, hh, hk⟩ | ⟨b, buf, m', he, hh, hk⟩ :=
    m.realloc_cases config.servers ((config.view.length + 1) * entrySize)
  · rw [he, hh]
    exact .inl ⟨m', rfl, rfl, hk⟩
  rw [he, hh]
  refine .inr ⟨_, _, rfl, ?_, fun bs h => ?_⟩
  · rw [Memory.heap_use]
    unfold OwnedConfig.view
    rw [List.map_append]
    rfl
  · have hmoved : m.Holds (config.servers.toList
        ++ (entry.host.block :: (config.hosts ++ bs))) := by
      refine h.perm ?_
      rw [OwnedConfig.owned, List.append_assoc]
      exact List.perm_middle.symm
    show (m'.use (some b)).Holds
      (b :: ((config.entries ++ [entry]).map (fun e => e.host.block) ++ bs))
    rw [List.map_append, List.append_assoc]
    exact ((hk _ hmoved).use List.mem_cons_self).perm
      (.cons b List.perm_middle.symm)

/-- A server is parsed and appended. The host of one that cannot be appended
is freed. -/
def parseEntry (text : ℕ) (m : Memory) (config : OwnedConfig) (p : Bytes) :
    Option ℕ × Option Bytes × OwnedConfig × Memory :=
  match parseServer text m p with
  | (none, m) => (none, none, config, m)
  | (some (entry, p), m) =>
    match appendServer m config entry with
    | (none, m) => (none, none, config, m.free (some entry.host.block))
    | (some config, m) => (none, some p, config, m)

theorem parseEntry_settled (text : ℕ) (m : Memory) (config : OwnedConfig)
    (p : Bytes) : (parseEntry text m config p).1 = none := by
  unfold parseEntry
  split
  · rfl
  · split <;> rfl

/-- The entries of the list. -/
def entries (text : ℕ) : OwnedItems ChainConfig.entries text OwnedConfig where
  parse := parseEntry text
  view := OwnedConfig.view
  owned := OwnedConfig.owned
  erases m config p := by
    show ChainConfig.parseEntry m.heap config.view p = _
    unfold ChainConfig.parseEntry parseEntry
    obtain ⟨m₁, he, hp, _⟩ | ⟨entry, p₁, m₁, he, hp, _⟩ :=
      parseServer_cases text m p
    · rw [he, hp]
      rfl
    rw [he, hp]
    dsimp only
    obtain ⟨m₂, he, hp, _⟩ | ⟨config', m₂, he, hp, _⟩ :=
      appendServer_cases m₁ config entry
    all_goals
      rw [he, hp]
      rfl
  keeps {m config bs} p ht h := by
    have hmem : text ∈ config.owned ++ bs := List.mem_append_right _ ht
    unfold parseEntry
    obtain ⟨m₁, he, _, hk⟩ | ⟨entry, p₁, m₁, he, _, hk⟩ :=
      parseServer_cases text m p
    · rw [he]
      exact hk _ hmem h
    rw [he]
    dsimp only
    obtain ⟨m₂, he, _, hk'⟩ | ⟨config', m₂, he, _, hk'⟩ :=
      appendServer_cases m₁ config entry
    · rw [he]
      exact (hk' _ (hk _ hmem h)).free
    · rw [he]
      exact hk' _ (hk _ hmem h)
  settled _ := parseEntry_settled ..

/-- **`parse_servers`**: what is left of the text if the list is one and is
not empty, the configuration in any case, and the memory. -/
def parseServers (text : ℕ) (m : Memory) (config : OwnedConfig) (p : Bytes) :
    Option Bytes × OwnedConfig × Memory :=
  let m := m.use (some text)
  match expect p openBracket with
  | none => (none, config, m)
  | some p =>
    if (skipSpace p).head? = some closeBracket then (none, config, m)
    else ((entries text).items config (skipSpace p) m).2

/-- The servers are those of the text. -/
theorem parseServers_erase (text : ℕ) (m : Memory) (config : OwnedConfig)
    (p : Bytes) : ChainConfig.parseServers m.heap config.view p
      = erase OwnedConfig.view (parseServers text m config p) := by
  rw [← m.heap_use (some text)]
  unfold ChainConfig.parseServers parseServers
  cases expect p openBracket with
  | none => rfl
  | some p =>
    dsimp only
    by_cases hempty : (skipSpace p).head? = some closeBracket
    · rw [if_pos hempty, if_pos hempty]
      rfl
    · rw [if_neg hempty, if_neg hempty]
      exact (entries text).items_erase config (skipSpace p) _

/-- They are owned by the configuration. -/
theorem parseServers_keeps {text : ℕ} {m : Memory} {config : OwnedConfig}
    {bs : List ℕ} (p : Bytes) (ht : text ∈ bs)
    (h : m.Holds (config.owned ++ bs)) :
    (parseServers text m config p).2.2.Holds
      ((parseServers text m config p).2.1.owned ++ bs) := by
  have hread := h.use (List.mem_append_right config.owned ht)
  unfold parseServers
  dsimp only
  split
  · exact hread
  next p _ =>
  split
  · exact hread
  · have hkeep := (entries text).items_keeps (skipSpace p) ht hread
    rw [(entries text).items_settled_of_parse (parseEntry_settled text)]
      at hkeep
    exact hkeep

/-! ## The configuration -/

/-- What `parse_config` does with a key. The variables are `have_servers` and
the configuration. -/
def configValue (text : ℕ) (m : Memory) (key : OwnedString)
    (s : Bool × OwnedConfig) (p : Bytes) : Option Bytes × (Bool × OwnedConfig) × Memory :=
  if key.bytes = chainServersKey then
    if s.1 = true then (none, s, m)
    else
      match parseServers text m s.2 p with
      | (none, config, m) => (none, (s.1, config), m)
      | (some p, config, m) => (some p, (true, config), m)
  else (none, s, m)

/-- The members of the configuration. -/
def configMembers (text : ℕ) :
    OwnedItems ChainConfig.configMembers text (Bool × OwnedConfig) :=
  members {
    parse := configValue text
    view := fun s => (s.1, s.2.view)
    owned := fun s => s.2.owned
    erases := by
      intro m key s p
      show ChainConfig.configValue m.heap key.bytes _ p = _
      unfold ChainConfig.configValue configValue
      by_cases hkey : key.bytes = chainServersKey
      · rw [if_pos hkey, if_pos hkey]
        by_cases hs : s.1 = true
        · rw [if_pos hs, if_pos hs]
          rfl
        rw [if_neg hs, if_neg hs]
        dsimp only
        rw [parseServers_erase text]
        obtain ⟨_ | p, config, m⟩ := parseServers text m s.2 p
        all_goals rfl
      · rw [if_neg hkey, if_neg hkey]
        rfl
    keeps := by
      intro m s bs key p ht h
      unfold configValue
      split
      · split
        · exact h
        have hkeep := parseServers_keeps p ht h
        revert hkeep
        obtain ⟨_ | p, config, m⟩ := parseServers text m s.2 p
        all_goals exact fun hkeep => hkeep
      · exact h }

/-- **`parse_config`**: whether the text is a configuration, the servers that
have been appended, and the memory. -/
def parseConfig (m : Memory) (text : OwnedString) (config : OwnedConfig) :
    Bool × OwnedConfig × Memory :=
  let m := m.use (some text.block)
  match expect (cString text.bytes) openBrace with
  | none => (false, config, m)
  | some p =>
    match (configMembers text.block).items (false, config) p m with
    | (key, none, s, m) => (false, s.2, m.free key)
    | (key, some p, s, m) =>
      let m := m.use (some text.block)
      if (skipSpace p).headD 0 ≠ 0 ∨ s.1 = false ∨ s.2.entries = [] then
        (false, s.2, m.free key)
      else (true, s.2, m)

/-- **What `parse_config` comes to** is what comes of the text, and the
servers are owned by the configuration. -/
theorem parseConfig_spec (m : Memory) (text : OwnedString)
    (config : OwnedConfig) :
    ∃ ok config' m', parseConfig m text config = (ok, config', m')
      ∧ ChainConfig.parseConfig m.heap (cString text.bytes) config.view
        = (if ok = true then some (config'.view, m'.heap) else none)
      ∧ ∀ bs, text.block ∈ bs → m.Holds (config.owned ++ bs) →
        m'.Holds (config'.owned ++ bs) := by
  have hread : ∀ bs, text.block ∈ bs → m.Holds (config.owned ++ bs) →
      (m.use (some text.block)).Holds (config.owned ++ bs) :=
    fun _ ht h => h.use (List.mem_append_right _ ht)
  rw [← m.heap_use (some text.block)]
  unfold parseConfig ChainConfig.parseConfig
  dsimp only
  generalize m.use (some text.block) = m₁ at hread ⊢
  cases expect (cString text.bytes) openBrace with
  | none => exact ⟨_, _, _, rfl, rfl, hread⟩
  | some p =>
    have herase := (configMembers text.block).items_erase (false, config) p m₁
    have hkeep : ∀ bs, text.block ∈ bs → m₁.Holds (config.owned ++ bs) → _ :=
      fun bs ht h => (configMembers text.block).items_keeps
        (s := (false, config)) p ht h
    have hsettled : ∀ p',
        ((configMembers text.block).items (false, config) p m₁).2.1 = some p' →
          ((configMembers text.block).items (false, config) p m₁).1 = none :=
      fun p' h => (configMembers text.block).items_settled h
    dsimp only
    rw [show ChainConfig.configMembers.loop.run
      ((false, config.view), p, m₁.heap) = _ from herase]
    revert hkeep hsettled
    obtain ⟨key, rest, s, m'⟩ :=
      (configMembers text.block).items (false, config) p m₁
    intro hkeep hsettled
    obtain _ | p' := rest
    · exact ⟨_, _, _, rfl, rfl,
        fun bs ht h => (hkeep bs ht (hread bs ht h)).freeOption⟩
    obtain rfl : key = none := hsettled p' rfl
    have hend : ∀ bs, text.block ∈ bs → m.Holds (config.owned ++ bs) →
        (m'.use (some text.block)).Holds (s.2.owned ++ bs) := by
      intro bs ht h
      have hend : m'.Holds (s.2.owned ++ bs) := hkeep bs ht (hread bs ht h)
      exact hend.use (List.mem_append_right _ ht)
    dsimp only [erase, Option.map]
    have hview : s.2.view = [] ↔ s.2.entries = [] := List.map_eq_nil_iff
    by_cases hbad : (skipSpace p').headD 0 ≠ 0 ∨ s.1 = false
        ∨ s.2.entries = []
    · rw [if_pos hbad]
      rw [← hview] at hbad
      exact ⟨_, _, _, rfl, if_pos hbad, hend⟩
    · rw [if_neg hbad]
      rw [← hview] at hbad
      refine ⟨_, _, _, rfl, (if_neg hbad).trans ?_, hend⟩
      rw [if_pos rfl, Memory.heap_use]
      rfl

/-! ## The file -/

/-- **What reading a file comes to.** -/
inductive FileOutcome where
  /-- It cannot be opened, or its length is not known. -/
  | unavailable
  /-- `fread` returns less than its length. -/
  | short (length : ℕ)
  /-- It is read. -/
  | whole (contents : Bytes)

/-- The contents, where they can be read. -/
def FileOutcome.contents? : FileOutcome → Option Bytes
  | .whole contents => some contents
  | _ => none

/-- **`read_file`.** `fread` stores in the block, and so does the terminator
behind what it has read. -/
def readFile (files : Bytes → FileOutcome) (m : Memory) (path : Bytes) :
    Option OwnedString × Memory :=
  match files path with
  | .unavailable => (none, m)
  | .short length =>
    if sizeMax ≤ length then (none, m)
    else
      match m.malloc (length + 1) with
      | (none, m) => (none, m)
      | (some (block, _), m) =>
        (none, (m.use (some block)).free (some block))
  | .whole contents =>
    if sizeMax ≤ contents.length then (none, m)
    else
      match m.malloc (contents.length + 1) with
      | (none, m) => (none, m)
      | (some (block, text), m) =>
        (some
          ⟨((text.write 0 contents).write contents.length [0]).bytes, block⟩,
          m.use (some block))

/-- **The two ways of `read_file`.** -/
theorem readFile_cases (files : Bytes → FileOutcome) (m : Memory)
    (path : Bytes) :
    (∃ m', readFile files m path = (none, m')
        ∧ (ChainConfig.readFile (fun p => (files p).contents?) m.heap path).1
          = none
        ∧ ∀ bs, m.Holds bs → m'.Holds bs)
      ∨ ∃ text m', readFile files m path = (some text, m')
        ∧ ChainConfig.readFile (fun p => (files p).contents?) m.heap path
          = (some text.bytes, m'.heap)
        ∧ ∀ bs, m.Holds bs → m'.Holds (text.block :: bs) := by
  unfold readFile ChainConfig.readFile
  dsimp only
  cases files path with
  | unavailable => exact .inl ⟨m, rfl, rfl, fun _ h => h⟩
  | short length =>
    dsimp only [FileOutcome.contents?]
    by_cases hlong : sizeMax ≤ length
    · rw [if_pos hlong]
      exact .inl ⟨m, rfl, rfl, fun _ h => h⟩
    rw [if_neg hlong]
    obtain ⟨m', he, _, hk⟩ | ⟨block, _, m', he, _, hk⟩ :=
      m.malloc_cases (length + 1)
    · rw [he]
      exact .inl ⟨m', rfl, rfl, hk⟩
    · rw [he]
      exact .inl ⟨_, rfl, rfl,
        fun bs h => ((hk bs h).use List.mem_cons_self).free⟩
  | whole contents =>
    dsimp only [FileOutcome.contents?]
    by_cases hlong : sizeMax ≤ contents.length
    · rw [if_pos hlong, if_pos hlong]
      exact .inl ⟨m, rfl, rfl, fun _ h => h⟩
    rw [if_neg hlong, if_neg hlong]
    obtain ⟨m', he, hh, hk⟩ | ⟨block, text, m', he, hh, hk⟩ :=
      m.malloc_cases (contents.length + 1)
    · rw [he, hh]
      exact .inl ⟨m', rfl, rfl, hk⟩
    · rw [he, hh, ← m'.heap_use (some block)]
      exact .inr ⟨_, _, rfl, rfl, fun bs h => (hk bs h).use List.mem_cons_self⟩

/-- **`stn_chain_config_close`**: the hosts are freed, and the list they are
in. -/
def close (m : Memory) (config : OwnedConfig) : Memory × OwnedConfig :=
  ((config.entries.foldl (fun m e =>
    (m.use config.servers).free (some e.host.block)) m).free config.servers,
    .zero)

/-- **Closing gives everything back.** -/
theorem close_keeps {m : Memory} {config : OwnedConfig} {bs : List ℕ}
    (h : m.Holds (config.owned ++ bs)) : (close m config).1.Holds bs := by
  obtain ⟨servers, entries, hallocated⟩ := config
  have hhosts : ∀ (es : List OwnedEntry) (m : Memory),
      (es ≠ [] → servers ≠ none) →
      m.Holds (servers.toList ++ (es.map (fun e => e.host.block) ++ bs)) →
      (es.foldl (fun m e => (m.use servers).free (some e.host.block)) m).Holds
        (servers.toList ++ bs) := by
    intro es
    induction es with
    | nil => exact fun m _ h => h
    | cons e es ih =>
      intro m hne h
      obtain ⟨b, rfl⟩ :=
        Option.ne_none_iff_exists'.mp (hne (List.cons_ne_nil e es))
      refine ih _ (fun _ => Option.some_ne_none b) ?_
      refine Memory.Holds.free ?_
      exact (h.use List.mem_cons_self).perm (.swap _ _ _)
  rw [OwnedConfig.owned, List.append_assoc] at h
  exact (hhosts entries m hallocated h).freeOption

/-- **`stn_chain_config_load`**: whether the file could be loaded, the
caller's configuration then, and the memory. -/
def load (files : Bytes → FileOutcome) (m : Memory)
    (config : Option OwnedConfig) (path : Option Bytes) :
    Bool × Option OwnedConfig × Memory :=
  match config, path with
  | some config, some path =>
    match readFile files m path with
    | (none, m) => (false, some config, m)
    | (some text, m) =>
      match parseConfig m text .zero with
      | (false, loaded, m) =>
        (false, some config, (close (m.free (some text.block)) loaded).1)
      | (true, loaded, m) =>
        (true, some loaded, (close (m.free (some text.block)) config).1)
  | _, _ => (false, config, m)

/-- **What is loaded is what comes of the text**, and it replaces what there
was. -/
theorem load_spec (files : Bytes → FileOutcome) (m : Memory)
    (config : OwnedConfig) (path : Option Bytes) :
    ∃ ok config' m', load files m (some config) path = (ok, some config', m')
      ∧ ChainConfig.load (fun p => (files p).contents?) m.heap
        (some config.view) path = (ok, some config'.view)
      ∧ ∀ bs, m.Holds (config.owned ++ bs) →
        m'.Holds (config'.owned ++ bs) := by
  cases path with
  | none => exact ⟨_, _, _, rfl, rfl, fun _ h => h⟩
  | some path =>
    unfold load ChainConfig.load
    dsimp only
    obtain ⟨m₁, he, hp, hk⟩ | ⟨text, m₁, he, hp, hk⟩ :=
      readFile_cases files m path
    · rw [he]
      refine ⟨_, _, _, rfl, ?_, fun bs h => hk _ h⟩
      split
      · rfl
      next hr => cases hp.symm.trans (congrArg Prod.fst hr)
    rw [he, hp]
    dsimp only
    obtain ⟨ok, loaded, m₂, he, hp, hk'⟩ :=
      parseConfig_spec m₁ text .zero
    rw [he, show ChainConfig.parseConfig m₁.heap (cString text.bytes) [] = _
      from hp]
    cases ok with
    | false =>
      refine ⟨_, _, _, rfl, rfl, fun bs h => close_keeps ?_⟩
      have hloaded := hk' _ List.mem_cons_self (hk _ h)
      exact (hloaded.perm List.perm_middle).free
    | true =>
      refine ⟨_, _, _, rfl, rfl, fun bs h => close_keeps ?_⟩
      have hloaded := hk' _ List.mem_cons_self (hk _ h)
      exact ((hloaded.perm List.perm_middle).free).perm
        (List.perm_append_comm_assoc _ _ _)

/-! ## Everything is given back -/

/-- **What can be done with a configuration.** The files may be others at any
time. -/
inductive ConfigAction where
  /-- `stn_chain_config_load`. -/
  | load (files : Bytes → FileOutcome) (path : Option Bytes)
  /-- `stn_chain_config_close`. -/
  | close

/-- **A configuration and its memory as a machine.** -/
def machine : Machine (Memory × OwnedConfig) ConfigAction where
  Start s := ∃ heap, s = (.fresh heap, .zero)
  act s
    | .load files path =>
      let r := load files s.1 (some s.2) path
      (r.2.2, r.2.1.getD s.2)
    | .close => close s.1 s.2

/-- **The blocks that are live are those of the configuration**, whatever has
been loaded, whatever has failed and why, and however often. Each of them is
live once; no block has been freed twice, and none was used that was not live.
What is loaded next is what comes of the text for the parser without blocks,
and closing gives everything back. -/
theorem config_memory (heap : Heap) (as : List ConfigAction)
    (files : Bytes → FileOutcome) (path : Option Bytes) :
    let s := machine.run (.fresh heap, .zero) as
    s.1.Holds s.2.owned
      ∧ (∃ ok config m, load files s.1 (some s.2) path = (ok, some config, m)
        ∧ ChainConfig.load (fun p => (files p).contents?) s.1.heap
          (some s.2.view) path = (ok, some config.view))
      ∧ (close s.1 s.2).1.Holds [] := by
  have hholds : ∀ s : Memory × OwnedConfig, s.1.Holds s.2.owned →
      ∀ a, (machine.act s a).1.Holds (machine.act s a).2.owned := by
    intro s h a
    rw [← List.append_nil s.2.owned] at h
    cases a with
    | load files path =>
      obtain ⟨ok, config, m, he, _, hk⟩ := load_spec files s.1 s.2 path
      have hkept := hk [] h
      rw [List.append_nil] at hkept
      show (load files s.1 (some s.2) path).2.2.Holds
        ((load files s.1 (some s.2) path).2.1.getD s.2).owned
      rw [he]
      exact hkept
    | close => exact close_keeps h
  intro s
  have hs : s.1.Holds s.2.owned := by
    refine machine.run_induction (P := fun s => s.1.Holds s.2.owned)
      (fun s a h => hholds s h a) ?_ as
    exact Memory.holds_fresh heap
  refine ⟨hs, ?_, close_keeps (by rwa [List.append_nil])⟩
  obtain ⟨ok, config, m, he, hp, _⟩ := load_spec files s.1 s.2 path
  exact ⟨ok, config, m, he, hp⟩

end ConfigMemory
