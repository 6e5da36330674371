import StnStratum.ConfigGrammar
import StnStratum.Json
import StnStratum.StatusReply

/-!
# What the status document says

The document is printed with one format, and the host goes into it as it is,
between two quotes. The host comes from the configuration, whose strings may
have escapes in them: any string that is not empty and has no terminator in it
can be loaded (`loadable_iff`).

So the document is an object that says what the status is exactly where the
host needs no escapes (`status_document`). A host that needs some is printed
without them: whatever the text says then, if it is an object at all, it is not
that the host is this one.
-/

namespace ChainConfig

open Scanner (Token Lexicon)

/-! ## The hosts that are loaded -/

/-- **A host that can be loaded**: the one of a server of some file. -/
def Loadable (host : Bytes) : Prop :=
  ∃ files heap config path servers,
    load files heap config path = (true, some servers)
      ∧ ∃ entry ∈ servers, entry.host = host

theorem ServerTokens.host_mem {entry : ChainConfigEntry}
    {ts : List (Token UInt8 Value)} (h : ServerTokens entry ts) :
    entry.host ≠ [] ∧ .value (.string entry.host) ∈ ts := by
  cases h with
  | hostFirst hh _ _ => exact ⟨hh, by simp [memberTokens]⟩
  | portFirst hh _ _ => exact ⟨hh, by simp [memberTokens]⟩

/-- **The host of every server** is one of the strings of the text. -/
theorem ServersTokens.host_mem {servers : List ChainConfigEntry}
    {ts : List (Token UInt8 Value)} (h : ServersTokens servers ts)
    {entry : ChainConfigEntry} (he : entry ∈ servers) :
    entry.host ≠ [] ∧ .value (.string entry.host) ∈ ts := by
  induction h with
  | one h =>
    rw [List.mem_singleton.mp he]
    exact h.host_mem
  | more h _ ih =>
    rcases List.mem_cons.mp he with rfl | he
    · exact h.host_mem.imp_right (List.mem_append_left _)
    · exact (ih he).imp_right fun hm =>
        List.mem_append_right _ (List.mem_cons_of_mem _ hm)

/-- What is loaded is not empty, and has no terminator in it. -/
theorem Loadable.spelled {host : Bytes} (h : Loadable host) :
    host ≠ [] ∧ 0 ∉ host := by
  obtain ⟨files, heap, config, path, servers, hload, entry, he, rfl⟩ := h
  rcases load_cases files heap config path with hc | ⟨p, contents, servers', _, _, hd, hc⟩
  · rw [hc] at hload
    exact absurd (Prod.mk.inj hload).1 Bool.false_ne_true
  · obtain rfl : servers' = servers :=
      Option.some.inj (Prod.mk.inj (hc.symm.trans hload)).2
    obtain ⟨ts, last, rest, hts, hr, _⟩ := hd
    obtain ⟨hne, hm⟩ := hts.host_mem he
    obtain ⟨_, body, hbody, _⟩ := hr.exists_raw (t := .value (.string entry.host))
      (by simp [configTokens, memberTokens, hm])
    exact ⟨hne, hbody.zero_not_mem⟩

/-- A string with a backslash in front of each quote and each backslash. -/
def spelling (v : Bytes) : Bytes :=
  v.flatMap fun b =>
    if b = quote ∨ b = backslash then [backslash, b] else [b]

theorem body_spelling {v : Bytes} (hz : 0 ∉ v) :
    StringBody (spelling v) v := by
  induction v with
  | nil => exact .nil
  | cons b v ih =>
    rw [List.mem_cons, not_or] at hz
    have ih := ih hz.2
    rw [spelling, List.flatMap_cons]
    split
    next h =>
      refine .escape ?_ ih
      rcases h with rfl | rfl
      · decide
      · decide
    next h =>
      rw [not_or] at h
      exact .plain (Ne.symm hz.1) h.1 h.2 ih

theorem length_spelling_le (v : Bytes) :
    (spelling v).length ≤ 2 * v.length := by
  induction v with
  | nil => exact le_rfl
  | cons b v ih =>
    rw [spelling, List.flatMap_cons, List.length_append, List.length_cons]
    have : (if b = quote ∨ b = backslash then [backslash, b] else [b]).length
        ≤ 2 := by split <;> simp
    have hs : (v.flatMap fun b => if b = quote ∨ b = backslash
      then [backslash, b] else [b]).length ≤ 2 * v.length := ih
    omega

theorem zero_not_mem_spelling {v : Bytes} (hz : 0 ∉ v) : 0 ∉ spelling v := by
  intro hm
  obtain ⟨b, hb, hm⟩ := List.mem_flatMap.mp hm
  have hne : b ≠ 0 := fun h => hz (h ▸ hb)
  split at hm
  · rcases List.mem_cons.mp hm with h | h
    · exact absurd h (by decide)
    · exact hne (List.mem_singleton.mp h).symm
  · exact hne (List.mem_singleton.mp hm).symm

/-- The spellings of the tokens of a configuration with one server, which has
this host. -/
def serverFile (host : Bytes) : List Bytes :=
  [[openBrace], quote :: (chainServersKey ++ [quote]), [colon], [openBracket],
    [openBrace], quote :: (hostKey ++ [quote]), [colon],
    quote :: (spelling host ++ [quote]), [comma], quote :: (portKey ++ [quote]),
    [colon], [0x37], [closeBrace], [closeBracket], [closeBrace]]

theorem denotes_serverFile {host : Bytes} (hne : host ≠ []) (hz : 0 ∉ host) :
    Denotes (serverFile host).flatten [⟨host, 7⟩] := by
  have hport : lexicon.Raw (.value (.number (7 : UInt16).toNat)) [0x37] :=
    ⟨by decide, List.forall_mem_singleton.mpr (by decide), rfl⟩
  have hhost : lexicon.Raw (.value (.string host))
      (quote :: (spelling host ++ [quote])) := ⟨_, body_spelling hz, rfl⟩
  have hserver : ServerTokens ⟨host, 7⟩ _ := .hostFirst hne
    (show (7 : UInt16) ≠ 0 by decide) false
  refine ⟨_, false, [], .one hserver, ?_, nofun⟩
  rw [← List.append_nil (serverFile host).flatten]
  refine Lexicon.reads_of_raws ?_ _
  exact .cons (raw_mark (by decide)) (.cons (raw_string (by decide))
    (.cons (raw_mark (by decide)) (.cons (raw_mark (by decide))
    (.cons (raw_mark (by decide)) (.cons (raw_string (by decide))
    (.cons (raw_mark (by decide)) (.cons hhost
    (.cons (raw_mark (by decide)) (.cons (raw_string (by decide))
    (.cons (raw_mark (by decide)) (.cons hport
    (.cons (raw_mark (by decide)) (.cons (raw_mark (by decide))
    (.cons (raw_mark (by decide)) .nil))))))))))))))

/-- **What can be loaded** is any string that is not empty and has no
terminator in it, as long as it has a size with its escapes. -/
theorem loadable_iff {host : Bytes} (hsize : 2 * host.length + 64 < sizeMax) :
    Loadable host ↔ host ≠ [] ∧ 0 ∉ host := by
  refine ⟨Loadable.spelled, ?_⟩
  rintro ⟨hne, hz⟩
  have hlen : (serverFile host).flatten.length < sizeMax := by
    have := length_spelling_le host
    simp only [serverFile, chainServersKey, hostKey, portKey,
      List.flatten_cons, List.flatten_nil, List.length_append, List.length_cons,
      List.length_nil]
    omega
  have hzf : 0 ∉ (serverFile host).flatten := by
    have hq : 0 ∉ quote :: (spelling host ++ [quote]) := by
      rw [List.mem_cons, List.mem_append, not_or, not_or]
      exact ⟨by decide, zero_not_mem_spelling hz, by decide⟩
    have hall : ∀ raw ∈ serverFile host, 0 ∉ raw := by
      simp only [serverFile, List.forall_mem_cons]
      exact ⟨by decide, by decide, by decide, by decide, by decide, by decide,
        by decide, hq, by decide, by decide, by decide, by decide, by decide,
        by decide, by decide, List.forall_mem_nil _⟩
    intro hm
    obtain ⟨raw, hr, hm⟩ := List.mem_flatten.mp hm
    exact hall raw hr hm
  have hc : cString (serverFile host).flatten = (serverFile host).flatten :=
    List.takeWhile_eq_self_iff.mpr fun b hb =>
      bne_iff_ne.mpr fun h : b = 0 => hzf (h ▸ hb)
  refine ⟨fun _ => some (serverFile host).flatten, ⟨[], fun _ => 0⟩, some [],
    some [], [⟨host, 7⟩], ?_, ⟨host, 7⟩, List.mem_singleton_self _, rfl⟩
  exact load_of_denotes rfl hlen List.not_mem_nil
    (hc.symm ▸ denotes_serverFile hne hz)

end ChainConfig

namespace Telemetry

open ChainConfig (cString Loadable)
open Json (Field PlainText membersText fieldMembers)

/-! ## The document as an object -/

section Document

variable {status : TelemetryStatus} {host job base target : Bytes}

/-- The members in front of the host. -/
def frontFields (status : TelemetryStatus) : List Field :=
  [.ofString (ascii "service") (ascii "STN-Stratum"),
    .ofString (ascii "status") (ascii "running"),
    .ofBool (ascii "chain_connected") (status.chainConnected ≠ 0)]

/-- The members behind the port. -/
def backFields (status : TelemetryStatus) (job base target : Bytes) :
    List Field :=
  [.ofBool (ascii "work_available") (status.workAvailable ≠ 0),
    .ofNat (ascii "miners") status.miners.toNat,
    .ofNat (ascii "hashrate") status.hashrate.toNat,
    .ofString (ascii "job_id") job, .ofString (ascii "base_id") base,
    .ofString (ascii "target") target,
    .ofNat (ascii "uptime_seconds") status.uptimeSeconds.toNat]

/-- **The members of the document**, as far as they are what they look like. -/
def fields (status : TelemetryStatus) (host job base target : Bytes) :
    List Field :=
  frontFields status ++ .ofString (ascii "chain_host") host
    :: .ofNat (ascii "chain_port") status.chainPort.toNat
    :: backFields status job base target

set_option maxRecDepth 1024 in
/-- **The document is printed** as these members. -/
theorem print_statusFormat (status : TelemetryStatus)
    (host job base target : Bytes) :
    Printf.print (statusFormat status host job base target)
      = Json.openBrace
        :: (membersText (fields status host job base target) ++ [0x0a]) := by
  have hbool : ∀ value : Int32, boolText value
      = if decide (value ≠ 0) = true then ascii "true" else ascii "false" := by
    intro value
    simp only [boolText, decide_eq_true_eq]
  simp only [fields, frontFields, backFields, List.cons_append,
    List.nil_append, membersText, Json.memberText, Field.ofString, Field.ofBool,
    Field.ofNat, List.append_assoc, statusFormat, Printf.print_cons,
    Printf.print_nil, Printf.Piece.bytes, hbool]
  rfl

theorem statusText_eq (hh : status.chainHost = some host)
    (hj : status.jobId = some job) (hb : status.baseId = some base)
    (ht : status.target = some target) : statusText status
      = Json.openBrace
        :: (membersText (fields status host job base target) ++ [0x0a]) := by
  rw [statusText, hh, hj, hb, ht]
  exact print_statusFormat status host job base target

/-! ## What a document says -/

/-- **What is said of a status**: its host, its numbers and its truth values. -/
structure Says (status : TelemetryStatus) (host : Bytes)
    (ms : List (Bytes × Json.Value)) : Prop where
  /-- `chain_connected`. -/
  chainConnected : (ascii "chain_connected",
    .scalar (.bool (status.chainConnected ≠ 0))) ∈ ms
  /-- `chain_host`. -/
  chainHost : (ascii "chain_host", .scalar (.string host)) ∈ ms
  /-- `chain_port`. -/
  chainPort : (ascii "chain_port", .scalar (.number status.chainPort.toNat)) ∈ ms
  /-- `work_available`. -/
  workAvailable : (ascii "work_available",
    .scalar (.bool (status.workAvailable ≠ 0))) ∈ ms
  /-- `miners`. -/
  miners : (ascii "miners", .scalar (.number status.miners.toNat)) ∈ ms
  /-- `hashrate`. -/
  hashrate : (ascii "hashrate", .scalar (.number status.hashrate.toNat)) ∈ ms
  /-- `uptime_seconds`. -/
  uptimeSeconds : (ascii "uptime_seconds",
    .scalar (.number status.uptimeSeconds.toNat)) ∈ ms

/-- **A text that reports a status**: an object, with every key once, that says
what the status is. -/
def Reports (status : TelemetryStatus) (host text : Bytes) : Prop :=
  ∃ ms, Json.Text text (.object ms) ∧ (ms.map Prod.fst).Nodup
    ∧ Says status host ms

/-- A digit needs no escape. -/
theorem plain_of_hexadecimal {v : Bytes} (h : Hex.Hexadecimal v) :
    PlainText v := by
  intro b hb
  replace h := h b hb
  have h₁ : (0x20 : UInt8).toNat = 32 := rfl
  have h₂ : Json.quote.toNat = 34 := rfl
  have h₃ : Json.backslash.toNat = 92 := rfl
  have h₄ : (0x30 : UInt8).toNat = 48 := rfl
  have h₅ : (0x39 : UInt8).toNat = 57 := rfl
  have h₆ : (0x61 : UInt8).toNat = 97 := rfl
  have h₇ : (0x41 : UInt8).toNat = 65 := rfl
  have h₈ : (0x46 : UInt8).toNat = 70 := rfl
  unfold Json.Plain
  rw [UInt8.le_iff_toNat_le, Ne, Ne, ← UInt8.toNat_inj, ← UInt8.toNat_inj]
  unfold Hex.value? at h
  simp only [UInt8.le_iff_toNat_le] at h
  split_ifs at h
  · omega
  · omega
  · omega
  · cases h

theorem frontFields_fixed : ∀ f ∈ frontFields status, f.Fixed := by
  simp only [frontFields, List.forall_mem_cons]
  exact ⟨Field.fixed_ofString (by decide) (by decide),
    Field.fixed_ofString (by decide) (by decide),
    Field.fixed_ofBool (by decide) _, nofun⟩

/-- The members are what they look like, if the strings need no escapes. -/
theorem fields_ok (hhost : PlainText host) (hjob : PlainText job)
    (hbase : PlainText base) (htarget : PlainText target) :
    ∀ f ∈ fields status host job base target, f.Ok := by
  simp only [fields, frontFields, backFields, List.cons_append,
    List.nil_append, List.forall_mem_cons]
  exact ⟨Field.ok_ofString (by decide) (by decide),
    Field.ok_ofString (by decide) (by decide),
    Field.ok_ofBool (by decide) _, Field.ok_ofString (by decide) hhost,
    Field.ok_ofNat (by decide) _, Field.ok_ofBool (by decide) _,
    Field.ok_ofNat (by decide) _, Field.ok_ofNat (by decide) _,
    Field.ok_ofString (by decide) hjob, Field.ok_ofString (by decide) hbase,
    Field.ok_ofString (by decide) htarget, Field.ok_ofNat (by decide) _, nofun⟩

/-- **The members say what the status is**, each of them once. -/
theorem says_fields : Says status host
    (fieldMembers (fields status host job base target)) := by
  constructor <;>
  · simp [fields, frontFields, backFields, fieldMembers, Field.ofString,
      Field.ofBool, Field.ofNat]

/-- **Only a host that needs no escapes is reported.** -/
theorem plain_of_reports
    (h : Reports status host (Json.openBrace
      :: (membersText (fields status host job base target) ++ [0x0a]))) :
    PlainText host := by
  obtain ⟨ms, htext, hnodup, hsays⟩ := h
  exact htext.plain_of_mem frontFields_fixed (by decide) hnodup hsays.chainHost

/-- **Such a host is reported**, with its ids in hexadecimal. -/
theorem reports_of_plain (hhost : PlainText host) (hjob : PlainText job)
    (hbase : PlainText base) (htarget : PlainText target) :
    Reports status host (Json.openBrace
      :: (membersText (fields status host job base target) ++ [0x0a])) := by
  refine ⟨_, Json.text_object (List.cons_ne_nil _ _)
    (fields_ok hhost hjob hbase htarget)
    (List.forall_mem_singleton.mpr (by decide)), ?_, says_fields⟩
  show [ascii "service", ascii "status", ascii "chain_connected",
    ascii "chain_host", ascii "chain_port", ascii "work_available",
    ascii "miners", ascii "hashrate", ascii "job_id", ascii "base_id",
    ascii "target", ascii "uptime_seconds"].Nodup
  decide

/-- There is no terminator in a string that needs no escapes. -/
theorem zero_not_mem_of_plain {v : Bytes} (h : PlainText v) : 0 ∉ v :=
  fun hm => absurd (h 0 hm).1 (by decide)

/-- There is room for the document in the buffer of the reply, if the host and
the ids fit the arrays of a snapshot. -/
theorem length_statusText_lt_bodySize (hh : status.chainHost = some host)
    (hj : status.jobId = some job) (hb : status.baseId = some base)
    (ht : status.target = some target) (hhost : host.length < telemetryHostSize)
    (hjob : job.length < telemetryHexSize)
    (hbase : base.length < telemetryHexSize)
    (htarget : target.length < telemetryHexSize) :
    (statusText status).length < bodySize := by
  have hlt := length_statusFormat_lt status host job base target
  rw [statusText_eq hh hj hb ht, ← print_statusFormat]
  unfold telemetryHostSize at hhost
  unfold telemetryHexSize at hjob hbase htarget
  unfold bodySize
  omega

section Printed

variable {n : ℕ} (hh : status.chainHost = some host)
  (hj : status.jobId = some job) (hb : status.baseId = some base)
  (ht : status.target = some target) (hz : 0 ∉ host)
  (hjob : Hex.Hexadecimal job) (hbase : Hex.Hexadecimal base)
  (htarget : Hex.Hexadecimal target) (output : Buf n)
  (hn : (statusText status).length < n)
  (hi : (statusText status).length ≤ Printf.intMax)

include hh hj hb ht hz hjob hbase htarget hn hi

/-- **The document is what is printed**, if there is room for it. -/
theorem statusJson_document :
    ∃ output', statusJson (some status) (some output)
        = (((cString output'.bytes).length : ℤ), some output')
      ∧ cString output'.bytes = Json.openBrace
        :: (membersText (fields status host job base target) ++ [0x0a]) := by
  obtain ⟨output', he, hbegins⟩ := statusJson_eq hh hj hb ht output hn hi
  have htext := statusText_eq hh hj hb ht
  have hc : cString output'.bytes = statusText status := by
    refine ChainConfig.cString_of_begins hbegins ?_
    rw [htext, ← print_statusFormat]
    exact zero_not_mem_statusFormat status host job base target hz
      (zero_not_mem_of_plain (plain_of_hexadecimal hjob))
      (zero_not_mem_of_plain (plain_of_hexadecimal hbase))
      (zero_not_mem_of_plain (plain_of_hexadecimal htarget))
  exact ⟨output', by rw [hc, he], by rw [hc, htext]⟩

/-- So there are no escapes left out of a document that reports its host. -/
theorem plain_of_statusJson {output' : Buf n} {length : ℤ}
    (he : statusJson (some status) (some output) = (length, some output'))
    (hr : Reports status host (cString output'.bytes)) :
    PlainText host := by
  obtain ⟨output'', he', hc⟩ := statusJson_document hh hj hb ht hz hjob hbase
    htarget output hn hi
  obtain rfl : output'' = output' :=
    Option.some.inj (Prod.mk.inj (he'.symm.trans he)).2
  exact plain_of_reports (hc ▸ hr)

end Printed

end Document

/-- **The document reports the status exactly where the host needs no
escapes.** For every status whose host can be loaded and whose ids are in
hexadecimal, and every buffer with room for the text, the text is one object
with every key once, and says the host, the numbers and the truth values of the
status, if and only if there is no quote, no backslash and no control character
in the host. -/
theorem status_document {n : ℕ} (status : TelemetryStatus)
    (host job base target : Bytes) (hh : status.chainHost = some host)
    (hj : status.jobId = some job) (hb : status.baseId = some base)
    (ht : status.target = some target) (hl : Loadable host)
    (hjob : Hex.Hexadecimal job) (hbase : Hex.Hexadecimal base)
    (htarget : Hex.Hexadecimal target) (output : Buf n)
    (hn : (statusText status).length < n)
    (hi : (statusText status).length ≤ Printf.intMax) :
    (∃ output', statusJson (some status) (some output)
        = (((cString output'.bytes).length : ℤ), some output')
      ∧ Reports status host (cString output'.bytes))
      ↔ PlainText host := by
  constructor
  · rintro ⟨output', he, hr⟩
    exact plain_of_statusJson hh hj hb ht hl.spelled.2 hjob hbase htarget output
      hn hi he hr
  · intro hhost
    obtain ⟨output', he, hc⟩ := statusJson_document hh hj hb ht hl.spelled.2
      hjob hbase htarget output hn hi
    refine ⟨output', he, ?_⟩
    rw [hc]
    exact reports_of_plain hhost (plain_of_hexadecimal hjob)
      (plain_of_hexadecimal hbase) (plain_of_hexadecimal htarget)

/-- A status with this host, and a zero for every id. -/
def idleStatus (host : Bytes) : TelemetryStatus where
  chainConnected := 1
  chainHost := some host
  chainPort := 7
  workAvailable := 0
  miners := 0
  hashrate := 0
  jobId := some (List.replicate 64 0x30)
  baseId := some (List.replicate 64 0x30)
  target := some (List.replicate 64 0x30)
  uptimeSeconds := 60

/-- There is room for it, and it has a size. -/
theorem room_idleStatus {host : Bytes} (h : host.length < telemetryHostSize) :
    (statusText (idleStatus host)).length < bodySize
      ∧ (statusText (idleStatus host)).length ≤ Printf.intMax := by
  have hhost : (idleStatus host).chainHost = some host := rfl
  have hlt := length_statusText_lt_bodySize hhost rfl rfl rfl h (by decide)
    (by decide) (by decide)
  exact ⟨hlt, hlt.le.trans (by decide)⟩

/-- An address is reported. -/
theorem status_document_address :
    ∃ output', statusJson (some (idleStatus (ascii "127.0.0.1")))
        (some (Buf.zero bodySize))
        = (((cString output'.bytes).length : ℤ), some output')
      ∧ Reports (idleStatus (ascii "127.0.0.1")) (ascii "127.0.0.1")
        (cString output'.bytes) :=
  (status_document _ _ _ _ _ rfl rfl rfl rfl
    ((ChainConfig.loadable_iff (by decide)).mpr (by decide)) (by decide)
    (by decide) (by decide) _ (room_idleStatus (by decide)).1
    (room_idleStatus (by decide)).2).mpr (by decide)

/-- **A quote is loaded and not reported**: what is printed for it is no object
that says that it is the host. -/
theorem status_document_quote :
    Loadable [Json.quote]
      ∧ (idleStatus [Json.quote]).chainHost = some [Json.quote]
      ∧ Hex.Hexadecimal (List.replicate 64 0x30)
      ∧ (statusText (idleStatus [Json.quote])).length < bodySize
      ∧ ¬ ∃ output', statusJson (some (idleStatus [Json.quote]))
          (some (Buf.zero bodySize))
          = (((cString output'.bytes).length : ℤ), some output')
        ∧ Reports (idleStatus [Json.quote]) [Json.quote]
          (cString output'.bytes) := by
  have hl : Loadable [Json.quote] :=
    (ChainConfig.loadable_iff (by decide)).mpr (by decide)
  have hhost : (idleStatus [Json.quote]).chainHost = some [Json.quote] := rfl
  have hlen : [Json.quote].length < telemetryHostSize := by decide
  obtain ⟨hn, hi⟩ := room_idleStatus hlen
  refine ⟨hl, hhost, by decide, hn, ?_⟩
  rintro ⟨output', he, hr⟩
  have hplain := plain_of_statusJson hhost rfl rfl rfl hl.spelled.2 (by decide)
    (by decide) (by decide) _ hn hi he hr
  exact absurd (hplain _ List.mem_cons_self).2.1 (not_not.mpr rfl)

end Telemetry
