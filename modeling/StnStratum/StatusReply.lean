import StnStratum.ChainConfig
import StnStratum.Http
import StnStratum.TelemetrySnapshot

/-!
# The reply to a status request

The telemetry worker answers from a snapshot. `stn_telemetry_status_json`
prints the document, `stn_telemetry_http_response` prints a head and the
document behind it, and `prepare_response` prints that into the client or
copies the other reply, which has no body.

Both prints have a buffer of their own, of 2048 and of 4096 bytes, and fail
where it is too small. What a snapshot holds is bounded by the sizes of its
fields, and the longest document is well below both (`length_statusText_lt`),
so neither ever fails (`status_reply`).
-/

/-- **A snapshot whose texts are strings**: each of its arrays has a terminating
zero in it. -/
structure TelemetrySnapshot.Held (s : TelemetrySnapshot) : Prop where
  /-- `chain_host` is a string. -/
  chainHost : 0 ∈ s.chainHost.bytes
  /-- `job_id` is one. -/
  jobId : 0 ∈ s.jobId.bytes
  /-- `base_id` is one. -/
  baseId : 0 ∈ s.baseId.bytes
  /-- `target` is one. -/
  target : 0 ∈ s.target.bytes

namespace Telemetry

open ChainConfig (cString)
open Printf (Piece print snprintf decimal)
open Http (message head)

/-- `STN_TELEMETRY_HTTP_REQUEST_SIZE`. -/
abbrev requestSize : ℕ := 1024
/-- `STN_TELEMETRY_HTTP_RESPONSE_SIZE`. -/
abbrev responseSize : ℕ := 4096
/-- The size of `body`. -/
abbrev bodySize : ℕ := 2048

/-! ## The document -/

/-- `true` or `false`. -/
def boolText (value : Int32) : Bytes :=
  if value ≠ 0 then ascii "true" else ascii "false"

/-- The format of the document, with its arguments. -/
def statusFormat (status : TelemetryStatus) (host job base target : Bytes) :
    List Piece :=
  [.text (ascii "\x7b\"service\":\"STN-Stratum\",\"status\":\"running\","),
    .text (ascii "\"chain_connected\":"), .string (boolText status.chainConnected),
    .text (ascii ",\"chain_host\":\""), .string host,
    .text (ascii "\",\"chain_port\":"), .number status.chainPort.toNat,
    .text (ascii ",\"work_available\":"), .string (boolText status.workAvailable),
    .text (ascii ",\"miners\":"), .number status.miners.toNat,
    .text (ascii ",\"hashrate\":"), .number status.hashrate.toNat,
    .text (ascii ",\"job_id\":\""), .string job,
    .text (ascii "\",\"base_id\":\""), .string base,
    .text (ascii "\",\"target\":\""), .string target,
    .text (ascii "\",\"uptime_seconds\":"), .number status.uptimeSeconds.toNat,
    .text (ascii "\x7d\n")]

/-- **`stn_telemetry_status_json`**: what it returns, and the caller's buffer
behind the call. -/
def statusJson {n : ℕ} (status : Option TelemetryStatus)
    (output : Option (Buf n)) : ℤ × Option (Buf n) :=
  match status, output with
  | some status, some output =>
    if n = 0 then (0, some output)
    else
      match status.chainHost, status.jobId, status.baseId, status.target with
      | some host, some job, some base, some target =>
        let r := snprintf output (statusFormat status host job base target)
        if r.1 < 0 ∨ n ≤ r.1 then (0, some r.2) else (r.1, some r.2)
      | _, _, _, _ => (0, some output)
  | _, output => (0, output)

/-! ## The replies -/

/-- The format of the reply, with its arguments. -/
def responseFormat (bodyLength : ℕ) (body : Bytes) : List Piece :=
  [.text (ascii "HTTP/1.1 200 OK\r\n"),
    .text (ascii "Content-Type: application/json\r\n"),
    .text (ascii "Content-Length: "), .number bodyLength,
    .text (ascii "\r\nCache-Control: no-store\r\n"),
    .text (ascii "Connection: close\r\n\r\n"), .string body]

/-- **`stn_telemetry_http_response`**: what it returns, and the caller's buffer
behind the call. The heap is for the contents of `body` before it is
printed in. -/
def httpResponse {n : ℕ} (heap : Heap) (status : Option TelemetryStatus)
    (output : Option (Buf n)) : ℤ × Option (Buf n) :=
  match output with
  | none => (0, none)
  | some output =>
    if n = 0 then (0, some output)
    else
      match statusJson status (some (heap.uninit bodySize)) with
      | (_, none) => (0, some output)
      | (bodyLength, some body) =>
        if bodyLength ≤ 0 then (0, some output)
        else
          let r := snprintf output
            (responseFormat bodyLength.toNat (cString body.bytes))
          if r.1 < 0 ∨ n ≤ r.1 then (0, some r.2) else (r.1, some r.2)

/-- `not_found`. -/
def notFound : Bytes :=
  ascii "HTTP/1.1 404 Not Found\r\nContent-Length: 0\r\nConnection: close\r\n\r\n"

/-- `status_request`. -/
def statusRequest : Bytes := ascii "GET /status "
/-- `root_request`. -/
def rootRequest : Bytes := ascii "GET / "

/-- **`stn_telemetry_request_valid`.** -/
def requestValid (request : Option Bytes) (requestLength : ℕ) : Bool :=
  match request with
  | none => false
  | some request =>
    if requestLength = 0 then false
    else if statusRequest.length ≤ requestLength
        ∧ request.take statusRequest.length = statusRequest then true
    else if rootRequest.length ≤ requestLength
        ∧ request.take rootRequest.length = rootRequest then true
    else false

/-- **`stn_telemetry_client`**, without its socket and its place in the list. -/
structure Client where
  /-- `request`. -/
  request : Buf requestSize
  /-- `request_length`. -/
  requestLength : ℕ
  /-- `response`. -/
  response : Buf responseSize
  /-- `response_length`. -/
  responseLength : ℕ
  /-- `response_sent`. -/
  responseSent : ℕ
  /-- `connected_at`. -/
  connectedAt : ℤ

/-- **`prepare_response`.** -/
def prepareResponse (heap : Heap) (client : Client)
    (status : Option TelemetryStatus) : Bool × Client :=
  if requestValid (some client.request.bytes) client.requestLength = true then
    let r := httpResponse heap status (some client.response)
    let client := { client with response := r.2.getD client.response }
    if r.1 ≤ 0 then (false, client)
    else (true, { client with responseLength := r.1.toNat, responseSent := 0 })
  else
    (true, { client with response := client.response.write 0 notFound
                         responseLength := notFound.length
                         responseSent := 0 })

end Telemetry

/-! ## What a snapshot holds -/

theorem terminated_copyText {n : ℕ} (hn : 0 < n) (output : Buf n)
    (input : Option Bytes) : 0 ∈ (copyText output input).bytes := by
  have hw : ∀ (b : Buf n) (i : ℕ), i < n → 0 ∈ (b.write i [0]).bytes := by
    intro b i hi
    rw [Buf.write_bytes (by rw [List.length_singleton]; omega)]
    exact List.mem_append_left _
      (List.mem_append_right _ List.mem_cons_self)
  unfold copyText
  rw [if_neg (by omega)]
  cases input with
  | none => exact hw _ _ hn
  | some s =>
    refine hw _ _ ?_
    split <;> omega

/-- **Every snapshot of the service holds strings.** -/
theorem held_foldl_snapshotPublish (published : List TelemetryStatus) :
    (published.foldl snapshotPublish .zero).Held := by
  induction published using List.reverseRecOn with
  | nil => exact ⟨by decide, by decide, by decide, by decide⟩
  | append_singleton published status _ =>
    rw [List.foldl_append]
    exact ⟨terminated_copyText (by decide) _ _,
      terminated_copyText (by decide) _ _, terminated_copyText (by decide) _ _,
      terminated_copyText (by decide) _ _⟩

/-- So does the one that the worker is given, as long as it is whole. -/
theorem held_of_returned
    {s : Seqlock.State TelemetrySnapshot TelemetryStatus 32}
    (h : (telemetry.machine 32).Start s)
    {as : List (Seqlock.Action TelemetrySnapshot TelemetryStatus 32)}
    (hpace : ∀ bs, bs <+: as → ((telemetry.machine 32).run s bs).Unhurried)
    {snapshot : TelemetrySnapshot}
    (hret : ((telemetry.machine 32).run s as).reader = .returned snapshot) :
    snapshot.Held := by
  obtain ⟨k, _, he⟩ := Seqlock.returned_whole (by decide) h hpace hret
  rw [he, Seqlock.after, publish_telemetry]
  exact held_foldl_snapshotPublish _

/-- The status that `network_tick` makes of a snapshot. -/
def TelemetrySnapshot.toStatus (s : TelemetrySnapshot) : TelemetryStatus where
  chainConnected := s.chainConnected
  chainHost := some (ChainConfig.cString s.chainHost.bytes)
  chainPort := s.chainPort
  workAvailable := s.workAvailable
  miners := s.miners
  hashrate := s.hashrate
  jobId := some (ChainConfig.cString s.jobId.bytes)
  baseId := some (ChainConfig.cString s.baseId.bytes)
  target := some (ChainConfig.cString s.target.bytes)
  uptimeSeconds := s.uptimeSeconds

/-! ## How long the texts are -/

namespace Telemetry

open ChainConfig (cString)
open Printf (Piece print snprintf decimal)
open Http (message head)

theorem length_boolText_le (value : Int32) : (boolText value).length ≤ 5 := by
  unfold boolText
  split <;> decide

section Document

variable (status : TelemetryStatus) (host job base target : Bytes)

/-- **The document is as long as its strings**, and less than 300 bytes more. -/
theorem length_statusFormat_lt :
    (print (statusFormat status host job base target)).length
      < host.length + job.length + base.length + target.length + 300 := by
  have hc := length_boolText_le status.chainConnected
  have hw := length_boolText_le status.workAvailable
  have hp := Printf.length_decimal_le (k := 5) (by decide)
    (status.chainPort.toNat_lt.trans (by decide))
  have hm := Printf.length_decimal_le (k := 20) (by decide)
    (status.miners.toNat_lt.trans (by decide))
  have hh := Printf.length_decimal_le (k := 20) (by decide)
    (status.hashrate.toNat_lt.trans (by decide))
  have hu := Printf.length_decimal_le (k := 20) (by decide)
    (status.uptimeSeconds.toNat_lt.trans (by decide))
  have hl : (Printf.literal (statusFormat status host job base target)).length
      = 189 := rfl
  rw [Printf.length_print, hl]
  show 189 + ((boolText status.chainConnected).length + (host.length
    + ((decimal status.chainPort.toNat).length
    + ((boolText status.workAvailable).length
    + ((decimal status.miners.toNat).length
    + ((decimal status.hashrate.toNat).length + (job.length + (base.length
    + (target.length + ((decimal status.uptimeSeconds.toNat).length
      + 0)))))))))) < _
  omega

/-- There is no terminator in it, if there is none in its strings. -/
theorem zero_not_mem_statusFormat (hh : 0 ∉ host) (hj : 0 ∉ job)
    (hb : 0 ∉ base) (ht : 0 ∉ target) :
    0 ∉ print (statusFormat status host job base target) := by
  have hd : ∀ n, 0 ∉ decimal n := fun n h =>
    absurd (Printf.digit_of_mem_decimal h).1 (by decide)
  have hbool : ∀ v, 0 ∉ boolText v := by
    intro v
    unfold boolText
    split <;> decide
  simp only [statusFormat, Printf.print_cons, Printf.print_nil, Piece.bytes,
    List.mem_append, not_or]
  refine ⟨by decide, by decide, hbool _, by decide, hh, by decide, hd _,
    by decide, hbool _, by decide, hd _, by decide, hd _, by decide, hj,
    by decide, hb, by decide, ht, by decide, hd _, by decide,
    List.not_mem_nil⟩

end Document

section Reply

variable {n : ℕ} {status : TelemetryStatus} {host job base target : Bytes}

/-- **The text of the document.** -/
def statusText (status : TelemetryStatus) : Bytes :=
  print (statusFormat status (status.chainHost.getD []) (status.jobId.getD [])
    (status.baseId.getD []) (status.target.getD []))

theorem statusText_ne_nil : statusText status ≠ [] := by
  intro h
  cases h

/-- **The document is printed** where there is room for it. -/
theorem statusJson_eq (hh : status.chainHost = some host)
    (hj : status.jobId = some job) (hb : status.baseId = some base)
    (ht : status.target = some target) (output : Buf n)
    (hn : (statusText status).length < n)
    (hi : (statusText status).length ≤ Printf.intMax) :
    ∃ output', statusJson (some status) (some output)
        = (((statusText status).length : ℤ), some output')
      ∧ output'.Begins (statusText status ++ [0]) := by
  have htext : statusText status
      = print (statusFormat status host job base target) := by
    rw [statusText, hh, hj, hb, ht]
    rfl
  rw [htext] at hn hi ⊢
  obtain ⟨output', he, hbegins⟩ := Printf.snprintf_of_length_lt output _ hn hi
  refine ⟨output', ?_, hbegins⟩
  unfold statusJson
  dsimp only
  rw [if_neg (by omega), hh, hj, hb, ht]
  dsimp only
  rw [he, if_neg (by dsimp only; omega)]

/-! ## Both replies are framed -/

/-- The lines of the head of the reply. -/
def replyLines (bodyLength : ℕ) : List Bytes :=
  [ascii "HTTP/1.1 200 OK", ascii "Content-Type: application/json",
    ascii "Content-Length: " ++ decimal bodyLength,
    ascii "Cache-Control: no-store", ascii "Connection: close"]

/-- **The reply is a message** with these lines. -/
theorem print_responseFormat (bodyLength : ℕ) (body : Bytes) :
    print (responseFormat bodyLength body)
      = message (replyLines bodyLength) body := by
  have h₁ : ascii "HTTP/1.1 200 OK\r\n" ++ (ascii
        "Content-Type: application/json\r\n" ++ ascii "Content-Length: ")
      = ascii "HTTP/1.1 200 OK" ++ (Http.crlf ++ (ascii
        "Content-Type: application/json" ++ (Http.crlf
          ++ ascii "Content-Length: "))) := by decide
  have h₂ : ascii "\r\nCache-Control: no-store\r\n"
        ++ ascii "Connection: close\r\n\r\n"
      = Http.crlf ++ (ascii "Cache-Control: no-store" ++ (Http.crlf
        ++ (ascii "Connection: close" ++ (Http.crlf ++ Http.crlf)))) := by
    decide
  calc print (responseFormat bodyLength body)
      = (ascii "HTTP/1.1 200 OK\r\n" ++ (ascii
          "Content-Type: application/json\r\n" ++ ascii "Content-Length: "))
        ++ (decimal bodyLength
        ++ ((ascii "\r\nCache-Control: no-store\r\n"
          ++ ascii "Connection: close\r\n\r\n") ++ body)) := by
        simp [responseFormat, Piece.bytes]
    _ = message (replyLines bodyLength) body := by
        rw [h₁, h₂]
        simp [message, head, replyLines]

/-- **It says how long the document is.** -/
theorem framed_reply (body : Bytes) :
    Http.Framed (message (replyLines body.length) body) body := by
  refine ⟨replyLines body.length, decimal body.length, rfl,
    Http.headEnds_message (List.cons_ne_nil _ _) ?_ body, rfl,
    fun b => Printf.digit_of_mem_decimal, Printf.number_decimal _⟩
  have hd : Http.cr ∉ decimal body.length := fun h =>
    absurd (Printf.digit_of_mem_decimal h).1 (by decide)
  intro line hl
  simp only [List.mem_cons, List.not_mem_nil, or_false] at hl
  rcases hl with rfl | rfl | rfl | rfl | rfl
  · decide
  · decide
  · exact ⟨nofun, fun h => (List.mem_append.mp h).elim (by decide) hd⟩
  · decide
  · decide

/-- So is the other one. -/
theorem framed_notFound : Http.Framed notFound [] := by
  have he : notFound = message [ascii "HTTP/1.1 404 Not Found",
      ascii "Content-Length: 0", ascii "Connection: close"] [] := by decide
  rw [he]
  exact ⟨_, [0x30], rfl, Http.headEnds_message (List.cons_ne_nil _ _)
    (by decide) [], rfl, List.forall_mem_singleton.mpr (by decide), by decide⟩

/-- **The reply is printed** where there is room for it. -/
theorem httpResponse_eq (hh : status.chainHost = some host)
    (hj : status.jobId = some job) (hb : status.baseId = some base)
    (ht : status.target = some target) (hz : 0 ∉ statusText status)
    (heap : Heap) (output : Buf n)
    (hbody : (statusText status).length < bodySize)
    (hn : (statusText status).length + 133 < n) :
    let reply := message (replyLines (statusText status).length)
      (statusText status)
    ∃ output', httpResponse heap (some status) (some output)
        = ((reply.length : ℤ), some output') ∧ 0 < reply.length
      ∧ reply.length < n ∧ output'.Begins (reply ++ [0]) := by
  intro reply
  have hpos := List.length_pos_iff.mpr (@statusText_ne_nil status)
  have hlen : reply.length ≤ (statusText status).length + 133 := by
    have hd := Printf.length_decimal_le (n := (statusText status).length)
      (k := 20) (by decide) (by unfold bodySize at hbody; omega)
    have hl : (Printf.literal (responseFormat (statusText status).length
      (statusText status))).length = 113 := rfl
    have := Printf.length_print (responseFormat (statusText status).length
      (statusText status))
    rw [print_responseFormat, hl] at this
    rw [this]
    show 113 + ((decimal (statusText status).length).length
      + ((statusText status).length + 0)) ≤ _
    omega
  obtain ⟨body, hjson, hbegins⟩ := statusJson_eq hh hj hb ht
    (heap.uninit bodySize) hbody (by unfold bodySize Printf.intMax at *; omega)
  have hc := ChainConfig.cString_of_begins hbegins hz
  obtain ⟨output', he, ho⟩ := Printf.snprintf_of_length_lt output
    (responseFormat (statusText status).length (statusText status))
    (by rw [print_responseFormat]; exact hlen.trans_lt hn)
    (by
      rw [print_responseFormat]
      unfold bodySize at hbody
      exact hlen.trans (by unfold Printf.intMax; omega))
  rw [print_responseFormat] at he ho
  refine ⟨output', ?_, ?_, hlen.trans_lt hn, ho⟩
  · unfold httpResponse
    dsimp only
    rw [if_neg (by omega), hjson]
    dsimp only
    have hlt : (message (replyLines (statusText status).length)
      (statusText status)).length < n := hlen.trans_lt hn
    rw [if_neg (by omega), Int.toNat_natCast, hc, he, if_neg]
    dsimp only
    omega
  · show 0 < (message _ _).length
    rw [message, List.length_append]
    omega

end Reply

/-- **The reply to a request**: the document, if the request is for it. -/
def replyTo (valid : Bool) (status : TelemetryStatus) : Bytes :=
  if valid = true then
    message (replyLines (statusText status).length) (statusText status)
  else notFound

section Snapshot

variable {snapshot : TelemetrySnapshot}

/-- **The longest document** is well below both buffers. -/
theorem length_statusText_lt (h : snapshot.Held) :
    (statusText snapshot.toStatus).length < 747 := by
  have hh := ChainConfig.length_cString_lt h.chainHost
  have hj := ChainConfig.length_cString_lt h.jobId
  have hb := ChainConfig.length_cString_lt h.baseId
  have ht := ChainConfig.length_cString_lt h.target
  rw [snapshot.chainHost.size] at hh
  rw [snapshot.jobId.size] at hj
  rw [snapshot.baseId.size] at hb
  rw [snapshot.target.size] at ht
  unfold telemetryHostSize at hh
  unfold telemetryHexSize at hj hb ht
  have := length_statusFormat_lt snapshot.toStatus
    (cString snapshot.chainHost.bytes) (cString snapshot.jobId.bytes)
    (cString snapshot.baseId.bytes) (cString snapshot.target.bytes)
  show (print (statusFormat snapshot.toStatus _ _ _ _)).length < _
  exact this.trans_le (by omega)

/-- There is no terminator in it. -/
theorem zero_not_mem_statusText (snapshot : TelemetrySnapshot) :
    0 ∉ statusText snapshot.toStatus :=
  zero_not_mem_statusFormat _ _ _ _ _ (ChainConfig.zero_not_mem_cString _)
    (ChainConfig.zero_not_mem_cString _) (ChainConfig.zero_not_mem_cString _)
    (ChainConfig.zero_not_mem_cString _)

/-- The document is printed. -/
theorem statusJson_toStatus {n : ℕ} (output : Buf n)
    (hn : (statusText snapshot.toStatus).length < n)
    (h : snapshot.Held) :
    ∃ output', statusJson (some snapshot.toStatus) (some output)
        = (((statusText snapshot.toStatus).length : ℤ), some output')
      ∧ output'.Begins (statusText snapshot.toStatus ++ [0]) :=
  statusJson_eq rfl rfl rfl rfl output hn
    ((length_statusText_lt h).le.trans (by decide))

/-- **The reply to a status request is printed.** -/
theorem httpResponse_toStatus (h : snapshot.Held) (heap : Heap)
    (output : Buf responseSize) :
    ∃ output', httpResponse heap (some snapshot.toStatus) (some output)
        = (((replyTo true snapshot.toStatus).length : ℤ), some output')
      ∧ 0 < (replyTo true snapshot.toStatus).length
      ∧ (replyTo true snapshot.toStatus).length < responseSize
      ∧ output'.Begins (replyTo true snapshot.toStatus ++ [0]) := by
  have hlen := length_statusText_lt h
  exact httpResponse_eq rfl rfl rfl rfl (zero_not_mem_statusText snapshot) heap
    output (hlen.trans (by decide)) (by unfold responseSize; omega)

/-- **A response is prepared**, whatever the request is. -/
theorem prepareResponse_toStatus (h : snapshot.Held) (heap : Heap)
    (client : Client) :
    let valid := requestValid (some client.request.bytes) client.requestLength
    ∃ response, prepareResponse heap client (some snapshot.toStatus)
        = (true, { client with
          response := response
          responseLength := (replyTo valid snapshot.toStatus).length
          responseSent := 0 })
      ∧ 0 < (replyTo valid snapshot.toStatus).length
      ∧ response.Begins (replyTo valid snapshot.toStatus) := by
  intro valid
  unfold prepareResponse
  by_cases hv : valid = true
  · obtain ⟨response, he, hpos, _, hb⟩ :=
      httpResponse_toStatus h heap client.response
    refine ⟨response, ?_, hv ▸ hpos, hv ▸ (List.prefix_append _ _).trans hb⟩
    rw [if_pos hv, he, hv]
    dsimp only
    rw [if_neg (by omega)]
    rfl
  · refine ⟨client.response.write 0 notFound, ?_, ?_, ?_⟩
    · rw [if_neg hv, Bool.eq_false_iff.mpr hv]
      rfl
    · rw [Bool.eq_false_iff.mpr hv]
      show 0 < notFound.length
      decide
    · rw [Bool.eq_false_iff.mpr hv]
      exact client.response.begins_nil.write (i := 0) rfl (by decide)

end Snapshot

/-- **Status replies always fit, and are framed.** For every snapshot that
holds strings the reply is printed whole into the buffer of the client; its
head ends with the first blank line, and as many bytes follow as it says, which
are the document. So a response is prepared for every valid request. -/
theorem status_reply (snapshot : TelemetrySnapshot) (h : snapshot.Held)
    (heap : Heap) (output : Buf responseSize) :
    ∃ json reply output',
      (∀ body : Buf bodySize, ∃ body',
        statusJson (some snapshot.toStatus) (some body)
            = ((json.length : ℤ), some body')
          ∧ cString body'.bytes = json)
      ∧ httpResponse heap (some snapshot.toStatus) (some output)
        = ((reply.length : ℤ), some output')
      ∧ 0 < reply.length ∧ reply.length < responseSize
      ∧ output'.Begins (reply ++ [0])
      ∧ Http.Framed reply json
      ∧ ∀ client : Client,
        requestValid (some client.request.bytes) client.requestLength = true →
        ∃ client', prepareResponse heap client (some snapshot.toStatus)
            = (true, client')
          ∧ client'.responseLength = reply.length
          ∧ client'.response.Begins reply := by
  obtain ⟨output', he, hpos, hlt, hb⟩ := httpResponse_toStatus h heap output
  refine ⟨statusText snapshot.toStatus, replyTo true snapshot.toStatus, output',
    fun body => ?_, he, hpos, hlt, hb, framed_reply _, fun client hv => ?_⟩
  · have hlen := length_statusText_lt h
    obtain ⟨body', hj, hb⟩ := statusJson_toStatus body (hlen.trans (by decide)) h
    exact ⟨body', hj,
      ChainConfig.cString_of_begins hb (zero_not_mem_statusText snapshot)⟩
  · obtain ⟨response, hp, _, hr⟩ := prepareResponse_toStatus h heap client
    rw [hv] at hp hr
    exact ⟨_, hp, rfl, hr⟩

/-- A status with the longest host that a snapshot holds, full identifiers and
the largest counters. -/
def largestStatus : TelemetryStatus where
  chainConnected := 0
  chainHost := some (List.replicate 255 0x68)
  chainPort := 65535
  workAvailable := 0
  miners := 18446744073709551615
  hashrate := 18446744073709551615
  jobId := some (List.replicate 64 0x66)
  baseId := some (List.replicate 64 0x66)
  target := some (List.replicate 64 0x66)
  uptimeSeconds := 18446744073709551615

/-- What is published of it. -/
def largestSnapshot : TelemetrySnapshot :=
  snapshotPublish .zero largestStatus

set_option maxRecDepth 100000 in
/-- **The longest reply** takes 827 of the 4096 bytes, 711 of them for the
document, and is framed like every other. -/
theorem status_reply_largest : ∃ json reply output',
    json.length = 711 ∧ reply.length = 827
      ∧ httpResponse ⟨[], fun _ => 0⟩ (some largestSnapshot.toStatus)
        (some (Buf.zero responseSize)) = ((reply.length : ℤ), some output')
      ∧ output'.Begins (reply ++ [0])
      ∧ Http.Framed reply json := by
  obtain ⟨json, reply, output', hj, he, _, _, hb, hf, _⟩ :=
    status_reply largestSnapshot (held_foldl_snapshotPublish [largestStatus])
      ⟨[], fun _ => 0⟩ (Buf.zero responseSize)
  have hjson : json.length = 711 := by
    obtain ⟨body', h, _⟩ := hj (Buf.zero bodySize)
    have h₁ : (statusJson (some largestSnapshot.toStatus)
        (some (Buf.zero bodySize))).1 = 711 := by decide +kernel
    exact Int.natCast_inj.mp ((congrArg Prod.fst h).symm.trans h₁)
  have hreply : reply.length = 827 := by
    have h₁ : (httpResponse ⟨[], fun _ => 0⟩ (some largestSnapshot.toStatus)
        (some (Buf.zero responseSize))).1 = 827 := by decide +kernel
    exact Int.natCast_inj.mp ((congrArg Prod.fst he).symm.trans h₁)
  exact ⟨json, reply, output', hjson, hreply, he, hb, hf⟩

end Telemetry
