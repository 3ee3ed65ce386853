import SmartHome.ByteStrings
import SmartHome.MachineWords

/-!
# Requests in pieces

The web server keeps the buffers it receives on a connection until a line has
ended in them, and reads the method and the name of a file from the line. A
request names the same file however TCP has cut it.
-/

namespace SmartHome.HttpRequests

open ByteStrings MachineWords

abbrev MIN_REQ_LEN : ℕ := 7

abbrev LWIP_HTTPD_REQ_QUEUELEN : ℕ := 10

abbrev LWIP_HTTPD_MAX_REQ_LENGTH : ℕ := 1023

abbrev LWIP_HTTPD_REQ_BUFSIZE : ℕ := LWIP_HTTPD_MAX_REQ_LENGTH

def CRLF : List UInt8 := bytes "\r\n"

/-! ### The parser -/

/-- What becomes of a received buffer. -/
inductive Parsed
  | http_find_file (uri : List UInt8) (is_09 : Bool)
  | http_find_error_file (error_nr : ℕ)
  | ERR_INPROGRESS
  deriving DecidableEq

/-- Total length of a chain of buffers, a 16-bit field. -/
def tot_len (req : List (List UInt8)) : ℕ := uint16_t req.flatten.length

/-- Number of buffers of a chain, an 8-bit count. -/
def pbuf_clen (req : List (List UInt8)) : ℕ := uint8_t req.length

/-- The bytes that are parsed: a single buffer itself, or a copy of the
beginning of a chain. -/
def requestData : List (List UInt8) → List UInt8
  | [payload] => payload
  | req => req.flatten.take (min (tot_len req) LWIP_HTTPD_MAX_REQ_LENGTH)

/-- The request in the data; none if it has not been received fully. -/
def readRequest (data : List UInt8) : Option Parsed :=
  if MIN_REQ_LEN ≤ data.length ∧ (strnstr CRLF data).isSome then
    if (bytes "GET ").isPrefixOf data then
      let line := data.drop 4
      match strnstr (bytes " ") line with
      | some uri_len => some (.http_find_file (line.take uri_len) false)
      | none =>
        -- HTTP 0.9: the name ends with the line
        match strnstr CRLF line with
        | some uri_len => some (.http_find_file (line.take uri_len) true)
        | none => none
    else some (.http_find_error_file 501)
  else none

/-- Parse the chain of buffers received so far. -/
def http_parse_request (req : List (List UInt8)) : Parsed :=
  match readRequest (requestData req) with
  | some parsed => parsed
  | none =>
    if tot_len req ≤ LWIP_HTTPD_REQ_BUFSIZE ∧ pbuf_clen req ≤ LWIP_HTTPD_REQ_QUEUELEN then
      .ERR_INPROGRESS
    else .http_find_error_file 400

/-- Parse the buffers of a connection as they come in. -/
def receive (req : List (List UInt8)) : List (List (List UInt8)) → Parsed
  | [] => .ERR_INPROGRESS
  | p :: ps =>
    match http_parse_request (req ++ p) with
    | .ERR_INPROGRESS => receive (req ++ p) ps
    | parsed => parsed

/-! ### Request lines -/

/-- The line asks for the file, with the version of the protocol or without. -/
inductive Names (uri : List UInt8) : Bool → List UInt8 → Prop
  | full (version : List UInt8) : Names uri false (bytes "GET " ++ uri ++ bytes " " ++ version)
  | simple (h : uri ≠ []) : Names uri true (bytes "GET " ++ uri)

/-- A well formed first line of a request. -/
structure RequestLine (line uri : List UInt8) (is_09 : Bool) : Prop where
  names : Names uri is_09 line
  no_space : 32 ∉ uri
  no_zero : 0 ∉ line
  no_return : 13 ∉ line

/-- A request: a line with its end and what follows, which is nothing in
version 0.9. -/
structure Request (request line uri : List UInt8) (is_09 : Bool) : Prop where
  line_ok : RequestLine line uri is_09
  begins : line ++ CRLF <+: request
  ends : is_09 = true → request = line ++ CRLF

variable {request line uri data : List UInt8} {is_09 : Bool}

theorem RequestLine.find_end (h : RequestLine line uri is_09) (rest : List UInt8) :
    strnstr CRLF (line ++ CRLF ++ rest) = some line.length :=
  strnstr_first (by decide) h.no_zero h.no_return rest

/-- A line that has not ended is not found. -/
theorem Request.unfinished (h : Request request line uri is_09) (hdata : data <+: request)
    (hlen : data.length < line.length + 2) : strnstr CRLF data = none := by
  cases hfound : strnstr CRLF data with
  | none => rfl
  | some i =>
    obtain ⟨rest, hrest⟩ := h.begins
    have hend := strnstr_longer hdata hfound
    rw [← hrest, h.line_ok.find_end] at hend
    cases hend
    exact absurd (strnstr_le hfound) (Nat.not_le.mpr hlen)

/-- The name in a GET request ends at the first blank, or with the line. -/
theorem readRequest_get {rest : List UInt8} (hlen : 3 ≤ rest.length)
    (hend : (strnstr CRLF (bytes "GET " ++ rest)).isSome = true) :
    readRequest (bytes "GET " ++ rest) =
      match strnstr (bytes " ") rest with
      | some uri_len => some (.http_find_file (rest.take uri_len) false)
      | none =>
        match strnstr CRLF rest with
        | some uri_len => some (.http_find_file (rest.take uri_len) true)
        | none => none := by
  have hmethod : (bytes "GET ").isPrefixOf (bytes "GET " ++ rest) = true := by
    rw [List.isPrefixOf_iff_prefix]
    exact List.prefix_append _ _
  have hmin : MIN_REQ_LEN ≤ (bytes "GET " ++ rest).length := by
    change 7 ≤ (bytes "GET " ++ rest).length
    rw [List.length_append]
    change 7 ≤ 4 + rest.length
    omega
  rw [readRequest, if_pos ⟨hmin, hend⟩, if_pos hmethod]
  rfl

/-- The file name of a line that has ended. -/
theorem RequestLine.read (h : RequestLine line uri is_09) {rest : List UInt8}
    (hend : is_09 = true → rest = []) :
    readRequest (line ++ CRLF ++ rest) = some (.http_find_file uri is_09) := by
  have hfound := h.find_end rest
  have hcrlf : CRLF.length = 2 := rfl
  obtain ⟨hnames, hspace, hzero, hreturn⟩ := h
  have hname : 0 ∉ uri := by
    cases hnames <;> exact fun hmem => hzero (by simp [hmem])
  cases hnames with
  | full version =>
    have hblank : strnstr (bytes " ") (uri ++ bytes " " ++ (version ++ CRLF ++ rest)) =
        some uri.length := strnstr_first (by decide) hname hspace _
    rw [show bytes "GET " ++ uri ++ bytes " " ++ version ++ CRLF ++ rest =
      bytes "GET " ++ (uri ++ bytes " " ++ (version ++ CRLF ++ rest)) by
        simp only [List.append_assoc]] at hfound ⊢
    rw [readRequest_get _ (by rw [hfound]; rfl), hblank]
    · simp
    · simp only [List.length_append, hcrlf, show (bytes " ").length = 1 from rfl]
      omega
  | simple hne =>
    have hpos : 0 < uri.length := List.length_pos_iff.mpr hne
    have hreturn' : 13 ∉ uri := fun hmem => hreturn (by simp [hmem])
    have hblank : strnstr (bytes " ") (uri ++ CRLF) = none := by
      refine strnstr_none ?_
      rw [List.mem_append, not_or]
      exact ⟨hspace, by decide⟩
    have hurl : strnstr CRLF (uri ++ CRLF ++ []) = some uri.length :=
      strnstr_first (by decide) hname hreturn' []
    rw [hend rfl, List.append_nil, List.append_assoc] at hfound ⊢
    rw [List.append_nil] at hurl
    rw [readRequest_get _ (by rw [hfound]; rfl), hblank, hurl]
    · simp
    · rw [List.length_append]
      omega

/-- A beginning of a request either has the whole line or is not read. -/
theorem Request.read (h : Request request line uri is_09) (hdata : data <+: request) :
    readRequest data =
      if line.length + 2 ≤ data.length then some (.http_find_file uri is_09) else none := by
  split_ifs with hlen
  · have hline : line ++ CRLF <+: data :=
      List.prefix_of_prefix_length_le h.begins hdata (by rwa [List.length_append])
    obtain ⟨rest, rfl⟩ := hline
    refine h.line_ok.read fun h09 => ?_
    have hall := hdata.length_le
    rw [h.ends h09, List.length_append] at hall
    exact List.eq_nil_of_length_eq_zero (by omega)
  · rw [readRequest, if_neg]
    rw [h.unfinished hdata (by omega)]
    simp

/-- The data that is parsed is a beginning of what has been received. -/
theorem requestData_begins (req : List (List UInt8)) : requestData req <+: req.flatten := by
  unfold requestData
  split
  · simp
  · exact List.take_prefix _ _

/-- A line that fits the request buffer is in the data. -/
theorem length_requestData {req : List (List UInt8)} {n : ℕ} (hn : n ≤ LWIP_HTTPD_MAX_REQ_LENGTH)
    (hlen : n ≤ req.flatten.length) (hsize : req.flatten.length < 65536) :
    n ≤ (requestData req).length := by
  unfold requestData
  split
  · simpa using hlen
  · rw [List.length_take, tot_len, uint16_t, Nat.mod_eq_of_lt hsize]
    omega

/-- What the buffers of a request give: the file of the line, or nothing yet,
or an error where the line is cut off or does not fit the queue. -/
theorem Request.parsed (h : Request request line uri is_09) {req : List (List UInt8)}
    (hreq : req.flatten <+: request) :
    http_parse_request req = .http_find_file uri is_09 ∨
      http_parse_request req = .ERR_INPROGRESS ∨
      http_parse_request req = .http_find_error_file 400 := by
  rw [http_parse_request, h.read ((requestData_begins req).trans hreq)]
  by_cases hlen : line.length + 2 ≤ (requestData req).length
  · rw [if_pos hlen]
    exact Or.inl rfl
  · rw [if_neg hlen]
    dsimp only
    split_ifs
    · exact Or.inr (Or.inl rfl)
    · exact Or.inr (Or.inr rfl)

/-- A queue that is answered has the whole line. -/
theorem Request.whole_line (h : Request request line uri is_09) {req : List (List UInt8)}
    (hreq : req.flatten <+: request) (hparse : http_parse_request req = .http_find_file uri is_09) :
    line.length + 2 ≤ req.flatten.length := by
  by_contra hshort
  have hdata := (requestData_begins req).length_le
  rw [http_parse_request, h.read ((requestData_begins req).trans hreq), if_neg (by omega)] at hparse
  dsimp only at hparse
  split_ifs at hparse

/-- A queue with the whole line is answered. -/
theorem Request.complete (h : Request request line uri is_09) {req : List (List UInt8)}
    (hline : line.length + 2 ≤ LWIP_HTTPD_MAX_REQ_LENGTH) (hsize : request.length < 65536)
    (hreq : req.flatten <+: request) (hlen : line.length + 2 ≤ req.flatten.length) :
    http_parse_request req = .http_find_file uri is_09 := by
  have hdata := length_requestData hline hlen (hreq.length_le.trans_lt hsize)
  rw [http_parse_request, h.read ((requestData_begins req).trans hreq), if_pos hdata]

/-- A queue without the end of the line is kept. -/
theorem Request.waiting (h : Request request line uri is_09) {req : List (List UInt8)}
    (hline : line.length + 2 ≤ LWIP_HTTPD_MAX_REQ_LENGTH) (hreq : req.flatten <+: request)
    (hlen : req.flatten.length < line.length + 2) (hqueue : req.length ≤ LWIP_HTTPD_REQ_QUEUELEN) :
    http_parse_request req = .ERR_INPROGRESS := by
  have hdata := (requestData_begins req).length_le
  have htot : tot_len req ≤ req.flatten.length := Nat.mod_le _ _
  have hclen : pbuf_clen req ≤ req.length := Nat.mod_le _ _
  rw [http_parse_request, h.read ((requestData_begins req).trans hreq), if_neg (by omega)]
  dsimp only
  have hfits : tot_len req ≤ LWIP_HTTPD_MAX_REQ_LENGTH := by omega
  exact if_pos ⟨hfits, hclen.trans hqueue⟩

/-- The rest of a request is received. -/
theorem Request.receive_from (h : Request request line uri is_09)
    (hline : line.length + 2 ≤ LWIP_HTTPD_MAX_REQ_LENGTH) (hsize : request.length < 65536)
    {req : List (List UInt8)} (hreq : req.flatten.length < line.length + 2)
    {ps : List (List (List UInt8))} (hall : (req ++ ps.flatten).flatten = request)
    (hqueue : ∀ qs, qs <+: ps → (req ++ qs.flatten).flatten.length < line.length + 2 →
      (req ++ qs.flatten).length ≤ LWIP_HTTPD_REQ_QUEUELEN) :
    receive req ps = .http_find_file uri is_09 := by
  induction ps generalizing req with
  | nil =>
    have hbegins := h.begins.length_le
    rw [List.flatten_nil, List.append_nil] at hall
    rw [List.length_append, ← hall] at hbegins
    exact absurd hbegins (Nat.not_le.mpr hreq)
  | cons p ps ih =>
    have hprefix : (req ++ p).flatten <+: request :=
      ⟨ps.flatten.flatten, by
        rw [← List.flatten_append, List.append_assoc, ← List.flatten_cons, hall]⟩
    rw [receive]
    by_cases hlen : line.length + 2 ≤ (req ++ p).flatten.length
    · rw [h.complete hline hsize hprefix hlen]
    · have hnext : (req ++ p).length ≤ LWIP_HTTPD_REQ_QUEUELEN := by
        have hone := hqueue [p] (List.prefix_append [p] ps)
        simp only [List.flatten_cons, List.flatten_nil, List.append_nil] at hone
        exact hone (by omega)
      rw [h.waiting hline hprefix (by omega) hnext]
      refine ih (by omega) ?_ fun qs hqs hshort => ?_
      · rw [← hall, List.flatten_cons, List.append_assoc]
      · have hmore := hqueue (p :: qs) (List.cons_prefix_cons.mpr ⟨rfl, hqs⟩)
        rw [List.flatten_cons, ← List.append_assoc] at hmore
        exact hmore hshort

/-- However TCP cuts a request into buffers, and these into calls, the server
asks for more until the line has ended and then opens the file it names, if
no more than ten buffers come before. -/
theorem request_received {request line uri : List UInt8} {is_09 : Bool}
    (h : Request request line uri is_09)
    (hline : line.length + 2 ≤ LWIP_HTTPD_MAX_REQ_LENGTH) (hsize : request.length < 65536)
    (ps : List (List (List UInt8))) (hall : ps.flatten.flatten = request)
    (hqueue : ∀ qs, qs <+: ps → qs.flatten.flatten.length < line.length + 2 →
      qs.flatten.length ≤ LWIP_HTTPD_REQ_QUEUELEN) :
    receive [] ps = .http_find_file uri is_09 := by
  have hstart : ([] : List (List UInt8)).flatten.length < line.length + 2 := Nat.zero_lt_succ _
  exact h.receive_from hline hsize hstart hall hqueue

theorem request_received_in_two :
    receive [] [[bytes "GET /x HTT"], [bytes "P/1.0\r", bytes "\nHost: a b"]] =
      .http_find_file (bytes "/x") false := by
  have h : Request (bytes "GET /x HTTP/1.0\r\nHost: a b") (bytes "GET /x HTTP/1.0") (bytes "/x")
      false :=
    ⟨⟨.full (bytes "HTTP/1.0"), by decide, by decide, by decide⟩, ⟨bytes "Host: a b", by decide⟩,
      fun h => absurd h (by decide)⟩
  refine request_received h (by decide) (by decide) _ (by decide) fun qs hqs _ => ?_
  obtain ⟨more, hmore⟩ := hqs
  have hlen := congrArg (fun ps => ps.flatten.length) hmore
  simp only [List.flatten_append, List.length_append] at hlen
  exact (Nat.le_add_right _ _).trans (hlen.le.trans (by decide))

end SmartHome.HttpRequests
