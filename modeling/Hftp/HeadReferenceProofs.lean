import Hftp.HeadSegmentationProofs

/-! # What a head says

    A head that comes in one buffer is read as its text says: three decimals and a
    reason, and for each field of the response the last line of the head that has a
    value for it.  The parser gets there by walking the buffer and cutting it up;
    afterwards the buffer is whole again, and the body starts behind the empty
    line. -/

namespace HeadReference

open CBytes HttpCore HttpHeader MimeType HeadSegmentation

/-! ## The text of a head -/

/-- The first word of a reason. -/
def firstWord (reason : Bytes) : Bytes :=
  (reason.dropWhile isSpace).takeWhile fun b => !isSpace b

/-- `HTTP/` major `.` minor ` ` code ` ` reason. -/
structure StatusText where
  major : Bytes
  minor : Bytes
  code : Bytes
  reason : Bytes
  majorValue : Nat
  minorValue : Nat
  codeValue : Nat
  major_decimal : readDecimal major = some majorValue
  minor_decimal : readDecimal minor = some minorValue
  code_decimal : readDecimal code = some codeValue
  noNul : (0 : Byte) ∉ reason
  noCrlf : ¬ crlf <:+: reason
  wordFits : (firstWord reason).length ≤ responseCodeDescMax

/-- What stands behind `HTTP/`. -/
def StatusText.numbers (st : StatusText) : Bytes :=
  st.major ++ 46 :: (st.minor ++ 32 :: (st.code ++ 32 :: st.reason))

def StatusText.line (st : StatusText) : Bytes := lit "HTTP/" ++ st.numbers

/-- name `: ` value -/
structure FieldText where
  name : Bytes
  value : Bytes
  noNul : (0 : Byte) ∉ name ++ lit ": " ++ value
  noCrlf : ¬ crlf <:+: name ++ lit ": " ++ value
  noColon : ¬ lit ": " <:+: name
  length_decimal : strcaseeq (lit "Content-Length") name = true →
    ∃ n, readDecimal value = some n ∧ n < 2 ^ 63

def FieldText.line (f : FieldText) : Bytes := f.name ++ lit ": " ++ f.value

/-- A head with its lines. -/
structure HeadText where
  status : StatusText
  fields : List FieldText

def HeadText.lines (h : HeadText) : List Bytes := h.status.line :: h.fields.map FieldText.line

/-- The lines, each ended by CR LF, and the empty line. -/
def HeadText.text (h : HeadText) : Bytes := linesText h.lines ++ crlf

/-! ## Its meaning -/

/-- `close` or `keep-alive`, however it is written. -/
def connectionOf (f : FieldText) : Option Int :=
  if strcaseeq (lit "Connection") f.name then
    if strcaseeq f.value (lit "close") then some 0
    else if strcaseeq f.value (lit "keep-alive") then some 1
    else none
  else none

/-- The media types of the table, row by row. -/
def typeColumn : List Bytes := gMimeTypes.map fun row => lit row.2

/-- The first row with a media type; -1 if there is none. -/
def firstRow (mediaType : Bytes) : Int :=
  if mediaType ∈ typeColumn then typeColumn.idxOf mediaType else -1

/-- The place of the media type in the table; it ends at the first `;`. -/
def contentTypeOf (f : FieldText) : Option Int :=
  if strcaseeq (lit "Content-Type") f.name then some (firstRow (f.value.takeWhile (· ≠ 59)))
  else none

def contentLengthOf (f : FieldText) : Option Int :=
  if strcaseeq (lit "Content-Length") f.name then (readDecimal f.value).map Int.ofNat else none

def acceptRangeOf (f : FieldText) : Option AcceptRange :=
  if strcaseeq (lit "Accept-Ranges") f.name then
    some (if strcaseeq (lit "bytes") f.value then .arBytes else .arNotSupported)
  else none

def transferEncodingOf (f : FieldText) : Option TransferEncoding :=
  if strcaseeq (lit "Transfer-Encoding") f.name then
    some (if strcaseeq (lit "chunked") f.value then .teChunked else .teNotSupported)
  else none

/-- The last value that a line gives, or what was there. -/
def lastOf {β : Type} (value : FieldText → Option β) (fields : List FieldText) (old : β) : β :=
  (fields.filterMap value).getLast?.getD old

/-- A number as it is kept in an `int`. -/
def asInt (n : Nat) : Int := toInt (clampLong n)

/-- The fields as they are told. -/
def fieldsMeaning (fields : List FieldText) (resp : HttpResponse) : HttpResponse :=
  { resp with
    connection := lastOf connectionOf fields resp.connection,
    contentTypeIndex := lastOf contentTypeOf fields resp.contentTypeIndex,
    contentLength := lastOf contentLengthOf fields resp.contentLength,
    acceptRange := lastOf acceptRangeOf fields resp.acceptRange,
    transferEncoding := lastOf transferEncodingOf fields resp.transferEncoding }

/-- **WHAT A HEAD SAYS**, told to a response. -/
def HeadText.meaning (h : HeadText) (resp : HttpResponse) : HttpResponse :=
  fieldsMeaning h.fields { resp with
    versionMajor := asInt h.status.majorValue,
    versionMinor := asInt h.status.minorValue,
    code := asInt h.status.codeValue,
    desc := if firstWord h.status.reason = [] then resp.desc else firstWord h.status.reason }

/-! ## Lines of this form are read -/

/-- A CR LF does not begin in a text without CR. -/
theorem crlf_behind {pre s : Bytes} (hpre : cr ∉ pre) (h : crlf <:+: pre ++ s) : crlf <:+: s := by
  induction pre with
  | nil => exact h
  | cons b pre ih =>
      rcases List.infix_cons_iff.mp h with hhere | hlater
      · obtain ⟨t, ht⟩ := hhere
        injection ht with hb
        exact absurd (hb ▸ List.mem_cons_self) hpre
      · exact ih (fun hm => hpre (List.mem_cons_of_mem b hm)) hlater

namespace StatusText

variable (st : StatusText)

/-- What stands before the reason has neither of two bytes. -/
theorem before_reason {b : Byte} (hb : digitOf 10 b = none) (h46 : b ≠ 46) (h32 : b ≠ 32)
    (hhttp : b ∉ lit "HTTP/") :
    b ∉ lit "HTTP/" ++ (st.major ++ 46 :: (st.minor ++ 32 :: (st.code ++ [32]))) := by
  have hmajor := decimal_not_mem st.major_decimal hb
  have hminor := decimal_not_mem st.minor_decimal hb
  have hcode := decimal_not_mem st.code_decimal hb
  simp [hmajor, hminor, hcode, hhttp, h46, h32]

theorem line_eq : st.line =
    (lit "HTTP/" ++ (st.major ++ 46 :: (st.minor ++ 32 :: (st.code ++ [32])))) ++ st.reason := by
  simp [line, numbers]

/-- The four conversions. -/
theorem scan (resp : HttpResponse) :
    scanStatus st.numbers resp = .ok { resp with
      versionMajor := asInt st.majorValue, versionMinor := asInt st.minorValue,
      code := asInt st.codeValue,
      desc := if firstWord st.reason = [] then resp.desc else firstWord st.reason } := by
  have hblank : ∀ b ∈ [(32 : Byte)], b = 32 ∨ b = 9 := fun b hb => Or.inl (List.mem_singleton.mp hb)
  have hmajor : scanInt st.numbers =
      some (clampLong st.majorValue, 46 :: (st.minor ++ 32 :: (st.code ++ 32 :: st.reason))) :=
    scanInt_front (fun b hb => Option.some.inj hb ▸ rfl) st.major_decimal
  have hminor : scanInt (st.minor ++ 32 :: (st.code ++ 32 :: st.reason)) =
      some (clampLong st.minorValue, 32 :: (st.code ++ 32 :: st.reason)) :=
    scanInt_front (fun b hb => Option.some.inj hb ▸ rfl) st.minor_decimal
  have hcode : scanInt ([32] ++ (st.code ++ 32 :: st.reason)) =
      some (clampLong st.codeValue, 32 :: st.reason) :=
    scanInt_digits hblank (fun b hb => Option.some.inj hb ▸ rfl) st.code_decimal
  have hword : scanWord (32 :: st.reason) =
      if firstWord st.reason = [] then none else some (firstWord st.reason) := rfl
  rw [List.singleton_append] at hcode
  simp only [scanStatus, hmajor, hminor, hcode, hword]
  by_cases hempty : firstWord st.reason = []
  · rw [if_pos hempty, if_pos hempty]
    rfl
  · rw [if_neg hempty, if_neg hempty]
    dsimp only
    rw [if_pos st.wordFits]
    rfl

theorem statusLine : StatusLine st.line := by
  refine ⟨?_, ?_, ⟨st.numbers, rfl⟩, ?_⟩
  · rw [line_eq, List.mem_append]
    rintro (hbefore | hreason)
    · exact st.before_reason (by decide) (by decide) (by decide) (by decide) hbefore
    · exact st.noNul hreason
  · rw [line_eq]
    intro h
    exact st.noCrlf (crlf_behind
      (st.before_reason (by decide) (by decide) (by decide) (by decide)) h)
  · have hdrop : st.line.drop 5 = st.numbers := rfl
    rw [hdrop, st.scan]
    rintro ⟨⟩

end StatusText

namespace FieldText

variable (f : FieldText)

theorem fieldLine : FieldLine f.line := ⟨f.noNul, f.noCrlf, ⟨f.name, f.value, rfl⟩⟩

/-- The first colon and blank are those behind the name. -/
theorem strstr_line {name value : Bytes} (h : ¬ lit ": " <:+: name) :
    strstr (lit ": ") (name ++ (lit ": " ++ value)) = some name.length := by
  induction name with
  | nil => rfl
  | cons b name ih =>
      have hrest : ¬ lit ": " <:+: name := fun hi => h (List.infix_cons_iff.mpr (Or.inr hi))
      have hhere : ¬ (lit ": ").isPrefixOf (b :: (name ++ (lit ": " ++ value))) = true := by
        intro hprefix
        obtain ⟨t, ht⟩ := List.isPrefixOf_iff_prefix.mp hprefix
        injection ht with hb ht
        cases name with
        | nil =>
            injection ht with hcolon
            exact absurd hcolon (by decide)
        | cons c name =>
            injection ht with hc
            refine h ⟨[], name, ?_⟩
            rw [List.nil_append, ← hb, ← hc]
            rfl
      rw [List.cons_append, strstr, if_neg hhere, ih hrest]
      rfl

theorem lineResp_eq (resp : HttpResponse) :
    lineResp .hrHeaderLine f.line resp = fieldResp f.name f.value resp := by
  have hline : f.line = f.name ++ (lit ": " ++ f.value) := List.append_assoc _ _ _
  have hname : f.line.take f.name.length = f.name := by
    rw [hline, List.take_left]
  have hvalue : f.line.drop (f.name.length + 2) = f.value := by
    rw [hline, ← List.drop_drop, List.drop_left]
    rfl
  rw [lineResp, hline, strstr_line f.noColon, ← hline]
  dsimp only
  rw [hname, hvalue]

end FieldText

/-! ## The fields, one after the other -/

/-- **THE TABLE IS SEARCHED** from its first row on. -/
theorem indexOfMimeType_eq (mediaType : Bytes) : indexOfMimeType mediaType = firstRow mediaType := by
  have hcompare : (fun row : String × String => lit row.2 == mediaType) =
      (fun t : Bytes => t == mediaType) ∘ fun row => lit row.2 := rfl
  have hsearch : gMimeTypes.findIdx? (fun row => lit row.2 == mediaType) =
      typeColumn.findIdx? (· == mediaType) := by
    rw [typeColumn, List.findIdx?_map, hcompare]
  rw [indexOfMimeType, hsearch, firstRow]
  by_cases hrow : mediaType ∈ typeColumn
  · have hsome : typeColumn.findIdx? (· == mediaType) = some (typeColumn.idxOf mediaType) :=
      List.findIdx?_eq_some_of_exists ⟨mediaType, hrow, beq_self_eq_true mediaType⟩
    rw [hsome, if_pos hrow]
  · have hnone : typeColumn.findIdx? (· == mediaType) = none := by
      rw [List.findIdx?_eq_none_iff]
      intro t ht
      exact beq_eq_false_iff_ne.mpr fun heq => hrow (heq ▸ ht)
    rw [hnone, if_neg hrow]

theorem lastOf_cons {β : Type} (value : FieldText → Option β) (f : FieldText)
    (fields : List FieldText) (old : β) :
    lastOf value (f :: fields) old = lastOf value fields (lastOf value [f] old) := by
  rw [lastOf, lastOf, lastOf, List.filterMap_cons, List.filterMap_cons]
  cases value f with
  | none => rfl
  | some v =>
      dsimp only
      rw [List.getLast?_cons]
      rfl

theorem fieldsMeaning_cons (f : FieldText) (fields : List FieldText) (resp : HttpResponse) :
    fieldsMeaning (f :: fields) resp = fieldsMeaning fields (fieldsMeaning [f] resp) := by
  simp only [fieldsMeaning, lastOf_cons _ f fields]

/-- A name is that of one field only. -/
theorem name_unique {a b n : Bytes} (ha : strcaseeq a n = true) (hne : strcaseeq a b = false) :
    strcaseeq b n = false := by
  cases hb : strcaseeq b n with
  | false => rfl
  | true =>
      rw [strcaseeq, beq_iff_eq] at ha hb
      rw [strcaseeq, beq_eq_false_iff_ne] at hne
      exact absurd (ha.trans hb.symm) hne

/-- **ONE FIELD** changes what its name says, and nothing else. -/
theorem fieldResp_meaning (f : FieldText) (resp : HttpResponse) :
    fieldResp f.name f.value resp = fieldsMeaning [f] resp := by
  have hlast : ∀ {β : Type} (value : FieldText → Option β) (old : β),
      lastOf value [f] old = (value f).getD old := by
    intro β value old
    rw [lastOf, List.filterMap_cons]
    cases value f with
    | none => rfl
    | some v => rfl
  rw [fieldsMeaning]
  simp only [hlast]
  rw [fieldResp, connectionOf, contentTypeOf, contentLengthOf, acceptRangeOf, transferEncodingOf]
  by_cases h1 : strcaseeq (lit "Connection") f.name = true
  · have h2 := name_unique (b := lit "Content-Type") h1 (by decide)
    have h3 := name_unique (b := lit "Content-Length") h1 (by decide)
    have h4 := name_unique (b := lit "Accept-Ranges") h1 (by decide)
    have h5 := name_unique (b := lit "Transfer-Encoding") h1 (by decide)
    simp only [h1, h2, h3, h4, h5, if_true, Bool.false_eq_true, if_false, Option.getD_none]
    split_ifs <;> rfl
  rw [if_neg h1]
  by_cases h2 : strcaseeq (lit "Content-Type") f.name = true
  · have h3 := name_unique (b := lit "Content-Length") h2 (by decide)
    have h4 := name_unique (b := lit "Accept-Ranges") h2 (by decide)
    have h5 := name_unique (b := lit "Transfer-Encoding") h2 (by decide)
    simp only [h1, h2, h3, h4, h5, if_true, Bool.false_eq_true, if_false, Option.getD_none]
    rw [indexOfMimeType_eq]
    rfl
  rw [if_neg h2]
  by_cases h3 : strcaseeq (lit "Content-Length") f.name = true
  · have h4 := name_unique (b := lit "Accept-Ranges") h3 (by decide)
    have h5 := name_unique (b := lit "Transfer-Encoding") h3 (by decide)
    obtain ⟨n, hvalue, hn⟩ := f.length_decimal h3
    have hscan : scanInt (f.value ++ []) = some (clampLong n, []) := scanInt_front (by rintro _ ⟨⟩)
      hvalue
    have hclamp : clampLong n = n := by
      rw [clampLong]
      omega
    rw [List.append_nil, hclamp] at hscan
    simp only [h1, h2, h3, h4, h5, if_true, Bool.false_eq_true, if_false, Option.getD_none,
      hscan, hvalue]
    rfl
  rw [if_neg h3]
  by_cases h4 : strcaseeq (lit "Accept-Ranges") f.name = true
  · have h5 := name_unique (b := lit "Transfer-Encoding") h4 (by decide)
    simp only [h1, h2, h3, h4, h5, if_true, Bool.false_eq_true, if_false, Option.getD_none]
    split_ifs <;> rfl
  rw [if_neg h4]
  by_cases h5 : strcaseeq (lit "Transfer-Encoding") f.name = true
  · simp only [h1, h2, h3, h4, h5, if_true, Bool.false_eq_true, if_false, Option.getD_none]
    split_ifs <;> rfl
  rw [if_neg h5]
  simp only [h1, h2, h3, h4, h5, Bool.false_eq_true, if_false, Option.getD_none]

/-- Lines that are read one after the other. -/
theorem linesResp_meaning (fields : List FieldText) (resp : HttpResponse) :
    linesResp .hrHeaderLine (fields.map FieldText.line) resp = fieldsMeaning fields resp := by
  induction fields generalizing resp with
  | nil => rfl
  | cons f fields ih =>
      rw [List.map_cons, linesResp, f.lineResp_eq, ih, fieldsMeaning_cons, fieldResp_meaning]

/-! ## The head in one buffer -/

namespace HeadText

variable (h : HeadText)

theorem linesOk : LinesOk .hrFirstLine h.lines := by
  refine ⟨h.status.statusLine, linesOk_fields fun l hl => ?_⟩
  obtain ⟨f, -, rfl⟩ := List.mem_map.mp hl
  exact f.fieldLine

theorem linesResp_eq (resp : HttpResponse) :
    linesResp .hrFirstLine h.lines resp = h.meaning resp := by
  have hdrop : h.status.line.drop 5 = h.status.numbers := rfl
  rw [lines, linesResp, linesResp_meaning, lineResp, statusResp, hdrop, h.status.scan, meaning]

end HeadText

/-- **A HEAD IN ONE BUFFER IS READ AS IT SAYS**: whatever body follows it and whatever
    lies behind that, the parser stops behind the empty line, has given the buffer
    back as it was, and has told the response what the head says. -/
theorem head_read (h : HeadText) (body stale : Bytes) (ctx : HttpResponseContext)
    (resp : HttpResponse) :
    ∃ hp, httpParseResponseHeaderPerBuffer (h.text ++ body ++ stale)
        (h.text ++ body).length { ctx with state := .hrFirstLine } resp = .ok hp ∧
      hp.buffer = h.text ++ body ++ stale ∧ hp.ctx.state = .hrBody ∧
      hp.ctx.remainDataIndex = h.text.length ∧ hp.ctx.remainDataLen = body.length ∧
      hp.resp = h.meaning resp := by
  have htext : h.text.length = (linesText h.lines).length + 2 := by
    rw [HeadText.text, List.length_append]
    rfl
  have hlen : (h.text ++ body).length = (linesText h.lines).length + 2 + body.length := by
    rw [List.length_append, htext]
  have hparse : httpParseResponseHeaderPerBuffer
      (linesText h.lines ++ (crlf ++ (body ++ stale))) (h.text ++ body).length
      { ctx with state := .hrFirstLine } resp = .ok _ :=
    parse_body h.linesOk (List.cons_ne_nil _ _) hlen
  have hbuffer : linesText h.lines ++ (crlf ++ (body ++ stale)) = h.text ++ body ++ stale := by
    rw [HeadText.text, List.append_assoc, List.append_assoc]
  rw [hbuffer] at hparse
  exact ⟨_, hparse, rfl, rfl, htext.symm, rfl, h.linesResp_eq resp⟩

/-- `HTTP/1.1 200 OK`, a type with a parameter, and the length twice. -/
def twoLengths : HeadText :=
  { status :=
      { major := lit "1", minor := lit "1", code := lit "200", reason := lit "OK",
        majorValue := 1, minorValue := 1, codeValue := 200,
        major_decimal := by decide, minor_decimal := by decide, code_decimal := by decide,
        noNul := by decide, noCrlf := by decide, wordFits := by decide },
    fields :=
      [{ name := lit "Content-Type", value := lit "text/plain;charset=x",
         noNul := by decide, noCrlf := by decide, noColon := by decide,
         length_decimal := fun h => absurd h (by decide) },
       { name := lit "Content-Length", value := lit "7",
         noNul := by decide, noCrlf := by decide, noColon := by decide,
         length_decimal := fun _ => ⟨7, by decide⟩ },
       { name := lit "content-length", value := lit "12",
         noNul := by decide, noCrlf := by decide, noColon := by decide,
         length_decimal := fun _ => ⟨12, by decide⟩ }] }

/-- The last length counts, and `text/plain` first stands in the row of `asm`. -/
theorem head_read_twoLengths :
    ∃ hp, httpParseResponseHeaderPerBuffer (twoLengths.text ++ lit "hello world!" ++ [])
        (twoLengths.text ++ lit "hello world!").length
        { HttpResponseContext.zero with state := .hrFirstLine } .zero = .ok hp ∧
      hp.ctx.remainDataLen = 12 ∧ hp.resp.code = 200 ∧ hp.resp.contentLength = 12 ∧
      gMimeTypes[hp.resp.contentTypeIndex.toNat]?.map Prod.snd = some "text/plain" := by
  obtain ⟨hp, hparse, -, -, -, hlen, hresp⟩ :=
    head_read twoLengths (lit "hello world!") [] .zero .zero
  refine ⟨hp, hparse, hlen.trans (by decide), ?_⟩
  rw [hresp]
  decide +kernel

end HeadReference
