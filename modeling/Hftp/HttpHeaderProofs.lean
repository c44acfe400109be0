import Hftp.HttpCoreProofs
import Hftp.MimeTypeProofs

/-! # The head parser

    `http_parse_response_header_per_buffer` walks a buffer line by line: it
    looks for the next CR LF, overwrites the CR by a NUL, hands the line to
    the status line reader or to `http_parse_response_header_line`, and puts
    the CR back.  A line that is empty ends the head; a line that is not
    complete is moved to the front of the buffer for the next read.

    The first part is the code.  The second part says what a call does on a
    buffer whose lines are known, and counts where its bytes went. -/

namespace HttpHeader

open CBytes HttpCore MimeType

/-! ## One header field -/

/-- Read the C string at `p`, or leave the memory. -/
def readStr (mem : Bytes) (p : Nat) : Except Abort Bytes :=
  match cstr mem p with
  | some s => .ok s
  | none => .error .outOfBounds

/-- `http_parse_response_header_line(name, data, resp)`; `name` and `data`
    are where the two strings start. -/
def httpParseResponseHeaderLine (mem : Bytes) (name data : Nat) (resp : HttpResponse) :
    Except Abort (Bytes × HttpResponse × Int) := do
  let n ← readStr mem name
  let d ← readStr mem data
  if strcaseeq (lit "Connection") n then
    if strcaseeq d (lit "close") then return (mem, { resp with connection := 0 }, 0)
    else if strcaseeq d (lit "keep-alive") then return (mem, { resp with connection := 1 }, 0)
    else return (mem, resp, 1)
  else if strcaseeq (lit "Content-Type") n then
    match strchr 59 d with
    | some k =>
        -- the semicolon is a NUL while the type is looked up
        let cut := mem.set (data + k) 0
        let t ← readStr cut data
        return (cut.set (data + k) 59, { resp with contentTypeIndex := indexOfMimeType t }, 0)
    | none => return (mem, { resp with contentTypeIndex := indexOfMimeType d }, 0)
  else if strcaseeq (lit "Content-Length") n then
    match scanInt d with
    | some (v, _) => return (mem, { resp with contentLength := v }, 0)
    | none => return (mem, resp, 0)
  else if strcaseeq (lit "Accept-Ranges") n then
    if strcaseeq (lit "bytes") d then return (mem, { resp with acceptRange := .arBytes }, 0)
    else return (mem, { resp with acceptRange := .arNotSupported }, 0)
  else if strcaseeq (lit "Transfer-Encoding") n then
    if strcaseeq (lit "chunked") d then
      return (mem, { resp with transferEncoding := .teChunked }, 0)
    else return (mem, { resp with transferEncoding := .teNotSupported }, 0)
  else return (mem, resp, 0)

/-! ## The status line -/

/-- The `%s` of `sscanf`: skip blanks, take the word up to the next blank. -/
def scanWord (s : Bytes) : Option Bytes :=
  let w := (s.dropWhile isSpace).takeWhile (fun b => !isSpace b)
  if w = [] then none else some w

/-- `sscanf(http_str, "%d.%d %d %s", ..)`: each conversion is stored as soon as
    it matches, and the first that fails ends the scan.  A word longer than
    `desc` runs over its end. -/
def scanStatus (s : Bytes) (resp : HttpResponse) : Except Abort HttpResponse :=
  match scanInt s with
  | none => .ok resp
  | some (major, s) =>
      let resp := { resp with versionMajor := toInt major }
      match s with
      | 46 :: s =>
          match scanInt s with
          | none => .ok resp
          | some (minor, s) =>
              let resp := { resp with versionMinor := toInt minor }
              match scanInt s with
              | none => .ok resp
              | some (code, s) =>
                  let resp := { resp with code := toInt code }
                  match scanWord s with
                  | none => .ok resp
                  | some w =>
                      if w.length ≤ responseCodeDescMax then .ok { resp with desc := w }
                      else .error .outOfBounds
      | _ => .ok resp

/-! ## One buffer -/

/-- The inner search of the line loop over the bytes of the window: the index
    of the CR of the first CR LF.  `flag` says that the byte before was a CR. -/
def findSeparator : Bool → Nat → Bytes → Option Nat
  | _, _, [] => none
  | flag, p, b :: bs =>
      if b = cr then findSeparator true (p + 1) bs
      else if b = lf then
        if flag then some (p - 1) else findSeparator flag (p + 1) bs
      else findSeparator false (p + 1) bs

/-- The body of the line loop between `*next = '\0'` and `*next = separator[0]`:
    what the line at `prev`, ended at `next`, does to the response. -/
def processLine (mem : Bytes) (prev next : Nat) (state : ParseState) (resp : HttpResponse) :
    Except Abort (Bytes × ParseState × HttpResponse) := do
  let cut := mem.set next 0
  match state with
  | .hrFirstLine =>
      let line ← readStr cut prev
      match strstr (lit "HTTP") line with
      | none => .error .nullDeref
      | some k =>
          let httpStr ← readStr cut (prev + k + 4 + 1)
          let resp ← scanStatus httpStr resp
          return (cut.set next cr, .hrHeaderLine, resp)
  | .hrHeaderLine =>
      let line ← readStr cut prev
      match strstr (lit ": ") line with
      | none => .error .nullDeref
      | some k =>
          let split := cut.set (prev + k) 0
          let (mem, resp, _) ← httpParseResponseHeaderLine split prev (prev + k + 2) resp
          return ((mem.set (prev + k) 58).set next cr, .hrHeaderLine, resp)
  | state => return (cut.set next cr, state, resp)

/-- What a call leaves behind.  `lines` is a record for the proofs: the bytes
    of each line the call processed, without their CR LF. -/
structure HeadParse where
  buffer : Bytes
  ctx : HttpResponseContext
  resp : HttpResponse
  lines : List Bytes
  deriving DecidableEq, Repr

/-- After the line loop: keep the unparsed tail, or say where the body is. -/
def finishBuffer (buffer : Bytes) (dataLen prev : Nat) (ctx : HttpResponseContext)
    (resp : HttpResponse) (lines : List Bytes) : HeadParse :=
  if 0 < ctx.remainDataLen then
    -- memmove(buffer, buffer + remain_data_index, remain_data_len)
    { buffer := store buffer 0 ((buffer.drop ctx.remainDataIndex).take ctx.remainDataLen),
      ctx := ctx, resp := resp, lines := lines }
  else if ctx.state = .hrBody then
    { buffer := buffer,
      ctx := { ctx with remainDataIndex := prev + 2, remainDataLen := dataLen - prev - 2 },
      resp := resp, lines := lines }
  else { buffer := buffer, ctx := ctx, resp := resp, lines := lines }

/-- The line loop.  `next` is the separator found last (`NULL` at first) and
    `prev` the start of the current line.  Every pass that goes on moves `prev`
    forward, so a fuel above `dataLen` never runs out. -/
def lineLoop (dataLen : Nat) : Nat → Option Nat → Nat → Bytes → HttpResponseContext →
    HttpResponse → List Bytes → Except Abort HeadParse
  | 0, _, _, _, _, _, _ => .error .diverges
  | fuel + 1, next, prev, buffer, ctx, resp, lines =>
      if dataLen < prev then .ok (finishBuffer buffer dataLen prev ctx resp lines)
      else
        match findSeparator false prev ((buffer.drop prev).take (dataLen - prev)) with
        | none =>
            let ctx := { ctx with remainDataIndex := prev, remainDataLen := dataLen - prev }
            if 0 < ctx.remainDataIndex ∨ 0 < ctx.remainDataLen then
              .ok (finishBuffer buffer dataLen prev ctx resp lines)
            else .error .nullDeref
        | some findnext =>
            if next.map (· + 2) = some findnext then
              .ok (finishBuffer buffer dataLen prev { ctx with state := .hrBody } resp lines)
            else
              match processLine buffer prev findnext ctx.state resp with
              | .error e => .error e
              | .ok (buffer, state, resp) =>
                  lineLoop dataLen fuel (some findnext) (findnext + 2) buffer
                    { ctx with state := state } resp
                    (lines ++ [(buffer.drop prev).take (findnext - prev)])

/-- `http_parse_response_header_per_buffer(buffer, data_len, ctx, resp)`. -/
def httpParseResponseHeaderPerBuffer (buffer : Bytes) (dataLen : Nat)
    (ctx : HttpResponseContext) (resp : HttpResponse) : Except Abort HeadParse :=
  lineLoop dataLen (dataLen + 1) none 0 buffer
    { ctx with remainDataIndex := 0, remainDataLen := 0 } resp []

/-! ## The parse state -/

/-- A line never ends the response. -/
theorem processLine_state {mem mem' : Bytes} {prev next : Nat} {state state' : ParseState}
    {resp resp' : HttpResponse} (h : processLine mem prev next state resp = .ok (mem', state', resp'))
    (hstate : state ≠ .hrEnd) : state' ≠ .hrEnd := by
  cases state with
  | hrFirstLine | hrHeaderLine =>
      simp only [processLine, bind, Except.bind, pure, Except.pure] at h
      repeat' split at h
      all_goals
        first
          | (rw [← (Prod.mk.inj (Prod.mk.inj (Except.ok.inj h)).2).1]; decide)
          | cases h
  | hrBody =>
      rw [← (Prod.mk.inj (Prod.mk.inj (Except.ok.inj h)).2).1]
      decide
  | hrEnd => exact absurd rfl hstate

/-- The end of a buffer leaves the parser where it is. -/
theorem finishBuffer_state (buffer : Bytes) (dataLen prev : Nat) (ctx : HttpResponseContext)
    (resp : HttpResponse) (lines : List Bytes) :
    (finishBuffer buffer dataLen prev ctx resp lines).ctx.state = ctx.state := by
  rw [finishBuffer]
  split
  · rfl
  · split <;> rfl

/-- The parser never declares the response ended. -/
theorem lineLoop_state {dataLen : Nat} : ∀ {fuel : Nat} {next : Option Nat} {prev : Nat}
    {buffer : Bytes} {ctx : HttpResponseContext} {resp : HttpResponse} {lines : List Bytes}
    {hp : HeadParse}, lineLoop dataLen fuel next prev buffer ctx resp lines = .ok hp →
    ctx.state ≠ .hrEnd → hp.ctx.state ≠ .hrEnd := by
  intro fuel
  induction fuel with
  | zero =>
      intro next prev buffer ctx resp lines hp h _
      cases h
  | succ fuel ih =>
      intro next prev buffer ctx resp lines hp h hstate
      rw [lineLoop] at h
      split at h
      · rw [← Except.ok.inj h, finishBuffer_state]
        exact hstate
      · split at h
        · dsimp only at h
          split at h
          · rw [← Except.ok.inj h, finishBuffer_state]
            exact hstate
          · cases h
        · split at h
          · rw [← Except.ok.inj h, finishBuffer_state]
            rintro ⟨⟩
          · split at h
            · cases h
            · rename_i hline
              exact ih h (processLine_state hline hstate)

/-! ## The separator search -/

/-- What the search has behind it: the CR the flag stands for. -/
def behind (flag : Bool) (w : Bytes) : Bytes := if flag then cr :: w else w

private theorem crlf_prefix_cons {b : Byte} {w : Bytes} (h : crlf <+: b :: w) :
    b = cr ∧ ∃ t, w = lf :: t := by
  obtain ⟨t, ht⟩ := h
  injection ht with h1 h2
  exact ⟨h1.symm, t, h2.symm⟩

private theorem no_crlf_tail {b : Byte} {w : Bytes} (h : ¬ crlf <:+: b :: w) :
    ¬ crlf <:+: w :=
  fun hi => h (List.infix_cons_iff.mpr (Or.inr hi))

/-- A line without CR LF, ended by CR LF, is found whole. -/
theorem findSeparator_line :
    ∀ (l : Bytes) (flag : Bool) (p : Nat) (rest : Bytes), ¬ crlf <:+: behind flag l →
      findSeparator flag p (l ++ cr :: lf :: rest) = some (p + l.length) := by
  intro l
  induction l with
  | nil =>
      intro flag p rest _
      rw [List.nil_append, findSeparator, if_pos rfl]
      rfl
  | cons b bs ih =>
      intro flag p rest h
      have hlen : p + (b :: bs).length = p + 1 + bs.length := by
        rw [List.length_cons]; omega
      show findSeparator flag p (b :: (bs ++ cr :: lf :: rest)) = _
      rw [findSeparator, hlen]
      by_cases hcr : b = cr
      · rw [if_pos hcr]
        refine ih true (p + 1) rest ?_
        cases flag with
        | false => rw [behind, if_neg (by simp), hcr] at h; exact h
        | true => exact no_crlf_tail (by rw [behind, if_pos rfl, hcr] at h; exact h)
      rw [if_neg hcr]
      by_cases hlf : b = lf
      · rw [if_pos hlf]
        cases flag with
        | true =>
            refine absurd ?_ h
            rw [behind, if_pos rfl, hlf]
            exact ⟨[], bs, rfl⟩
        | false =>
            rw [if_neg (by simp)]
            exact ih false (p + 1) rest (no_crlf_tail h)
      · rw [if_neg hlf]
        refine ih false (p + 1) rest ?_
        cases flag with
        | false => exact no_crlf_tail h
        | true => exact no_crlf_tail (no_crlf_tail h)

/-- A window without CR LF is searched in vain. -/
theorem findSeparator_none :
    ∀ (w : Bytes) (flag : Bool) (p : Nat), ¬ crlf <:+: behind flag w →
      findSeparator flag p w = none := by
  intro w
  induction w with
  | nil => intro flag p _; rfl
  | cons b bs ih =>
      intro flag p h
      rw [findSeparator]
      by_cases hcr : b = cr
      · rw [if_pos hcr]
        refine ih true (p + 1) ?_
        cases flag with
        | false => rw [behind, if_neg (by simp), hcr] at h; exact h
        | true => exact no_crlf_tail (by rw [behind, if_pos rfl, hcr] at h; exact h)
      rw [if_neg hcr]
      by_cases hlf : b = lf
      · rw [if_pos hlf]
        cases flag with
        | true =>
            refine absurd ?_ h
            rw [behind, if_pos rfl, hlf]
            exact ⟨[], bs, rfl⟩
        | false =>
            rw [if_neg (by simp)]
            exact ih false (p + 1) (no_crlf_tail h)
      · rw [if_neg hlf]
        refine ih false (p + 1) ?_
        cases flag with
        | false => exact no_crlf_tail h
        | true => exact no_crlf_tail (no_crlf_tail h)

/-- Every window is either free of CR LF or starts with a line. -/
theorem line_or_tail :
    ∀ w : Bytes, ¬ crlf <:+: w ∨
      ∃ l rest, w = l ++ cr :: lf :: rest ∧ ¬ crlf <:+: l := by
  intro w
  induction w with
  | nil => exact Or.inl (fun h => by cases List.infix_nil.mp h)
  | cons b bs ih =>
      by_cases hp : crlf <+: b :: bs
      · obtain ⟨hb, t, ht⟩ := crlf_prefix_cons hp
        exact Or.inr ⟨[], t, by rw [hb, ht]; rfl, fun h => by cases List.infix_nil.mp h⟩
      · rcases ih with hno | ⟨l, rest, heq, hl⟩
        · refine Or.inl (fun h => ?_)
          rcases List.infix_cons_iff.mp h with h1 | h2
          · exact hp h1
          · exact hno h2
        · refine Or.inr ⟨b :: l, rest, by rw [heq]; rfl, fun h => ?_⟩
          rcases List.infix_cons_iff.mp h with h1 | h2
          · obtain ⟨hb, t, ht⟩ := crlf_prefix_cons h1
            refine hp ?_
            rw [hb, heq, ht]
            exact ⟨t ++ cr :: lf :: rest, rfl⟩
          · exact hl h2

/-! ## What a header line means -/

/-- The response after the field `n: d`. -/
def fieldResp (n d : Bytes) (resp : HttpResponse) : HttpResponse :=
  if strcaseeq (lit "Connection") n then
    if strcaseeq d (lit "close") then { resp with connection := 0 }
    else if strcaseeq d (lit "keep-alive") then { resp with connection := 1 }
    else resp
  else if strcaseeq (lit "Content-Type") n then
    { resp with contentTypeIndex := indexOfMimeType (d.takeWhile (· ≠ 59)) }
  else if strcaseeq (lit "Content-Length") n then
    match scanInt d with
    | some (v, _) => { resp with contentLength := v }
    | none => resp
  else if strcaseeq (lit "Accept-Ranges") n then
    if strcaseeq (lit "bytes") d then { resp with acceptRange := .arBytes }
    else { resp with acceptRange := .arNotSupported }
  else if strcaseeq (lit "Transfer-Encoding") n then
    if strcaseeq (lit "chunked") d then { resp with transferEncoding := .teChunked }
    else { resp with transferEncoding := .teNotSupported }
  else resp

private theorem readStr_ok {mem : Bytes} {p : Nat} {s : Bytes} (h : cstr mem p = some s) :
    readStr mem p = .ok s := by
  rw [readStr, h]

/-- The field parser reads two strings and leaves memory as it was: the byte
    under its temporary NUL is the semicolon it puts back. -/
theorem httpParseResponseHeaderLine_spec {mem : Bytes} {name data : Nat} {n d : Bytes}
    (resp : HttpResponse) (hn : cstr mem name = some n) (hd : cstr mem data = some d) :
    ∃ code, httpParseResponseHeaderLine mem name data resp
      = .ok (mem, fieldResp n d resp, code) := by
  rw [httpParseResponseHeaderLine, readStr_ok hn, readStr_ok hd, fieldResp]
  simp only [bind, Except.bind, pure, Except.pure]
  by_cases h1 : strcaseeq (lit "Connection") n = true
  · rw [if_pos h1, if_pos h1]
    by_cases hc : strcaseeq d (lit "close") = true
    · rw [if_pos hc, if_pos hc]; exact ⟨_, rfl⟩
    · rw [if_neg hc, if_neg hc]
      by_cases hk : strcaseeq d (lit "keep-alive") = true
      · rw [if_pos hk, if_pos hk]; exact ⟨_, rfl⟩
      · rw [if_neg hk, if_neg hk]; exact ⟨_, rfl⟩
  rw [if_neg h1, if_neg h1]
  by_cases h2 : strcaseeq (lit "Content-Type") n = true
  · rw [if_pos h2, if_pos h2]
    cases hs : strchr 59 d with
    | none =>
        rw [takeWhile_ne_self (strchr_none hs)]
        exact ⟨_, rfl⟩
    | some k =>
        obtain ⟨pre, post, rfl, rfl, hpre⟩ := strchr_split hs
        rw [takeWhile_ne_append hpre]
        simp only [readStr_ok (cstr_set_nul hd), set_set_self (cstr_getElem? hd)]
        exact ⟨_, rfl⟩
  rw [if_neg h2, if_neg h2]
  by_cases h3 : strcaseeq (lit "Content-Length") n = true
  · rw [if_pos h3, if_pos h3]
    cases scanInt d with
    | none => exact ⟨_, rfl⟩
    | some v => exact ⟨_, rfl⟩
  rw [if_neg h3, if_neg h3]
  by_cases h4 : strcaseeq (lit "Accept-Ranges") n = true
  · rw [if_pos h4, if_pos h4]
    by_cases hb : strcaseeq (lit "bytes") d = true
    · rw [if_pos hb, if_pos hb]; exact ⟨_, rfl⟩
    · rw [if_neg hb, if_neg hb]; exact ⟨_, rfl⟩
  rw [if_neg h4, if_neg h4]
  by_cases h5 : strcaseeq (lit "Transfer-Encoding") n = true
  · rw [if_pos h5, if_pos h5]
    by_cases hb : strcaseeq (lit "chunked") d = true
    · rw [if_pos hb, if_pos hb]; exact ⟨_, rfl⟩
    · rw [if_neg hb, if_neg hb]; exact ⟨_, rfl⟩
  rw [if_neg h5, if_neg h5]
  exact ⟨_, rfl⟩

/-! ## One line -/

/-- The response after a status line that starts with `HTTP/`. -/
def statusResp (l : Bytes) (resp : HttpResponse) : HttpResponse :=
  match scanStatus (l.drop 5) resp with
  | .ok r => r
  | .error _ => resp

/-- What a line does to the response in each parse state; a header line is cut
    at its first `": "`. -/
def lineResp (state : ParseState) (l : Bytes) (resp : HttpResponse) : HttpResponse :=
  match state with
  | .hrFirstLine => statusResp l resp
  | .hrHeaderLine =>
      match strstr (lit ": ") l with
      | some k => fieldResp (l.take k) (l.drop (k + 2)) resp
      | none => resp
  | _ => resp

/-- A status line the parser can read: it starts with `HTTP/`, and the word it
    stores in `desc` fits there. -/
structure StatusLine (l : Bytes) : Prop where
  noNul : (0 : Byte) ∉ l
  noCrlf : ¬ crlf <:+: l
  http : lit "HTTP/" <+: l
  descFits : scanStatus (l.drop 5) .zero ≠ .error .outOfBounds

/-- A line of the form `Name: value`. -/
structure FieldLine (l : Bytes) : Prop where
  noNul : (0 : Byte) ∉ l
  noCrlf : ¬ crlf <:+: l
  colon : lit ": " <:+: l

/-- The lines that are well formed in a parse state. -/
def LineOk : ParseState → Bytes → Prop
  | .hrFirstLine, l => StatusLine l
  | .hrHeaderLine, l => FieldLine l
  | _, _ => False

/-- A line has no line end in it. -/
theorem LineOk.noCrlf {state : ParseState} {l : Bytes} (h : LineOk state l) :
    ¬ crlf <:+: l := by
  cases state with
  | hrFirstLine => exact StatusLine.noCrlf h
  | hrHeaderLine => exact FieldLine.noCrlf h
  | hrBody => exact h.elim
  | hrEnd => exact h.elim

/-- A line is not empty. -/
theorem LineOk.length_pos {state : ParseState} {l : Bytes} (h : LineOk state l) :
    0 < l.length := by
  cases state with
  | hrFirstLine =>
      have hle := (StatusLine.http h).length_le
      have h5 : (lit "HTTP/").length = 5 := rfl
      omega
  | hrHeaderLine =>
      have hle := (FieldLine.colon h).length_le
      have h2 : (lit ": ").length = 2 := rfl
      omega
  | hrBody => exact h.elim
  | hrEnd => exact h.elim

/-- Whether the status line reader overruns `desc` depends on the text only. -/
theorem scanStatus_uniform (s : Bytes) :
    (∀ r, ∃ r', scanStatus s r = .ok r') ∨ (∀ r, scanStatus s r = .error .outOfBounds) := by
  unfold scanStatus
  cases scanInt s with
  | none => exact Or.inl (fun r => ⟨_, rfl⟩)
  | some p1 =>
      obtain ⟨major, s1⟩ := p1
      dsimp only
      split
      · rename_i s2
        cases scanInt s2 with
        | none => exact Or.inl (fun r => ⟨_, rfl⟩)
        | some p2 =>
            obtain ⟨minor, s3⟩ := p2
            dsimp only
            cases scanInt s3 with
            | none => exact Or.inl (fun r => ⟨_, rfl⟩)
            | some p3 =>
                obtain ⟨code, s4⟩ := p3
                dsimp only
                cases scanWord s4 with
                | none => exact Or.inl (fun r => ⟨_, rfl⟩)
                | some w =>
                    dsimp only
                    by_cases hw : w.length ≤ responseCodeDescMax
                    · exact Or.inl (fun r => ⟨_, if_pos hw⟩)
                    · exact Or.inr (fun r => if_neg hw)
      · exact Or.inl (fun r => ⟨_, rfl⟩)

/-- A status line is read to its end. -/
theorem StatusLine.scan_ok {l : Bytes} (h : StatusLine l) (resp : HttpResponse) :
    scanStatus (l.drop 5) resp = .ok (statusResp l resp) := by
  rcases scanStatus_uniform (l.drop 5) with hok | herr
  · obtain ⟨r', hr'⟩ := hok resp
    rw [statusResp, hr']
  · exact absurd (herr .zero) h.descFits

private theorem readStr_at {pre s : Bytes} (rest : Bytes) (h : (0 : Byte) ∉ s) :
    readStr (pre ++ (s ++ 0 :: rest)) pre.length = .ok s :=
  readStr_ok (cstr_append h pre rest)

private theorem set_at (pre s rest : Bytes) (b c : Byte) :
    (pre ++ (s ++ b :: rest)).set (pre.length + s.length) c = pre ++ (s ++ c :: rest) := by
  simp

/-- A well-formed line is processed without leaving the buffer, which is then
    as before: every temporary NUL is undone. -/
theorem processLine_spec {state : ParseState} {l : Bytes} (h : LineOk state l)
    (resp : HttpResponse) (pre rest : Bytes) :
    processLine (pre ++ (l ++ cr :: rest)) pre.length (pre.length + l.length) state resp
      = .ok (pre ++ (l ++ cr :: rest), .hrHeaderLine, lineResp state l resp) := by
  cases state with
  | hrFirstLine =>
      have hl : StatusLine l := h
      obtain ⟨t, ht⟩ := hl.http
      have hstr : strstr (lit "HTTP") l = some 0 := by rw [← ht]; rfl
      have hcut : pre ++ (l ++ 0 :: rest)
          = (pre ++ lit "HTTP/") ++ (l.drop 5 ++ 0 :: rest) := by
        have hdrop : l.drop 5 = t := by rw [← ht]; rfl
        rw [hdrop, ← ht]
        simp
      have h5 : pre.length + 0 + 4 + 1 = (pre ++ lit "HTTP/").length := by
        rw [List.length_append]; rfl
      have hnul : (0 : Byte) ∉ l.drop 5 := fun hm => hl.noNul (List.mem_of_mem_drop hm)
      rw [processLine, set_at]
      simp only [readStr_at rest hl.noNul, hstr, bind, Except.bind]
      rw [h5, hcut, readStr_at rest hnul]
      simp only [hl.scan_ok resp, pure, Except.pure, lineResp]
      rw [← hcut, set_at]
  | hrHeaderLine =>
      have hl : FieldLine l := h
      obtain ⟨k, hk⟩ := strstr_of_infix hl.colon
      obtain ⟨n, d, hnd, hlen⟩ := strstr_split (by decide) hk
      have hnd' : l = n ++ 58 :: 32 :: d := hnd
      have hn : (0 : Byte) ∉ n := fun hm => hl.noNul (by rw [hnd']; simp [hm])
      have hd : (0 : Byte) ∉ d := fun hm => hl.noNul (by rw [hnd']; simp [hm])
      have hname : l.take k = n := by rw [hnd', ← hlen, List.take_left]
      have hdata : l.drop (k + 2) = d := by
        rw [hnd', ← hlen, List.drop_append]
        simp
      have hsplit : pre ++ (l ++ 0 :: rest)
          = pre ++ (n ++ 58 :: (32 :: d ++ 0 :: rest)) := by
        rw [hnd']; simp
      have hsecond : pre ++ (n ++ 0 :: (32 :: d ++ 0 :: rest))
          = (pre ++ n ++ [0, 32]) ++ (d ++ 0 :: rest) := by simp
      have hpos : pre.length + k + 2 = (pre ++ n ++ [0, 32]).length := by
        simp [hlen, Nat.add_assoc]
      have hreadName : cstr (pre ++ (n ++ 0 :: (32 :: d ++ 0 :: rest))) pre.length = some n :=
        cstr_append hn pre _
      have hreadData : cstr (pre ++ (n ++ 0 :: (32 :: d ++ 0 :: rest))) (pre.length + k + 2)
          = some d := by
        rw [hsecond, hpos]
        exact cstr_append hd _ rest
      obtain ⟨code, hcode⟩ := httpParseResponseHeaderLine_spec resp hreadName hreadData
      rw [processLine, set_at]
      simp only [readStr_at rest hl.noNul, hk, bind, Except.bind]
      rw [hsplit, ← hlen, set_at, hlen, hcode]
      simp only [pure, Except.pure, lineResp, hk, hname, hdata]
      rw [← hlen, set_at, ← hsplit, set_at]
  | hrBody => exact h.elim
  | hrEnd => exact h.elim

/-! ## Many lines -/

/-- Lines as they lie in a buffer, each ended by CR LF. -/
def linesText (ls : List Bytes) : Bytes := ls.flatMap (· ++ crlf)

/-- No lines are no bytes. -/
@[simp] theorem linesText_nil : linesText [] = [] := rfl

/-- The first line, its end, and the others. -/
@[simp] theorem linesText_cons (l : Bytes) (ls : List Bytes) :
    linesText (l :: ls) = l ++ (cr :: lf :: linesText ls) := by
  simp [linesText, crlf]

/-- Lines behind lines. -/
@[simp] theorem linesText_append (ls ms : List Bytes) :
    linesText (ls ++ ms) = linesText ls ++ linesText ms := by
  simp [linesText]

/-- Well-formed lines from a parse state on. -/
def LinesOk : ParseState → List Bytes → Prop
  | _, [] => True
  | state, l :: ls => LineOk state l ∧ LinesOk .hrHeaderLine ls

/-- The response after the lines. -/
def linesResp : ParseState → List Bytes → HttpResponse → HttpResponse
  | _, [], resp => resp
  | state, l :: ls, resp => linesResp .hrHeaderLine ls (lineResp state l resp)

/-- The parse state after the lines. -/
def linesState : ParseState → List Bytes → ParseState
  | state, [] => state
  | _, _ :: _ => .hrHeaderLine

/-- `next` is the separator before the current line. -/
def NextAt (next : Option Nat) (prev : Nat) : Prop := ∀ n, next = some n → n + 2 = prev

section Line

variable {pre l : Bytes}

/-- The line in front of the loop, and where the next one starts. -/
theorem line_split (pre l rest : Bytes) :
    pre ++ (l ++ cr :: lf :: rest) = (pre ++ l ++ crlf) ++ rest := by
  simp [crlf]

/-- The place behind a line and its end. -/
theorem line_length : (pre ++ l ++ crlf).length = pre.length + l.length + 2 := by
  rw [List.length_append, List.length_append]
  rfl

/-- That is where the search for the next end begins. -/
theorem nextAt_line : NextAt (some (pre.length + l.length)) (pre ++ l ++ crlf).length := by
  intro n hn
  rw [line_length, ← Option.some.inj hn]

/-- The empty line: only behind another one is it taken for the end. -/
theorem emptyLine_iff {next : Option Nat} (hnext : NextAt next pre.length) :
    next.map (· + 2) = some (pre.length + l.length) ↔ next.isSome = true ∧ l = [] := by
  cases next with
  | none => exact ⟨fun h => (by cases h), fun h => by cases h.1⟩
  | some n =>
      rw [Option.map_some, hnext n rfl, Option.some.injEq]
      constructor
      · intro h
        exact ⟨rfl, List.eq_nil_of_length_eq_zero (by omega)⟩
      · rintro ⟨-, rfl⟩
        rfl

end Line

private theorem window_line (pre l rest : Bytes) {dataLen : Nat}
    (h : pre.length + l.length + 2 ≤ dataLen) :
    ((pre ++ (l ++ cr :: lf :: rest)).drop pre.length).take (dataLen - pre.length)
      = l ++ cr :: lf :: rest.take (dataLen - pre.length - l.length - 2) := by
  rw [List.drop_left, List.take_append, List.take_of_length_le (by omega)]
  obtain ⟨m, hm⟩ : ∃ m, dataLen - pre.length - l.length = m + 2 :=
    ⟨dataLen - pre.length - l.length - 2, by omega⟩
  rw [hm]
  rfl

/-- One pass of the line loop over a well-formed line. -/
theorem lineLoop_line {dataLen fuel : Nat} {next : Option Nat} {pre l rest : Bytes}
    {ctx : HttpResponseContext} {resp : HttpResponse} {lines : List Bytes}
    (hl : LineOk ctx.state l) (hnext : NextAt next pre.length)
    (hlen : pre.length + l.length + 2 ≤ dataLen) :
    lineLoop dataLen (fuel + 1) next pre.length (pre ++ (l ++ cr :: lf :: rest)) ctx resp lines
      = lineLoop dataLen fuel (some (pre.length + l.length)) (pre.length + l.length + 2)
          (pre ++ (l ++ cr :: lf :: rest)) { ctx with state := .hrHeaderLine }
          (lineResp ctx.state l resp) (lines ++ [l]) := by
  have hne : ¬ next.map (· + 2) = some (pre.length + l.length) := by
    rw [emptyLine_iff hnext]
    rintro ⟨-, hnil⟩
    have hpos := hl.length_pos
    rw [hnil] at hpos
    exact Nat.lt_irrefl 0 hpos
  have hslice : ((pre ++ (l ++ cr :: lf :: rest)).drop pre.length).take
      (pre.length + l.length - pre.length) = l := by
    rw [List.drop_left, Nat.add_sub_cancel_left, List.take_left]
  rw [lineLoop, if_neg (by omega), window_line pre l rest hlen,
    findSeparator_line l false pre.length _ hl.noCrlf]
  simp only [if_neg hne, processLine_spec hl resp pre (lf :: rest), hslice]

/-- The line loop over any number of well-formed lines. -/
theorem lineLoop_lines (dataLen : Nat) (rest : Bytes) :
    ∀ (ls : List Bytes) (fuel : Nat) (next : Option Nat) (pre : Bytes)
      (ctx : HttpResponseContext) (resp : HttpResponse) (lines : List Bytes),
      LinesOk ctx.state ls → NextAt next pre.length →
      pre.length + (linesText ls).length ≤ dataLen →
      ∃ next', NextAt next' (pre.length + (linesText ls).length) ∧
        (next' = none → ls = [] ∧ next = none) ∧
        lineLoop dataLen (fuel + ls.length) next pre.length (pre ++ (linesText ls ++ rest))
            ctx resp lines
          = lineLoop dataLen fuel next' (pre.length + (linesText ls).length)
              (pre ++ (linesText ls ++ rest))
              { ctx with state := linesState ctx.state ls }
              (linesResp ctx.state ls resp) (lines ++ ls) := by
  intro ls
  induction ls with
  | nil =>
      intro fuel next pre ctx resp lines _ hnext _
      exact ⟨next, by simpa using hnext, fun h => ⟨rfl, h⟩,
        by simp [linesState, linesResp]⟩
  | cons l ls ih =>
      intro fuel next pre ctx resp lines hok hnext hlen
      obtain ⟨hl, hls⟩ := hok
      have htext : pre ++ (linesText (l :: ls) ++ rest)
          = pre ++ (l ++ cr :: lf :: (linesText ls ++ rest)) := by simp
      have hpre : pre ++ (l ++ cr :: lf :: (linesText ls ++ rest))
          = (pre ++ l ++ crlf) ++ (linesText ls ++ rest) := line_split pre l _
      have hprelen : (pre ++ l ++ crlf).length = pre.length + l.length + 2 := line_length
      have htextlen : (linesText (l :: ls)).length = l.length + 2 + (linesText ls).length := by
        simp; omega
      obtain ⟨next', h1, h2, h3⟩ := ih fuel _ (pre ++ l ++ crlf)
        { ctx with state := .hrHeaderLine } (lineResp ctx.state l resp) (lines ++ [l])
        hls nextAt_line (by omega)
      refine ⟨next', ?_, fun h => absurd (h2 h).2 (by simp), ?_⟩
      · have hpos : pre.length + (linesText (l :: ls)).length
            = (pre ++ l ++ crlf).length + (linesText ls).length := by omega
        rw [hpos]
        exact h1
      · have hstate : linesState .hrHeaderLine ls = linesState ctx.state (l :: ls) := by
          cases ls <;> rfl
        rw [htext, List.length_cons, ← Nat.add_assoc,
          lineLoop_line hl hnext (by omega), hpre, ← hprelen, h3, hstate,
          List.append_assoc lines [l] ls,
          show (pre ++ l ++ crlf).length + (linesText ls).length
            = pre.length + (linesText (l :: ls)).length by omega]
        rfl

/-! ## One call on known lines -/

/-- There are at least as many bytes as lines. -/
theorem linesText_length_ge : ∀ ls : List Bytes, ls.length ≤ (linesText ls).length := by
  intro ls
  induction ls with
  | nil => exact Nat.le_refl _
  | cons l ls ih => simp; omega

/-- **COMPLETE LINES AND A TAIL**: the lines are processed and the tail, which
    has no CR LF, is moved to the front for the next read. -/
theorem parse_tail {ls : List Bytes} {w stale : Bytes} {ctx : HttpResponseContext}
    {resp : HttpResponse} {dataLen : Nat} (hok : LinesOk ctx.state ls)
    (hw : ¬ crlf <:+: w) (hlen : dataLen = (linesText ls).length + w.length)
    (hpos : 0 < dataLen) :
    httpParseResponseHeaderPerBuffer (linesText ls ++ (w ++ stale)) dataLen ctx resp
      = .ok { buffer := store (linesText ls ++ (w ++ stale)) 0 w,
              ctx := { ctx with state := linesState ctx.state ls,
                                remainDataIndex := (linesText ls).length,
                                remainDataLen := w.length },
              resp := linesResp ctx.state ls resp,
              lines := ls } := by
  have hfuel : dataLen + 1 = (dataLen - ls.length + 1) + ls.length := by
    have := linesText_length_ge ls
    omega
  obtain ⟨next, -, -, hloop⟩ := lineLoop_lines dataLen (w ++ stale) ls
    (dataLen - ls.length + 1) none [] { ctx with remainDataIndex := 0, remainDataLen := 0 } resp []
    hok (fun n hn => by cases hn) (by simp; omega)
  simp only [List.length_nil, Nat.zero_add, List.nil_append] at hloop
  have hwin : ((linesText ls ++ (w ++ stale)).drop (linesText ls).length).take
      (dataLen - (linesText ls).length) = w := by
    rw [List.drop_left, hlen, Nat.add_sub_cancel_left, List.take_left]
  have htail : ((linesText ls ++ (w ++ stale)).drop (linesText ls).length).take w.length = w := by
    rw [List.drop_left, List.take_left]
  have hrem : dataLen - (linesText ls).length = w.length := by omega
  rw [httpParseResponseHeaderPerBuffer, hfuel, hloop, lineLoop, if_neg (by omega), hwin,
    findSeparator_none w false _ hw]
  simp only [hrem]
  rw [if_pos (by omega)]
  by_cases hw0 : 0 < w.length
  · simp only [finishBuffer, if_pos hw0, htail]
  · have hnil : w = [] := List.eq_nil_of_length_eq_zero (by omega)
    have hstate : linesState ctx.state ls ≠ .hrBody := by
      cases ls with
      | nil => rw [hnil] at hlen; simp at hlen; omega
      | cons l ls => simp [linesState]
    simp only [finishBuffer, hnil, List.length_nil, Nat.lt_irrefl, if_false, if_neg hstate]
    rfl

/-- **THE END OF THE HEAD**: after at least one line in the same buffer an empty
    line ends the head, and the body starts behind it. -/
theorem parse_body {ls : List Bytes} {b stale : Bytes} {ctx : HttpResponseContext}
    {resp : HttpResponse} {dataLen : Nat} (hok : LinesOk ctx.state ls) (hne : ls ≠ [])
    (hlen : dataLen = (linesText ls).length + 2 + b.length) :
    httpParseResponseHeaderPerBuffer (linesText ls ++ (crlf ++ (b ++ stale))) dataLen ctx resp
      = .ok { buffer := linesText ls ++ (crlf ++ (b ++ stale)),
              ctx := { ctx with state := .hrBody,
                                remainDataIndex := (linesText ls).length + 2,
                                remainDataLen := b.length },
              resp := linesResp ctx.state ls resp,
              lines := ls } := by
  have hfuel : dataLen + 1 = (dataLen - ls.length + 1) + ls.length := by
    have := linesText_length_ge ls
    omega
  obtain ⟨next, hnext, hnone, hloop⟩ := lineLoop_lines dataLen (crlf ++ (b ++ stale)) ls
    (dataLen - ls.length + 1) none [] { ctx with remainDataIndex := 0, remainDataLen := 0 } resp []
    hok (fun n hn => by cases hn) (by simp; omega)
  simp only [List.length_nil, Nat.zero_add, List.nil_append] at hloop hnext
  have hwin : ((linesText ls ++ (crlf ++ (b ++ stale))).drop (linesText ls).length).take
      (dataLen - (linesText ls).length)
      = [] ++ cr :: lf :: b := by
    rw [List.drop_left, show dataLen - (linesText ls).length = (crlf ++ b).length by
      simp [crlf]; omega, ← List.append_assoc, List.take_left]
    rfl
  have hsome : next.map (· + 2) = some ((linesText ls).length + 0) := by
    cases next with
    | none => exact absurd (hnone rfl).1 hne
    | some n => rw [Option.map_some, hnext n rfl, Nat.add_zero]
  rw [httpParseResponseHeaderPerBuffer, hfuel, hloop, lineLoop, if_neg (by omega), hwin,
    findSeparator_line [] false _ b (fun h => by cases List.infix_nil.mp h)]
  simp only [List.length_nil, if_pos hsome, finishBuffer, Nat.lt_irrefl, if_false, if_true]
  have hrem : dataLen - (linesText ls).length - 2 = b.length := by omega
  rw [hrem]

/-- **A LINE EMPTY AT THE START OF THE BUFFER** is not taken for the end of the
    head: it has no separator before it, so it is handed to a line reader, whose
    search in the empty string fails. -/
theorem parse_leading_empty {rest : Bytes} {ctx : HttpResponseContext} {resp : HttpResponse}
    {dataLen : Nat} (hstate : ctx.state.beforeBody = true) (hlen : 2 ≤ dataLen) :
    httpParseResponseHeaderPerBuffer (cr :: lf :: rest) dataLen ctx resp
      = .error .nullDeref := by
  have hwin : ((cr :: lf :: rest).drop 0).take (dataLen - 0)
      = [] ++ cr :: lf :: rest.take (dataLen - 2) := by
    obtain ⟨m, rfl⟩ : ∃ m, dataLen = m + 2 := ⟨dataLen - 2, by omega⟩
    rfl
  rw [httpParseResponseHeaderPerBuffer, lineLoop, if_neg (by omega), hwin,
    findSeparator_line [] false 0 _ (fun h => by cases List.infix_nil.mp h)]
  cases hs : ctx.state with
  | hrFirstLine => rfl
  | hrHeaderLine => rfl
  | hrBody => rw [hs] at hstate; cases hstate
  | hrEnd => rw [hs] at hstate; cases hstate

/-! ## Where the bytes of any buffer go -/

private theorem readStr_eq {mem s : Bytes} {p : Nat} (h : readStr mem p = .ok s) :
    cstr mem p = some s := by
  rw [readStr] at h
  cases hc : cstr mem p with
  | none => rw [hc] at h; cases h
  | some t => rw [hc] at h; injection h with h; rw [h]

/-- Bytes laid down by lines, separators included. -/
def linesLength (ls : List Bytes) : Nat := (linesText ls).length

/-- The lengths of lines add up. -/
@[simp] theorem linesLength_append (ls ms : List Bytes) :
    linesLength (ls ++ ms) = linesLength ls + linesLength ms := by
  simp [linesLength]

/-- A line end is two bytes. -/
theorem linesLength_one (l : Bytes) : linesLength [l] = l.length + 2 := by
  simp [linesLength]

/-- Whatever the line holds, processing it gives the buffer back unchanged or
    does not come back at all. -/
theorem processLine_ok {buffer b' : Bytes} {prev next : Nat} {state st' : ParseState}
    {resp r' : HttpResponse} (hcr : buffer[next]? = some cr)
    (hstate : state.beforeBody = true)
    (h : processLine buffer prev next state resp = .ok (b', st', r')) :
    b' = buffer ∧ st' = .hrHeaderLine := by
  -- the carriage return overwritten to end the line is put back behind it
  have hundo : (buffer.set next 0).set next cr = buffer := set_set_self hcr
  cases state with
  | hrFirstLine =>
      rw [processLine] at h
      simp only [bind, Except.bind] at h
      cases h1 : readStr (buffer.set next 0) prev with
      | error e => rw [h1] at h; cases h
      | ok line =>
          rw [h1] at h
          dsimp only at h
          cases h2 : strstr (lit "HTTP") line with
          | none => rw [h2] at h; cases h
          | some k =>
              rw [h2] at h
              dsimp only at h
              cases h3 : readStr (buffer.set next 0) (prev + k + 4 + 1) with
              | error e => rw [h3] at h; cases h
              | ok s =>
                  rw [h3] at h
                  dsimp only at h
                  cases h4 : scanStatus s resp with
                  | error e => rw [h4] at h; cases h
                  | ok r =>
                      rw [h4] at h
                      injection h with h
                      simp only [Prod.mk.injEq, hundo] at h
                      exact ⟨h.1.symm, h.2.1.symm⟩
  | hrHeaderLine =>
      rw [processLine] at h
      simp only [bind, Except.bind] at h
      cases h1 : readStr (buffer.set next 0) prev with
      | error e => rw [h1] at h; cases h
      | ok line =>
          rw [h1] at h
          dsimp only at h
          cases h2 : strstr (lit ": ") line with
          | none => rw [h2] at h; cases h
          | some k =>
              rw [h2] at h
              dsimp only at h
              obtain ⟨n, d, hnd, hlen⟩ := strstr_split (by decide) h2
              have hcolon : (buffer.set next 0)[prev + k]? = some 58 := by
                have hline : cstr (buffer.set next 0) prev = some (n ++ 58 :: (32 :: d)) := by
                  rw [readStr_eq h1, hnd]
                  rfl
                rw [← hlen]
                exact cstr_getElem? hline
              -- and so is the colon that ended the name
              have hundo2 := set_set_self (c := 0) hcolon
              generalize hsp : (buffer.set next 0).set (prev + k) 0 = split at h hundo2
              cases h3 : httpParseResponseHeaderLine split prev (prev + k + 2) resp with
              | error e => rw [h3] at h; cases h
              | ok out =>
                  obtain ⟨m, r, c⟩ := out
                  -- the line parser reads the buffer and gives it back
                  have hm : m = split := by
                    rw [httpParseResponseHeaderLine] at h3
                    simp only [bind, Except.bind] at h3
                    cases h4 : readStr split prev with
                    | error e => rw [h4] at h3; cases h3
                    | ok nm =>
                        cases h5 : readStr split (prev + k + 2) with
                        | error e => rw [h4, h5] at h3; cases h3
                        | ok dt =>
                            obtain ⟨code, hspec⟩ := httpParseResponseHeaderLine_spec resp
                              (readStr_eq h4) (readStr_eq h5)
                            rw [httpParseResponseHeaderLine] at hspec
                            simp only [bind, Except.bind] at hspec
                            rw [hspec] at h3
                            injection h3 with h3
                            exact (congrArg Prod.fst h3).symm
                  rw [h3] at h
                  injection h with h
                  simp only [Prod.mk.injEq, hm, hundo2, hundo] at h
                  exact ⟨h.1.symm, h.2.1.symm⟩
  | hrBody => cases hstate
  | hrEnd => cases hstate

/-- The end of a buffer adds no line. -/
theorem finishBuffer_lines (buffer : Bytes) (dataLen prev : Nat) (ctx : HttpResponseContext)
    (resp : HttpResponse) (lines : List Bytes) :
    (finishBuffer buffer dataLen prev ctx resp lines).lines = lines := by
  rw [finishBuffer]
  by_cases h1 : 0 < ctx.remainDataLen
  · rw [if_pos h1]
  · rw [if_neg h1]
    by_cases h2 : ctx.state = .hrBody
    · rw [if_pos h2]
    · rw [if_neg h2]

/-- It moves bytes inside the buffer only. -/
theorem finishBuffer_length {buffer : Bytes} (dataLen prev : Nat) {ctx : HttpResponseContext}
    (resp : HttpResponse) (lines : List Bytes)
    (h : ctx.remainDataIndex + ctx.remainDataLen ≤ buffer.length) :
    (finishBuffer buffer dataLen prev ctx resp lines).buffer.length = buffer.length := by
  rw [finishBuffer]
  by_cases h1 : 0 < ctx.remainDataLen
  · rw [if_pos h1]
    show (store buffer 0 _).length = _
    rw [store_length]
    rw [List.length_take, List.length_drop]
    omega
  · rw [if_neg h1]
    by_cases h2 : ctx.state = .hrBody
    · rw [if_pos h2]
    · rw [if_neg h2]

/-- While the head goes on it leaves the context alone. -/
theorem finishBuffer_ctx {buffer : Bytes} {dataLen prev : Nat} {ctx : HttpResponseContext}
    {resp : HttpResponse} {lines : List Bytes} (h : ctx.state ≠ .hrBody) :
    (finishBuffer buffer dataLen prev ctx resp lines).ctx = ctx := by
  rw [finishBuffer]
  by_cases h1 : 0 < ctx.remainDataLen
  · rw [if_pos h1]
  · rw [if_neg h1, if_neg h]

/-- The two ways a call can end, with the bytes of the window counted out: lines,
    then either a tail to carry or the empty line and the body. -/
structure Counted (prev dataLen : Nat) (ls : List Bytes) (hp : HeadParse) : Prop where
  tail : hp.ctx.state ≠ .hrBody → hp.ctx.state.beforeBody = true ∧
    prev + linesLength ls + hp.ctx.remainDataLen = dataLen
  body : hp.ctx.state = .hrBody →
    hp.ctx.remainDataIndex = prev + linesLength ls + 2 ∧
    hp.ctx.remainDataIndex + hp.ctx.remainDataLen = dataLen

/-- The line loop accounts for every byte of its window. -/
theorem lineLoop_counted {dataLen : Nat} :
    ∀ (fuel : Nat) {next : Option Nat} {prev : Nat} {buffer : Bytes}
      (ctx : HttpResponseContext) {resp : HttpResponse} {lines : List Bytes} {hp : HeadParse},
      ctx.state.beforeBody = true → ctx.remainDataIndex = 0 → ctx.remainDataLen = 0 →
      prev ≤ dataLen → dataLen ≤ buffer.length →
      lineLoop dataLen fuel next prev buffer ctx resp lines = .ok hp →
      ∃ ls, hp.lines = lines ++ ls ∧ hp.buffer.length = buffer.length ∧
        (hp.ctx.state = .hrBody → next = none → ls ≠ []) ∧ Counted prev dataLen ls hp := by
  intro fuel
  induction fuel with
  | zero => intro next prev buffer ctx resp lines hp _ _ _ _ _ h; cases h
  | succ fuel ih =>
      intro next prev buffer ctx resp lines hp hstate hidx hrem hprev hbuf h
      have hnb : ctx.state ≠ .hrBody := fun e => by rw [e] at hstate; cases hstate
      rw [lineLoop, if_neg (by omega)] at h
      have hwlen : ((buffer.drop prev).take (dataLen - prev)).length = dataLen - prev := by
        rw [List.length_take, List.length_drop]; omega
      rcases line_or_tail ((buffer.drop prev).take (dataLen - prev)) with
        hno | ⟨l, rest, hsplit, hl⟩
      · -- no separator: the tail is carried
        rw [findSeparator_none _ false prev hno] at h
        dsimp only at h
        by_cases hpos : 0 < prev ∨ 0 < dataLen - prev
        · rw [if_pos hpos] at h
          have hout := Except.ok.inj h
          have hctx : hp.ctx = { ctx with remainDataIndex := prev,
                                          remainDataLen := dataLen - prev } := by
            rw [← hout]
            exact finishBuffer_ctx hnb
          refine ⟨[], ?_, ?_, ?_, ?_⟩
          · rw [← hout, finishBuffer_lines, List.append_nil]
          · rw [← hout]
            refine finishBuffer_length dataLen prev resp lines ?_
            show prev + (dataLen - prev) ≤ buffer.length
            omega
          · intro hb
            rw [hctx] at hb
            exact absurd hb hnb
          · constructor
            · intro _
              rw [hctx]
              refine ⟨hstate, ?_⟩
              show prev + 0 + (dataLen - prev) = dataLen
              omega
            · intro hb
              rw [hctx] at hb
              exact absurd hb hnb
        · rw [if_neg hpos] at h
          cases h
      · -- a separator at the end of the line `l`
        have hlen : l.length + 2 + rest.length = dataLen - prev := by
          rw [← hwlen, hsplit]
          simp only [List.length_append, List.length_cons]
          omega
        rw [hsplit, findSeparator_line l false prev rest hl] at h
        dsimp only at h
        by_cases hempty : next.map (· + 2) = some (prev + l.length)
        · rw [if_pos hempty] at h
          have hout := Except.ok.inj h
          have hctx : hp.ctx = { ctx with state := .hrBody, remainDataIndex := prev + 2,
                                          remainDataLen := dataLen - prev - 2 } := by
            rw [← hout, finishBuffer]
            simp only [hrem, Nat.lt_irrefl, if_false, if_true]
          refine ⟨[], ?_, ?_, ?_, ?_⟩
          · rw [← hout, finishBuffer]
            simp only [hrem, Nat.lt_irrefl, if_false, if_true, List.append_nil]
          · rw [← hout, finishBuffer]
            simp only [hrem, Nat.lt_irrefl, if_false, if_true]
          · intro _ hnone
            rw [hnone] at hempty
            cases hempty
          · constructor
            · intro hb
              rw [hctx] at hb
              exact absurd rfl hb
            · intro _
              rw [hctx]
              refine ⟨rfl, ?_⟩
              show prev + 2 + (dataLen - prev - 2) = dataLen
              omega
        · rw [if_neg hempty] at h
          have hcr : buffer[prev + l.length]? = some cr := by
            have h1 : ((buffer.drop prev).take (dataLen - prev))[l.length]? = some cr := by
              rw [hsplit]; simp
            rw [List.getElem?_take_of_lt (by omega), List.getElem?_drop] at h1
            exact h1
          have hslice : (buffer.drop prev).take (prev + l.length - prev) = l := by
            have h1 : ((buffer.drop prev).take (dataLen - prev)).take l.length = l := by
              rw [hsplit, List.take_left]
            rw [List.take_take, Nat.min_eq_left (by omega)] at h1
            rw [Nat.add_sub_cancel_left]
            exact h1
          cases hproc : processLine buffer prev (prev + l.length) ctx.state resp with
          | error e => rw [hproc] at h; cases h
          | ok out =>
              obtain ⟨b', st', r'⟩ := out
              obtain ⟨hb', hst'⟩ := processLine_ok hcr hstate hproc
              rw [hproc] at h
              dsimp only at h
              rw [hb', hst', hslice] at h
              obtain ⟨ls, hls, hblen, -, hcount⟩ := ih { ctx with state := .hrHeaderLine }
                rfl hidx hrem (by omega) hbuf h
              refine ⟨l :: ls, by rw [hls]; simp, hblen, fun _ _ => List.cons_ne_nil l ls, ?_⟩
              have hll : linesLength (l :: ls) = l.length + 2 + linesLength ls := by
                rw [show l :: ls = [l] ++ ls from rfl, linesLength_append, linesLength_one]
              constructor
              · intro hb
                obtain ⟨h1, h2⟩ := hcount.tail hb
                exact ⟨h1, by rw [hll]; omega⟩
              · intro hb
                obtain ⟨h1, h2⟩ := hcount.body hb
                exact ⟨by rw [hll]; omega, h2⟩

/-- **EVERY BYTE IS ACCOUNTED FOR**: a call on any buffer either does not come
    back or splits its window into lines, and a tail or the empty line and the
    body. -/
theorem parse_counted {buffer : Bytes} {dataLen : Nat} {ctx : HttpResponseContext}
    {resp : HttpResponse} {hp : HeadParse} (hstate : ctx.state.beforeBody = true)
    (hlen : dataLen ≤ buffer.length)
    (h : httpParseResponseHeaderPerBuffer buffer dataLen ctx resp = .ok hp) :
    hp.buffer.length = buffer.length ∧ (hp.ctx.state = .hrBody → hp.lines ≠ []) ∧
      Counted 0 dataLen hp.lines hp := by
  obtain ⟨ls, hls, hb, hne, hc⟩ := lineLoop_counted (dataLen + 1)
    { ctx with remainDataIndex := 0, remainDataLen := 0 } hstate rfl rfl
    (Nat.zero_le _) hlen h
  rw [List.nil_append] at hls
  rw [hls]
  exact ⟨hb, fun hs => hne hs rfl, hc⟩

end HttpHeader
