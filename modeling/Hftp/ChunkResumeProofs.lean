import Hftp.ChunkedRoundTripProofs
import Hftp.HeadSegmentationProofs

/-! # Chunked bodies cut by the network

    A chunked body is resumed from what the decoder left in the record of the
    connection.  Inside a chunk and inside a separator any cut will do; a size
    field must be completed by the next read, and where a read ends between two
    chunks the decoder looks at bytes that were not received. -/

namespace ChunkResume

open CBytes HttpCore HttpHeader HttpChunked HttpResp HeadSegmentation ChunkedCodec ChunkedWindow
  ChunkedRoundTrip

/-! ## What a call did to the body -/

/-- The bytes handed to `resp_body_func`, in order. -/
def bodyBytes (calls : List RespCall) : Bytes :=
  calls.flatMap fun call =>
    match call with
    | .header _ => []
    | .body piece => piece.bytes

theorem bodyBytes_append (cs ds : List RespCall) :
    bodyBytes (cs ++ ds) = bodyBytes cs ++ bodyBytes ds := List.flatMap_append

theorem bodyBytes_pieces (ps : List Piece) : bodyBytes (ps.map .body) = delivered ps := by
  rw [bodyBytes, List.flatMap_map]
  rfl

/-- What a caller can tell of a response. -/
structure Outcome where
  body : Bytes
  bodyLen : Int
  stop : Except Abort Int
  state : ParseState
  deriving DecidableEq, Repr

def outcome (run : RespRun) : Outcome :=
  { body := bodyBytes run.s.calls, bodyLen := run.s.bodyLen, stop := run.stop,
    state := run.s.ctx.state }

/-! ## Responses and cuts -/

/-- A head that announces chunks, and the chunks. -/
structure ChunkedResponse where
  head : ResponseHead
  chunks : List Chunk
  announced : (linesResp .hrFirstLine head.lines .zero).transferEncoding = .teChunked

/-- A way the response arrives: the body bytes that come with the head, and the
    reads after that. -/
structure BodyCut (r : ChunkedResponse) (buffer : Bytes) where
  first : Bytes
  later : List Bytes
  fits : (r.head.text ++ first).length ≤ buffer.length
  joined : first ++ later.flatten = encode r.chunks
  results : ∀ d ∈ later, d ≠ [] ∧ d.length ≤ buffer.length

/-- The connection the response arrives on, with its `resp_body_func`. -/
structure Peer where
  sockfd : Int
  clb : HttpCallback
  ending : Ending
  fd : sockfd > 2
  listens : clb.respBodyFunc.isSome = true

/-- The call with the response arriving as cut. -/
def BodyCut.run {r : ChunkedResponse} {buffer : Bytes} (c : BodyCut r buffer) (peer : Peer) :
    RespRun :=
  httpInternalResponse (.fresh peer.sockfd peer.clb) buffer
    { segs := (r.head.text ++ c.first) :: c.later, ending := peer.ending, taken := 0 }

/-! ## Cuts that are resumed right -/

/-- A read that ends between two chunks, or after a `0`, is not followed in the
    buffer by what would make the terminating chunk. -/
def restsWell (buffer : Bytes) (stop : Nat) : Pending → Bool
  | .size pre =>
      match looksEnd buffer ((stop : Int) - pre.length) with
      | .ok false => true
      | _ => false
  | _ => true

/-- A read after one that ended in a size field completes it. -/
def completes : Pending → Nat → Bool
  | .size pre, n => decide (4 ≤ pre.length + n)
  | _, _ => true

/-- **THE CUTS THAT ARE RESUMED**, after `n` bytes of the coding of which the last
    lies before `stop` in the buffer. -/
def resumes (chunks : List Chunk) : Nat → Nat → Bytes → List Bytes → Bool
  | n, stop, buffer, [] =>
      decide (pendingAt chunks n = .done) || restsWell buffer stop (pendingAt chunks n)
  | n, stop, buffer, d :: ds =>
      decide (pendingAt chunks n = .done) ||
        (restsWell buffer stop (pendingAt chunks n) && completes (pendingAt chunks n) d.length &&
          resumes chunks (n + d.length) d.length (store buffer 0 d) ds)

/-- A cut of a response is safe when the first read brings four bytes of the body
    and every later read resumes. -/
def BodyCut.safe {r : ChunkedResponse} {buffer : Bytes} (c : BodyCut r buffer) : Bool :=
  decide (4 ≤ c.first.length) &&
    resumes r.chunks c.first.length (r.head.text ++ c.first).length
      (store buffer 0 (r.head.text ++ c.first)) c.later

theorem restsWell_noLook {buffer : Bytes} {stop : Nat} {p : Pending}
    (h : restsWell buffer stop p = true) : NoLookEnd buffer stop p := by
  rintro pre rfl
  rw [restsWell] at h
  split at h
  · assumption
  · cases h

theorem completes_completes {p : Pending} {n : Nat} (h : completes p n = true) :
    Completes p n := by
  rintro pre rfl
  exact of_decide_eq_true h

/-! ## A pass over chunks -/

/-- The state of a call in the middle of a chunked body, after `n` bytes of the
    coding. -/
structure Receiving (chunks : List Chunk) (n : Nat) (s : RespLocal) : Prop where
  state : s.ctx.state = .hrBody
  flag : s.headerEndFlag = true
  chunked : s.resp.transferEncoding = .teChunked
  forced : s.forcedContinue = true
  remainIndex : s.ctx.remainDataIndex = 0
  remainLen : s.ctx.remainDataLen = 0
  held : Held (pendingAt chunks n) s.ctx
  live : s.ctx.chunkSize ≠ 0

/-- A call that decoded what it read, seen from the loop: it goes on receiving, or
    it is at the end of the response. -/
inductive Passed (onBody : Bool) (chunks : List Chunk) (n : Nat) (gain : Bytes)
    (s : RespLocal) : RespFlow → Prop where
  | going (s' : RespLocal) (hr : Receiving chunks n s') (hmore : pendingAt chunks n ≠ .done)
      (hcalls : bodyBytes s'.calls = bodyBytes s.calls ++ (if onBody then gain else []))
      (hbody : s'.bodyLen = s.bodyLen + gain.length)
      (hbuf : s'.buffer = s.buffer) (hsock : s'.sock = s.sock) :
      Passed onBody chunks n gain s (.go s')
  | ended (s' : RespLocal) (hdone : pendingAt chunks n = .done)
      (hstate : s'.ctx.state = .hrEnd)
      (hcalls : bodyBytes s'.calls = bodyBytes s.calls ++ (if onBody then gain else []))
      (hbody : s'.bodyLen = s.bodyLen + gain.length) :
      Passed onBody chunks n gain s (.ret 0 s')

/-- What `http_internal_response` makes of a call of the decoder. -/
theorem chunkedBody_passed {onBody : Bool} {readLen : Nat} {s : RespLocal}
    {chunks : List Chunk} {n : Nat} {gain : Bytes} {t : ChunkLocal}
    (hrun : Reaches onBody t (pendingAt chunks n) gain
      (httpChunkedResponseBody onBody s.buffer readLen s.ctx s.bodyLen))
    (hpieces : t.pieces = []) (hlen : t.bodyLen = s.bodyLen) (hctx : t.ctx.state = .hrBody)
    (hidx : t.ctx.remainDataIndex = 0) (hrem : t.ctx.remainDataLen = 0)
    (hflag : s.headerEndFlag = true) (hchunked : s.resp.transferEncoding = .teChunked) :
    Passed onBody chunks n gain s ((chunkedBody onBody readLen s).andThen bodyEnd) := by
  have hpieces' : delivered (httpChunkedResponseBody onBody s.buffer readLen s.ctx s.bodyLen).s.pieces
      = if onBody then gain else [] := by
    rw [hrun.pieces, hpieces]
    rfl
  rw [chunkedBody]
  simp only [hrun.stop, RespFlow.andThen, bodyEnd, hchunked, true_and]
  rw [if_neg (by rintro ⟨h, -⟩; cases h)]
  by_cases hdone : pendingAt chunks n = .done
  · have hzero : (httpChunkedResponseBody onBody s.buffer readLen s.ctx s.bodyLen).s.ctx.chunkSize
        = 0 := by
      have := hrun.held
      rw [hdone] at this
      exact this
    rw [if_pos hzero]
    refine .ended _ hdone rfl ?_ ?_
    · rw [bodyBytes_append, bodyBytes_pieces, hpieces']
    · exact hrun.bodyLen.trans (by rw [hlen])
  · rw [if_neg (hrun.live hdone)]
    refine .going _ ⟨?_, hflag, hchunked, ?_, ?_, ?_, hrun.held, hrun.live hdone⟩ hdone ?_ ?_ rfl rfl
    · exact hrun.state.trans hctx
    · exact decide_eq_true hdone
    · exact hrun.remainIndex.trans hidx
    · exact hrun.remainLen.trans hrem
    · rw [bodyBytes_append, bodyBytes_pieces, hpieces']
    · exact hrun.bodyLen.trans (by rw [hlen])

/-- A later read is decoded as far as it goes. -/
theorem later_pass (onHeader onBody : Bool) {s : RespLocal} {chunks : List Chunk} {n : Nat}
    {t d stale : Bytes} (h4 : ∀ c ∈ chunks, c.FourDigits) (hs : Receiving chunks n s)
    (hd : d ≠ []) (hbuf : s.buffer = d ++ stale) (hpre : d <+: (codingThen t chunks).drop n)
    (hmore : pendingAt chunks n ≠ .done) (hcomplete : Completes (pendingAt chunks n) d.length)
    (hend : NoLookEnd s.buffer d.length (pendingAt chunks (n + d.length))) :
    ∃ gain, contentsAt chunks (n + d.length) = contentsAt chunks n ++ gain ∧
      Passed onBody chunks (n + d.length) gain s (respPass onHeader onBody 0 d.length s) := by
  have hdpos : d.length ≠ 0 := fun h => hd (List.eq_nil_of_length_eq_zero h)
  have hat : At s.buffer (enter d.length s.ctx s.bodyLen) d := by
    refine ⟨[], stale, hbuf, ?_, ?_⟩
    · show (s.ctx.remainDataIndex : Int) = _
      rw [hs.remainIndex]
      rfl
    · show (if s.ctx.remainDataLen ≠ 0 then (s.ctx.remainDataLen : Int) else d.length) = _
      rw [hs.remainLen]
      rfl
  have hstop : (enter d.length s.ctx s.bodyLen).index + (enter d.length s.ctx s.bodyLen).len
      = d.length := by
    rw [hat.len]
    show (s.ctx.remainDataIndex : Int) + _ = _
    rw [hs.remainIndex]
    exact Int.zero_add _
  obtain ⟨gain, hgain, hrun⟩ := resume_run onBody (chunkFuel s.buffer) (n := n) (w := d)
    (s := enter d.length s.ctx s.bodyLen) h4 hat hpre rfl
    (by
      have := hs.held
      cases hp : pendingAt chunks n with
      | size pre => rw [hp] at this; exact this
      | mid k c => rw [hp] at this; exact this
      | data k => rw [hp] at this; exact this
      | tail k => rw [hp] at this; exact this
      | done => exact absurd hp hmore) hmore (Or.inl hs.live) hcomplete
    (by rw [hbuf]; exact fuel_enough [] d stale) (by rw [hstop]; exact hend)
  refine ⟨gain, hgain, ?_⟩
  have hpass : respPass onHeader onBody 0 d.length s
      = (chunkedBody onBody d.length s).andThen bodyEnd := by
    have hparse : parsePass d.length s = .ok s := by
      rw [parsePass, hs.state]
      rfl
    rw [respPass, hparse]
    simp only [hs.state, hs.flag, if_true]
    rw [nextBody, hs.chunked]
  rw [hpass]
  refine chunkedBody_passed (t := enter d.length s.ctx s.bodyLen) ?_ rfl rfl hs.state rfl rfl
    hs.flag hs.chunked
  rw [body_call hdpos]
  exact hrun

/-- The pass that finds the end of the head calls the decoder on the bytes behind it. -/
theorem first_chunked (onHeader onBody : Bool) (readOff : Nat) {readLen : Nat} {s : RespLocal}
    {ls : List Bytes} {first stale : Bytes} (hstate : s.ctx.state.beforeBody = true)
    (hflag : s.headerEndFlag = false) (hok : LinesOk s.ctx.state ls) (hne : ls ≠ [])
    (hbuf : s.buffer = linesText ls ++ (crlf ++ (first ++ stale)))
    (hlen : readLen = (linesText ls).length + 2 + first.length)
    (hchunked : (linesResp s.ctx.state ls s.resp).transferEncoding = .teChunked) :
    ∃ s', respPass onHeader onBody readOff readLen s
        = (chunkedBody onBody readLen s').andThen bodyEnd ∧
      s'.ctx = { s.ctx with state := .hrBody,
                            remainDataIndex := (linesText ls).length + 2,
                            remainDataLen := first.length,
                            chunkTerminateState := .sizeByte } ∧
      s'.buffer = s.buffer ∧ bodyBytes s'.calls = bodyBytes s.calls ∧ s'.bodyLen = s.bodyLen ∧
      s'.sock = s.sock ∧ s'.headerEndFlag = true ∧ s'.resp.transferEncoding = .teChunked := by
  have hparse : parsePass readLen s = .ok { s with
      ctx := { s.ctx with state := .hrBody,
                          remainDataIndex := (linesText ls).length + 2,
                          remainDataLen := first.length },
      resp := linesResp s.ctx.state ls s.resp,
      lines := s.lines ++ ls } := by
    rw [parsePass, if_pos hstate, hbuf, parse_body hok hne hlen, ← hbuf]
  generalize hs1 : ({ s with
      ctx := { s.ctx with state := .hrBody,
                          remainDataIndex := (linesText ls).length + 2,
                          remainDataLen := first.length },
      resp := linesResp s.ctx.state ls s.resp,
      lines := s.lines ++ ls } : RespLocal) = s1 at hparse
  have hchunked1 : s1.resp.transferEncoding = .teChunked := by rw [← hs1]; exact hchunked
  have hbody : s1.ctx.state = .hrBody := by rw [← hs1]
  have hflag1 : s1.headerEndFlag = false := by rw [← hs1]; exact hflag
  refine ⟨headerEnd onHeader readOff readLen s1, ?_, ?_, ?_, ?_, ?_, ?_, ?_, ?_⟩
  · rw [respPass, hparse]
    simp only [hbody, hflag1, if_true, Bool.false_eq_true, if_false]
    rw [firstBody, headerEnd, hchunked1]
  · rw [headerEnd, hchunked1, ← hs1]
    rfl
  · rw [← hs1]; rfl
  · rw [← hs1, headerEnd]
    cases onHeader with
    | true =>
        show bodyBytes (s.calls ++ [_]) = _
        rw [bodyBytes_append]
        exact List.append_nil _
    | false => rfl
  · rw [← hs1]; rfl
  · rw [← hs1]; rfl
  · rfl
  · exact hchunked1

/-- The body bytes that come with the head are decoded as far as they go. -/
theorem first_pass (onHeader onBody : Bool) (readOff : Nat) {s : RespLocal}
    {chunks : List Chunk} {ls : List Bytes} {t first stale : Bytes}
    (h4 : ∀ c ∈ chunks, c.FourDigits) (hstate : s.ctx.state.beforeBody = true)
    (hflag : s.headerEndFlag = false) (hok : LinesOk s.ctx.state ls) (hne : ls ≠ [])
    (hbuf : s.buffer = linesText ls ++ (crlf ++ (first ++ stale)))
    (hchunked : (linesResp s.ctx.state ls s.resp).transferEncoding = .teChunked)
    (hstr : ∃ str, s.ctx.chunkSizeStr = 0 :: str) (hpre : first <+: codingThen t chunks)
    (hfour : 4 ≤ first.length)
    (hend : NoLookEnd s.buffer (linesText ls ++ crlf ++ first).length
      (pendingAt chunks first.length)) :
    Passed onBody chunks first.length (contentsAt chunks first.length) s
      (respPass onHeader onBody readOff (linesText ls ++ crlf ++ first).length s) := by
  have hlen : (linesText ls ++ crlf ++ first).length = (linesText ls).length + 2 + first.length := by
    rw [List.length_append, List.length_append]
    rfl
  generalize (linesText ls ++ crlf ++ first).length = readLen at hlen hend ⊢
  obtain ⟨s2, hpass, hctx, hbuf2, hcalls2, hlen2, hsock2, hflag2, hchunked2⟩ :=
    first_chunked onHeader onBody readOff hstate hflag hok hne hbuf hlen hchunked
  have hpre2 : (linesText ls ++ crlf).length = (linesText ls).length + 2 := by
    rw [List.length_append]
    rfl
  have hat : At s2.buffer (enter readLen s2.ctx s2.bodyLen) first := by
    refine ⟨linesText ls ++ crlf, stale, ?_, ?_, ?_⟩
    · rw [hbuf2, hbuf, List.append_assoc]
    · rw [hpre2, hctx]
      rfl
    · show (if s2.ctx.remainDataLen ≠ 0 then (s2.ctx.remainDataLen : Int) else readLen) = _
      rw [hctx]
      exact if_pos (by show first.length ≠ 0; omega)
  have hstop : (enter readLen s2.ctx s2.bodyLen).index + (enter readLen s2.ctx s2.bodyLen).len
      = readLen := by
    rw [hat.len, hlen]
    show (s2.ctx.remainDataIndex : Int) + first.length = _
    rw [hctx]
    push_cast
    rfl
  have hsize := pendingAt_zero chunks
  obtain ⟨gain, hgain, hrun⟩ := resume_run onBody (chunkFuel s2.buffer) (n := 0) (w := first)
    (s := enter readLen s2.ctx s2.bodyLen) h4 hat (by rw [List.drop_zero]; exact hpre) rfl
    (by
      rw [hsize]
      refine ⟨?_, List.not_mem_nil, ?_⟩
      · show s2.ctx.chunkTerminateState = .sizeByte
        rw [hctx]
      · show ∃ t, s2.ctx.chunkSizeStr = _
        rw [hctx]
        exact hstr)
    (by rw [hsize]; rintro ⟨⟩) (Or.inr ⟨[], hsize⟩) (by
      rw [hsize]
      rintro pre ⟨⟩
      show 4 ≤ 0 + _
      omega)
    (by
      obtain ⟨pre, post, hsplit, -, -⟩ := hat
      rw [hsplit]
      exact fuel_enough pre first post)
    (by rw [hstop, Nat.zero_add, hbuf2]; exact hend)
  rw [Nat.zero_add, contentsAt_small chunks (Nat.zero_le 6), List.nil_append] at hgain
  rw [Nat.zero_add] at hrun
  have hpassed : Passed onBody chunks first.length gain s2
      ((chunkedBody onBody readLen s2).andThen bodyEnd) := by
    refine chunkedBody_passed (t := enter readLen s2.ctx s2.bodyLen) ?_ rfl rfl ?_ rfl rfl hflag2
      hchunked2
    · rw [body_call (by omega)]
      exact hrun
    · show s2.ctx.state = .hrBody
      rw [hctx]
  rw [hpass, hgain]
  generalize (chunkedBody onBody readLen s2).andThen bodyEnd = fl at hpassed ⊢
  cases hpassed with
  | going s' hr hmore hcalls hbody hbuf' hsock =>
      exact .going s' hr hmore (by rw [hcalls, hcalls2]) (by rw [hbody, hlen2])
        (by rw [hbuf', hbuf2]) (by rw [hsock, hsock2])
  | ended s' hdone hend' hcalls hbody =>
      exact .ended s' hdone hend' (by rw [hcalls, hcalls2]) (by rw [hbody, hlen2])

/-! ## The whole body -/

theorem resumes_noLook {chunks : List Chunk} {n stop : Nat} {buffer : Bytes} {ds : List Bytes}
    (h : resumes chunks n stop buffer ds = true) :
    NoLookEnd buffer stop (pendingAt chunks n) := by
  by_cases hdone : pendingAt chunks n = .done
  · rw [hdone]
    rintro pre ⟨⟩
  cases ds with
  | nil =>
      rw [resumes, decide_eq_false hdone, Bool.false_or] at h
      exact restsWell_noLook h
  | cons d ds =>
      rw [resumes, decide_eq_false hdone, Bool.false_or, Bool.and_eq_true, Bool.and_eq_true] at h
      exact restsWell_noLook h.1.1

/-- **HOW A CHUNKED BODY ENDS** when `n` bytes of it arrived: at the terminating
    chunk if it is there, else at the end of the socket, which is an error only
    if `read` says so. -/
structure Finishes (onBody : Bool) (chunks : List Chunk) (n : Nat) (start : Bytes) (len : Int)
    (ending : Ending) (run : RespRun) : Prop where
  stop : run.stop = .ok (if pendingAt chunks n = .done ∨ ending = .eof then 0 else 1)
  state : run.s.ctx.state = if pendingAt chunks n = .done then .hrEnd else .hrBody
  calls : bodyBytes run.s.calls = start ++ (if onBody then contentsAt chunks n else [])
  bodyLen : run.s.bodyLen = len + (contentsAt chunks n).length

/-- What came in before `n` bytes is added to `start` and `len`. -/
def Came (onBody : Bool) (chunks : List Chunk) (n : Nat) (start : Bytes) (len : Int)
    (s : RespLocal) : Prop :=
  bodyBytes s.calls = start ++ (if onBody then contentsAt chunks n else []) ∧
    s.bodyLen = len + (contentsAt chunks n).length

theorem Came.add {onBody : Bool} {chunks : List Chunk} {n m : Nat} {start gain : Bytes}
    {len : Int} {s s' : RespLocal} (h : Came onBody chunks n start len s)
    (hgain : contentsAt chunks m = contentsAt chunks n ++ gain)
    (hcalls : bodyBytes s'.calls = bodyBytes s.calls ++ (if onBody then gain else []))
    (hbody : s'.bodyLen = s.bodyLen + gain.length) : Came onBody chunks m start len s' := by
  obtain ⟨hc, hl⟩ := h
  constructor
  · rw [hcalls, hc, hgain]
    cases onBody with
    | true => exact List.append_assoc _ _ _
    | false => simp
  · rw [hbody, hl, hgain, List.length_append]
    push_cast
    exact Int.add_assoc _ _ _

/-- A response that ended stays as it is, whatever else arrives. -/
theorem Came.finishes {onBody : Bool} {chunks : List Chunk} {n m : Nat} {start : Bytes}
    {len : Int} {s : RespLocal} (ending : Ending) (h : Came onBody chunks n start len s)
    (hdone : pendingAt chunks n = .done) (hnm : n ≤ m) (hstate : s.ctx.state = .hrEnd) :
    Finishes onBody chunks m start len ending { stop := .ok 0, s := s } := by
  have hdone' := pendingAt_stays hdone hnm
  have hsame : contentsAt chunks m = contentsAt chunks n := by
    rw [contentsAt_done hdone', contentsAt_done hdone]
  constructor
  · rw [if_pos (Or.inl hdone')]
  · rw [if_pos hdone']
    exact hstate
  · rw [hsame]
    exact h.1
  · rw [hsame]
    exact h.2

/-- The decoder is called with nothing at the end of the socket: it clears
    `forced_continue` and leaves the rest to the next pass. -/
theorem empty_pass (onHeader onBody : Bool) {chunks : List Chunk} {n : Nat} {s : RespLocal}
    (hs : Receiving chunks n s) :
    respPass onHeader onBody 0 0 s = .go { s with forcedContinue := false } := by
  have hparse : parsePass 0 s = .ok s := by
    rw [parsePass, hs.state]
    rfl
  rw [respPass, hparse]
  simp only [hs.state, hs.flag, if_true]
  rw [nextBody, hs.chunked]
  dsimp only
  rw [chunkedBody, httpChunkedResponseBody]
  simp only [if_true, RespFlow.andThen, bodyEnd, hs.chunked, true_and, List.map_nil,
    List.append_nil]
  rw [if_neg (by rintro ⟨h, -⟩; cases h), if_neg hs.live]
  simp only [hs.flag]

/-- An end of the socket in the middle of the body is noticed only if it is an
    error. -/
theorem receiving_end (onHeader onBody : Bool) {chunks : List Chunk} {n fuel : Nat}
    {s : RespLocal} {start : Bytes} {len : Int} (hs : Receiving chunks n s)
    (hmore : pendingAt chunks n ≠ .done) (hsegs : s.sock.segs = []) (hfuel : 1 < fuel)
    (hpos : 0 < s.buffer.length) (hcame : Came onBody chunks n start len s) :
    Finishes onBody chunks n start len s.sock.ending (respLoop onHeader onBody fuel s) := by
  obtain ⟨f, rfl⟩ : ∃ f, fuel = f + 1 + 1 := ⟨fuel - 2, by omega⟩
  cases hending : s.sock.ending with
  | err =>
      have hread := Sock.read_err (n := s.buffer.length - 0) (by omega) hsegs hending
      rw [respLoop, hs.remainLen, hread]
      dsimp only
      rw [if_pos hs.forced]
      refine ⟨?_, ?_, hcame.1, hcame.2⟩
      · rw [if_neg (fun h => h.elim hmore (fun h => by cases h))]
      · rw [if_neg hmore]
        exact hs.state
  | eof =>
      have hread := Sock.read_eof (s.buffer.length - 0) hsegs hending
      have hstore : store s.buffer 0 [] = s.buffer := store_zero _ _
      have hfirst : respLoop onHeader onBody (f + 1 + 1) s
          = respLoop onHeader onBody (f + 1) { s with forcedContinue := false } := by
        rw [respLoop, hs.remainLen, hread]
        dsimp only
        rw [if_neg (by rintro ⟨-, h⟩; rw [hs.forced] at h; cases h), hstore,
          List.length_nil, empty_pass onHeader onBody hs]
      rw [hfirst, respLoop_end onHeader onBody f (s := { s with forcedContinue := false }) rfl
        hsegs]
      refine ⟨?_, ?_, hcame.1, hcame.2⟩
      · rw [if_pos (Or.inr rfl)]
      · rw [if_neg hmore]
        exact hs.state

/-- **A SAFE CUT IS DECODED TO ITS END**: from any point of the body on, whether
    the whole of it arrives or not. -/
theorem receiving_run (onHeader onBody : Bool) {chunks : List Chunk} {t start : Bytes}
    {len : Int} (h4 : ∀ c ∈ chunks, c.FourDigits) :
    ∀ {ds : List Bytes} (fuel : Nat) {n stop : Nat} {s : RespLocal}, Receiving chunks n s →
      pendingAt chunks n ≠ .done → resumes chunks n stop s.buffer ds = true →
      s.sock.segs = ds → ds.flatten <+: (codingThen t chunks).drop n →
      (∀ d ∈ ds, d ≠ [] ∧ d.length ≤ s.buffer.length) → 0 < s.buffer.length →
      ds.length + 1 < fuel → Came onBody chunks n start len s →
      Finishes onBody chunks (n + ds.flatten.length) start len s.sock.ending
        (respLoop onHeader onBody fuel s) := by
  intro ds
  induction ds with
  | nil =>
      intro fuel n stop s hs hmore _ hsegs _ _ hpos hfuel hcame
      exact receiving_end onHeader onBody hs hmore hsegs hfuel hpos hcame
  | cons d ds ih =>
      intro fuel n stop s hs hmore hsafe hsegs hjoin hreads hpos hfuel hcame
      obtain ⟨f, rfl⟩ : ∃ f, fuel = f + 1 := ⟨fuel - 1, by omega⟩
      obtain ⟨hd, hdlen⟩ := hreads d List.mem_cons_self
      rw [resumes, decide_eq_false hmore, Bool.false_or, Bool.and_eq_true,
        Bool.and_eq_true] at hsafe
      obtain ⟨⟨-, hcomplete⟩, hnext⟩ := hsafe
      rw [List.flatten_cons] at hjoin
      have hpre : d <+: (codingThen t chunks).drop n := (List.prefix_append _ _).trans hjoin
      have hjoin' : ds.flatten <+: (codingThen t chunks).drop (n + d.length) := by
        rw [← List.drop_drop]
        obtain ⟨rest, hrest⟩ := hjoin
        rw [← hrest, List.append_assoc, List.drop_left]
        exact List.prefix_append _ _
      have hread := Sock.read_cons (n := s.buffer.length - s.ctx.remainDataLen) hsegs hd
        (by rw [hs.remainLen]; omega)
      have hstore : (store s.buffer 0 d).length = s.buffer.length := store_length (by omega)
      have htotal : n + (d :: ds).flatten.length = n + d.length + ds.flatten.length := by
        rw [List.flatten_cons, List.length_append]
        omega
      have hs1 : Receiving chunks n { s with
          buffer := store s.buffer 0 d,
          sock := { s.sock with segs := ds, taken := s.sock.taken + d.length } } :=
        ⟨hs.state, hs.flag, hs.chunked, hs.forced, hs.remainIndex, hs.remainLen, hs.held, hs.live⟩
      obtain ⟨gain, hgain, hpassed⟩ := later_pass onHeader onBody (d := d)
        h4 hs1 hd (store_zero _ _) hpre hmore (completes_completes hcomplete)
        (resumes_noLook hnext)
      rw [respLoop_read hread hd, hs.remainLen, htotal]
      generalize respPass onHeader onBody 0 d.length { s with
          buffer := store s.buffer 0 d,
          sock := { s.sock with segs := ds, taken := s.sock.taken + d.length } } = fl at hpassed
      cases hpassed with
      | going s' hr hmore' hcalls hbody hbuf hsock =>
          have hbuf' : s'.buffer = store s.buffer 0 d := hbuf
          have hending : s'.sock.ending = s.sock.ending := by rw [hsock]
          rw [← hending]
          refine ih f hr hmore' (by rw [hbuf']; exact hnext) (by rw [hsock]) hjoin' ?_
            (by rw [hbuf', hstore]; exact hpos)
            (by rw [List.length_cons] at hfuel; omega) (hcame.add hgain hcalls hbody)
          intro e he
          rw [hbuf', hstore]
          exact hreads e (List.mem_cons_of_mem _ he)
      | ended s' hdone hend hcalls hbody =>
          exact (hcame.add hgain hcalls hbody).finishes _ hdone (Nat.le_add_right _ _) hend

/-- From the read on that brings the end of the head. -/
theorem first_run (onHeader onBody : Bool) {s : RespLocal} {chunks : List Chunk}
    {ls ds : List Bytes} {t first : Bytes} (fuel : Nat) (h4 : ∀ c ∈ chunks, c.FourDigits)
    (hstate : s.ctx.state.beforeBody = true) (hflag : s.headerEndFlag = false)
    (hrem : s.ctx.remainDataLen = 0) (hok : LinesOk s.ctx.state ls) (hne : ls ≠ [])
    (hsegs : s.sock.segs = (linesText ls ++ crlf ++ first) :: ds)
    (hfits : (linesText ls ++ crlf ++ first).length ≤ s.buffer.length)
    (hchunked : (linesResp s.ctx.state ls s.resp).transferEncoding = .teChunked)
    (hstr : ∃ str, s.ctx.chunkSizeStr = 0 :: str)
    (hpre : first ++ ds.flatten <+: codingThen t chunks) (hfour : 4 ≤ first.length)
    (hsafe : resumes chunks first.length (linesText ls ++ crlf ++ first).length
      (store s.buffer 0 (linesText ls ++ crlf ++ first)) ds = true)
    (hreads : ∀ d ∈ ds, d ≠ [] ∧ d.length ≤ s.buffer.length) (hfuel : ds.length + 2 < fuel) :
    Finishes onBody chunks (first ++ ds.flatten).length (bodyBytes s.calls) s.bodyLen
      s.sock.ending (respLoop onHeader onBody fuel s) := by
  obtain ⟨f, rfl⟩ : ∃ f, fuel = f + 1 := ⟨fuel - 1, by omega⟩
  have hlen : 0 < (linesText ls ++ crlf ++ first).length := by
    rw [List.length_append, List.length_append]
    show 0 < _ + 2 + _
    omega
  have hread := Sock.read_cons (n := s.buffer.length - s.ctx.remainDataLen) hsegs
    (List.length_pos_iff.mp hlen) (by rw [hrem]; omega)
  have hbuf : store s.buffer 0 (linesText ls ++ crlf ++ first) = linesText ls ++ (crlf ++
      (first ++ s.buffer.drop (linesText ls ++ crlf ++ first).length)) := by
    rw [store_zero, List.append_assoc, List.append_assoc]
  generalize hsock1 : ({ s.sock with segs := ds, taken := s.sock.taken
      + (linesText ls ++ crlf ++ first).length } : Sock) = sock1 at hread
  have hsegs1 : sock1.segs = ds := by rw [← hsock1]
  have hend1 : sock1.ending = s.sock.ending := by rw [← hsock1]
  have hpassed := first_pass onHeader onBody 0 (s := { s with
      buffer := store s.buffer 0 (linesText ls ++ crlf ++ first), sock := sock1 })
    h4 hstate hflag hok hne hbuf hchunked hstr ((List.prefix_append _ _).trans hpre) hfour
    (resumes_noLook hsafe)
  have hstore : (store s.buffer 0 (linesText ls ++ crlf ++ first)).length = s.buffer.length :=
    store_length (by omega)
  rw [respLoop_read hread (List.length_pos_iff.mp hlen), hrem, List.length_append]
  generalize respPass onHeader onBody 0 (linesText ls ++ crlf ++ first).length { s with
      buffer := store s.buffer 0 (linesText ls ++ crlf ++ first), sock := sock1 } = fl at hpassed
  cases hpassed with
  | going s' hr hmore hcalls hbody hbuf hsock =>
      have hbuf' : s'.buffer = store s.buffer 0 (linesText ls ++ crlf ++ first) := hbuf
      have hending : s'.sock.ending = s.sock.ending := by rw [hsock, hend1]
      rw [← hending]
      refine receiving_run (t := t) onHeader onBody h4 f hr hmore (by rw [hbuf']; exact hsafe)
        (by rw [hsock, hsegs1]) ?_ ?_ (by rw [hbuf', hstore]; omega) (by omega) ⟨hcalls, hbody⟩
      · obtain ⟨rest, hrest⟩ := hpre
        rw [← hrest, List.append_assoc, List.drop_left]
        exact List.prefix_append _ _
      · intro e he
        rw [hbuf', hstore]
        exact hreads e he
  | ended s' hdone hend hcalls hbody =>
      exact Came.finishes _ ⟨hcalls, hbody⟩ hdone (Nat.le_add_right _ _) hend

/-! ## Safe cuts agree -/

section Run

variable {r : ChunkedResponse} {buffer : Bytes} (c : BodyCut r buffer) (peer : Peer)

/-- The locals at the start of the call. -/
def BodyCut.start : RespLocal :=
  .start (.fresh peer.sockfd peer.clb) buffer
    { segs := (r.head.text ++ c.first) :: c.later, ending := peer.ending, taken := 0 }

/-- The locals after the first read. -/
def BodyCut.started : RespLocal :=
  { RespLocal.start (.fresh peer.sockfd peer.clb) buffer
      { segs := c.later, ending := peer.ending, taken := (r.head.text ++ c.first).length } with
    buffer := store buffer 0 (r.head.text ++ c.first) }

theorem BodyCut.started_buffer : (c.started peer).buffer
    = linesText r.head.lines
      ++ (crlf ++ (c.first ++ buffer.drop (r.head.text ++ c.first).length)) := by
  show store buffer 0 (r.head.text ++ c.first) = _
  rw [store_zero, ResponseHead.text, List.append_assoc, List.append_assoc, List.append_assoc]

theorem BodyCut.run_start : ∃ fuel, c.later.length + 2 < fuel ∧
    c.run peer = respLoop peer.clb.respHeaderFunc.isSome true fuel (c.start peer) := by
  have hfits := c.fits
  have hpos : 0 < (r.head.text ++ c.first).length := by
    rw [List.length_append, ResponseHead.text_length]
    omega
  refine ⟨((r.head.text ++ c.first) :: c.later).flatten.length + (c.later.length + 1) + 3,
    by omega, ?_⟩
  rw [← peer.listens]
  exact if_pos ⟨peer.fd, by omega⟩

theorem BodyCut.run_eq : ∃ fuel,
    c.run peer = runAfter peer.clb.respHeaderFunc.isSome true fuel
      (respPass peer.clb.respHeaderFunc.isSome true 0 (r.head.text ++ c.first).length
        (c.started peer)) := by
  obtain ⟨fuel, hfuel, hrun⟩ := c.run_start peer
  obtain ⟨f, rfl⟩ : ∃ f, fuel = f + 1 := ⟨fuel - 1, by omega⟩
  have hfits := c.fits
  have hpos : 0 < (r.head.text ++ c.first).length := by
    rw [List.length_append, ResponseHead.text_length]
    omega
  have hread := Sock.read_cons (n := buffer.length - 0)
    (show (c.start peer).sock.segs = (r.head.text ++ c.first) :: c.later from rfl)
    (List.length_pos_iff.mp hpos) (by omega)
  refine ⟨f, ?_⟩
  rw [hrun, respLoop_read hread (List.length_pos_iff.mp hpos)]
  simp only [BodyCut.start, RespLocal.start, Nat.zero_add]
  rfl

/-- A safe cut brings the whole body and ends the response. -/
theorem safe_outcome (h4 : ∀ k ∈ r.chunks, k.FourDigits) (hsafe : c.safe = true) :
    outcome (c.run peer) = { body := contents r.chunks, bodyLen := (contents r.chunks).length,
                             stop := .ok 0, state := .hrEnd } := by
  rw [BodyCut.safe, Bool.and_eq_true, decide_eq_true_eq] at hsafe
  obtain ⟨hfour, hresumes⟩ := hsafe
  obtain ⟨fuel, hfuel, hrun⟩ := c.run_start peer
  have hfinish := first_run peer.clb.respHeaderFunc.isSome true (s := c.start peer)
    (t := []) fuel h4 rfl rfl rfl r.head.linesOk (List.cons_ne_nil _ _) rfl c.fits r.announced
    ⟨[0, 0, 0, 0], rfl⟩ (by rw [c.joined]; exact List.prefix_rfl (l := codingThen [] r.chunks))
    hfour hresumes c.results hfuel
  rw [c.joined, ← hrun] at hfinish
  have hdone := pendingAt_length h4
  rw [outcome, hfinish.stop, hfinish.state, hfinish.calls, hfinish.bodyLen,
    contentsAt_length h4, if_pos (Or.inl hdone), if_pos hdone]
  congr 1
  exact Int.zero_add _

end Run

/-! ## No response is safe from every cut -/

theorem text_append_length (h : ResponseHead) (d : Bytes) :
    (h.text ++ d).length = (linesText h.lines).length + 2 + d.length := by
  rw [List.length_append, h.text_length]
  rfl

/-- A first read with one byte of the body ends the response before any of it. -/
theorem one_byte_outcome {r : ChunkedResponse} {buffer : Bytes} (c : BodyCut r buffer)
    (peer : Peer) {b : Byte} (hfirst : c.first = [b])
    (hroom : r.head.text.length + 4 ≤ buffer.length) : (outcome (c.run peer)).body = [] := by
  obtain ⟨fuel, hrun⟩ := c.run_eq peer
  have hfits := c.fits
  have htlen := r.head.text_length
  have hlines : (linesText r.head.lines).length = linesLength r.head.lines := rfl
  have hlen := text_append_length r.head c.first
  obtain ⟨s2, hpass, hctx, hbuf2, hcalls2, -, -, -, hchunked2⟩ := first_chunked
    peer.clb.respHeaderFunc.isSome true 0 (s := c.started peer) rfl rfl r.head.linesOk
    (List.cons_ne_nil _ _) (c.started_buffer peer) hlen r.announced
  rw [hrun, hpass]
  generalize (r.head.text ++ c.first).length = readLen at hlen hpass ⊢
  have hbuf : s2.buffer.length = buffer.length := by
    rw [hbuf2]
    exact store_length (by omega)
  obtain ⟨hstop, hpieces, hsize⟩ := starved_call true s2.buffer readLen s2.ctx s2.bodyLen
    (by omega)
    (by rw [hctx]) (by rw [hctx]; exact ⟨[0, 0, 0, 0], rfl⟩)
    (by rw [hctx, hfirst]; exact Nat.one_pos)
    (by rw [hctx, hfirst]; show 1 < 4; omega)
    (by
      rw [hbuf, hctx]
      show (linesText r.head.lines).length + 2 + 4 ≤ _
      omega)
  have hzero : s2.ctx.chunkSize = 0 := by rw [hctx]; rfl
  obtain ⟨s3, hret, hcalls3⟩ : ∃ s3, (chunkedBody true readLen s2).andThen bodyEnd = .ret 0 s3 ∧
      s3.calls = s2.calls := by
    rw [chunkedBody]
    simp only [hstop, hpieces, RespFlow.andThen, bodyEnd, hchunked2, hsize, hzero, and_self,
      if_true, List.map_nil, List.append_nil]
    exact ⟨_, if_neg (fun h => by cases h.1), rfl⟩
  rw [hret]
  show bodyBytes s3.calls = []
  rw [hcalls3, hcalls2]
  rfl

/-- What lies behind the head in the buffer: a coding nobody sent. -/
def trap (n : Nat) : Bytes :=
  List.replicate n 0 ++ ([49, cr, lf] ++ List.replicate (n + 3) 121)

theorem bodyBytes_grows {xs ys : List RespCall} (h : xs <+: ys) (hne : bodyBytes xs ≠ []) :
    bodyBytes ys ≠ [] := by
  obtain ⟨zs, rfl⟩ := h
  rw [bodyBytes_append]
  exact List.append_ne_nil_of_left_ne_nil hne _

theorem runAfter_calls (onHeader onBody : Bool) (fuel : Nat) (fl : RespFlow) :
    fl.after.calls <+: (runAfter onHeader onBody fuel fl).s.calls := by
  cases fl with
  | go s => exact respLoop_calls onHeader onBody fuel s
  | ret code s => exact List.prefix_rfl
  | abort e s => exact List.prefix_rfl

/-- A first read that ends at the empty line decodes what was in the buffer. -/
theorem trap_outcome {r : ChunkedResponse} (c : BodyCut r (trap r.head.text.length))
    (peer : Peer) (hfirst : c.first = []) : (outcome (c.run peer)).body ≠ [] := by
  obtain ⟨fuel, hrun⟩ := c.run_eq peer
  have htlen := r.head.text_length
  have hnine : 7 ≤ r.head.text.length := by
    have hstatus := r.head.statusOk.http.length_le
    have h5 : (lit "HTTP/").length = 5 := rfl
    have hcons : linesLength r.head.lines = r.head.status.length + 2
        + linesLength r.head.fields := by
      rw [ResponseHead.lines, show r.head.status :: r.head.fields
        = [r.head.status] ++ r.head.fields from rfl, linesLength_append, linesLength_one]
    omega
  have hlen := text_append_length r.head c.first
  obtain ⟨s2, hpass, hctx, hbuf2, -, -, -, -, -⟩ := first_chunked
    peer.clb.respHeaderFunc.isSome true 0 (s := c.started peer) rfl rfl r.head.linesOk
    (List.cons_ne_nil _ _) (c.started_buffer peer) hlen r.announced
  rw [hfirst, List.length_nil] at hctx
  rw [hfirst, List.append_nil] at hpass
  have hidx : s2.ctx.remainDataIndex = r.head.text.length := by
    rw [hctx]
    exact htlen.symm
  have hrem : s2.ctx.remainDataLen = 0 := by rw [hctx]
  have hlabel : s2.ctx.chunkTerminateState = .sizeByte := by rw [hctx]
  have hstr : s2.ctx.chunkSizeStr = [0, 0, 0, 0, 0] := by rw [hctx]; rfl
  -- the window is as long as the head, and starts behind it
  obtain ⟨m, hm⟩ : ∃ m, r.head.text.length = m + 7 := ⟨r.head.text.length - 7, by omega⟩
  have hview : s2.buffer = r.head.text ++ (([49, cr, lf, 121] ++ ([121, 121] ++ ([121] ++
      List.replicate m 121))) ++ List.replicate 6 121) := by
    have htrap : (trap r.head.text.length).drop r.head.text.length
        = [49, cr, lf] ++ List.replicate (r.head.text.length + 3) 121 := by
      rw [trap, List.drop_append, List.drop_eq_nil_of_le (by rw [List.length_replicate]),
        List.length_replicate, Nat.sub_self]
      rfl
    have hfill : List.replicate (m + 10) (121 : Byte)
        = [121, 121, 121, 121] ++ (List.replicate m 121 ++ List.replicate 6 121) := by
      rw [List.replicate_append_replicate, show m + 10 = 4 + (m + 6) by omega,
        List.replicate_add]
      rfl
    rw [hbuf2]
    show store (trap r.head.text.length) 0 (r.head.text ++ c.first) = _
    rw [hfirst, List.append_nil, store_zero, htrap, hm, hfill]
    rfl
  have hat : At s2.buffer (enter r.head.text.length s2.ctx s2.bodyLen)
      ([49, cr, lf, 121] ++ ([121, 121] ++ ([121] ++ List.replicate m 121))) := by
    refine ⟨r.head.text, List.replicate 6 121, hview, ?_, ?_⟩
    · show (s2.ctx.remainDataIndex : Int) = _
      rw [hidx]
    · show (if s2.ctx.remainDataLen ≠ 0 then (s2.ctx.remainDataLen : Int)
        else r.head.text.length) = _
      rw [hrem, if_neg (fun h => h rfl)]
      simp only [List.length_append, List.length_replicate]
      show (r.head.text.length : Int) = (4 + (2 + (1 + m)) : Nat)
      omega
  obtain ⟨s3, hat3, hent3, -, hsize3, hloop⟩ := reach_chunk true
    (f := chunkFuel s2.buffer - 3 + 1) hat rfl rfl (by decide) (by decide)
    (Or.inr ⟨rfl, [0, 0, 0, 0], hstr⟩)
  have hgarbled := piece_garbles (f := chunkFuel s2.buffer - 3) (x := 121) hat3 hent3
    (by rw [hsize3]; decide) (List.mem_singleton.mpr rfl) (by decide)
  have hfuel : chunkFuel s2.buffer - 3 + 1 + 2 = chunkFuel s2.buffer := by
    have : 3 ≤ chunkFuel s2.buffer := by rw [chunkFuel]; omega
    omega
  rw [← hloop, hfuel] at hgarbled
  have hcall : httpChunkedResponseBody true s2.buffer r.head.text.length s2.ctx s2.bodyLen
      = chunkLoop true s2.buffer (chunkFuel s2.buffer) .sizeByte
          (enter r.head.text.length s2.ctx s2.bodyLen) := by
    rw [body_call (by omega), hlabel]
  rw [← hcall] at hgarbled
  obtain ⟨b, hb, -⟩ := hgarbled
  rw [hrun, hfirst, List.append_nil, hpass]
  refine bodyBytes_grows (runAfter_calls _ true fuel _) (bodyBytes_grows
    (andThen_calls (s := (chunkedBody true r.head.text.length s2).after) List.prefix_rfl) ?_)
  have hcalls : (chunkedBody true r.head.text.length s2).after.calls = s2.calls
      ++ (httpChunkedResponseBody true s2.buffer r.head.text.length s2.ctx
          s2.bodyLen).s.pieces.map .body := by
    rw [chunkedBody]
    dsimp only
    split <;> rfl
  rw [hcalls, bodyBytes_append, bodyBytes_pieces]
  exact List.append_ne_nil_of_right_ne_nil _ (List.ne_nil_of_mem hb)

/-- One byte in each read. -/
def singly (d : Bytes) : List Bytes := d.map fun b => [b]

theorem singly_flatten (d : Bytes) : (singly d).flatten = d := by
  rw [singly, ← List.flatMap_def, List.flatMap_singleton']

theorem singly_results {d : Bytes} {n : Nat} (hn : 0 < n) :
    ∀ x ∈ singly d, x ≠ [] ∧ x.length ≤ n := by
  intro x hx
  obtain ⟨b, -, rfl⟩ := List.mem_map.mp hx
  exact ⟨List.cons_ne_nil _ _, hn⟩

theorem trap_length (n : Nat) : (trap n).length = n + (n + 6) := by
  rw [trap, List.length_append, List.length_append, List.length_replicate, List.length_replicate]
  show n + (3 + (n + 3)) = _
  omega

/-- **RESUMPTION IS INDEPENDENT OF THE CUT ONLY FOR SAFE CUTS**: no response is
    received the same however it is cut, and any two safe cuts of one whose sizes
    have four digits are received the same. -/
theorem resumption (r : ChunkedResponse) (peer : Peer) :
    (∃ (buffer : Bytes) (c d : BodyCut r buffer), outcome (c.run peer) ≠ outcome (d.run peer)) ∧
    ((∀ k ∈ r.chunks, k.FourDigits) →
      ∀ (buffer buffer' : Bytes) (c : BodyCut r buffer) (d : BodyCut r buffer'),
        c.safe = true → d.safe = true → outcome (c.run peer) = outcome (d.run peer)) := by
  constructor
  · obtain ⟨b, bs, hencode, -⟩ := encode_head r.chunks
    have hlen := trap_length r.head.text.length
    refine ⟨trap r.head.text.length,
      { first := [], later := singly (encode r.chunks),
        fits := by rw [List.append_nil]; omega,
        joined := singly_flatten _,
        results := singly_results (by omega) },
      { first := [b], later := singly bs,
        fits := by rw [List.length_append, List.length_singleton]; omega,
        joined := by rw [singly_flatten, hencode]; rfl,
        results := singly_results (by omega) }, ?_⟩
    intro heq
    refine trap_outcome _ peer rfl (Eq.trans (congrArg Outcome.body heq) ?_)
    exact one_byte_outcome _ peer rfl (by omega)
  · intro h4 buffer buffer' c d hc hd
    rw [safe_outcome c peer h4 hc, safe_outcome d peer h4 hd]

/-! ## A response of one chunk -/

/-- 4096 times `x`. -/
def bigChunk : Chunk :=
  { size := lit "1000", data := List.replicate 4096 120,
    hex := by
      intro b hb
      have : b = 49 ∨ b = 48 := by
        have hmem : b ∈ ([49, 48, 48, 48] : Bytes) := hb
        simpa using hmem
      rcases this with rfl | rfl <;> rfl
    value := by rw [List.length_replicate]; rfl
    nonempty := by rw [ne_eq, List.replicate_eq_nil_iff]; omega }

theorem bigChunk_length : bigChunk.data.length = 4096 := List.length_replicate

def bigResponse : ChunkedResponse :=
  { head :=
      { status := lit "HTTP/1.1 200 OK", fields := [lit "Transfer-Encoding: chunked"],
        statusOk := smallHead.statusOk,
        fieldsOk := by
          intro l hl
          rw [List.mem_singleton.mp hl]
          exact ⟨by decide, by decide, by decide⟩ },
    chunks := [bigChunk], announced := by decide +kernel }

theorem bigResponse_lengths :
    bigResponse.head.text.length = 47 ∧ (encode bigResponse.chunks).length = 4109 := by
  refine ⟨rfl, ?_⟩
  have h4 : bigChunk.FourDigits := rfl
  show (encode [bigChunk]).length = _
  rw [encode_length h4, bigChunk_length]
  rfl

/-- The response cut after `n` bytes of the body. -/
def cutAt (n : Nat) (hn : n < 4109) :
    BodyCut bigResponse (List.replicate 8184 0) :=
  { first := (encode bigResponse.chunks).take n,
    later := [(encode bigResponse.chunks).drop n],
    fits := by
      have h := bigResponse_lengths
      rw [List.length_append, List.length_take, List.length_replicate, h.1, h.2]
      omega
    joined := by rw [List.flatten_singleton, List.take_append_drop]
    results := by
      have h := bigResponse_lengths
      intro d hd
      rw [List.mem_singleton.mp hd]
      have hlen : ((encode bigResponse.chunks).drop n).length = 4109 - n := by
        rw [List.length_drop, h.2]
      refine ⟨fun e => ?_, ?_⟩
      · rw [e, List.length_nil] at hlen
        omega
      · rw [hlen, List.length_replicate]
        omega }

def smallPeer : Peer :=
  { sockfd := 3, clb := { HttpCallback.zero with respBodyFunc := some .get }, ending := .eof,
    fd := smallCut.fd, listens := rfl }

/-- A cut within the chunk is safe. -/
theorem cutAt_safe {n : Nat} (hn : n < 4109) (h1 : 6 ≤ n) (h2 : n < 4102) :
    (cutAt n hn).safe = true := by
  have hfirst : (cutAt n hn).first.length = n := by
    show ((encode bigResponse.chunks).take n).length = n
    rw [List.length_take, bigResponse_lengths.2]
    omega
  have hpend : pendingAt bigResponse.chunks n = .data (4102 - n) := by
    have := pendingAt_data bigChunk [] h1 (by rw [bigChunk_length]; omega)
    rw [bigChunk_length] at this
    exact this
  rw [BodyCut.safe, hfirst, Bool.and_eq_true]
  refine ⟨decide_eq_true (by omega), ?_⟩
  show resumes bigResponse.chunks n _ _ [_] = true
  have hdrop : ((encode bigResponse.chunks).drop n).length = 4109 - n := by
    rw [List.length_drop, bigResponse_lengths.2]
  have hlast : pendingAt bigResponse.chunks (n + (4109 - n)) = .done := by
    refine pendingAt_end (fun c hc => ?_) ?_
    · rw [List.mem_singleton.mp hc]
      rfl
    · rw [bigResponse_lengths.2]
      omega
  rw [resumes, resumes, hpend, hdrop, hlast]
  rfl

/-- Two reads that meet within the chunk, at whatever byte, bring the same. -/
theorem cutAt_agree : outcome ((cutAt 2000 (by omega)).run smallPeer)
    = outcome ((cutAt 3000 (by omega)).run smallPeer) :=
  (resumption bigResponse smallPeer).2
    (by
      intro k hk
      rw [List.mem_singleton.mp hk]
      rfl)
    _ _ (cutAt 2000 (by omega)) (cutAt 3000 (by omega)) (cutAt_safe _ (by omega) (by omega))
    (cutAt_safe _ (by omega) (by omega))

/-- A first read that brings one byte of the body loses the body. -/
theorem cutAt_one_differs : outcome ((cutAt 1 (by omega)).run smallPeer)
    ≠ outcome ((cutAt 2000 (by omega)).run smallPeer) := by
  intro heq
  have h4 : ∀ k ∈ bigResponse.chunks, k.FourDigits := by
    intro k hk
    rw [List.mem_singleton.mp hk]
    rfl
  have hone : (outcome ((cutAt 1 (by omega)).run smallPeer)).body = [] :=
    one_byte_outcome _ smallPeer (b := 49) rfl (by
      rw [bigResponse_lengths.1, List.length_replicate]
      omega)
  rw [heq, safe_outcome _ smallPeer h4 (cutAt_safe _ (by omega) (by omega))] at hone
  exact bigChunk.nonempty (List.append_eq_nil_iff.mp hone).1

end ChunkResume
