import Hftp.HttpChunkedProofs
import Hftp.HttpHeaderProofs

/-! # The response loop

    `http_internal_response` reads from the socket until the head is parsed,
    tells `resp_header_func`, and hands the body to `resp_body_func` in the way
    the transfer encoding asks for.  It stops when the length or the terminating
    chunk says that the body is complete, or when the socket has no more.

    The socket is a list of arrivals and the way it ends.  The loop keeps its
    locals and what it did in one record, which is also there when a call does
    not come back. -/

namespace HttpResp

open CBytes HttpCore HttpHeader HttpChunked

/-! ## The socket -/

/-- What `read` returns once everything that arrived was read. -/
inductive Ending where
  | eof
  | err
  deriving DecidableEq, Repr

/-- A socket to read from: the arrivals still to come, how it ends, and how many
    bytes were taken from it. -/
structure Sock where
  segs : List Bytes
  ending : Ending
  taken : Nat
  deriving DecidableEq, Repr

/-- `read(sockfd, .., n)`: at most `n` bytes of the next arrival; nothing stands
    for -1. -/
def Sock.read (sock : Sock) (n : Nat) : Option Bytes × Sock :=
  if n = 0 then (some [], sock)
  else
    match sock.segs with
    | [] =>
        match sock.ending with
        | .eof => (some [], sock)
        | .err => (none, sock)
    | d :: ds =>
        (some (d.take n),
          { sock with segs := if d.length ≤ n then ds else d.drop n :: ds,
                      taken := sock.taken + (d.take n).length })

/-! ## One pass -/

/-- A call of a response callback. -/
inductive RespCall where
  | header (resp : HttpResponse)
  | body (piece : Piece)
  deriving DecidableEq, Repr

/-- What there is to see when the head is complete: the lines it was parsed as,
    the response, and the place in the stream of the first body byte. -/
structure HeadSeen where
  lines : List Bytes
  resp : HttpResponse
  bodyPos : Int
  deriving DecidableEq, Repr

/-- The locals of `http_internal_response` with the parts of the connection it
    changes, the calls it has made, and, for the proofs, the lines it has parsed
    and the head it saw. -/
structure RespLocal where
  ctx : HttpResponseContext
  resp : HttpResponse
  buffer : Bytes
  sock : Sock
  headerEndFlag : Bool
  bodyLen : Int
  forcedContinue : Bool
  calls : List RespCall
  lines : List Bytes
  head : Option HeadSeen
  deriving DecidableEq, Repr

/-- How a pass of the loop ends. -/
inductive RespFlow where
  | go (s : RespLocal)
  | ret (code : Int) (s : RespLocal)
  | abort (e : Abort) (s : RespLocal)
  deriving DecidableEq, Repr

/-- `if (conn->ctx.state < HR_BODY) http_parse_response_header_per_buffer(..)`. -/
def parsePass (readLen : Nat) (s : RespLocal) : Except Abort RespLocal :=
  if s.ctx.state.beforeBody then
    match httpParseResponseHeaderPerBuffer s.buffer readLen s.ctx s.resp with
    | .error e => .error e
    | .ok hp => .ok { s with buffer := hp.buffer, ctx := hp.ctx, resp := hp.resp,
                             lines := s.lines ++ hp.lines }
  else .ok s

/-- Where the first body byte lies in the stream, after a read of `readLen` bytes
    to the offset `readOff` of the buffer. -/
def bodyPos (readOff readLen : Nat) (s : RespLocal) : Int :=
  if s.ctx.remainDataLen > 0 then
    (s.sock.taken : Int) - (readOff + readLen : Nat) + s.ctx.remainDataIndex
  else s.sock.taken

/-- `if (header_end_flag == 0)`, up to the call of `resp_header_func`, which is
    registered when `onHeader` holds. -/
def headerEnd (onHeader : Bool) (readOff readLen : Nat) (s : RespLocal) : RespLocal :=
  let chunked : Bool := s.resp.transferEncoding = .teChunked
  { s with
    ctx := if chunked then { s.ctx with chunkTerminateState := .sizeByte } else s.ctx,
    forcedContinue := chunked || s.forcedContinue,
    calls := if onHeader then s.calls ++ [.header s.resp] else s.calls,
    headerEndFlag := true,
    head := some { lines := s.lines, resp := s.resp, bodyPos := bodyPos readOff readLen s } }

/-- A call of `http_chunked_response_body`. -/
def chunkedBody (onBody : Bool) (readLen : Nat) (s : RespLocal) : RespFlow :=
  let run := httpChunkedResponseBody onBody s.buffer readLen s.ctx s.bodyLen
  let s := { s with ctx := run.s.ctx, bodyLen := run.s.bodyLen,
                    calls := s.calls ++ run.s.pieces.map .body }
  match run.stop with
  | .error e => .abort e s
  | .ok continued => .go { s with forcedContinue := continued }

/-- A call of `resp_body_func` on `n` bytes from `index` on, if it is registered. -/
def callBody (onBody : Bool) (index n : Nat) (s : RespLocal) : Except Abort RespLocal :=
  if onBody then
    match slice s.buffer index n with
    | .error e => .error e
    | .ok d => .ok { s with calls := s.calls ++ [.body { bytes := d, len := n }] }
  else .ok s

/-- The body bytes that came with the end of the head. -/
def firstBody (onBody : Bool) (readLen : Nat) (s : RespLocal) : RespFlow :=
  match s.resp.transferEncoding with
  | .teChunked => chunkedBody onBody readLen s
  | .teNone =>
      if s.ctx.remainDataLen > 0 then
        let s := { s with bodyLen := s.bodyLen + s.ctx.remainDataLen }
        match callBody onBody s.ctx.remainDataIndex s.ctx.remainDataLen s with
        | .error e => .abort e s
        | .ok s => .go { s with ctx := { s.ctx with remainDataIndex := 0, remainDataLen := 0 } }
      else .go s
  | .teNotSupported => .go s

/-- The body bytes of a later read. -/
def nextBody (onBody : Bool) (readLen : Nat) (s : RespLocal) : RespFlow :=
  match s.resp.transferEncoding with
  | .teChunked => chunkedBody onBody readLen s
  | .teNone =>
      let s := { s with bodyLen := s.bodyLen + readLen }
      match callBody onBody 0 readLen s with
      | .error e => .abort e s
      | .ok s => .go s
  | .teNotSupported => .go s

/-- The two tests at the end of a pass. -/
def bodyEnd (s : RespLocal) : RespFlow :=
  if s.resp.transferEncoding = .teNone ∧ s.resp.contentLength > 0 ∧
      s.resp.contentLength ≤ s.bodyLen then
    if s.bodyLen ≠ s.resp.contentLength then .ret 1 s
    else .ret 0 { s with ctx := { s.ctx with state := .hrEnd } }
  else if s.resp.transferEncoding = .teChunked ∧ s.ctx.chunkSize = 0 then
    .ret 0 { s with ctx := { s.ctx with state := .hrEnd } }
  else .go s

def RespFlow.andThen (fl : RespFlow) (f : RespLocal → RespFlow) : RespFlow :=
  match fl with
  | .go s => f s
  | .ret code s => .ret code s
  | .abort e s => .abort e s

/-- The body of the loop after a read of `readLen` bytes to `readOff`. -/
def respPass (onHeader onBody : Bool) (readOff readLen : Nat) (s : RespLocal) : RespFlow :=
  match parsePass readLen s with
  | .error e => .abort e s
  | .ok s =>
      if s.ctx.state = .hrBody then
        (if s.headerEndFlag then nextBody onBody readLen s
         else firstBody onBody readLen (headerEnd onHeader readOff readLen s)).andThen bodyEnd
      else .go s

/-! ## The loop -/

/-- How a call ended: the code it returned, or why it did not return. -/
structure RespRun where
  stop : Except Abort Int
  s : RespLocal
  deriving DecidableEq, Repr

/-- `while ((read_len = read(..)) > 0 || forced_continue)`. -/
def respLoop (onHeader onBody : Bool) : Nat → RespLocal → RespRun
  | 0, s => { stop := .error .diverges, s := s }
  | fuel + 1, s =>
      let readOff := s.ctx.remainDataLen
      match s.sock.read (s.buffer.length - readOff) with
      | (none, sock) =>
          { stop := .ok (if s.forcedContinue then 1 else 0), s := { s with sock := sock } }
      | (some d, sock) =>
          if d = [] ∧ s.forcedContinue = false then
            { stop := .ok 0, s := { s with sock := sock } }
          else
            match respPass onHeader onBody readOff d.length
                { s with buffer := store s.buffer readOff d, sock := sock } with
            | .go s => respLoop onHeader onBody fuel s
            | .ret code s => { stop := .ok code, s := s }
            | .abort e s => { stop := .error e, s := s }

/-- Every pass but one takes a byte from the socket: the pass after the end of a
    chunked body that is not complete, which clears `forced_continue`. -/
def respFuel (sock : Sock) : Nat := sock.segs.flatten.length + sock.segs.length + 3

/-- The locals at the start of a call. -/
def RespLocal.start (conn : HttpConnection) (buffer : Bytes) (sock : Sock) : RespLocal :=
  { ctx := { conn.ctx with state := .hrFirstLine }, resp := conn.resp, buffer := buffer,
    sock := sock, headerEndFlag := false, bodyLen := 0, forcedContinue := false, calls := [],
    lines := [], head := none }

/-- `http_internal_response(conn, buffer, buffer_capacity)`; the buffer is as long
    as its capacity. -/
def httpInternalResponse (conn : HttpConnection) (buffer : Bytes) (sock : Sock) : RespRun :=
  if conn.sockfd > 2 ∧ buffer.length > 0 then
    respLoop conn.clb.respHeaderFunc.isSome conn.clb.respBodyFunc.isSome (respFuel sock)
      (.start conn buffer sock)
  else { stop := .error .assertFailed, s := .start conn buffer sock }

/-! ## What the body passes leave alone -/

/-- The locals a pass leaves behind, whichever way it ends. -/
def RespFlow.after : RespFlow → RespLocal
  | .go s | .ret _ s | .abort _ s => s

/-- Only the body was dealt with. -/
structure BodyOnly (s s' : RespLocal) : Prop where
  resp : s'.resp = s.resp
  buffer : s'.buffer = s.buffer
  sock : s'.sock = s.sock
  headerEndFlag : s'.headerEndFlag = s.headerEndFlag
  lines : s'.lines = s.lines
  head : s'.head = s.head

/-- A part of a pass that does nothing hands over at most body. -/
theorem BodyOnly.refl (s : RespLocal) : BodyOnly s s := ⟨rfl, rfl, rfl, rfl, rfl, rfl⟩

/-- Two parts that hand over at most body do so one after the other. -/
theorem BodyOnly.trans {s t u : RespLocal} (h : BodyOnly s t) (k : BodyOnly t u) :
    BodyOnly s u := by
  constructor
  · rw [k.resp, h.resp]
  · rw [k.buffer, h.buffer]
  · rw [k.sock, h.sock]
  · rw [k.headerEndFlag, h.headerEndFlag]
  · rw [k.lines, h.lines]
  · rw [k.head, h.head]

/-- The decoder touches neither the response nor the buffer of the loop. -/
theorem chunkedBody_bodyOnly (onBody : Bool) (readLen : Nat) (s : RespLocal) :
    BodyOnly s (chunkedBody onBody readLen s).after := by
  rw [chunkedBody]
  dsimp only
  split <;> exact ⟨rfl, rfl, rfl, rfl, rfl, rfl⟩

/-- Nor does a call of `resp_body_func`. -/
theorem callBody_bodyOnly {onBody : Bool} {index n : Nat} {s s' : RespLocal}
    (h : callBody onBody index n s = .ok s') : BodyOnly s s' := by
  rw [callBody] at h
  split at h
  · split at h
    · cases h
    · rw [← Except.ok.inj h]
      exact ⟨rfl, rfl, rfl, rfl, rfl, rfl⟩
  · rw [← Except.ok.inj h]
    exact BodyOnly.refl s

/-- The bytes behind a head, in chunks or not, are only handed over. -/
theorem firstBody_bodyOnly (onBody : Bool) (readLen : Nat) (s : RespLocal) :
    BodyOnly s (firstBody onBody readLen s).after := by
  rw [firstBody]
  split
  · exact chunkedBody_bodyOnly onBody readLen s
  · split
    · dsimp only
      split
      · exact ⟨rfl, rfl, rfl, rfl, rfl, rfl⟩
      · rename_i hcall
        have hbody := callBody_bodyOnly hcall
        exact ⟨hbody.resp, hbody.buffer, hbody.sock, hbody.headerEndFlag, hbody.lines,
          hbody.head⟩
    · exact BodyOnly.refl s
  · exact BodyOnly.refl s

/-- The same of a read that brings nothing but body. -/
theorem nextBody_bodyOnly (onBody : Bool) (readLen : Nat) (s : RespLocal) :
    BodyOnly s (nextBody onBody readLen s).after := by
  rw [nextBody]
  split
  · exact chunkedBody_bodyOnly onBody readLen s
  · dsimp only
    split
    · exact ⟨rfl, rfl, rfl, rfl, rfl, rfl⟩
    · rename_i hcall
      have hbody := callBody_bodyOnly hcall
      exact ⟨hbody.resp, hbody.buffer, hbody.sock, hbody.headerEndFlag, hbody.lines, hbody.head⟩
  · exact BodyOnly.refl s

/-- The test for the end writes no more than the state. -/
theorem bodyEnd_bodyOnly (s : RespLocal) : BodyOnly s (bodyEnd s).after := by
  rw [bodyEnd]
  split
  · split <;> exact ⟨rfl, rfl, rfl, rfl, rfl, rfl⟩
  · split <;> exact ⟨rfl, rfl, rfl, rfl, rfl, rfl⟩

/-- Two parts of a pass that only hand over body do so together. -/
theorem andThen_bodyOnly {fl : RespFlow} {s : RespLocal} {f : RespLocal → RespFlow}
    (h : BodyOnly s fl.after) (hf : ∀ t, BodyOnly t (f t).after) :
    BodyOnly s (fl.andThen f).after := by
  cases fl with
  | go t => exact h.trans (hf t)
  | ret code t => exact h
  | abort e t => exact h

/-- Once the head is complete, a pass looks at the body only. -/
theorem respPass_bodyOnly {onHeader onBody : Bool} {readOff readLen : Nat} {s : RespLocal}
    (hstate : s.ctx.state = .hrBody) (hflag : s.headerEndFlag = true) :
    BodyOnly s (respPass onHeader onBody readOff readLen s).after := by
  have hparse : parsePass readLen s = .ok s := by
    rw [parsePass, hstate]
    rfl
  rw [respPass, hparse]
  simp only [hstate, hflag, if_true]
  exact andThen_bodyOnly (nextBody_bodyOnly onBody readLen s) bodyEnd_bodyOnly

/-! ## What becomes of the parse state -/

/-- Where the parser is does not change while a body is handed over. -/
theorem chunkedBody_state (onBody : Bool) (readLen : Nat) (s : RespLocal) :
    (chunkedBody onBody readLen s).after.ctx.state = s.ctx.state := by
  have hstate := chunkedResponseBody_state onBody s.buffer readLen s.ctx s.bodyLen
  rw [chunkedBody]
  dsimp only
  split
  · exact hstate
  · exact hstate

/-- A call of `resp_body_func` leaves the context alone. -/
theorem callBody_ctx {onBody : Bool} {index n : Nat} {s s' : RespLocal}
    (h : callBody onBody index n s = .ok s') : s'.ctx = s.ctx := by
  rw [callBody] at h
  split at h
  · split at h
    · cases h
    · rw [← Except.ok.inj h]
  · rw [← Except.ok.inj h]

/-- The bytes behind a head leave the state of the parser alone. -/
theorem firstBody_state (onBody : Bool) (readLen : Nat) (s : RespLocal) :
    (firstBody onBody readLen s).after.ctx.state = s.ctx.state := by
  rw [firstBody]
  split
  · exact chunkedBody_state onBody readLen s
  · split
    · dsimp only
      split
      · rfl
      · rename_i t hcall
        show t.ctx.state = s.ctx.state
        rw [callBody_ctx hcall]
    · rfl
  · rfl

/-- Those of a further read do too. -/
theorem nextBody_state (onBody : Bool) (readLen : Nat) (s : RespLocal) :
    (nextBody onBody readLen s).after.ctx.state = s.ctx.state := by
  rw [nextBody]
  split
  · exact chunkedBody_state onBody readLen s
  · dsimp only
    split
    · rfl
    · rename_i t hcall
      show t.ctx.state = s.ctx.state
      rw [callBody_ctx hcall]
  · rfl

/-- The end of a head sets lengths and indices only. -/
theorem headerEnd_state (onHeader : Bool) (readOff readLen : Nat) (s : RespLocal) :
    (headerEnd onHeader readOff readLen s).ctx.state = s.ctx.state := by
  rw [headerEnd]
  dsimp only
  split <;> rfl

/-! ## Calls are only ever added -/

/-- What was told to the callbacks before the decoder ran was told before. -/
theorem chunkedBody_calls (onBody : Bool) (readLen : Nat) (s : RespLocal) :
    s.calls <+: (chunkedBody onBody readLen s).after.calls := by
  rw [chunkedBody]
  dsimp only
  split <;> exact List.prefix_append _ _

/-- A call is added behind the others. -/
theorem callBody_calls {onBody : Bool} {index n : Nat} {s s' : RespLocal}
    (h : callBody onBody index n s = .ok s') : s.calls <+: s'.calls := by
  rw [callBody] at h
  split at h
  · split at h
    · cases h
    · rw [← Except.ok.inj h]
      exact List.prefix_append _ _
  · rw [← Except.ok.inj h]

/-- So the bytes behind a head are told last. -/
theorem firstBody_calls (onBody : Bool) (readLen : Nat) (s : RespLocal) :
    s.calls <+: (firstBody onBody readLen s).after.calls := by
  rw [firstBody]
  split
  · exact chunkedBody_calls onBody readLen s
  · split
    · dsimp only
      split
      · exact List.prefix_rfl
      · rename_i hcall
        have hgrow := callBody_calls hcall
        exact hgrow
    · exact List.prefix_rfl
  · exact List.prefix_rfl

/-- And those of a further read behind them. -/
theorem nextBody_calls (onBody : Bool) (readLen : Nat) (s : RespLocal) :
    s.calls <+: (nextBody onBody readLen s).after.calls := by
  rw [nextBody]
  split
  · exact chunkedBody_calls onBody readLen s
  · dsimp only
    split
    · exact List.prefix_rfl
    · rename_i hcall
      have hgrow := callBody_calls hcall
      exact hgrow
  · exact List.prefix_rfl

/-- The test for the end tells nothing. -/
theorem bodyEnd_calls (s : RespLocal) : (bodyEnd s).after.calls = s.calls := by
  rw [bodyEnd]
  split
  · split <;> rfl
  · split <;> rfl

/-- The test behind a part of the pass takes back no call of it. -/
theorem andThen_calls {fl : RespFlow} {s : RespLocal} (h : s.calls <+: fl.after.calls) :
    s.calls <+: (fl.andThen bodyEnd).after.calls := by
  cases fl with
  | go t =>
      show s.calls <+: (bodyEnd t).after.calls
      rw [bodyEnd_calls]
      exact h
  | ret code t => exact h
  | abort e t => exact h

/-- The head is told behind what was told before it. -/
theorem headerEnd_calls (onHeader : Bool) (readOff readLen : Nat) (s : RespLocal) :
    s.calls <+: (headerEnd onHeader readOff readLen s).calls := by
  cases onHeader with
  | true => exact List.prefix_append _ _
  | false => exact List.prefix_rfl

/-- No pass takes a call back. -/
theorem respPass_calls (onHeader onBody : Bool) (readOff readLen : Nat) (s : RespLocal) :
    s.calls <+: (respPass onHeader onBody readOff readLen s).after.calls := by
  rw [respPass]
  cases hparse : parsePass readLen s with
  | error e => exact List.prefix_rfl
  | ok t =>
      have hcalls : t.calls = s.calls := by
        rw [parsePass] at hparse
        split at hparse
        · split at hparse
          · cases hparse
          · rw [← Except.ok.inj hparse]
        · rw [← Except.ok.inj hparse]
      dsimp only
      rw [← hcalls]
      split
      · split
        · exact andThen_calls (nextBody_calls onBody readLen t)
        · exact andThen_calls ((headerEnd_calls onHeader readOff readLen t).trans
            (firstBody_calls onBody readLen _))
      · exact List.prefix_rfl

/-- What the callbacks were told stays told. -/
theorem respLoop_calls (onHeader onBody : Bool) : ∀ (fuel : Nat) (s : RespLocal),
    s.calls <+: (respLoop onHeader onBody fuel s).s.calls := by
  intro fuel
  induction fuel with
  | zero => intro s; exact List.prefix_rfl
  | succ fuel ih =>
      intro s
      rw [respLoop]
      cases s.sock.read (s.buffer.length - s.ctx.remainDataLen) with
      | mk got sock =>
          cases got with
          | none => exact List.prefix_rfl
          | some d =>
              dsimp only
              split
              · exact List.prefix_rfl
              · have hpass := respPass_calls onHeader onBody s.ctx.remainDataLen d.length
                  { s with buffer := store s.buffer s.ctx.remainDataLen d, sock := sock }
                cases hflow : respPass onHeader onBody s.ctx.remainDataLen d.length
                    { s with buffer := store s.buffer s.ctx.remainDataLen d, sock := sock } with
                | go t => rw [hflow] at hpass; exact hpass.trans (ih t)
                | ret code t => rw [hflow] at hpass; exact hpass
                | abort e t => rw [hflow] at hpass; exact hpass

/-! ## The head is told once, and before the body -/

/-- What the callbacks were told up to a pass: nothing while the head is not
    complete, and then the response and pieces of its body. -/
def Told (s : RespLocal) : Prop :=
  (s.headerEndFlag = false ∧ s.calls = []) ∨
    (s.headerEndFlag = true ∧ s.ctx.state = .hrBody ∧
      ∃ pieces : List Piece, s.calls = .header s.resp :: pieces.map .body)

/-- What they were told in the end. -/
def ToldAll (s : RespLocal) : Prop :=
  s.calls = [] ∨ ∃ pieces : List Piece, s.calls = .header s.resp :: pieces.map .body

/-- The response has been told, and pieces of the body. -/
structure Telling (s : RespLocal) : Prop where
  flag : s.headerEndFlag = true
  calls : ∃ pieces : List Piece, s.calls = .header s.resp :: pieces.map .body

/-- A response of which some body was told is told on with more of it. -/
theorem Telling.more {s t : RespLocal} (h : Telling s) (hbody : BodyOnly s t) (more : List Piece)
    (hcalls : t.calls = s.calls ++ more.map .body) : Telling t := by
  obtain ⟨pieces, hpieces⟩ := h.calls
  refine ⟨by rw [hbody.headerEndFlag, h.flag], pieces ++ more, ?_⟩
  rw [hcalls, hpieces, hbody.resp, List.map_append]
  rfl

/-- Wherever the loop stops, what it told so far is in order. -/
theorem Told.all {s : RespLocal} (h : Told s) : ToldAll s := by
  rcases h with ⟨-, hcalls⟩ | ⟨-, -, hcalls⟩
  · exact Or.inl hcalls
  · exact Or.inr hcalls

/-- The pieces of a decoder come behind the head. -/
theorem chunkedBody_telling {onBody : Bool} {readLen : Nat} {s : RespLocal} (h : Telling s) :
    Telling (chunkedBody onBody readLen s).after := by
  have hbody := chunkedBody_bodyOnly onBody readLen s
  rw [chunkedBody] at hbody ⊢
  dsimp only at hbody ⊢
  split at hbody
  · exact h.more hbody _ rfl
  · exact h.more hbody _ rfl

/-- A piece that is not in chunks does too. -/
theorem callBody_telling {onBody : Bool} {index n : Nat} {s s' : RespLocal} (h : Telling s)
    (hcall : callBody onBody index n s = .ok s') : Telling s' := by
  have hbody := callBody_bodyOnly hcall
  rw [callBody] at hcall
  split at hcall
  · split at hcall
    · cases hcall
    · rename_i d _
      obtain rfl := Except.ok.inj hcall
      exact h.more hbody [{ bytes := d, len := n }] rfl
  · obtain rfl := Except.ok.inj hcall
    exact h

/-- So do the bytes that came with the head. -/
theorem firstBody_telling {onBody : Bool} {readLen : Nat} {s : RespLocal} (h : Telling s) :
    Telling (firstBody onBody readLen s).after := by
  rw [firstBody]
  split
  · exact chunkedBody_telling h
  · split
    · dsimp only
      split
      · exact ⟨h.flag, h.calls⟩
      · rename_i t hcall
        have hgrown : Telling { s with bodyLen := s.bodyLen + s.ctx.remainDataLen } :=
          ⟨h.flag, h.calls⟩
        have ht := callBody_telling hgrown hcall
        exact ⟨ht.flag, ht.calls⟩
    · exact h
  · exact h

/-- And those of the reads after it. -/
theorem nextBody_telling {onBody : Bool} {readLen : Nat} {s : RespLocal} (h : Telling s) :
    Telling (nextBody onBody readLen s).after := by
  rw [nextBody]
  split
  · exact chunkedBody_telling h
  · dsimp only
    split
    · exact ⟨h.flag, h.calls⟩
    · rename_i t hcall
      have hgrown : Telling { s with bodyLen := s.bodyLen + readLen } := ⟨h.flag, h.calls⟩
      exact callBody_telling hgrown hcall
  · exact h

/-- What a pass leaves the callbacks told. -/
def RespFlow.Tells : RespFlow → Prop
  | .go s => Told s
  | .ret _ s | .abort _ s => ToldAll s

/-- A pass through a body ends, goes on or breaks off with the head told first. -/
theorem andThen_tells {fl : RespFlow} (h : Telling fl.after) (hstate : fl.after.ctx.state = .hrBody) :
    (fl.andThen bodyEnd).Tells := by
  cases fl with
  | go s =>
      show (bodyEnd s).Tells
      rw [bodyEnd]
      split
      · split
        · exact Or.inr h.calls
        · exact Or.inr h.calls
      · split
        · exact Or.inr h.calls
        · exact Or.inr ⟨h.flag, hstate, h.calls⟩
  | ret code s => exact Or.inr h.calls
  | abort e s => exact Or.inr h.calls

/-- **A PASS** tells of the head when it is complete, and then of the body. -/
theorem respPass_tells {onBody : Bool} {readOff readLen : Nat} {s : RespLocal} (h : Told s) :
    (respPass true onBody readOff readLen s).Tells := by
  rw [respPass]
  rcases h with ⟨hflag, hcalls⟩ | ⟨hflag, hstate, hcalls⟩
  · cases hparse : parsePass readLen s with
    | error e => exact Or.inl hcalls
    | ok t =>
        have hsame : t.headerEndFlag = false ∧ t.calls = [] := by
          rw [parsePass] at hparse
          split at hparse
          · split at hparse
            · cases hparse
            · rw [← Except.ok.inj hparse]
              exact ⟨hflag, hcalls⟩
          · rw [← Except.ok.inj hparse]
            exact ⟨hflag, hcalls⟩
        dsimp only
        split
        · rename_i hbody
          rw [hsame.1]
          have htelling : Telling (headerEnd true readOff readLen t) := by
            refine ⟨rfl, [], ?_⟩
            rw [headerEnd, hsame.2]
            rfl
          exact andThen_tells (firstBody_telling htelling)
            ((firstBody_state _ _ _).trans ((headerEnd_state _ _ _ _).trans hbody))
        · exact Or.inl hsame
  · have hparse : parsePass readLen s = .ok s := by
      rw [parsePass, hstate]
      rfl
    rw [hparse]
    dsimp only
    rw [if_pos hstate, hflag]
    exact andThen_tells (nextBody_telling ⟨hflag, hcalls⟩)
      ((nextBody_state _ _ _).trans hstate)

/-- **THE HEAD IS TOLD FIRST**, once, and only pieces of the body after it, however the
    loop ends. -/
theorem respLoop_tells {onBody : Bool} {fuel : Nat} : ∀ {s : RespLocal}, Told s →
    ToldAll (respLoop true onBody fuel s).s := by
  induction fuel with
  | zero =>
      intro s h
      exact h.all
  | succ fuel ih =>
      intro s h
      rw [respLoop]
      cases s.sock.read (s.buffer.length - s.ctx.remainDataLen) with
      | mk got sock =>
          cases got with
          | none => exact h.all
          | some d =>
              dsimp only
              split
              · exact h.all
              · have hread : Told { s with buffer := store s.buffer s.ctx.remainDataLen d,
                                           sock := sock } := h
                have hpass : (respPass true onBody s.ctx.remainDataLen d.length _).Tells :=
                  respPass_tells hread
                cases hflow : respPass true onBody s.ctx.remainDataLen d.length
                    { s with buffer := store s.buffer s.ctx.remainDataLen d, sock := sock } with
                | go t =>
                    rw [hflow] at hpass
                    exact ih hpass
                | ret _ _ | abort _ _ =>
                    rw [hflow] at hpass
                    exact hpass

end HttpResp
