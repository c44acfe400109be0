import Hftp.HttpHeaderProofs

/-! # The chunked decoder

    `http_chunked_response_body` is a loop over four labels, entered at the
    label `chunk_terminate_state` names: the size field, the separator behind
    it, the chunk, and the separator behind that.  `entering` is true until the
    label the call resumed at has been left; each label has a variant for it.
    A label either goes on to the next one or breaks out of the loop, with
    `*continued` set, to wait for the next read.

    Indices and lengths are the C code's `int`s: a size may be negative. -/

namespace HttpChunked

open CBytes HttpCore

/-- One call of `resp_body_func`: the bytes it was shown and the length it was
    given. -/
structure Piece where
  bytes : Bytes
  len : Int
  deriving DecidableEq, Repr

/-- The locals of a call, with the calls of `resp_body_func` it has made. -/
structure ChunkLocal where
  ctx : HttpResponseContext
  index : Int
  len : Int
  entering : Bool
  bodyLen : Int
  pieces : List Piece
  deriving DecidableEq, Repr

/-- How a label is left. -/
inductive Flow where
  | go (s : ChunkLocal)
  | brk (continued : Bool) (s : ChunkLocal)
  | abort (e : Abort) (s : ChunkLocal)
  deriving DecidableEq, Repr

/-- The byte at an index of the buffer. -/
def byteAt (buffer : Bytes) (i : Int) : Except Abort Byte :=
  if 0 ≤ i then
    match buffer[i.toNat]? with
    | some b => .ok b
    | none => .error .outOfBounds
  else .error .outOfBounds

/-- `n` bytes from an index of the buffer on. -/
def slice (buffer : Bytes) (i : Int) (n : Nat) : Except Abort Bytes :=
  if n = 0 then .ok []
  else if 0 ≤ i ∧ i.toNat + n ≤ buffer.length then .ok ((buffer.drop i.toNat).take n)
  else .error .outOfBounds

/-- The look-ahead for the terminating chunk: `0`, CR, LF, in that order and no
    further than the first mismatch. -/
def looksEnd (buffer : Bytes) (i : Int) : Except Abort Bool := do
  let a ← byteAt buffer i
  if a = 48 then
    let b ← byteAt buffer (i + 1)
    if b = cr then
      let c ← byteAt buffer (i + 2)
      return c = lf
    else return false
  else return false

/-- `chunk_size_str` after the terminating chunk was recognised. -/
def endSizeStr (str : Bytes) : Bytes := (str.set 0 48).set 1 0

/-- The terminating chunk: `chunk_size = 0; *continued = 0; break`. -/
def breakEnd (s : ChunkLocal) (str : Bytes) : Flow :=
  .brk false { s with ctx := { s.ctx with chunkSizeStr := endSizeStr str, chunkSize := 0 } }

/-- `chunk_size = strtol(chunk_size_str, &ep, 16)`. -/
def parseSize (s : ChunkLocal) : Flow :=
  .go { s with ctx := { s.ctx with
    chunkSize := toInt (strtol 16 (s.ctx.chunkSizeStr.takeWhile (· ≠ 0))) } }

/-- The label `remain_size_byte`. -/
def remainSizeByte (buffer : Bytes) (s : ChunkLocal) : Flow :=
  let s := { s with ctx := { s.ctx with chunkTerminateState := .sizeByte } }
  let str := s.ctx.chunkSizeStr
  if s.entering then
    let prevLen := strlen str
    -- four characters are copied in either case, however few were received
    match slice buffer s.index (4 - prevLen) with
    | .error e => .abort e s
    | .ok d =>
        if (4 : Int) - prevLen > s.len then
          .brk true { s with ctx := { s.ctx with chunkSizeStr := str.take prevLen ++ d ++ [0] },
                             index := s.index + s.len, len := 0 }
        else
          let str := str.take prevLen ++ d ++ str.drop 4
          if str.take 3 = [48, cr, lf] then breakEnd s str
          else
            parseSize { s with ctx := { s.ctx with chunkSizeStr := str.set 4 0 },
                               index := s.index + (4 - prevLen : Nat),
                               len := s.len - (4 - prevLen : Nat), entering := false }
  else
    match looksEnd buffer s.index with
    | .error e => .abort e s
    | .ok true => breakEnd s str
    | .ok false =>
        if s.len < 4 then
          match slice buffer s.index s.len.toNat with
          | .error e => .abort e s
          | .ok d =>
              .brk true { s with
                ctx := { s.ctx with chunkSizeStr := d ++ 0 :: str.drop (s.len.toNat + 1) },
                index := s.index + s.len.toNat, len := s.len - s.len.toNat }
        else
          match slice buffer s.index 4 with
          | .error e => .abort e s
          | .ok d =>
              parseSize { s with ctx := { s.ctx with chunkSizeStr := d ++ [0] },
                                 index := s.index + 4, len := s.len - 4 }

/-- The two separators run the same code under different names. -/
def separator (label : ChunkState) (s : ChunkLocal) : Flow :=
  let s := { s with ctx := { s.ctx with chunkTerminateState := label } }
  let rem := s.ctx.chunkStateRemainByte
  if s.entering then
    if rem > s.len then
      .brk true { s with ctx := { s.ctx with chunkStateRemainByte := rem - s.len } }
    else
      .go { s with ctx := { s.ctx with chunkStateRemainByte := 0 },
                   len := s.len - rem, index := s.index + rem, entering := false }
  else if s.len < 2 then
    .brk true { s with ctx := { s.ctx with chunkStateRemainByte := 2 - s.len } }
  else .go { s with len := s.len - 2, index := s.index + 2 }

/-- The label `remain_separator_mid`. -/
def remainSeparatorMid (s : ChunkLocal) : Flow := separator .separatorMid s

/-- The label `remain_separator_end`. -/
def remainSeparatorEnd (s : ChunkLocal) : Flow := separator .separatorEnd s

/-- `if (conn->clb.resp_body_func != NULL) conn->clb.resp_body_func(..)`, then
    `*body_len += n`. -/
def deliver (registered : Bool) (buffer : Bytes) (n : Int) (s : ChunkLocal) :
    Except Abort ChunkLocal :=
  if registered then
    match slice buffer s.index n.toNat with
    | .error e => .error e
    | .ok d => .ok { s with pieces := s.pieces ++ [{ bytes := d, len := n }],
                            bodyLen := s.bodyLen + n }
  else .ok { s with bodyLen := s.bodyLen + n }

/-- The label `remain_chunk`: `want` is what is left of the chunk, which is
    `chunk_state_remain_byte` on entering and `chunk_size` otherwise. -/
def remainChunk (registered : Bool) (buffer : Bytes) (s : ChunkLocal) : Flow :=
  let s := { s with ctx := { s.ctx with chunkTerminateState := .chunk } }
  let want := if s.entering then s.ctx.chunkStateRemainByte else s.ctx.chunkSize
  if s.len < want then
    let s := { s with ctx := { s.ctx with chunkStateRemainByte := want - s.len } }
    match deliver registered buffer s.len s with
    | .error e => .abort e s
    | .ok s => .brk true { s with len := 0 }
  else
    match deliver registered buffer want s with
    | .error e => .abort e s
    | .ok s =>
        let s := { s with len := s.len - want, index := s.index + want }
        if s.entering then
          .go { s with ctx := { s.ctx with chunkStateRemainByte := 0 }, entering := false }
        else .go s

/-- The code at a label. -/
def chunkStep (registered : Bool) (buffer : Bytes) : ChunkState → ChunkLocal → Flow
  | .sizeByte => remainSizeByte buffer
  | .separatorMid => remainSeparatorMid
  | .chunk => remainChunk registered buffer
  | .separatorEnd => remainSeparatorEnd

/-- The label that follows in the loop. -/
def ChunkState.next : ChunkState → ChunkState
  | .sizeByte => .separatorMid
  | .separatorMid => .chunk
  | .chunk => .separatorEnd
  | .separatorEnd => .sizeByte

/-- How a call ended: the value of `*continued`, or why it did not return. -/
structure ChunkRun where
  stop : Except Abort Bool
  s : ChunkLocal
  deriving DecidableEq, Repr

def chunkLoop (registered : Bool) (buffer : Bytes) :
    Nat → ChunkState → ChunkLocal → ChunkRun
  | 0, _, s => { stop := .error .diverges, s := s }
  | fuel + 1, label, s =>
      match chunkStep registered buffer label s with
      | .go s => chunkLoop registered buffer fuel (ChunkState.next label) s
      | .brk continued s => { stop := .ok continued, s := s }
      | .abort e s => { stop := .error e, s := s }

/-- A pass that starts twice at one index of the buffer goes on for ever, and an
    index outside the buffer is caught when it is read, so this many labels
    decide whether a call returns. -/
def chunkFuel (buffer : Bytes) : Nat := 4 * (buffer.length + 4)

/-- `http_chunked_response_body(conn, buffer, read_len, &continued, &body_len, ..)`;
    `registered` is `conn->clb.resp_body_func != NULL`. -/
def httpChunkedResponseBody (registered : Bool) (buffer : Bytes) (readLen : Nat)
    (ctx : HttpResponseContext) (bodyLen : Int) : ChunkRun :=
  if readLen = 0 then
    { stop := .ok false,
      s := { ctx := ctx, index := 0, len := 0, entering := true, bodyLen := bodyLen,
             pieces := [] } }
  else
    chunkLoop registered buffer (chunkFuel buffer) ctx.chunkTerminateState
      { ctx := { ctx with remainDataIndex := 0, remainDataLen := 0 },
        index := ctx.remainDataIndex,
        len := if ctx.remainDataLen ≠ 0 then ctx.remainDataLen else readLen,
        entering := true, bodyLen := bodyLen, pieces := [] }

/-! ## The state of the parser is left alone -/

/-- The context a label leaves behind. -/
def Flow.ctx : Flow → HttpResponseContext
  | .go s | .brk _ s | .abort _ s => s.ctx

/-- Reading a size leaves the state of the response alone. -/
theorem remainSizeByte_state (buffer : Bytes) (s : ChunkLocal) :
    (remainSizeByte buffer s).ctx.state = s.ctx.state := by
  rw [remainSizeByte]
  dsimp only
  split
  · split
    · rfl
    · split
      · rfl
      · split <;> rfl
  · split
    · rfl
    · rfl
    · split
      · split <;> rfl
      · split <;> rfl

/-- So does skipping a separator. -/
theorem separator_state (label : ChunkState) (s : ChunkLocal) :
    (separator label s).ctx.state = s.ctx.state := by
  rw [separator]
  dsimp only
  split
  · split <;> rfl
  · split <;> rfl

/-- Handing over a piece leaves the whole context alone. -/
theorem deliver_ctx {registered : Bool} {buffer : Bytes} {n : Int} {s s' : ChunkLocal}
    (h : deliver registered buffer n s = .ok s') : s'.ctx = s.ctx := by
  rw [deliver] at h
  split at h
  · split at h
    · cases h
    · rw [← Except.ok.inj h]
  · rw [← Except.ok.inj h]

/-- So the data of a chunk does not touch the state either. -/
theorem remainChunk_state (registered : Bool) (buffer : Bytes) (s : ChunkLocal) :
    (remainChunk registered buffer s).ctx.state = s.ctx.state := by
  rw [remainChunk]
  dsimp only
  generalize (if s.entering = true then s.ctx.chunkStateRemainByte else s.ctx.chunkSize) = want
  split
  · split
    · rfl
    · rename_i hdeliver
      rw [Flow.ctx, deliver_ctx hdeliver]
  · split
    · rfl
    · rename_i hdeliver
      split <;> rw [Flow.ctx, deliver_ctx hdeliver]

/-- No pass touches it, whichever label it starts at. -/
theorem chunkStep_state (registered : Bool) (buffer : Bytes) (label : ChunkState) (s : ChunkLocal) :
    (chunkStep registered buffer label s).ctx.state = s.ctx.state := by
  cases label with
  | sizeByte => exact remainSizeByte_state buffer s
  | separatorMid => exact separator_state .separatorMid s
  | chunk => exact remainChunk_state registered buffer s
  | separatorEnd => exact separator_state .separatorEnd s

/-- **WHAT EVERY LABEL KEEPS** of the context the loop keeps. -/
theorem chunkLoop_keeps {registered : Bool} {buffer : Bytes} (inv : HttpResponseContext → Prop)
    (hstep : ∀ label s, inv s.ctx → inv (Flow.ctx (chunkStep registered buffer label s)))
    (fuel : Nat) : ∀ (label : ChunkState) (s : ChunkLocal), inv s.ctx →
      inv (chunkLoop registered buffer fuel label s).s.ctx := by
  induction fuel with
  | zero =>
      intro label s h
      exact h
  | succ fuel ih =>
      intro label s h
      have hkept := hstep label s h
      rw [chunkLoop]
      cases hflow : chunkStep registered buffer label s with
      | go t =>
          rw [hflow] at hkept
          exact ih _ t hkept
      | brk _ _ | abort _ _ =>
          rw [hflow] at hkept
          exact hkept

/-- **THE STATE OF THE RESPONSE** is the business of the caller: the decoder leaves it
    as it was. -/
theorem chunkLoop_state (registered : Bool) (buffer : Bytes) (fuel : Nat) (label : ChunkState)
    (s : ChunkLocal) :
    (chunkLoop registered buffer fuel label s).s.ctx.state = s.ctx.state := by
  have hstep : ∀ label t, t.ctx.state = s.ctx.state →
      (Flow.ctx (chunkStep registered buffer label t)).state = s.ctx.state :=
    fun label t h => (chunkStep_state registered buffer label t).trans h
  exact chunkLoop_keeps (fun ctx => ctx.state = s.ctx.state) hstep fuel label s rfl

/-- The decoder does not touch `ctx.state`. -/
theorem chunkedResponseBody_state (registered : Bool) (buffer : Bytes) (readLen : Nat)
    (ctx : HttpResponseContext) (bodyLen : Int) :
    (httpChunkedResponseBody registered buffer readLen ctx bodyLen).s.ctx.state = ctx.state := by
  rw [httpChunkedResponseBody]
  split
  · rfl
  · exact chunkLoop_state registered buffer _ _ _

end HttpChunked
