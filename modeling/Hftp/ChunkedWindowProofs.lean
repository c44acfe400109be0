import Hftp.HttpChunkedProofs
import Hftp.ChunkedCodecProofs

/-! # The decoder on a window of the coding

    A call of the decoder is shown a window of the coding and finds in the
    record of the connection what the windows before it left under way.  Every
    label consumes its part of the window or keeps what is missing; the chain
    of the four labels is followed by induction on the chunks. -/

namespace ChunkedWindow

open CBytes HttpCore HttpChunked ChunkedCodec

/-! ## What a call has to read -/

/-- `w` lies at the index of the call and is all it was given. -/
def At (buffer : Bytes) (s : ChunkLocal) (w : Bytes) : Prop :=
  ∃ pre stale, buffer = pre ++ (w ++ stale) ∧ s.index = pre.length ∧ s.len = w.length

/-- The decoder is at as many bytes as are left of the window. -/
theorem At.len {buffer w : Bytes} {s : ChunkLocal} (h : At buffer s w) : s.len = w.length := by
  obtain ⟨_, _, -, -, hlen⟩ := h
  exact hlen

/-- It comes to what is behind the bytes that it passes. -/
theorem At.skip {buffer a w : Bytes} {s s' : ChunkLocal} (h : At buffer s (a ++ w))
    (hindex : s'.index = s.index + a.length) (hlen : s'.len = s.len - a.length) :
    At buffer s' w := by
  obtain ⟨pre, stale, hb, hi, hl⟩ := h
  refine ⟨pre ++ a, stale, ?_, ?_, ?_⟩
  · rw [hb, List.append_assoc, List.append_assoc]
  · rw [hindex, hi, List.length_append, Nat.cast_add]
  · rw [hlen, hl, List.length_append, Nat.cast_add]
    omega

/-- The bytes before it can be read. -/
theorem At.slice {buffer a w : Bytes} {s : ChunkLocal} (h : At buffer s (a ++ w)) :
    slice buffer s.index a.length = .ok a := by
  obtain ⟨pre, stale, hb, hi, -⟩ := h
  rw [HttpChunked.slice]
  by_cases ha : a.length = 0
  · rw [if_pos ha, List.eq_nil_of_length_eq_zero ha]
  · have hle : 0 ≤ s.index ∧ s.index.toNat + a.length ≤ buffer.length := by
      rw [hi, hb]
      simp only [List.length_append]
      omega
    rw [if_neg ha, if_pos hle, hi, Int.toNat_natCast, hb, List.drop_left,
      List.append_assoc, List.take_left]

/-- So can a single one of them. -/
theorem At.byteAt {buffer a w : Bytes} {s : ChunkLocal} {b : Byte} {k : Int}
    (h : At buffer s (a ++ b :: w)) (hk : k = a.length) :
    byteAt buffer (s.index + k) = .ok b := by
  obtain ⟨pre, stale, hb, hi, -⟩ := h
  have hidx : (s.index + k).toNat = pre.length + a.length := by omega
  have hget : buffer[pre.length + a.length]? = some b := by
    rw [hb, List.getElem?_append_right (Nat.le_add_right _ _), Nat.add_sub_cancel_left]
    simp
  rw [HttpChunked.byteAt, if_pos (by omega), hidx, hget]

/-! ## What a call leaves behind -/

/-- The record of a connection says what is under way. -/
def Held : Pending → HttpResponseContext → Prop
  | .size pre, ctx =>
      ctx.chunkTerminateState = .sizeByte ∧ (0 : Byte) ∉ pre ∧
        ∃ t, ctx.chunkSizeStr = pre ++ 0 :: t
  | .mid missing chunk, ctx =>
      ctx.chunkTerminateState = .separatorMid ∧ ctx.chunkStateRemainByte = missing ∧
        ctx.chunkSize = chunk
  | .data missing, ctx =>
      ctx.chunkTerminateState = .chunk ∧ ctx.chunkStateRemainByte = missing
  | .tail missing, ctx =>
      ctx.chunkTerminateState = .separatorEnd ∧ ctx.chunkStateRemainByte = missing
  | .done, ctx => ctx.chunkSize = 0

/-- The bytes handed to `resp_body_func`. -/
def delivered (ps : List Piece) : Bytes := ps.flatMap Piece.bytes

/-- **HOW A CALL ENDS** when everything it read was decoded: it asks for more
    unless the coding is complete, keeps what is under way, and has handed over
    the contents that came in. -/
structure Reaches (registered : Bool) (s : ChunkLocal) (p : Pending) (gain : Bytes)
    (run : ChunkRun) : Prop where
  stop : run.stop = .ok (decide (p ≠ .done))
  held : Held p run.s.ctx
  live : p ≠ .done → run.s.ctx.chunkSize ≠ 0
  pieces : delivered run.s.pieces = delivered s.pieces ++ (if registered then gain else [])
  bodyLen : run.s.bodyLen = s.bodyLen + gain.length
  state : run.s.ctx.state = s.ctx.state
  remainIndex : run.s.ctx.remainDataIndex = s.ctx.remainDataIndex
  remainLen : run.s.ctx.remainDataLen = s.ctx.remainDataLen

/-- A size field that is cut short is searched for the terminating chunk beyond
    what was received; `stop` is where the window ends. -/
def NoLookEnd (buffer : Bytes) (stop : Int) (p : Pending) : Prop :=
  ∀ pre, p = .size pre → looksEnd buffer (stop - pre.length) = .ok false

/-- How many bytes a separator label waits for. -/
def Need (s : ChunkLocal) (k : Nat) (full : Int) : Prop :=
  if s.entering then s.ctx.chunkStateRemainByte = k else full = k

/-- A separator that is cut is left with what is missing of it. -/
theorem separator_short {label : ChunkState} {s : ChunkLocal} {k : Nat} (hk : Need s k 2)
    (hlen : s.len < k) :
    separator label s = .brk true { s with ctx := { s.ctx with
      chunkTerminateState := label, chunkStateRemainByte := k - s.len } } := by
  rw [separator]
  cases he : s.entering with
  | true =>
      have hrem : s.ctx.chunkStateRemainByte = k := by rw [Need, he] at hk; exact hk
      simp only [if_true, hrem, gt_iff_lt, if_pos hlen]
  | false =>
      have h2 : (2 : Int) = k := by rw [Need, he] at hk; exact hk
      simp only [Bool.false_eq_true, if_false, h2, if_pos hlen]

/-- One that is not is passed. -/
theorem separator_go (label : ChunkState) {s : ChunkLocal} {k : Nat} (hk : Need s k 2)
    (hlen : ¬ s.len < k) :
    ∃ rem, separator label s = .go { s with
      ctx := { s.ctx with chunkTerminateState := label, chunkStateRemainByte := rem },
      len := s.len - k, index := s.index + k, entering := false } := by
  rw [separator]
  cases he : s.entering with
  | true =>
      have hrem : s.ctx.chunkStateRemainByte = k := by rw [Need, he] at hk; exact hk
      simp only [if_true, hrem, gt_iff_lt, if_neg hlen]
      exact ⟨0, rfl⟩
  | false =>
      have h2 : (2 : Int) = k := by rw [Need, he] at hk; exact hk
      simp only [Bool.false_eq_true, if_false, h2, if_neg hlen]
      exact ⟨s.ctx.chunkStateRemainByte, rfl⟩

/-- Bytes of the window are handed over as they are. -/
theorem deliver_ok (registered : Bool) {buffer a w : Bytes} {s : ChunkLocal} {n : Int}
    (hat : At buffer s (a ++ w)) (hn : n = a.length) :
    ∃ ps, deliver registered buffer n s
        = .ok { s with pieces := ps, bodyLen := s.bodyLen + a.length } ∧
      delivered ps = delivered s.pieces ++ (if registered then a else []) := by
  rw [deliver, hn, Int.toNat_natCast, hat.slice]
  cases registered with
  | true =>
      refine ⟨_, rfl, ?_⟩
      simp [delivered]
  | false =>
      refine ⟨s.pieces, rfl, ?_⟩
      simp

/-- The data of a chunk that is cut is left with what is missing of it. -/
theorem chunk_short (registered : Bool) {buffer w : Bytes} {s : ChunkLocal} {k : Nat}
    (hk : Need s k s.ctx.chunkSize) (hat : At buffer s w) (hlen : w.length < k) :
    ∃ ps, remainChunk registered buffer s = .brk true { s with
        ctx := { s.ctx with chunkTerminateState := .chunk,
                            chunkStateRemainByte := k - w.length },
        len := 0, pieces := ps, bodyLen := s.bodyLen + w.length } ∧
      delivered ps = delivered s.pieces ++ (if registered then w else []) := by
  have hwant : (if s.entering then s.ctx.chunkStateRemainByte else s.ctx.chunkSize) = k := by
    cases he : s.entering with
    | true => rw [Need, he] at hk; exact hk
    | false => rw [Need, he] at hk; exact hk
  have hl : s.len = w.length := hat.len
  obtain ⟨ps, hps, hdel⟩ := deliver_ok registered (n := w.length)
    (s := { s with ctx := { s.ctx with chunkTerminateState := .chunk,
                                       chunkStateRemainByte := k - w.length } })
    (a := w) (w := []) (by rw [List.append_nil]; exact hat) rfl
  refine ⟨ps, ?_, hdel⟩
  have hlt : s.len < k := by omega
  dsimp only at hps
  rw [← hl] at hps ⊢
  rw [remainChunk]
  simp only [hwant, if_pos hlt, hps]

/-- Data that is all there is handed over and passed. -/
theorem chunk_go (registered : Bool) {buffer a w : Bytes} {s : ChunkLocal}
    (hk : Need s a.length s.ctx.chunkSize) (hat : At buffer s (a ++ w)) :
    ∃ ps rem, remainChunk registered buffer s = .go { s with
        ctx := { s.ctx with chunkTerminateState := .chunk, chunkStateRemainByte := rem },
        len := s.len - a.length, index := s.index + a.length, entering := false,
        pieces := ps, bodyLen := s.bodyLen + a.length } ∧
      delivered ps = delivered s.pieces ++ (if registered then a else []) := by
  have hwant : (if s.entering then s.ctx.chunkStateRemainByte else s.ctx.chunkSize)
      = a.length := by
    cases he : s.entering with
    | true => rw [Need, he] at hk; exact hk
    | false => rw [Need, he] at hk; exact hk
  have hl : s.len = (a ++ w).length := hat.len
  obtain ⟨ps, hps, hdel⟩ := deliver_ok registered (n := a.length)
    (s := { s with ctx := { s.ctx with chunkTerminateState := .chunk } }) (a := a) (w := w)
    hat rfl
  dsimp only at hps
  have hle : ¬ s.len < a.length := by
    rw [hl, List.length_append]
    omega
  by_cases he : s.entering = true
  · refine ⟨ps, 0, ?_, hdel⟩
    rw [remainChunk]
    simp only [hwant, if_neg hle, hps, if_pos he]
  · refine ⟨ps, s.ctx.chunkStateRemainByte, ?_, hdel⟩
    rw [remainChunk]
    simp only [hwant, if_neg hle, hps, if_neg he]
    rw [Bool.not_eq_true] at he
    rw [he]

/-! ## The decoder on a window of the coding -/

/-- What one entry of the size label does on a window of the coding of `cs`. -/
def SizeRuns (registered : Bool) (buffer t : Bytes) (cs : List Chunk) : Prop :=
  ∀ (fuel : Nat) (s : ChunkLocal) (w : Bytes), At buffer s w → w <+: codingThen t cs →
    s.entering = false → s.ctx.chunkSize ≠ 0 → w.length < fuel →
    NoLookEnd buffer (s.index + s.len) (pendingAt cs w.length) →
    Reaches registered s (pendingAt cs w.length) (contentsAt cs w.length)
      (chunkLoop registered buffer fuel .sizeByte s)

/-- From the separator behind a chunk on. -/
theorem tail_run {registered : Bool} {buffer t : Bytes} {cs : List Chunk}
    (hnext : SizeRuns registered buffer t cs) (fuel : Nat) {k : Nat} {s : ChunkLocal}
    {w sep : Bytes}
    (hat : At buffer s w) (hw : w <+: sep ++ codingThen t cs) (hsep : sep.length = k)
    (hk : Need s k 2) (hpos : 0 < k) (hlive : s.ctx.chunkSize ≠ 0) (hfuel : w.length < fuel)
    (hend : NoLookEnd buffer (s.index + s.len) (tailAt (pendingAt cs) k w.length)) :
    Reaches registered s (tailAt (pendingAt cs) k w.length) (contentsAt cs (w.length - k))
      (chunkLoop registered buffer fuel .separatorEnd s) := by
  obtain ⟨f, rfl⟩ : ∃ f, fuel = f + 1 := ⟨fuel - 1, by omega⟩
  have hl := hat.len
  rw [tailAt] at hend ⊢
  rw [chunkLoop, chunkStep, remainSeparatorEnd]
  by_cases hshort : w.length < k
  · have hs : s.len < k := by omega
    rw [separator_short hk hs, if_pos hshort, contentsAt_small cs (by omega)]
    constructor
    · rfl
    · exact ⟨rfl, by show (k : Int) - s.len = _; omega⟩
    · intro _; exact hlive
    · cases registered <;> simp
    · simp
    · rfl
    · rfl
    · rfl
  · have hs : ¬ s.len < k := by omega
    obtain ⟨rem, hgo⟩ := separator_go .separatorEnd hk hs
    obtain ⟨v, rfl, hv⟩ := prefix_split hw (by omega)
    have hvlen : (sep ++ v).length - k = v.length := by
      rw [List.length_append]; omega
    rw [if_neg hshort, hvlen] at hend ⊢
    rw [hgo]
    have hrun := hnext f { s with
        ctx := { s.ctx with chunkTerminateState := .separatorEnd, chunkStateRemainByte := rem },
        len := s.len - k, index := s.index + k, entering := false } v
      (hat.skip (by show s.index + k = _; omega) (by show s.len - k = _; omega)) hv rfl hlive
      (by rw [List.length_append] at hfuel; omega)
      (by
        have hstop : s.index + (k : Int) + (s.len - k) = s.index + s.len := by omega
        show NoLookEnd buffer (s.index + k + (s.len - k)) _
        rw [hstop]
        exact hend)
    exact ⟨hrun.stop, hrun.held, hrun.live, hrun.pieces, hrun.bodyLen, hrun.state,
      hrun.remainIndex, hrun.remainLen⟩

/-- From a chunk on. -/
theorem data_run {registered : Bool} {buffer t : Bytes} {cs : List Chunk}
    (hnext : SizeRuns registered buffer t cs) (fuel : Nat) {s : ChunkLocal} {w d : Bytes}
    (hat : At buffer s w) (hw : w <+: d ++ (crlf ++ codingThen t cs))
    (hk : Need s d.length s.ctx.chunkSize) (hpos : 0 < d.length)
    (hlive : s.ctx.chunkSize ≠ 0) (hfuel : w.length < fuel)
    (hend : NoLookEnd buffer (s.index + s.len) (dataAt (pendingAt cs) d.length w.length)) :
    Reaches registered s (dataAt (pendingAt cs) d.length w.length)
      (d.take w.length ++ contentsAt cs (w.length - d.length - 2))
      (chunkLoop registered buffer fuel .chunk s) := by
  obtain ⟨f, rfl⟩ : ∃ f, fuel = f + 1 := ⟨fuel - 1, by omega⟩
  have hl := hat.len
  rw [dataAt] at hend ⊢
  rw [chunkLoop, chunkStep]
  by_cases hshort : w.length < d.length
  · obtain ⟨ps, hbrk, hdel⟩ := chunk_short registered hk hat hshort
    have hw' : d.take w.length = w := (prefix_within hw (by omega)).symm
    rw [hbrk, if_pos hshort, contentsAt_small cs (by omega), List.append_nil, hw']
    constructor
    · rfl
    · exact ⟨rfl, by show (d.length : Int) - w.length = _; omega⟩
    · intro _; exact hlive
    · exact hdel
    · rfl
    · rfl
    · rfl
    · rfl
  · obtain ⟨v, rfl, hv⟩ := prefix_split hw (by omega)
    obtain ⟨ps, rem, hgo, hdel⟩ := chunk_go registered hk hat
    have hvlen : (d ++ v).length - d.length = v.length := by
      rw [List.length_append]; omega
    have htake : d.take (d ++ v).length = d := by
      rw [List.take_of_length_le]
      rw [List.length_append]; omega
    rw [if_neg hshort, hvlen] at hend
    rw [if_neg hshort, hvlen, htake, hgo]
    have hrun := tail_run hnext f (k := 2) (w := v) (s := { s with
        ctx := { s.ctx with chunkTerminateState := .chunk, chunkStateRemainByte := rem },
        len := s.len - d.length, index := s.index + d.length, entering := false,
        pieces := ps, bodyLen := s.bodyLen + d.length })
      (hat.skip rfl rfl) hv rfl rfl (by omega) hlive
      (by rw [List.length_append] at hfuel; omega)
      (by
        have hstop : s.index + (d.length : Int) + (s.len - d.length) = s.index + s.len := by
          omega
        show NoLookEnd buffer (s.index + d.length + (s.len - d.length)) _
        rw [hstop]
        exact hend)
    refine ⟨hrun.stop, hrun.held, hrun.live, ?_, ?_, hrun.state, hrun.remainIndex,
      hrun.remainLen⟩
    · refine hrun.pieces.trans ?_
      show delivered ps ++ _ = _
      rw [hdel, List.append_assoc]
      cases registered <;> rfl
    · refine hrun.bodyLen.trans ?_
      show s.bodyLen + (d.length : Int) + _ = _
      rw [List.length_append, Nat.cast_add]
      omega

/-- From the separator behind a size on. -/
theorem mid_run {registered : Bool} {buffer t : Bytes} {cs : List Chunk}
    (hnext : SizeRuns registered buffer t cs) (fuel : Nat) {k : Nat} {s : ChunkLocal}
    {w d sep : Bytes}
    (hat : At buffer s w) (hw : w <+: sep ++ (d ++ (crlf ++ codingThen t cs)))
    (hsep : sep.length = k)
    (hk : Need s k 2) (hpos : 0 < k) (hd : 0 < d.length) (hsize : s.ctx.chunkSize = d.length)
    (hfuel : w.length < fuel)
    (hend : NoLookEnd buffer (s.index + s.len) (midAt (pendingAt cs) d.length k w.length)) :
    Reaches registered s (midAt (pendingAt cs) d.length k w.length)
      (d.take (w.length - k) ++ contentsAt cs (w.length - k - d.length - 2))
      (chunkLoop registered buffer fuel .separatorMid s) := by
  obtain ⟨f, rfl⟩ : ∃ f, fuel = f + 1 := ⟨fuel - 1, by omega⟩
  have hl := hat.len
  have hlive : s.ctx.chunkSize ≠ 0 := by omega
  rw [midAt] at hend ⊢
  rw [chunkLoop, chunkStep, remainSeparatorMid]
  by_cases hshort : w.length < k
  · have hs : s.len < k := by omega
    have hzero : w.length - k = 0 := by omega
    rw [separator_short hk hs, if_pos hshort, contentsAt_small cs (by omega), hzero]
    constructor
    · rfl
    · exact ⟨rfl, by show (k : Int) - s.len = _; omega, hsize⟩
    · intro _; exact hlive
    · cases registered <;> simp
    · simp
    · rfl
    · rfl
    · rfl
  · have hs : ¬ s.len < k := by omega
    obtain ⟨rem, hgo⟩ := separator_go .separatorMid hk hs
    obtain ⟨v, rfl, hv⟩ := prefix_split hw (by omega)
    have hvlen : (sep ++ v).length - k = v.length := by
      rw [List.length_append]; omega
    rw [if_neg hshort, hvlen] at hend ⊢
    rw [hgo]
    have hrun := data_run hnext f (w := v) (d := d) (s := { s with
        ctx := { s.ctx with chunkTerminateState := .separatorMid, chunkStateRemainByte := rem },
        len := s.len - k, index := s.index + k, entering := false })
      (hat.skip (by show s.index + k = _; omega) (by show s.len - k = _; omega)) hv hsize hd
      hlive (by rw [List.length_append] at hfuel; omega)
      (by
        have hstop : s.index + (k : Int) + (s.len - k) = s.index + s.len := by omega
        show NoLookEnd buffer (s.index + k + (s.len - k)) _
        rw [hstop]
        exact hend)
    exact ⟨hrun.stop, hrun.held, hrun.live, hrun.pieces, hrun.bodyLen, hrun.state,
      hrun.remainIndex, hrun.remainLen⟩

/-- A size of four digits is read back. -/
theorem parseSize_chunk {c : Chunk} (h4 : c.FourDigits) {s : ChunkLocal} {t : Bytes}
    (hstr : s.ctx.chunkSizeStr.takeWhile (· ≠ 0) = c.size ++ t) (ht : NoDigit t) :
    parseSize s = .go { s with ctx := { s.ctx with chunkSize := c.data.length } } := by
  obtain ⟨b, bs, hs, hb⟩ := c.size_cons
  obtain ⟨-, hhi⟩ := c.size_bounds
  rw [Chunk.FourDigits] at h4
  rw [h4] at hhi
  have hval : strtol 16 (c.size ++ t) = clampLong (c.data.length : Int) := by
    rw [← c.value, hs]
    exact strtol_hex (hs ▸ c.hex) hb ht
  have hclamp : clampLong (c.data.length : Int) = c.data.length := by
    rw [clampLong]; omega
  have hint : toInt (c.data.length : Int) = c.data.length := by
    rw [toInt, Int.bmod_eq_of_le (by omega) (by omega)]
  rw [parseSize, hstr, hval, hclamp, hint]

/-- Three bytes that are not `0`, CR, LF are not the terminating chunk. -/
theorem looksEnd_other {buffer d w : Bytes} {s : ChunkLocal} (hat : At buffer s (d ++ w))
    (hlen : 3 ≤ d.length) (hno : d.take 3 ≠ [48, cr, lf]) :
    looksEnd buffer s.index = .ok false := by
  obtain ⟨x, y, z, ds, rfl⟩ : ∃ x y z ds, d = x :: y :: z :: ds := by
    rcases d with _ | ⟨x, _ | ⟨y, _ | ⟨z, ds⟩⟩⟩
    · cases Nat.not_succ_le_zero 2 hlen
    · simp at hlen
    · simp at hlen
    · exact ⟨x, y, z, ds, rfl⟩
  have h0 := hat.byteAt (a := []) (k := 0) rfl
  have h1 := hat.byteAt (a := [x]) (k := 1) rfl
  have h2 := hat.byteAt (a := [x, y]) (k := 2) rfl
  rw [Int.add_zero] at h0
  rw [looksEnd, h0]
  by_cases hx : x = 48
  swap
  · simp only [bind, Except.bind, if_neg hx]
    rfl
  simp only [bind, Except.bind, if_pos hx]
  rw [h1]
  by_cases hy : y = cr
  swap
  · simp only [if_neg hy]
    rfl
  simp only [if_pos hy]
  rw [h2]
  have hz : z ≠ lf := fun hz => hno (by rw [hx, hy, hz]; rfl)
  show Except.ok (decide (z = lf)) = _
  rw [decide_eq_false hz]

/-- The terminating chunk is seen as soon as its first CR LF is there. -/
theorem looksEnd_last {buffer w : Bytes} {s : ChunkLocal}
    (hat : At buffer s (48 :: cr :: lf :: w)) : looksEnd buffer s.index = .ok true := by
  have h0 := hat.byteAt (a := []) (k := 0) rfl
  have h1 := hat.byteAt (a := [48]) (k := 1) rfl
  have h2 := hat.byteAt (a := [48, cr]) (k := 2) rfl
  rw [Int.add_zero] at h0
  rw [looksEnd, h0]
  simp only [bind, Except.bind, if_true]
  rw [h1]
  simp only [if_true]
  rw [h2]
  rfl

/-- What is kept of a size ends at its NUL. -/
theorem strlen_held {pre t : Bytes} (h : (0 : Byte) ∉ pre) :
    strlen (pre ++ 0 :: t) = pre.length := by
  rw [strlen, takeWhile_ne_append h]

/-- The look for the terminating chunk in a size field put together from two reads. -/
theorem size_entering {buffer pre d w : Bytes} {s : ChunkLocal}
    (hat : At buffer s (d ++ w)) (hent : s.entering = true) (hnul : (0 : Byte) ∉ pre)
    (hstr : ∃ t, s.ctx.chunkSizeStr = pre ++ 0 :: t) (h4 : pre.length + d.length = 4) :
    ∃ t, remainSizeByte buffer s
      = if (pre ++ d).take 3 = [48, cr, lf] then
          breakEnd { s with ctx := { s.ctx with chunkTerminateState := .sizeByte } }
            (pre ++ d ++ t)
        else
          parseSize { s with
            ctx := { s.ctx with chunkTerminateState := .sizeByte,
                                chunkSizeStr := (pre ++ d ++ t).set 4 0 },
            index := s.index + d.length, len := s.len - d.length, entering := false } := by
  obtain ⟨t, ht⟩ := hstr
  have hl := hat.len
  have hprev : strlen s.ctx.chunkSizeStr = pre.length := by rw [ht, strlen_held hnul]
  have hwant : 4 - pre.length = d.length := by omega
  have hge : ¬ (4 : Int) - pre.length > s.len := by
    rw [hl, List.length_append]; omega
  have htake : s.ctx.chunkSizeStr.take pre.length = pre := by rw [ht, List.take_left]
  have h3 : (pre ++ d ++ s.ctx.chunkSizeStr.drop 4).take 3 = (pre ++ d).take 3 := by
    rw [List.take_append_of_le_length]
    rw [List.length_append]; omega
  refine ⟨s.ctx.chunkSizeStr.drop 4, ?_⟩
  rw [remainSizeByte]
  simp only [hent, if_true, hprev, hwant, hat.slice, if_neg hge, htake, h3]

/-- **A SIZE FIELD THAT IS FILLED**: four bytes, some perhaps from an earlier
    read, that are not the terminating chunk are converted as they are. -/
theorem size_filled (pre : Bytes) {buffer d w : Bytes} {s : ChunkLocal} (hat : At buffer s (d ++ w))
    (h4 : pre.length + d.length = 4) (hno : (pre ++ d).take 3 ≠ [48, cr, lf])
    (hnul : (0 : Byte) ∉ pre ++ d)
    (hs : s.entering = false ∧ pre = [] ∨
      s.entering = true ∧ ∃ t, s.ctx.chunkSizeStr = pre ++ 0 :: t) :
    ∃ str, str.takeWhile (· ≠ 0) = pre ++ d ∧
      remainSizeByte buffer s = parseSize { s with
        ctx := { s.ctx with chunkTerminateState := .sizeByte, chunkSizeStr := str },
        index := s.index + d.length, len := s.len - d.length, entering := false } := by
  rcases hs with ⟨hent, rfl⟩ | ⟨hent, hstr⟩
  · refine ⟨d ++ [0], takeWhile_ne_append hnul, ?_⟩
    have hd4 : d.length = 4 := by simpa using h4
    have hlook : looksEnd buffer s.index = .ok false :=
      looksEnd_other hat (by omega) (by rw [List.nil_append] at hno; exact hno)
    have hge : ¬ s.len < 4 := by
      rw [hat.len, List.length_append]; omega
    have hslice := hat.slice
    rw [hd4] at hslice ⊢
    rw [remainSizeByte]
    simp only [hent, Bool.false_eq_true, if_false, hlook, if_neg hge, hslice]
    rfl
  · have hpre : (0 : Byte) ∉ pre := fun hm => hnul (List.mem_append_left _ hm)
    obtain ⟨t, ht⟩ := size_entering hat hent hpre hstr h4
    rw [if_neg hno] at ht
    refine ⟨_, ?_, ht⟩
    have hlen : (pre ++ d).length = 4 := by rw [List.length_append, h4]
    cases t with
    | nil => rw [List.append_nil, List.set_eq_of_length_le (by omega), takeWhile_ne_self hnul]
    | cons x xs =>
        have hset : (pre ++ d ++ x :: xs).set 4 0 = pre ++ d ++ 0 :: xs := by
          rw [List.set_append_right _ _ (by omega), hlen]
          rfl
        rw [hset, takeWhile_ne_append hnul]

/-- **A SIZE FIELD THAT IS NOT FILLED** on entering: four bytes are copied even so,
    the ones that were not received among them. -/
theorem size_starved {buffer d : Bytes} {s : ChunkLocal} (hent : s.entering = true)
    (hstr : ∃ t, s.ctx.chunkSizeStr = 0 :: t) (hslice : slice buffer s.index 4 = .ok d)
    (hlen : s.len < 4) :
    remainSizeByte buffer s = .brk true { s with
      ctx := { s.ctx with chunkTerminateState := .sizeByte, chunkSizeStr := d ++ [0] },
      index := s.index + s.len, len := 0 } := by
  obtain ⟨t, ht⟩ := hstr
  have hprev : strlen s.ctx.chunkSizeStr = 0 := by
    rw [ht]
    exact (strlen_held List.not_mem_nil : strlen ([] ++ 0 :: t) = 0)
  have hgt : (4 : Int) - (0 : Nat) > s.len := by omega
  rw [remainSizeByte]
  simp only [hent, if_true, hprev, hslice, Nat.sub_zero, if_pos hgt, List.take_zero,
    List.nil_append]

/-- A size field of which fewer than four bytes are there is kept. -/
theorem size_short {registered : Bool} {buffer w : Bytes} {s : ChunkLocal} {f : Nat}
    (hat : At buffer s w) (hent : s.entering = false) (hlive : s.ctx.chunkSize ≠ 0)
    (hlook : looksEnd buffer s.index = .ok false) (hlen : w.length < 4)
    (hnul : (0 : Byte) ∉ w) :
    Reaches registered s (.size w) [] (chunkLoop registered buffer (f + 1) .sizeByte s) := by
  have hl := hat.len
  have hslice := At.slice (a := w) (w := []) (by rw [List.append_nil]; exact hat)
  have hnat : s.len.toNat = w.length := by omega
  have hlt : s.len < 4 := by omega
  rw [chunkLoop, chunkStep, remainSizeByte]
  simp only [hent, Bool.false_eq_true, if_false, hlook, if_pos hlt, hnat, hslice]
  constructor
  · rfl
  · exact ⟨rfl, hnul, _, rfl⟩
  · intro _; exact hlive
  · cases registered <;> simp
  · simp
  · rfl
  · rfl
  · rfl

/-- **THE DECODER ON ANY WINDOW**: from a size label on, the decoder consumes
    every byte of a window of the coding of four-digit chunks and stops with
    what is then under way. -/
theorem size_run (registered : Bool) (buffer t : Bytes) :
    ∀ cs : List Chunk, (∀ c ∈ cs, c.FourDigits) → SizeRuns registered buffer t cs := by
  intro cs
  induction cs with
  | nil =>
      intro _ fuel s w hat hw hent hlive hfuel hend
      obtain ⟨f, rfl⟩ : ∃ f, fuel = f + 1 := ⟨fuel - 1, by omega⟩
      have hl := hat.len
      rw [pendingAt] at hend ⊢
      by_cases hshort : w.length < 3
      · rw [if_pos hshort] at hend ⊢
        have hw' : lastChunk.take w.length = w :=
          (prefix_within hw (by show w.length ≤ 5; omega)).symm
        have hlook := hend _ rfl
        rw [hw', hl, Int.add_sub_cancel] at hlook
        rw [hw', contentsAt]
        refine size_short hat hent hlive hlook (by omega) ?_
        intro hm
        rw [← hw'] at hm
        exact absurd (List.mem_of_mem_take hm) (by decide)
      · obtain ⟨v, rfl, -⟩ := prefix_split (a := [48, cr, lf]) (b := [cr, lf] ++ t) hw (by
          show 3 ≤ _; omega)
        have hlook := looksEnd_last hat
        rw [if_neg hshort, chunkLoop, chunkStep, remainSizeByte]
        simp only [hent, Bool.false_eq_true, if_false, hlook]
        constructor
        · rfl
        · rfl
        · intro h; exact absurd rfl h
        · cases registered <;> simp [breakEnd, contentsAt]
        · simp [breakEnd, contentsAt]
        · rfl
        · rfl
        · rfl
  | cons c cs ih =>
      intro h4 fuel s w hat hw hent hlive hfuel hend
      obtain ⟨f, rfl⟩ : ∃ f, fuel = f + 1 := ⟨fuel - 1, by omega⟩
      have hc4 : c.size.length = 4 := h4 c List.mem_cons_self
      have hl := hat.len
      rw [pendingAt] at hend ⊢
      by_cases hshort : w.length < 4
      · rw [if_pos hshort] at hend ⊢
        have hw' : c.size.take w.length = w := (prefix_within hw (by omega)).symm
        have hlook := hend _ rfl
        rw [hw', hl, Int.add_sub_cancel] at hlook
        rw [hw', contentsAt_small (c :: cs) (by omega)]
        refine size_short hat hent hlive hlook hshort ?_
        intro hm
        rw [← hw'] at hm
        exact c.noNul (List.mem_of_mem_take hm)
      · obtain ⟨v, rfl, hv⟩ := prefix_split hw (by omega)
        have hvlen : (c.size ++ v).length - 4 = v.length := by
          rw [List.length_append]; omega
        have hvlen6 : (c.size ++ v).length - 6 = v.length - 2 := by
          rw [List.length_append]; omega
        have hvlen8 : (c.size ++ v).length - 8 - c.data.length
            = v.length - 2 - c.data.length - 2 := by
          rw [List.length_append]; omega
        obtain ⟨str, hstr, hfilled⟩ := size_filled [] hat (by rw [hc4]; rfl)
          c.not_last c.noNul (Or.inl ⟨hent, rfl⟩)
        rw [if_neg hshort, hvlen] at hend
        rw [if_neg hshort, hvlen, contentsAt, hvlen6, hvlen8, chunkLoop, chunkStep, hfilled,
          parseSize_chunk (c := c) (t := []) (h4 c List.mem_cons_self)
            (by rw [List.append_nil]; exact hstr) (fun b h => by cases h)]
        have hrun := mid_run (ih (fun c hc => h4 c (List.mem_cons_of_mem _ hc))) f
          (k := 2) (d := c.data) (w := v) (s := { s with
            ctx := { s.ctx with chunkTerminateState := .sizeByte, chunkSizeStr := str,
                                chunkSize := c.data.length },
            index := s.index + c.size.length, len := s.len - c.size.length,
            entering := false })
          (hat.skip rfl rfl) hv rfl rfl (by omega) c.data_pos rfl
          (by rw [List.length_append] at hfuel; omega)
          (by
            have hstop : s.index + (c.size.length : Int) + (s.len - c.size.length)
                = s.index + s.len := by omega
            show NoLookEnd buffer (s.index + c.size.length + (s.len - c.size.length)) _
            rw [hstop]
            exact hend)
        exact ⟨hrun.stop, hrun.held, hrun.live, hrun.pieces, hrun.bodyLen, hrun.state,
          hrun.remainIndex, hrun.remainLen⟩

/-! ## Resuming -/

/-- A read that ends in a size field must be followed by one that completes it. -/
def Completes (p : Pending) (n : Nat) : Prop :=
  ∀ pre, p = .size pre → 4 ≤ pre.length + n

private theorem size_resume_last {registered : Bool} {buffer t w : Bytes} {s : ChunkLocal}
    {n f : Nat} (hat : At buffer s w) (hw : w <+: (lastChunk ++ t).drop n) (hn : n < 3)
    (hent : s.entering = true) (hheld : Held (.size (lastChunk.take n)) s.ctx)
    (hcomplete : 4 ≤ n + w.length) :
    Reaches registered s .done [] (chunkLoop registered buffer (f + 1) .sizeByte s) := by
  obtain ⟨-, hnul, hstr⟩ := hheld
  have hpre : (lastChunk.take n).length = n := by
    rw [List.length_take]
    show min n 5 = n
    omega
  have hsplit : (lastChunk ++ t).drop n = (lastChunk.drop n).take (4 - n) ++ (lf :: t) := by
    have : n = 0 ∨ n = 1 ∨ n = 2 := by omega
    rcases this with rfl | rfl | rfl <;> rfl
  have hdlen : ((lastChunk.drop n).take (4 - n)).length = 4 - n := by
    rw [List.length_take, List.length_drop]
    show min (4 - n) (5 - n) = 4 - n
    omega
  rw [hsplit] at hw
  obtain ⟨v, rfl, -⟩ := prefix_split hw (by omega)
  obtain ⟨str, ht⟩ := size_entering hat hent hnul hstr (by omega)
  have hfound : (lastChunk.take n ++ (lastChunk.drop n).take (4 - n)).take 3
      = [48, cr, lf] := by
    have : n = 0 ∨ n = 1 ∨ n = 2 := by omega
    rcases this with rfl | rfl | rfl <;> rfl
  rw [chunkLoop, chunkStep, ht, if_pos hfound]
  constructor
  · rfl
  · rfl
  · intro h; exact absurd rfl h
  · cases registered <;> simp [breakEnd]
  · simp [breakEnd]
  · rfl
  · rfl
  · rfl

private theorem size_resume {registered : Bool} {buffer t w : Bytes} {s : ChunkLocal} {c : Chunk}
    {cs : List Chunk} {n f : Nat} (hnext : SizeRuns registered buffer t cs)
    (h4 : c.FourDigits) (hat : At buffer s w) (hw : w <+: (codingThen t (c :: cs)).drop n)
    (hn : n < 4)
    (hent : s.entering = true) (hheld : Held (.size (c.size.take n)) s.ctx)
    (hcomplete : 4 ≤ n + w.length) (hfuel : w.length < f + 1)
    (hend : NoLookEnd buffer (s.index + s.len) (pendingAt (c :: cs) (n + w.length))) :
    Reaches registered s (pendingAt (c :: cs) (n + w.length))
      (contentsAt (c :: cs) (n + w.length))
      (chunkLoop registered buffer (f + 1) .sizeByte s) := by
  have hc4 : c.size.length = 4 := h4
  obtain ⟨-, hnul, hstr⟩ := hheld
  have hpre : (c.size.take n).length = n := by rw [List.length_take]; omega
  have hdlen : (c.size.drop n).length = 4 - n := by rw [List.length_drop]; omega
  rw [codingThen, List.drop_append_of_le_length (by omega)] at hw
  obtain ⟨v, rfl, hv⟩ := prefix_split hw (by omega)
  have hjoin : c.size.take n ++ c.size.drop n = c.size := List.take_append_drop n c.size
  obtain ⟨str, hstr', hfilled⟩ := size_filled (c.size.take n) hat (by omega)
    (by rw [hjoin]; exact c.not_last) (by rw [hjoin]; exact c.noNul) (Or.inr ⟨hent, hstr⟩)
  rw [hjoin] at hstr'
  have hm : n + (c.size.drop n ++ v).length = v.length + 4 := by
    rw [List.length_append]; omega
  have hpend : pendingAt (c :: cs) (v.length + 4)
      = midAt (pendingAt cs) c.data.length 2 v.length := by
    rw [pendingAt, if_neg (by omega), Nat.add_sub_cancel]
  have hcont : contentsAt (c :: cs) (v.length + 4)
      = c.data.take (v.length - 2) ++ contentsAt cs (v.length - 2 - c.data.length - 2) := by
    rw [contentsAt]
    congr 2
    omega
  rw [hm, hpend] at hend ⊢
  rw [hcont, chunkLoop, chunkStep, hfilled,
    parseSize_chunk (c := c) (t := []) h4 (by rw [List.append_nil]; exact hstr')
      (fun b h => by cases h)]
  have hrun := mid_run hnext f (k := 2) (d := c.data) (w := v)
    (s := { s with
      ctx := { s.ctx with chunkTerminateState := .sizeByte, chunkSizeStr := str,
                          chunkSize := c.data.length },
      index := s.index + (c.size.drop n).length, len := s.len - (c.size.drop n).length,
      entering := false })
    (hat.skip rfl rfl) hv rfl rfl (by omega) c.data_pos rfl
    (by rw [List.length_append] at hfuel; omega)
    (by
      have hstop : s.index + ((c.size.drop n).length : Int) + (s.len - (c.size.drop n).length)
          = s.index + s.len := by omega
      show NoLookEnd buffer (s.index + (c.size.drop n).length
        + (s.len - (c.size.drop n).length)) _
      rw [hstop]
      exact hend)
  exact ⟨hrun.stop, hrun.held, hrun.live, hrun.pieces, hrun.bodyLen, hrun.state,
    hrun.remainIndex, hrun.remainLen⟩

/-- **RESUMING AT ANY BYTE**: a call that finds in the record what is under way
    after `n` bytes of the coding, and reads the bytes that follow, leaves what
    is under way after those. -/
theorem resume_run (registered : Bool) {buffer t : Bytes} :
    ∀ {cs : List Chunk} (fuel : Nat) {n : Nat} {s : ChunkLocal} {w : Bytes},
      (∀ c ∈ cs, c.FourDigits) → At buffer s w → w <+: (codingThen t cs).drop n →
      s.entering = true → Held (pendingAt cs n) s.ctx → pendingAt cs n ≠ .done →
      (s.ctx.chunkSize ≠ 0 ∨ ∃ pre, pendingAt cs n = .size pre) →
      Completes (pendingAt cs n) w.length → w.length < fuel →
      NoLookEnd buffer (s.index + s.len) (pendingAt cs (n + w.length)) →
      ∃ gain, contentsAt cs (n + w.length) = contentsAt cs n ++ gain ∧
        Reaches registered s (pendingAt cs (n + w.length)) gain
          (chunkLoop registered buffer fuel s.ctx.chunkTerminateState s) := by
  intro cs
  induction cs with
  | nil =>
      intro fuel n s w _ hat hw hent hheld hdone _ hcomplete hfuel hend
      obtain ⟨f, rfl⟩ : ∃ f, fuel = f + 1 := ⟨fuel - 1, by omega⟩
      have hn : n < 3 := by
        by_contra hge
        exact hdone (by rw [pendingAt, if_neg hge])
      have hsize : pendingAt [] n = .size (lastChunk.take n) := by rw [pendingAt, if_pos hn]
      have hpre : (lastChunk.take n).length = n := by
        rw [List.length_take]
        show min n 5 = n
        omega
      have h4 := hcomplete _ hsize
      rw [hpre] at h4
      rw [hsize] at hheld
      have hlast : pendingAt [] (n + w.length) = .done := by rw [pendingAt, if_neg (by omega)]
      rw [hlast, hheld.1]
      exact ⟨[], rfl, size_resume_last hat hw hn hent hheld h4⟩
  | cons c cs ih =>
      intro fuel n s w h4 hat hw hent hheld hdone hlive hcomplete hfuel hend
      have hc4 : c.FourDigits := h4 c List.mem_cons_self
      have hcs4 : ∀ c ∈ cs, c.FourDigits := fun c hc => h4 c (List.mem_cons_of_mem _ hc)
      have hnext := size_run registered buffer t cs hcs4
      obtain ⟨f, rfl⟩ : ∃ f, fuel = f + 1 := ⟨fuel - 1, by omega⟩
      have hlen4 : c.size.length = 4 := hc4
      by_cases hn4 : n < 4
      · -- in the size field
        have hsize : pendingAt (c :: cs) n = .size (c.size.take n) := by
          rw [pendingAt, if_pos hn4]
        have h4w := hcomplete _ hsize
        rw [List.length_take, Nat.min_eq_left (by omega)] at h4w
        rw [hsize] at hheld
        rw [hheld.1, contentsAt_small (c :: cs) (n := n) (by omega)]
        exact ⟨_, rfl, size_resume hnext hc4 hat hw hn4 hent hheld h4w hfuel hend⟩
      by_cases hn6 : n < 6
      · -- in the separator behind it
        have hmid := pendingAt_mid c cs (by omega) hn6
        rw [hmid] at hheld hlive
        obtain ⟨hlabel, hrem, hsize⟩ := hheld
        rw [drop_mid c cs hlen4 (by omega) (by omega)] at hw
        have hcut : (crlf.drop (n - 4)).length = 6 - n := by
          rw [List.length_drop]
          show 2 - (n - 4) = _
          omega
        have hrun := mid_run hnext (f + 1) (k := 6 - n) hat hw hcut
          (by rw [Need, hent]; exact hrem) (by omega) c.data_pos hsize hfuel
          (by rw [midAt_resume c cs _ (by omega) hn6]; exact hend)
        rw [midAt_resume c cs _ (by omega) hn6] at hrun
        refine ⟨_, ?_, hlabel ▸ hrun⟩
        rw [contentsAt_small (c :: cs) (n := n) (by omega), contentsAt, List.nil_append]
        congr 2 <;> omega
      by_cases hnd : n < 6 + c.data.length
      · -- in the chunk
        have hdata := pendingAt_data c cs (by omega) hnd
        rw [hdata] at hheld hlive
        obtain ⟨hlabel, hrem⟩ := hheld
        have hnz : s.ctx.chunkSize ≠ 0 := by
          rcases hlive with h | ⟨pre, h⟩
          · exact h
          · cases h
        rw [drop_data c cs hlen4 (by omega) (by omega)] at hw
        have hcut : (c.data.drop (n - 6)).length = 6 + c.data.length - n := by
          rw [List.length_drop]; omega
        have hrun := data_run hnext (f + 1) (d := c.data.drop (n - 6)) hat hw
          (by rw [Need, hent, hcut]; exact hrem) (by omega) hnz hfuel
          (by rw [hcut, dataAt_resume c cs _ (by omega) hnd]; exact hend)
        rw [hcut, dataAt_resume c cs _ (by omega) hnd] at hrun
        refine ⟨_, ?_, hlabel ▸ hrun⟩
        rw [contentsAt, contentsAt, contentsAt_small cs (n := n - 8 - c.data.length) (by omega),
          List.append_nil, ← List.append_assoc]
        congr 1
        · rw [show n + w.length - 6 = (n - 6) + w.length by omega, List.take_add]
        · congr 1; omega
      by_cases hnt : n < 8 + c.data.length
      · -- in the separator behind the chunk
        have htail := pendingAt_tail c cs (by omega) hnt
        rw [htail] at hheld hlive
        obtain ⟨hlabel, hrem⟩ := hheld
        have hnz : s.ctx.chunkSize ≠ 0 := by
          rcases hlive with h | ⟨pre, h⟩
          · exact h
          · cases h
        rw [drop_tail c cs hlen4 (by omega),
          List.drop_append_of_le_length (by show n - 6 - c.data.length ≤ 2; omega)] at hw
        have hcut : (crlf.drop (n - 6 - c.data.length)).length = 8 + c.data.length - n := by
          rw [List.length_drop]
          show 2 - (n - 6 - c.data.length) = _
          omega
        have hrun := tail_run hnext (f + 1) (k := 8 + c.data.length - n) hat hw hcut
          (by rw [Need, hent]; exact hrem) (by omega) hnz hfuel
          (by rw [tailAt_resume c cs _ (by omega) hnt]; exact hend)
        rw [tailAt_resume c cs _ (by omega) hnt] at hrun
        refine ⟨_, ?_, hlabel ▸ hrun⟩
        rw [contentsAt, contentsAt, contentsAt_small cs (n := n - 8 - c.data.length) (by omega),
          List.append_nil, List.take_of_length_le (i := n + w.length - 6) (by omega),
          List.take_of_length_le (i := n - 6) (by omega)]
        congr 2; omega
      · -- in a later chunk
        have hpend := pendingAt_next c cs (n := n) (by omega)
        have hpend' := pendingAt_next c cs (n := n + w.length) (by omega)
        have hshift : n + w.length - 8 - c.data.length = n - 8 - c.data.length + w.length := by
          omega
        rw [hshift] at hpend'
        rw [hpend] at hheld hdone hlive hcomplete
        rw [hpend'] at hend ⊢
        rw [drop_tail c cs hlen4 (by omega), List.drop_append,
          List.drop_eq_nil_of_le (by show 2 ≤ n - 6 - c.data.length; omega),
          List.nil_append] at hw
        have hpos : n - 6 - c.data.length - crlf.length = n - 8 - c.data.length := by
          show n - 6 - c.data.length - 2 = _
          omega
        rw [hpos] at hw
        obtain ⟨gain, hgain, hrun⟩ := ih (f + 1) hcs4 hat hw hent hheld hdone hlive
          hcomplete hfuel hend
        refine ⟨gain, ?_, hrun⟩
        rw [contentsAt, contentsAt, hshift, hgain, List.append_assoc,
          List.take_of_length_le (i := n + w.length - 6) (by omega),
          List.take_of_length_le (i := n - 6) (by omega)]

/-! ## Any window -/

/-- The locals a label leaves behind, whichever way it is left. -/
def Flow.after : Flow → ChunkLocal
  | .go s | .brk _ s | .abort _ s => s

/-- A size hands over nothing. -/
theorem remainSizeByte_pieces (buffer : Bytes) (s : ChunkLocal) :
    (Flow.after (remainSizeByte buffer s)).pieces = s.pieces := by
  rw [remainSizeByte]
  dsimp only
  split
  · split
    · rfl
    · split
      · rfl
      · split <;> rfl
  · split
    · rfl
    · rfl
    · split
      · split <;> rfl
      · split <;> rfl

/-- Nor does a separator. -/
theorem separator_pieces (label : ChunkState) (s : ChunkLocal) :
    (Flow.after (separator label s)).pieces = s.pieces := by
  rw [separator]
  dsimp only
  split
  · split <;> rfl
  · split <;> rfl

/-- A piece comes behind the others. -/
theorem deliver_grows {registered : Bool} {buffer : Bytes} {n : Int} {s s' : ChunkLocal}
    (h : deliver registered buffer n s = .ok s') : s.pieces <+: s'.pieces := by
  rw [deliver] at h
  split at h
  · split at h
    · cases h
    · rw [← Except.ok.inj h]
      exact List.prefix_append _ _
  · rw [← Except.ok.inj h]

/-- So does the data of a chunk. -/
theorem remainChunk_grows (registered : Bool) (buffer : Bytes) (s : ChunkLocal) :
    s.pieces <+: (Flow.after (remainChunk registered buffer s)).pieces := by
  rw [remainChunk]
  dsimp only
  generalize (if s.entering = true then s.ctx.chunkStateRemainByte else s.ctx.chunkSize) = want
  split
  · cases hd : deliver registered buffer s.len { s with
        ctx := { s.ctx with chunkTerminateState := .chunk,
                            chunkStateRemainByte := want - s.len } } with
    | error e => exact List.prefix_rfl
    | ok s' =>
        have hgrow := deliver_grows hd
        exact hgrow
  · cases hd : deliver registered buffer want { s with
        ctx := { s.ctx with chunkTerminateState := .chunk } } with
    | error e => exact List.prefix_rfl
    | ok s' =>
        have hgrow := deliver_grows hd
        dsimp only
        split <;> exact hgrow

/-- What was handed over stays handed over. -/
theorem chunkLoop_grows (registered : Bool) (buffer : Bytes) :
    ∀ (fuel : Nat) (label : ChunkState) (s : ChunkLocal),
      s.pieces <+: (chunkLoop registered buffer fuel label s).s.pieces := by
  intro fuel
  induction fuel with
  | zero => intro label s; exact List.prefix_rfl
  | succ fuel ih =>
      intro label s
      have hstep : s.pieces <+: (Flow.after (chunkStep registered buffer label s)).pieces := by
        cases label with
        | sizeByte => rw [chunkStep, remainSizeByte_pieces]
        | separatorMid => rw [chunkStep, remainSeparatorMid, separator_pieces]
        | chunk => exact remainChunk_grows registered buffer s
        | separatorEnd => rw [chunkStep, remainSeparatorEnd, separator_pieces]
      rw [chunkLoop]
      cases hflow : chunkStep registered buffer label s with
      | go s' =>
          rw [hflow] at hstep
          exact hstep.trans (ih _ s')
      | brk continued s' => rw [hflow] at hstep; exact hstep
      | abort e s' => rw [hflow] at hstep; exact hstep

/-- Both ways into the size label of a call. -/
def AtSize (s : ChunkLocal) : Prop :=
  s.entering = false ∨ s.entering = true ∧ ∃ t, s.ctx.chunkSizeStr = 0 :: t

/-- From the size label to the chunk: four bytes are converted, two are skipped. -/
theorem reach_chunk (registered : Bool) {buffer d sep w : Bytes} {s : ChunkLocal} {f : Nat}
    (hat : At buffer s (d ++ (sep ++ w))) (hd : d.length = 4) (hsep : sep.length = 2)
    (hno : d.take 3 ≠ [48, cr, lf]) (hnul : (0 : Byte) ∉ d) (hs : AtSize s) :
    ∃ s', At buffer s' w ∧ s'.entering = false ∧ s'.pieces = s.pieces ∧
      s'.ctx.chunkSize = toInt (strtol 16 d) ∧
      chunkLoop registered buffer (f + 2) .sizeByte s
        = chunkLoop registered buffer f .chunk s' := by
  obtain ⟨str, hstr, hfilled⟩ := size_filled [] hat (by rw [hd]; rfl) hno hnul
    (by
      rcases hs with h | h
      · exact Or.inl ⟨h, rfl⟩
      · exact Or.inr h)
  rw [List.nil_append] at hstr
  have hsize : parseSize { s with
        ctx := { s.ctx with chunkTerminateState := .sizeByte, chunkSizeStr := str },
        index := s.index + d.length, len := s.len - d.length, entering := false }
      = .go { s with
        ctx := { s.ctx with chunkTerminateState := .sizeByte, chunkSizeStr := str,
                            chunkSize := toInt (strtol 16 d) },
        index := s.index + d.length, len := s.len - d.length, entering := false } := by
    rw [parseSize, ← hstr]
  have hat1 : At buffer { s with
        ctx := { s.ctx with chunkTerminateState := .sizeByte, chunkSizeStr := str,
                            chunkSize := toInt (strtol 16 d) },
        index := s.index + d.length, len := s.len - d.length, entering := false } (sep ++ w) :=
    hat.skip rfl rfl
  rw [chunkLoop, chunkStep, hfilled, hsize]
  generalize hs1 : ({ s with
        ctx := { s.ctx with chunkTerminateState := .sizeByte, chunkSizeStr := str,
                            chunkSize := toInt (strtol 16 d) },
        index := s.index + d.length, len := s.len - d.length,
        entering := false } : ChunkLocal) = s1 at hat1 ⊢
  have hent : s1.entering = false := by rw [← hs1]
  have hlen := hat1.len
  rw [List.length_append] at hlen
  obtain ⟨rem, hgo⟩ := separator_go .separatorMid (s := s1) (k := 2)
    (by rw [Need, hent]; rfl) (by omega)
  refine ⟨{ s1 with
      ctx := { s1.ctx with chunkTerminateState := .separatorMid, chunkStateRemainByte := rem },
      len := s1.len - (2 : Nat), index := s1.index + (2 : Nat), entering := false },
    hat1.skip (by rw [hsep]) (by rw [hsep]), rfl, ?_, ?_, ?_⟩
  · rw [← hs1]
  · rw [← hs1]
  · show chunkLoop registered buffer (f + 1) .separatorMid s1 = _
    rw [chunkLoop, chunkStep, remainSeparatorMid, hgo]
    rfl

/-! ## A whole call -/

/-- The locals a call starts with. -/
def enter (readLen : Nat) (ctx : HttpResponseContext) (bodyLen : Int) : ChunkLocal :=
  { ctx := { ctx with remainDataIndex := 0, remainDataLen := 0 },
    index := ctx.remainDataIndex,
    len := if ctx.remainDataLen ≠ 0 then ctx.remainDataLen else readLen,
    entering := true, bodyLen := bodyLen, pieces := [] }

/-- A call with bytes enters the loop at the label that was left. -/
theorem body_call {registered : Bool} {buffer : Bytes} {readLen : Nat}
    {ctx : HttpResponseContext} {bodyLen : Int} (h : readLen ≠ 0) :
    httpChunkedResponseBody registered buffer readLen ctx bodyLen
      = chunkLoop registered buffer (chunkFuel buffer) ctx.chunkTerminateState
          (enter readLen ctx bodyLen) := if_neg h

/-- There is a round for every byte of the window. -/
theorem fuel_enough (pre w stale : Bytes) : w.length < chunkFuel (pre ++ (w ++ stale)) := by
  rw [chunkFuel]
  simp only [List.length_append]
  omega

/-- **TOO FEW BYTES TO START WITH**: a call that begins a body with one to three
    bytes asks for more, and the size is still the one it found. -/
theorem starved_call (registered : Bool) (buffer : Bytes) (readLen : Nat)
    (ctx : HttpResponseContext) (bodyLen : Int) (hread : readLen ≠ 0)
    (hlabel : ctx.chunkTerminateState = .sizeByte) (hstr : ∃ t, ctx.chunkSizeStr = 0 :: t)
    (hpos : 0 < ctx.remainDataLen) (hshort : ctx.remainDataLen < 4)
    (hroom : ctx.remainDataIndex + 4 ≤ buffer.length) :
    (httpChunkedResponseBody registered buffer readLen ctx bodyLen).stop = .ok true ∧
    (httpChunkedResponseBody registered buffer readLen ctx bodyLen).s.pieces = [] ∧
    (httpChunkedResponseBody registered buffer readLen ctx bodyLen).s.ctx.chunkSize
      = ctx.chunkSize := by
  have hslice : slice buffer (enter readLen ctx bodyLen).index 4
      = .ok ((buffer.drop ctx.remainDataIndex).take 4) := by
    have hin : 0 ≤ (ctx.remainDataIndex : Int) ∧
        (ctx.remainDataIndex : Int).toNat + 4 ≤ buffer.length := by omega
    show slice buffer (ctx.remainDataIndex : Int) 4 = _
    rw [HttpChunked.slice, if_neg (by omega), if_pos hin, Int.toNat_natCast]
  have hlen : (enter readLen ctx bodyLen).len < 4 := by
    show (if ctx.remainDataLen ≠ 0 then (ctx.remainDataLen : Int) else readLen) < 4
    rw [if_pos (by omega)]
    omega
  have hstep := size_starved (s := enter readLen ctx bodyLen) rfl hstr hslice hlen
  obtain ⟨f, hf⟩ : ∃ f, chunkFuel buffer = f + 1 := ⟨chunkFuel buffer - 1, by
    rw [chunkFuel]
    omega⟩
  rw [body_call hread, hf, hlabel, chunkLoop, chunkStep, hstep]
  exact ⟨rfl, rfl, rfl⟩

end ChunkedWindow
