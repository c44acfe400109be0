import Hftp.HttpResponseProofs

/-! # What a response reads of the one before

    `http_internal_response` sets `ctx.state` and begins; nothing else in the
    slot is reset.  Two runs over the same arrivals are compared here.  They do
    the same as long as their contexts agree in what is read before it is
    written: the length that was left to parse, the string in `chunk_size_str`,
    and whether `chunk_size` is zero. -/

namespace Leftover

open CBytes HttpCore HttpHeader HttpChunked HttpResp

/-! ## The string of a size -/

/-- The string in `chunk_size_str`. -/
def sizeText (ctx : HttpResponseContext) : Bytes := ctx.chunkSizeStr.takeWhile (· ≠ 0)

/-- A string in an array ends before its first NUL. -/
theorem take_strlen (str : Bytes) : str.take (strlen str) = str.takeWhile (· ≠ 0) :=
  (List.prefix_iff_eq_take.mp (List.takeWhile_prefix _)).symm

/-- What stands behind a NUL is not read. -/
theorem text_nul (pre rest : Bytes) :
    (pre ++ 0 :: rest).takeWhile (· ≠ 0) = pre.takeWhile (· ≠ 0) := by
  rw [List.takeWhile_append]
  have hstop : (0 :: rest).takeWhile (fun x : Byte => decide (x ≠ 0)) = [] := rfl
  rw [hstop, List.append_nil]
  split_ifs with hall
  · exact ((List.takeWhile_prefix _).eq_of_length hall).symm
  · rfl

/-- A string that is ended after four bytes is read from the first four. -/
theorem text_set_four {pre : Bytes} (rest : Bytes) (hpre : 4 ≤ pre.length) :
    ((pre ++ rest).set 4 0).takeWhile (· ≠ 0) = (pre.take 4).takeWhile (· ≠ 0) := by
  have hfour : (pre.take 4).length = 4 := by
    rw [List.length_take]
    exact Nat.min_eq_left hpre
  have hsplit : pre ++ rest = pre.take 4 ++ (pre.drop 4 ++ rest) := by
    rw [← List.append_assoc, List.take_append_drop]
  rw [hsplit, List.set_append_right _ _ (Nat.le_of_eq hfour), hfour, Nat.sub_self]
  cases pre.drop 4 ++ rest with
  | nil => rw [List.set_nil, List.append_nil]
  | cons b bs =>
      rw [List.set_cons_zero]
      exact text_nul _ _

/-- A read of memory gives as many bytes as were asked for. -/
theorem slice_length {buffer d : Bytes} {i : Int} {n : Nat} (h : slice buffer i n = .ok d) :
    d.length = n := by
  rw [slice] at h
  split_ifs at h with hzero hfits
  · rw [← Except.ok.inj h, hzero]
    rfl
  · rw [← Except.ok.inj h, List.length_take, List.length_drop]
    omega

/-! ## Contexts that are read alike -/

/-- Two contexts that the code from a label on reads alike.  What is left of a
    label's bytes counts only while the label is entered. -/
structure Alike (label : ChunkState) (entering : Bool) (c c' : HttpResponseContext) : Prop where
  state : c'.state = c.state
  index : c'.remainDataIndex = c.remainDataIndex
  len : c'.remainDataLen = c.remainDataLen
  text : sizeText c' = sizeText c
  zero : c'.chunkSize = 0 ↔ c.chunkSize = 0
  size : label ≠ .sizeByte → c'.chunkSize = c.chunkSize
  rest : entering = true → label ≠ .sizeByte → c'.chunkStateRemainByte = c.chunkStateRemainByte

/-- Two contexts at rest between calls, at the same label. -/
structure Resting (c c' : HttpResponseContext) : Prop where
  label : c'.chunkTerminateState = c.chunkTerminateState
  alike : Alike c.chunkTerminateState true c c'

/-- A label that is left in two runs alike. -/
inductive FlowAlike (label : ChunkState) : Flow → Flow → Prop where
  | go (s : ChunkLocal) (c' : HttpResponseContext)
      (h : Alike (ChunkState.next label) s.entering s.ctx c') :
      FlowAlike label (.go s) (.go { s with ctx := c' })
  | waits (s : ChunkLocal) (c' : HttpResponseContext) (h : Resting s.ctx c') :
      FlowAlike label (.brk true s) (.brk true { s with ctx := c' })
  | ends (s : ChunkLocal) (c' : HttpResponseContext) (hsize : s.ctx.chunkSize = 0)
      (hsize' : c'.chunkSize = 0) :
      FlowAlike label (.brk false s) (.brk false { s with ctx := c' })
  | stops (e : Abort) (s : ChunkLocal) (c' : HttpResponseContext) :
      FlowAlike label (.abort e s) (.abort e { s with ctx := c' })

section Labels

variable {registered : Bool} {buffer : Bytes} {s : ChunkLocal} {c' : HttpResponseContext}

/-- Two leftovers with the same text of a size go on with it alike. -/
theorem remainSizeByte_alike (h : Alike .sizeByte s.entering s.ctx c') :
    FlowAlike .sizeByte (remainSizeByte buffer s) (remainSizeByte buffer { s with ctx := c' }) := by
  have hlen : strlen c'.chunkSizeStr = strlen s.ctx.chunkSizeStr := congrArg List.length h.text
  have htake : c'.chunkSizeStr.take (strlen s.ctx.chunkSizeStr)
      = s.ctx.chunkSizeStr.take (strlen s.ctx.chunkSizeStr) := by
    rw [← hlen, take_strlen, hlen, take_strlen]
    exact h.text
  have htext : s.ctx.chunkSizeStr.take (strlen s.ctx.chunkSizeStr) = sizeText s.ctx :=
    take_strlen _
  rw [remainSizeByte, remainSizeByte]
  dsimp only
  rw [hlen, htake, htext]
  -- entered with a part of the size, the text goes on; else it is read anew and the old one is
  -- overwritten
  by_cases hent : s.entering = true
  · rw [if_pos hent, if_pos hent]
    cases hslice : slice buffer s.index (4 - strlen s.ctx.chunkSizeStr) with
    | error e => exact .stops e _ _
    | ok d =>
        dsimp only
        have hd := slice_length hslice
        by_cases hshort : (4 : Int) - (strlen s.ctx.chunkSizeStr : Int) > s.len
        · rw [if_pos hshort, if_pos hshort]
          refine .waits _ _ ⟨rfl, ?_⟩
          exact { h with
            text := rfl
            size := fun hne => absurd rfl hne
            rest := fun _ hne => absurd rfl hne }
        · rw [if_neg hshort, if_neg hshort]
          have hfour : 4 ≤ (sizeText s.ctx ++ d).length := by
            rw [List.length_append, hd, sizeText]
            show 4 ≤ strlen s.ctx.chunkSizeStr + _
            omega
          -- whether the end is seen depends on the first three bytes, which both contexts have
          have hthree : ∀ rest,
              (sizeText s.ctx ++ d ++ rest).take 3 = (sizeText s.ctx ++ d).take 3 :=
            fun rest => List.take_append_of_le_length (Nat.le_of_succ_le hfour)
          rw [hthree, hthree]
          by_cases hend : (sizeText s.ctx ++ d).take 3 = [48, cr, lf]
          · rw [if_pos hend, if_pos hend]
            exact .ends _ _ rfl rfl
          · rw [if_neg hend, if_neg hend, parseSize, parseSize]
            have hread := fun rest => text_set_four rest hfour
            dsimp only
            rw [hread, hread]
            exact .go _ _ { h with
              text := (hread _).trans (hread _).symm
              zero := Iff.rfl
              size := fun _ => rfl
              rest := by rintro ⟨⟩ }
  · rw [if_neg hent, if_neg hent]
    cases looksEnd buffer s.index with
    | error e => exact .stops e _ _
    | ok found =>
        cases found with
        | true => exact .ends _ _ rfl rfl
        | false =>
            dsimp only
            by_cases hfew : s.len < 4
            · rw [if_pos hfew, if_pos hfew]
              cases slice buffer s.index s.len.toNat with
              | error e => exact .stops e _ _
              | ok d =>
                  refine .waits _ _ ⟨rfl, { h with
                    text := ?_
                    size := fun hne => absurd rfl hne
                    rest := fun _ hne => absurd rfl hne }⟩
                  rw [sizeText, sizeText, text_nul, text_nul]
            · rw [if_neg hfew, if_neg hfew]
              cases slice buffer s.index 4 with
              | error e => exact .stops e _ _
              | ok d =>
                  exact .go _ _ { h with
                    text := rfl
                    zero := Iff.rfl
                    size := fun _ => rfl
                    rest := fun hentering _ => absurd hentering hent }

/-- A separator depends on the bytes that are missing of it. -/
theorem separator_alike {label : ChunkState} (hlabel : label ≠ .sizeByte)
    (h : Alike label s.entering s.ctx c') :
    FlowAlike label (separator label s) (separator label { s with ctx := c' }) := by
  rw [separator, separator]
  dsimp only
  by_cases hent : s.entering = true
  · rw [if_pos hent, if_pos hent, h.rest hent hlabel]
    by_cases hmore : s.ctx.chunkStateRemainByte > s.len
    · rw [if_pos hmore, if_pos hmore]
      exact .waits _ _ ⟨rfl, { h with rest := fun _ _ => rfl }⟩
    · rw [if_neg hmore, if_neg hmore]
      exact .go _ _ { h with size := fun _ => h.size hlabel, rest := by rintro ⟨⟩ }
  · rw [if_neg hent, if_neg hent]
    by_cases hfew : s.len < 2
    · rw [if_pos hfew, if_pos hfew]
      exact .waits _ _ ⟨rfl, { h with rest := fun _ _ => rfl }⟩
    · rw [if_neg hfew, if_neg hfew]
      exact .go _ _ { h with
        size := fun _ => h.size hlabel
        rest := fun hentering _ => absurd hentering hent }

/-- The body callback is shown the same. -/
theorem deliver_alike (registered : Bool) (buffer : Bytes) (n : Int) (s : ChunkLocal)
    (c : HttpResponseContext) :
    deliver registered buffer n { s with ctx := c } =
      (deliver registered buffer n s).map fun t => { t with ctx := c } := by
  rw [deliver, deliver]
  dsimp only
  split_ifs
  · cases slice buffer s.index n.toNat with
    | error e => rfl
    | ok d => rfl
  · rfl

/-- Handing over a piece does not begin the call anew. -/
theorem deliver_entering {n : Int} {t : ChunkLocal} (h : deliver registered buffer n s = .ok t) :
    t.entering = s.entering := by
  rw [deliver] at h
  split at h
  · split at h
    · cases h
    · rw [← Except.ok.inj h]
  · rw [← Except.ok.inj h]

/-- So does the data of a chunk. -/
theorem remainChunk_alike (h : Alike .chunk s.entering s.ctx c') :
    FlowAlike .chunk (remainChunk registered buffer s)
      (remainChunk registered buffer { s with ctx := c' }) := by
  have hwant : (if s.entering = true then c'.chunkStateRemainByte else c'.chunkSize) =
      if s.entering = true then s.ctx.chunkStateRemainByte else s.ctx.chunkSize := by
    split_ifs with hent
    · exact h.rest hent (by rintro ⟨⟩)
    · exact h.size (by rintro ⟨⟩)
  rw [remainChunk, remainChunk]
  dsimp only
  rw [hwant]
  generalize (if s.entering = true then s.ctx.chunkStateRemainByte else s.ctx.chunkSize) = want
  by_cases hfew : s.len < want
  · rw [if_pos hfew, if_pos hfew,
      deliver_alike _ _ _ s { s.ctx with chunkTerminateState := .chunk,
                                         chunkStateRemainByte := want - s.len },
      deliver_alike _ _ _ s { c' with chunkTerminateState := .chunk,
                                      chunkStateRemainByte := want - s.len }]
    cases deliver registered buffer s.len s with
    | error e =>
        dsimp only [Except.map]
        exact .stops e _ _
    | ok t =>
        dsimp only [Except.map]
        exact .waits _ _ ⟨rfl, { h with rest := fun _ _ => rfl }⟩
  · rw [if_neg hfew, if_neg hfew,
      deliver_alike _ _ _ s { s.ctx with chunkTerminateState := .chunk },
      deliver_alike _ _ _ s { c' with chunkTerminateState := .chunk }]
    cases hdeliver : deliver registered buffer want s with
    | error e =>
        dsimp only [Except.map]
        exact .stops e _ _
    | ok t =>
        dsimp only [Except.map]
        by_cases hent : s.entering = true
        · have hent' : t.entering = true := (deliver_entering hdeliver).trans hent
          rw [if_pos hent', if_pos hent']
          exact .go _ _ { h with size := fun _ => h.size (by rintro ⟨⟩), rest := by rintro ⟨⟩ }
        · have hent' : ¬ t.entering = true := by
            rw [deliver_entering hdeliver]
            exact hent
          rw [if_neg hent', if_neg hent']
          exact .go _ _ { h with
            size := fun _ => h.size (by rintro ⟨⟩)
            rest := fun hentering _ => absurd hentering hent' }

/-- **A LABEL** leaves two runs alike if it is reached by them alike. -/
theorem chunkStep_alike (registered : Bool) (buffer : Bytes) {label : ChunkState}
    (h : Alike label s.entering s.ctx c') :
    FlowAlike label (chunkStep registered buffer label s)
      (chunkStep registered buffer label { s with ctx := c' }) := by
  cases label with
  | sizeByte => exact remainSizeByte_alike h
  | separatorMid => exact separator_alike (by rintro ⟨⟩) h
  | chunk => exact remainChunk_alike h
  | separatorEnd => exact separator_alike (by rintro ⟨⟩) h

end Labels

/-- A call of the decoder that ends in two runs alike: both wait for more, both
    are at the end, or neither comes back. -/
inductive ChunkAlike : ChunkRun → ChunkRun → Prop where
  | waits (continued : Bool) (s : ChunkLocal) (c' : HttpResponseContext) (h : Resting s.ctx c') :
      ChunkAlike { stop := .ok continued, s := s }
        { stop := .ok continued, s := { s with ctx := c' } }
  | ends (s : ChunkLocal) (c' : HttpResponseContext) (hsize : s.ctx.chunkSize = 0)
      (hsize' : c'.chunkSize = 0) :
      ChunkAlike { stop := .ok false, s := s } { stop := .ok false, s := { s with ctx := c' } }
  | stops (e : Abort) (s : ChunkLocal) (c' : HttpResponseContext) :
      ChunkAlike { stop := .error e, s := s } { stop := .error e, s := { s with ctx := c' } }

/-- **A CALL OF THE DECODER** does the same on two leftovers that are alike. -/
theorem chunkLoop_alike {registered : Bool} {buffer : Bytes} {fuel : Nat} {label : ChunkState}
    {s : ChunkLocal} {c' : HttpResponseContext} (h : Alike label s.entering s.ctx c') :
    ChunkAlike (chunkLoop registered buffer fuel label s)
      (chunkLoop registered buffer fuel label { s with ctx := c' }) := by
  induction fuel generalizing label s c' with
  | zero => exact .stops .diverges s c'
  | succ fuel ih =>
      have hstep := chunkStep_alike registered buffer h
      rw [chunkLoop, chunkLoop]
      generalize chunkStep registered buffer label s = flow at hstep ⊢
      generalize chunkStep registered buffer label { s with ctx := c' } = flow' at hstep ⊢
      cases hstep with
      | go t d' ht => exact ih ht
      | waits t d' ht => exact .waits true t d' ht
      | ends t d' hsize hsize' => exact .ends t d' hsize hsize'
      | stops e t d' => exact .stops e t d'

/-- **THE DECODER** does the same to two contexts that rest alike. -/
theorem chunkedResponseBody_alike (registered : Bool) (buffer : Bytes) (readLen : Nat)
    {c c' : HttpResponseContext} (bodyLen : Int) (h : Resting c c') :
    ChunkAlike (httpChunkedResponseBody registered buffer readLen c bodyLen)
      (httpChunkedResponseBody registered buffer readLen c' bodyLen) := by
  rw [httpChunkedResponseBody, httpChunkedResponseBody, h.alike.index, h.alike.len, h.label]
  split_ifs with hzero
  · exact .waits false _ _ h
  · exact chunkLoop_alike { h.alike with index := rfl, len := rfl }
  · exact chunkLoop_alike { h.alike with index := rfl, len := rfl }

/-! ## The parser leaves the decoder's fields alone -/

/-- The parser's fields of one context, the decoder's of another. -/
def graft (c d : HttpResponseContext) : HttpResponseContext :=
  { c with state := d.state, remainDataIndex := d.remainDataIndex,
           remainDataLen := d.remainDataLen }

/-- The state comes from the parser. -/
theorem graft_state (c d : HttpResponseContext) : (graft c d).state = d.state := rfl

/-- The end of a buffer does not look at what the decoder left. -/
theorem finishBuffer_graft (c : HttpResponseContext) (buffer : Bytes) (dataLen prev : Nat)
    (ctx : HttpResponseContext) (resp : HttpResponse) (lines : List Bytes) :
    finishBuffer buffer dataLen prev (graft c ctx) resp lines =
      { finishBuffer buffer dataLen prev ctx resp lines with
        ctx := graft c (finishBuffer buffer dataLen prev ctx resp lines).ctx } := by
  by_cases hkept : 0 < ctx.remainDataLen
  · simp [finishBuffer, graft, hkept]
  · by_cases hbody : ctx.state = .hrBody
    · simp [finishBuffer, graft, hkept, hbody]
    · simp [finishBuffer, graft, hkept, hbody]

/-- Nor do the lines. -/
theorem lineLoop_graft (c : HttpResponseContext) (dataLen : Nat) : ∀ (fuel : Nat)
    (next : Option Nat) (prev : Nat) (buffer : Bytes) (ctx : HttpResponseContext)
    (resp : HttpResponse) (lines : List Bytes),
    lineLoop dataLen fuel next prev buffer (graft c ctx) resp lines =
      (lineLoop dataLen fuel next prev buffer ctx resp lines).map
        fun hp => { hp with ctx := graft c hp.ctx } := by
  intro fuel
  induction fuel with
  | zero =>
      intro next prev buffer ctx resp lines
      rfl
  | succ fuel ih =>
      intro next prev buffer ctx resp lines
      rw [lineLoop, lineLoop]
      by_cases hpast : dataLen < prev
      · rw [if_pos hpast, if_pos hpast, finishBuffer_graft]
        rfl
      · rw [if_neg hpast, if_neg hpast]
        cases findSeparator false prev ((buffer.drop prev).take (dataLen - prev)) with
        | none =>
            dsimp only
            by_cases hkept : 0 < prev ∨ 0 < dataLen - prev
            · rw [if_pos hkept, if_pos hkept]
              exact congrArg Except.ok (finishBuffer_graft c buffer dataLen prev
                { ctx with remainDataIndex := prev, remainDataLen := dataLen - prev } resp lines)
            · rw [if_neg hkept, if_neg hkept]
              rfl
        | some findnext =>
            dsimp only
            by_cases hempty : next.map (· + 2) = some findnext
            · rw [if_pos hempty, if_pos hempty]
              exact congrArg Except.ok (finishBuffer_graft c buffer dataLen prev
                { ctx with state := .hrBody } resp lines)
            · rw [if_neg hempty, if_neg hempty]
              rw [graft_state]
              cases processLine buffer prev findnext ctx.state resp with
              | error e => rfl
              | ok out =>
                  obtain ⟨mem, state, resp'⟩ := out
                  exact ih _ _ _ { ctx with state := state } _ _

/-- **THE PARSER** reads of a context the state only. -/
theorem parse_graft (c : HttpResponseContext) {d : HttpResponseContext} (buffer : Bytes)
    (dataLen : Nat) (resp : HttpResponse) (hstate : c.state = d.state) :
    httpParseResponseHeaderPerBuffer buffer dataLen c resp =
      (httpParseResponseHeaderPerBuffer buffer dataLen d resp).map
        fun hp => { hp with ctx := graft c hp.ctx } := by
  rw [httpParseResponseHeaderPerBuffer, httpParseResponseHeaderPerBuffer, ← lineLoop_graft,
    graft, hstate]

/-- The parser leaves what belongs to the decoder as it was. -/
theorem parse_keeps {c : HttpResponseContext} {buffer : Bytes} {dataLen : Nat} {resp : HttpResponse}
    {hp : HeadParse} (h : httpParseResponseHeaderPerBuffer buffer dataLen c resp = .ok hp) :
    hp.ctx = graft c hp.ctx := by
  have hsame := parse_graft c buffer dataLen resp rfl
  rw [h] at hsame
  exact congrArg HeadParse.ctx (Except.ok.inj hsame)

/-! ## Passes of the loop -/

/-- Two runs of the loop that will do the same: they differ in the context at
    most, and there in nothing that is read before it is written. -/
structure Agree (s : RespLocal) (c' : HttpResponseContext) : Prop where
  state : c'.state = s.ctx.state
  len : c'.remainDataLen = s.ctx.remainDataLen
  text : sizeText c' = sizeText s.ctx
  zero : c'.chunkSize = 0 ↔ s.ctx.chunkSize = 0
  index : s.headerEndFlag = false → s.ctx.state = .hrBody →
    c'.remainDataIndex = s.ctx.remainDataIndex
  past : s.headerEndFlag = true → s.ctx.state.beforeBody = false
  resting : s.headerEndFlag = true → s.resp.transferEncoding = .teChunked → Resting s.ctx c'

/-- A pass that ends in two runs alike. -/
inductive PassAlike : RespFlow → RespFlow → Prop where
  | go (s : RespLocal) (c' : HttpResponseContext) (h : Agree s c') :
      PassAlike (.go s) (.go { s with ctx := c' })
  | ret (code : Int) (s : RespLocal) (c' : HttpResponseContext) :
      PassAlike (.ret code s) (.ret code { s with ctx := c' })
  | stops (e : Abort) (s : RespLocal) (c' : HttpResponseContext) :
      PassAlike (.abort e s) (.abort e { s with ctx := c' })

section Passes

variable {onBody : Bool} {readLen : Nat} {s : RespLocal} {c' : HttpResponseContext}

/-- **THE HEAD** is parsed alike. -/
theorem parsePass_agree (readLen : Nat) (h : Agree s c') :
    (∃ e, parsePass readLen s = .error e ∧ parsePass readLen { s with ctx := c' } = .error e) ∨
      ∃ t d', parsePass readLen s = .ok t ∧
        parsePass readLen { s with ctx := c' } = .ok { t with ctx := d' } ∧ Agree t d' := by
  rw [parsePass, parsePass]
  dsimp only
  rw [h.state]
  by_cases hbefore : s.ctx.state.beforeBody = true
  · rw [if_pos hbefore, if_pos hbefore, parse_graft c' s.buffer readLen s.resp h.state]
    have hflag : s.headerEndFlag ≠ true := by
      intro hseen
      rw [h.past hseen] at hbefore
      cases hbefore
    cases hparse : httpParseResponseHeaderPerBuffer s.buffer readLen s.ctx s.resp with
    | error e => exact Or.inl ⟨e, rfl, rfl⟩
    | ok hp =>
        have hkept := parse_keeps hparse
        refine Or.inr ⟨_, graft c' hp.ctx, rfl, rfl, ?_⟩
        exact
          { state := rfl
            len := rfl
            text := h.text.trans (congrArg sizeText hkept).symm
            zero := h.zero.trans (by rw [hkept]; rfl)
            index := fun _ _ => rfl
            past := fun hseen => absurd hseen hflag
            resting := fun hseen => absurd hseen hflag }
  · rw [if_neg hbefore, if_neg hbefore]
    exact Or.inr ⟨s, c', rfl, rfl, h⟩

/-- The end of a head makes the indices agree. -/
theorem headerEnd_agree (onHeader : Bool) (readOff readLen : Nat) (h : Agree s c')
    (hflag : s.headerEndFlag = false) (hbody : s.ctx.state = .hrBody) :
    ∃ d', headerEnd onHeader readOff readLen { s with ctx := c' } =
        { headerEnd onHeader readOff readLen s with ctx := d' } ∧
      Agree (headerEnd onHeader readOff readLen s) d' ∧
      d'.remainDataIndex = (headerEnd onHeader readOff readLen s).ctx.remainDataIndex := by
  have hindex := h.index hflag hbody
  have hpos : bodyPos readOff readLen { s with ctx := c' } = bodyPos readOff readLen s := by
    rw [bodyPos, bodyPos]
    dsimp only
    rw [h.len, hindex]
  rw [headerEnd, headerEnd]
  dsimp only
  rw [hpos]
  by_cases hchunked : s.resp.transferEncoding = .teChunked
  · simp only [hchunked, decide_true, if_true]
    refine ⟨_, rfl, ?_, hindex⟩
    refine { h with index := by rintro ⟨⟩, past := ?_, resting := ?_ }
    · intro _
      rw [hbody]
      rfl
    · intro _ _
      exact ⟨rfl, { h with
        index := hindex
        size := fun hne => absurd rfl hne
        rest := fun _ hne => absurd rfl hne }⟩
  · simp only [hchunked, decide_false, Bool.false_eq_true, if_false]
    refine ⟨_, rfl, ?_, hindex⟩
    refine { h with index := by rintro ⟨⟩, past := ?_, resting := ?_ }
    · intro _
      rw [hbody]
      rfl
    · exact fun _ hte => absurd hte hchunked

/-- The test for the end looks at what agrees. -/
theorem bodyEnd_alike (h : Agree s c') : PassAlike (bodyEnd s) (bodyEnd { s with ctx := c' }) := by
  rw [bodyEnd, bodyEnd]
  simp only [h.zero]
  split_ifs
  · exact .ret 1 s c'
  · exact .ret 0 _ _
  · exact .ret 0 _ _
  · exact .go s c' h

/-- A chunked body whose size is zero is at its end. -/
theorem bodyEnd_zero {s : RespLocal} (hchunked : s.resp.transferEncoding = .teChunked)
    (hsize : s.ctx.chunkSize = 0) :
    bodyEnd s = .ret 0 { s with ctx := { s.ctx with state := .hrEnd } } := by
  rw [bodyEnd, if_neg, if_pos ⟨hchunked, hsize⟩]
  rintro ⟨hnone, -⟩
  rw [hchunked] at hnone
  cases hnone

/-- A body in chunks is handed over alike. -/
theorem chunkedBody_alike (h : Agree s c') (hflag : s.headerEndFlag = true)
    (hchunked : s.resp.transferEncoding = .teChunked) :
    PassAlike ((chunkedBody onBody readLen s).andThen bodyEnd)
      ((chunkedBody onBody readLen { s with ctx := c' }).andThen bodyEnd) := by
  have hrun := chunkedResponseBody_alike onBody s.buffer readLen s.bodyLen
    (h.resting hflag hchunked)
  have hstate := chunkedResponseBody_state onBody s.buffer readLen s.ctx s.bodyLen
  rw [chunkedBody, chunkedBody]
  dsimp only
  generalize httpChunkedResponseBody onBody s.buffer readLen s.ctx s.bodyLen = run at hrun hstate ⊢
  generalize httpChunkedResponseBody onBody s.buffer readLen c' s.bodyLen = run' at hrun ⊢
  cases hrun with
  | waits continued t d' ht =>
      have hagree : Agree { s with ctx := t.ctx, bodyLen := t.bodyLen,
                                   calls := s.calls ++ t.pieces.map .body,
                                   forcedContinue := continued } d' :=
        { state := ht.alike.state
          len := ht.alike.len
          text := ht.alike.text
          zero := ht.alike.zero
          index := fun hunseen => absurd hunseen (by rw [hflag]; rintro ⟨⟩)
          past := fun hseen => by
            show t.ctx.state.beforeBody = false
            rw [hstate]
            exact h.past hseen
          resting := fun _ _ => ht }
      exact bodyEnd_alike hagree
  | ends t d' hsize hsize' =>
      show PassAlike (bodyEnd _) (bodyEnd _)
      rw [bodyEnd_zero, bodyEnd_zero]
      · exact .ret 0 _ _
      · exact hchunked
      · exact hsize'
      · exact hchunked
      · exact hsize
  | stops e t d' => exact .stops e _ _

/-- The body callback is shown the same. -/
theorem callBody_alike (onBody : Bool) (index n : Nat) (s : RespLocal) (c : HttpResponseContext) :
    callBody onBody index n { s with ctx := c } =
      (callBody onBody index n s).map fun t => { t with ctx := c } := by
  rw [callBody, callBody]
  dsimp only
  split_ifs
  · cases slice s.buffer index n with
    | error e => rfl
    | ok d => rfl
  · rfl

/-- A call of the body callback keeps two runs alike. -/
theorem Agree.keep {t : RespLocal} (h : Agree s c') (hbody : BodyOnly s t) (hctx : t.ctx = s.ctx) :
    Agree t c' := by
  constructor
  · rw [hctx, h.state]
  · rw [hctx, h.len]
  · rw [hctx, h.text]
  · rw [hctx, h.zero]
  · rw [hctx, hbody.headerEndFlag]
    exact h.index
  · rw [hctx, hbody.headerEndFlag]
    exact h.past
  · rw [hctx, hbody.headerEndFlag, hbody.resp]
    exact h.resting

/-- So is a further read. -/
theorem nextBody_alike (h : Agree s c') (hflag : s.headerEndFlag = true) :
    PassAlike ((nextBody onBody readLen s).andThen bodyEnd)
      ((nextBody onBody readLen { s with ctx := c' }).andThen bodyEnd) := by
  rw [nextBody, nextBody]
  dsimp only
  cases hte : s.resp.transferEncoding with
  | teChunked => exact chunkedBody_alike h hflag hte
  | teNotSupported => exact bodyEnd_alike h
  | teNone =>
      dsimp only
      rw [callBody_alike onBody 0 readLen { s with bodyLen := s.bodyLen + readLen } c']
      cases hcall : callBody onBody 0 readLen { s with bodyLen := s.bodyLen + readLen } with
      | error e => exact .stops e _ _
      | ok t =>
          have hgrown : Agree { s with bodyLen := s.bodyLen + readLen } c' := { h with }
          exact bodyEnd_alike (hgrown.keep (callBody_bodyOnly hcall) (callBody_ctx hcall))

/-- So are the bytes behind a head. -/
theorem firstBody_alike (h : Agree s c') (hflag : s.headerEndFlag = true)
    (hindex : c'.remainDataIndex = s.ctx.remainDataIndex) :
    PassAlike ((firstBody onBody readLen s).andThen bodyEnd)
      ((firstBody onBody readLen { s with ctx := c' }).andThen bodyEnd) := by
  rw [firstBody, firstBody]
  dsimp only
  cases hte : s.resp.transferEncoding with
  | teChunked => exact chunkedBody_alike h hflag hte
  | teNotSupported => exact bodyEnd_alike h
  | teNone =>
      dsimp only
      rw [h.len, hindex]
      by_cases hrest : s.ctx.remainDataLen > 0
      · rw [if_pos hrest, if_pos hrest,
          callBody_alike onBody _ _ { s with bodyLen := s.bodyLen + s.ctx.remainDataLen } c']
        cases hcall : callBody onBody s.ctx.remainDataIndex s.ctx.remainDataLen
            { s with bodyLen := s.bodyLen + s.ctx.remainDataLen } with
        | error e => exact .stops e _ _
        | ok t =>
            have hgrown : Agree { s with bodyLen := s.bodyLen + s.ctx.remainDataLen } c' :=
              { h with }
            have ht := hgrown.keep (callBody_bodyOnly hcall) (callBody_ctx hcall)
            have hseen : t.headerEndFlag = true :=
              (callBody_bodyOnly hcall).headerEndFlag.trans hflag
            have hnone : t.resp.transferEncoding = .teNone := by
              rw [(callBody_bodyOnly hcall).resp]
              exact hte
            refine bodyEnd_alike (s := { t with ctx := _ }) { ht with
              len := rfl
              index := fun _ _ => rfl
              resting := fun _ hchunked => ?_ }
            rw [hnone] at hchunked
            cases hchunked
      · rw [if_neg hrest, if_neg hrest]
        exact bodyEnd_alike h

/-- **A PASS** ends in two runs alike. -/
theorem respPass_alike (onHeader onBody : Bool) (readOff readLen : Nat) (h : Agree s c') :
    PassAlike (respPass onHeader onBody readOff readLen s)
      (respPass onHeader onBody readOff readLen { s with ctx := c' }) := by
  rw [respPass, respPass]
  rcases parsePass_agree readLen h with ⟨e, hs, hs'⟩ | ⟨t, d', hs, hs', ht⟩
  · rw [hs, hs']
    exact .stops e s c'
  · rw [hs, hs']
    dsimp only
    rw [ht.state]
    by_cases hbody : t.ctx.state = .hrBody
    · rw [if_pos hbody, if_pos hbody]
      by_cases hflag : t.headerEndFlag = true
      · rw [if_pos hflag, if_pos hflag]
        exact nextBody_alike ht hflag
      · obtain ⟨e', hend, hagree, hindex⟩ := headerEnd_agree onHeader readOff readLen ht
          (Bool.eq_false_iff.mpr hflag) hbody
        rw [if_neg hflag, if_neg hflag, hend]
        exact firstBody_alike hagree rfl hindex
    · rw [if_neg hbody, if_neg hbody]
      exact .go t d' ht

end Passes

/-! ## Runs -/

/-- Two runs that came to the same: as they ended, with the same response, and
    the callbacks were told the same. -/
structure SameRun (run run' : RespRun) : Prop where
  stop : run'.stop = run.stop
  resp : run'.s.resp = run.s.resp
  calls : run'.s.calls = run.s.calls

/-- **THE LOOP** comes to the same from locals that agree. -/
theorem respLoop_alike {onHeader onBody : Bool} {fuel : Nat} {s : RespLocal}
    {c' : HttpResponseContext} (h : Agree s c') :
    SameRun (respLoop onHeader onBody fuel s)
      (respLoop onHeader onBody fuel { s with ctx := c' }) := by
  induction fuel generalizing s c' with
  | zero => exact ⟨rfl, rfl, rfl⟩
  | succ fuel ih =>
      rw [respLoop, respLoop]
      dsimp only
      rw [h.len]
      cases s.sock.read (s.buffer.length - s.ctx.remainDataLen) with
      | mk got sock =>
          cases got with
          | none => exact ⟨rfl, rfl, rfl⟩
          | some d =>
              dsimp only
              split_ifs
              · exact ⟨rfl, rfl, rfl⟩
              · have hread : Agree { s with buffer := store s.buffer s.ctx.remainDataLen d,
                                            sock := sock } c' := { h with }
                have hpass := respPass_alike onHeader onBody s.ctx.remainDataLen d.length hread
                generalize respPass onHeader onBody s.ctx.remainDataLen d.length
                  { s with buffer := store s.buffer s.ctx.remainDataLen d, sock := sock } = flow
                  at hpass ⊢
                generalize respPass onHeader onBody s.ctx.remainDataLen d.length
                  { s with ctx := c', buffer := store s.buffer s.ctx.remainDataLen d,
                           sock := sock } = flow' at hpass ⊢
                cases hpass with
                | go t d' ht => exact ih ht
                | ret code t d' => exact ⟨rfl, rfl, rfl⟩
                | stops e t d' => exact ⟨rfl, rfl, rfl⟩

/-- Two slots in which earlier transfers left the same, as far as a response
    reads it. -/
structure SameLeft (conn conn' : HttpConnection) : Prop where
  resp : conn'.resp = conn.resp
  len : conn'.ctx.remainDataLen = conn.ctx.remainDataLen
  text : sizeText conn'.ctx = sizeText conn.ctx
  zero : conn'.ctx.chunkSize = 0 ↔ conn.ctx.chunkSize = 0

/-- **A RESPONSE** is received alike into two slots with the same left in them. -/
theorem internalResponse_alike {conn conn' : HttpConnection} (hsock : conn'.sockfd = conn.sockfd)
    (hclb : conn'.clb = conn.clb) (h : SameLeft conn conn') (buffer : Bytes) (sock : Sock) :
    SameRun (httpInternalResponse conn buffer sock) (httpInternalResponse conn' buffer sock) := by
  have hagree : Agree (.start conn buffer sock) { conn'.ctx with state := .hrFirstLine } :=
    { state := rfl
      len := h.len
      text := h.text
      zero := h.zero
      index := fun _ hbody => by cases hbody
      past := by rintro ⟨⟩
      resting := by rintro ⟨⟩ }
  have hstart : RespLocal.start conn' buffer sock =
      { RespLocal.start conn buffer sock with
        ctx := { conn'.ctx with state := .hrFirstLine } } := by
    rw [RespLocal.start, RespLocal.start, h.resp]
  rw [httpInternalResponse, httpInternalResponse, hsock, hclb, hstart]
  split_ifs
  · exact respLoop_alike hagree
  · exact ⟨rfl, rfl, rfl⟩

end Leftover
