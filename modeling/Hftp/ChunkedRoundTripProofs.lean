import Hftp.ChunkedWindowProofs

/-! # Decoding undoes encoding, for sizes of four digits

    The size field of the decoder is four bytes wide whatever was written
    there.  A coding whose sizes all have four digits comes back as the
    contents it was made of; in any other coding some chunk is read from the
    wrong byte on, and contents exist that show it. -/

namespace ChunkedRoundTrip

open CBytes HttpCore HttpChunked ChunkedCodec ChunkedWindow

/-- What decoding `cs` has to come to. -/
structure DecodesTo (cs : List Chunk) (bodyLen : Int) (run : ChunkRun) : Prop where
  pieces : delivered run.s.pieces = contents cs
  bodyLen : run.s.bodyLen = bodyLen + (contents cs).length
  chunkSize : run.s.ctx.chunkSize = 0
  stop : run.stop = .ok false

/-- The decoder on the whole coding of `cs` in one buffer. -/
def decode (cs : List Chunk) (stale : Bytes) (bodyLen : Int) : ChunkRun :=
  httpChunkedResponseBody true (encode cs ++ stale) (encode cs).length .zero bodyLen

/-! ## Four digits -/

theorem encode_length_pos (cs : List Chunk) : 0 < (encode cs).length := by
  cases cs with
  | nil => exact Nat.succ_pos _
  | cons c cs =>
      have := c.data_pos
      simp only [encode_cons, List.length_append]
      omega

theorem enter_at (w stale : Bytes) (bodyLen : Int) :
    At (w ++ stale) (enter w.length .zero bodyLen) w :=
  ⟨[], stale, rfl, rfl, rfl⟩

/-- Four-digit sizes are decoded, whatever lies behind them in the buffer. -/
theorem decode_fourDigits {cs : List Chunk} (h4 : ∀ c ∈ cs, c.FourDigits) (stale : Bytes)
    (bodyLen : Int) : DecodesTo cs bodyLen (decode cs stale bodyLen) := by
  have hpos := encode_length_pos cs
  have hdone := pendingAt_length h4
  have hsize := pendingAt_zero cs
  have hfour : 4 ≤ (encode cs).length := by
    cases cs with
    | nil => decide
    | cons c cs =>
        rw [encode_length (h4 c List.mem_cons_self)]
        omega
  obtain ⟨gain, hgain, hrun⟩ := resume_run true _ (n := 0) h4
    (enter_at (encode cs) stale bodyLen)
    (by rw [List.drop_zero]; exact List.prefix_rfl (l := codingThen [] cs)) rfl
    (by rw [hsize]; exact ⟨rfl, by simp, [0, 0, 0, 0], rfl⟩) (by rw [hsize]; simp)
    (Or.inr ⟨[], hsize⟩)
    (by rw [hsize]; rintro pre ⟨⟩; show 4 ≤ 0 + _; omega)
    (fuel_enough [] _ _)
    (by rw [Nat.zero_add, hdone]; rintro pre ⟨⟩)
  rw [Nat.zero_add, contentsAt_length h4, contentsAt_small cs (Nat.zero_le 6),
    List.nil_append] at hgain
  rw [Nat.zero_add, hdone] at hrun
  rw [decode, body_call (by omega)]
  refine ⟨hrun.pieces.trans ?_, hrun.bodyLen.trans ?_, hrun.held, hrun.stop⟩
  · rw [hgain]; rfl
  · rw [hgain]; rfl

/-! ## Other sizes -/

/-- The byte `z`, which is no digit and in no separator. -/
def filler : Byte := 122

/-- A chunk that holds nothing but the filler. -/
def Filled (c : Chunk) : Prop := ∀ b ∈ c.data, b = filler

/-- Something else than the filler was handed over. -/
def Garbled (ps : List Piece) : Prop := ∃ b ∈ delivered ps, b ≠ filler

theorem Garbled.mono {ps qs : List Piece} (h : Garbled ps) (hle : ps <+: qs) : Garbled qs := by
  obtain ⟨b, hb, hne⟩ := h
  obtain ⟨rs, rfl⟩ := hle
  refine ⟨b, ?_, hne⟩
  rw [delivered, List.flatMap_append]
  exact List.mem_append_left _ hb

/-- A chunk of four digits is passed whole, and the next size is at hand. -/
theorem pass_chunk (registered : Bool) {buffer w : Bytes} {s : ChunkLocal} {c : Chunk} {f : Nat}
    (h4 : c.FourDigits) (hat : At buffer s (c.size ++ (crlf ++ (c.data ++ (crlf ++ w)))))
    (hs : AtSize s) :
    ∃ s', At buffer s' w ∧ AtSize s' ∧
      chunkLoop registered buffer (f + 4) .sizeByte s
        = chunkLoop registered buffer f .sizeByte s' := by
  obtain ⟨s1, hat1, hent1, -, hsize1, hloop1⟩ := reach_chunk registered
    (f := f + 2) hat h4 rfl c.not_last c.noNul hs
  have hval : s1.ctx.chunkSize = c.data.length := by
    have hparse := parseSize_chunk h4 (t := [])
      (s := { s1 with ctx := { s1.ctx with chunkSizeStr := c.size ++ [0] } })
      (by rw [List.append_nil]; exact takeWhile_ne_append c.noNul) (fun b h => by cases h)
    have htake : (c.size ++ [0]).takeWhile (· ≠ 0) = c.size := takeWhile_ne_append c.noNul
    have hsizes := congrArg (fun fl => (Flow.after fl).ctx.chunkSize) hparse
    rw [hsize1, ← htake]
    exact hsizes
  obtain ⟨ps, rem, hgo, -⟩ := chunk_go registered (s := s1) (a := c.data)
    (by rw [Need, hent1]; exact hval) hat1
  have hat2 : At buffer { s1 with
      ctx := { s1.ctx with chunkTerminateState := .chunk, chunkStateRemainByte := rem },
      len := s1.len - c.data.length, index := s1.index + c.data.length, entering := false,
      pieces := ps, bodyLen := s1.bodyLen + c.data.length } (crlf ++ w) := hat1.skip rfl rfl
  rw [hloop1, chunkLoop, chunkStep, hgo]
  generalize hs2 : ({ s1 with
      ctx := { s1.ctx with chunkTerminateState := .chunk, chunkStateRemainByte := rem },
      len := s1.len - c.data.length, index := s1.index + c.data.length, entering := false,
      pieces := ps, bodyLen := s1.bodyLen + c.data.length } : ChunkLocal) = s2 at hat2 ⊢
  have hent2 : s2.entering = false := by rw [← hs2]
  have hlen := hat2.len
  rw [List.length_append, show crlf.length = 2 from rfl] at hlen
  obtain ⟨rem2, hgo2⟩ := separator_go .separatorEnd (s := s2) (k := 2)
    (by rw [Need, hent2]; rfl) (by omega)
  refine ⟨{ s2 with
      ctx := { s2.ctx with chunkTerminateState := .separatorEnd, chunkStateRemainByte := rem2 },
      len := s2.len - (2 : Nat), index := s2.index + (2 : Nat), entering := false },
    hat2.skip rfl rfl, Or.inl rfl, ?_⟩
  show chunkLoop registered buffer (f + 1) .separatorEnd s2 = _
  rw [chunkLoop, chunkStep, remainSeparatorEnd, hgo2]
  rfl

/-- A piece with a byte that is not the filler garbles what is handed over. -/
theorem piece_garbles {buffer a w : Bytes} {s : ChunkLocal} {x : Byte} {f : Nat}
    (hat : At buffer s (a ++ w)) (hent : s.entering = false) (hsize : s.ctx.chunkSize = a.length)
    (hx : x ∈ a) (hne : x ≠ filler) :
    Garbled (chunkLoop true buffer (f + 1) .chunk s).s.pieces := by
  obtain ⟨ps, rem, hgo, hdel⟩ := chunk_go true (s := s) (a := a)
    (by rw [Need, hent]; exact hsize) hat
  rw [chunkLoop, chunkStep, hgo]
  refine Garbled.mono (show Garbled ps from ⟨x, ?_, hne⟩) ?_
  · rw [hdel]
    exact List.mem_append_right _ hx
  · exact chunkLoop_grows true buffer f .separatorEnd { s with
      ctx := { s.ctx with chunkTerminateState := .chunk, chunkStateRemainByte := rem },
      len := s.len - a.length, index := s.index + a.length, entering := false,
      pieces := ps, bodyLen := s.bodyLen + a.length }

theorem size_no_filler {c : Chunk} {b : Byte} (h : b ∈ c.size ++ crlf) : b ≠ filler ∧ b ≠ 0 := by
  rcases List.mem_append.mp h with hm | hm
  · obtain ⟨-, -, -, h0, -, -, hz⟩ := digit_plain (c.hex b hm)
    exact ⟨hz, h0⟩
  · rcases List.mem_cons.mp hm with rfl | hm'
    · decide
    · rw [List.mem_singleton.mp hm']
      decide

theorem encode_head (cs : List Chunk) :
    ∃ b bs, encode cs = b :: bs ∧ b ≠ filler := by
  cases cs with
  | nil => exact ⟨_, _, rfl, by decide⟩
  | cons c cs =>
      obtain ⟨b, bs, hs, -⟩ := c.size_cons
      refine ⟨b, _, by rw [encode_cons, hs]; rfl, (size_no_filler (c := c) ?_).1⟩
      rw [hs]
      exact List.mem_append_left _ List.mem_cons_self

/-- What the decoder makes of the chunk at the head of a coding: it converts the
    first four bytes to `u` and takes `u` bytes from the seventh on. -/
structure Misread (text : Bytes) (u : Nat) (x : Byte) : Prop where
  value : toInt (strtol 16 (text.take 4)) = u
  fits : u + 6 ≤ text.length
  mem : x ∈ (text.drop 6).take u
  wrong : x ≠ filler

theorem encode_cons_length (c : Chunk) (cs : List Chunk) :
    (encode (c :: cs)).length
      = c.size.length + (2 + (c.data.length + (2 + (encode cs).length))) := by
  simp only [encode_cons, List.length_append]
  rfl

theorem toInt_clamp {n : Nat} (h : n < 2 ^ 31) : toInt (clampLong (n : Int)) = n := by
  have hc : max (-(2 ^ 63)) (min (n : Int) (2 ^ 63 - 1)) = n := by omega
  rw [clampLong, hc, toInt, Int.bmod_eq_of_le (by omega) (by omega)]

/-- At most three digits: the length is right, but the piece starts too late and
    runs over the end of the data. -/
theorem narrow_misread {c : Chunk} (cs : List Chunk) (hlt : c.size.length < 4) :
    ∃ u x, Misread (encode (c :: cs)) u x := by
  obtain ⟨hpos, hhi⟩ := c.size_bounds
  obtain ⟨b, bs, hsize, hb⟩ := c.size_cons
  obtain ⟨e, es, he, hene⟩ := encode_head cs
  have hdata := c.data_pos
  have hlen := encode_cons_length c cs
  have hes := encode_length_pos cs
  obtain ⟨x, hx, hxne⟩ : ∃ x, (crlf ++ encode cs)[3 - c.size.length]? = some x ∧ x ≠ filler := by
    have : c.size.length = 1 ∨ c.size.length = 2 ∨ c.size.length = 3 := by omega
    rcases this with h | h | h
    · exact ⟨e, by rw [h, he]; rfl, hene⟩
    · exact ⟨lf, by rw [h]; rfl, by decide⟩
    · exact ⟨cr, by rw [h]; rfl, by decide⟩
  refine ⟨c.data.length, x, ?_, by omega, ?_, hxne⟩
  · have hcut : (encode (c :: cs)).take 4
        = c.size ++ (crlf ++ (c.data ++ (crlf ++ encode cs))).take (4 - c.size.length) := by
      rw [encode_cons, List.take_append, List.take_of_length_le (by omega)]
    have hstop : NoDigit
        ((crlf ++ (c.data ++ (crlf ++ encode cs))).take (4 - c.size.length)) := by
      obtain ⟨m, hm⟩ : ∃ m, 4 - c.size.length = m + 1 := ⟨3 - c.size.length, by omega⟩
      rw [hm]
      intro d hd
      rw [← Option.some.inj hd]
      rfl
    have hval : strtol 16 (c.size ++ (crlf ++ (c.data ++ (crlf ++ encode cs))).take
        (4 - c.size.length)) = clampLong (c.data.length : Int) := by
      generalize (crlf ++ (c.data ++ (crlf ++ encode cs))).take (4 - c.size.length) = rest
        at hstop ⊢
      rw [← c.value, hsize]
      exact strtol_hex (hsize ▸ c.hex) hb hstop
    have hsmall : c.data.length < 16 ^ 3 :=
      Nat.lt_of_lt_of_le hhi (Nat.pow_le_pow_right (by omega) (by omega))
    rw [hcut, hval, toInt_clamp (by omega)]
  · -- the last byte of the piece lies behind the data
    refine List.mem_of_getElem? (i := c.data.length - 1) ?_
    have hidx : 6 + (c.data.length - 1) - c.size.length - crlf.length - c.data.length
        = 3 - c.size.length := by
      show 6 + (c.data.length - 1) - c.size.length - 2 - c.data.length = _
      omega
    rw [List.getElem?_take_of_lt (by omega), List.getElem?_drop, encode_cons,
      List.getElem?_append_right (by omega),
      List.getElem?_append_right (by show 2 ≤ _; omega),
      List.getElem?_append_right (by show _ ≤ _ - 2; omega), hidx]
    exact hx

/-- Five digits or more: a shorter length is read, and the piece starts in the
    size or in the separator behind it. -/
theorem wide_misread {c : PlainChunk} (cs : List Chunk) (hgt : 4 < c.size.length) :
    ∃ u x, Misread (encode (c.toChunk :: cs)) u x := by
  have hlo := c.size_bounds
  obtain ⟨b, bs, hsize, hb⟩ := c.size_cons
  have hlen := encode_cons_length c.toChunk cs
  obtain ⟨b1, b2, b3, bs', rfl⟩ : ∃ b1 b2 b3 bs', bs = b1 :: b2 :: b3 :: bs' := by
    rw [hsize] at hgt
    rcases bs with _ | ⟨b1, _ | ⟨b2, _ | ⟨b3, bs'⟩⟩⟩
    · simp at hgt
    · simp at hgt
    · simp at hgt
    · exact ⟨b1, b2, b3, bs', rfl⟩
  have hhex : AllHex [b, b1, b2, b3] := by
    have := c.hex.take 4
    rw [hsize] at this
    exact this
  obtain ⟨hulo, huhi⟩ := numeral_bounds hhex hb
  simp only [List.length_cons, List.length_nil] at hulo huhi
  have hbig : 16 ^ 4 ≤ c.data.length :=
    Nat.le_trans (Nat.pow_le_pow_right (by omega) (by omega)) hlo
  have hin : 6 < (c.size ++ crlf).length := by
    rw [List.length_append, show crlf.length = 2 from rfl]
    omega
  refine ⟨(digits 16 0 [b, b1, b2, b3]).1, (c.size ++ crlf)[6], ?_, by omega, ?_,
    (size_no_filler (List.getElem_mem _)).1⟩
  · have hval := strtol_hex hhex (fun hzero => absurd hzero hb)
      (show NoDigit [] from fun b h => by cases h)
    rw [List.append_nil] at hval
    rw [encode_cons, List.take_append_of_le_length (by omega), hsize]
    show toInt (strtol 16 [b, b1, b2, b3]) = _
    rw [hval, toInt_clamp (by omega)]
  · refine List.mem_of_getElem? (i := 0) ?_
    rw [List.getElem?_take_of_lt (by omega), List.getElem?_drop, encode_cons, ← List.append_assoc,
      List.getElem?_append_left hin]
    exact List.getElem?_eq_getElem hin

/-- **A SIZE OF ANOTHER WIDTH GARBLES ITS CHUNK**. -/
theorem bad_chunk {buffer : Bytes} {s : ChunkLocal} {c : PlainChunk} {cs : List Chunk} {f : Nat}
    (hbad : ¬ c.FourDigits) (hfill : Filled c.toChunk)
    (hat : At buffer s (encode (c.toChunk :: cs))) (hs : AtSize s) :
    Garbled (chunkLoop true buffer (f + 3) .sizeByte s).s.pieces := by
  obtain ⟨hpos, -⟩ := c.toChunk.size_bounds
  obtain ⟨b, bs, hsize, hb⟩ := c.size_cons
  have hdata := c.data_pos
  have hlen := encode_cons_length c.toChunk cs
  have hes := encode_length_pos cs
  obtain ⟨u, x, hread⟩ : ∃ u x, Misread (encode (c.toChunk :: cs)) u x := by
    rcases Nat.lt_or_gt_of_ne hbad with hlt | hgt
    · exact narrow_misread cs hlt
    · exact wide_misread cs hgt
  obtain ⟨text, htext⟩ : ∃ text, encode (c.toChunk :: cs) = text := ⟨_, rfl⟩
  have hsplit : text = text.take 4 ++ ((text.drop 4).take 2 ++ text.drop 6) := by
    rw [show text.drop 6 = (text.drop 4).drop 2 by
      rw [List.drop_drop], List.take_append_drop, List.take_append_drop]
  have hno : (text.take 4).take 3 ≠ [48, cr, lf] := by
    rw [← htext, encode_cons, hsize]
    intro h
    exact hb (List.cons.inj h).1
  have hfour : text.take 4 = (c.size ++ crlf ++ c.data).take 4 := by
    have h4 : 4 ≤ (c.size ++ crlf ++ c.data).length := by
      rw [List.length_append, List.length_append, show crlf.length = 2 from rfl]
      omega
    rw [← htext, encode_cons, ← List.append_assoc, ← List.append_assoc,
      List.take_append_of_le_length h4]
  have hnul : (0 : Byte) ∉ text.take 4 := by
    rw [hfour]
    intro hm
    rcases List.mem_append.mp (List.mem_of_mem_take hm) with h | h
    · exact (size_no_filler h).2 rfl
    · exact absurd (hfill 0 h) (by decide)
  rw [htext] at hread hlen hat
  have ha : ((text.drop 6).take u).length = u := by
    have := hread.fits
    rw [List.length_take, List.length_drop]
    omega
  rw [hsplit] at hat
  obtain ⟨s1, hat1, hent1, -, hsize1, hloop⟩ := reach_chunk true
    (f := f + 1) hat (by rw [List.length_take]; omega)
    (by rw [List.length_take, List.length_drop]; omega) hno hnul hs
  rw [← List.take_append_drop u (text.drop 6)] at hat1
  rw [hloop]
  exact piece_garbles hat1 hent1 (by rw [hsize1, hread.value, ha]) hread.mem hread.wrong

/-- The first chunk with another width is reached behind those of four digits. -/
theorem garbled_run {buffer : Bytes} :
    ∀ {cs : List PlainChunk} {s : ChunkLocal} {f : Nat}, (∀ c ∈ cs, Filled c.toChunk) →
      (∃ c ∈ cs, ¬ c.FourDigits) → At buffer s (encode (chunksOf cs)) → AtSize s →
      (encode (chunksOf cs)).length < f →
      Garbled (chunkLoop true buffer f .sizeByte s).s.pieces := by
  intro cs
  induction cs with
  | nil =>
      rintro s f _ ⟨c, hc, -⟩
      cases hc
  | cons c cs ih =>
      intro s f hfill hbad hat hs hfuel
      have hlen : (encode (chunksOf (c :: cs))).length = _ :=
        encode_cons_length c.toChunk (chunksOf cs)
      obtain ⟨hpos, -⟩ := c.toChunk.size_bounds
      by_cases h4 : c.FourDigits
      · obtain ⟨g, rfl⟩ : ∃ g, f = g + 4 := ⟨f - 4, by omega⟩
        obtain ⟨s', hat', hs', hloop⟩ := pass_chunk true (f := g) h4 hat hs
        rw [hloop]
        refine ih (fun d hd => hfill d (List.mem_cons_of_mem _ hd)) ?_ hat' hs' (by omega)
        obtain ⟨d, hd, hdbad⟩ := hbad
        rcases List.mem_cons.mp hd with rfl | hd'
        · exact absurd h4 hdbad
        · exact ⟨d, hd', hdbad⟩
      · obtain ⟨g, rfl⟩ : ∃ g, f = g + 3 := ⟨f - 3, by omega⟩
        exact bad_chunk h4 (hfill c List.mem_cons_self) hat hs

/-! ## The exact condition -/

/-- Chunks of the same sizes that hold the filler only. -/
def fill (c : PlainChunk) : PlainChunk :=
  { size := c.size, data := List.replicate c.data.length filler, hex := c.hex, lead := c.lead,
    value := by rw [c.value, List.length_replicate]
    nonempty := by
      intro h
      have hlen := congrArg List.length h
      rw [List.length_replicate] at hlen
      exact c.nonempty (List.eq_nil_of_length_eq_zero hlen) }

/-- **DECODING UNDOES ENCODING EXACTLY FOR LENGTHS OF FOUR DIGITS**: contents of
    these sizes all come back, whatever lies behind the coding, if and only if
    every length is from 0x1000 to 0xffff. -/
theorem chunked_decodes_iff (cs : List PlainChunk) :
    (∀ ds : List PlainChunk, (chunksOf ds).map Chunk.size = (chunksOf cs).map Chunk.size →
      ∀ (stale : Bytes) (bodyLen : Int),
        DecodesTo (chunksOf ds) bodyLen (decode (chunksOf ds) stale bodyLen)) ↔
    ∀ c ∈ cs, 0x1000 ≤ c.data.length ∧ c.data.length ≤ 0xffff := by
  constructor
  · intro h
    by_contra hnot
    have hbad : ∃ c ∈ cs, ¬ c.FourDigits := by
      by_contra hall
      refine hnot (fun c hc => c.fourDigits_iff.mp ?_)
      by_contra hc4
      exact hall ⟨c, hc, hc4⟩
    have hsizes : (chunksOf (cs.map fill)).map Chunk.size = (chunksOf cs).map Chunk.size := by
      rw [chunksOf, chunksOf, List.map_map, List.map_map, List.map_map]
      rfl
    have hdec := (h (cs.map fill) hsizes [] 0).pieces
    have hgarbled : Garbled (decode (chunksOf (cs.map fill)) [] 0).s.pieces := by
      rw [decode, body_call (by have := encode_length_pos (chunksOf (cs.map fill)); omega)]
      refine garbled_run ?_ ?_ (enter_at _ _ _) (Or.inr ⟨rfl, [0, 0, 0, 0], rfl⟩)
        (fuel_enough [] _ _)
      · intro d hd
        obtain ⟨c, -, rfl⟩ := List.mem_map.mp hd
        intro b hb
        exact (List.mem_replicate.mp hb).2
      · obtain ⟨c, hc, hc4⟩ := hbad
        exact ⟨fill c, List.mem_map_of_mem hc, hc4⟩
    obtain ⟨b, hb, hne⟩ := hgarbled
    rw [hdec, contents, List.mem_flatMap] at hb
    obtain ⟨d, hd, hbd⟩ := hb
    obtain ⟨e, he, rfl⟩ := List.mem_map.mp hd
    obtain ⟨c, -, rfl⟩ := List.mem_map.mp he
    exact hne (List.mem_replicate.mp hbd).2
  · intro h ds hsizes stale bodyLen
    refine decode_fourDigits ?_ stale bodyLen
    intro d hd
    have hm : d.size ∈ (chunksOf cs).map Chunk.size := by
      rw [← hsizes]
      exact List.mem_map_of_mem hd
    obtain ⟨e, he, hcd⟩ := List.mem_map.mp hm
    obtain ⟨c, hc, rfl⟩ := List.mem_map.mp he
    have h4 := c.fourDigits_iff.mpr (h c hc)
    rw [Chunk.FourDigits] at h4 ⊢
    rw [← hcd]
    exact h4

/-- The chunk `1`, CR LF, `a`, CR LF. -/
def oneByte : PlainChunk :=
  { size := [49], data := [97], hex := by intro b hb; rw [List.mem_singleton.mp hb]; rfl,
    lead := by decide, value := rfl,
    nonempty := by decide }

/-- The smallest chunk does not come back: `0` is handed over for its `a`. -/
theorem oneByte_not_decoded :
    ¬ DecodesTo (chunksOf [oneByte]) 0 (decode (chunksOf [oneByte]) [] 0) := by
  intro h
  exact absurd h.pieces (by decide)

end ChunkedRoundTrip
