import Hftp.ChunkTerminationProofs

/-! # Whether the decoder keeps to what it was given

    A call is given the bytes that one read has brought: behind the head on the first
    call, from the front of the buffer later.  The rest of the buffer holds what older
    reads have left there, and nothing stops the decoder from looking at it: the size
    field is copied four bytes at a time however few came, the terminating chunk is
    looked for before the length is, a head that ends with its read makes the first
    call take the length of the whole read, and a negative size is a length like any
    other.

    A call keeps to its window if it does the same with the window as its only memory,
    where every step outside is an abort. -/

namespace ChunkConfinement

open CBytes HttpCore HttpChunked ChunkedWindow Leftover ChunkTermination

/-! ## Calls -/

/-- One read: what the buffer holds behind it, and what `read` returned. -/
structure Arrival where
  buffer : Bytes
  readLen : Nat

/-- Where a response stands between two calls. -/
structure Progress where
  ctx : HttpResponseContext
  bodyLen : Int
  pieces : List Piece
  received : Nat
  first : Bool

/-- The bytes of the body that a read has brought. -/
def Progress.window (p : Progress) (a : Arrival) : Bytes :=
  (a.buffer.drop p.ctx.remainDataIndex).take
    (if p.first then p.ctx.remainDataLen else a.readLen)

/-- `http_chunked_response_body(conn, buffer, read_len, ..)` -/
def Progress.run (p : Progress) (registered : Bool) (a : Arrival) : ChunkRun :=
  httpChunkedResponseBody registered a.buffer a.readLen p.ctx p.bodyLen

/-- Where the response stands after the call. -/
def Progress.after (p : Progress) (registered : Bool) (a : Arrival) : Progress :=
  { ctx := (p.run registered a).s.ctx, bodyLen := (p.run registered a).s.bodyLen,
    pieces := p.pieces ++ (p.run registered a).s.pieces,
    received := p.received + (p.window a).length, first := false }

/-- What `read` and the head parser promise: a call is made with bytes that lie in
    the buffer. -/
structure Arrives (p : Progress) (a : Arrival) : Prop where
  fits : a.readLen ≤ a.buffer.length
  head : p.first = true → p.ctx.remainDataIndex + p.ctx.remainDataLen ≤ a.readLen

/-- A context for a call whose bytes lie at the front. -/
def bare (ctx : HttpResponseContext) : HttpResponseContext :=
  { ctx with remainDataIndex := 0, remainDataLen := 0 }

/-- The call with the window as its only memory. -/
def Progress.alone (p : Progress) (registered : Bool) (a : Arrival) : ChunkRun :=
  httpChunkedResponseBody registered (p.window a) (p.window a).length (bare p.ctx) p.bodyLen

/-- **A CALL KEEPS TO ITS WINDOW**: it comes back as it does from the window alone,
    and what it hands over are bytes of the window, of a length that is none below
    zero. -/
structure Confined (registered : Bool) (p : Progress) (a : Arrival) : Prop where
  comes : ∃ continued, (p.alone registered a).stop = .ok continued
  stop : (p.run registered a).stop = (p.alone registered a).stop
  ctx : (p.run registered a).s.ctx = (p.alone registered a).s.ctx
  bodyLen : (p.run registered a).s.bodyLen = (p.alone registered a).s.bodyLen
  pieces : (p.run registered a).s.pieces = (p.alone registered a).s.pieces
  inside : ∀ q ∈ (p.run registered a).s.pieces,
    q.len = q.bytes.length ∧ q.bytes <:+: p.window a

/-- What holds between two calls: no label waits for fewer bytes than none, and no more
    was handed over, or counted, than has come. -/
structure Sound (p : Progress) : Prop where
  remain : 0 ≤ p.ctx.chunkStateRemainByte
  total : (p.pieces.map Piece.len).sum ≤ p.received
  bodyLen : p.bodyLen ≤ p.received

/-- A response whose head was read, in a context that earlier calls have left. -/
structure Begun (p : Progress) : Prop where
  reachable : Reachable p.ctx
  bodyLen : p.bodyLen = 0
  pieces : p.pieces = []
  received : p.received = 0
  first : p.first = true

/-! ## The condition -/

/-- The size fields of a window. -/
def Field (registered : Bool) (w : Bytes) (ctx : HttpResponseContext) (kept : Bytes) (i : Int) :
    Prop :=
  FieldAt registered w (bare ctx) 0 w.length kept i

/-- **WINDOWS THAT ARE SAFE**: there is something in them, enough for a size field that
    is begun or gone on with; they do not end at a size field, nor within the
    first two bytes of a terminating chunk; and no size in them is negative. -/
structure Within (registered : Bool) (w : Bytes) (ctx : HttpResponseContext) : Prop where
  nonempty : w ≠ []
  begun : ctx.chunkTerminateState = .sizeByte →
    4 ≤ (ctx.chunkSizeStr.takeWhile (· ≠ 0)).length + w.length
  look : ∀ i, Field registered w ctx [] i → ¬ w.drop i.toNat <+: [48, cr]
  size : ∀ kept i text, Field registered w ctx kept i → readField w kept i = some text →
    chunkAt kept i ≤ w.length → 0 ≤ fieldSize text
  resumed : ctx.chunkTerminateState = .separatorMid → ctx.chunkStateRemainByte ≤ w.length →
    0 ≤ ctx.chunkSize

/-- A call that comes back. -/
def Call (registered : Bool) (p q : Progress) : Prop :=
  ∃ a, Arrives p a ∧ (∃ continued, (p.run registered a).stop = .ok continued) ∧
    q = p.after registered a

/-- A read that has brought nothing, or a window that is safe. -/
def Safe (registered : Bool) (p : Progress) (a : Arrival) : Prop :=
  a.readLen = 0 ∨ Within registered (p.window a) p.ctx

def SafeCall (registered : Bool) (p q : Progress) : Prop :=
  ∃ a, Arrives p a ∧ Safe registered p a ∧ q = p.after registered a

/-! ## The same steps elsewhere in memory -/

/-- The locals of a call whose window lies `d` bytes further on. -/
def shift (d : Nat) (s : ChunkLocal) : ChunkLocal := { s with index := s.index + d }

def shiftFlow (d : Nat) : Flow → Flow
  | .go s => .go (shift d s)
  | .brk continued s => .brk continued (shift d s)
  | .abort e s => .abort e (shift d s)

section Shift

variable {registered : Bool} {pre w post : Bytes}

theorem slice_shift {i : Int} {n : Nat} {d : Bytes} (h : slice w i n = .ok d) :
    slice (pre ++ (w ++ post)) (i + pre.length) n = .ok d := by
  rw [slice] at h
  split_ifs at h with hzero hfits
  · rw [slice, if_pos hzero, h]
  · have hidx : (i + pre.length).toNat = pre.length + i.toNat := by omega
    have hin : 0 ≤ i + pre.length ∧
        (i + pre.length).toNat + n ≤ (pre ++ (w ++ post)).length := by
      simp only [List.length_append]
      omega
    rw [slice, if_neg hzero, if_pos hin, hidx, ← Except.ok.inj h, ← List.drop_drop,
      List.drop_left, List.drop_append_of_le_length (by omega), List.take_append_of_le_length]
    rw [List.length_drop]
    omega

theorem byteAt_shift {i : Int} {b : Byte} (h : byteAt w i = .ok b) :
    byteAt (pre ++ (w ++ post)) (i + pre.length) = .ok b := by
  rw [byteAt] at h
  split_ifs at h with hpos
  cases hget : w[i.toNat]? with
  | none =>
      rw [hget] at h
      cases h
  | some c =>
      rw [hget] at h
      obtain ⟨hlt, -⟩ := List.getElem?_eq_some_iff.mp hget
      have hidx : (i + pre.length).toNat = pre.length + i.toNat := by omega
      rw [byteAt, if_pos (by omega), hidx, List.getElem?_append_right (Nat.le_add_right _ _),
        Nat.add_sub_cancel_left, List.getElem?_append_left hlt, hget]
      exact h

theorem looksEnd_shift {i : Int} {found : Bool} (h : looksEnd w i = .ok found) :
    looksEnd (pre ++ (w ++ post)) (i + pre.length) = .ok found := by
  rw [looksEnd] at h ⊢
  cases h1 : byteAt w i with
  | error e =>
      rw [h1] at h
      cases h
  | ok a =>
      rw [h1] at h
      rw [byteAt_shift h1]
      simp only [bind, Except.bind] at h ⊢
      by_cases ha : a = 48
      · rw [if_pos ha] at h ⊢
        cases h2 : byteAt w (i + 1) with
        | error e =>
            rw [h2] at h
            cases h
        | ok b =>
            have hone : i + pre.length + 1 = i + 1 + pre.length := by omega
            rw [h2] at h
            rw [hone, byteAt_shift h2]
            dsimp only at h ⊢
            by_cases hb : b = cr
            · rw [if_pos hb] at h ⊢
              cases h3 : byteAt w (i + 2) with
              | error e =>
                  rw [h3] at h
                  cases h
              | ok c =>
                  have htwo : i + pre.length + 2 = i + 2 + pre.length := by omega
                  rw [h3] at h
                  rw [htwo, byteAt_shift h3]
                  exact h
            · rw [if_neg hb] at h ⊢
              exact h
      · rw [if_neg ha] at h ⊢
        exact h

theorem deliver_shift {n : Int} {s t : ChunkLocal} (h : deliver registered w n s = .ok t) :
    deliver registered (pre ++ (w ++ post)) n (shift pre.length s) =
      .ok (shift pre.length t) := by
  rw [deliver] at h ⊢
  cases registered with
  | false =>
      rw [if_neg (by decide)] at h ⊢
      rw [← Except.ok.inj h]
      rfl
  | true =>
      rw [if_pos rfl] at h ⊢
      cases hslice : slice w s.index n.toNat with
      | error e =>
          rw [hslice] at h
          cases h
      | ok d =>
          rw [hslice] at h
          have hthere : slice (pre ++ (w ++ post)) (shift pre.length s).index n.toNat = .ok d :=
            slice_shift hslice
          rw [hthere, ← Except.ok.inj h]
          rfl

/-- The size label does the same, if it does not leave the window. -/
theorem remainSizeByte_shift {s : ChunkLocal} (h : ∀ e t, remainSizeByte w s ≠ .abort e t) :
    remainSizeByte (pre ++ (w ++ post)) (shift pre.length s) =
      shiftFlow pre.length (remainSizeByte w s) := by
  have hidx : ∀ n : Int, s.index + n + pre.length = s.index + pre.length + n := by
    intro n
    omega
  rw [remainSizeByte] at h ⊢
  rw [remainSizeByte]
  dsimp only [shift] at h ⊢
  rcases Bool.eq_false_or_eq_true s.entering with he | he
  · simp only [he, if_true] at h ⊢
    cases hslice : slice w s.index (4 - strlen s.ctx.chunkSizeStr) with
    | error e =>
        rw [hslice] at h
        exact absurd rfl (h e _)
    | ok d =>
        rw [slice_shift hslice]
        dsimp only
        split
        · simp only [shiftFlow, shift, hidx]
        · split
          · rfl
          · simp only [parseSize, shiftFlow, shift, hidx]
  · simp only [he, Bool.false_eq_true, if_false] at h ⊢
    cases hlook : looksEnd w s.index with
    | error e =>
        rw [hlook] at h
        exact absurd rfl (h e _)
    | ok found =>
        rw [hlook] at h
        rw [looksEnd_shift hlook]
        cases found with
        | true => rfl
        | false =>
            dsimp only at h ⊢
            by_cases hlt : s.len < 4
            · simp only [if_pos hlt] at h ⊢
              cases hslice : slice w s.index s.len.toNat with
              | error e =>
                  rw [hslice] at h
                  exact absurd rfl (h e _)
              | ok d =>
                  rw [slice_shift hslice]
                  simp only [shiftFlow, shift, hidx]
            · simp only [if_neg hlt] at h ⊢
              cases hslice : slice w s.index 4 with
              | error e =>
                  rw [hslice] at h
                  exact absurd rfl (h e _)
              | ok d =>
                  rw [slice_shift hslice]
                  simp only [parseSize, shiftFlow, shift, hidx]

theorem separator_shift (label : ChunkState) (s : ChunkLocal) :
    separator label (shift pre.length s) = shiftFlow pre.length (separator label s) := by
  have hidx : ∀ n : Int, s.index + n + pre.length = s.index + pre.length + n := by
    intro n
    omega
  rw [separator, separator]
  dsimp only [shift]
  rcases Bool.eq_false_or_eq_true s.entering with he | he
  · simp only [he, if_true]
    split
    · rfl
    · simp only [shiftFlow, shift, hidx]
  · simp only [he, Bool.false_eq_true, if_false]
    split
    · rfl
    · simp only [shiftFlow, shift, hidx]

theorem remainChunk_shift {s : ChunkLocal} (h : ∀ e t, remainChunk registered w s ≠ .abort e t) :
    remainChunk registered (pre ++ (w ++ post)) (shift pre.length s) =
      shiftFlow pre.length (remainChunk registered w s) := by
  rw [remainChunk_eq] at h ⊢
  rw [remainChunk_eq]
  have hwant : wantOf (shift pre.length s) = wantOf s := rfl
  by_cases hlt : s.len < wantOf s
  · have hthere : (shift pre.length s).len < wantOf (shift pre.length s) := hlt
    rw [if_pos hlt] at h ⊢
    rw [if_pos hthere]
    cases hd : deliver registered w s.len { s with
        ctx := { s.ctx with chunkTerminateState := .chunk,
                            chunkStateRemainByte := wantOf s - s.len } } with
    | error e =>
        rw [hd] at h
        exact absurd rfl (h e _)
    | ok t =>
        have hshift : deliver registered (pre ++ (w ++ post)) (shift pre.length s).len
            { shift pre.length s with
              ctx := { (shift pre.length s).ctx with
                chunkTerminateState := .chunk,
                chunkStateRemainByte := wantOf (shift pre.length s) - (shift pre.length s).len } }
            = .ok (shift pre.length t) := deliver_shift hd
        rw [hshift]
        rfl
  · have hthere : ¬ (shift pre.length s).len < wantOf (shift pre.length s) := hlt
    rw [if_neg hlt] at h ⊢
    rw [if_neg hthere]
    cases hd : deliver registered w (wantOf s) { s with
        ctx := { s.ctx with chunkTerminateState := .chunk } } with
    | error e =>
        rw [hd] at h
        exact absurd rfl (h e _)
    | ok t =>
        have hshift : deliver registered (pre ++ (w ++ post)) (wantOf (shift pre.length s))
            { shift pre.length s with
              ctx := { (shift pre.length s).ctx with chunkTerminateState := .chunk } }
            = .ok (shift pre.length t) := deliver_shift hd
        have hidx : t.index + pre.length + wantOf s = t.index + wantOf s + pre.length := by omega
        rw [hshift]
        dsimp only
        by_cases he : t.entering = true
        · have hent : (shift pre.length t).entering = true := he
          rw [if_pos he, if_pos hent, hwant]
          simp only [shiftFlow, shift, hidx]
        · have hent : ¬ (shift pre.length t).entering = true := he
          rw [if_neg he, if_neg hent, hwant]
          simp only [shiftFlow, shift, hidx]

/-- **A LABEL THAT STAYS IN THE WINDOW** does the same wherever the window lies. -/
theorem chunkStep_shift {label : ChunkState} {s : ChunkLocal}
    (h : ∀ e t, chunkStep registered w label s ≠ .abort e t) :
    chunkStep registered (pre ++ (w ++ post)) label (shift pre.length s) =
      shiftFlow pre.length (chunkStep registered w label s) := by
  cases label with
  | sizeByte => exact remainSizeByte_shift h
  | separatorMid => exact separator_shift .separatorMid s
  | chunk => exact remainChunk_shift h
  | separatorEnd => exact separator_shift .separatorEnd s

/-- **SO DOES A LOOP** that comes back, given as many passes or more. -/
theorem chunkLoop_shift (pre post : Bytes) {continued : Bool} :
    ∀ {fuel more : Nat} {label : ChunkState} {s : ChunkLocal},
      (chunkLoop registered w fuel label s).stop = .ok continued → fuel ≤ more →
      chunkLoop registered (pre ++ (w ++ post)) more label (shift pre.length s) =
        { stop := .ok continued,
          s := shift pre.length (chunkLoop registered w fuel label s).s } := by
  intro fuel
  induction fuel with
  | zero =>
      intro more label s h _
      cases h
  | succ fuel ih =>
      intro more label s h hle
      obtain ⟨more, rfl⟩ : ∃ m, more = m + 1 := ⟨more - 1, by omega⟩
      rw [chunkLoop] at h ⊢
      rw [chunkLoop]
      cases hflow : chunkStep registered w label s with
      | go t =>
          rw [hflow] at h
          rw [chunkStep_shift (fun e u hu => by cases hflow.symm.trans hu), hflow]
          exact ih h (by omega)
      | brk c t =>
          rw [hflow] at h
          rw [chunkStep_shift (fun e u hu => by cases hflow.symm.trans hu), hflow]
          have hstop : Except.ok c = .ok continued := h
          rw [← Except.ok.inj hstop]
          rfl
      | abort e t =>
          rw [hflow] at h
          cases h

end Shift

/-! ## What every call keeps -/

theorem separator_remain (label : ChunkState) {s : ChunkLocal}
    (h : 0 ≤ s.ctx.chunkStateRemainByte) :
    0 ≤ (Flow.ctx (separator label s)).chunkStateRemainByte := by
  rw [separator]
  dsimp only
  split
  · split
    · show 0 ≤ s.ctx.chunkStateRemainByte - s.len
      omega
    · exact Int.le_refl 0
  · split
    · show 0 ≤ 2 - s.len
      omega
    · exact h

theorem remainSizeByte_remain (buffer : Bytes) (s : ChunkLocal) :
    (Flow.ctx (remainSizeByte buffer s)).chunkStateRemainByte = s.ctx.chunkStateRemainByte := by
  rw [remainSizeByte]
  dsimp only
  split
  · split
    · rfl
    · split
      · rfl
      · split <;> rfl
  · split
    · rfl
    · rfl
    · split
      · split <;> rfl
      · split <;> rfl

theorem remainChunk_remain (registered : Bool) (buffer : Bytes) {s : ChunkLocal}
    (h : 0 ≤ s.ctx.chunkStateRemainByte) :
    0 ≤ (Flow.ctx (remainChunk registered buffer s)).chunkStateRemainByte := by
  rw [remainChunk_eq]
  split
  · have hmore : 0 ≤ wantOf s - s.len := by omega
    split
    · exact hmore
    · rename_i hdeliver
      rw [Flow.ctx, deliver_ctx hdeliver]
      exact hmore
  · split
    · exact h
    · rename_i hdeliver
      have hctx := deliver_ctx hdeliver
      split
      · exact Int.le_refl 0
      · rw [Flow.ctx, hctx]
        exact h

/-- **NO LABEL WAITS FOR FEWER BYTES THAN NONE**, whatever the sizes are. -/
theorem chunkStep_remain (registered : Bool) (buffer : Bytes) (label : ChunkState)
    {s : ChunkLocal} (h : 0 ≤ s.ctx.chunkStateRemainByte) :
    0 ≤ (Flow.ctx (chunkStep registered buffer label s)).chunkStateRemainByte := by
  cases label with
  | sizeByte =>
      rw [chunkStep, remainSizeByte_remain]
      exact h
  | separatorMid => exact separator_remain .separatorMid h
  | chunk => exact remainChunk_remain registered buffer h
  | separatorEnd => exact separator_remain .separatorEnd h

theorem reachable_remain {ctx : HttpResponseContext} (h : Reachable ctx) :
    0 ≤ ctx.chunkStateRemainByte := by
  induction h with
  | zero => exact Int.le_refl 0
  | between state index len h ih => exact ih
  | head h ih => exact ih
  | call registered buffer readLen bodyLen h hstop ih =>
      rw [httpChunkedResponseBody]
      split
      · exact ih
      · exact chunkLoop_keeps (fun ctx => 0 ≤ ctx.chunkStateRemainByte)
          (fun label s => chunkStep_remain registered buffer label) _ _ _ ih

/-- No label touches what the head parser has left. -/
theorem chunkStep_bare (registered : Bool) (buffer : Bytes) (label : ChunkState)
    (s : ChunkLocal) :
    (Flow.ctx (chunkStep registered buffer label s)).remainDataIndex = s.ctx.remainDataIndex ∧
      (Flow.ctx (chunkStep registered buffer label s)).remainDataLen = s.ctx.remainDataLen := by
  have hseparator : ∀ label,
      (Flow.ctx (separator label s)).remainDataIndex = s.ctx.remainDataIndex ∧
        (Flow.ctx (separator label s)).remainDataLen = s.ctx.remainDataLen := by
    intro label
    rw [separator]
    dsimp only
    split
    · split <;> exact ⟨rfl, rfl⟩
    · split <;> exact ⟨rfl, rfl⟩
  cases label with
  | sizeByte =>
      rw [chunkStep, remainSizeByte]
      dsimp only
      split
      · split
        · exact ⟨rfl, rfl⟩
        · split
          · exact ⟨rfl, rfl⟩
          · split <;> exact ⟨rfl, rfl⟩
      · split
        · exact ⟨rfl, rfl⟩
        · exact ⟨rfl, rfl⟩
        · split
          · split <;> exact ⟨rfl, rfl⟩
          · split <;> exact ⟨rfl, rfl⟩
  | separatorMid => exact hseparator .separatorMid
  | chunk =>
      rw [chunkStep, remainChunk_eq]
      split
      · split
        · exact ⟨rfl, rfl⟩
        · rename_i hdeliver
          rw [Flow.ctx, deliver_ctx hdeliver]
          exact ⟨rfl, rfl⟩
      · split
        · exact ⟨rfl, rfl⟩
        · rename_i hdeliver
          have hctx := deliver_ctx hdeliver
          split
          · rw [Flow.ctx, hctx]
            exact ⟨rfl, rfl⟩
          · rw [Flow.ctx, hctx]
            exact ⟨rfl, rfl⟩
  | separatorEnd => exact hseparator .separatorEnd

/-! ## Inside a window -/

section Inside

variable {registered : Bool} {w : Bytes} {ctx : HttpResponseContext} {bodyLen : Int}

/-- What a call has handed over, when `left` bytes of its window are unread. -/
structure Handed (w : Bytes) (bodyLen left : Int) (s : ChunkLocal) : Prop where
  pieces : ∀ q ∈ s.pieces, q.len = q.bytes.length ∧ q.bytes <:+: w
  total : (s.pieces.map Piece.len).sum + left ≤ w.length
  bodyLen : s.bodyLen + left ≤ bodyLen + w.length

/-- **INSIDE THE WINDOW**: where a call stands at a label, if its window is safe. -/
structure Inside (registered : Bool) (w : Bytes) (ctx : HttpResponseContext) (bodyLen : Int)
    (label : ChunkState) (s : ChunkLocal) : Prop where
  visits : Visits registered w w.length (bare ctx) bodyLen label s
  index : 0 ≤ s.index
  len : 0 ≤ s.len
  remain : 0 ≤ s.ctx.chunkStateRemainByte
  begun : label = .sizeByte → s.entering = true → (4 - (keptOf s).length : Nat) ≤ s.len
  size : label = .chunk ∧ s.entering = false ∨ label = .separatorMid ∧ needOf s ≤ s.len →
    0 ≤ s.ctx.chunkSize
  handed : Handed w bodyLen s.len s

theorem given_bare (w : Bytes) (ctx : HttpResponseContext) :
    ((bare ctx).remainDataIndex : Int) + given w.length (bare ctx) = w.length :=
  Int.zero_add _

/-- The bytes of a call end where its window does. -/
theorem Inside.last (hctx : Holds ctx) {label : ChunkState} {s : ChunkLocal}
    (h : Inside registered w ctx bodyLen label s) : s.index + s.len = w.length := by
  have hbare : Holds (bare ctx) := hctx
  have hends := (h.visits.stands hbare).ends
  rw [given_bare] at hends
  exact hends

theorem Inside.field (hctx : Holds ctx) {s : ChunkLocal}
    (h : Inside registered w ctx bodyLen .sizeByte s) :
    Field registered w ctx (keptOf s) s.index := by
  have hbare : Holds (bare ctx) := hctx
  have hfield := (h.visits.stands hbare).field rfl
  rw [given_bare] at hfield
  exact hfield

/-- Bytes of the window can be read. -/
theorem slice_window {i : Int} {n : Nat} (hpos : 0 ≤ i) (hle : i + n ≤ w.length) :
    ∃ d, slice w i n = .ok d ∧ d.length = n ∧ d <:+: w := by
  by_cases hzero : n = 0
  · refine ⟨[], ?_, hzero.symm, List.nil_infix⟩
    rw [slice, if_pos hzero]
  · have hin : 0 ≤ i ∧ i.toNat + n ≤ w.length := by omega
    have hslice : slice w i n = .ok ((w.drop i.toNat).take n) := by
      rw [slice, if_neg hzero, if_pos hin]
    refine ⟨_, hslice, slice_length hslice, ?_⟩
    exact (List.take_prefix n _).isInfix.trans (List.drop_suffix _ w).isInfix

theorem byteAt_window {i : Int} {k : Nat} {b : Byte} (hpos : 0 ≤ i)
    (hget : (w.drop i.toNat)[k]? = some b) : byteAt w (i + k) = .ok b := by
  have hidx : (i + k).toNat = i.toNat + k := by omega
  rw [List.getElem?_drop] at hget
  rw [byteAt, if_pos (by omega), hidx, hget]

/-- The terminating chunk can be looked for, if what is there says yes or no. -/
theorem looksEnd_window {i : Int} (hpos : 0 ≤ i) (hlook : ¬ w.drop i.toNat <+: [48, cr]) :
    ∃ found, looksEnd w i = .ok found := by
  have hbyte : ∀ {k : Nat} {b : Byte}, (w.drop i.toNat)[k]? = some b → byteAt w (i + k) = .ok b :=
    byteAt_window hpos
  generalize w.drop i.toNat = v at hlook hbyte
  rw [looksEnd]
  cases v with
  | nil => exact absurd List.nil_prefix hlook
  | cons a v =>
      have ha : byteAt w i = .ok a := by
        have hfirst := hbyte (k := 0) rfl
        rw [Nat.cast_zero, Int.add_zero] at hfirst
        exact hfirst
      rw [ha]
      simp only [bind, Except.bind]
      by_cases h1 : a = 48
      · rw [if_pos h1]
        cases v with
        | nil => exact absurd ⟨[cr], by rw [h1]; rfl⟩ hlook
        | cons b v =>
            have hb : byteAt w (i + 1) = .ok b := hbyte (k := 1) rfl
            rw [hb]
            dsimp only
            by_cases h2 : b = cr
            · rw [if_pos h2]
              cases v with
              | nil => exact absurd ⟨[], by rw [h1, h2]; rfl⟩ hlook
              | cons c v =>
                  have hc : byteAt w (i + 2) = .ok c := hbyte (k := 2) rfl
                  rw [hc]
                  exact ⟨_, rfl⟩
            · rw [if_neg h2]
              exact ⟨_, rfl⟩
      · rw [if_neg h1]
        exact ⟨_, rfl⟩

theorem Handed.weaken {left less : Int} {s t : ChunkLocal} (h : Handed w bodyLen left s)
    (hle : less ≤ left) (hpieces : t.pieces = s.pieces) (hbody : t.bodyLen = s.bodyLen) :
    Handed w bodyLen less t := by
  refine ⟨?_, ?_, ?_⟩
  · rw [hpieces]
    exact h.pieces
  · have htotal := h.total
    rw [hpieces]
    omega
  · have hbodyLen := h.bodyLen
    rw [hbody]
    omega

/-- Bytes of the window can be handed over. -/
theorem deliver_window (registered : Bool) (s : ChunkLocal) {k : Int} (h : Handed w bodyLen s.len s)
    (hindex : 0 ≤ s.index) (hlast : s.index + s.len = w.length) (hpos : 0 ≤ k)
    (hle : k ≤ s.len) :
    ∃ t, deliver registered w k s = .ok t ∧ Handed w bodyLen (s.len - k) t ∧
      t.index = s.index ∧ t.len = s.len ∧ t.entering = s.entering := by
  have htotal := h.total
  have hbodyLen := h.bodyLen
  obtain ⟨d, hslice, hlen, hinfix⟩ := slice_window (w := w) (n := k.toNat) hindex (by omega)
  rw [deliver]
  cases registered with
  | false =>
      refine ⟨_, rfl, ⟨h.pieces, ?_, ?_⟩, rfl, rfl, rfl⟩
      · show (s.pieces.map Piece.len).sum + (s.len - k) ≤ w.length
        omega
      · show s.bodyLen + k + (s.len - k) ≤ bodyLen + w.length
        omega
  | true =>
      rw [if_pos rfl, hslice]
      refine ⟨_, rfl, ⟨?_, ?_, ?_⟩, rfl, rfl, rfl⟩
      · intro q hq
        rcases List.mem_append.mp hq with hold | hnew
        · exact h.pieces q hold
        · rw [List.mem_singleton.mp hnew]
          refine ⟨?_, hinfix⟩
          show k = (d.length : Int)
          omega
      · show ((s.pieces ++ [_]).map Piece.len).sum + (s.len - k) ≤ w.length
        simp only [List.map_append, List.map_cons, List.map_nil, List.sum_append, List.sum_cons,
          List.sum_nil]
        omega
      · show s.bodyLen + k + (s.len - k) ≤ bodyLen + w.length
        omega

/-- What a label does with a call inside its window. -/
def StaysIn (registered : Bool) (w : Bytes) (ctx : HttpResponseContext) (bodyLen : Int)
    (label : ChunkState) : Flow → Prop
  | .go t => Inside registered w ctx bodyLen label t
  | .brk _ t => Handed w bodyLen 0 t
  | .abort _ _ => False

theorem remainSizeByte_same (buffer : Bytes) (s : ChunkLocal) :
    (Flow.after (remainSizeByte buffer s)).pieces = s.pieces ∧
      (Flow.after (remainSizeByte buffer s)).bodyLen = s.bodyLen := by
  refine ⟨remainSizeByte_pieces buffer s, ?_⟩
  rw [remainSizeByte]
  dsimp only
  split
  · split
    · rfl
    · split
      · rfl
      · split <;> rfl
  · split
    · rfl
    · rfl
    · split
      · split <;> rfl
      · split <;> rfl

theorem separator_same (label : ChunkState) (s : ChunkLocal) :
    (Flow.after (separator label s)).pieces = s.pieces ∧
      (Flow.after (separator label s)).bodyLen = s.bodyLen := by
  refine ⟨separator_pieces label s, ?_⟩
  rw [separator]
  dsimp only
  split
  · split <;> rfl
  · split <;> rfl

/-- The size label reads nothing but the window. -/
theorem size_stays (hctx : Holds ctx) (hin : Within registered w ctx) {s : ChunkLocal}
    (h : Inside registered w ctx bodyLen .sizeByte s) (e : Abort) (t : ChunkLocal) :
    remainSizeByte w s ≠ .abort e t := by
  intro habort
  have hlast := h.last hctx
  rw [remainSizeByte] at habort
  cases he : s.entering with
  | true =>
      have hbegun := h.begun rfl he
      rw [keptOf, he, if_pos rfl, ← strlen] at hbegun
      simp only [he, if_true] at habort
      obtain ⟨d, hslice, -, -⟩ := slice_window (w := w) (n := 4 - strlen s.ctx.chunkSizeStr)
        h.index (by omega)
      rw [hslice] at habort
      dsimp only at habort
      split at habort
      · cases habort
      · split at habort
        · cases habort
        · cases habort
  | false =>
      have hfield := h.field hctx
      rw [keptOf, he, if_neg (by decide)] at hfield
      obtain ⟨found, hlook⟩ := looksEnd_window h.index (hin.look _ hfield)
      simp only [he, Bool.false_eq_true, if_false, hlook] at habort
      cases found with
      | true => cases habort
      | false =>
          dsimp only at habort
          by_cases hlt : s.len < 4
          · obtain ⟨d, hslice, -, -⟩ := slice_window (w := w) (n := s.len.toNat) h.index
              (by have := h.len; omega)
            rw [if_pos hlt, hslice] at habort
            cases habort
          · obtain ⟨d, hslice, -, -⟩ := slice_window (w := w) (n := 4) h.index (by omega)
            rw [if_neg hlt, hslice] at habort
            cases habort

theorem size_inside (hctx : Holds ctx) (hin : Within registered w ctx) {s : ChunkLocal}
    (h : Inside registered w ctx bodyLen .sizeByte s) :
    StaysIn registered w ctx bodyLen .separatorMid (chunkStep registered w .sizeByte s) := by
  have hbare : Holds (bare ctx) := hctx
  have hlast := h.last hctx
  have hkept := keptOf_length (h.visits.stands hbare).holds
  have hremain := chunkStep_remain registered w .sizeByte h.remain
  have hsame := remainSizeByte_same w s
  cases hflow : chunkStep registered w .sizeByte s with
  | go t =>
      have hflow' : remainSizeByte w s = .go t := hflow
      rw [hflow] at hremain
      rw [hflow'] at hsame
      cases hread : readField w (keptOf s) s.index with
      | none => exact absurd hflow (size_none hkept hread t)
      | some text =>
          have hleaves := size_leaves hkept hread
          have hle := hleaves.only t hflow'
          obtain ⟨hmoved, hsize⟩ := hleaves.moved hflow'
          have hindex := h.index
          have hmovedIndex := hmoved.index
          have hmovedLen := hmoved.len
          refine ⟨h.visits.go hflow, by omega, by omega, hremain, by rintro ⟨⟩, ?_, ?_⟩
          · rintro (⟨hlabel, -⟩ | ⟨-, hneed⟩)
            · cases hlabel
            · rw [needOf, hmoved.entering, if_neg (by decide)] at hneed
              rw [hsize]
              refine hin.size _ _ text (h.field hctx) hread ?_
              rw [chunkAt]
              omega
          · exact h.handed.weaken (by omega) hsame.1 hsame.2
  | brk continued t =>
      have hflow' : remainSizeByte w s = .brk continued t := hflow
      rw [hflow'] at hsame
      exact h.handed.weaken h.len hsame.1 hsame.2
  | abort e t => exact size_stays hctx hin h e t hflow

theorem needOf_nonneg {s : ChunkLocal} (h : 0 ≤ s.ctx.chunkStateRemainByte) : 0 ≤ needOf s := by
  rw [needOf]
  split
  · exact h
  · decide

/-- A separator, followed by whatever follows from its being left. -/
theorem separator_inside {label : ChunkState} {s : ChunkLocal}
    (hstep : chunkStep registered w label s = separator label s)
    (h : Inside registered w ctx bodyLen label s)
    (hbegun : ChunkState.next label = .sizeByte ∨ ChunkState.next label = .chunk)
    (hsize : needOf s ≤ s.len → ChunkState.next label = .chunk → 0 ≤ s.ctx.chunkSize) :
    StaysIn registered w ctx bodyLen (ChunkState.next label) (chunkStep registered w label s) := by
  have hremain := chunkStep_remain registered w label h.remain
  have hsame := separator_same label s
  have hleaves := separator_leaves label s
  have hneed := needOf_nonneg h.remain
  cases hflow : chunkStep registered w label s with
  | go t =>
      rw [hflow] at hremain
      rw [hstep] at hflow
      rw [hflow] at hsame
      have hle := hleaves.only t hflow
      obtain ⟨hmoved, hkept⟩ := hleaves.moved hflow
      have hindex := h.index
      have hmovedIndex := hmoved.index
      have hmovedLen := hmoved.len
      refine ⟨h.visits.go (hstep.trans hflow), by omega, by omega, hremain, ?_, ?_, ?_⟩
      · intro _ hent
        cases hmoved.entering.symm.trans hent
      · rintro (⟨hlabel, -⟩ | ⟨hlabel, -⟩)
        · rw [hkept]
          exact hsize hle hlabel
        · rcases hbegun with hnext | hnext
          · cases hnext.symm.trans hlabel
          · cases hnext.symm.trans hlabel
      · exact h.handed.weaken (by omega) hsame.1 hsame.2
  | brk continued t =>
      rw [hstep] at hflow
      rw [hflow] at hsame
      exact h.handed.weaken h.len hsame.1 hsame.2
  | abort e t =>
      rw [hstep, separator] at hflow
      dsimp only at hflow
      split at hflow
      · split at hflow
        · cases hflow
        · cases hflow
      · split at hflow
        · cases hflow
        · cases hflow

theorem chunk_inside (hctx : Holds ctx) {s : ChunkLocal}
    (h : Inside registered w ctx bodyLen .chunk s) :
    StaysIn registered w ctx bodyLen .separatorEnd (chunkStep registered w .chunk s) := by
  have hlast := h.last hctx
  have hindex := h.index
  have hlen := h.len
  have hwant : 0 ≤ wantOf s := by
    rw [wantOf]
    split
    · exact h.remain
    · rename_i hent
      exact h.size (Or.inl ⟨rfl, Bool.eq_false_iff.mpr hent⟩)
  by_cases hlt : s.len < wantOf s
  · -- the window ends within the chunk: all of it is handed over
    have hhanded : Handed w bodyLen s.len { s with
        ctx := { s.ctx with chunkTerminateState := .chunk,
                            chunkStateRemainByte := wantOf s - s.len } } :=
      h.handed.weaken (Int.le_refl _) rfl rfl
    obtain ⟨t, hdeliver, hgiven, -, -, -⟩ :=
      deliver_window registered { s with
        ctx := { s.ctx with chunkTerminateState := .chunk,
                            chunkStateRemainByte := wantOf s - s.len } }
        hhanded hindex hlast hlen (Int.le_refl _)
    have hflow : chunkStep registered w .chunk s = .brk true { t with len := 0 } := by
      show remainChunk registered w s = _
      rw [remainChunk_eq, if_pos hlt, hdeliver]
    rw [hflow]
    exact hgiven.weaken (by rw [Int.sub_self]) rfl rfl
  · have hhanded : Handed w bodyLen s.len { s with
        ctx := { s.ctx with chunkTerminateState := .chunk } } :=
      h.handed.weaken (Int.le_refl _) rfl rfl
    obtain ⟨t, hdeliver, hgiven, hindexT, hlenT, -⟩ :=
      deliver_window registered { s with ctx := { s.ctx with chunkTerminateState := .chunk } }
        hhanded hindex hlast hwant (Int.not_lt.mp hlt)
    have hremain := chunkStep_remain registered w .chunk h.remain
    have hflow : ∃ u, chunkStep registered w .chunk s = .go u ∧ u.index = t.index + wantOf s ∧
        u.len = t.len - wantOf s ∧ u.pieces = t.pieces ∧ u.bodyLen = t.bodyLen := by
      show ∃ u, remainChunk registered w s = .go u ∧ _
      rw [remainChunk_eq, if_neg hlt, hdeliver]
      dsimp only
      by_cases hent : t.entering = true
      · rw [if_pos hent]
        exact ⟨_, rfl, rfl, rfl, rfl, rfl⟩
      · rw [if_neg hent]
        exact ⟨_, rfl, rfl, rfl, rfl, rfl⟩
    obtain ⟨u, hflow, hindexU, hlenU, hpiecesU, hbodyU⟩ := hflow
    rw [hflow] at hremain ⊢
    rw [hindexT] at hindexU
    rw [hlenT] at hlenU
    have hindexS : 0 ≤ u.index := by
      rw [hindexU]
      exact Int.add_nonneg hindex hwant
    have hlenS : u.len = s.len - wantOf s := hlenU
    refine ⟨h.visits.go hflow, hindexS, by omega, hremain, by rintro ⟨⟩, ?_, ?_⟩
    · rintro (⟨hlabel, -⟩ | ⟨hlabel, -⟩)
      · cases hlabel
      · cases hlabel
    · exact hgiven.weaken (Int.le_of_eq hlenS) hpiecesU hbodyU

/-- **ONE LABEL** of a call whose window is safe keeps to the window. -/
theorem step_inside (hctx : Holds ctx) (hin : Within registered w ctx) {label : ChunkState}
    {s : ChunkLocal} (h : Inside registered w ctx bodyLen label s) :
    StaysIn registered w ctx bodyLen (ChunkState.next label)
      (chunkStep registered w label s) := by
  cases label with
  | sizeByte => exact size_inside hctx hin h
  | separatorMid =>
      exact separator_inside rfl h (Or.inr rfl) fun hneed _ => h.size (Or.inr ⟨rfl, hneed⟩)
  | chunk => exact chunk_inside hctx h
  | separatorEnd => exact separator_inside rfl h (Or.inl rfl) (by rintro _ ⟨⟩)

/-- **THE LOOP** keeps to the window, as long as it runs. -/
theorem loop_inside (hctx : Holds ctx) (hin : Within registered w ctx) :
    ∀ (fuel : Nat) (label : ChunkState) (s : ChunkLocal),
      Inside registered w ctx bodyLen label s →
      (chunkLoop registered w fuel label s).stop = .error .diverges ∨
        (∃ continued, (chunkLoop registered w fuel label s).stop = .ok continued) ∧
          Handed w bodyLen 0 (chunkLoop registered w fuel label s).s := by
  intro fuel
  induction fuel with
  | zero =>
      intro label s _
      exact Or.inl rfl
  | succ fuel ih =>
      intro label s h
      have hstep := step_inside hctx hin h
      rw [chunkLoop]
      cases hflow : chunkStep registered w label s with
      | go t =>
          rw [hflow] at hstep
          exact ih _ t hstep
      | brk continued t =>
          rw [hflow] at hstep
          exact Or.inr ⟨⟨continued, rfl⟩, hstep⟩
      | abort e t =>
          rw [hflow] at hstep
          exact hstep.elim

theorem field_kept (hctx : Holds ctx) {kept : Bytes} {i : Int}
    (h : Field registered w ctx kept i) : kept.length ≤ 4 := by
  cases h with
  | first hlabel => exact hctx.2
  | resumed hresumed => exact Nat.zero_le 4
  | next hfield hnext => exact Nat.zero_le 4

/-- **A CALL WITH A SAFE WINDOW AND NO OTHER MEMORY** comes back. -/
theorem call_inside (hctx : Holds ctx) (hremain : 0 ≤ ctx.chunkStateRemainByte)
    (hin : Within registered w ctx) (bodyLen : Int) :
    (∃ continued,
      (httpChunkedResponseBody registered w w.length (bare ctx) bodyLen).stop = .ok continued) ∧
      Handed w bodyLen 0 (httpChunkedResponseBody registered w w.length (bare ctx) bodyLen).s := by
  have hread : w.length ≠ 0 := fun h => hin.nonempty (List.eq_nil_of_length_eq_zero h)
  have hbare : Holds (bare ctx) := hctx
  have hlast : lastOf (enter w.length (bare ctx) bodyLen) = w.length :=
    lastOf_enter.trans (given_bare w ctx)
  have hstart : Inside registered w ctx bodyLen ctx.chunkTerminateState
      (enter w.length (bare ctx) bodyLen) := by
    have hindex : (enter w.length (bare ctx) bodyLen).index = 0 := rfl
    have hlen : (enter w.length (bare ctx) bodyLen).len = w.length := by
      rw [lastOf, hindex] at hlast
      omega
    refine ⟨.start hread, Int.le_of_eq hindex.symm, ?_, hremain, ?_, ?_, ?_⟩
    · rw [hlen]
      exact Int.natCast_nonneg _
    · intro hlabel _
      have hbegun := hin.begun hlabel
      have hkept : keptOf (enter w.length (bare ctx) bodyLen) =
          ctx.chunkSizeStr.takeWhile (· ≠ 0) := rfl
      rw [hlen, hkept]
      omega
    · rintro (⟨-, hent⟩ | ⟨hlabel, hneed⟩)
      · cases hent
      · refine hin.resumed hlabel ?_
        rw [hlen] at hneed
        exact hneed
    · refine ⟨by rintro _ ⟨⟩, ?_, ?_⟩
      · rw [hlen]
        exact Int.le_of_eq (Int.zero_add _)
      · rw [hlen]
        exact Int.le_refl _
  have hfalls : ∀ s t, Visits registered w w.length (bare ctx) bodyLen .sizeByte s →
      fullPass registered w s = some t → t.len < s.len := by
    refine (falls_iff hbare).mpr fun _ kept i text hfield htext hle => ?_
    rw [given_bare] at hfield hle
    have hfieldW : Field registered w ctx kept i := hfield
    have hkept := field_kept hctx hfieldW
    have hsize := hin.size kept i text hfieldW htext hle
    omega
  have hends : (httpChunkedResponseBody registered w w.length (bare ctx) bodyLen).stop ≠
      .error .diverges := call_ends hbare hfalls
  rw [body_call hread] at hends ⊢
  rcases loop_inside hctx hin _ _ _ hstart with hstop | hback
  · exact absurd hstop hends
  · exact hback

end Inside

/-! ## Every call of a run -/

section Runs

variable {registered : Bool} {p : Progress} {a : Arrival}

/-- Where a response stands between two calls. -/
structure Going (p : Progress) : Prop where
  reachable : Reachable p.ctx
  sound : Sound p
  front : p.first = false → p.ctx.remainDataIndex = 0 ∧ p.ctx.remainDataLen = 0

/-- The decoder is given what has come, if something has. -/
theorem given_window (hgoing : Going p) (harrives : Arrives p a) (hsome : p.window a ≠ []) :
    given a.readLen p.ctx = (p.window a).length ∧
      p.ctx.remainDataIndex + (p.window a).length ≤ a.buffer.length := by
  have hfits := harrives.fits
  have hlen : (p.window a).length = min (if p.first then p.ctx.remainDataLen else a.readLen)
      (a.buffer.length - p.ctx.remainDataIndex) := by
    rw [Progress.window, List.length_take, List.length_drop]
  have hpos : (p.window a).length ≠ 0 := fun h => hsome (List.eq_nil_of_length_eq_zero h)
  cases hfirst : p.first with
  | true =>
      have hhead := harrives.head hfirst
      rw [hfirst, if_pos rfl] at hlen
      rw [given, if_pos (by omega)]
      omega
  | false =>
      obtain ⟨hindex, hzero⟩ := hgoing.front hfirst
      rw [hfirst, if_neg (by decide), hindex] at hlen
      rw [given, hzero, if_neg (by decide), hindex]
      omega

/-- The buffer is the window with older bytes around it. -/
theorem around_window (p : Progress) {a : Arrival} (h : p.ctx.remainDataIndex ≤ a.buffer.length) :
    ∃ pre post, a.buffer = pre ++ (p.window a ++ post) ∧ pre.length = p.ctx.remainDataIndex := by
  refine ⟨a.buffer.take p.ctx.remainDataIndex, (a.buffer.drop p.ctx.remainDataIndex).drop
    (if p.first then p.ctx.remainDataLen else a.readLen), ?_, ?_⟩
  · rw [Progress.window, List.take_append_drop, List.take_append_drop]
  · rw [List.length_take]
    exact Nat.min_eq_left h

/-- **THE SAME CALL ELSEWHERE**: with the window as its only memory a call does what
    it does in the buffer. -/
theorem run_alone {continued : Bool} (hgoing : Going p) (harrives : Arrives p a)
    (hcame : a.readLen ≠ 0) (hsome : p.window a ≠ []) (hstop : (p.alone registered a).stop = .ok continued) :
    p.run registered a =
      { stop := .ok continued, s := shift p.ctx.remainDataIndex (p.alone registered a).s } := by
  obtain ⟨hgiven, hroom⟩ := given_window hgoing harrives hsome
  have hread : (p.window a).length ≠ 0 := fun h => hsome (List.eq_nil_of_length_eq_zero h)
  have henter : enter a.readLen p.ctx p.bodyLen =
      shift p.ctx.remainDataIndex (enter (p.window a).length (bare p.ctx) p.bodyLen) := by
    have hlen : (if p.ctx.remainDataLen ≠ 0 then (p.ctx.remainDataLen : Int) else a.readLen) =
        (p.window a).length := by
      rw [← hgiven, given]
      split
      · rfl
      · rfl
    have hindex : (p.ctx.remainDataIndex : Int) = 0 + p.ctx.remainDataIndex := by omega
    rw [enter, hlen, hindex]
    rfl
  obtain ⟨pre, post, hbuffer, hpre⟩ := around_window p (a := a) (by omega)
  have hfuel : chunkFuel (p.window a) ≤ chunkFuel a.buffer := by
    rw [chunkFuel, chunkFuel]
    omega
  rw [Progress.alone, body_call hread] at hstop
  rw [Progress.run, Progress.alone, body_call hcame, body_call hread, henter, ← hpre]
  have hloop := chunkLoop_shift pre post hstop hfuel
  rw [← hbuffer] at hloop
  exact hloop

/-- A call with nothing looks at nothing. -/
theorem call_empty (hgoing : Going p) (harrives : Arrives p a) (hnone : a.readLen = 0) :
    Confined registered p a ∧ p.window a = [] ∧ (p.run registered a).s.ctx = p.ctx ∧
      (p.run registered a).s.pieces = [] ∧ (p.run registered a).s.bodyLen = p.bodyLen ∧
        p.ctx.remainDataIndex = 0 ∧ p.ctx.remainDataLen = 0 := by
  have hfront : p.ctx.remainDataIndex = 0 ∧ p.ctx.remainDataLen = 0 := by
    cases hfirst : p.first with
    | true =>
        have hhead := harrives.head hfirst
        omega
    | false => exact hgoing.front hfirst
  have hwindow : p.window a = [] := by
    rw [Progress.window, hfront.2, hnone, ite_self, List.take_zero]
  have hbare : bare p.ctx = p.ctx := by
    obtain ⟨hindex, hlen⟩ := hfront
    cases hctx : p.ctx
    rw [hctx] at hindex hlen
    dsimp only at hindex hlen
    rw [bare, hindex, hlen]
  have hrun : p.run registered a = p.alone registered a := by
    rw [Progress.run, Progress.alone, hnone, hwindow, hbare, List.length_nil,
      httpChunkedResponseBody, httpChunkedResponseBody, if_pos rfl, if_pos rfl]
  have hstop : p.run registered a = _ := if_pos hnone
  refine ⟨⟨⟨false, ?_⟩, ?_, ?_, ?_, ?_, ?_⟩, hwindow, ?_, ?_, ?_, hfront⟩
  · rw [← hrun, hstop]
  · rw [hrun]
  · rw [hrun]
  · rw [hrun]
  · rw [hrun]
  · rw [hstop]
    intro q hq
    cases hq
  · rw [hstop]
  · rw [hstop]
  · rw [hstop]

/-- **A CALL WHOSE WINDOW IS SAFE** keeps to it. -/
theorem call_confined (hgoing : Going p) (harrives : Arrives p a) (hcame : a.readLen ≠ 0)
    (hin : Within registered (p.window a) p.ctx) :
    Confined registered p a ∧ Handed (p.window a) p.bodyLen 0 (p.run registered a).s := by
  obtain ⟨⟨continued, hstop⟩, hhanded⟩ := call_inside hgoing.reachable.holds hgoing.sound.remain
    hin p.bodyLen
  have hrun := run_alone hgoing harrives hcame hin.nonempty hstop
  have hsame : Handed (p.window a) p.bodyLen 0 (p.run registered a).s := by
    rw [hrun]
    exact hhanded.weaken (Int.le_refl _) rfl rfl
  refine ⟨⟨⟨continued, hstop⟩, ?_, ?_, ?_, ?_, hsame.pieces⟩, hsame⟩
  · rw [hrun]
    exact hstop.symm
  · rw [hrun]
    rfl
  · rw [hrun]
    rfl
  · rw [hrun]
    rfl

/-- **A CALL THAT BRINGS BYTES** goes on from one place to the next. -/
theorem going_after (hgoing : Going p) (harrives : Arrives p a) (hcame : a.readLen ≠ 0)
    (hin : Within registered (p.window a) p.ctx) : Going (p.after registered a) := by
  obtain ⟨hconfined, hhanded⟩ := call_confined hgoing harrives hcame hin
  obtain ⟨continued, hcomes⟩ := hconfined.comes
  have hstop := hconfined.stop.trans hcomes
  have hreach : Reachable (p.after registered a).ctx :=
    .call registered _ _ _ hgoing.reachable hstop
  have htotal := hhanded.total
  have hbodyLen := hhanded.bodyLen
  have hsound := hgoing.sound
  have hreceived : ((p.after registered a).received : Int) =
      p.received + (p.window a).length := Nat.cast_add _ _
  refine ⟨hreach, ⟨reachable_remain hreach, ?_, ?_⟩, fun _ => ?_⟩
  · have hbefore := hsound.total
    rw [hreceived]
    show ((p.pieces ++ (p.run registered a).s.pieces).map Piece.len).sum ≤ _
    rw [List.map_append, List.sum_append]
    omega
  · have hbefore := hsound.bodyLen
    rw [hreceived]
    show (p.run registered a).s.bodyLen ≤ _
    omega
  · show (p.run registered a).s.ctx.remainDataIndex = 0 ∧
      (p.run registered a).s.ctx.remainDataLen = 0
    rw [Progress.run, body_call hcame]
    refine chunkLoop_keeps (fun ctx => ctx.remainDataIndex = 0 ∧ ctx.remainDataLen = 0) ?_ _ _ _
      ⟨rfl, rfl⟩
    intro label s h
    obtain ⟨hindex, hlen⟩ := chunkStep_bare registered a.buffer label s
    exact ⟨hindex.trans h.1, hlen.trans h.2⟩

/-- One that brings nothing stays where it is. -/
theorem going_empty (hgoing : Going p) (harrives : Arrives p a) (hnone : a.readLen = 0) :
    Going (p.after registered a) := by
  obtain ⟨-, hwindow, hctx, hpieces, hbodyLen, hfront⟩ :=
    @call_empty registered p a hgoing harrives hnone
  have hreceived : (p.after registered a).received = p.received := by
    rw [Progress.after, hwindow]
    rfl
  have hsame : (p.after registered a).ctx = p.ctx := hctx
  have htold : (p.after registered a).pieces = p.pieces := by
    rw [Progress.after, hpieces, List.append_nil]
  have hcount : (p.after registered a).bodyLen = p.bodyLen := hbodyLen
  have hsound := hgoing.sound
  refine ⟨hsame ▸ hgoing.reachable, ⟨?_, ?_, ?_⟩, fun _ => hsame ▸ hfront⟩
  · rw [hsame]
    exact hsound.remain
  · rw [htold, hreceived]
    exact hsound.total
  · rw [hcount, hreceived]
    exact hsound.bodyLen

theorem Begun.going {p : Progress} (h : Begun p) : Going p := by
  refine ⟨h.reachable, ⟨reachable_remain h.reachable, ?_, ?_⟩, fun hfirst => ?_⟩
  · rw [h.pieces, h.received]
    exact Int.le_refl 0
  · rw [h.bodyLen, h.received]
    exact Int.le_refl 0
  · cases h.first.symm.trans hfirst

/-- **WHERE A RUN OF SAFE WINDOWS COMES**, by induction on its calls. -/
theorem run_going {p q : Progress} (hp : Going p)
    (hrun : Relation.ReflTransGen (SafeCall registered) p q) : Going q := by
  induction hrun with
  | refl => exact hp
  | tail hrest hcall ih =>
      obtain ⟨a, harrives, hsafe, rfl⟩ := hcall
      by_cases hnone : a.readLen = 0
      · exact going_empty ih harrives hnone
      · exact going_after ih harrives hnone (hsafe.resolve_left hnone)

end Runs

/-- **THE DECODER KEEPS TO WHAT IT WAS GIVEN**, in every run of calls whose windows are
    safe: in every state reached no label waits for fewer bytes than none and no more
    was handed over than received, and every further call whose window is safe, or that
    brings nothing, keeps to its window. -/
theorem confined {registered : Bool} {p q : Progress} (hbegun : Begun p)
    (hrun : Relation.ReflTransGen (SafeCall registered) p q) :
    Sound q ∧ ∀ a, Arrives q a → Safe registered q a → Confined registered q a := by
  have hgoing := run_going hbegun.going hrun
  refine ⟨hgoing.sound, fun a harrives hsafe => ?_⟩
  by_cases hnone : a.readLen = 0
  · exact (call_empty hgoing harrives hnone).1
  · exact (call_confined hgoing harrives hnone (hsafe.resolve_left hnone)).1

/-- A response of which the first `n` bytes of the buffer have come. -/
def firstBytes (n : Nat) : Progress :=
  { ctx := { HttpResponseContext.zero with remainDataLen := n }, bodyLen := 0, pieces := [],
    received := 0, first := true }

theorem firstBytes_begun (n : Nat) : Begun (firstBytes n) :=
  ⟨.between .hrFirstLine 0 n .zero, rfl, rfl, rfl, rfl⟩

/-- The coding of one byte in one window. -/
theorem confined_oneByte :
    Sound ((firstBytes 14).after true { buffer := oneByteText, readLen := 14 }) := by
  have harrives : Arrives (firstBytes 14) { buffer := oneByteText, readLen := 14 } :=
    ⟨by decide +kernel, fun _ => by decide⟩
  have hwindow : (firstBytes 14).window { buffer := oneByteText, readLen := 14 } = oneByteText := by
    decide +kernel
  have hlen : (oneByteText.length : Int) = 14 := by decide +kernel
  have hin : Within true ((firstBytes 14).window { buffer := oneByteText, readLen := 14 })
      (firstBytes 14).ctx := by
    rw [hwindow]
    refine ⟨by decide +kernel, fun _ => by decide +kernel, fun i hfield => ?_,
      fun kept i text hfield htext _ => ?_, by rintro ⟨⟩⟩
    · rw [Field, hlen] at hfield
      obtain ⟨-, rfl | rfl⟩ := oneByteText_fields hfield
      · decide +kernel
      · decide +kernel
    · rw [Field, hlen] at hfield
      exact oneByteText_size hfield htext
  exact (confined (firstBytes_begun 14) (.single ⟨_, harrives, Or.inr hin, rfl⟩)).1

/-- One byte of the body has come with the head: four are copied. -/
theorem oneByte_not_confined : ¬ ∀ registered p q, Begun p →
    Relation.ReflTransGen (Call registered) p q →
    Sound q ∧ ∀ a, Arrives q a → Confined registered q a := by
  intro hall
  have harrives : Arrives (firstBytes 1) { buffer := lit "5old", readLen := 1 } :=
    ⟨by decide +kernel, fun _ => by decide⟩
  have hconfined := (hall true _ _ (firstBytes_begun 1) .refl).2 _ harrives
  have hout : ((firstBytes 1).alone true { buffer := lit "5old", readLen := 1 }).stop =
      .error .outOfBounds := by decide +kernel
  obtain ⟨continued, hcomes⟩ := hconfined.comes
  cases hout.symm.trans hcomes

end ChunkConfinement
