import Hftp.ChunkedWindowProofs
import Hftp.LeftoverProofs

/-! # Whether the decoder comes to an end

    A full pass of the decoder takes the size field, two bytes, as many bytes as the
    field says, and two more.  The field is whatever `strtol` makes of four bytes
    that the server sent: `-008` is minus eight, and the pass ends where it began.

    The bytes that were received say where the size fields stand, field after field,
    and a call comes to an end exactly if each of them sends it forward. -/

namespace ChunkTermination

open CBytes HttpCore HttpChunked ChunkedWindow Leftover

/-! ## Passes -/

/-- Go on if the label was left for the next one. -/
def onward (k : ChunkLocal → Option ChunkLocal) : Flow → Option ChunkLocal
  | .go s => k s
  | .brk _ _ => none
  | .abort _ _ => none

section Passes

variable (registered : Bool) (buffer : Bytes)

def fromSeparatorEnd (s : ChunkLocal) : Option ChunkLocal :=
  onward some (chunkStep registered buffer .separatorEnd s)

def fromChunk (s : ChunkLocal) : Option ChunkLocal :=
  onward (fromSeparatorEnd registered buffer) (chunkStep registered buffer .chunk s)

def fromSeparatorMid (s : ChunkLocal) : Option ChunkLocal :=
  onward (fromChunk registered buffer) (chunkStep registered buffer .separatorMid s)

/-- **A FULL PASS**, from `remain_size_byte` to `remain_separator_end`, if there is
    one. -/
def fullPass (s : ChunkLocal) : Option ChunkLocal :=
  onward (fromSeparatorMid registered buffer) (chunkStep registered buffer .sizeByte s)

/-- What is left of a pass at a label. -/
def restOfPass : ChunkState → ChunkLocal → Option ChunkLocal
  | .sizeByte => fullPass registered buffer
  | .separatorMid => fromSeparatorMid registered buffer
  | .chunk => fromChunk registered buffer
  | .separatorEnd => fromSeparatorEnd registered buffer

variable (readLen : Nat) (ctx : HttpResponseContext) (bodyLen : Int)

/-- The labels a call comes to, with the locals it has there. -/
inductive Visits : ChunkState → ChunkLocal → Prop where
  | start (hread : readLen ≠ 0) : Visits ctx.chunkTerminateState (enter readLen ctx bodyLen)
  | go {label : ChunkState} {s t : ChunkLocal} (h : Visits label s)
      (hgo : chunkStep registered buffer label s = .go t) : Visits (ChunkState.next label) t

/-- **A CALL COMES TO AN END**: its loop does, and every full pass on the way leaves
    fewer bytes unread. -/
structure Terminates : Prop where
  ends : (httpChunkedResponseBody registered buffer readLen ctx bodyLen).stop ≠ .error .diverges
  falls : ∀ s t, Visits registered buffer readLen ctx bodyLen .sizeByte s →
    fullPass registered buffer s = some t → t.len < s.len

end Passes

/-- The contexts that calls of the decoder leave behind, whatever the rest of the code
    does to the other fields between them. -/
inductive Reachable : HttpResponseContext → Prop where
  | zero : Reachable .zero
  | between {ctx : HttpResponseContext} (state : ParseState) (index len : Nat)
      (h : Reachable ctx) :
      Reachable { ctx with state := state, remainDataIndex := index, remainDataLen := len }
  | head {ctx : HttpResponseContext} (h : Reachable ctx) :
      Reachable { ctx with chunkTerminateState := .sizeByte }
  | call {ctx : HttpResponseContext} {continued : Bool} (registered : Bool) (buffer : Bytes)
      (readLen : Nat) (bodyLen : Int) (h : Reachable ctx)
      (hstop : (httpChunkedResponseBody registered buffer readLen ctx bodyLen).stop =
        .ok continued) :
      Reachable (httpChunkedResponseBody registered buffer readLen ctx bodyLen).s.ctx

/-! ## Where the size fields stand -/

/-- What `strtol` makes of a size field. -/
def fieldSize (text : Bytes) : Int := toInt (strtol 16 (text.takeWhile (· ≠ 0)))

/-- The four characters of the size field at `i`, the first of which may have been
    `kept` from earlier reads; nothing if the buffer ends before, or if they begin
    the terminating chunk. -/
def readField (buffer kept : Bytes) (i : Int) : Option Bytes :=
  match slice buffer i (4 - kept.length) with
  | .ok d => if (kept ++ d).take 3 = [48, cr, lf] then none else some (kept ++ d)
  | .error _ => none

/-- The field behind a chunk of `size` bytes at `data` and its separator, if the bytes
    up to `last` hold them. -/
def behindChunk (registered : Bool) (buffer : Bytes) (last data size : Int) : Option Int :=
  if (registered = true → (slice buffer data size.toNat).isOk = true) ∧ data + size + 2 ≤ last then
    some (data + size + 2)
  else none

/-- Where the chunk of the field at `i` stands. -/
def chunkAt (kept : Bytes) (i : Int) : Int := i + (4 - kept.length : Nat) + 2

/-- The field behind the one at `i`. -/
def nextField (registered : Bool) (buffer : Bytes) (last : Int) (kept : Bytes) (i : Int) :
    Option Int :=
  match readField buffer kept i with
  | none => none
  | some text =>
      if chunkAt kept i ≤ last then
        behindChunk registered buffer last (chunkAt kept i) (fieldSize text)
      else none

/-- The field behind what an earlier call left of its pass. -/
def resumedField (registered : Bool) (buffer : Bytes) (ctx : HttpResponseContext)
    (i last : Int) : Option Int :=
  match ctx.chunkTerminateState with
  | .sizeByte => none
  | .separatorMid =>
      if i + ctx.chunkStateRemainByte ≤ last then
        behindChunk registered buffer last (i + ctx.chunkStateRemainByte) ctx.chunkSize
      else none
  | .chunk => behindChunk registered buffer last i ctx.chunkStateRemainByte
  | .separatorEnd =>
      if i + ctx.chunkStateRemainByte ≤ last then some (i + ctx.chunkStateRemainByte) else none

/-- **THE SIZE FIELDS** of the bytes from `start` to `last`, as the bytes themselves
    say where they stand. -/
inductive FieldAt (registered : Bool) (buffer : Bytes) (ctx : HttpResponseContext)
    (start last : Int) : Bytes → Int → Prop where
  | first (h : ctx.chunkTerminateState = .sizeByte) :
      FieldAt registered buffer ctx start last (ctx.chunkSizeStr.takeWhile (· ≠ 0)) start
  | resumed {i : Int} (h : resumedField registered buffer ctx start last = some i) :
      FieldAt registered buffer ctx start last [] i
  | next {kept : Bytes} {i j : Int} (h : FieldAt registered buffer ctx start last kept i)
      (hnext : nextField registered buffer last kept i = some j) :
      FieldAt registered buffer ctx start last [] j

/-- How many bytes a call is given: what the head parser left, or all that was read. -/
def given (readLen : Nat) (ctx : HttpResponseContext) : Nat :=
  if ctx.remainDataLen ≠ 0 then ctx.remainDataLen else readLen

/-- **EVERY SIZE FIELD SENDS THE DECODER FORWARD**, if it is there with its separator:
    the size is more than minus the eight bytes around the chunk, less what was kept
    of the field. -/
def Forward (registered : Bool) (buffer : Bytes) (readLen : Nat) (ctx : HttpResponseContext) :
    Prop :=
  readLen ≠ 0 → ∀ kept i text,
    FieldAt registered buffer ctx ctx.remainDataIndex (ctx.remainDataIndex + given readLen ctx)
      kept i →
    readField buffer kept i = some text →
    chunkAt kept i ≤ ctx.remainDataIndex + given readLen ctx →
    (kept.length : Int) - 8 < fieldSize text

/-! ## One label -/

/-- The bytes of a size field that are there already. -/
def keptOf (s : ChunkLocal) : Bytes :=
  if s.entering then s.ctx.chunkSizeStr.takeWhile (· ≠ 0) else []

/-- Where the bytes of a call end. -/
def lastOf (s : ChunkLocal) : Int := s.index + s.len

/-- The bytes a separator waits for. -/
def needOf (s : ChunkLocal) : Int := if s.entering then s.ctx.chunkStateRemainByte else 2

/-- The bytes a chunk waits for. -/
def wantOf (s : ChunkLocal) : Int :=
  if s.entering then s.ctx.chunkStateRemainByte else s.ctx.chunkSize

/-- What a label that was left for the next one has done. -/
structure Moved (n : Int) (s t : ChunkLocal) : Prop where
  index : t.index = s.index + n
  len : t.len = s.len - n
  entering : t.entering = false

theorem Moved.last {n : Int} {s t : ChunkLocal} (h : Moved n s t) : lastOf t = lastOf s := by
  rw [lastOf, lastOf, h.index, h.len]
  omega

/-- When a label is left for the next one, `n` bytes further on. -/
structure Leaves (flow : Flow) (cond : Prop) (n size : Int) (s : ChunkLocal) : Prop where
  go : cond → ∃ t, flow = .go t ∧ Moved n s t ∧ t.ctx.chunkSize = size
  only : ∀ t, flow = .go t → cond

theorem Leaves.moved {flow : Flow} {cond : Prop} {n size : Int} {s t : ChunkLocal}
    (h : Leaves flow cond n size s) (hgo : flow = .go t) :
    Moved n s t ∧ t.ctx.chunkSize = size := by
  obtain ⟨t', hgo', hmoved, hsize⟩ := h.go (h.only t hgo)
  have heq : t' = t := Flow.go.inj (hgo'.symm.trans hgo)
  rw [← heq]
  exact ⟨hmoved, hsize⟩

theorem Leaves.none {flow : Flow} {cond : Prop} {n size : Int} {s : ChunkLocal}
    (h : Leaves flow cond n size s) (hnot : ¬ cond) (k : ChunkLocal → Option ChunkLocal) :
    onward k flow = .none := by
  cases hflow : flow with
  | go t => exact absurd (h.only t hflow) hnot
  | brk continued t => rfl
  | abort e t => rfl

/-- A separator is left as soon as all its bytes are there. -/
theorem separator_leaves (label : ChunkState) (s : ChunkLocal) :
    Leaves (separator label s) (needOf s ≤ s.len) (needOf s) s.ctx.chunkSize s := by
  rw [separator, needOf]
  cases he : s.entering with
  | true =>
      simp only [if_true, gt_iff_lt]
      constructor
      · intro hle
        rw [if_neg (Int.not_lt.mpr hle)]
        exact ⟨_, rfl, ⟨rfl, rfl, rfl⟩, rfl⟩
      · intro t h
        by_contra hgt
        rw [if_pos (Int.not_le.mp hgt)] at h
        cases h
  | false =>
      simp only [Bool.false_eq_true, if_false]
      constructor
      · intro hle
        rw [if_neg (Int.not_lt.mpr hle)]
        exact ⟨_, rfl, ⟨rfl, rfl, rfl⟩, rfl⟩
      · intro t h
        by_contra hgt
        rw [if_pos (Int.not_le.mp hgt)] at h
        cases h

/-- The chunk label, once it is known what it waits for. -/
theorem remainChunk_eq (registered : Bool) (buffer : Bytes) (s : ChunkLocal) :
    remainChunk registered buffer s =
      if s.len < wantOf s then
        match deliver registered buffer s.len { s with
            ctx := { s.ctx with chunkTerminateState := .chunk,
                                chunkStateRemainByte := wantOf s - s.len } } with
        | .error e => .abort e { s with
            ctx := { s.ctx with chunkTerminateState := .chunk,
                                chunkStateRemainByte := wantOf s - s.len } }
        | .ok t => .brk true { t with len := 0 }
      else
        match deliver registered buffer (wantOf s) { s with
            ctx := { s.ctx with chunkTerminateState := .chunk } } with
        | .error e => .abort e { s with ctx := { s.ctx with chunkTerminateState := .chunk } }
        | .ok t =>
            if t.entering = true then
              .go { t with ctx := { t.ctx with chunkStateRemainByte := 0 },
                           len := t.len - wantOf s, index := t.index + wantOf s,
                           entering := false }
            else .go { t with len := t.len - wantOf s, index := t.index + wantOf s } := rfl

/-- A chunk is left as soon as all its bytes are there and could be shown. -/
theorem chunk_leaves (registered : Bool) (buffer : Bytes) (s : ChunkLocal) :
    Leaves (remainChunk registered buffer s)
      ((registered = true → (slice buffer s.index (wantOf s).toNat).isOk = true) ∧
        wantOf s ≤ s.len) (wantOf s) s.ctx.chunkSize s := by
  rw [remainChunk_eq]
  constructor
  · rintro ⟨hshown, hle⟩
    rw [if_neg (Int.not_lt.mpr hle), deliver]
    cases registered with
    | false =>
        dsimp only
        cases he : s.entering with
        | true => exact ⟨_, rfl, ⟨rfl, rfl, rfl⟩, rfl⟩
        | false => exact ⟨_, rfl, ⟨rfl, rfl, rfl⟩, rfl⟩
    | true =>
        have hok := hshown rfl
        cases hslice : slice buffer s.index (wantOf s).toNat with
        | error e =>
            rw [hslice] at hok
            cases hok
        | ok d =>
            dsimp only
            cases he : s.entering with
            | true => exact ⟨_, rfl, ⟨rfl, rfl, rfl⟩, rfl⟩
            | false => exact ⟨_, rfl, ⟨rfl, rfl, rfl⟩, rfl⟩
  · intro t h
    by_cases hlt : s.len < wantOf s
    · -- a chunk that is cut short is never left for the next label
      rw [if_pos hlt] at h
      cases hd : deliver registered buffer s.len { s with
          ctx := { s.ctx with chunkTerminateState := .chunk,
                              chunkStateRemainByte := wantOf s - s.len } } with
      | error _ | ok _ =>
          rw [hd] at h
          cases h
    · rw [if_neg hlt, deliver] at h
      refine ⟨?_, Int.not_lt.mp hlt⟩
      rintro rfl
      cases hslice : slice buffer s.index (wantOf s).toNat with
      | error e =>
          rw [if_pos rfl, hslice] at h
          cases h
      | ok d => rfl

theorem slice_byteAt {buffer d : Bytes} {i : Int} {n k : Nat} {b : Byte}
    (h : slice buffer i n = .ok d) (hb : d[k]? = some b) : byteAt buffer (i + k) = .ok b := by
  rw [slice] at h
  split_ifs at h with hzero hfits
  · rw [← Except.ok.inj h] at hb
    cases hb
  · rw [← Except.ok.inj h] at hb
    obtain ⟨hk, -⟩ := List.getElem?_eq_some_iff.mp hb
    rw [List.length_take] at hk
    rw [List.getElem?_take_of_lt (by omega), List.getElem?_drop] at hb
    have hidx : (i + k).toNat = i.toNat + k := by omega
    rw [byteAt, if_pos (by omega), hidx, hb]

/-- The look-ahead finds what the size field begins with. -/
theorem looksEnd_slice {buffer d : Bytes} {i : Int} (h : slice buffer i 4 = .ok d) :
    looksEnd buffer i = .ok (decide (d.take 3 = [48, cr, lf])) := by
  have hlen := slice_length h
  obtain ⟨a, d, rfl⟩ := List.exists_cons_of_length_eq_add_one hlen
  obtain ⟨b, c, e, rfl⟩ := List.length_eq_three.mp (Nat.succ.inj hlen)
  have ha : byteAt buffer i = .ok a := by
    have hbyte := slice_byteAt h (k := 0) rfl
    rw [Nat.cast_zero, Int.add_zero] at hbyte
    exact hbyte
  have hb : byteAt buffer (i + 1) = .ok b := slice_byteAt h (k := 1) rfl
  have hc : byteAt buffer (i + 2) = .ok c := slice_byteAt h (k := 2) rfl
  rw [looksEnd, ha]
  simp only [bind, Except.bind, hb, hc, pure, Except.pure, List.take_succ_cons, List.take_zero,
    List.cons.injEq, and_true]
  by_cases h1 : a = 48
  · rw [if_pos h1]
    by_cases h2 : b = cr
    · rw [if_pos h2]
      simp [h1, h2]
    · rw [if_neg h2]
      simp [h2]
  · rw [if_neg h1]
    simp [h1]

/-- What is copied fills the field up. -/
theorem slice_fills {buffer str d : Bytes} {i : Int} (hkept : (str.takeWhile (· ≠ 0)).length ≤ 4)
    (h : slice buffer i (4 - strlen str) = .ok d) : strlen str + d.length = 4 := by
  rw [slice_length h]
  exact Nat.add_sub_cancel' hkept

/-- What was kept, followed by what is new: four characters, whatever lies behind. -/
theorem text_four {str d : Bytes} (hlen : strlen str + d.length = 4) :
    (str.take (strlen str) ++ d ++ str.drop 4).take 3 = (str.takeWhile (· ≠ 0) ++ d).take 3 ∧
      ((str.take (strlen str) ++ d ++ str.drop 4).set 4 0).takeWhile (· ≠ 0) =
        (str.takeWhile (· ≠ 0) ++ d).takeWhile (· ≠ 0) := by
  have hfour : (str.takeWhile (· ≠ 0) ++ d).length = 4 := by
    rw [List.length_append]
    exact hlen
  rw [take_strlen]
  constructor
  · exact List.take_append_of_le_length (by omega)
  · rw [text_set_four _ (Nat.le_of_eq hfour.symm), List.take_of_length_le (Nat.le_of_eq hfour)]

/-- A size field that cannot be read whole is not left for the separator. -/
theorem size_none {buffer : Bytes} {s : ChunkLocal} (hkept : (keptOf s).length ≤ 4)
    (hread : readField buffer (keptOf s) s.index = none) (t : ChunkLocal) :
    remainSizeByte buffer s ≠ .go t := by
  intro h
  rw [readField] at hread
  rw [keptOf] at hread hkept
  rw [remainSizeByte] at h
  cases he : s.entering with
  | true =>
      -- the field goes on behind what an earlier call has kept
      simp only [he, if_true] at h hread hkept
      cases hslice : slice buffer s.index (4 - strlen s.ctx.chunkSizeStr) with
      | error e =>
          rw [hslice] at h
          cases h
      | ok d =>
          have hsum := slice_fills hkept hslice
          rw [← strlen, hslice] at hread
          rw [hslice] at h
          dsimp only at h hread
          rw [(text_four hsum).1] at h
          by_cases hend : (s.ctx.chunkSizeStr.takeWhile (· ≠ 0) ++ d).take 3 = [48, cr, lf]
          · rw [if_pos hend] at h
            split at h
            · cases h
            · cases h
          · rw [if_neg hend] at hread
            cases hread
  | false =>
      -- the field begins here, and with fewer than four bytes the call waits
      simp only [he, Bool.false_eq_true, if_false] at h hread
      cases hslice : slice buffer s.index 4 with
      | error e =>
          cases hlook : looksEnd buffer s.index with
          | error e' =>
              rw [hlook] at h
              cases h
          | ok found =>
              rw [hlook] at h
              cases found with
              | true => cases h
              | false =>
                  dsimp only at h
                  by_cases hlt : s.len < 4
                  · rw [if_pos hlt] at h
                    cases hfew : slice buffer s.index s.len.toNat with
                    | error _ | ok _ =>
                        rw [hfew] at h
                        cases h
                  · rw [if_neg hlt, hslice] at h
                    cases h
      | ok d =>
          have hend : d.take 3 = [48, cr, lf] := by
            by_contra hnot
            rw [List.length_nil, Nat.sub_zero, hslice] at hread
            dsimp only at hread
            rw [List.nil_append, if_neg hnot] at hread
            cases hread
          rw [looksEnd_slice hslice, decide_eq_true hend] at h
          cases h

/-- A size field is left as soon as what is missing of it was received. -/
theorem size_leaves {buffer text : Bytes} {s : ChunkLocal} (hkept : (keptOf s).length ≤ 4)
    (hread : readField buffer (keptOf s) s.index = some text) :
    Leaves (remainSizeByte buffer s) ((4 - (keptOf s).length : Nat) ≤ s.len)
      (4 - (keptOf s).length : Nat) (fieldSize text) s := by
  rw [readField] at hread
  rw [keptOf] at hread hkept ⊢
  rw [remainSizeByte]
  cases he : s.entering with
  | true =>
      -- the field goes on behind what an earlier call has kept
      simp only [he, if_true] at hread hkept ⊢
      rw [← strlen] at hread hkept ⊢
      cases hslice : slice buffer s.index (4 - strlen s.ctx.chunkSizeStr) with
      | error e =>
          rw [hslice] at hread
          cases hread
      | ok d =>
          have hsum := slice_fills hkept hslice
          rw [hslice] at hread
          dsimp only at hread ⊢
          by_cases hend : (s.ctx.chunkSizeStr.takeWhile (· ≠ 0) ++ d).take 3 = [48, cr, lf]
          · rw [if_pos hend] at hread
            cases hread
          · rw [if_neg hend] at hread
            rw [(text_four hsum).1, if_neg hend]
            constructor
            · intro hle
              rw [if_neg (by omega), parseSize, (text_four hsum).2, Option.some.inj hread]
              exact ⟨_, rfl, ⟨rfl, rfl, rfl⟩, rfl⟩
            · intro t h
              by_contra hgt
              rw [if_pos (by omega)] at h
              cases h
  | false =>
      -- the field begins here: the look-ahead has not found the end
      simp only [he, Bool.false_eq_true, if_false, List.length_nil, Nat.sub_zero] at hread ⊢
      cases hslice : slice buffer s.index 4 with
      | error e =>
          rw [hslice] at hread
          cases hread
      | ok d =>
          rw [hslice] at hread
          dsimp only at hread
          rw [List.nil_append] at hread
          by_cases hend : d.take 3 = [48, cr, lf]
          · rw [if_pos hend] at hread
            cases hread
          · rw [if_neg hend] at hread
            have htext : (d ++ [0]).takeWhile (· ≠ 0) = text.takeWhile (· ≠ 0) := by
              rw [← Option.some.inj hread]
              exact text_nul d []
            rw [looksEnd_slice hslice, decide_eq_false hend]
            dsimp only
            constructor
            · intro hle
              rw [if_neg (by omega), parseSize, htext]
              exact ⟨_, rfl, ⟨rfl, rfl, rfl⟩, rfl⟩
            · intro t h
              by_contra hgt
              rw [if_pos (by omega)] at h
              cases hfew : slice buffer s.index s.len.toNat with
              | error _ | ok _ =>
                  rw [hfew] at h
                  cases h

/-! ## A pass -/

section Passes

variable (registered : Bool) (buffer : Bytes)

theorem fromSeparatorEnd_index (s : ChunkLocal) :
    (fromSeparatorEnd registered buffer s).map ChunkLocal.index =
      if needOf s ≤ s.len then some (s.index + needOf s) else none := by
  have hleaves := separator_leaves .separatorEnd s
  rw [fromSeparatorEnd, chunkStep, remainSeparatorEnd]
  by_cases hle : needOf s ≤ s.len
  · obtain ⟨t, hgo, hmoved, -⟩ := hleaves.go hle
    rw [if_pos hle, hgo, onward, Option.map_some, hmoved.index]
  · rw [if_neg hle, hleaves.none hle, Option.map_none]

theorem fromChunk_index (s : ChunkLocal) :
    (fromChunk registered buffer s).map ChunkLocal.index =
      behindChunk registered buffer (lastOf s) s.index (wantOf s) := by
  have hleaves := chunk_leaves registered buffer s
  rw [fromChunk, chunkStep, behindChunk, lastOf]
  by_cases hcond : (registered = true → (slice buffer s.index (wantOf s).toNat).isOk = true) ∧
      wantOf s ≤ s.len
  · obtain ⟨t, hgo, hmoved, -⟩ := hleaves.go hcond
    rw [hgo, onward, fromSeparatorEnd_index, needOf, hmoved.entering, hmoved.index, hmoved.len]
    simp only [Bool.false_eq_true, if_false]
    by_cases hle : 2 ≤ s.len - wantOf s
    · rw [if_pos hle, if_pos ⟨hcond.1, by omega⟩]
    · rw [if_neg hle, if_neg (fun h => hle (by omega))]
  · rw [hleaves.none hcond, Option.map_none, if_neg (fun h => hcond ⟨h.1, by omega⟩)]

theorem fromSeparatorMid_index (s : ChunkLocal) :
    (fromSeparatorMid registered buffer s).map ChunkLocal.index =
      if s.index + needOf s ≤ lastOf s then
        behindChunk registered buffer (lastOf s) (s.index + needOf s) s.ctx.chunkSize
      else none := by
  have hleaves := separator_leaves .separatorMid s
  rw [fromSeparatorMid, chunkStep, remainSeparatorMid]
  have hiff : s.index + needOf s ≤ lastOf s ↔ needOf s ≤ s.len := by
    rw [lastOf]
    omega
  by_cases hle : needOf s ≤ s.len
  · obtain ⟨t, hgo, hmoved, hsize⟩ := hleaves.go hle
    have hwant : wantOf t = s.ctx.chunkSize := by
      rw [wantOf, hmoved.entering, hsize]
      rfl
    rw [if_pos (hiff.mpr hle), hgo, onward, fromChunk_index, hmoved.last, hmoved.index, hwant]
  · rw [if_neg (fun h => hle (hiff.mp h)), hleaves.none hle, Option.map_none]

/-- **A FULL PASS** leads from a size field to the next one. -/
theorem fullPass_index {s : ChunkLocal} (hkept : (keptOf s).length ≤ 4) :
    (fullPass registered buffer s).map ChunkLocal.index =
      nextField registered buffer (lastOf s) (keptOf s) s.index := by
  rw [fullPass, nextField]
  cases hread : readField buffer (keptOf s) s.index with
  | none =>
      dsimp only
      cases hflow : remainSizeByte buffer s with
      | go t => exact absurd hflow (size_none hkept hread t)
      | brk continued t => rw [chunkStep, hflow, onward, Option.map_none]
      | abort e t => rw [chunkStep, hflow, onward, Option.map_none]
  | some text =>
      dsimp only
      have hleaves := size_leaves hkept hread
      rw [chunkStep, chunkAt]
      by_cases hle : ((4 - (keptOf s).length : Nat) : Int) ≤ s.len
      · obtain ⟨t, hgo, hmoved, hsize⟩ := hleaves.go hle
        have hneed : needOf t = 2 := by
          rw [needOf, hmoved.entering]
          rfl
        rw [hgo, onward, fromSeparatorMid_index, hmoved.last, hmoved.index, hsize, hneed]
      · rw [hleaves.none hle, Option.map_none, if_neg]
        rw [lastOf]
        omega

end Passes

/-! ## A call -/

/-- The size string of a context: `char chunk_size_str[5]`, with a string in it. -/
def Holds (ctx : HttpResponseContext) : Prop :=
  ctx.chunkSizeStr.length = 5 ∧ (ctx.chunkSizeStr.takeWhile (· ≠ 0)).length ≤ 4

/-- A NUL after at most four characters. -/
theorem holds_nul {ctx : HttpResponseContext} {pre rest : Bytes}
    (hstr : ctx.chunkSizeStr = pre ++ 0 :: rest) (hlen : ctx.chunkSizeStr.length = 5)
    (hpre : pre.length ≤ 4) : Holds ctx := by
  refine ⟨hlen, ?_⟩
  rw [hstr, text_nul]
  exact Nat.le_trans (List.takeWhile_sublist _).length_le hpre

theorem endSizeStr_holds {ctx : HttpResponseContext} {str : Bytes} (hlen : str.length = 5)
    (hstr : ctx.chunkSizeStr = endSizeStr str) : Holds ctx := by
  obtain ⟨a, str, rfl⟩ := List.exists_cons_of_length_eq_add_one hlen
  obtain ⟨b, rest, rfl⟩ := List.exists_cons_of_length_eq_add_one (Nat.succ.inj hlen)
  have hshape : ctx.chunkSizeStr = [48] ++ 0 :: rest := hstr
  refine holds_nul hshape ?_ (by decide)
  rw [hshape, ← hlen]
  rfl

theorem remainSizeByte_holds (buffer : Bytes) {s : ChunkLocal} (h : Holds s.ctx) :
    Holds (Flow.ctx (remainSizeByte buffer s)) := by
  obtain ⟨hlen, hstr⟩ := h
  rw [remainSizeByte]
  cases he : s.entering with
  | true =>
      simp only [if_true]
      cases hslice : slice buffer s.index (4 - strlen s.ctx.chunkSizeStr) with
      | error e => exact ⟨hlen, hstr⟩
      | ok d =>
          -- the bytes copied fill the text up to four
          have hsum := slice_fills hstr hslice
          have hfour : (s.ctx.chunkSizeStr.take (strlen s.ctx.chunkSizeStr) ++ d).length = 4 := by
            rw [take_strlen, List.length_append]
            exact hsum
          have hfive : (s.ctx.chunkSizeStr.take (strlen s.ctx.chunkSizeStr) ++ d ++
              s.ctx.chunkSizeStr.drop 4).length = 5 := by
            rw [List.length_append, hfour, List.length_drop, hlen]
          dsimp only
          split
          · refine holds_nul rfl ?_ (Nat.le_of_eq hfour)
            show (_ ++ [(0 : Byte)]).length = 5
            rw [List.length_append, hfour]
            rfl
          · split
            · exact endSizeStr_holds hfive rfl
            · refine ⟨?_, ?_⟩
              · show ((_ : Bytes).set 4 0).length = 5
                rw [List.length_set]
                exact hfive
              · show (((_ : Bytes).set 4 0).takeWhile _).length ≤ 4
                rw [(text_four hsum).2]
                refine Nat.le_trans (List.takeWhile_sublist _).length_le ?_
                rw [List.length_append]
                exact Nat.le_of_eq hsum
  | false =>
      simp only [Bool.false_eq_true, if_false]
      cases hlook : looksEnd buffer s.index with
      | error e => exact ⟨hlen, hstr⟩
      | ok found =>
          cases found with
          | true => exact endSizeStr_holds hlen rfl
          | false =>
              dsimp only
              -- a short window is copied as far as it goes and ended by the NUL
              by_cases hlt : s.len < 4
              · rw [if_pos hlt]
                cases hslice : slice buffer s.index s.len.toNat with
                | error e => exact ⟨hlen, hstr⟩
                | ok d =>
                    have hd := slice_length hslice
                    refine holds_nul rfl ?_ (by omega)
                    show (d ++ 0 :: s.ctx.chunkSizeStr.drop (s.len.toNat + 1)).length = 5
                    rw [List.length_append, List.length_cons, List.length_drop, hlen]
                    omega
              · rw [if_neg hlt]
                cases hslice : slice buffer s.index 4 with
                | error e => exact ⟨hlen, hstr⟩
                | ok d =>
                    have hd := slice_length hslice
                    refine holds_nul rfl ?_ (Nat.le_of_eq hd)
                    show (d ++ [(0 : Byte)]).length = 5
                    rw [List.length_append, hd]
                    rfl

theorem chunkStep_holds (registered : Bool) (buffer : Bytes) (label : ChunkState)
    {s : ChunkLocal} (h : Holds s.ctx) :
    Holds (Flow.ctx (chunkStep registered buffer label s)) := by
  have hseparator : ∀ label, Holds (Flow.ctx (separator label s)) := by
    intro label
    rw [separator]
    dsimp only
    split
    · split <;> exact h
    · split <;> exact h
  cases label with
  | sizeByte => exact remainSizeByte_holds buffer h
  | separatorMid => exact hseparator .separatorMid
  | separatorEnd => exact hseparator .separatorEnd
  | chunk =>
      rw [chunkStep, remainChunk]
      dsimp only
      generalize (if s.entering = true then s.ctx.chunkStateRemainByte
        else s.ctx.chunkSize) = want
      split
      · split
        · exact h
        · rename_i hdeliver
          rw [Flow.ctx, deliver_ctx hdeliver]
          exact h
      · split
        · exact h
        · rename_i hdeliver
          have hctx := deliver_ctx hdeliver
          split
          · rw [Flow.ctx, hctx]
            exact h
          · rw [Flow.ctx, hctx]
            exact h

/-- **THE SIZE STRING** of every context that a call finds has its NUL. -/
theorem Reachable.holds {ctx : HttpResponseContext} (h : Reachable ctx) : Holds ctx := by
  induction h with
  | zero => exact ⟨rfl, by decide⟩
  | between state index len h ih => exact ih
  | head h ih => exact ih
  | call registered buffer readLen bodyLen h hstop ih =>
      rw [httpChunkedResponseBody]
      split
      · exact ih
      · exact chunkLoop_keeps Holds (fun label s => chunkStep_holds registered buffer label) _ _ _ ih

section Calls

variable {registered : Bool} {buffer : Bytes} {readLen : Nat} {ctx : HttpResponseContext}
  {bodyLen : Int}

/-- A label that is left leaves the end of the bytes where it was. -/
theorem chunkStep_moved {label : ChunkState} {s t : ChunkLocal} (hkept : (keptOf s).length ≤ 4)
    (hgo : chunkStep registered buffer label s = .go t) : ∃ n, Moved n s t := by
  cases label with
  | sizeByte =>
      cases hread : readField buffer (keptOf s) s.index with
      | none => exact absurd hgo (size_none hkept hread t)
      | some text => exact ⟨_, ((size_leaves hkept hread).moved hgo).1⟩
  | separatorMid => exact ⟨_, ((separator_leaves .separatorMid s).moved hgo).1⟩
  | chunk => exact ⟨_, ((chunk_leaves registered buffer s).moved hgo).1⟩
  | separatorEnd => exact ⟨_, ((separator_leaves .separatorEnd s).moved hgo).1⟩

/-- A label that is left is followed by the rest of its pass. -/
theorem restOfPass_go {label : ChunkState} {s t : ChunkLocal} (hlabel : label ≠ .separatorEnd)
    (hgo : chunkStep registered buffer label s = .go t) :
    restOfPass registered buffer label s =
      restOfPass registered buffer (ChunkState.next label) t := by
  cases label with
  | sizeByte => rw [restOfPass, fullPass, hgo]; rfl
  | separatorMid => rw [restOfPass, fromSeparatorMid, hgo]; rfl
  | chunk => rw [restOfPass, fromChunk, hgo]; rfl
  | separatorEnd => exact absurd rfl hlabel

/-- What is known at a label: where the next size field is, or will be. -/
structure Stands (registered : Bool) (buffer : Bytes) (ctx : HttpResponseContext)
    (start last : Int) (label : ChunkState) (s : ChunkLocal) : Prop where
  holds : Holds s.ctx
  ends : lastOf s = last
  field : label = .sizeByte → FieldAt registered buffer ctx start last (keptOf s) s.index
  rest : label ≠ .sizeByte → ∀ t, restOfPass registered buffer label s = some t →
    FieldAt registered buffer ctx start last [] t.index

theorem keptOf_length {s : ChunkLocal} (h : Holds s.ctx) : (keptOf s).length ≤ 4 := by
  rw [keptOf]
  split
  · exact h.2
  · exact Nat.zero_le 4

theorem lastOf_enter : lastOf (enter readLen ctx bodyLen) =
    ctx.remainDataIndex + given readLen ctx := by
  rw [lastOf, given, enter]
  by_cases hzero : ctx.remainDataLen ≠ 0
  · simp only [if_pos hzero]
  · simp only [if_neg hzero]

/-- What is left of a pass at the start leads to the first field behind it. -/
theorem resumed_index (hlabel : ctx.chunkTerminateState ≠ .sizeByte) :
    (restOfPass registered buffer ctx.chunkTerminateState (enter readLen ctx bodyLen)).map
        ChunkLocal.index =
      resumedField registered buffer ctx ctx.remainDataIndex
        (ctx.remainDataIndex + given readLen ctx) := by
  rw [resumedField]
  cases hstate : ctx.chunkTerminateState with
  | sizeByte => exact absurd hstate hlabel
  | separatorMid =>
      rw [restOfPass, fromSeparatorMid_index, lastOf_enter]
      rfl
  | chunk =>
      rw [restOfPass, fromChunk_index, lastOf_enter]
      rfl
  | separatorEnd =>
      have hlast : (enter readLen ctx bodyLen).index + (enter readLen ctx bodyLen).len =
          ctx.remainDataIndex + given readLen ctx := lastOf_enter
      have hindex : (enter readLen ctx bodyLen).index = ctx.remainDataIndex := rfl
      have hneed : needOf (enter readLen ctx bodyLen) = ctx.chunkStateRemainByte := rfl
      rw [restOfPass, fromSeparatorEnd_index, hneed, hindex]
      exact if_congr (by omega) rfl rfl

/-- **AT EVERY LABEL** that a call comes to, the next field is one of the fields. -/
theorem Visits.stands (hctx : Holds ctx) {label : ChunkState} {s : ChunkLocal}
    (h : Visits registered buffer readLen ctx bodyLen label s) :
    Stands registered buffer ctx ctx.remainDataIndex (ctx.remainDataIndex + given readLen ctx)
      label s := by
  induction h with
  | start hread =>
      refine ⟨hctx, lastOf_enter, fun hlabel => .first hlabel, fun hlabel t ht => .resumed ?_⟩
      rw [← resumed_index hlabel, ht, Option.map_some]
  | go hvisits hgo ih =>
      rename_i label s t
      obtain ⟨n, hmoved⟩ := chunkStep_moved (keptOf_length ih.holds) hgo
      have hholds := chunkStep_holds registered buffer label ih.holds
      rw [hgo] at hholds
      refine ⟨hholds, hmoved.last.trans ih.ends, fun hlabel => ?_, fun hlabel u hu => ?_⟩
      · have hend : label = .separatorEnd := by
          cases label with
          | separatorEnd => rfl
          | sizeByte => cases hlabel
          | separatorMid => cases hlabel
          | chunk => cases hlabel
        subst hend
        have hkept : keptOf t = [] := by
          rw [keptOf, hmoved.entering]
          rfl
        rw [hkept]
        refine ih.rest (by rintro ⟨⟩) t ?_
        rw [restOfPass, fromSeparatorEnd, hgo]
        rfl
      · have hnotEnd : label ≠ .separatorEnd := by
          rintro rfl
          exact hlabel rfl
        have hrest := (restOfPass_go hnotEnd hgo).trans hu
        by_cases hsize : label = .sizeByte
        · subst hsize
          refine .next (ih.field rfl) ?_
          rw [← ih.ends, ← fullPass_index registered buffer (keptOf_length ih.holds)]
          rw [restOfPass] at hrest
          rw [hrest, Option.map_some]
        · exact ih.rest hsize u hrest

theorem Visits.read {label : ChunkState} {s : ChunkLocal}
    (h : Visits registered buffer readLen ctx bodyLen label s) : readLen ≠ 0 := by
  induction h with
  | start hread => exact hread
  | go h hgo ih => exact ih

theorem onward_some {k : ChunkLocal → Option ChunkLocal} {flow : Flow} {t : ChunkLocal}
    (h : onward k flow = some t) : ∃ s, flow = .go s ∧ k s = some t := by
  cases flow with
  | go s => exact ⟨s, rfl, h⟩
  | brk continued s => cases h
  | abort e s => cases h

/-- A call comes to the size field behind the rest of a pass. -/
theorem Visits.rest (hctx : Holds ctx) {label : ChunkState} {s t : ChunkLocal}
    (h : Visits registered buffer readLen ctx bodyLen label s)
    (hrest : restOfPass registered buffer label s = some t) :
    Visits registered buffer readLen ctx bodyLen .sizeByte t ∧ t.entering = false := by
  have hend : ∀ {s t}, Visits registered buffer readLen ctx bodyLen .separatorEnd s →
      fromSeparatorEnd registered buffer s = some t →
      Visits registered buffer readLen ctx bodyLen .sizeByte t ∧ t.entering = false := by
    intro s t h hrest
    obtain ⟨s1, hgo, hs1⟩ := onward_some hrest
    obtain rfl : s1 = t := Option.some.inj hs1
    obtain ⟨n, hmoved⟩ := chunkStep_moved (keptOf_length (h.stands hctx).holds) hgo
    exact ⟨h.go hgo, hmoved.entering⟩
  have hchunk : ∀ {s t}, Visits registered buffer readLen ctx bodyLen .chunk s →
      fromChunk registered buffer s = some t →
      Visits registered buffer readLen ctx bodyLen .sizeByte t ∧ t.entering = false := by
    intro s t h hrest
    obtain ⟨s1, hgo, hs1⟩ := onward_some hrest
    exact hend (h.go hgo) hs1
  have hmid : ∀ {s t}, Visits registered buffer readLen ctx bodyLen .separatorMid s →
      fromSeparatorMid registered buffer s = some t →
      Visits registered buffer readLen ctx bodyLen .sizeByte t ∧ t.entering = false := by
    intro s t h hrest
    obtain ⟨s1, hgo, hs1⟩ := onward_some hrest
    exact hchunk (h.go hgo) hs1
  cases label with
  | sizeByte =>
      obtain ⟨s1, hgo, hs1⟩ := onward_some hrest
      exact hmid (h.go hgo) hs1
  | separatorMid => exact hmid h hrest
  | chunk => exact hchunk h hrest
  | separatorEnd => exact hend h hrest

/-- **A CALL COMES TO EVERY SIZE FIELD**, by induction on the fields. -/
theorem FieldAt.visits (hctx : Holds ctx) (hread : readLen ≠ 0) {kept : Bytes} {i : Int}
    (h : FieldAt registered buffer ctx ctx.remainDataIndex
      (ctx.remainDataIndex + given readLen ctx) kept i) :
    ∃ s, Visits registered buffer readLen ctx bodyLen .sizeByte s ∧ keptOf s = kept ∧
      s.index = i := by
  have hkept : ∀ {t : ChunkLocal}, t.entering = false → keptOf t = [] := by
    intro t hent
    rw [keptOf, hent]
    rfl
  induction h with
  | first hlabel =>
      have hstart : Visits registered buffer readLen ctx bodyLen ctx.chunkTerminateState
          (enter readLen ctx bodyLen) := .start hread
      rw [hlabel] at hstart
      exact ⟨_, hstart, rfl, rfl⟩
  | resumed hresumed =>
      have hlabel : ctx.chunkTerminateState ≠ .sizeByte := by
        intro heq
        rw [resumedField, heq] at hresumed
        cases hresumed
      have hstart : (restOfPass registered buffer ctx.chunkTerminateState
          (enter readLen ctx bodyLen)).map ChunkLocal.index = _ := resumed_index hlabel
      rw [← hstart] at hresumed
      obtain ⟨t, hrest, hindex⟩ := Option.map_eq_some_iff.mp hresumed
      obtain ⟨hvisits, hent⟩ := (Visits.start hread).rest hctx hrest
      exact ⟨t, hvisits, hkept hent, hindex⟩
  | next hfield hnext ih =>
      obtain ⟨s, hvisits, hkeptS, hindexS⟩ := ih
      have hstands := hvisits.stands hctx
      rw [← hstands.ends, ← hkeptS, ← hindexS,
        ← fullPass_index registered buffer (keptOf_length hstands.holds)] at hnext
      obtain ⟨t, hpass, hindex⟩ := Option.map_eq_some_iff.mp hnext
      obtain ⟨hvisitsT, hent⟩ := hvisits.rest hctx hpass
      exact ⟨t, hvisitsT, hkept hent, hindex⟩

theorem nextField_some {last : Int} {kept : Bytes} {i j : Int}
    (h : nextField registered buffer last kept i = some j) :
    ∃ text, readField buffer kept i = some text ∧ chunkAt kept i ≤ last ∧
      j = chunkAt kept i + fieldSize text + 2 := by
  rw [nextField] at h
  cases hread : readField buffer kept i with
  | none =>
      rw [hread] at h
      cases h
  | some text =>
      rw [hread] at h
      dsimp only at h
      by_cases hle : chunkAt kept i ≤ last
      · rw [if_pos hle, behindChunk] at h
        refine ⟨text, rfl, hle, ?_⟩
        split at h
        · exact (Option.some.inj h).symm
        · cases h
      · rw [if_neg hle] at h
        cases h

/-- A size below what the chunk is surrounded by never makes the decoder wait. -/
theorem nextField_back (registered : Bool) {last : Int} {kept text : Bytes} {i : Int}
    (hread : readField buffer kept i = some text) (hle : chunkAt kept i ≤ last)
    (hsize : fieldSize text ≤ -2) :
    nextField registered buffer last kept i = some (chunkAt kept i + fieldSize text + 2) := by
  have hzero : (fieldSize text).toNat = 0 := by omega
  rw [nextField, hread]
  dsimp only
  rw [if_pos hle, behindChunk, hzero, if_pos ⟨fun _ => rfl, by omega⟩]

/-- **EVERY FULL PASS LEAVES FEWER BYTES** exactly if every size field sends the
    decoder forward. -/
theorem falls_iff (hctx : Holds ctx) :
    (∀ s t, Visits registered buffer readLen ctx bodyLen .sizeByte s →
        fullPass registered buffer s = some t → t.len < s.len) ↔
      Forward registered buffer readLen ctx := by
  constructor
  · intro hfalls hread kept i text hfield htext hle
    by_contra hback
    obtain ⟨s, hvisits, rfl, rfl⟩ : ∃ s, Visits registered buffer readLen ctx bodyLen .sizeByte s ∧
        keptOf s = kept ∧ s.index = i := hfield.visits hctx hread
    have hstands := hvisits.stands hctx
    have hlength := keptOf_length hstands.holds
    have hnext := nextField_back registered htext hle (by omega)
    rw [← hstands.ends, ← fullPass_index registered buffer hlength] at hnext
    obtain ⟨t, hpass, hindex⟩ := Option.map_eq_some_iff.mp hnext
    have hless := hfalls s t hvisits hpass
    have hends := ((hvisits.rest hctx hpass).1.stands hctx).ends.trans hstands.ends.symm
    rw [lastOf, lastOf] at hends
    rw [chunkAt] at hindex
    omega
  · intro hforward s t hvisits hpass
    have hread := hvisits.read
    have hstands := hvisits.stands hctx
    have hlength := keptOf_length hstands.holds
    have hnext := fullPass_index registered buffer hlength
    rw [hpass, hstands.ends, Option.map_some] at hnext
    obtain ⟨text, htext, hle, hindex⟩ := nextField_some hnext.symm
    have hsize := hforward hread _ _ text (hstands.field rfl) htext hle
    have hends := ((hvisits.rest hctx hpass).1.stands hctx).ends.trans hstands.ends.symm
    rw [lastOf, lastOf] at hends
    rw [chunkAt] at hindex
    omega

theorem slice_stops {i : Int} {n : Nat} {e : Abort} (h : slice buffer i n = .error e) :
    e = .outOfBounds := by
  rw [slice] at h
  split_ifs at h
  exact (Except.error.inj h).symm

theorem byteAt_stops {i : Int} {e : Abort} (h : byteAt buffer i = .error e) :
    e = .outOfBounds := by
  rw [byteAt] at h
  split at h
  · split at h
    · cases h
    · exact (Except.error.inj h).symm
  · exact (Except.error.inj h).symm

theorem looksEnd_stops {i : Int} {e : Abort} (h : looksEnd buffer i = .error e) :
    e = .outOfBounds := by
  rw [looksEnd] at h
  cases h1 : byteAt buffer i with
  | error e1 =>
      rw [h1] at h
      rw [← Except.error.inj h]
      exact byteAt_stops h1
  | ok a =>
      rw [h1] at h
      simp only [bind, Except.bind] at h
      split at h
      · cases h2 : byteAt buffer (i + 1) with
        | error e2 =>
            rw [h2] at h
            rw [← Except.error.inj h]
            exact byteAt_stops h2
        | ok b =>
            rw [h2] at h
            dsimp only at h
            split at h
            · cases h3 : byteAt buffer (i + 2) with
              | error e3 =>
                  rw [h3] at h
                  rw [← Except.error.inj h]
                  exact byteAt_stops h3
              | ok c =>
                  rw [h3] at h
                  cases h
            · cases h
      · cases h

theorem deliver_stops {n : Int} {s : ChunkLocal} {e : Abort}
    (h : deliver registered buffer n s = .error e) : e = .outOfBounds := by
  rw [deliver] at h
  split at h
  · cases hslice : slice buffer s.index n.toNat with
    | error e' =>
        rw [hslice] at h
        rw [← Except.error.inj h]
        exact slice_stops hslice
    | ok d =>
        rw [hslice] at h
        cases h
  · cases h

theorem remainSizeByte_stops {s t : ChunkLocal} {e : Abort}
    (h : remainSizeByte buffer s = .abort e t) : e = .outOfBounds := by
  rw [remainSizeByte] at h
  dsimp only at h
  split at h
  · split at h
    · rename_i hslice
      rw [← (Flow.abort.inj h).1]
      exact slice_stops hslice
    · split at h
      · cases h
      · split at h
        · cases h
        · cases h
  · split at h
    · rename_i hlook
      rw [← (Flow.abort.inj h).1]
      exact looksEnd_stops hlook
    · cases h
    · split at h
      · split at h
        · rename_i hslice
          rw [← (Flow.abort.inj h).1]
          exact slice_stops hslice
        · cases h
      · split at h
        · rename_i hslice
          rw [← (Flow.abort.inj h).1]
          exact slice_stops hslice
        · cases h

theorem remainChunk_stops {s t : ChunkLocal} {e : Abort}
    (h : remainChunk registered buffer s = .abort e t) : e = .outOfBounds := by
  rw [remainChunk] at h
  dsimp only at h
  generalize (if s.entering = true then s.ctx.chunkStateRemainByte else s.ctx.chunkSize) = want
    at h
  split at h
  · split at h
    · rename_i hdeliver
      rw [← (Flow.abort.inj h).1]
      exact deliver_stops hdeliver
    · cases h
  · split at h
    · rename_i hdeliver
      rw [← (Flow.abort.inj h).1]
      exact deliver_stops hdeliver
    · split at h
      · cases h
      · cases h

/-- A label that does not come back has left the buffer. -/
theorem chunkStep_stops {label : ChunkState} {s t : ChunkLocal} {e : Abort}
    (h : chunkStep registered buffer label s = .abort e t) : e = .outOfBounds := by
  have hseparator : ∀ label, separator label s ≠ .abort e t := by
    intro label hsep
    rw [separator] at hsep
    dsimp only at hsep
    split at hsep
    · split at hsep
      · cases hsep
      · cases hsep
    · split at hsep
      · cases hsep
      · cases hsep
  cases label with
  | sizeByte => exact remainSizeByte_stops h
  | separatorMid => exact absurd h (hseparator .separatorMid)
  | chunk => exact remainChunk_stops h
  | separatorEnd => exact absurd h (hseparator .separatorEnd)

/-- One label of the loop: the loop ends here, or goes on at the next label. -/
theorem loop_step (registered : Bool) (buffer : Bytes) (f : Nat) (label : ChunkState)
    (s : ChunkLocal) :
    (chunkLoop registered buffer (f + 1) label s).stop ≠ .error .diverges ∨
      ∃ t, chunkStep registered buffer label s = .go t ∧
        chunkLoop registered buffer (f + 1) label s =
          chunkLoop registered buffer f (ChunkState.next label) t := by
  rw [chunkLoop]
  cases hflow : chunkStep registered buffer label s with
  | go t => exact Or.inr ⟨t, rfl, rfl⟩
  | brk continued t => exact Or.inl (by rintro ⟨⟩)
  | abort e t =>
      refine Or.inl fun hstop => ?_
      have hbounds := chunkStep_stops hflow
      rw [Except.error.inj hstop] at hbounds
      cases hbounds

/-- **A LOOP COMES TO THE NEXT SIZE FIELD** within four labels, or to its end. -/
theorem loop_pass (registered : Bool) (buffer : Bytes) (f : Nat) (label : ChunkState)
    (s : ChunkLocal) :
    (chunkLoop registered buffer (f + 4) label s).stop ≠ .error .diverges ∨
      ∃ t g, restOfPass registered buffer label s = some t ∧ f ≤ g ∧
        chunkLoop registered buffer (f + 4) label s =
          chunkLoop registered buffer g .sizeByte t := by
  have hend : ∀ f s, (chunkLoop registered buffer (f + 1) .separatorEnd s).stop ≠
        .error .diverges ∨
      ∃ t, fromSeparatorEnd registered buffer s = some t ∧
        chunkLoop registered buffer (f + 1) .separatorEnd s =
          chunkLoop registered buffer f .sizeByte t := by
    intro f s
    rcases loop_step registered buffer f .separatorEnd s with hstop | ⟨t, hgo, hloop⟩
    · exact Or.inl hstop
    · refine Or.inr ⟨t, ?_, hloop⟩
      rw [fromSeparatorEnd, hgo]
      rfl
  have hchunk : ∀ f s, (chunkLoop registered buffer (f + 2) .chunk s).stop ≠ .error .diverges ∨
      ∃ t, fromChunk registered buffer s = some t ∧
        chunkLoop registered buffer (f + 2) .chunk s =
          chunkLoop registered buffer f .sizeByte t := by
    intro f s
    rcases loop_step registered buffer (f + 1) .chunk s with hstop | ⟨s1, hgo, hloop⟩
    · exact Or.inl hstop
    · rw [hloop, fromChunk, hgo]
      exact hend f s1
  have hmid : ∀ f s, (chunkLoop registered buffer (f + 3) .separatorMid s).stop ≠
        .error .diverges ∨
      ∃ t, fromSeparatorMid registered buffer s = some t ∧
        chunkLoop registered buffer (f + 3) .separatorMid s =
          chunkLoop registered buffer f .sizeByte t := by
    intro f s
    rcases loop_step registered buffer (f + 2) .separatorMid s with hstop | ⟨s1, hgo, hloop⟩
    · exact Or.inl hstop
    · rw [hloop, fromSeparatorMid, hgo]
      exact hchunk f s1
  cases label with
  | sizeByte =>
      rcases loop_step registered buffer (f + 3) .sizeByte s with hstop | ⟨s1, hgo, hloop⟩
      · exact Or.inl hstop
      · rw [hloop, restOfPass, fullPass, hgo]
        rcases hmid f s1 with hstop | ⟨t, hrest, heq⟩
        · exact Or.inl hstop
        · exact Or.inr ⟨t, f, hrest, Nat.le_refl f, heq⟩
  | separatorMid =>
      rcases hmid (f + 1) s with hstop | ⟨t, hrest, heq⟩
      · exact Or.inl hstop
      · exact Or.inr ⟨t, f + 1, hrest, by omega, heq⟩
  | chunk =>
      rcases hchunk (f + 2) s with hstop | ⟨t, hrest, heq⟩
      · exact Or.inl hstop
      · exact Or.inr ⟨t, f + 2, hrest, by omega, heq⟩
  | separatorEnd =>
      rcases hend (f + 3) s with hstop | ⟨t, hrest, heq⟩
      · exact Or.inl hstop
      · exact Or.inr ⟨t, f + 3, hrest, by omega, heq⟩

/-- A size field that lies in the buffer ends within it. -/
theorem readField_within {text : Bytes} {i : Int} (h : readField buffer [] i = some text) :
    0 ≤ i ∧ i.toNat + 4 ≤ buffer.length := by
  rw [readField] at h
  cases hslice : slice buffer i (4 - ([] : Bytes).length) with
  | error e =>
      rw [hslice] at h
      cases h
  | ok d =>
      by_contra hout
      rw [slice, if_neg (by decide)] at hslice
      rw [List.length_nil, Nat.sub_zero, if_neg hout] at hslice
      cases hslice

/-- **THE LOOP ENDS** if every pass leaves fewer bytes: each starts further on in the
    buffer, by induction on what lies behind it. -/
theorem loop_ends (hctx : Holds ctx)
    (hfalls : ∀ s t, Visits registered buffer readLen ctx bodyLen .sizeByte s →
      fullPass registered buffer s = some t → t.len < s.len) :
    ∀ (n fuel : Nat) (s : ChunkLocal), Visits registered buffer readLen ctx bodyLen .sizeByte s →
      s.entering = false → buffer.length + 1 - s.index.toNat < n → 4 * n ≤ fuel →
      (chunkLoop registered buffer fuel .sizeByte s).stop ≠ .error .diverges := by
  intro n
  induction n with
  | zero =>
      intro fuel s _ _ hleft _
      exact absurd hleft (Nat.not_lt_zero _)
  | succ n ih =>
      intro fuel s hvisits hent hleft hfuel
      obtain ⟨f, rfl⟩ : ∃ f, fuel = f + 4 := ⟨fuel - 4, by omega⟩
      rcases loop_pass registered buffer f .sizeByte s with hstop | ⟨t, g, hpass, hg, heq⟩
      · exact hstop
      · rw [heq]
        have hstands := hvisits.stands hctx
        have hkept : keptOf s = [] := by
          rw [keptOf, hent]
          rfl
        -- the field was read whole, so its index is inside the buffer
        have hnext := fullPass_index registered buffer (keptOf_length hstands.holds)
        rw [restOfPass] at hpass
        rw [hpass, Option.map_some, hkept] at hnext
        obtain ⟨text, htext, -, -⟩ := nextField_some hnext.symm
        obtain ⟨hpos, hin⟩ := readField_within htext
        obtain ⟨hvisitsT, hentT⟩ := hvisits.rest hctx hpass
        have hless := hfalls s t hvisits hpass
        have hends := (hvisitsT.stands hctx).ends.trans hstands.ends.symm
        rw [lastOf, lastOf] at hends
        exact ih g t hvisitsT hentT (by omega) (by omega)

/-- **SO DOES THE CALL**, which begins with what is left of a pass. -/
theorem call_ends (hctx : Holds ctx)
    (hfalls : ∀ s t, Visits registered buffer readLen ctx bodyLen .sizeByte s →
      fullPass registered buffer s = some t → t.len < s.len) :
    (httpChunkedResponseBody registered buffer readLen ctx bodyLen).stop ≠ .error .diverges := by
  by_cases hread : readLen = 0
  · rw [httpChunkedResponseBody, if_pos hread]
    rintro ⟨⟩
  · have hfuel : chunkFuel buffer = 4 * (buffer.length + 3) + 4 := by
      rw [chunkFuel]
      omega
    have hstart : Visits registered buffer readLen ctx bodyLen ctx.chunkTerminateState
        (enter readLen ctx bodyLen) := .start hread
    rw [body_call hread, hfuel]
    rcases loop_pass registered buffer (4 * (buffer.length + 3)) ctx.chunkTerminateState
        (enter readLen ctx bodyLen) with hstop | ⟨t, g, hrest, hg, heq⟩
    · exact hstop
    · rw [heq]
      obtain ⟨hvisits, hent⟩ := hstart.rest hctx hrest
      exact loop_ends hctx hfalls (buffer.length + 2) g t hvisits hent (by omega) (by omega)

end Calls

/-! ## Exactly the windows that end -/

/-- **A CALL COMES TO AN END, EVERY PASS OF IT SHORTER,** exactly if every size field
    that was received with its separator sends it forward. -/
theorem terminates_iff {ctx : HttpResponseContext} (hctx : Reachable ctx) (registered : Bool)
    (buffer : Bytes) (readLen : Nat) (bodyLen : Int) :
    Terminates registered buffer readLen ctx bodyLen ↔
      Forward registered buffer readLen ctx := by
  constructor
  · intro hterm
    exact (falls_iff hctx.holds).mp hterm.falls
  · intro hforward
    have hfalls : ∀ s t, Visits registered buffer readLen ctx bodyLen .sizeByte s →
        fullPass registered buffer s = some t → t.len < s.len :=
      (falls_iff hctx.holds).mpr hforward
    exact ⟨call_ends hctx.holds hfalls, hfalls⟩

/-- A chunk of one byte and the terminating chunk. -/
def oneByteText : Bytes := lit "0001\r\na\r\n0\r\n\r\n"

/-- Its two size fields. -/
theorem oneByteText_fields {kept : Bytes} {i : Int}
    (h : FieldAt true oneByteText .zero 0 14 kept i) : kept = [] ∧ (i = 0 ∨ i = 9) := by
  induction h with
  | first hlabel => exact ⟨by decide, Or.inl rfl⟩
  | resumed hresumed => cases hresumed
  | next hfield hnext ih =>
      rename_i kept i j
      obtain ⟨rfl, rfl | rfl⟩ := ih
      · have hnine : nextField true oneByteText 14 [] 0 = some 9 := by decide +kernel
        exact ⟨rfl, Or.inr (Option.some.inj (hnext.symm.trans hnine))⟩
      · have hnone : nextField true oneByteText 14 [] 9 = none := by decide +kernel
        cases hnone.symm.trans hnext

theorem oneByteText_size {kept text : Bytes} {i : Int}
    (h : FieldAt true oneByteText .zero 0 14 kept i)
    (htext : readField oneByteText kept i = some text) : 0 ≤ fieldSize text := by
  obtain ⟨rfl, rfl | rfl⟩ := oneByteText_fields h
  · have hfirst : readField oneByteText [] 0 = some (lit "0001") := by decide +kernel
    rw [← Option.some.inj (hfirst.symm.trans htext)]
    decide +kernel
  · have hlast : readField oneByteText [] 9 = none := by decide +kernel
    cases hlast.symm.trans htext

/-- The coding of one byte in one window. -/
theorem terminates_oneByte : Terminates true oneByteText 14 .zero 0 := by
  refine (terminates_iff .zero _ _ _ _).mpr fun _ kept i text hfield htext _ => ?_
  have hsize := oneByteText_size hfield htext
  obtain ⟨rfl, -⟩ := oneByteText_fields hfield
  rw [List.length_nil]
  omega

/-- `-008`: the pass ends where it began, and begins again. -/
theorem minusEight_not_terminates : ¬ ∀ ctx, Reachable ctx → ∀ registered buffer readLen bodyLen,
    Terminates registered buffer readLen ctx bodyLen := by
  intro hall
  have hloop : (httpChunkedResponseBody true (lit "-008\r\nabcd") 10 .zero 0).stop =
      .error .diverges := by decide +kernel
  exact (hall .zero .zero true (lit "-008\r\nabcd") 10 0).ends hloop

end ChunkTermination
