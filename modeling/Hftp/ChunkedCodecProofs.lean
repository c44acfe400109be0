import Hftp.CBytesProofs

/-! # The chunked coding

    A body in chunks is a list of sizes and data.  The coding says where a
    prefix of it ends: in a size, in one of the two separators, in the data,
    or behind the terminating chunk.  The positions are those of sizes that
    are four digits wide. -/

namespace ChunkedCodec

open CBytes

/-! ## The coding -/

/-- A chunk as a sender writes it: its length in hexadecimal, perhaps with leading
    zeros, and its data. -/
structure Chunk where
  size : Bytes
  data : Bytes
  hex : AllHex size
  value : (digits 16 0 size).1 = data.length
  nonempty : data ≠ []

/-- Size, CR LF, data, CR LF. -/
def Chunk.text (c : Chunk) : Bytes := c.size ++ (crlf ++ (c.data ++ crlf))

/-- The terminating chunk. -/
def lastChunk : Bytes := [48, cr, lf, cr, lf]

/-- The coding of chunks, and what a peer sends behind it. -/
def codingThen (t : Bytes) : List Chunk → Bytes
  | [] => lastChunk ++ t
  | c :: cs => c.size ++ (crlf ++ (c.data ++ (crlf ++ codingThen t cs)))

/-- The coding of chunks alone. -/
def encode (cs : List Chunk) : Bytes := codingThen [] cs

/-- The contents of all chunks. -/
def contents (cs : List Chunk) : Bytes := cs.flatMap Chunk.data

/-- A size is not empty, and not a mere `0`. -/
theorem Chunk.size_cons (c : Chunk) :
    ∃ b bs, c.size = b :: bs ∧ (b = 48 → bs ≠ []) := by
  have hv := c.value
  cases hs : c.size with
  | nil =>
      rw [hs] at hv
      exact absurd (List.eq_nil_of_length_eq_zero hv.symm) c.nonempty
  | cons b bs =>
      refine ⟨b, bs, rfl, fun hzero hnil => c.nonempty (List.eq_nil_of_length_eq_zero ?_)⟩
      rw [hs, hzero, hnil] at hv
      exact hv.symm

/-- A size can be read as a string. -/
theorem Chunk.noNul (c : Chunk) : (0 : Byte) ∉ c.size :=
  fun hm => (digit_plain (c.hex 0 hm)).2.2.2.1 rfl

/-- A size does not start like the terminating chunk. -/
theorem Chunk.not_last (c : Chunk) : c.size.take 3 ≠ [48, cr, lf] := by
  intro htake
  have hmem : cr ∈ c.size := List.mem_of_mem_take (i := 3) (by rw [htake]; decide)
  exact (digit_plain (c.hex cr hmem)).2.2.2.2.1 rfl

/-- No chunk but the terminating one is empty. -/
theorem Chunk.data_pos (c : Chunk) : 0 < c.data.length :=
  List.length_pos_iff.mpr c.nonempty

/-- A size has the digits its length needs. -/
theorem Chunk.size_bounds (c : Chunk) :
    0 < c.size.length ∧ c.data.length < 16 ^ c.size.length := by
  obtain ⟨b, bs, hs, -⟩ := c.size_cons
  have hhi := (digits_bounds c.hex 0).2
  rw [c.value, Nat.zero_add, Nat.one_mul] at hhi
  exact ⟨by rw [hs]; exact Nat.succ_pos _, hhi⟩

/-- Four digits, the one width the decoder reads. -/
def Chunk.FourDigits (c : Chunk) : Prop := c.size.length = 4

/-- A chunk whose size has no leading zeros. -/
structure PlainChunk extends Chunk where
  lead : size.head? ≠ some 48

/-- The chunks of a list without leading zeros. -/
def chunksOf (cs : List PlainChunk) : List Chunk := cs.map PlainChunk.toChunk

/-- Its first digit says something. -/
theorem PlainChunk.size_cons (c : PlainChunk) : ∃ b bs, c.size = b :: bs ∧ b ≠ 48 := by
  obtain ⟨b, bs, hs, -⟩ := c.toChunk.size_cons
  exact ⟨b, bs, hs, fun e => c.lead (by rw [hs, e]; rfl)⟩

/-- Such a size has no more digits than its length needs. -/
theorem PlainChunk.size_bounds (c : PlainChunk) : 16 ^ (c.size.length - 1) ≤ c.data.length := by
  obtain ⟨b, bs, hs, hb⟩ := c.size_cons
  have hlo := (numeral_bounds (hs ▸ c.hex) hb).1
  rw [← hs, c.value] at hlo
  rw [hs]
  exact hlo

/-- So its length tells whether there are four. -/
theorem PlainChunk.fourDigits_iff (c : PlainChunk) :
    c.FourDigits ↔ 0x1000 ≤ c.data.length ∧ c.data.length ≤ 0xffff := by
  obtain ⟨hpos, hhi⟩ := c.toChunk.size_bounds
  have hlo := c.size_bounds
  constructor
  · intro h4
    rw [Chunk.FourDigits] at h4
    rw [h4] at hlo hhi
    omega
  · rintro ⟨h1, h2⟩
    by_contra hne
    rcases Nat.lt_or_gt_of_ne hne with hlt | hgt
    · have : 16 ^ c.size.length ≤ 16 ^ 3 := Nat.pow_le_pow_right (by omega) (by omega)
      omega
    · have : 16 ^ 4 ≤ 16 ^ (c.size.length - 1) := Nat.pow_le_pow_right (by omega) (by omega)
      omega

/-! ## Where a received prefix of the coding ends -/

/-- What is under way after some bytes of the coding: a size field of which
    `pre` is there; a separator or a chunk of which so many bytes are missing;
    or nothing more. -/
inductive Pending where
  | size (pre : Bytes)
  | mid (missing : Nat) (chunk : Nat)
  | data (missing : Nat)
  | tail (missing : Nat)
  | done
  deriving DecidableEq, Repr

/-- With `missing` bytes of the separator behind a chunk to come. -/
def tailAt (next : Nat → Pending) (missing n : Nat) : Pending :=
  if n < missing then .tail (missing - n) else next (n - missing)

/-- With `missing` bytes of a chunk to come. -/
def dataAt (next : Nat → Pending) (missing n : Nat) : Pending :=
  if n < missing then .data (missing - n) else tailAt next 2 (n - missing)

/-- With `missing` bytes of the separator behind a size to come. -/
def midAt (next : Nat → Pending) (chunk missing n : Nat) : Pending :=
  if n < missing then .mid (missing - n) chunk else dataAt next chunk (n - missing)

/-- What is under way after `n` bytes of the coding of four-digit chunks. -/
def pendingAt : List Chunk → Nat → Pending
  | [], n => if n < 3 then .size (lastChunk.take n) else .done
  | c :: cs, n =>
      if n < 4 then .size (c.size.take n) else midAt (pendingAt cs) c.data.length 2 (n - 4)

/-- The contents among the first `n` bytes of the coding. -/
def contentsAt : List Chunk → Nat → Bytes
  | [], _ => []
  | c :: cs, n => c.data.take (n - 6) ++ contentsAt cs (n - 8 - c.data.length)

/-- Up to the end of the first separator no data has come. -/
theorem contentsAt_small : ∀ (cs : List Chunk) {n : Nat}, n ≤ 6 → contentsAt cs n = [] := by
  intro cs
  induction cs with
  | nil => intro n _; rfl
  | cons c cs ih =>
      intro n hn
      rw [contentsAt, Nat.sub_eq_zero_of_le hn, ih (by omega)]
      rfl

/-! ## The places a read can end -/

section Regions

variable (c : Chunk) (cs : List Chunk) {n : Nat} {t : Bytes}

/-- Behind the four digits the separator is due. -/
theorem pendingAt_mid (h1 : 4 ≤ n) (h2 : n < 6) :
    pendingAt (c :: cs) n = .mid (6 - n) c.data.length := by
  rw [pendingAt, if_neg (by omega), midAt, if_pos (by omega)]
  congr 1
  omega

/-- Behind the separator the data is. -/
theorem pendingAt_data (h1 : 6 ≤ n) (h2 : n < 6 + c.data.length) :
    pendingAt (c :: cs) n = .data (6 + c.data.length - n) := by
  rw [pendingAt, if_neg (by omega), midAt, if_neg (by omega), dataAt, if_pos (by omega)]
  congr 1
  omega

/-- Behind the data the second separator is. -/
theorem pendingAt_tail (h1 : 6 + c.data.length ≤ n) (h2 : n < 8 + c.data.length) :
    pendingAt (c :: cs) n = .tail (8 + c.data.length - n) := by
  rw [pendingAt, if_neg (by omega), midAt, if_neg (by omega), dataAt, if_neg (by omega),
    tailAt, if_pos (by omega)]
  congr 1
  omega

/-- Behind that the next chunk begins. -/
theorem pendingAt_next (h : 8 + c.data.length ≤ n) :
    pendingAt (c :: cs) n = pendingAt cs (n - 8 - c.data.length) := by
  rw [pendingAt, if_neg (by omega), midAt, if_neg (by omega), dataAt, if_neg (by omega),
    tailAt, if_neg (by omega)]
  congr 1
  omega

/-- A decoder that was left in the separator comes, with `m` bytes more, to where the
    coding is. -/
theorem midAt_resume (m : Nat) (h1 : 4 ≤ n) (h2 : n < 6) :
    midAt (pendingAt cs) c.data.length (6 - n) m = pendingAt (c :: cs) (n + m) := by
  rw [pendingAt, if_neg (by omega), midAt, midAt]
  by_cases h : m < 6 - n
  · rw [if_pos h, if_pos (by omega)]
    congr 1
    omega
  · rw [if_neg h, if_neg (by omega)]
    congr 1
    omega

/-- So does one that was left in the data. -/
theorem dataAt_resume (m : Nat) (h1 : 6 ≤ n) (h2 : n < 6 + c.data.length) :
    dataAt (pendingAt cs) (6 + c.data.length - n) m = pendingAt (c :: cs) (n + m) := by
  rw [pendingAt, if_neg (by omega), midAt, if_neg (by omega), dataAt, dataAt]
  by_cases h : m < 6 + c.data.length - n
  · rw [if_pos h, if_pos (by omega)]
    congr 1
    omega
  · rw [if_neg h, if_neg (by omega)]
    congr 1
    omega

/-- And one that was left in the second separator. -/
theorem tailAt_resume (m : Nat) (h1 : 6 + c.data.length ≤ n) (h2 : n < 8 + c.data.length) :
    tailAt (pendingAt cs) (8 + c.data.length - n) m = pendingAt (c :: cs) (n + m) := by
  rw [pendingAt, if_neg (by omega), midAt, if_neg (by omega), dataAt, if_neg (by omega),
    tailAt, tailAt]
  by_cases h : m < 8 + c.data.length - n
  · rw [if_pos h, if_pos (by omega)]
    congr 1
    omega
  · rw [if_neg h, if_neg (by omega)]
    congr 1
    omega

/-- What is still to come of a chunk that was cut in its separator. -/
theorem drop_mid (h4 : c.size.length = 4) (h1 : 4 ≤ n) (h2 : n ≤ 6) :
    (codingThen t (c :: cs)).drop n
      = crlf.drop (n - 4) ++ (c.data ++ (crlf ++ codingThen t cs)) := by
  rw [codingThen, List.drop_append, List.drop_eq_nil_of_le (by omega), List.nil_append, h4,
    List.drop_append_of_le_length (by show n - 4 ≤ 2; omega)]

/-- What is still to come of a chunk that was cut in its data. -/
theorem drop_data (h4 : c.size.length = 4) (h1 : 6 ≤ n) (h2 : n ≤ 6 + c.data.length) :
    (codingThen t (c :: cs)).drop n = c.data.drop (n - 6) ++ (crlf ++ codingThen t cs) := by
  have hn : n - 4 - crlf.length = n - 6 := by show n - 4 - 2 = n - 6; omega
  rw [codingThen, List.drop_append, List.drop_eq_nil_of_le (by omega), List.nil_append, h4,
    List.drop_append, List.drop_eq_nil_of_le (by show 2 ≤ n - 4; omega), List.nil_append, hn,
    List.drop_append_of_le_length (by omega)]

/-- What is still to come of a chunk that was cut behind its data. -/
theorem drop_tail (h4 : c.size.length = 4) (h1 : 6 + c.data.length ≤ n) :
    (codingThen t (c :: cs)).drop n = (crlf ++ codingThen t cs).drop (n - 6 - c.data.length) := by
  have hn : n - 4 - crlf.length = n - 6 := by show n - 4 - 2 = n - 6; omega
  rw [codingThen, List.drop_append, List.drop_eq_nil_of_le (by omega), List.nil_append, h4,
    List.drop_append, List.drop_eq_nil_of_le (by show 2 ≤ n - 4; omega), List.nil_append, hn,
    List.drop_append, List.drop_eq_nil_of_le (by omega), List.nil_append]

end Regions

/-- The coding of a list is that of its first chunk and that of the rest. -/
theorem encode_cons (c : Chunk) (cs : List Chunk) :
    encode (c :: cs) = c.size ++ (crlf ++ (c.data ++ (crlf ++ encode cs))) := rfl

/-- What comes behind the coding is there as it is. -/
theorem codingThen_eq (t : Bytes) : ∀ cs : List Chunk, codingThen t cs = encode cs ++ t := by
  intro cs
  induction cs with
  | nil => rfl
  | cons c cs ih =>
      rw [codingThen, ih, encode_cons]
      simp only [List.append_assoc]

/-- With a size of four digits a chunk takes eight bytes more than its data. -/
theorem encode_length {c : Chunk} {cs : List Chunk} (h : c.FourDigits) :
    (encode (c :: cs)).length = 8 + c.data.length + (encode cs).length := by
  rw [Chunk.FourDigits] at h
  rw [encode_cons]
  simp only [List.length_append, h]
  show 4 + (2 + (c.data.length + (2 + _))) = _
  omega

/-- Nothing is under way once all bytes are there. -/
theorem pendingAt_end : ∀ {cs : List Chunk} {n : Nat}, (∀ c ∈ cs, c.FourDigits) →
    (encode cs).length ≤ n → pendingAt cs n = .done := by
  intro cs
  induction cs with
  | nil =>
      intro n _ hn
      have h5 : 5 ≤ n := hn
      rw [pendingAt, if_neg (by omega)]
  | cons c cs ih =>
      intro n h4 hn
      rw [encode_length (h4 c List.mem_cons_self)] at hn
      rw [pendingAt_next c cs (by omega)]
      exact ih (fun c hc => h4 c (List.mem_cons_of_mem _ hc)) (by omega)

/-- At the end of the coding nothing is due. -/
theorem pendingAt_length {cs : List Chunk} (h4 : ∀ c ∈ cs, c.FourDigits) :
    pendingAt cs (encode cs).length = .done := pendingAt_end h4 (Nat.le_refl _)

/-- Nothing is due only behind the whole of the first chunk. -/
theorem done_past {c : Chunk} {cs : List Chunk} {n : Nat} (h : pendingAt (c :: cs) n = .done) :
    8 + c.data.length ≤ n := by
  by_contra hlt
  rw [pendingAt, midAt, dataAt, tailAt] at h
  split at h
  · cases h
  · split at h
    · cases h
    · split at h
      · cases h
      · split at h
        · cases h
        · omega

/-- Where nothing is under way all contents are there. -/
theorem contentsAt_done : ∀ {cs : List Chunk} {n : Nat}, pendingAt cs n = .done →
    contentsAt cs n = contents cs := by
  intro cs
  induction cs with
  | nil => intro n _; rfl
  | cons c cs ih =>
      intro n h
      have hn := done_past h
      rw [pendingAt_next c cs hn] at h
      rw [contentsAt, List.take_of_length_le (by omega), ih h]
      rfl

/-- At the end of the coding all of the data has come. -/
theorem contentsAt_length {cs : List Chunk} (h4 : ∀ c ∈ cs, c.FourDigits) :
    contentsAt cs (encode cs).length = contents cs := contentsAt_done (pendingAt_length h4)

/-- What comes behind the terminating chunk is not under way. -/
theorem pendingAt_stays : ∀ {cs : List Chunk} {n m : Nat}, pendingAt cs n = .done → n ≤ m →
    pendingAt cs m = .done := by
  intro cs
  induction cs with
  | nil =>
      intro n m h hnm
      by_cases hn : n < 3
      · rw [pendingAt, if_pos hn] at h
        cases h
      · rw [pendingAt, if_neg (by omega)]
  | cons c cs ih =>
      intro n m h hnm
      have hn := done_past h
      rw [pendingAt_next c cs hn] at h
      rw [pendingAt_next c cs (by omega)]
      exact ih h (by omega)

/-- At its start a size is due, of which nothing has come. -/
theorem pendingAt_zero (cs : List Chunk) : pendingAt cs 0 = .size [] := by
  cases cs <;> rfl

end ChunkedCodec
