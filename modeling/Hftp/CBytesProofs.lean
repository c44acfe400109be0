import Mathlib.Data.List.Basic
import Mathlib.Data.List.TakeDrop
import Mathlib.Data.List.TakeWhile
import Mathlib.Tactic

/-! # Byte strings the way C reads them

    Memory is a list of bytes and a pointer is an index into it.  A C string
    starts at an index and ends before the first NUL; a search returns an
    index or nothing; a number is read by skipping blanks and a sign and then
    folding digits until the first byte that is not one.

    Nothing here is about a particular program: these are the library calls
    the parsers rest on, with the facts their proofs use. -/

namespace CBytes

abbrev Byte := UInt8
abbrev Bytes := List UInt8

/-- A string literal as the bytes the compiler lays down (ASCII only). -/
def lit (s : String) : Bytes := s.toList.map fun c => UInt8.ofNat c.toNat

def cr : Byte := 13
def lf : Byte := 10
def crlf : Bytes := [cr, lf]

/-! ## Strings and searches -/

/-- The bytes before the first NUL; nothing when there is none. -/
def untilNul : Bytes → Option Bytes
  | [] => none
  | b :: bs => if b = 0 then some [] else (untilNul bs).map (b :: ·)

/-- The string that starts at index `p`. -/
def cstr (mem : Bytes) (p : Nat) : Option Bytes := untilNul (mem.drop p)

/-- Index of the first occurrence of `needle`. -/
def strstr (needle : Bytes) : Bytes → Option Nat
  | [] => if needle = [] then some 0 else none
  | b :: bs =>
      if needle.isPrefixOf (b :: bs) then some 0
      else (strstr needle bs).map (· + 1)

/-- Index of the first byte equal to `c`. -/
def strchr (c : Byte) : Bytes → Option Nat
  | [] => none
  | b :: bs => if b = c then some 0 else (strchr c bs).map (· + 1)

/-- Index of the last byte equal to `c`. -/
def strrchr (c : Byte) (s : Bytes) : Option Nat :=
  (strchr c s.reverse).map fun i => s.length - 1 - i

/-- `strlen` of a character array: the bytes before its first NUL. -/
def strlen (s : Bytes) : Nat := (s.takeWhile (· ≠ 0)).length

def toLower (b : Byte) : Byte := if 65 ≤ b ∧ b ≤ 90 then b + 32 else b

/-- `strcasecmp(a, b) == 0`. -/
def strcaseeq (a b : Bytes) : Bool := a.map toLower == b.map toLower

/-! ## Numbers -/

def isSpace (b : Byte) : Bool := b = 32 ∨ (9 ≤ b ∧ b ≤ 13)

/-- The value of a digit in the given base. -/
def digitOf (base : Nat) (b : Byte) : Option Nat :=
  let v :=
    if 48 ≤ b ∧ b ≤ 57 then b.toNat - 48
    else if 97 ≤ b ∧ b ≤ 122 then b.toNat - 87
    else if 65 ≤ b ∧ b ≤ 90 then b.toNat - 55
    else base
  if v < base then some v else none

/-- Fold the leading digits into the accumulator; the rest starts at the
    first byte that is not a digit. -/
def digits (base : Nat) : Nat → Bytes → Nat × Bytes
  | acc, [] => (acc, [])
  | acc, b :: bs =>
      match digitOf base b with
      | some v => digits base (acc * base + v) bs
      | none => (acc, b :: bs)

/-- An optional sign: whether it was a minus, and what follows. -/
def sign : Bytes → Bool × Bytes
  | 43 :: bs => (false, bs)
  | 45 :: bs => (true, bs)
  | bs => (false, bs)

/-- The optional `0x` of base sixteen counts only before a digit. -/
def skip0x : Bytes → Bytes
  | 48 :: x :: d :: bs =>
      if (x = 120 ∨ x = 88) ∧ (digitOf 16 d).isSome then d :: bs
      else 48 :: x :: d :: bs
  | bs => bs

/-- `long` saturates at its bounds. -/
def clampLong (v : Int) : Int := max (-(2 ^ 63)) (min v (2 ^ 63 - 1))

/-- `strtol(s, &end, base)`, the value only. -/
def strtol (base : Nat) (s : Bytes) : Int :=
  let (neg, t) := sign (s.dropWhile isSpace)
  let t := if base = 16 then skip0x t else t
  let v : Int := (digits base 0 t).1
  clampLong (if neg then -v else v)

/-- The integer conversions of `sscanf`: skip blanks, read a sign and at
    least one decimal digit.  Nothing when no digit follows. -/
def scanInt (s : Bytes) : Option (Int × Bytes) :=
  let (neg, t) := sign (s.dropWhile isSpace)
  match t with
  | [] => none
  | b :: _ =>
      if (digitOf 10 b).isSome then
        let (v, rest) := digits 10 0 t
        some (clampLong (if neg then -(v : Int) else v), rest)
      else none

/-- `%d` of a number that fits. -/
def decimal (v : Int) : Bytes :=
  (if v < 0 then [45] else []) ++ (Nat.toDigits 10 v.natAbs).map fun c => UInt8.ofNat c.toNat

/-- A text of decimal digits as the number it is; nothing if there is anything
    else in it. -/
def readDecimal (s : Bytes) : Option Nat :=
  if s ≠ [] ∧ (digits 10 0 s).2 = [] then some (digits 10 0 s).1 else none

/-- Conversion to a 32-bit `int`. -/
def toInt (v : Int) : Int := Int.bmod v (2 ^ 32)

/-! ## Memory -/

/-- Bytes written over memory from index `off` on. -/
def store (mem : Bytes) (off : Nat) (d : Bytes) : Bytes :=
  mem.take off ++ d ++ mem.drop (off + d.length)

theorem store_length {mem : Bytes} {off : Nat} {d : Bytes}
    (h : off + d.length ≤ mem.length) :
    (store mem off d).length = mem.length := by
  simp [store]
  omega

theorem store_zero (mem d : Bytes) : store mem 0 d = d ++ mem.drop d.length := by
  simp [store]

/-- What lies before and inside the written range is known whatever the rest
    of memory holds. -/
theorem take_store {mem : Bytes} {off : Nat} {d : Bytes} (h : off ≤ mem.length) :
    (store mem off d).take (off + d.length) = mem.take off ++ d := by
  have hlen : (mem.take off ++ d).length = off + d.length := by
    simp [Nat.min_eq_left h]
  rw [store, ← hlen, List.take_left]

/-- Putting back the byte that was there undoes a write. -/
theorem set_set_self {mem : Bytes} {i : Nat} {b c : Byte}
    (h : mem[i]? = some b) : (mem.set i c).set i b = mem := by
  rw [List.set_set]
  apply List.ext_getElem?
  intro j
  by_cases hij : i = j
  · subst hij
    obtain ⟨hlt, -⟩ := List.getElem?_eq_some_iff.mp h
    rw [List.getElem?_set_self hlt, h]
  · rw [List.getElem?_set_ne hij]

/-! ## What a search found -/

/-- A hit splits the text around the first occurrence. -/
theorem strstr_split {needle : Bytes} (hn : needle ≠ []) :
    ∀ {s : Bytes} {k : Nat}, strstr needle s = some k →
      ∃ pre post, s = pre ++ (needle ++ post) ∧ pre.length = k := by
  intro s
  induction s with
  | nil =>
      intro k h
      rw [strstr, if_neg hn] at h
      cases h
  | cons b bs ih =>
      intro k h
      rw [strstr] at h
      by_cases hp : needle.isPrefixOf (b :: bs) = true
      · rw [if_pos hp] at h
        obtain ⟨post, hpost⟩ := List.isPrefixOf_iff_prefix.mp hp
        exact ⟨[], post, hpost.symm, Option.some.inj h⟩
      · rw [if_neg hp, Option.map_eq_some_iff] at h
        obtain ⟨j, hj, rfl⟩ := h
        obtain ⟨pre, post, rfl, rfl⟩ := ih hj
        exact ⟨b :: pre, post, rfl, rfl⟩

/-- A text that contains the needle is hit. -/
theorem strstr_of_infix {needle : Bytes} :
    ∀ {s : Bytes}, needle <:+: s → ∃ k, strstr needle s = some k := by
  intro s
  induction s with
  | nil =>
      intro h
      exact ⟨0, if_pos (List.infix_nil.mp h)⟩
  | cons b bs ih =>
      intro h
      by_cases hp : needle.isPrefixOf (b :: bs) = true
      · exact ⟨0, if_pos hp⟩
      · rcases List.infix_cons_iff.mp h with hpre | hrest
        · exact absurd (List.isPrefixOf_iff_prefix.mpr hpre) hp
        · obtain ⟨k, hk⟩ := ih hrest
          refine ⟨k + 1, ?_⟩
          rw [strstr, if_neg hp, hk]
          rfl

/-- No hit in a text without the needle. -/
theorem strstr_eq_none {needle : Bytes} (hn : needle ≠ []) {s : Bytes}
    (h : ¬ needle <:+: s) : strstr needle s = none := by
  cases hk : strstr needle s with
  | none => rfl
  | some k =>
      obtain ⟨pre, post, rfl, -⟩ := strstr_split hn hk
      exact absurd ⟨pre, post, by rw [List.append_assoc]⟩ h

/-- A search passes over bytes with which the needle does not begin. -/
theorem strstr_skip {c : Byte} {needle pre : Bytes} (h : c ∉ pre) (s : Bytes) :
    strstr (c :: needle) (pre ++ s) = (strstr (c :: needle) s).map (· + pre.length) := by
  induction pre with
  | nil =>
      rw [List.nil_append]
      exact Option.map_id'.symm
  | cons b pre ih =>
      have hb : ¬ (c :: needle).isPrefixOf (b :: (pre ++ s)) = true := by
        intro hprefix
        obtain ⟨t, ht⟩ := List.isPrefixOf_iff_prefix.mp hprefix
        exact h (List.mem_cons.mpr (Or.inl (List.cons.inj ht).1))
      rw [List.cons_append, strstr, if_neg hb, ih (fun hmem => h (List.mem_cons_of_mem b hmem)),
        Option.map_map]
      rfl

/-- The needle behind bytes with which it does not begin. -/
theorem strstr_front {c : Byte} {needle pre : Bytes} (h : c ∉ pre) (rest : Bytes) :
    strstr (c :: needle) (pre ++ (c :: needle ++ rest)) = some pre.length := by
  have hhere : strstr (c :: needle) (c :: needle ++ rest) = some 0 := by
    rw [List.cons_append, strstr]
    exact if_pos (List.isPrefixOf_iff_prefix.mpr ⟨rest, rfl⟩)
  rw [strstr_skip h, hhere, Option.map_some, Nat.zero_add]

/-- A needle that begins with a byte the text does not have. -/
theorem strstr_absent {c : Byte} {needle s : Bytes} (h : c ∉ s) :
    strstr (c :: needle) s = none := by
  have hskip : strstr (c :: needle) (s ++ []) = none := strstr_skip h []
  rw [List.append_nil] at hskip
  exact hskip

/-- A byte of the text is found where it stands first. -/
theorem strstr_byte {c : Byte} {s : Bytes} (h : c ∈ s) :
    ∃ pre post, s = pre ++ c :: post ∧ c ∉ pre ∧ strstr [c] s = some pre.length := by
  obtain ⟨pre, post, rfl, hpre⟩ := List.eq_append_cons_of_mem h
  exact ⟨pre, post, rfl, hpre, strstr_front hpre post⟩

/-- What stands behind a hit. -/
theorem drop_behind (pre needle rest : Bytes) :
    (pre ++ (needle ++ rest)).drop (pre.length + needle.length) = rest := by
  rw [← List.append_assoc, ← List.length_append, List.drop_left]

/-- The hit of a search for one byte. -/
theorem strchr_split {c : Byte} :
    ∀ {s : Bytes} {k : Nat}, strchr c s = some k →
      ∃ pre post, s = pre ++ c :: post ∧ pre.length = k ∧ c ∉ pre := by
  intro s
  induction s with
  | nil => intro k h; cases h
  | cons b bs ih =>
      intro k h
      rw [strchr] at h
      by_cases hb : b = c
      · rw [if_pos hb] at h
        exact ⟨[], bs, by rw [hb]; rfl, Option.some.inj h, by simp⟩
      · rw [if_neg hb, Option.map_eq_some_iff] at h
        obtain ⟨j, hj, rfl⟩ := h
        obtain ⟨pre, post, rfl, rfl, hpre⟩ := ih hj
        refine ⟨b :: pre, post, rfl, rfl, ?_⟩
        intro hm
        rcases List.mem_cons.mp hm with heq | hmem
        · exact hb heq.symm
        · exact hpre hmem

theorem strchr_none {c : Byte} :
    ∀ {s : Bytes}, strchr c s = none → c ∉ s := by
  intro s
  induction s with
  | nil => intro _ hm; cases hm
  | cons b bs ih =>
      intro h hm
      rw [strchr] at h
      by_cases hb : b = c
      · rw [if_pos hb] at h
        cases h
      · rw [if_neg hb, Option.map_eq_none_iff] at h
        rcases List.mem_cons.mp hm with heq | hmem
        · exact hb heq.symm
        · exact ih h hmem

/-- A search for one byte passes over the others. -/
theorem strchr_skip {c : Byte} {pre : Bytes} (h : c ∉ pre) (s : Bytes) :
    strchr c (pre ++ s) = (strchr c s).map (pre.length + ·) := by
  induction pre with
  | nil =>
      show strchr c s = (strchr c s).map (0 + ·)
      simp
  | cons b pre ih =>
      have hb : b ≠ c := fun e => h (e ▸ List.mem_cons_self)
      rw [List.cons_append, strchr, if_neg hb, ih (fun hmem => h (List.mem_cons_of_mem b hmem)),
        Option.map_map]
      refine Option.map_congr fun k _ => ?_
      show pre.length + k + 1 = pre.length + 1 + k
      omega

theorem strchr_front {c : Byte} {pre : Bytes} (h : c ∉ pre) (rest : Bytes) :
    strchr c (pre ++ c :: rest) = some pre.length := by
  rw [strchr_skip h, strchr, if_pos rfl]
  rfl

theorem strchr_absent {c : Byte} {s : Bytes} (h : c ∉ s) : strchr c s = none := by
  have hskip : strchr c (s ++ []) = none := strchr_skip h []
  rw [List.append_nil] at hskip
  exact hskip

/-- What precedes the first hit of a byte. -/
theorem takeWhile_ne_append {c : Byte} {pre post : Bytes} (h : c ∉ pre) :
    (pre ++ c :: post).takeWhile (· ≠ c) = pre := by
  rw [List.takeWhile_append_of_pos]
  · simp
  · intro b hb
    have : b ≠ c := fun e => h (e ▸ hb)
    simpa using this

theorem takeWhile_ne_self {c : Byte} {s : Bytes} (h : c ∉ s) :
    s.takeWhile (· ≠ c) = s := by
  rw [List.takeWhile_eq_self_iff]
  intro b hb
  have : b ≠ c := fun e => h (e ▸ hb)
  simpa using this

/-! ## Reading a string back -/

theorem untilNul_append {s : Bytes} (h : (0 : Byte) ∉ s) (rest : Bytes) :
    untilNul (s ++ 0 :: rest) = some s := by
  induction s with
  | nil => rfl
  | cons b bs ih =>
      have hb : b ≠ 0 := fun e => h (by simp [e])
      have hbs : (0 : Byte) ∉ bs := fun m => h (List.mem_cons_of_mem _ m)
      show (if b = 0 then some [] else (untilNul (bs ++ 0 :: rest)).map (b :: ·))
        = some (b :: bs)
      rw [if_neg hb, ih hbs]
      rfl

/-- A string that was read lies before a NUL and has none inside. -/
theorem untilNul_split :
    ∀ {m s : Bytes}, untilNul m = some s → ∃ rest, m = s ++ 0 :: rest ∧ (0 : Byte) ∉ s := by
  intro m
  induction m with
  | nil => intro s h; cases h
  | cons b bs ih =>
      intro s h
      rw [untilNul] at h
      by_cases hb : b = 0
      · rw [if_pos hb] at h
        exact ⟨bs, by rw [← Option.some.inj h, hb]; rfl, by rw [← Option.some.inj h]; simp⟩
      · rw [if_neg hb, Option.map_eq_some_iff] at h
        obtain ⟨t, ht, rfl⟩ := h
        obtain ⟨rest, rfl, hnul⟩ := ih ht
        refine ⟨rest, rfl, ?_⟩
        intro hm
        rcases List.mem_cons.mp hm with heq | hmem
        · exact hb heq.symm
        · exact hnul hmem

/-- The byte of memory behind the `k`-th byte of a string. -/
theorem cstr_getElem? {mem : Bytes} {p : Nat} {pre post : Bytes} {b : Byte}
    (h : cstr mem p = some (pre ++ b :: post)) : mem[p + pre.length]? = some b := by
  obtain ⟨rest, hdrop, -⟩ := untilNul_split h
  rw [← List.getElem?_drop, hdrop]
  simp

/-- A NUL written inside a string ends it there. -/
theorem cstr_set_nul {mem : Bytes} {p : Nat} {pre post : Bytes} {b : Byte}
    (h : cstr mem p = some (pre ++ b :: post)) :
    cstr (mem.set (p + pre.length) 0) p = some pre := by
  obtain ⟨rest, hdrop, hnul⟩ := untilNul_split h
  have hpre : (0 : Byte) ∉ pre := fun hm => hnul (List.mem_append_left _ hm)
  have hset : (mem.set (p + pre.length) 0).drop p = pre ++ 0 :: (post ++ 0 :: rest) := by
    rw [List.drop_set, if_neg (by omega), Nat.add_sub_cancel_left, hdrop]
    simp
  rw [cstr, hset]
  exact untilNul_append hpre _

/-- A string laid down at `pre.length` and ended by a NUL reads back whole. -/
theorem cstr_append {s : Bytes} (h : (0 : Byte) ∉ s) (pre rest : Bytes) :
    cstr (pre ++ (s ++ 0 :: rest)) pre.length = some s := by
  rw [cstr, List.drop_left]
  exact untilNul_append h rest

/-! ## Windows of a text -/

/-- A window of a text in two parts that reaches the second part. -/
theorem prefix_split {w a b : Bytes} (h : w <+: a ++ b) (hlen : a.length ≤ w.length) :
    ∃ v, w = a ++ v ∧ v <+: b := by
  obtain ⟨t, ht⟩ := h
  refine ⟨w.drop a.length, ?_, t, ?_⟩
  · have ha : w.take a.length = a := by
      calc w.take a.length = (w ++ t).take a.length :=
            (List.take_append_of_le_length hlen).symm
        _ = a := by rw [ht, List.take_left]
    rw [← List.take_append_drop a.length w, ha, List.drop_left]
  · rw [← List.drop_append_of_le_length hlen, ht, List.drop_left]

/-- A window that stays within the first part. -/
theorem prefix_within {w a b : Bytes} (h : w <+: a ++ b) (hlen : w.length ≤ a.length) :
    w = a.take w.length := by
  obtain ⟨t, ht⟩ := h
  calc w = (w ++ t).take w.length := List.take_left.symm
    _ = (a ++ b).take w.length := by rw [ht]
    _ = a.take w.length := List.take_append_of_le_length hlen

/-! ## Numerals in base sixteen -/

/-- Every byte is a digit of base sixteen. -/
def AllHex (s : Bytes) : Prop := ∀ b ∈ s, (digitOf 16 b).isSome = true

/-- The rest of a text after a numeral: nothing, or a byte that is no digit. -/
def NoDigit (rest : Bytes) : Prop := ∀ b, rest.head? = some b → digitOf 16 b = none

theorem digitOf_lt {base v : Nat} {b : Byte} (h : digitOf base b = some v) : v < base := by
  simp only [digitOf, Option.ite_none_right_eq_some, Option.some.injEq] at h
  obtain ⟨hlt, rfl⟩ := h
  exact hlt

theorem AllHex.tail {b : Byte} {bs : Bytes} (h : AllHex (b :: bs)) : AllHex bs :=
  fun c hc => h c (List.mem_cons_of_mem _ hc)

theorem AllHex.take {s : Bytes} (h : AllHex s) (n : Nat) : AllHex (s.take n) :=
  fun c hc => h c (List.mem_of_mem_take hc)

/-- Digits are folded one text after the other. -/
theorem digits_append {s : Bytes} (h : AllHex s) (acc : Nat) (rest : Bytes) :
    digits 16 acc (s ++ rest) = digits 16 (digits 16 acc s).1 rest := by
  induction s generalizing acc with
  | nil => rfl
  | cons b bs ih =>
      obtain ⟨v, hv⟩ := Option.isSome_iff_exists.mp (h b List.mem_cons_self)
      rw [List.cons_append, digits, digits, hv]
      exact ih h.tail _

/-- A numeral is read up to the first byte that is no digit. -/
theorem digits_stop {s rest : Bytes} (h : AllHex s) (hrest : NoDigit rest) (acc : Nat) :
    digits 16 acc (s ++ rest) = ((digits 16 acc s).1, rest) := by
  rw [digits_append h]
  cases rest with
  | nil => rfl
  | cons b bs => rw [digits, hrest b rfl]

/-- A numeral of `k` digits adds less than one unit of the digit before it. -/
theorem digits_bounds {s : Bytes} (h : AllHex s) (acc : Nat) :
    acc * 16 ^ s.length ≤ (digits 16 acc s).1 ∧
      (digits 16 acc s).1 < (acc + 1) * 16 ^ s.length := by
  induction s generalizing acc with
  | nil => exact ⟨by simp [digits], by simp [digits]⟩
  | cons b bs ih =>
      obtain ⟨v, hv⟩ := Option.isSome_iff_exists.mp (h b List.mem_cons_self)
      have hlt := digitOf_lt hv
      obtain ⟨hlo, hhi⟩ := ih h.tail (acc * 16 + v)
      rw [digits, hv]
      constructor
      · calc acc * 16 ^ (b :: bs).length = (acc * 16) * 16 ^ bs.length := by
              rw [List.length_cons, Nat.pow_succ]; ring
          _ ≤ (acc * 16 + v) * 16 ^ bs.length :=
              Nat.mul_le_mul_right _ (Nat.le_add_right _ _)
          _ ≤ (digits 16 (acc * 16 + v) bs).1 := hlo
      · calc (digits 16 (acc * 16 + v) bs).1 < (acc * 16 + v + 1) * 16 ^ bs.length := hhi
          _ ≤ ((acc + 1) * 16) * 16 ^ bs.length := Nat.mul_le_mul_right _ (by omega)
          _ = (acc + 1) * 16 ^ (b :: bs).length := by
              rw [List.length_cons, Nat.pow_succ]; ring

/-- Only the byte `0` has the value zero. -/
theorem digitOf_pos : ∀ {b : Byte} {v : Nat}, digitOf 16 b = some v → b ≠ 48 → 0 < v := by
  have hzero : ∀ w : BitVec 8, digitOf 16 ⟨w⟩ = some 0 → w = 48 := by decide +kernel
  rintro ⟨w⟩ v h hb
  refine Nat.pos_of_ne_zero (fun hv => hb ?_)
  rw [hv] at h
  rw [hzero w h]
  rfl

/-- The value of a numeral without leading zeros fixes its number of digits. -/
theorem numeral_bounds {b : Byte} {bs : Bytes} (h : AllHex (b :: bs)) (hb : b ≠ 48) :
    16 ^ bs.length ≤ (digits 16 0 (b :: bs)).1 ∧
      (digits 16 0 (b :: bs)).1 < 16 ^ (bs.length + 1) := by
  obtain ⟨v, hv⟩ := Option.isSome_iff_exists.mp (h b List.mem_cons_self)
  have hpos := digitOf_pos hv hb
  have hhi := (digits_bounds h 0).2
  refine ⟨?_, by simpa using hhi⟩
  obtain ⟨hlo, -⟩ := digits_bounds h.tail v
  rw [digits, hv]
  calc 16 ^ bs.length ≤ v * 16 ^ bs.length := Nat.le_mul_of_pos_left _ hpos
    _ ≤ (digits 16 v bs).1 := hlo
    _ = (digits 16 (0 * 16 + v) bs).1 := by rw [Nat.zero_mul, Nat.zero_add]

/-- A digit is no blank, no sign and no NUL. -/
theorem digit_plain : ∀ {b : Byte}, (digitOf 16 b).isSome = true →
    isSpace b = false ∧ b ≠ 43 ∧ b ≠ 45 ∧ b ≠ 0 ∧ b ≠ 13 ∧ b ≠ 10 ∧ b ≠ 122 := by
  rintro ⟨v⟩
  revert v
  decide +kernel

/-- Nor is it an `x`, which behind a `0` would be skipped. -/
theorem digit_noX : ∀ {b : Byte}, (digitOf 16 b).isSome = true → b ≠ 120 ∧ b ≠ 88 := by
  rintro ⟨v⟩
  revert v
  decide +kernel

/-- **A NUMERAL IS READ BACK**: `strtol` in base sixteen on a numeral, which may have
    leading zeros but is not a mere `0`, and what follows it. -/
theorem strtol_hex {b : Byte} {bs rest : Bytes} (h : AllHex (b :: bs)) (hb : b = 48 → bs ≠ [])
    (hrest : NoDigit rest) :
    strtol 16 (b :: bs ++ rest) = clampLong ((digits 16 0 (b :: bs)).1 : Int) := by
  obtain ⟨hspace, hplus, hminus, -⟩ := digit_plain (h b List.mem_cons_self)
  have hdrop : (b :: bs ++ rest).dropWhile isSpace = b :: bs ++ rest := by
    rw [List.cons_append, List.dropWhile_cons, hspace]
    rfl
  have hsign : sign (b :: (bs ++ rest)) = (false, b :: (bs ++ rest)) := by
    rw [sign]
    · rintro t ⟨⟩; exact hplus rfl
    · rintro t ⟨⟩; exact hminus rfl
  have hskip : skip0x (b :: (bs ++ rest)) = b :: (bs ++ rest) := by
    by_cases hzero : b = 48
    · obtain ⟨x, xs, rfl⟩ := List.exists_cons_of_ne_nil (hb hzero)
      obtain ⟨hx, hX⟩ := digit_noX (h x (List.mem_cons_of_mem b List.mem_cons_self))
      rw [hzero, List.cons_append]
      cases xs ++ rest with
      | nil => rfl
      | cons d t =>
          rw [skip0x, if_neg]
          rintro ⟨hskip | hskip, -⟩
          · exact hx hskip
          · exact hX hskip
    · rw [skip0x]
      intro x d t heq
      exact absurd (List.cons.inj heq).1 hzero
  rw [strtol, hdrop, List.cons_append, hsign]
  simp only [if_true, hskip]
  rw [← List.cons_append, digits_stop h hrest]
  rfl

/-! ## Decimal numbers -/

/-- The decimal digits of a number. -/
def natDigits (n : Nat) : Bytes := (Nat.toDigits 10 n).map fun c => UInt8.ofNat c.toNat

theorem digitOf_digitChar :
    ∀ d, d < 10 → digitOf 10 (UInt8.ofNat (Nat.digitChar d).toNat) = some d := by
  decide

theorem natDigits_ne_nil (n : Nat) : natDigits n ≠ [] := by
  rw [natDigits]
  exact fun h => Nat.toDigits_ne_nil (List.map_eq_nil_iff.mp h)

/-- **PRINTED DIGITS** are read as the number they were printed from. -/
theorem digits_natDigits (n : Nat) (rest : Bytes) :
    digits 10 0 (natDigits n ++ rest) = digits 10 n rest := by
  induction n using Nat.strong_induction_on generalizing rest with
  | _ n ih =>
      rw [natDigits, Nat.toDigits_eq_if (by decide)]
      split_ifs with hlt
      · rw [List.map_singleton, List.singleton_append, digits, digitOf_digitChar n hlt]
        simp
      · have hlast : n % 10 < 10 := Nat.mod_lt n (by decide)
        have hfewer : n / 10 < n := Nat.div_lt_self (by omega) (by decide)
        rw [List.map_append, List.map_singleton, List.append_assoc]
        have hfirst := ih (n / 10) hfewer ([UInt8.ofNat (Nat.digitChar (n % 10)).toNat] ++ rest)
        rw [natDigits] at hfirst
        rw [hfirst, List.singleton_append, digits, digitOf_digitChar (n % 10) hlast]
        dsimp only
        rw [Nat.mul_comm, Nat.div_add_mod]

theorem decimal_natCast (n : Nat) : decimal n = natDigits n := by
  rw [decimal, if_neg (by omega), Int.natAbs_natCast, List.nil_append, natDigits]

/-- What `%d` prints is a decimal number if it is not negative. -/
theorem readDecimal_decimal {v : Int} {n : Nat} : readDecimal (decimal v) = some n ↔ v = n := by
  by_cases hneg : v < 0
  · constructor
    · intro h
      rw [decimal, if_pos hneg, readDecimal, if_neg] at h
      · cases h
      · rintro ⟨-, hrest⟩
        cases hrest
    · rintro rfl
      exact absurd hneg (by omega)
  · obtain ⟨k, rfl⟩ : ∃ k : Nat, v = k := ⟨v.toNat, by omega⟩
    have hread : digits 10 0 (natDigits k) = (k, []) := by
      have h := digits_natDigits k []
      rw [List.append_nil] at h
      rw [h, digits]
    rw [decimal_natCast, readDecimal, hread, if_pos ⟨natDigits_ne_nil k, rfl⟩]
    constructor
    · rintro h
      have hk : k = n := Option.some.inj h
      rw [hk]
    · rintro h
      have hk : k = n := Int.ofNat_inj.mp h
      rw [hk]

/-- A decimal digit is neither a blank nor a sign. -/
theorem decimal_digit : ∀ {b : Byte}, (digitOf 10 b).isSome = true →
    isSpace b = false ∧ b ≠ 43 ∧ b ≠ 45 := by
  rintro ⟨v⟩
  revert v
  decide +kernel

/-- What follows a text of digits is read as if it stood alone. -/
theorem digits_all {base : Nat} (rest : Bytes) : ∀ {s : Bytes} {acc : Nat},
    (digits base acc s).2 = [] →
    digits base acc (s ++ rest) = digits base (digits base acc s).1 rest := by
  intro s
  induction s with
  | nil => intro acc _; rfl
  | cons b s ih =>
      intro acc h
      rw [List.cons_append, digits]
      rw [digits] at h ⊢
      cases hv : digitOf base b with
      | none =>
          rw [hv] at h
          cases h
      | some v =>
          rw [hv] at h
          exact ih h

/-- A decimal is made of digits. -/
theorem decimal_mem {text : Bytes} {n : Nat} (h : readDecimal text = some n) :
    ∀ b ∈ text, (digitOf 10 b).isSome = true := by
  have hall : ∀ {s : Bytes} {acc : Nat}, (digits 10 acc s).2 = [] →
      ∀ b ∈ s, (digitOf 10 b).isSome = true := by
    intro s
    induction s with
    | nil => exact fun _ => by rintro _ ⟨⟩
    | cons c cs ih =>
        intro acc hrest b hb
        rw [digits] at hrest
        cases hv : digitOf 10 c with
        | none =>
            rw [hv] at hrest
            cases hrest
        | some v =>
            rw [hv] at hrest
            rcases List.mem_cons.mp hb with rfl | hmem
            · rw [hv]
              rfl
            · exact ih hrest b hmem
  rw [readDecimal] at h
  split at h
  case isFalse => cases h
  case isTrue hrest => exact hall hrest.2

/-- A byte that is no digit does not stand in a decimal. -/
theorem decimal_not_mem {text : Bytes} {n : Nat} {b : Byte} (h : readDecimal text = some n)
    (hb : digitOf 10 b = none) : b ∉ text := by
  intro hmem
  have hsome := decimal_mem h b hmem
  rw [hb] at hsome
  cases hsome

/-- The rest of a text after a decimal: nothing, or a byte that is no digit. -/
def NoDecimal (rest : Bytes) : Prop := ∀ b, rest.head? = some b → digitOf 10 b = none

/-- A decimal is folded up to the first byte that is no digit, and begins with
    neither a blank nor a sign. -/
theorem digits_decimal {text : Bytes} {n : Nat} (htext : readDecimal text = some n) :
    (∃ b bs, text = b :: bs ∧ (digitOf 10 b).isSome = true) ∧
      ∀ {rest : Bytes}, NoDecimal rest → digits 10 0 (text ++ rest) = (n, rest) := by
  rw [readDecimal] at htext
  split at htext
  case isFalse => cases htext
  case isTrue hall =>
    obtain ⟨hne, hrest⟩ := hall
    have hn : (digits 10 0 text).1 = n := Option.some.inj htext
    constructor
    · obtain ⟨b, bs, rfl⟩ := List.exists_cons_of_ne_nil hne
      refine ⟨b, bs, rfl, ?_⟩
      rw [digits] at hrest
      cases hv : digitOf 10 b with
      | none =>
          rw [hv] at hrest
          cases hrest
      | some v => rfl
    · intro rest hstop
      rw [digits_all rest hrest, hn]
      cases rest with
      | nil => rfl
      | cons c cs => rw [digits, hstop c rfl]

/-- The sign and the blanks that a conversion skips before a decimal. -/
theorem sign_decimal {before text rest : Bytes} {n : Nat}
    (hbefore : ∀ b ∈ before, b = 32 ∨ b = 9) (htext : readDecimal text = some n) :
    sign ((before ++ (text ++ rest)).dropWhile isSpace) = (false, text ++ rest) := by
  obtain ⟨⟨b, bs, rfl, hdigit⟩, -⟩ := digits_decimal htext
  obtain ⟨hspace, hplus, hminus⟩ := decimal_digit hdigit
  have hdrop : (before ++ (b :: bs ++ rest)).dropWhile isSpace = b :: (bs ++ rest) := by
    rw [List.dropWhile_append_of_pos]
    · rw [List.cons_append, List.dropWhile_cons, hspace]
      rfl
    · intro c hc
      rcases hbefore c hc with rfl | rfl
      · rfl
      · rfl
  rw [hdrop, sign]
  · rfl
  · rintro t ⟨⟩
    exact hplus rfl
  · rintro t ⟨⟩
    exact hminus rfl

/-- `%d` reads a decimal behind blanks, up to the first byte that is no digit. -/
theorem scanInt_digits {before text rest : Bytes} {n : Nat}
    (hbefore : ∀ b ∈ before, b = 32 ∨ b = 9) (hrest : NoDecimal rest)
    (htext : readDecimal text = some n) :
    scanInt (before ++ (text ++ rest)) = some (clampLong n, rest) := by
  obtain ⟨⟨b, bs, rfl, hdigit⟩, hread⟩ := digits_decimal htext
  have hread' : digits 10 0 (b :: (bs ++ rest)) = (n, rest) := hread hrest
  rw [scanInt, sign_decimal hbefore htext, List.cons_append]
  simp only [hdigit, if_true, hread', Bool.false_eq_true, if_false]

theorem scanInt_front {text rest : Bytes} {n : Nat} (hrest : NoDecimal rest)
    (htext : readDecimal text = some n) : scanInt (text ++ rest) = some (clampLong n, rest) := by
  have hscan : scanInt ([] ++ (text ++ rest)) = some (clampLong n, rest) :=
    scanInt_digits (by rintro _ ⟨⟩) hrest htext
  exact hscan

/-- So does `strtol`. -/
theorem strtol_digits {text rest : Bytes} {n : Nat} (hrest : NoDecimal rest)
    (htext : readDecimal text = some n) : strtol 10 (text ++ rest) = clampLong n := by
  have hsign : sign (([] ++ (text ++ rest)).dropWhile isSpace) = (false, text ++ rest) :=
    sign_decimal (by rintro _ ⟨⟩) htext
  have hread : digits 10 0 (text ++ rest) = (n, rest) := (digits_decimal htext).2 hrest
  rw [List.nil_append] at hsign
  rw [strtol, hsign]
  simp only [Bool.false_eq_true, if_false, Nat.reduceEqDiff, hread]

/-- **A DECIMAL IS READ THROUGH THE BLANKS** before it and behind it. -/
theorem scanInt_decimal {before text behind : Bytes} {n : Nat}
    (hbefore : ∀ b ∈ before, b = 32 ∨ b = 9) (hbehind : ∀ b ∈ behind, b = 32 ∨ b = 9)
    (htext : readDecimal text = some n) :
    scanInt (before ++ (text ++ behind)) = some (clampLong n, behind) := by
  refine scanInt_digits hbefore (fun b hb => ?_) htext
  rcases hbehind b (List.mem_of_head? hb) with rfl | rfl
  · rfl
  · rfl

/-- A number is kept as an `int` if it is one. -/
theorem toInt_natCast_iff (n : Nat) : toInt n = n ↔ n < 2 ^ 31 := by
  rw [toInt, Int.bmod_def]
  constructor
  · intro h
    split_ifs at h <;> omega
  · intro h
    rw [if_pos] <;> omega

end CBytes
