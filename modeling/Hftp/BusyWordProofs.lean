import Hftp.ThreadsProofs

/-! # The busy word

    `g_thread_work_flag` is a word of 64 bits, one for each worker that
    `MIN(64, g_workspace_count)` admits.  The constant that is shifted into place is an
    `int`, though: it is widened with its sign, and a shift by 32 or more is whatever
    the machine makes of it.

    So the word is never more than an `int` that was widened, and it is a set of
    workers as long as an `int` has a bit for each of them. -/

namespace BusyWord

/-! ## The word -/

/-- `long long int g_thread_work_flag` -/
abbrev Word := BitVec 64

section Code

variable (wide : Nat → BitVec 32)

/-- `0x01 << i`; `wide` is what the machine makes of a shift by the width or more. -/
def shifted (i : Nat) : BitVec 32 := if i < 32 then 1#32 <<< i else wide i

/-- `g_thread_work_flag | (0x01 << i)` -/
def setBit (w : Word) (i : Nat) : Word := w ||| (shifted wide i).signExtend 64

/-- `g_thread_work_flag & ~(0x01 << i)` -/
def clearBit (w : Word) (i : Nat) : Word := w &&& (~~~(shifted wide i)).signExtend 64

/-- `is_idle_thread(i)`: the masked word is stored into an `int`. -/
def isIdleThread (w : Word) (i : Nat) : Bool :=
  (w &&& (shifted wide i).signExtend 64).setWidth 32 = 0#32

/-- `get_idle_work_thread_index_not_safety()` -/
def getIdleWorkThreadIndexNotSafety (workspaceCount : Nat) (w : Word) : Int :=
  let idle := (List.range (min 64 workspaceCount)).find? fun i =>
    w &&& (shifted wide i).signExtend 64 = 0#64
  match idle with
  | some i => i
  | none => -1

/-! ## Updates -/

/-- What is done to the word, under its lock: the dispatcher gives a worker work, or a
    worker has none left. -/
inductive Update where
  | set (i : Nat)
  | clear (i : Nat)
  deriving DecidableEq, Repr

def Update.worker : Update → Nat
  | .set i => i
  | .clear i => i

def update (w : Word) : Update → Word
  | .set i => setBit wide w i
  | .clear i => clearBit wide w i

/-- The word after a sequence of updates. -/
def wordAfter (us : List Update) : Word := us.foldl (update wide) 0#64

end Code

/-- The last update of a worker. -/
def lastOf (us : List Update) (i : Nat) : Option Update := us.reverse.find? (·.worker = i)

/-- Updates of the first `n` workers. -/
def Within (n : Nat) (us : List Update) : Prop := ∀ u ∈ us, u.worker < n

/-- **A SET OF WORKERS**: a worker is idle if its last update was a clear, or if there
    was none; an update of one is nothing to the others; and the least idle worker is
    found, if there is one. -/
structure IsSet (wide : Nat → BitVec 32) (n : Nat) : Prop where
  last : ∀ us, Within n us → ∀ i < n, (isIdleThread wide (wordAfter wide us) i = true ↔
    lastOf us i = none ∨ lastOf us i = some (.clear i))
  others : ∀ us, Within n us → ∀ u, u.worker < n → ∀ j < n, j ≠ u.worker →
    isIdleThread wide (update wide (wordAfter wide us) u) j =
      isIdleThread wide (wordAfter wide us) j
  least : ∀ us, Within n us → ∀ i : Nat,
    getIdleWorkThreadIndexNotSafety wide n (wordAfter wide us) = i ↔
      i < n ∧ isIdleThread wide (wordAfter wide us) i = true ∧
        ∀ j < i, isIdleThread wide (wordAfter wide us) j = false
  none : ∀ us, Within n us →
    (getIdleWorkThreadIndexNotSafety wide n (wordAfter wide us) = -1 ↔
      ∀ i < n, isIdleThread wide (wordAfter wide us) i = false)

/-! ## The word is an `int` -/

section Int

variable (wide : Nat → BitVec 32)

/-- A word that was extended is cut back to what it was. -/
theorem setWidth_signExtend (x : BitVec 32) : (x.signExtend 64).setWidth 32 = x := by
  refine BitVec.eq_of_getLsbD_eq fun i hi => ?_
  rw [BitVec.getLsbD_setWidth, BitVec.getLsbD_signExtend, decide_eq_true hi,
    decide_eq_true (show i < 64 by omega), if_pos hi]
  rfl

/-- An extended word is zero exactly if the word was. -/
theorem signExtend_eq_zero (x : BitVec 32) : x.signExtend 64 = 0#64 ↔ x = 0#32 := by
  constructor
  · intro h
    have hback := congrArg (BitVec.setWidth 32) h
    rw [setWidth_signExtend] at hback
    exact hback
  · rintro rfl
    rfl

/-- The updates of an `int`. -/
def updateInt (x : BitVec 32) : Update → BitVec 32
  | .set i => x ||| shifted wide i
  | .clear i => x &&& ~~~(shifted wide i)

def intAfter (us : List Update) : BitVec 32 := us.foldl (updateInt wide) 0#32

/-- An update of an extended word is one of the word. -/
theorem update_signExtend (x : BitVec 32) (u : Update) :
    update wide (x.signExtend 64) u = (updateInt wide x u).signExtend 64 := by
  cases u with
  | set i => exact BitVec.signExtend_or.symm
  | clear i => exact BitVec.signExtend_and.symm

/-- **THE WORD IS NO MORE THAN AN `int`**, whatever the updates. -/
theorem wordAfter_eq (us : List Update) :
    wordAfter wide us = (intAfter wide us).signExtend 64 := by
  induction us using List.reverseRecOn with
  | nil => rfl
  | append_singleton us u ih =>
      rw [wordAfter, List.foldl_concat]
      show update wide (wordAfter wide us) u = _
      rw [ih, update_signExtend, intAfter, intAfter, List.foldl_concat]

/-- The test of an extended word looks at the word. -/
theorem isIdleThread_signExtend (x : BitVec 32) (i : Nat) :
    isIdleThread wide (x.signExtend 64) i = decide (x &&& shifted wide i = 0#32) := by
  rw [isIdleThread, ← BitVec.signExtend_and, setWidth_signExtend]

/-- The search of an extended word asks that test. -/
theorem getIdle_signExtend (n : Nat) (x : BitVec 32) :
    getIdleWorkThreadIndexNotSafety wide n (x.signExtend 64) =
      match (List.range (min 64 n)).find? fun i => isIdleThread wide (x.signExtend 64) i with
      | some i => (i : Int)
      | none => -1 := by
  have htest : ∀ i, decide (x.signExtend 64 &&& (shifted wide i).signExtend 64 = 0#64) =
      isIdleThread wide (x.signExtend 64) i := by
    intro i
    rw [isIdleThread_signExtend, ← BitVec.signExtend_and]
    exact decide_eq_decide.mpr (signExtend_eq_zero _)
  rw [getIdleWorkThreadIndexNotSafety]
  simp only [htest]

end Int

/-! ## Workers that have a bit -/

section Bits

variable (wide : Nat → BitVec 32)

/-- Below 32 the shift gives the bit of the worker. -/
theorem shifted_twoPow {i : Nat} (hi : i < 32) : shifted wide i = BitVec.twoPow 32 i := by
  rw [shifted, if_pos hi, BitVec.twoPow_eq]

/-- It gives no other bit. -/
theorem getLsbD_shifted {i : Nat} (hi : i < 32) (j : Nat) :
    (shifted wide i).getLsbD j = decide (i = j) := by
  rw [shifted_twoPow wide hi, BitVec.getLsbD_twoPow, decide_eq_true hi, Bool.true_and]

/-- Below 32 the test looks at the bit of the worker. -/
theorem idle_bit (x : BitVec 32) {i : Nat} (hi : i < 32) :
    isIdleThread wide (x.signExtend 64) i = !x.getLsbD i := by
  rw [isIdleThread_signExtend, shifted_twoPow wide hi, BitVec.and_twoPow]
  cases hbit : x.getLsbD i with
  | false => rfl
  | true =>
      refine decide_eq_false fun hzero => ?_
      rw [if_pos rfl] at hzero
      have hget := congrArg (BitVec.getLsbD · i) hzero
      rw [BitVec.getLsbD_twoPow, decide_eq_true hi, decide_eq_true rfl] at hget
      exact Bool.noConfusion (hget.trans BitVec.getLsbD_zero)

/-- Below 32 an update writes the bit of its worker and no other. -/
theorem updateInt_bit (x : BitVec 32) {u : Update} (hu : u.worker < 32) {j : Nat} (hj : j < 32) :
    (updateInt wide x u).getLsbD j =
      if j = u.worker then decide (u = .set j) else x.getLsbD j := by
  cases u with
  | set i =>
      have hi : i < 32 := hu
      rw [updateInt, BitVec.getLsbD_or, getLsbD_shifted wide hi]
      show (x.getLsbD j || decide (i = j)) = if j = i then decide (Update.set i = .set j) else _
      by_cases hji : j = i
      · rw [if_pos hji, decide_eq_true hji.symm, hji, decide_eq_true rfl, Bool.or_true]
      · rw [if_neg hji, decide_eq_false (Ne.symm hji), Bool.or_false]
  | clear i =>
      have hi : i < 32 := hu
      rw [updateInt, BitVec.getLsbD_and, BitVec.getLsbD_not, getLsbD_shifted wide hi,
        decide_eq_true hj, Bool.true_and]
      show (x.getLsbD j && !decide (i = j)) = if j = i then decide (Update.clear i = .set j) else _
      by_cases hji : j = i
      · rw [if_pos hji, decide_eq_true hji.symm, Bool.not_true, Bool.and_false]
        exact (decide_eq_false (by rintro ⟨⟩)).symm
      · rw [if_neg hji, decide_eq_false (Ne.symm hji), Bool.not_false, Bool.and_true]

/-- The last update of a worker is the last one if it is of that worker. -/
theorem lastOf_concat (us : List Update) (u : Update) (i : Nat) :
    lastOf (us ++ [u]) i = if u.worker = i then some u else lastOf us i := by
  rw [lastOf, List.reverse_concat, List.find?_cons]
  by_cases hu : u.worker = i
  · rw [if_pos hu, decide_eq_true hu]
  · rw [if_neg hu, decide_eq_false hu]
    rfl

/-- **A BIT IS WHAT WAS DONE LAST** to its worker, by induction on the updates. -/
theorem intAfter_bit {us : List Update} (hus : Within 32 us) {i : Nat} (hi : i < 32) :
    (intAfter wide us).getLsbD i = decide (lastOf us i = some (.set i)) := by
  induction us using List.reverseRecOn with
  | nil => exact BitVec.getLsbD_zero
  | append_singleton us u ih =>
      have hu := hus u (List.mem_append_right us List.mem_cons_self)
      have hrest : Within 32 us := fun v hv => hus v (List.mem_append_left [u] hv)
      rw [intAfter, List.foldl_concat]
      show (updateInt wide (intAfter wide us) u).getLsbD i = _
      rw [updateInt_bit wide _ hu hi, lastOf_concat, ih hrest]
      by_cases hiu : i = u.worker
      · rw [if_pos hiu, if_pos hiu.symm]
        exact decide_eq_decide.mpr Option.some_inj.symm
      · rw [if_neg hiu, if_neg (Ne.symm hiu)]

end Bits

/-! ## How many workers there may be -/

section Count

variable (wide : Nat → BitVec 32)

/-- Below 32 a worker is idle if its bit was never set, or cleared last. -/
theorem idle_iff {us : List Update} (hus : Within 32 us) {i : Nat} (hi : i < 32) :
    isIdleThread wide (wordAfter wide us) i = true ↔
      lastOf us i = none ∨ lastOf us i = some (.clear i) := by
  rw [wordAfter_eq, idle_bit wide _ hi, intAfter_bit wide hus hi, Bool.not_eq_true',
    decide_eq_false_iff_not]
  cases hlast : lastOf us i with
  | none => exact ⟨fun _ => Or.inl rfl, fun _ => by rintro ⟨⟩⟩
  | some u =>
      have hworker : u.worker = i := by
        have hfound := List.find?_some hlast
        exact of_decide_eq_true hfound
      cases u with
      | set j =>
          obtain rfl : j = i := hworker
          exact ⟨fun h => absurd rfl h, fun h => h.elim (by rintro ⟨⟩) (by rintro ⟨⟩)⟩
      | clear j =>
          obtain rfl : j = i := hworker
          exact ⟨fun _ => Or.inr rfl, fun _ => by rintro ⟨⟩⟩

/-- The search for an idle worker, by `is_idle_thread`. -/
theorem getIdle_eq (n : Nat) (us : List Update) :
    getIdleWorkThreadIndexNotSafety wide n (wordAfter wide us) =
      match (List.range (min 64 n)).find? fun i => isIdleThread wide (wordAfter wide us) i with
      | some i => (i : Int)
      | none => -1 := by
  rw [wordAfter_eq]
  exact getIdle_signExtend wide n _

/-- Up to 32 workers have a bit each. -/
theorem isSet_of_le {n : Nat} (hn : n ≤ 32) : IsSet wide n := by
  have hwithin : ∀ {us}, Within n us → Within 32 us :=
    fun hus u hu => Nat.lt_of_lt_of_le (hus u hu) hn
  have hmin : min 64 n = n := Nat.min_eq_right (by omega)
  refine ⟨fun us hus i hi => idle_iff wide (hwithin hus) (by omega), ?_, ?_, ?_⟩
  · intro us hus u hu j hj hne
    rw [wordAfter_eq, update_signExtend, idle_bit wide _ (by omega), idle_bit wide _ (by omega),
      updateInt_bit wide _ (by omega) (by omega), if_neg hne]
  · intro us hus i
    rw [getIdle_eq, hmin]
    cases hfind : (List.range n).find? fun i => isIdleThread wide (wordAfter wide us) i with
    | none =>
        rw [List.find?_range_eq_none] at hfind
        constructor
        · intro h
          cases h
        · rintro ⟨hi, hidle, -⟩
          have hnot := hfind i hi
          rw [hidle] at hnot
          cases hnot
    | some k =>
        obtain ⟨hidle, hk, hless⟩ := List.find?_range_eq_some.mp hfind
        constructor
        · intro h
          obtain rfl : k = i := Int.ofNat.inj h
          exact ⟨List.mem_range.mp hk, hidle, fun j hj => Bool.not_eq_true' _ ▸ hless j hj⟩
        · rintro ⟨-, hidle', hless'⟩
          -- neither of the two lies before the other
          rcases Nat.lt_trichotomy k i with hlt | rfl | hgt
          · rw [hless' k hlt] at hidle
            cases hidle
          · rfl
          · have hnot := hless i hgt
            rw [hidle'] at hnot
            cases hnot
  · intro us hus
    rw [getIdle_eq, hmin]
    cases hfind : (List.range n).find? fun i => isIdleThread wide (wordAfter wide us) i with
    | none =>
        rw [List.find?_range_eq_none] at hfind
        exact ⟨fun _ i hi => Bool.not_eq_true' _ ▸ hfind i hi, fun _ => rfl⟩
    | some k =>
        obtain ⟨hidle, hk, -⟩ := List.find?_range_eq_some.mp hfind
        constructor
        · intro h
          have hneg : (k : Int) = -1 := h
          omega
        · intro hall
          rw [hall k (List.mem_range.mp hk)] at hidle
          cases hidle

/-- With one more worker, the constant it shifts in has a bit of another worker or
    none, whatever the machine makes of it. -/
theorem le_of_isSet {n : Nat} (h : IsSet wide n) : n ≤ 32 := by
  by_contra hn
  have hlast : 32 < n := by omega
  have hsingle : Within n [.set 32] := by
    intro u hu
    obtain rfl := List.mem_singleton.mp hu
    exact hlast
  have hword : wordAfter wide [.set 32] = (shifted wide 32).signExtend 64 := by
    rw [wordAfter_eq]
    exact congrArg _ BitVec.zero_or
  have hzero : shifted wide 32 = 0#32 := by
    refine BitVec.eq_of_getLsbD_eq fun i hi => ?_
    have hother := h.others [] (by rintro _ ⟨⟩) (.set 32) hlast i (by omega) (by show i ≠ 32; omega)
    have hidle : isIdleThread wide (wordAfter wide []) i = true :=
      (h.last [] (by rintro _ ⟨⟩) i (by omega)).mpr (Or.inl rfl)
    rw [hidle] at hother
    have hset : isIdleThread wide (wordAfter wide [.set 32]) i = true := hother
    rw [hword, idle_bit wide _ hi] at hset
    rw [BitVec.getLsbD_zero]
    exact Bool.not_eq_true' _ ▸ hset
  have hbusy : isIdleThread wide (wordAfter wide [.set 32]) 32 = true := by
    rw [hword, hzero]
    exact isIdleThread_signExtend wide 0#32 32 ▸ decide_eq_true BitVec.zero_and
  rcases (h.last _ hsingle 32 hlast).mp hbusy with hnone | hclear
  · cases hnone
  · cases hclear

/-- **THE WORD IS A SET OF WORKERS** exactly if there are at most 32 of them. -/
theorem isSet_iff (n : Nat) : IsSet wide n ↔ n ≤ 32 :=
  ⟨le_of_isSet wide, isSet_of_le wide⟩

end Count

/-- What a processor makes of a shift by 32 or more that counts modulo 32. -/
def wrapping (i : Nat) : BitVec 32 := 1#32 <<< (i % 32)

/-- Of 33 workers, the last one is given work and the first one is busy. -/
theorem not_isSet_thirtyThree : ¬ IsSet wrapping 33 := by
  intro h
  have hother := h.others [] (by rintro _ ⟨⟩) (.set 32) (by decide) 0 (by decide) (by decide)
  exact absurd hother (by decide)

end BusyWord
