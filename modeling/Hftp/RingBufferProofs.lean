import Mathlib.Data.List.Range
import Mathlib.Data.Nat.ModEq
import Mathlib.Logic.Function.Basic

/-! # Ring buffers

    An array of `cap` cells, the index of the oldest entry and a count.  Nothing
    in the representation keeps the count below `cap`: an entry is put in at the
    place after the last, wherever that is.  While there is room the buffer is a
    first-in first-out queue. -/

namespace RingBuffer

variable {α : Type}

structure RingBuf (α : Type) where
  cells : Nat → α
  start : Nat
  count : Nat

/-- The entries from the oldest on. -/
def RingBuf.contents (cap : Nat) (r : RingBuf α) : List α :=
  (List.range r.count).map fun i => r.cells ((r.start + i) % cap)

def RingBuf.enqueue (cap : Nat) (x : α) (r : RingBuf α) : RingBuf α :=
  { r with cells := Function.update r.cells ((r.start + r.count) % cap) x,
           count := r.count + 1 }

/-- The oldest entry. -/
def RingBuf.head (cap : Nat) (r : RingBuf α) : α := r.cells (r.start % cap)

def RingBuf.dequeue (cap : Nat) (r : RingBuf α) : RingBuf α :=
  { r with start := (r.start + 1) % cap, count := r.count - 1 }

/-- No entries; every cell holds `x`. -/
def RingBuf.empty (x : α) : RingBuf α := { cells := fun _ => x, start := 0, count := 0 }

theorem RingBuf.contents_length (cap : Nat) (r : RingBuf α) : (r.contents cap).length = r.count := by
  rw [RingBuf.contents, List.length_map, List.length_range]

theorem RingBuf.contents_eq_nil {cap : Nat} {r : RingBuf α} : r.contents cap = [] ↔ r.count = 0 := by
  rw [← List.length_eq_zero_iff, r.contents_length]

/-- Two places fewer than `cap` apart are different cells. -/
theorem place_ne {cap start i j : Nat} (hij : i < j) (hj : j < i + cap) :
    (start + i) % cap ≠ (start + j) % cap := by
  intro h
  have hmod : Nat.ModEq cap (start + i) (start + j) := h
  have hdvd := (Nat.modEq_iff_dvd' (by omega)).mp hmod
  have hle := Nat.le_of_dvd (by omega) hdvd
  omega

/-- **WHILE THERE IS ROOM** an entry goes to the end. -/
theorem RingBuf.contents_enqueue {cap : Nat} (x : α) {r : RingBuf α} (hroom : r.count < cap) :
    (r.enqueue cap x).contents cap = r.contents cap ++ [x] := by
  rw [RingBuf.contents, RingBuf.contents, RingBuf.enqueue, List.range_succ, List.map_append,
    List.map_singleton]
  dsimp only
  rw [Function.update_self]
  congr 1
  refine List.map_congr_left (fun i hi => ?_)
  have hlt : i < r.count := List.mem_range.mp hi
  exact Function.update_of_ne (place_ne hlt (by omega)) _ _

/-- Room or no room, nothing else comes in. -/
theorem RingBuf.mem_enqueue {cap : Nat} {x y : α} {r : RingBuf α}
    (h : y ∈ (r.enqueue cap x).contents cap) :
    y = x ∨ y ∈ r.contents cap := by
  rw [RingBuf.contents, RingBuf.enqueue] at h
  obtain ⟨i, hi, rfl⟩ := List.mem_map.mp h
  have hlt : i < r.count + 1 := List.mem_range.mp hi
  dsimp only
  by_cases hplace : (r.start + i) % cap = (r.start + r.count) % cap
  · rw [hplace, Function.update_self]
    exact Or.inl rfl
  · rw [Function.update_of_ne hplace]
    have hne : i ≠ r.count := by
      rintro rfl
      exact hplace rfl
    refine Or.inr (List.mem_map.mpr ⟨i, List.mem_range.mpr ?_, rfl⟩)
    exact Nat.lt_of_le_of_ne (Nat.le_of_lt_succ hlt) hne

/-- What is taken out is the first entry. -/
theorem RingBuf.contents_dequeue {cap : Nat} {r : RingBuf α} (hpos : r.count ≠ 0) :
    r.contents cap = r.head cap :: (r.dequeue cap).contents cap := by
  obtain ⟨n, hn⟩ : ∃ n, r.count = n + 1 := ⟨r.count - 1, by omega⟩
  rw [RingBuf.contents, RingBuf.contents, RingBuf.head, RingBuf.dequeue, hn, List.range_succ_eq_map,
    List.map_cons, List.map_map]
  dsimp only
  rw [Nat.add_zero, Nat.add_sub_cancel]
  congr 1
  refine List.map_congr_left (fun i _ => ?_)
  show r.cells ((r.start + (i + 1)) % cap) = r.cells (((r.start + 1) % cap + i) % cap)
  rw [Nat.mod_add_mod, Nat.add_assoc, Nat.add_comm 1 i]

/-! ## The search of a buffer -/

/-- Whether one of `n` entries from place `i` on passes a test. -/
def RingBuf.findFrom (cap : Nat) (p : α → Bool) (r : RingBuf α) : Nat → Nat → Bool
  | 0, _ => false
  | n + 1, i => if p (r.cells ((r.start + i) % cap)) then true else r.findFrom cap p n (i + 1)

theorem RingBuf.findFrom_iff {cap : Nat} {p : α → Bool} {r : RingBuf α} (n i : Nat) :
    r.findFrom cap p n i = true ↔
      ∃ j, i ≤ j ∧ j < i + n ∧ p (r.cells ((r.start + j) % cap)) = true := by
  induction n generalizing i with
  | zero =>
      constructor
      · rintro ⟨⟩
      · rintro ⟨j, hle, hlt, -⟩
        exact absurd hlt (Nat.not_lt.mpr hle)
  | succ n ih =>
      rw [RingBuf.findFrom]
      by_cases hp : p (r.cells ((r.start + i) % cap)) = true
      · rw [if_pos hp]
        exact ⟨fun _ => ⟨i, Nat.le_refl i, by omega, hp⟩, fun _ => rfl⟩
      · rw [if_neg hp, ih]
        constructor
        · rintro ⟨j, hle, hlt, hj⟩
          exact ⟨j, by omega, by omega, hj⟩
        · rintro ⟨j, hle, hlt, hj⟩
          have hne : i ≠ j := by
            rintro rfl
            exact hp hj
          exact ⟨j, by omega, by omega, hj⟩

/-- **A SEARCH** finds exactly what is in the buffer. -/
theorem RingBuf.findFrom_contents {cap : Nat} {p : α → Bool} {r : RingBuf α} :
    r.findFrom cap p r.count 0 = true ↔ ∃ x ∈ r.contents cap, p x = true := by
  rw [RingBuf.findFrom_iff]
  constructor
  · rintro ⟨j, -, hlt, hj⟩
    rw [Nat.zero_add] at hlt
    exact ⟨_, List.mem_map.mpr ⟨j, List.mem_range.mpr hlt, rfl⟩, hj⟩
  · rintro ⟨x, hx, hp⟩
    obtain ⟨j, hj, rfl⟩ := List.mem_map.mp hx
    exact ⟨j, Nat.zero_le j, by rw [Nat.zero_add]; exact List.mem_range.mp hj, hp⟩

/-! ## Operations -/

/-- An operation on a queue. -/
inductive Op (α : Type) where
  | enqueue (x : α)
  | dequeue
  deriving DecidableEq, Repr

/-- What an operation returns: whether the entry was stored, or the entry. -/
inductive Result (α : Type) where
  | stored (ok : Bool)
  | taken (x : α)
  deriving DecidableEq, Repr

/-- A queue that holds at most `cap` entries and refuses one more; to take an
    entry out of an empty queue is not defined. -/
def fifoStep (cap : Nat) (l : List α) : Op α → Option (Result α × List α)
  | .enqueue x => if l.length < cap then some (.stored true, l ++ [x]) else some (.stored false, l)
  | .dequeue =>
      match l with
      | [] => none
      | x :: xs => some (.taken x, xs)

/-- The results of a list of operations, and what they leave. -/
def runOps {σ : Type} (step : σ → Op α → Option (Result α × σ)) :
    σ → List (Op α) → Option (List (Result α) × σ)
  | s, [] => some ([], s)
  | s, op :: ops =>
      match step s op with
      | none => none
      | some (r, t) => (runOps step t ops).map fun rest => (r :: rest.1, rest.2)

/-- Nothing is taken out while nothing is in; `n` entries are in at the start. -/
def Admissible : Nat → List (Op α) → Prop
  | _, [] => True
  | n, .enqueue _ :: ops => Admissible (n + 1) ops
  | n, .dequeue :: ops => 0 < n ∧ Admissible (n - 1) ops

/-- Nothing is put in while `cap` entries are in. -/
def Fits (cap : Nat) : Nat → List (Op α) → Prop
  | _, [] => True
  | n, .enqueue _ :: ops => n < cap ∧ Fits cap (n + 1) ops
  | n, .dequeue :: ops => Fits cap (n - 1) ops

instance decidableAdmissible : ∀ (n : Nat) (ops : List (Op α)), Decidable (Admissible n ops)
  | _, [] => inferInstanceAs (Decidable True)
  | n, .enqueue _ :: ops => decidableAdmissible (n + 1) ops
  | n, .dequeue :: ops =>
      have := decidableAdmissible (n - 1) ops
      inferInstanceAs (Decidable (_ ∧ _))

theorem admissible_enqueues (n : Nat) (l : List α) : Admissible n (l.map Op.enqueue) := by
  induction l generalizing n with
  | nil => exact trivial
  | cons x xs ih => exact ih (n + 1)

/-- Entries that come one after the other all find room if the last one does. -/
theorem fits_enqueues {cap n : Nat} {l : List α} (hn : n ≤ cap) :
    Fits cap n (l.map Op.enqueue) ↔ n + l.length ≤ cap := by
  induction l generalizing n with
  | nil => exact ⟨fun _ => hn, fun _ => trivial⟩
  | cons x xs ih =>
      rw [List.map_cons, Fits, List.length_cons]
      constructor
      · rintro ⟨hroom, hrest⟩
        have hlen := (ih hroom).mp hrest
        omega
      · intro hlen
        have hroom : n + 1 ≤ cap := by omega
        exact ⟨hroom, (ih hroom).mpr (by omega)⟩

/-- **A BUFFER IS A QUEUE** as far as some operations go: whatever part of them
    was done, the results are those of the queue, and the buffer agrees with what
    the queue is left with. -/
def Faithful {σ : Type} (cap : Nat) (step : σ → Op α → Option (Result α × σ))
    (Agrees : σ → List α → Prop) (s : σ) (l : List α) (ops : List (Op α)) : Prop :=
  ∀ part, part <+: ops → ∃ results t left, runOps step s part = some (results, t) ∧
    runOps (fifoStep cap) l part = some (results, left) ∧ Agrees t left

/-- A buffer that stores whatever it is given, and is asked for an entry only
    when it has one. -/
def RingBuf.step (cap : Nat) (r : RingBuf α) : Op α → Option (Result α × RingBuf α)
  | .enqueue x => some (.stored true, r.enqueue cap x)
  | .dequeue => if r.count = 0 then none else some (.taken (r.head cap), r.dequeue cap)

section Faithful

variable {σ : Type} {cap : Nat} {step : σ → Op α → Option (Result α × σ)}
  {Agrees : σ → List α → Prop}

theorem runOps_cons {s t : σ} {op : Op α} {r : Result α} (h : step s op = some (r, t))
    (ops : List (Op α)) :
    runOps step s (op :: ops) = (runOps step t ops).map fun rest => (r :: rest.1, rest.2) := by
  rw [runOps, h]

theorem faithful_nil {s : σ} {l : List α} : Faithful cap step Agrees s l [] ↔ Agrees s l := by
  constructor
  · intro h
    obtain ⟨results, t, left, hrun, hfifo, hagrees⟩ := h [] List.prefix_rfl
    rw [runOps] at hrun hfifo
    obtain ⟨rfl, rfl⟩ := Prod.mk.inj (Option.some.inj hrun)
    obtain ⟨-, rfl⟩ := Prod.mk.inj (Option.some.inj hfifo)
    exact hagrees
  · rintro hagrees part hpart
    rw [List.prefix_nil.mp hpart]
    exact ⟨[], s, l, rfl, rfl, hagrees⟩

/-- One operation, when both return the same. -/
theorem faithful_cons {s t : σ} {l left : List α} {op : Op α} {r : Result α} {ops : List (Op α)}
    (h : step s op = some (r, t)) (hfifo : fifoStep cap l op = some (r, left)) :
    Faithful cap step Agrees s l (op :: ops) ↔
      Agrees s l ∧ Faithful cap step Agrees t left ops := by
  constructor
  · intro hall
    refine ⟨faithful_nil.mp (fun part hpart => hall part (hpart.trans List.nil_prefix)), ?_⟩
    intro part hpart
    obtain ⟨results, u, rest, hrun, hrun', hagrees⟩ :=
      hall (op :: part) (List.cons_prefix_cons.mpr ⟨rfl, hpart⟩)
    rw [runOps_cons h] at hrun
    rw [runOps_cons hfifo] at hrun'
    obtain ⟨⟨results, u⟩, hpartRun, heq⟩ := Option.map_eq_some_iff.mp hrun
    obtain ⟨⟨results', rest⟩, hpartRun', heq'⟩ := Option.map_eq_some_iff.mp hrun'
    obtain ⟨rfl, rfl⟩ := Prod.mk.inj heq
    obtain ⟨hsame, rfl⟩ := Prod.mk.inj heq'
    have hresults : results' = results := (List.cons.inj hsame).2
    rw [hresults] at hpartRun'
    exact ⟨results, u, rest, hpartRun, hpartRun', hagrees⟩
  · rintro ⟨hnow, hall⟩ part hpart
    cases part with
    | nil => exact faithful_nil.mpr hnow [] List.prefix_rfl
    | cons first part =>
        obtain ⟨rfl, hrest⟩ := List.cons_prefix_cons.mp hpart
        obtain ⟨results, u, rest, hrun, hrun', hleft⟩ := hall part hrest
        refine ⟨r :: results, u, rest, ?_, ?_, hleft⟩
        · rw [runOps_cons h, hrun]
          rfl
        · rw [runOps_cons hfifo, hrun']
          rfl

end Faithful

/-- **A RING BUFFER IS A QUEUE** exactly as long as nothing is put in when it is
    full. -/
theorem RingBuf.faithful_iff {cap : Nat} {Agrees : RingBuf α → List α → Prop}
    (hagrees : ∀ r : RingBuf α, r.count ≤ cap → Agrees r (r.contents cap)) {ops : List (Op α)} :
    ∀ {r : RingBuf α}, r.count ≤ cap → Admissible r.count ops →
      (Faithful cap (RingBuf.step cap) Agrees r (r.contents cap) ops ↔ Fits cap r.count ops) := by
  induction ops with
  | nil =>
      intro r hcount _
      rw [faithful_nil]
      exact ⟨fun _ => trivial, fun _ => hagrees r hcount⟩
  | cons op ops ih =>
      intro r hcount hadm
      cases op with
      | enqueue x =>
          rw [Admissible] at hadm
          rw [Fits]
          by_cases hroom : r.count < cap
          · have hfifo : fifoStep cap (r.contents cap) (.enqueue x) =
                some (.stored true, (r.enqueue cap x).contents cap) := by
              rw [fifoStep, r.contents_length, if_pos hroom, RingBuf.contents_enqueue x hroom]
            rw [faithful_cons rfl hfifo]
            have hnext := ih (r := r.enqueue cap x) hroom hadm
            exact ⟨fun h => ⟨hroom, hnext.mp h.2⟩, fun h => ⟨hagrees r hcount, hnext.mpr h.2⟩⟩
          · refine ⟨fun h => ?_, fun h => absurd h.1 hroom⟩
            -- the buffer says that it has stored the entry, and the queue has not
            obtain ⟨results, t, left, hrun, hrun', -⟩ :=
              h [.enqueue x] (List.cons_prefix_cons.mpr ⟨rfl, List.nil_prefix⟩)
            have hfifo : fifoStep cap (r.contents cap) (.enqueue x) =
                some (.stored false, r.contents cap) := by
              rw [fifoStep, r.contents_length, if_neg hroom]
            have hring : RingBuf.step cap r (.enqueue x) = some (.stored true, r.enqueue cap x) := rfl
            rw [runOps_cons hfifo, runOps] at hrun'
            rw [runOps_cons hring, runOps] at hrun
            obtain ⟨rfl, -⟩ := Prod.mk.inj (Option.some.inj hrun)
            cases (Prod.mk.inj (Option.some.inj hrun')).1
      | dequeue =>
          rw [Admissible] at hadm
          have hpos : r.count ≠ 0 := Nat.pos_iff_ne_zero.mp hadm.1
          have hstep : RingBuf.step cap r .dequeue =
              some (.taken (r.head cap), r.dequeue cap) := if_neg hpos
          have hfifo : fifoStep cap (r.contents cap) .dequeue =
              some (.taken (r.head cap), (r.dequeue cap).contents cap) := by
            rw [RingBuf.contents_dequeue hpos, fifoStep]
          rw [faithful_cons hstep hfifo, Fits]
          have hnext := ih (r := r.dequeue cap) (Nat.le_trans (Nat.sub_le _ _) hcount) hadm.2
          exact ⟨fun h => hnext.mp h.2, fun h => ⟨hagrees r hcount, hnext.mpr h⟩⟩

end RingBuffer
