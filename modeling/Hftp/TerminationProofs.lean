import Hftp.TransitionProofs
import Mathlib.Algebra.BigOperators.Group.Finset.Piecewise
import Mathlib.Algebra.Order.BigOperators.Group.Finset

/-! # Machines that come to rest

    Some actions of a machine are its own, the others come from outside.  A measure
    that every own action lowers bounds the runs that are made of own actions; so
    whatever the order in which they are taken, there is a last one. -/

namespace Termination

open Transition

variable {σ α β : Type}

/-- The machine cannot take an action of its own. -/
def Still (m : Machine σ α) (own : α → Bool) (s : σ) : Prop :=
  ∀ a, own a = true → m.step s a = none

/-- What is known of the states lasts, and the measure falls. -/
structure Falls (m : Machine σ α) (own : α → Bool) (inv : σ → Prop) (μ : σ → Nat) : Prop where
  keeps : ∀ s a t, inv s → own a = true → m.step s a = some t → inv t
  falls : ∀ s a t, inv s → own a = true → m.step s a = some t → μ t < μ s

section Bound

variable {m : Machine σ α} {own : α → Bool} {inv : σ → Prop} {μ : σ → Nat}

/-- **A RUN OF OWN ACTIONS** is no longer than the measure, by induction on the run. -/
theorem Falls.bound (h : Falls m own inv μ) : ∀ {as : List α} {s t : σ}, inv s →
    (∀ a ∈ as, own a = true) → m.run s as = some t → as.length + μ t ≤ μ s := by
  intro as
  induction as with
  | nil =>
      intro s t _ _ hrun
      obtain rfl := Option.some.inj hrun
      simp
  | cons a as ih =>
      intro s t hs hown hrun
      obtain ⟨u, hu, hrest⟩ := Machine.run_cons.mp hrun
      have hfall := h.falls s a u hs (hown a List.mem_cons_self) hu
      have hinv := h.keeps s a u hs (hown a List.mem_cons_self) hu
      have hle := ih hinv (fun b hb => hown b (List.mem_cons_of_mem a hb)) hrest
      rw [List.length_cons]
      omega

/-- **EVERY STATE COMES TO REST**, by induction on the measure. -/
theorem Falls.rests (h : Falls m own inv μ) : ∀ {s : σ}, inv s →
    ∃ as t, (∀ a ∈ as, own a = true) ∧ m.run s as = some t ∧ Still m own t := by
  intro s
  induction hμ : μ s using Nat.strong_induction_on generalizing s with
  | _ n ih =>
      intro hs
      by_cases hstill : Still m own s
      · exact ⟨[], s, by simp, rfl, hstill⟩
      · rw [Still] at hstill
        push Not at hstill
        obtain ⟨a, hown, hsome⟩ := hstill
        obtain ⟨u, hu⟩ := Option.ne_none_iff_exists'.mp hsome
        have hfall := h.falls s a u hs hown hu
        obtain ⟨as, t, hall, hrun, ht⟩ := ih (μ u) (hμ ▸ hfall) rfl (h.keeps s a u hs hown hu)
        refine ⟨a :: as, t, ?_, Machine.run_cons.mpr ⟨u, hu, hrun⟩, ht⟩
        simpa using ⟨hown, hall⟩

end Bound

/-! ## Measures of many parts

    A measure of parts that are numbered is their sum, and a step that changes one
    part changes the sum by as much. -/

section Parts

variable {n : Nat} {g : Nat → β} {f : β → Nat} {v : Nat} {x : β}

theorem sum_update (hv : v < n) :
    ∑ w ∈ Finset.range n, f (Function.update g v x w) + f (g v) =
      ∑ w ∈ Finset.range n, f (g w) + f x := by
  have hmem : v ∈ Finset.range n := Finset.mem_range.mpr hv
  have hcomp : ∀ w, f (Function.update g v x w) = Function.update (fun w => f (g w)) v (f x) w := by
    intro w
    by_cases hw : w = v
    · simp [hw]
    · simp [Function.update_of_ne hw]
  simp only [hcomp]
  rw [Finset.sum_update_of_mem hmem, ← Finset.add_sum_erase _ _ hmem,
    Finset.sdiff_singleton_eq_erase]
  omega

/-- A part that is not counted may be any. -/
theorem sum_update_le {k : Nat} (h : f x ≤ f (g v) + k) :
    ∑ w ∈ Finset.range n, f (Function.update g v x w) ≤ ∑ w ∈ Finset.range n, f (g w) + k := by
  by_cases hv : v < n
  · have := sum_update (f := f) (g := g) (x := x) hv
    omega
  · have hsame : ∀ w ∈ Finset.range n, f (Function.update g v x w) = f (g w) := by
      intro w hw
      rw [Function.update_of_ne (by rintro rfl; exact hv (Finset.mem_range.mp hw))]
    rw [Finset.sum_congr rfl hsame]
    omega

end Parts

end Termination
