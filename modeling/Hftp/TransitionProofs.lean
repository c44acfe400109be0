import Mathlib.Data.List.Induction
import Mathlib.Logic.Relation

/-! # Machines and their runs

    A machine takes one action at a time or refuses it.  What holds at the start
    and is kept by every step holds after every run; a condition on the steps
    cuts a machine down to the runs that meet it; and a simulation carries the
    runs of one machine over to the moves of another. -/

namespace Transition

variable {σ α τ : Type}

/-- What an action does to a state; nothing if the state refuses it. -/
structure Machine (σ α : Type) where
  step : σ → α → Option σ

/-- The state after a list of actions, each of which is taken. -/
def Machine.run (m : Machine σ α) : σ → List α → Option σ
  | s, [] => some s
  | s, a :: as =>
      match m.step s a with
      | some t => m.run t as
      | none => none

/-- Only the steps that meet the condition. -/
def Machine.guarded (m : Machine σ α) (ok : σ → α → Bool) : Machine σ α :=
  { step := fun s a => if ok s a then m.step s a else none }

theorem Machine.guarded_step {m : Machine σ α} {ok : σ → α → Bool} {s t : σ} {a : α} :
    (m.guarded ok).step s a = some t ↔ ok s a = true ∧ m.step s a = some t := by
  show (if ok s a then m.step s a else none) = some t ↔ _
  constructor
  · intro h
    by_cases hok : ok s a = true
    · rw [if_pos hok] at h
      exact ⟨hok, h⟩
    · rw [if_neg hok] at h
      cases h
  · rintro ⟨hok, h⟩
    rw [if_pos hok]
    exact h

/-- The first step of a run. -/
theorem Machine.run_cons {m : Machine σ α} {s u : σ} {a : α} {as : List α} :
    m.run s (a :: as) = some u ↔ ∃ t, m.step s a = some t ∧ m.run t as = some u := by
  rw [Machine.run]
  constructor
  · intro h
    cases hstep : m.step s a with
    | none =>
        rw [hstep] at h
        cases h
    | some t =>
        rw [hstep] at h
        exact ⟨t, rfl, h⟩
  · rintro ⟨t, hstep, hrun⟩
    rw [hstep]
    exact hrun

/-- **WHAT EVERY STEP KEEPS** every run keeps. -/
theorem Machine.invariant {m : Machine σ α} {inv : σ → Prop}
    (hstep : ∀ s a t, inv s → m.step s a = some t → inv t) :
    ∀ {as : List α} {s t : σ}, inv s → m.run s as = some t → inv t := by
  intro as
  induction as with
  | nil =>
      intro s t hs hrun
      rw [Machine.run] at hrun
      exact Option.some.inj hrun ▸ hs
  | cons a as ih =>
      intro s t hs hrun
      obtain ⟨u, hu, hrest⟩ := Machine.run_cons.mp hrun
      exact ih (hstep s a u hs hu) hrest

/-- A run goes on from where it is. -/
theorem Machine.run_append {m : Machine σ α} {as bs : List α} :
    ∀ {s u : σ}, m.run s (as ++ bs) = some u ↔ ∃ t, m.run s as = some t ∧ m.run t bs = some u := by
  induction as with
  | nil =>
      intro s u
      exact ⟨fun h => ⟨s, rfl, h⟩, by rintro ⟨t, hs, h⟩; exact Option.some.inj hs ▸ h⟩
  | cons a as ih =>
      intro s u
      rw [List.cons_append, Machine.run_cons]
      constructor
      · rintro ⟨v, hv, hrun⟩
        obtain ⟨t, ht, hu⟩ := ih.mp hrun
        exact ⟨t, Machine.run_cons.mpr ⟨v, hv, ht⟩, hu⟩
      · rintro ⟨t, ht, hu⟩
        obtain ⟨v, hv, hrun⟩ := Machine.run_cons.mp ht
        exact ⟨v, hv, ih.mpr ⟨t, hrun, hu⟩⟩

theorem Machine.run_one {m : Machine σ α} {s t : σ} {a : α} :
    m.run s [a] = some t ↔ m.step s a = some t := by
  rw [Machine.run_cons]
  constructor
  · rintro ⟨u, hu, h⟩
    exact Option.some.inj h ▸ hu
  · intro h
    exact ⟨t, h, rfl⟩

/-- A run that meets the condition is a run. -/
theorem Machine.run_of_guarded {m : Machine σ α} {ok : σ → α → Bool} {as : List α} :
    ∀ {s t : σ}, (m.guarded ok).run s as = some t → m.run s as = some t := by
  induction as with
  | nil =>
      intro s t h
      exact h
  | cons a as ih =>
      intro s t h
      obtain ⟨u, hu, hrun⟩ := Machine.run_cons.mp h
      exact Machine.run_cons.mpr ⟨u, (Machine.guarded_step.mp hu).2, ih hrun⟩

/-- **AN EXACT CONDITION**: if the runs that meet it keep a property, and the first step
    that does not loses it, then the property holds all along a run exactly if all its
    steps meet the condition. -/
theorem Machine.exact_condition {m : Machine σ α} {ok : σ → α → Bool} {p : σ → Prop} {s : σ}
    (hgood : ∀ bs u, (m.guarded ok).run s bs = some u → p u)
    (hbad : ∀ bs u a v, (m.guarded ok).run s bs = some u → ok u a = false →
      m.step u a = some v → ¬ p v)
    {as : List α} : ∀ {t : σ}, m.run s as = some t →
      ((∀ bs, bs <+: as → ∀ u, m.run s bs = some u → p u) ↔ (m.guarded ok).run s as = some t) := by
  induction as using List.reverseRecOn with
  | nil =>
      intro t hrun
      refine ⟨fun _ => hrun, fun h bs hbs u hu => ?_⟩
      rw [List.prefix_nil.mp hbs] at hu
      exact hgood [] u hu
  | append_singleton as a ih =>
      intro t hrun
      obtain ⟨u, hu, hlast⟩ := Machine.run_append.mp hrun
      constructor
      · intro hall
        have hmet := (ih hu).mp fun bs hbs => hall bs (hbs.trans (List.prefix_append as [a]))
        refine Machine.run_append.mpr ⟨u, hmet, Machine.run_one.mpr ?_⟩
        have hstep := Machine.run_one.mp hlast
        cases hok : ok u a with
        | true => exact Machine.guarded_step.mpr ⟨hok, hstep⟩
        | false =>
            exact absurd (hall _ List.prefix_rfl t hrun) (hbad as u a t hmet hok hstep)
      · intro hmet bs hbs v hv
        obtain ⟨rest, hrest⟩ := hbs
        rw [← hrest] at hmet
        obtain ⟨w, hw, -⟩ := Machine.run_append.mp hmet
        have hsame := Machine.run_of_guarded hw
        rw [hv] at hsame
        exact hgood bs v (Option.some.inj hsame ▸ hw)

/-- **A SIMULATION**: if every step of a machine is matched by moves of another,
    so is every run. -/
theorem Machine.simulate {m : Machine σ α} {rel : σ → τ → Prop} {move : τ → τ → Prop}
    (hstep : ∀ s a t x, rel s x → m.step s a = some t →
      ∃ y, rel t y ∧ Relation.ReflTransGen move x y) :
    ∀ {as : List α} {s t : σ} {x : τ}, rel s x → m.run s as = some t →
      ∃ y, rel t y ∧ Relation.ReflTransGen move x y := by
  intro as
  induction as with
  | nil =>
      intro s t x hrel hrun
      rw [Machine.run] at hrun
      exact ⟨x, Option.some.inj hrun ▸ hrel, .refl⟩
  | cons a as ih =>
      intro s t x hrel hrun
      obtain ⟨u, hu, hrest⟩ := Machine.run_cons.mp hrun
      obtain ⟨y, hy, hmoves⟩ := hstep s a u x hrel hu
      obtain ⟨z, hz, hmore⟩ := ih hy hrest
      exact ⟨z, hz, hmoves.trans hmore⟩

/-- What there is to see of the steps of a run, in their order. -/
def Machine.along {β : Type} (m : Machine σ α) (see : σ → α → List β) : σ → List α → List β
  | _, [] => []
  | s, a :: as =>
      match m.step s a with
      | some t => see s a ++ m.along see t as
      | none => []

theorem Machine.along_cons {β : Type} {m : Machine σ α} {see : σ → α → List β} {s t : σ} {a : α}
    {as : List α} (h : m.step s a = some t) :
    m.along see s (a :: as) = see s a ++ m.along see t as := by
  rw [Machine.along, h]

/-- **A QUEUE IN A MACHINE**: if every step takes from the front of a list and puts to
    its end, then so does every run, and in the same order. -/
theorem Machine.in_order {β : Type} {m : Machine σ α} {contents : σ → List β}
    {taken put : σ → α → List β}
    (hstep : ∀ s a t, m.step s a = some t → contents s ++ put s a = taken s a ++ contents t) :
    ∀ {as : List α} {s t : σ}, m.run s as = some t →
      contents s ++ m.along put s as = m.along taken s as ++ contents t := by
  intro as
  induction as with
  | nil =>
      intro s t hrun
      rw [Machine.run] at hrun
      rw [Machine.along, Machine.along, List.append_nil, List.nil_append, Option.some.inj hrun]
  | cons a as ih =>
      intro s t hrun
      obtain ⟨u, hu, hrest⟩ := Machine.run_cons.mp hrun
      rw [Machine.along_cons hu, Machine.along_cons hu, ← List.append_assoc, hstep s a u hu,
        List.append_assoc, ih hrest, List.append_assoc]

end Transition
