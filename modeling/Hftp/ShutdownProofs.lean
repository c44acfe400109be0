import Hftp.CommandLifeProofs

/-! # Shutting down

    Behind `input_cond_blocking` the main thread sets a flag for the patcher and joins it,
    cancels every worker, and then waits for `g_thread_work_flag` to be zero.

    A cancelled worker ends at the next cancellation point it comes to.  One is the
    condition wait, where a worker has no work; the others are in the handlers, and a
    worker that is in a handler has its bit set: it would clear it at the end of its
    pass, which it does not come to. -/

namespace Shutdown

open Threads Transition
open CommandLife (resting)

/-! ## The code -/

/-- Where the main thread stands behind `input_cond_blocking`. -/
inductive JoinPc where
  /-- `g_epoll_patcher_cancel = 1` -/
  | raiseFlag
  /-- `pthread_join(g_epoll_patcher_thread, NULL)` -/
  | joinPatcher
  /-- `pthread_cancel(g_workspace[i].tid)` -/
  | cancel (i : Nat)
  /-- `while (g_thread_work_flag)` -/
  | await
  | joined
  deriving DecidableEq, Repr

/-- The threads, and what the end of the program adds to them. -/
structure Closing where
  threads : State
  join : JoinPc
  /-- `g_epoll_patcher_cancel` -/
  patcherCancel : Bool
  /-- the patcher has found the flag clear and is in `epoll_wait` -/
  tested : Bool
  patcherGone : Bool
  cancelled : Nat → Bool
  ended : Nat → Bool

/-- The start of the program. -/
def starting (fixedInput : Bool) : Closing :=
  { threads := State.start fixedInput, join := .raiseFlag, patcherCancel := false, tested := false,
    patcherGone := false, cancelled := fun _ => false, ended := fun _ => false }

/-- What happens next. -/
inductive Event where
  | threads (a : Act)
  /-- `if (g_epoll_patcher_cancel) break`, also after a timeout of `epoll_wait` -/
  | test
  | main
  /-- a worker acts upon its cancellation -/
  | ends (w : Nat)
  deriving DecidableEq, Repr

/-- Which threads are there to act. -/
def Closing.acts (x : Closing) : Act → Bool
  | .main => true
  | .worker w _ => !x.ended w
  | .fetch _ => x.tested
  | .command _ _ | .quit | .endInput | .dispatcher _ => !x.patcherGone

/-- The patcher has left `epoll_wait`. -/
def Closing.testedAfter (x : Closing) : Act → Bool
  | .fetch _ => false
  | _ => x.tested

/-- `threads_join` -/
def joinStep (x : Closing) : Option Closing :=
  match x.join with
  | .raiseFlag => some { x with patcherCancel := true, join := .joinPatcher }
  | .joinPatcher => if x.patcherGone then some { x with join := .cancel 0 } else none
  | .cancel i =>
      if i < x.threads.workspaceCount then
        some { x with cancelled := Function.update x.cancelled i true, join := .cancel (i + 1) }
      else some { x with join := .await }
  | .await =>
      if (List.range 64).any fun w => (x.threads.workers w).busy then some x
      else some { x with join := .joined }
  | .joined => none

/-- The condition wait, or a `read`, `write`, `open` or `close` of a handler. -/
def cancellationPoint : WorkerPc → Bool
  | .waiting | .exec _ => true
  | _ => false

def closeStep (x : Closing) : Event → Option Closing
  | .threads a =>
      if x.acts a then
        (step x.threads a).map fun t => { x with threads := t, tested := x.testedAfter a }
      else none
  | .test =>
      if x.threads.dispatcher = .wait ∧ x.patcherGone = false then
        if x.patcherCancel then some { x with patcherGone := true, tested := false }
        else some { x with tested := true }
      else none
  | .main => if x.threads.main = .past then joinStep x else none
  | .ends w =>
      if x.cancelled w = true ∧ x.ended w = false ∧
          cancellationPoint (x.threads.workers w).pc = true then
        some { x with ended := Function.update x.ended w true }
      else none

/-- The program to its end. -/
def closing : Machine Closing Event := { step := closeStep }

/-- **NO DEAD WORKER HAS ITS BIT SET**; before the cancellations there is no dead worker. -/
def NoDeadBit (x : Closing) : Prop :=
  ∀ w, x.ended w = true → (x.threads.workers w).busy = false

/-- A worker that ends does so in the condition wait, and was not given work meanwhile. -/
def endsIdle (x : Closing) : Event → Bool
  | .ends w =>
      decide ((x.threads.workers w).pc = .waiting ∧ (x.threads.workers w).busy = false)
  | _ => true

/-! ## Positions and bits -/

/-- **A WORKER WITHOUT WORK RESTS**: its bit is set wherever it is in a pass. -/
def Resting (s : State) : Prop := ∀ w, (s.workers w).busy = false → resting (s.workers w).pc = true

section Positions

variable {s t : State}

/-- At the start no worker has been created. -/
theorem resting_start (fixedInput : Bool) : Resting (State.start fixedInput) := by
  intro w _
  rfl

/-- A step that touches no worker leaves it so. -/
theorem Resting.same (h : Resting s) (hworkers : t.workers = s.workers) : Resting t := by
  intro w hidle
  rw [hworkers] at hidle ⊢
  exact h w hidle

/-- A step of one worker does if that one is busy or rests. -/
theorem Resting.one (h : Resting s) {w : Nat} {x : Worker}
    (hworkers : t.workers = Function.update s.workers w x)
    (hx : x.busy = false → resting x.pc = true) : Resting t := by
  intro v hidle
  rw [hworkers] at hidle ⊢
  by_cases hv : v = w
  · subst hv
    rw [Function.update_self] at hidle ⊢
    exact hx hidle
  · rw [Function.update_of_ne hv] at hidle ⊢
    exact h v hidle

/-- What the others see of a step of a worker: it sets no bit. -/
structure Moved (s t : State) (w : Nat) (x : Worker) : Prop where
  workers : t.workers = Function.update s.workers w x
  busy : x.busy = (s.workers w).busy ∨ (x.busy = false ∧ x.pc = .test)
  dispatcher : t.dispatcher = s.dispatcher
  main : s.main = .past → t.main = .past

/-- A worker changes nobody but itself. -/
theorem worked_moved {w : Nat} (hstep : Worked s t w) : ∃ x, Moved s t w x := by
  have hcomes : ∀ {u : State} {x : Worker}, Comes u t w x → u.workers = s.workers →
      u.dispatcher = s.dispatcher → u.main = s.main → ∃ x, Moved s t w x := by
    intro u x hx hworkers hdisp hmain
    refine ⟨x, ?_, ?_, hx.dispatcher.trans hdisp, ?_⟩
    · rw [hx.workers, hworkers]
    · rw [hx.busy, hworkers]
      exact Or.inl rfl
    · rw [hx.main, hmain]
      exact id
  cases hstep with
  | serve x hx _ _ => exact hcomes hx rfl rfl rfl
  | tested hx _ _ => exact hcomes hx rfl rfl rfl
  | waits hx _ => exact hcomes hx rfl rfl rfl
  | raise _ ht =>
      rw [ht]
      exact ⟨{ s.workers w with pc := .signal }, rfl, Or.inl rfl, rfl, id⟩
  | signal _ ht =>
      obtain ⟨hworkers, -, -, -, hdisp⟩ := wakeMain_frame s
      refine ⟨{ s.workers w with pc := .release }, ?_, Or.inl rfl, ?_, fun hmain => ?_⟩
      · rw [ht, ← hworkers]
        rfl
      · rw [ht, ← hdisp]
        rfl
      · have hstill : s.wakeMain = s := if_neg (by rw [hmain]; rintro ⟨⟩)
        rw [ht, hstill]
        exact hmain
  | connsEmpty hx _ _ => exact hcomes hx rfl rfl rfl
  | takeConn x hx _ _ _ => exact hcomes hx rfl rfl rfl
  | epollsEmpty hx _ _ => exact hcomes hx rfl rfl rfl
  | takeEpoll x hx _ _ _ _ => exact hcomes hx rfl rfl rfl
  | clear _ ht =>
      rw [ht]
      exact ⟨{ s.workers w with busy := false, pc := .test }, rfl, Or.inr ⟨rfl, rfl⟩, rfl, id⟩

/-- A worker without work goes from one resting place to the next. -/
theorem rests_on {w : Nat} {ok : Bool} (hidle : (s.workers w).busy = false)
    (hrest : resting (s.workers w).pc = true) (hstep : workerStep s w ok = some t) :
    resting (t.workers w).pc = true := by
  have hgoto : ∀ pc, resting pc = true → resting ((s.workerGoto w pc).workers w).pc = true := by
    intro pc hpc
    show resting (Function.update s.workers w { s.workers w with pc := pc } w).pc = true
    rw [Function.update_self]
    exact hpc
  rw [workerStep] at hstep
  cases hpc : (s.workers w).pc with
  | start =>
      rw [hpc] at hstep
      obtain rfl := Option.some.inj hstep
      show resting (Function.update s.workers w { s.workers w with connIndex := none, pc := .test }
        w).pc = true
      rw [Function.update_self]
      rfl
  | test =>
      rw [hpc] at hstep
      dsimp only at hstep
      rw [hidle] at hstep
      obtain rfl := Option.some.inj hstep
      exact hgoto .toWait rfl
  | toWait =>
      rw [hpc] at hstep
      obtain rfl := Option.some.inj hstep
      exact hgoto .waiting rfl
  | unborn | waiting =>
      rw [hpc] at hstep
      cases hstep
  | _ =>
      rw [hpc] at hrest
      cases hrest

/-- A worker clears its bit only before it rests. -/
theorem workerStep_resting {w : Nat} {ok : Bool} (h : Resting s)
    (hstep : workerStep s w ok = some t) : Resting t := by
  obtain ⟨x, hx⟩ := worked_moved (workerStep_worked hstep)
  refine h.one hx.workers fun hidle => ?_
  rcases hx.busy with hsame | ⟨-, hpc⟩
  · have hrest := rests_on (hsame ▸ hidle) (h w (hsame ▸ hidle)) hstep
    rw [hx.workers, Function.update_self] at hrest
    exact hrest
  · rw [hpc]
    rfl

/-- The main thread creates workers that rest. -/
theorem mainStep_resting (h : Resting s) (hstep : mainStep s = some t) : Resting t := by
  rw [mainStep] at hstep
  cases hmain : s.main with
  | createPatcher | workspaceInit | test | toWait =>
      rw [hmain] at hstep
      obtain rfl := Option.some.inj hstep
      exact h.same rfl
  | spawn i =>
      rw [hmain] at hstep
      dsimp only at hstep
      split_ifs at hstep
      · obtain rfl := Option.some.inj hstep
        exact h.one (w := i) (x := { s.workers i with pc := .start }) rfl fun _ => rfl
      · obtain rfl := Option.some.inj hstep
        exact h.same rfl
  | _ =>
      rw [hmain] at hstep
      cases hstep

/-- The dispatcher sets bits, and wakes only who rests. -/
theorem dispatched_resting (h : Resting s) (hstep : Dispatched s t) : Resting t := by
  cases hstep with
  | alone hsame _ => exact h.same hsame.workers
  | assign cev w _ ht =>
      rw [ht]
      refine h.one (w := w) (x := { s.workers w with
        process := some .httpRequest, connIndex := some cev.connIndex, busy := true }) rfl
        (by rintro ⟨⟩)
  | wake w pc _ ht =>
      rw [ht]
      rcases wake_eq s w with ⟨-, hsame⟩ | ⟨-, hwoken⟩
      · rw [hsame]
        exact h.same rfl
      · rw [hwoken]
        exact h.one (w := w) (x := { s.workers w with pc := .test }) rfl fun _ => rfl
  | connEnqueue _ _ ht | enqueue _ _ ht =>
      rw [ht]
      exact h.same rfl
  | wakeMain _ ht =>
      rw [ht]
      exact h.same ((endLine_frame s.wakeMain).1.trans (wakeMain_frame s).1)
  | store fd w x _ hx ht =>
      rw [ht]
      refine h.one (w := w) (x := x) rfl fun hidle => ?_
      rw [hx.1]
      exact h w (hx.2 ▸ hidle)
  | setBusy w _ ht =>
      rw [ht]
      exact h.one (w := w) (x := { s.workers w with busy := true }) rfl (by rintro ⟨⟩)

/-- A worker whose bit is clear rests, step after step. -/
theorem step_resting {a : Act} (h : Resting s) (hstep : step s a = some t) : Resting t := by
  cases a with
  | main => exact mainStep_resting h hstep
  | command _ _ | quit | fetch _ =>
      rw [step] at hstep
      split_ifs at hstep
      obtain rfl := Option.some.inj hstep
      exact h.same rfl
  | endInput =>
      rw [step] at hstep
      split_ifs at hstep
      obtain rfl := Option.some.inj hstep
      exact h.same (endLine_frame s).1
  | dispatcher b => exact dispatched_resting h (dispatcher_dispatched hstep)
  | worker w ok =>
      rw [step] at hstep
      split_ifs at hstep
      exact workerStep_resting h hstep

/-- The main thread does not go back. -/
theorem step_past {a : Act} (hmain : s.main = .past) (hstep : step s a = some t) :
    t.main = .past := by
  have hwake : s.wakeMain = s := if_neg (by rw [hmain]; rintro ⟨⟩)
  have hline : (endLine s).main = .past := by
    rw [endLine, if_neg (by rw [hmain]; rintro ⟨⟩)]
    exact hmain
  cases a with
  | main =>
      rw [step, mainStep, hmain] at hstep
      cases hstep
  | command _ _ | quit | fetch _ =>
      rw [step] at hstep
      split_ifs at hstep
      obtain rfl := Option.some.inj hstep
      exact hmain
  | endInput =>
      rw [step] at hstep
      split_ifs at hstep
      obtain rfl := Option.some.inj hstep
      exact hline
  | dispatcher b =>
      cases dispatcher_dispatched hstep with
      | alone hsame _ => rw [hsame.main, hmain]
      | assign _ _ _ ht | connEnqueue _ _ ht | store _ _ _ _ _ ht | setBusy _ _ ht
      | enqueue _ _ ht =>
          rw [ht]
          exact hmain
      | wake w pc _ ht =>
          rw [ht]
          rcases wake_eq s w with ⟨-, hsame⟩ | ⟨-, hwoken⟩
          · rw [hsame]
            exact hmain
          · rw [hwoken]
            exact hmain
      | wakeMain _ ht => rw [ht, hwake, hline]
  | worker w ok =>
      rw [step] at hstep
      split_ifs at hstep
      obtain ⟨x, hx⟩ := worked_moved (workerStep_worked hstep)
      exact hx.main hmain

end Positions

/-! ## What is kept -/

/-- The main thread cancels the workers. -/
def cancelling : JoinPc → Bool
  | .cancel _ | .await | .joined => true
  | _ => false

/-- What is known of the end of the program: when the first worker is cancelled, there
    is no patcher any more. -/
structure Sound (x : Closing) : Prop where
  resting : Resting x.threads
  past : x.join ≠ .raiseFlag → x.threads.main = .past
  cancel : x.patcherCancel = true → x.join ≠ .raiseFlag
  gone : x.patcherGone = true →
    x.patcherCancel = true ∧ x.threads.dispatcher = .wait ∧ x.tested = false
  patcher : cancelling x.join = true → x.patcherGone = true
  cancelled : ∀ w, x.cancelled w = true → cancelling x.join = true
  ended : ∀ w, x.ended w = true → x.cancelled w = true

/-- At the start nobody has been cancelled. -/
theorem sound_starting (fixedInput : Bool) : Sound (starting fixedInput) :=
  ⟨resting_start fixedInput, fun h => absurd rfl h, by rintro ⟨⟩, by rintro ⟨⟩, by rintro ⟨⟩,
   fun _ => by rintro ⟨⟩, fun _ => by rintro ⟨⟩⟩

section Kept

variable {x y : Closing}

/-- Behind the patcher there are the steps of workers that have not ended. -/
theorem Sound.gone_act (h : Sound x) (hgone : x.patcherGone = true) {a : Act} {t : State}
    (hacts : x.acts a = true) (hstep : step x.threads a = some t) :
    ∃ w ok z, a = .worker w ok ∧ x.ended w = false ∧ Moved x.threads t w z := by
  obtain ⟨hcancel, -, htested⟩ := h.gone hgone
  cases a with
  | main =>
      rw [step, mainStep, h.past (h.cancel hcancel)] at hstep
      cases hstep
  | fetch fds =>
      rw [Closing.acts, htested] at hacts
      cases hacts
  | worker w ok =>
      rw [step] at hstep
      split_ifs at hstep
      obtain ⟨z, hz⟩ := worked_moved (workerStep_worked hstep)
      exact ⟨w, ok, z, rfl, Bool.not_eq_true' _ ▸ hacts, hz⟩
  | _ =>
      rw [Closing.acts, hgone] at hacts
      cases hacts

/-- The threads go on as long as they have not ended. -/
theorem Sound.threads (h : Sound x) {a : Act} {t : State} (hacts : x.acts a = true)
    (hstep : step x.threads a = some t) :
    Sound { x with threads := t, tested := x.testedAfter a } := by
  refine ⟨step_resting h.resting hstep, fun hjoin => step_past (h.past hjoin) hstep, h.cancel,
    fun hgone => ?_, h.patcher, h.cancelled, h.ended⟩
  obtain ⟨hcancel, hwait, htested⟩ := h.gone hgone
  obtain ⟨w, ok, z, rfl, -, hz⟩ := h.gone_act hgone hacts hstep
  exact ⟨hcancel, hz.dispatcher.trans hwait, htested⟩

/-- A step of `workspace_join` cancels a worker or looks at the flag. -/
theorem joinStep_sound (h : Sound x) (hmain : x.threads.main = .past)
    (hstep : joinStep x = some y) : Sound y := by
  rw [joinStep] at hstep
  cases hjoin : x.join with
  | raiseFlag =>
      rw [hjoin] at hstep
      obtain rfl := Option.some.inj hstep
      have hbefore : cancelling x.join = false := by rw [hjoin]; rfl
      refine ⟨h.resting, fun _ => hmain, fun _ => by rintro ⟨⟩, fun hgone => ?_, by rintro ⟨⟩,
        fun w hw => ?_, h.ended⟩
      · exact absurd hjoin (h.cancel (h.gone hgone).1)
      · cases hbefore.symm.trans (h.cancelled w hw)
  | joinPatcher =>
      rw [hjoin] at hstep
      dsimp only at hstep
      split_ifs at hstep with hgone
      obtain rfl := Option.some.inj hstep
      exact ⟨h.resting, fun _ => hmain, fun _ => by rintro ⟨⟩, h.gone, fun _ => hgone,
        fun _ _ => rfl, h.ended⟩
  | cancel i =>
      have hgone := h.patcher (by rw [hjoin]; rfl)
      rw [hjoin] at hstep
      dsimp only at hstep
      split_ifs at hstep
      · obtain rfl := Option.some.inj hstep
        refine ⟨h.resting, fun _ => hmain, fun _ => by rintro ⟨⟩, h.gone, fun _ => hgone,
          fun _ _ => rfl, fun w hw => ?_⟩
        show Function.update x.cancelled i true w = true
        by_cases hwi : w = i
        · rw [hwi, Function.update_self]
        · rw [Function.update_of_ne hwi]
          exact h.ended w hw
      · obtain rfl := Option.some.inj hstep
        exact ⟨h.resting, fun _ => hmain, fun _ => by rintro ⟨⟩, h.gone, fun _ => hgone,
          fun _ _ => rfl, h.ended⟩
  | await =>
      have hgone := h.patcher (by rw [hjoin]; rfl)
      rw [hjoin] at hstep
      dsimp only at hstep
      split_ifs at hstep
      · obtain rfl := Option.some.inj hstep
        exact h
      · obtain rfl := Option.some.inj hstep
        exact ⟨h.resting, fun _ => hmain, fun _ => by rintro ⟨⟩, h.gone, fun _ => hgone,
          fun _ _ => rfl, h.ended⟩
  | joined =>
      rw [hjoin] at hstep
      cases hstep

/-- So does any event while the program shuts down. -/
theorem closeStep_sound (h : Sound x) {e : Event} (hstep : closeStep x e = some y) : Sound y := by
  cases e with
  | threads a =>
      rw [closeStep] at hstep
      split_ifs at hstep with hacts
      obtain ⟨t, ht, rfl⟩ := Option.map_eq_some_iff.mp hstep
      exact h.threads hacts ht
  | test =>
      rw [closeStep] at hstep
      split_ifs at hstep with hat hcancel
      · obtain rfl := Option.some.inj hstep
        exact ⟨h.resting, h.past, h.cancel, fun _ => ⟨hcancel, hat.1, rfl⟩, fun _ => rfl,
          h.cancelled, h.ended⟩
      · obtain rfl := Option.some.inj hstep
        refine ⟨h.resting, h.past, h.cancel, fun hgone => ?_, h.patcher, h.cancelled, h.ended⟩
        cases hat.2.symm.trans hgone
  | main =>
      rw [closeStep] at hstep
      split_ifs at hstep with hmain
      exact joinStep_sound h hmain hstep
  | ends w =>
      rw [closeStep] at hstep
      split_ifs at hstep with hat
      obtain rfl := Option.some.inj hstep
      refine ⟨h.resting, h.past, h.cancel, h.gone, h.patcher, h.cancelled, fun v hv => ?_⟩
      by_cases hvw : v = w
      · rw [hvw]
        exact hat.1
      · have hold : Function.update x.ended w true v = true := hv
        rw [Function.update_of_ne hvw] at hold
        exact h.ended v hold

/-- `workspace_join` leaves the threads alone. -/
theorem joinStep_frame (hstep : joinStep x = some y) :
    y.threads = x.threads ∧ y.ended = x.ended := by
  rw [joinStep] at hstep
  cases hjoin : x.join <;> rw [hjoin] at hstep <;> dsimp only at hstep
  case raiseFlag =>
    obtain rfl := Option.some.inj hstep
    exact ⟨rfl, rfl⟩
  case joined => cases hstep
  all_goals
    split_ifs at hstep <;>
    · obtain rfl := Option.some.inj hstep
      exact ⟨rfl, rfl⟩

/-- A worker that has ended is left as it is. -/
theorem closeStep_dead (h : Sound x) {e : Event} (hstep : closeStep x e = some y) {w : Nat}
    (hended : x.ended w = true) :
    y.ended w = true ∧ y.threads.workers w = x.threads.workers w := by
  cases e with
  | threads a =>
      rw [closeStep] at hstep
      split_ifs at hstep with hacts
      obtain ⟨t, ht, rfl⟩ := Option.map_eq_some_iff.mp hstep
      have hgone := h.patcher (h.cancelled w (h.ended w hended))
      obtain ⟨v, ok, z, -, halive, hz⟩ := h.gone_act hgone hacts ht
      have hne : w ≠ v := by
        rintro rfl
        cases halive.symm.trans hended
      refine ⟨hended, ?_⟩
      show t.workers w = _
      rw [hz.workers, Function.update_of_ne hne]
  | test =>
      rw [closeStep] at hstep
      split_ifs at hstep <;>
      · obtain rfl := Option.some.inj hstep
        exact ⟨hended, rfl⟩
  | main =>
      rw [closeStep] at hstep
      split_ifs at hstep
      obtain ⟨hthreads, hsame⟩ := joinStep_frame hstep
      rw [hthreads, hsame]
      exact ⟨hended, rfl⟩
  | ends v =>
      rw [closeStep] at hstep
      split_ifs at hstep
      obtain rfl := Option.some.inj hstep
      refine ⟨?_, rfl⟩
      show Function.update x.ended v true w = true
      by_cases hwv : w = v
      · rw [hwv, Function.update_self]
      · rw [Function.update_of_ne hwv]
        exact hended

/-- Nobody else ends in a step, except who is said to. -/
theorem closeStep_ended {e : Event} (hstep : closeStep x e = some y) {w : Nat}
    (hended : y.ended w = true) : x.ended w = true ∨ (e = .ends w ∧ y.threads = x.threads) := by
  cases e with
  | threads a =>
      rw [closeStep] at hstep
      split_ifs at hstep
      obtain ⟨t, -, rfl⟩ := Option.map_eq_some_iff.mp hstep
      exact Or.inl hended
  | test =>
      rw [closeStep] at hstep
      split_ifs at hstep <;>
      · obtain rfl := Option.some.inj hstep
        exact Or.inl hended
  | main =>
      rw [closeStep] at hstep
      split_ifs at hstep
      exact Or.inl ((joinStep_frame hstep).2 ▸ hended)
  | ends v =>
      rw [closeStep] at hstep
      split_ifs at hstep
      obtain rfl := Option.some.inj hstep
      by_cases hwv : w = v
      · rw [hwv]
        exact Or.inr ⟨rfl, rfl⟩
      · have hold : Function.update x.ended v true w = true := hended
        rw [Function.update_of_ne hwv] at hold
        exact Or.inl hold

/-- A worker that ends while it is idle leaves no bit behind. -/
theorem noDeadBit_step (h : Sound x) (hclean : NoDeadBit x) {e : Event}
    (hidle : endsIdle x e = true) (hstep : closeStep x e = some y) : NoDeadBit y := by
  intro w hended
  rcases closeStep_ended hstep hended with hbefore | ⟨rfl, hthreads⟩
  · rw [(closeStep_dead h hstep hbefore).2]
    exact hclean w hbefore
  · rw [hthreads]
    exact (of_decide_eq_true hidle).2

/-- **A WORKER THAT ENDS IN A HANDLER** leaves its bit set. -/
theorem deadBit_step (h : Sound x) {e : Event} (hnot : endsIdle x e = false)
    (hstep : closeStep x e = some y) : ¬ NoDeadBit y := by
  cases e with
  | ends w =>
      rw [closeStep] at hstep
      split_ifs at hstep with hat
      obtain rfl := Option.some.inj hstep
      intro hclean
      have hbit : (x.threads.workers w).busy = false :=
        hclean w (Function.update_self (β := fun _ => Bool) w true x.ended)
      have hrest := h.resting w hbit
      have hplace : (x.threads.workers w).pc = .waiting := by
        obtain ⟨-, -, hpoint⟩ := hat
        cases hpc : (x.threads.workers w).pc with
        | waiting => rfl
        | exec d =>
            rw [hpc] at hrest
            cases hrest
        | _ =>
            rw [hpc] at hpoint
            cases hpoint
      exact of_decide_eq_false hnot ⟨hplace, hbit⟩
  | _ => cases hnot

end Kept

/-! ## Runs -/

/-- What one event keeps, a run keeps. -/
theorem run_sound {fixedInput : Bool} {es : List Event} {x : Closing}
    (hrun : closing.run (starting fixedInput) es = some x) : Sound x :=
  Machine.invariant (fun (x : Closing) _ _ (h : Sound x) hstep => closeStep_sound h hstep)
    (sound_starting fixedInput) hrun

/-- In a run in which workers end only while they are idle no bit is left behind. -/
theorem guarded_noDeadBit {fixedInput : Bool} {es : List Event} {x : Closing}
    (hrun : (closing.guarded endsIdle).run (starting fixedInput) es = some x) : NoDeadBit x := by
  have hboth : Sound x ∧ NoDeadBit x := by
    refine Machine.invariant (fun (x : Closing) e y (h : Sound x ∧ NoDeadBit x) hstep => ?_)
      ⟨sound_starting fixedInput, fun w hended => by cases hended⟩ hrun
    obtain ⟨hidle, htake⟩ := Machine.guarded_step.mp hstep
    exact ⟨closeStep_sound h.1 htake, noDeadBit_step h.1 h.2 hidle htake⟩
  exact hboth.2

/-- **NO DEAD WORKER HAS ITS BIT SET** all along a run exactly if every worker that ends
    does so in the condition wait and without work. -/
theorem noDeadBit_iff {fixedInput : Bool} {es : List Event} {x : Closing}
    (hrun : closing.run (starting fixedInput) es = some x) :
    (∀ fs, fs <+: es → ∀ y, closing.run (starting fixedInput) fs = some y → NoDeadBit y) ↔
      (closing.guarded endsIdle).run (starting fixedInput) es = some x :=
  Machine.exact_condition (fun _ _ hy => guarded_noDeadBit hy)
    (fun _ _ _ _ hy hnot hstep => deadBit_step (run_sound (Machine.run_of_guarded hy)) hnot hstep)
    hrun

/-- Steps of the threads. -/
def threads (as : List Act) : List Event := as.map .threads

/-- The patcher reads `quit`, and the main thread is woken. -/
def quits : List Event :=
  [.test] ++ threads ([.fetch [0]] ++ dispatches 1 ++ [.quit] ++ dispatches 2 ++ [.main])

/-- `threads_join` up to its last loop. -/
def joins : List Event := [.main, .test] ++ List.replicate 10 .main

/-- All workers wait when they are cancelled. -/
def idleShutdown : List Event :=
  threads (boot ++ [.main]) ++ quits ++ joins ++ (List.range 8).map .ends ++ [.main]

/-- The workers are cancelled while they wait, and the main thread gets past its loop.
    -/
theorem noDeadBit_idleShutdown :
    ∃ x, closing.run (starting false) idleShutdown = some x ∧ x.join = .joined ∧
      ∀ fs, fs <+: idleShutdown → ∀ y, closing.run (starting false) fs = some y →
        NoDeadBit y := by
  obtain ⟨x, hx, hjoin⟩ := (Option.any_eq_true (fun x : Closing => decide (x.join = .joined)) _).mp
    (show ((closing.guarded endsIdle).run (starting false) idleShutdown).any _ = true by
      decide +kernel)
  have hrun := Machine.run_of_guarded hx
  exact ⟨x, hrun, of_decide_eq_true hjoin, (noDeadBit_iff hrun).mpr hx⟩

/-- The first worker is in a handler when it is cancelled. -/
def busyShutdown : List Event :=
  threads (boot ++ [.main]) ++ [.test] ++
    threads ([.fetch [0]] ++ dispatches 1 ++ [.command .get 3] ++ dispatches 16 ++ works 0 2 ++
      [.endInput] ++ dispatches 1) ++ quits ++ joins ++ [.ends 0]

/-- Its bit stays set. -/
theorem busyShutdown_dead :
    ¬ ∀ fixedInput es x, closing.run (starting fixedInput) es = some x → NoDeadBit x := by
  intro hall
  obtain ⟨x, hx, hat⟩ := (Option.any_eq_true (fun x : Closing => decide (x.join = .await ∧
    x.ended 0 = true ∧ (x.threads.workers 0).busy = true)) _).mp
    (show (closing.run (starting false) busyShutdown).any _ = true by decide +kernel)
  obtain ⟨-, hended, hbusy⟩ := of_decide_eq_true hat
  cases hbusy.symm.trans (hall false _ x hx 0 hended)

/-! ## The last loop -/

/-- The main thread leaves its last loop only if no bit is set. -/
theorem joined_free {x y : Closing} {e : Event} (hjoin : x.join ≠ .joined)
    (hstep : closeStep x e = some y) (hjoined : y.join = .joined) {w : Nat} (hw : w < 64) :
    (x.threads.workers w).busy = false := by
  cases e with
  | threads a =>
      rw [closeStep] at hstep
      split_ifs at hstep
      obtain ⟨t, -, rfl⟩ := Option.map_eq_some_iff.mp hstep
      exact absurd hjoined hjoin
  | test =>
      rw [closeStep] at hstep
      split_ifs at hstep <;>
      · obtain rfl := Option.some.inj hstep
        exact absurd hjoined hjoin
  | ends v =>
      rw [closeStep] at hstep
      split_ifs at hstep
      obtain rfl := Option.some.inj hstep
      exact absurd hjoined hjoin
  | main =>
      rw [closeStep] at hstep
      split_ifs at hstep
      rw [joinStep] at hstep
      cases hat : x.join <;> rw [hat] at hstep <;> dsimp only at hstep
      case await =>
        split_ifs at hstep with hbits
        · obtain rfl := Option.some.inj hstep
          exact absurd hjoined hjoin
        · rw [List.any_eq_true] at hbits
          exact Bool.eq_false_iff.mpr fun hbusy => hbits ⟨w, List.mem_range.mpr hw, hbusy⟩
      case joined => exact absurd hat hjoin
      case raiseFlag =>
        obtain rfl := Option.some.inj hstep
        cases hjoined
      all_goals
        split_ifs at hstep <;>
        · obtain rfl := Option.some.inj hstep
          cases hjoined

/-- **A DEAD WORKER IS WAITED FOR FOR EVER**: nobody else clears its bit, whatever
    happens. -/
theorem never_joined {x y : Closing} {es : List Event} (h : Sound x) {w : Nat} (hw : w < 64)
    (hended : x.ended w = true) (hbusy : (x.threads.workers w).busy = true)
    (hjoin : x.join ≠ .joined) (hrun : closing.run x es = some y) : y.join ≠ .joined := by
  have hkept : Sound y ∧ y.ended w = true ∧ (y.threads.workers w).busy = true ∧
      y.join ≠ .joined := by
    refine Machine.invariant (fun (x : Closing) e y (hx : Sound x ∧ x.ended w = true ∧
      (x.threads.workers w).busy = true ∧ x.join ≠ .joined) hstep => ?_)
      ⟨h, hended, hbusy, hjoin⟩ hrun
    obtain ⟨hsound, hended, hbusy, hjoin⟩ := hx
    obtain ⟨hdead, hsame⟩ := closeStep_dead hsound hstep hended
    refine ⟨closeStep_sound hsound hstep, hdead, hsame ▸ hbusy, fun hjoined => ?_⟩
    cases hbusy.symm.trans (joined_free hjoin hstep hjoined hw)
  exact hkept.2.2.2

end Shutdown
