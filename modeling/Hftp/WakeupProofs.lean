import Hftp.ThreadsProofs

/-! # Signals and waits

    A worker tests its busy bit and then waits, and the main thread its flag;
    between the two nothing keeps a signal off, and a signal to a thread that does
    not wait yet is lost.  As long as no signal comes just then, whoever waits for
    something that has happened has a signal still to come. -/

namespace Wakeup

open Transition Threads

/-! ## The condition -/

/-- A worker that has found its busy bit clear, and does not wait yet, while the
    bit has been set. -/
def missing (x : Worker) : Bool := decide (x.pc = .toWait) && x.busy

/-- The main thread in the same place. -/
def mainMissing (s : State) : Bool := decide (s.main = .toWait) && s.continueInput

/-- Somebody else than worker `w` is about to signal the main thread. -/
def othersSignal (s : State) (w : Nat) : Bool :=
  decide (s.dispatcher = .quitSignal) ||
    (List.range defaultWorkerCount).any fun v =>
      decide (v ≠ w) && decide ((s.workers v).pc = .signal)

/-- No signal comes between a test and the wait that follows it, unless it is of
    no use there, or another comes after it. -/
def inTime (s : State) : Act → Bool
  | .dispatcher _ =>
      match s.dispatcher with
      | .connSignal w | .signal w => !missing (s.workers w)
      | .quitSignal => !mainMissing s || (List.range defaultWorkerCount).any fun v =>
          decide ((s.workers v).pc = .signal)
      | _ => true
  | .worker w _ =>
      match (s.workers w).pc with
      | .signal => !mainMissing s || othersSignal s w
      | _ => true
  | _ => true

/-! ## The invariant -/

/-- A worker behind its test. -/
def asleep : WorkerPc → Bool
  | .toWait | .waiting => true
  | _ => false

/-- The main thread behind its test. -/
def mainAsleep : MainPc → Bool
  | .toWait | .waiting => true
  | _ => false

/-- A signal to the main thread is still to come. -/
def MainSignalled (s : State) : Prop :=
  s.dispatcher = .quitSignal ∨ ∃ v, (s.workers v).pc = .signal

/-- Whoever is behind a test that would now turn out otherwise has a signal still
    to come. -/
structure Signalled (s : State) : Prop where
  worker : ∀ w, asleep (s.workers w).pc = true → (s.workers w).busy = true →
    s.dispatcher = .connSignal w ∨ s.dispatcher = .signal w
  main : mainAsleep s.main = true → s.continueInput = true → MainSignalled s
  unborn : spawned s.main = 0 → ∀ w, (s.workers w).pc = .unborn

section Steps

variable {s t : State}

theorem signalled_start (fixedInput : Bool) : Signalled (State.start fixedInput) := by
  constructor
  · intro w h; cases h
  · intro _ h; cases h
  · intro _ _; rfl

/-- One worker comes to `x`, and nobody else takes note. -/
theorem Signalled.one (h : Signalled s) {w : Nat} {x : Worker}
    (hworkers : t.workers = Function.update s.workers w x)
    (hmain : t.main = s.main) (hflag : t.continueInput = s.continueInput)
    (hdisp : t.dispatcher = s.dispatcher)
    (hx : asleep x.pc = true → x.busy = true →
      s.dispatcher = .connSignal w ∨ s.dispatcher = .signal w)
    (hsignal : (s.workers w).pc ≠ .signal ∨ x.pc = .signal)
    (hborn : (s.workers w).pc ≠ .unborn) :
    Signalled t := by
  constructor
  · intro v
    rw [hworkers, hdisp]
    by_cases hv : v = w
    · rw [hv, Function.update_self]
      exact hx
    · rw [Function.update_of_ne hv]
      exact h.worker v
  · rw [hmain, hflag, MainSignalled, hdisp, hworkers]
    intro hasleep hset
    rcases h.main hasleep hset with hd | ⟨v, hv⟩
    · exact Or.inl hd
    · refine Or.inr ⟨v, ?_⟩
      by_cases hvw : v = w
      · rw [hvw, Function.update_self]
        rw [hvw] at hv
        exact hsignal.resolve_left (fun hne => hne hv)
      · rw [Function.update_of_ne hvw]
        exact hv
  · rw [hmain]
    intro hzero
    exact absurd (h.unborn hzero w) hborn

/-- While the dispatcher is at no signal, nobody behind the test is busy. -/
theorem Signalled.calm (h : Signalled s) (hat : signalling s.dispatcher = false) (w : Nat)
    (hasleep : asleep (s.workers w).pc = true) : (s.workers w).busy ≠ true := by
  intro hbusy
  rcases h.worker w hasleep hbusy with hd | hd
  · rw [hd] at hat
    cases hat
  · rw [hd] at hat
    cases hat

theorem Signalled.main_calm (h : Signalled s) (hat : s.dispatcher ≠ .quitSignal)
    (hasleep : mainAsleep s.main = true) (hset : s.continueInput = true) :
    ∃ v, (s.workers v).pc = .signal :=
  (h.main hasleep hset).resolve_left hat

/-- The dispatcher goes on, from a place that is no signal. -/
theorem Signalled.dispatch (h : Signalled s) (hat : signalling s.dispatcher = false)
    (hpcs : ∀ v, (t.workers v).pc = (s.workers v).pc)
    (hbusy : ∀ v, (t.workers v).busy = (s.workers v).busy ∨ t.dispatcher = .connSignal v ∨
      t.dispatcher = .signal v)
    (hmain : t.main = s.main) (hflag : t.continueInput = s.continueInput) :
    Signalled t := by
  constructor
  · intro v hasleep hset
    rw [hpcs v] at hasleep
    rcases hbusy v with hsame | hd
    · rw [hsame] at hset
      exact absurd hset (h.calm hat v hasleep)
    · exact hd
  · rw [hmain, hflag]
    intro hasleep hset
    obtain ⟨v, hv⟩ := h.main_calm (by rintro heq; rw [heq] at hat; cases hat) hasleep hset
    exact Or.inr ⟨v, (hpcs v).trans hv⟩
  · rw [hmain]
    intro hzero v
    rw [hpcs v]
    exact h.unborn hzero v

/-- The main thread goes on, or is woken, or its flag is set. -/
theorem Signalled.mainMoves (h : Signalled s) (hworkers : t.workers = s.workers)
    (hdisp : t.dispatcher = s.dispatcher)
    (hmain : mainAsleep t.main = true → t.continueInput = true → MainSignalled t)
    (hborn : spawned t.main = 0 → spawned s.main = 0) :
    Signalled t := by
  constructor
  · rw [hworkers, hdisp]
    exact h.worker
  · exact hmain
  · rw [hworkers]
    exact fun hzero => h.unborn (hborn hzero)

theorem mainStep_signalled (h : Signalled s) (hstep : mainStep s = some t) : Signalled t := by
  rw [mainStep] at hstep
  cases hm : s.main with
  | createPatcher =>
      rw [hm] at hstep
      obtain rfl := Option.some.inj hstep
      have hall := h.unborn (by rw [hm]; rfl)
      constructor
      · intro w hasleep
        rw [show (s.workers w).pc = .unborn from hall w] at hasleep
        cases hasleep
      · intro hasleep
        cases hasleep
      · exact fun _ => hall
  | workspaceInit =>
      rw [hm] at hstep
      obtain rfl := Option.some.inj hstep
      exact h.mainMoves rfl rfl (by rintro ⟨⟩) (fun _ => by rw [hm]; rfl)
  | spawn i =>
      rw [hm] at hstep
      dsimp only at hstep
      split_ifs at hstep
      · obtain rfl := Option.some.inj hstep
        constructor
        · intro v
          show asleep (Function.update s.workers i { s.workers i with pc := .start } v).pc = true →
            (Function.update s.workers i { s.workers i with pc := .start } v).busy = true → _
          by_cases hv : v = i
          · rw [hv, Function.update_self]
            rintro ⟨⟩
          · rw [Function.update_of_ne hv]
            exact h.worker v
        · intro hasleep
          cases hasleep
        · intro hzero
          cases hzero
      · obtain rfl := Option.some.inj hstep
        exact h.mainMoves rfl rfl (by rintro ⟨⟩) (fun hzero => by cases hzero)
  | test =>
      rw [hm] at hstep
      obtain rfl := Option.some.inj hstep
      refine h.mainMoves rfl rfl (fun hasleep hset => ?_) (fun hzero => ?_)
      · rw [if_pos (show s.continueInput = true from hset)] at hasleep
        cases hasleep
      · dsimp only at hzero
        split_ifs at hzero
        · cases hzero
        · cases hzero
  | toWait =>
      rw [hm] at hstep
      obtain rfl := Option.some.inj hstep
      exact h.mainMoves rfl rfl (fun _ hset => h.main (by rw [hm]; rfl) hset)
        (fun hzero => by cases hzero)
  | input | waiting | past =>
      rw [hm] at hstep
      cases hstep

/-- A main thread that is woken and still asleep was not waiting yet. -/
theorem wakeMain_asleep (h : mainAsleep s.wakeMain.main = true) : s.main = .toWait := by
  rw [State.wakeMain] at h
  split_ifs at h with hm
  · cases h
  · cases hat : s.main with
    | toWait => rfl
    | waiting => exact absurd hat hm
    | _ =>
        rw [hat] at h
        cases h

theorem endLine_asleep (s : State) : mainAsleep (endLine s).main = mainAsleep s.main := by
  rw [endLine]
  split_ifs with hm
  · rw [hm]
    rfl
  · rfl

/-- A signal to a worker, which goes to no other. -/
theorem wake_signalled (h : Signalled s) {w : Nat} {pc : DispatcherPc}
    (hat : s.dispatcher = .connSignal w ∨ s.dispatcher = .signal w)
    (hmiss : missing (s.workers w) = false) :
    Signalled ((s.wake w).goto pc) := by
  have honly : ∀ v, asleep (s.workers v).pc = true → (s.workers v).busy = true → v = w := by
    intro v hasleep hbusy
    rcases h.worker v hasleep hbusy with hv | hv
    · rw [hv] at hat
      exact hat.elim (fun heq => DispatcherPc.connSignal.inj heq) (by rintro ⟨⟩)
    · rw [hv] at hat
      exact hat.elim (by rintro ⟨⟩) (fun heq => DispatcherPc.signal.inj heq)
  have hmain : mainAsleep s.main = true → s.continueInput = true →
      ∃ v, (s.workers v).pc = .signal := by
    refine h.main_calm (fun heq => ?_)
    rw [heq] at hat
    exact hat.elim (by rintro ⟨⟩) (by rintro ⟨⟩)
  rcases wake_eq s w with ⟨hnot, hwake⟩ | ⟨hwaits, hwake⟩
  · rw [hwake]
    constructor
    · intro v hasleep hbusy
      have hv : v = w := honly v hasleep hbusy
      rw [hv] at hasleep hbusy
      have hto : (s.workers w).pc = .toWait := by
        cases hpc : (s.workers w).pc with
        | toWait => rfl
        | waiting => exact absurd hpc hnot
        | _ =>
            rw [show ((s.goto pc).workers w).pc = _ from hpc] at hasleep
            cases hasleep
      rw [missing, hto, show (s.workers w).busy = true from hbusy] at hmiss
      cases hmiss
    · intro hasleep hset
      exact Or.inr (hmain hasleep hset)
    · exact h.unborn
  · rw [hwake]
    have hself : ((s.workerGoto w .test).goto pc).workers w = { s.workers w with pc := .test } :=
      Function.update_self _ _ _
    have hother : ∀ v, v ≠ w → ((s.workerGoto w .test).goto pc).workers v = s.workers v :=
      fun v hv => Function.update_of_ne hv _ _
    constructor
    · intro v hasleep hbusy
      by_cases hv : v = w
      · rw [hv, hself] at hasleep
        cases hasleep
      · rw [hother v hv] at hasleep hbusy
        exact absurd (honly v hasleep hbusy) hv
    · intro hasleep hset
      obtain ⟨v, hv⟩ := hmain hasleep hset
      refine Or.inr ⟨v, ?_⟩
      rw [hother v (by rintro rfl; rw [hwaits] at hv; cases hv)]
      exact hv
    · intro hzero
      rw [h.unborn hzero w] at hwaits
      cases hwaits

/-- The signal after `quit`. -/
theorem quit_signalled (h : Signalled s) (hat : s.dispatcher = .quitSignal)
    (htime : mainMissing s = true → ∃ v, (s.workers v).pc = .signal) :
    Signalled (endLine s.wakeMain) := by
  obtain ⟨hworkers, -, -, hflag⟩ := endLine_frame s.wakeMain
  obtain ⟨hworkers', -, -, hflag', -⟩ := wakeMain_frame s
  constructor
  · rw [hworkers, hworkers']
    intro v hasleep hbusy
    rcases h.worker v hasleep hbusy with hd | hd
    · rw [hat] at hd
      cases hd
    · rw [hat] at hd
      cases hd
  · rw [endLine_asleep, hflag, hflag', MainSignalled, hworkers, hworkers']
    intro hasleep hset
    refine Or.inr (htime ?_)
    rw [mainMissing, wakeMain_asleep hasleep, hset]
    rfl
  · rw [endLine_spawned, wakeMain_spawned, hworkers, hworkers']
    exact h.unborn

theorem dispatched_signalled {b : Bool} (h : Signalled s) (hok : inTime s (.dispatcher b) = true)
    (hstep : Dispatched s t) :
    Signalled t := by
  have hself : ∀ (x : Worker) (w v : Nat), x.pc = (s.workers w).pc →
      (Function.update s.workers w x v).pc = (s.workers v).pc := by
    intro x w v hx
    by_cases hv : v = w
    · rw [hv, Function.update_self]
      exact hx
    · rw [Function.update_of_ne hv]
  cases hstep with
  | alone hsame hat =>
      exact h.dispatch hat (fun v => by rw [hsame.workers]) (fun v => Or.inl (by rw [hsame.workers]))
        hsame.main hsame.continueInput
  | assign cev w hat ht =>
      rw [ht]
      refine h.dispatch (by rw [hat]; rfl) (fun v => hself _ w v rfl) (fun v => ?_) rfl rfl
      by_cases hv : v = w
      · rw [hv]
        exact Or.inr (Or.inl rfl)
      · exact Or.inl (congrArg Worker.busy (Function.update_of_ne hv _ _))
  | wake w pc hat ht =>
      rw [ht]
      refine wake_signalled h hat ?_
      rw [inTime] at hok
      rcases hat with hat | hat
      · rw [hat] at hok
        exact (Bool.not_eq_true' _).mp hok
      · rw [hat] at hok
        exact (Bool.not_eq_true' _).mp hok
  | connEnqueue _ hat ht | enqueue _ hat ht =>
      rw [ht]
      exact h.dispatch (by rw [hat]; rfl) (fun _ => rfl) (fun _ => Or.inl rfl) rfl rfl
  | wakeMain hat ht =>
      rw [ht]
      refine quit_signalled h hat (fun hmiss => ?_)
      rw [inTime, hat] at hok
      dsimp only at hok
      rw [hmiss, Bool.not_true, Bool.false_or] at hok
      obtain ⟨v, -, hv⟩ := List.any_eq_true.mp hok
      exact ⟨v, of_decide_eq_true hv⟩
  | store fd w x hat hx ht =>
      rw [ht]
      refine h.dispatch (by rw [hat]; rfl) (fun v => hself x w v hx.1) (fun v => Or.inl ?_) rfl rfl
      by_cases hv : v = w
      · rw [hv]
        exact (congrArg Worker.busy (Function.update_self _ _ _)).trans hx.2
      · exact congrArg Worker.busy (Function.update_of_ne hv _ _)
  | setBusy w hat ht =>
      rw [ht]
      refine h.dispatch (by rw [hat]; rfl) (fun v => hself _ w v rfl) (fun v => ?_) rfl rfl
      by_cases hv : v = w
      · rw [hv]
        exact Or.inr (Or.inr rfl)
      · exact Or.inl (congrArg Worker.busy (Function.update_of_ne hv _ _))

/-- A worker signals the main thread. -/
theorem signal_signalled (h : Signalled s) {w : Nat} (hpc : (s.workers w).pc = .signal)
    (htime : mainMissing s = true → othersSignal s w = true) :
    Signalled (s.wakeMain.workerGoto w .release) := by
  obtain ⟨hworkers, -, -, hflag, hdisp⟩ := wakeMain_frame s
  have hself : (s.wakeMain.workerGoto w .release).workers w =
      { s.wakeMain.workers w with pc := .release } := Function.update_self _ _ _
  have hother : ∀ v, v ≠ w → (s.wakeMain.workerGoto w .release).workers v = s.workers v := by
    intro v hv
    rw [← hworkers]
    exact Function.update_of_ne hv _ _
  have hdisp' : (s.wakeMain.workerGoto w .release).dispatcher = s.dispatcher := hdisp
  constructor
  · intro v hasleep hbusy
    rw [hdisp']
    by_cases hv : v = w
    · rw [hv, hself] at hasleep
      cases hasleep
    · rw [hother v hv] at hasleep hbusy
      exact h.worker v hasleep hbusy
  · intro hasleep hset
    have hmiss : mainMissing s = true := by
      rw [mainMissing, wakeMain_asleep hasleep, ← hflag, show s.wakeMain.continueInput = true from hset]
      rfl
    have hothers := htime hmiss
    rw [othersSignal, Bool.or_eq_true, decide_eq_true_eq] at hothers
    rcases hothers with hquit | hany
    · exact Or.inl (hdisp'.trans hquit)
    · obtain ⟨v, -, hv⟩ := List.any_eq_true.mp hany
      rw [Bool.and_eq_true, decide_eq_true_eq, decide_eq_true_eq] at hv
      refine Or.inr ⟨v, ?_⟩
      rw [hother v hv.1]
      exact hv.2
  · intro hzero
    have hborn := h.unborn ((wakeMain_spawned s).symm.trans hzero) w
    rw [hpc] at hborn
    cases hborn

theorem worked_signalled {w : Nat} {ok : Bool} (h : Signalled s)
    (hok : inTime s (.worker w ok) = true) (hstep : Worked s t w) :
    Signalled t := by
  -- an engaged worker is at none of the places of the wait
  have hengaged : ∀ {x : Worker}, engaged x.pc = true → asleep x.pc = true → x.busy = true →
      s.dispatcher = .connSignal w ∨ s.dispatcher = .signal w := by
    intro x hpc hasleep
    revert hpc hasleep
    cases x.pc with
    | toWait => rintro ⟨⟩
    | waiting => rintro ⟨⟩
    | _ => exact fun _ h => by cases h
  cases hstep with
  | serve x hx hpc hfrom =>
      exact h.one hx.workers hx.main hx.continueInput hx.dispatcher (hengaged hpc)
        (Or.inl hfrom.1) hfrom.2
  | tested hx hfrom hidle =>
      refine h.one hx.workers hx.main hx.continueInput hx.dispatcher (fun _ hbusy => ?_)
        (Or.inl (by rw [hfrom]; rintro ⟨⟩)) (by rw [hfrom]; rintro ⟨⟩)
      rw [show (s.workers w).busy = true from hbusy] at hidle
      cases hidle
  | waits hx hfrom =>
      exact h.one hx.workers hx.main hx.continueInput hx.dispatcher
        (fun _ hbusy => h.worker w (by rw [hfrom]; rfl) hbusy)
        (Or.inl (by rw [hfrom]; rintro ⟨⟩)) (by rw [hfrom]; rintro ⟨⟩)
  | raise hfrom ht =>
      rw [ht]
      constructor
      · intro v
        show asleep (Function.update s.workers w { s.workers w with pc := .signal } v).pc = true →
          (Function.update s.workers w { s.workers w with pc := .signal } v).busy = true → _
        by_cases hv : v = w
        · rw [hv, Function.update_self]
          rintro ⟨⟩
        · rw [Function.update_of_ne hv]
          exact h.worker v
      · exact fun _ _ => Or.inr ⟨w, congrArg Worker.pc (Function.update_self w _ s.workers)⟩
      · intro hzero
        rw [h.unborn hzero w] at hfrom
        cases hfrom
  | signal hfrom ht =>
      -- a signal that the main thread misses has another after it, by the guard
      rw [inTime, hfrom] at hok
      rw [ht]
      refine signal_signalled h hfrom (fun hmiss => ?_)
      dsimp only at hok
      rw [hmiss, Bool.not_true, Bool.false_or] at hok
      exact hok
  | connsEmpty hx hfrom _ | epollsEmpty hx hfrom _ =>
      exact h.one hx.workers hx.main hx.continueInput hx.dispatcher (by rintro ⟨⟩)
        (Or.inl (by rw [hfrom]; rintro ⟨⟩)) (by rw [hfrom]; rintro ⟨⟩)
  | takeConn x hx hpc hfrom _ =>
      exact h.one hx.workers hx.main hx.continueInput hx.dispatcher (hengaged hpc)
        (Or.inl (by rw [hfrom]; rintro ⟨⟩)) (by rw [hfrom]; rintro ⟨⟩)
  | takeEpoll x hx hpc hfrom _ _ =>
      refine h.one hx.workers hx.main hx.continueInput hx.dispatcher ?_
        (Or.inl (by rw [hfrom]; rintro ⟨⟩)) (by rw [hfrom]; rintro ⟨⟩)
      rcases hpc with hpc | ⟨hpc, -⟩
      · exact hengaged hpc
      · rw [hpc]
        rintro ⟨⟩
  | clear hfrom ht =>
      rw [ht]
      exact h.one (x := { s.workers w with busy := false, pc := .test }) rfl rfl rfl rfl
        (by rintro ⟨⟩) (Or.inl (by rw [hfrom]; rintro ⟨⟩)) (by rw [hfrom]; rintro ⟨⟩)

theorem step_signalled {a : Act} (h : Signalled s) (hok : inTime s a = true)
    (hstep : step s a = some t) :
    Signalled t := by
  cases a with
  | main => exact mainStep_signalled h hstep
  | command m fd =>
      rw [step] at hstep
      split_ifs at hstep with hcond
      obtain rfl := Option.some.inj hstep
      refine h.dispatch ?_ (fun _ => rfl) (fun _ => Or.inl rfl) rfl rfl
      rcases hcond.1 with hat | hat
      · rw [hat]
        rfl
      · rw [hat]
        rfl
  | quit =>
      rw [step] at hstep
      split_ifs at hstep with hcond
      obtain rfl := Option.some.inj hstep
      constructor
      · intro w hasleep hbusy
        exact absurd hbusy (h.calm (by rw [hcond]; rfl) w hasleep)
      · exact fun _ _ => Or.inl rfl
      · exact h.unborn
  | endInput =>
      rw [step] at hstep
      split_ifs at hstep with hcond
      obtain rfl := Option.some.inj hstep
      obtain ⟨hworkers, -, -, hflag⟩ := endLine_frame s
      have hat : signalling s.dispatcher = false := by
        rcases hcond with hat | hat
        · rw [hat]
          rfl
        · rw [hat]
          rfl
      constructor
      · rw [hworkers]
        exact fun w hasleep hbusy => absurd hbusy (h.calm hat w hasleep)
      · rw [endLine_asleep, hflag, MainSignalled, hworkers]
        intro hasleep hset
        refine Or.inr (h.main_calm ?_ hasleep hset)
        intro heq
        rw [heq] at hat
        cases hat
      · rw [endLine_spawned, hworkers]
        exact h.unborn
  | fetch fds =>
      rw [step] at hstep
      split_ifs at hstep with hcond
      obtain rfl := Option.some.inj hstep
      exact h.dispatch (by rw [hcond.1]; rfl) (fun _ => rfl) (fun _ => Or.inl rfl) rfl rfl
  | dispatcher b => exact dispatched_signalled h hok (dispatcher_dispatched hstep)
  | worker w ok =>
      rw [step] at hstep
      split_ifs at hstep
      exact worked_signalled h hok (workerStep_worked hstep)

end Steps

/-! ## Runs -/

/-- Who waits for something that has happened has a signal still to come. -/
def NoLostWakeup (s : State) : Prop :=
  (∀ w, (s.workers w).pc = .waiting → (s.workers w).busy = true →
    s.dispatcher = .connSignal w ∨ s.dispatcher = .signal w) ∧
  (s.main = .waiting → s.continueInput = true → MainSignalled s)

/-- **NO WAKE-UP IS LOST**. -/
theorem no_lost_wakeup {fixedInput : Bool} {as : List Act} {s : State}
    (hrun : (program.guarded inTime).run (State.start fixedInput) as = some s) :
    NoLostWakeup s := by
  have h : Signalled s := by
    refine Machine.invariant (fun s a t h hstep => ?_) (signalled_start fixedInput) hrun
    obtain ⟨hok, hstep'⟩ := Machine.guarded_step.mp hstep
    exact step_signalled h hok hstep'
  constructor
  · intro w hwaits hbusy
    exact h.worker w (by rw [hwaits]; rfl) hbusy
  · intro hwaits hset
    exact h.main (by rw [hwaits]; rfl) hset

/-- A command is given to a worker that waits, and the signal is still to come. -/
def givenCommand : List Act :=
  boot ++ [.fetch [0]] ++ dispatches 1 ++ [.command .get 3] ++ dispatches 15

theorem no_lost_wakeup_givenCommand :
    ∃ s, (program.guarded inTime).run (State.start false) givenCommand = some s ∧
      ((s.workers 0).pc = .waiting ∧ (s.workers 0).busy = true) ∧ NoLostWakeup s := by
  obtain ⟨s, hs, hpc⟩ := (Option.any_eq_true (fun s : State => decide
    ((s.workers 0).pc = .waiting ∧ (s.workers 0).busy = true)) _).mp
    (show ((program.guarded inTime).run (State.start false) givenCommand).any _ = true by
      decide +kernel)
  exact ⟨s, hs, of_decide_eq_true hpc, no_lost_wakeup hs⟩

/-- The same with a worker that has tested its busy bit and does not wait yet
    when the signal comes. -/
def lateWaiter : List Act :=
  List.replicate 11 .main ++ works 0 2 ++ (List.range 7).flatMap (fun v => works (v + 1) 3) ++
    [.fetch [0]] ++ dispatches 1 ++ [.command .get 3] ++ dispatches 16 ++ works 0 1

/-- It waits, and no signal comes any more. -/
theorem lateWaiter_lost :
    ¬ ∀ fixedInput as s, program.run (State.start fixedInput) as = some s → NoLostWakeup s := by
  intro hall
  obtain ⟨s, hs, hat⟩ := (Option.any_eq_true (fun s : State => decide (s.dispatcher = .input ∧
    (s.workers 0).pc = .waiting ∧ (s.workers 0).busy = true)) _).mp
    (show (program.run (State.start false) lateWaiter).any _ = true by decide +kernel)
  obtain ⟨hdisp, hwaits, hbusy⟩ := of_decide_eq_true hat
  have hsignal := (hall false _ s hs).1 0 hwaits hbusy
  rw [hdisp] at hsignal
  exact hsignal.elim (by rintro ⟨⟩) (by rintro ⟨⟩)

end Wakeup
