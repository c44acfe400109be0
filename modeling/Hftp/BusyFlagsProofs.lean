import Hftp.BusyWordProofs
import Hftp.CommandLifeProofs

/-! # The flags of the workers

    The record of a worker has a flag where the program has a bit of
    `g_thread_work_flag`.  Here the word is kept beside the threads, and changed
    where `interprete_single_command`, `epoll_patcher` and `epoll_worker` change it.

    In every run it says the same as the flags: to `is_idle_thread`, to the search
    for an idle worker, and to the loop that waits for the word to be zero. -/

namespace BusyFlags

open Threads Transition BusyWord
open CommandLife (idleWorker_idle)

/-! ## The word beside the threads -/

/-- What a step does to the word. -/
def updateOf (s : State) : Act → Option Update
  | .dispatcher _ =>
      match s.dispatcher with
      | .assign _ => s.idleWorker.map .set
      | .setBusy w => some (.set w)
      | _ => none
  | .worker w _ => if (s.workers w).pc = .clear then some (.clear w) else none
  | .main | .command _ _ | .quit | .endInput | .fetch _ => none

structure Worded where
  threads : State
  word : Word

def wordedStep (wide : Nat → BitVec 32) (x : Worded) (a : Act) : Option Worded :=
  (step x.threads a).map fun t =>
    { threads := t, word := (updateOf x.threads a).elim x.word (update wide x.word) }

/-- The program, with its word. -/
def worded (wide : Nat → BitVec 32) : Machine Worded Act := { step := wordedStep wide }

/-- The start of the program. -/
def starting (fixedInput : Bool) : Worded := { threads := State.start fixedInput, word := 0#64 }

/-- The flags behind an update. -/
def flagsAfter (s : State) : Option Update → Nat → Bool
  | none, i => (s.workers i).busy
  | some u, i => if i = u.worker then decide (u = .set i) else (s.workers i).busy

/-! ## The flags -/

section Flags

variable {s t : State}

/-- A worker that keeps its flag keeps everyone's. -/
theorem setWorker_busy {w : Nat} {x : Worker} (hx : x.busy = (s.workers w).busy) (i : Nat) :
    ((s.setWorker w x).workers i).busy = (s.workers i).busy := by
  show (Function.update s.workers w x i).busy = _
  by_cases hi : i = w
  · rw [hi, Function.update_self, hx]
  · rw [Function.update_of_ne hi]

/-- A worker that only goes on changes no flag. -/
theorem workerGoto_busy (s : State) (w : Nat) (pc : WorkerPc) (i : Nat) :
    ((s.workerGoto w pc).workers i).busy = (s.workers i).busy :=
  setWorker_busy (x := { s.workers w with pc := pc }) rfl i

/-- A step with an update changes that flag. -/
theorem setWorker_flags {u : Update} {x : Worker} (hx : x.busy = decide (u = .set u.worker))
    (ht : t.workers = Function.update s.workers u.worker x) (i : Nat) :
    (t.workers i).busy = flagsAfter s (some u) i := by
  rw [ht, flagsAfter]
  by_cases hi : i = u.worker
  · rw [if_pos hi, hi, Function.update_self, hx]
  · rw [if_neg hi, Function.update_of_ne hi]

/-- The main thread changes no flag. -/
theorem mainStep_flags (hstep : mainStep s = some t) (i : Nat) :
    (t.workers i).busy = (s.workers i).busy := by
  rw [mainStep] at hstep
  cases hmain : s.main with
  | spawn j =>
      rw [hmain] at hstep
      dsimp only at hstep
      split_ifs at hstep
      · obtain rfl := Option.some.inj hstep
        exact workerGoto_busy s j .start i
      · obtain rfl := Option.some.inj hstep
        rfl
  | createPatcher | workspaceInit | test | toWait =>
      rw [hmain] at hstep
      obtain rfl := Option.some.inj hstep
      rfl
  | _ =>
      rw [hmain] at hstep
      cases hstep

/-- The dispatcher sets a flag at two places only. -/
theorem dispatched_flags (h : Dispatched s t) (hassign : ∀ cev, s.dispatcher ≠ .assign cev)
    (hset : ∀ w, s.dispatcher ≠ .setBusy w) (i : Nat) :
    (t.workers i).busy = (s.workers i).busy := by
  cases h with
  | alone hsame _ => rw [hsame.workers]
  | assign cev w hat _ => exact absurd hat (hassign cev)
  | wake w pc _ ht =>
      rw [ht]
      rcases wake_eq s w with ⟨-, hsame⟩ | ⟨-, hwoken⟩
      · rw [hsame]
        rfl
      · rw [hwoken]
        exact workerGoto_busy s w .test i
  | connEnqueue _ _ ht | enqueue _ _ ht =>
      rw [ht]
      rfl
  | wakeMain _ ht => rw [ht, (endLine_frame s.wakeMain).1, (wakeMain_frame s).1]
  | store fd w x _ hx ht =>
      rw [ht]
      exact setWorker_busy hx.2 i
  | setBusy w hat _ => exact absurd hat (hset w)

/-- A worker that comes elsewhere with its flag as it was changes no flag. -/
theorem Comes.flags {w : Nat} {x : Worker} (h : Comes s t w x) (i : Nat) :
    (t.workers i).busy = (s.workers i).busy := by
  rw [h.workers]
  exact setWorker_busy h.busy i

/-- A worker clears its flag at one place only. -/
theorem worked_flags {w : Nat} (h : Worked s t w) (hpc : (s.workers w).pc ≠ .clear) (i : Nat) :
    (t.workers i).busy = (s.workers i).busy := by
  cases h with
  | serve x hx _ _ => exact Comes.flags hx i
  | tested hx _ _ => exact Comes.flags hx i
  | waits hx _ => exact Comes.flags hx i
  | raise _ ht =>
      rw [ht]
      exact workerGoto_busy s w .signal i
  | signal _ ht =>
      rw [ht, workerGoto_busy, (wakeMain_frame s).1]
  | connsEmpty hx _ _ => exact Comes.flags hx i
  | takeConn x hx _ _ _ => exact Comes.flags hx i
  | epollsEmpty hx _ _ => exact Comes.flags hx i
  | takeEpoll x hx _ _ _ _ => exact Comes.flags hx i
  | clear hfrom _ => exact absurd hfrom hpc

/-- **WHAT A STEP DOES TO THE FLAGS** is what it does to the word. -/
theorem step_flags {a : Act} (hstep : step s a = some t) (i : Nat) :
    (t.workers i).busy = flagsAfter s (updateOf s a) i := by
  cases a with
  | main => exact mainStep_flags hstep i
  | endInput =>
      rw [step] at hstep
      split_ifs at hstep
      obtain rfl := Option.some.inj hstep
      rw [(endLine_frame s).1]
      rfl
  | command _ _ | quit | fetch _ =>
      rw [step] at hstep
      split_ifs at hstep
      obtain rfl := Option.some.inj hstep
      rfl
  | dispatcher b =>
      have hdispatched := dispatcher_dispatched hstep
      rw [updateOf]
      cases hd : s.dispatcher with
      | assign cev =>
          rw [step, hd, commandStep] at hstep
          dsimp only
          cases hidle : s.idleWorker with
          | none =>
              rw [hidle] at hstep
              obtain rfl := Option.some.inj hstep
              rfl
          | some w =>
              rw [hidle] at hstep
              obtain rfl := Option.some.inj hstep
              exact setWorker_flags (u := .set w) (decide_eq_true rfl).symm rfl i
      | setBusy w =>
          rw [step, hd] at hstep
          obtain rfl := Option.some.inj hstep
          exact setWorker_flags (u := .set w) (x := { s.workers w with busy := true })
            (decide_eq_true rfl).symm rfl i
      | _ =>
          exact dispatched_flags hdispatched (fun cev h => by cases hd.symm.trans h)
            (fun w h => by cases hd.symm.trans h) i
  | worker w ok =>
      rw [step] at hstep
      split_ifs at hstep
      rw [updateOf]
      by_cases hpc : (s.workers w).pc = .clear
      · rw [if_pos hpc]
        rw [workerStep, hpc] at hstep
        obtain rfl := Option.some.inj hstep
        exact setWorker_flags (u := .clear w) (x := { s.workers w with busy := false, pc := .test })
          (decide_eq_false (by rintro ⟨⟩)).symm rfl i
      · rw [if_neg hpc]
        exact worked_flags (workerStep_worked hstep) hpc i

end Flags

/-! ## Which workers -/

/-- The worker whose flag the dispatcher is about to set. -/
def target : DispatcherPc → Option Nat
  | .store _ w | .setBusy w => some w
  | _ => none

/-- **NO MORE WORKERS THAN THERE ARE**: those that are given work have been created. -/
structure Bounded (s : State) : Prop where
  space : s.workspaceCount ≤ defaultWorkerCount
  target : ∀ w, target s.dispatcher = some w → w < defaultWorkerCount

section Bounds

variable {s t : State}

/-- At the start there are no workspaces, and the dispatcher names none. -/
theorem bounded_start (fixedInput : Bool) : Bounded (State.start fixedInput) := by
  refine ⟨Nat.zero_le _, fun w hw => ?_⟩
  cases fixedInput <;> cases hw

/-- A worker that is found idle is one of the eight. -/
theorem Bounded.idle (h : Bounded s) {w : Nat} (hidle : s.idleWorker = some w) :
    w < defaultWorkerCount :=
  Nat.lt_of_lt_of_le (idleWorker_idle hidle).2 h.space

/-- The dispatcher has no target. -/
theorem Bounded.aimless (h : Bounded s) (hspace : t.workspaceCount = s.workspaceCount)
    (htarget : BusyFlags.target t.dispatcher = none) : Bounded t := by
  refine ⟨hspace ▸ h.space, fun w hw => ?_⟩
  rw [htarget] at hw
  cases hw

/-- Who leaves the dispatcher and the number of workspaces alone keeps the bounds. -/
theorem Bounded.same (h : Bounded s) (hspace : t.workspaceCount = s.workspaceCount)
    (hdisp : t.dispatcher = s.dispatcher) : Bounded t :=
  ⟨hspace ▸ h.space, fun w hw => h.target w (hdisp ▸ hw)⟩

/-- A signal for a worker leaves the number of workspaces alone. -/
theorem wake_space (s : State) (w : Nat) : (s.wake w).workspaceCount = s.workspaceCount := by
  rcases wake_eq s w with ⟨-, hsame⟩ | ⟨-, hwoken⟩
  · rw [hsame]
  · rw [hwoken]
    rfl

/-- So does one for the main thread. -/
theorem wakeMain_space (s : State) : s.wakeMain.workspaceCount = s.workspaceCount := by
  rw [State.wakeMain]
  split_ifs <;> rfl

/-- The end of a line names no worker. -/
theorem endLine_bounded (h : Bounded s) : Bounded (endLine s) := by
  rw [endLine]
  split_ifs
  · exact h.aimless rfl rfl
  · exact h.aimless rfl rfl

/-- A command names only a worker that was found idle. -/
theorem commandStep_bounded {b : Bool} {d : DispatcherPc} (h : Bounded s)
    (hstep : commandStep b s d = some t) : Bounded t := by
  cases d with
  | assign cev =>
      rw [commandStep] at hstep
      cases hidle : s.idleWorker with
      | some _ | none =>
          rw [hidle] at hstep
          obtain rfl := Option.some.inj hstep
          exact h.aimless rfl rfl
  | connSignal w =>
      obtain rfl := Option.some.inj hstep
      exact h.aimless (wake_space s w) rfl
  | install _ _ _ | count _ | connEnqueue _ =>
      obtain rfl := Option.some.inj hstep
      exact h.aimless rfl rfl
  | slot _ _ _ | slotWorkers _ _ _ _ | slotQueue _ _ _ | epollAdd _ =>
      rw [commandStep] at hstep
      split_ifs at hstep <;>
      · obtain rfl := Option.some.inj hstep
        exact h.aimless rfl rfl
  | _ => cases hstep

/-- An event names only such a worker too. -/
theorem patcherStep_bounded (h : Bounded s) (hstep : patcherStep s s.dispatcher = some t) :
    Bounded t := by
  cases hd : s.dispatcher with
  | quitSignal =>
      rw [hd] at hstep
      obtain rfl := Option.some.inj hstep
      have hwoken : Bounded s.wakeMain := h.same (wakeMain_space s) (wakeMain_frame s).2.2.2.2
      exact endLine_bounded hwoken
  | next =>
      rw [hd, patcherStep] at hstep
      cases hevents : s.events with
      | nil =>
          rw [hevents] at hstep
          obtain rfl := Option.some.inj hstep
          exact h.aimless rfl rfl
      | cons fd rest =>
          rw [hevents] at hstep
          dsimp only at hstep
          split_ifs at hstep <;>
          · obtain rfl := Option.some.inj hstep
            exact h.aimless rfl rfl
  | scan _ _ | queueScan _ =>
      rw [hd, patcherStep] at hstep
      split_ifs at hstep <;>
      · obtain rfl := Option.some.inj hstep
        exact h.aimless rfl rfl
  | idleCheck fd =>
      rw [hd, patcherStep] at hstep
      cases hidle : s.idleWorker with
      | some w =>
          rw [hidle] at hstep
          obtain rfl := Option.some.inj hstep
          refine ⟨h.space, fun v hv => ?_⟩
          obtain rfl : w = v := Option.some.inj hv
          exact h.idle hidle
      | none =>
          rw [hidle] at hstep
          obtain rfl := Option.some.inj hstep
          exact h.aimless rfl rfl
  | store fd w =>
      rw [hd] at hstep
      obtain rfl := Option.some.inj hstep
      refine ⟨h.space, fun v hv => ?_⟩
      obtain rfl : w = v := Option.some.inj hv
      exact h.target w (by rw [hd]; rfl)
  | signal w =>
      rw [hd] at hstep
      obtain rfl := Option.some.inj hstep
      exact h.aimless (wake_space s w) rfl
  | setBusy _ | enqueue _ =>
      rw [hd] at hstep
      obtain rfl := Option.some.inj hstep
      exact h.aimless rfl rfl
  | _ =>
      rw [hd] at hstep
      cases hstep

/-- The main thread makes eight workspaces. -/
theorem mainStep_bounded (h : Bounded s) (hstep : mainStep s = some t) : Bounded t := by
  rw [mainStep] at hstep
  cases hmain : s.main with
  | createPatcher =>
      rw [hmain] at hstep
      obtain rfl := Option.some.inj hstep
      exact h.aimless rfl rfl
  | workspaceInit =>
      rw [hmain] at hstep
      obtain rfl := Option.some.inj hstep
      exact ⟨Nat.le_refl _, h.target⟩
  | spawn i =>
      rw [hmain] at hstep
      dsimp only at hstep
      split_ifs at hstep <;>
      · obtain rfl := Option.some.inj hstep
        exact h.same rfl rfl
  | test | toWait =>
      rw [hmain] at hstep
      obtain rfl := Option.some.inj hstep
      exact h.same rfl rfl
  | _ =>
      rw [hmain] at hstep
      cases hstep

/-- A worker makes none. -/
theorem workerStep_bounded {w : Nat} {ok : Bool} (h : Bounded s)
    (hstep : workerStep s w ok = some t) : Bounded t := by
  rw [workerStep] at hstep
  cases hpc : (s.workers w).pc with
  | load =>
      rw [hpc] at hstep
      dsimp only at hstep
      cases hdue : (s.workers w).due with
      | none =>
          rw [hdue] at hstep
          obtain rfl := Option.some.inj hstep
          exact h.same rfl rfl
      | some d =>
          rw [hdue] at hstep
          cases hconn : s.dueConn (s.workers w) with
          | none =>
              rw [hconn] at hstep
              obtain rfl := Option.some.inj hstep
              exact h.same rfl rfl
          | some i =>
              rw [hconn] at hstep
              dsimp only at hstep
              split_ifs at hstep <;>
              · obtain rfl := Option.some.inj hstep
                exact h.same rfl rfl
  | exec d =>
      rw [hpc] at hstep
      dsimp only at hstep
      cases hconn : (s.workers w).connIndex with
      | none =>
          rw [hconn] at hstep
          obtain rfl := Option.some.inj hstep
          exact h.same rfl rfl
      | some i =>
          rw [hconn] at hstep
          obtain rfl := Option.some.inj hstep
          obtain ⟨-, -, hspace, -, -, hdisp, -⟩ := handlerReturn_frame s d i ok
          exact h.same hspace hdisp
  | account =>
      rw [hpc] at hstep
      dsimp only at hstep
      split_ifs at hstep
      · cases hconn : (s.workers w).connIndex with
        | none =>
            rw [hconn] at hstep
            obtain rfl := Option.some.inj hstep
            exact h.same rfl rfl
        | some i =>
            rw [hconn] at hstep
            dsimp only at hstep
            split_ifs at hstep <;>
            · obtain rfl := Option.some.inj hstep
              exact h.same rfl rfl
      · obtain rfl := Option.some.inj hstep
        exact h.same rfl rfl
  | signal =>
      rw [hpc] at hstep
      obtain rfl := Option.some.inj hstep
      have hwoken : Bounded s.wakeMain := h.same (wakeMain_space s) (wakeMain_frame s).2.2.2.2
      exact hwoken.same rfl rfl
  | dequeueConn =>
      rw [hpc] at hstep
      dsimp only at hstep
      split_ifs at hstep
      · obtain rfl := Option.some.inj hstep
        rw [takeConn]
        split_ifs <;> exact h.same rfl rfl
      · obtain rfl := Option.some.inj hstep
        exact h.same rfl rfl
  | dequeueEpoll =>
      rw [hpc] at hstep
      dsimp only at hstep
      split_ifs at hstep
      · obtain rfl := Option.some.inj hstep
        unfold takeEpoll
        dsimp only
        cases s.lookup (s.epollQueue.head epollEventQueueMax) with
        | some i => exact h.same rfl rfl
        | none => exact h.same rfl rfl
      · obtain rfl := Option.some.inj hstep
        exact h.same rfl rfl
  | unborn | waiting | fault =>
      rw [hpc] at hstep
      cases hstep
  | _ =>
      rw [hpc] at hstep
      obtain rfl := Option.some.inj hstep
      exact h.same rfl rfl

/-- The workers that are given work are the ones there are, whatever is done. -/
theorem step_bounded {a : Act} (h : Bounded s) (hstep : step s a = some t) : Bounded t := by
  cases a with
  | main => exact mainStep_bounded h hstep
  | endInput =>
      rw [step] at hstep
      split_ifs at hstep
      obtain rfl := Option.some.inj hstep
      exact endLine_bounded h
  | command _ _ | quit | fetch _ =>
      rw [step] at hstep
      split_ifs at hstep
      obtain rfl := Option.some.inj hstep
      exact h.aimless rfl rfl
  | dispatcher b =>
      rw [step] at hstep
      cases hcommand : commandStep b s s.dispatcher with
      | some u =>
          rw [hcommand] at hstep
          exact commandStep_bounded h (Option.some.inj hstep ▸ hcommand)
      | none =>
          rw [hcommand] at hstep
          exact patcherStep_bounded h hstep
  | worker w ok =>
      rw [step] at hstep
      split_ifs at hstep
      exact workerStep_bounded h hstep

/-- So every update is of one of the eight. -/
theorem updateOf_bounded {a : Act} {u : Update} (h : Bounded s) (hstep : step s a = some t)
    (hu : updateOf s a = some u) : u.worker < defaultWorkerCount := by
  cases a with
  | dispatcher b =>
      rw [updateOf] at hu
      cases hd : s.dispatcher with
      | assign cev =>
          rw [hd] at hu
          obtain ⟨w, hidle, rfl⟩ := Option.map_eq_some_iff.mp hu
          exact h.idle hidle
      | setBusy w =>
          rw [hd] at hu
          obtain rfl := Option.some.inj hu
          exact h.target w (by rw [hd]; rfl)
      | _ =>
          rw [hd] at hu
          cases hu
  | worker w ok =>
      rw [step] at hstep
      split_ifs at hstep with hlt
      rw [updateOf] at hu
      split_ifs at hu
      obtain rfl := Option.some.inj hu
      exact Nat.lt_of_lt_of_le hlt h.space
  | _ => cases hu

end Bounds

/-! ## The word and the flags -/

/-- An `int` with the flags for bits. -/
structure Says (v : BitVec 32) (s : State) : Prop where
  bit : ∀ i < 32, v.getLsbD i = (s.workers i).busy
  rest : ∀ i, 32 ≤ i → (s.workers i).busy = false

/-- The word is such an `int`, widened. -/
structure Agrees (x : Worded) : Prop where
  int : ∃ v : BitVec 32, x.word = v.signExtend 64 ∧ Says v x.threads
  bounded : Bounded x.threads

/-- At the start the word is zero and every flag is clear. -/
theorem agrees_start (fixedInput : Bool) : Agrees (starting fixedInput) :=
  ⟨⟨0#32, rfl, fun _ _ => BitVec.getLsbD_zero, fun _ _ => rfl⟩, bounded_start fixedInput⟩

section Runs

variable {wide : Nat → BitVec 32}

/-- An update of the word is one of the flags. -/
theorem Says.update {v : BitVec 32} {s t : State} {u : Update} (h : Says v s)
    (hu : u.worker < 32) (ht : ∀ i, (t.workers i).busy = flagsAfter s (some u) i) :
    Says (updateInt wide v u) t := by
  constructor
  · intro i hi
    rw [updateInt_bit wide v hu hi, ht, flagsAfter, h.bit i hi]
  · intro i hi
    rw [ht, flagsAfter, if_neg (by omega)]
    exact h.rest i hi

/-- **A STEP KEEPS THE WORD AND THE FLAGS IN AGREEMENT**. -/
theorem agrees_step {x y : Worded} {a : Act} (h : Agrees x)
    (hstep : (worded wide).step x a = some y) : Agrees y := by
  obtain ⟨t, hthreads, rfl⟩ := Option.map_eq_some_iff.mp hstep
  obtain ⟨v, hword, hbits⟩ := h.int
  refine ⟨?_, step_bounded h.bounded hthreads⟩
  have hflags := step_flags hthreads
  cases hu : updateOf x.threads a with
  | none =>
      rw [hu] at hflags
      exact ⟨v, hword, fun i hi => (hbits.bit i hi).trans (hflags i).symm,
        fun i hi => (hflags i).trans (hbits.rest i hi)⟩
  | some u =>
      rw [hu] at hflags
      have hlt : u.worker < 32 :=
        Nat.lt_trans (updateOf_bounded h.bounded hthreads hu) (by decide)
      refine ⟨updateInt wide v u, ?_, hbits.update hlt hflags⟩
      show update wide x.word u = _
      rw [hword, update_signExtend]

/-- **THE WORD AND THE FLAGS AGREE** in every run. -/
theorem run_agrees {fixedInput : Bool} {as : List Act} {x : Worded}
    (hrun : (worded wide).run (starting fixedInput) as = some x) : Agrees x :=
  Machine.invariant (fun _ _ _ h hstep => agrees_step h hstep) (agrees_start fixedInput) hrun

/-- The word stops no run. -/
theorem worded_run {as : List Act} : ∀ {s t : State} {word : Word}, program.run s as = some t →
    ∃ word', (worded wide).run { threads := s, word := word } as
      = some { threads := t, word := word' } := by
  induction as with
  | nil =>
      intro s t word hrun
      obtain rfl := Option.some.inj hrun
      exact ⟨word, rfl⟩
  | cons a as ih =>
      intro s t word hrun
      obtain ⟨u, hu, hrest⟩ := Machine.run_cons.mp hrun
      obtain ⟨word', hword⟩ := ih hrest
      exact ⟨word', Machine.run_cons.mpr ⟨_, Option.map_eq_some_iff.mpr ⟨u, hu, rfl⟩, hword⟩⟩

variable {fixedInput : Bool} {as : List Act} {x : Worded}

/-- `is_idle_thread` reads the flag of its worker. -/
theorem word_idle (hrun : (worded wide).run (starting fixedInput) as = some x) {i : Nat}
    (hi : i < 32) : isIdleThread wide x.word i = !(x.threads.workers i).busy := by
  obtain ⟨v, hword, hbits⟩ := (run_agrees hrun).int
  rw [hword, idle_bit wide v hi, hbits.bit i hi]

/-- `get_idle_work_thread_index_not_safety` finds the worker that the search over the
    flags finds. -/
theorem word_search (hrun : (worded wide).run (starting fixedInput) as = some x) :
    getIdleWorkThreadIndexNotSafety wide x.threads.workspaceCount x.word =
      x.threads.idleWorker.elim (-1) fun w => (w : Int) := by
  have hagrees := run_agrees hrun
  obtain ⟨v, hword, hbits⟩ := hagrees.int
  have hspace := hagrees.bounded.space
  have hsame : ((List.range (min 64 x.threads.workspaceCount)).find? fun i =>
      isIdleThread wide x.word i) = x.threads.idleWorker := by
    refine List.find?_congr fun i hi => ?_
    have hlt : i < 32 := by
      have hmin := List.mem_range.mp hi
      rw [show defaultWorkerCount = 8 from rfl] at hspace
      omega
    exact word_idle hrun hlt
  rw [hword] at hsame ⊢
  rw [getIdle_signExtend, hsame]
  cases x.threads.idleWorker with
  | none => rfl
  | some w => rfl

/-- `while (g_thread_work_flag)` goes on as long as a flag is set. -/
theorem word_zero (hrun : (worded wide).run (starting fixedInput) as = some x) :
    x.word = 0#64 ↔ ((List.range 64).any fun w => (x.threads.workers w).busy) = false := by
  obtain ⟨v, hword, hbits⟩ := (run_agrees hrun).int
  rw [hword, signExtend_eq_zero, List.any_eq_false]
  constructor
  · intro hzero i _
    by_cases hi : i < 32
    · rw [← hbits.bit i hi, hzero, BitVec.getLsbD_zero]
      exact Bool.false_ne_true
    · rw [hbits.rest i (Nat.le_of_not_lt hi)]
      exact Bool.false_ne_true
  · intro hidle
    refine BitVec.eq_of_getLsbD_eq fun i hi => ?_
    have hnot := hidle i (List.mem_range.mpr (by omega))
    rw [hbits.bit i hi, BitVec.getLsbD_zero]
    exact Bool.eq_false_iff.mpr hnot

/-- **THE WORD IS THE FLAGS**: every run of the threads has its word, whatever a shift by
    more than an `int` has bits makes of it, and in that word all that is read of it,
    whoever reads it, is what the flags say. -/
theorem word_tells (wide : Nat → BitVec 32) {s : State}
    (hrun : program.run (State.start fixedInput) as = some s) :
    ∃ word, (worded wide).run (starting fixedInput) as = some { threads := s, word := word } ∧
      (∀ i < 32, isIdleThread wide word i = !(s.workers i).busy) ∧
      getIdleWorkThreadIndexNotSafety wide s.workspaceCount word =
        s.idleWorker.elim (-1) (fun w => (w : Int)) ∧
      (word = 0#64 ↔ ((List.range 64).any fun w => (s.workers w).busy) = false) := by
  obtain ⟨word, hword⟩ : ∃ word, (worded wide).run (starting fixedInput) as =
      some { threads := s, word := word } := worded_run hrun
  refine ⟨word, hword, ?_, ?_, ?_⟩
  · intro i hi
    exact word_idle hword hi
  · exact word_search hword
  · exact word_zero hword

end Runs

/-- A command from a terminal, with the first worker. -/
def oneGiven : List Act :=
  boot ++ [.fetch [0]] ++ dispatches 1 ++ [.command .get 3] ++ dispatches 16

/-- One command is given to the first worker. -/
theorem word_tells_oneGiven :
    ∃ s, program.run (State.start false) oneGiven = some s ∧ (s.workers 0).busy = true ∧
      ∃ word, (worded wrapping).run (starting false) oneGiven =
          some { threads := s, word := word } ∧
        (∀ i < 32, isIdleThread wrapping word i = !(s.workers i).busy) ∧
        getIdleWorkThreadIndexNotSafety wrapping s.workspaceCount word =
          s.idleWorker.elim (-1) (fun w => (w : Int)) ∧
        (word = 0#64 ↔ ((List.range 64).any fun w => (s.workers w).busy) = false) := by
  obtain ⟨s, hs, hbusy⟩ := (Option.any_eq_true (fun s : State => (s.workers 0).busy) _).mp
    (show (program.run (State.start false) oneGiven).any _ = true by decide +kernel)
  exact ⟨s, hs, hbusy, word_tells wrapping hs⟩

end BusyFlags
