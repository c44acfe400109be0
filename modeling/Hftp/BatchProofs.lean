import Hftp.ThreadsProofs

/-! # Commands from a file

    If the standard input is a file, `input_init` takes all its commands before
    there is a worker, so each of them goes to the queue of connections.  The workers
    are created with their busy bits clear and wait at once; they look at the queue
    after a handler only, and the only thread that would call one is the dispatcher,
    for an event.

    So until a connection becomes readable, for which no request has been sent,
    nothing is transferred and the program does not end. -/

namespace Batch

open RingBuffer Transition Threads

/-! ## The runs without an event -/

/-- Nobody enters `quit`, and no descriptor becomes readable. -/
def unreadable (_ : State) : Act → Bool
  | .quit => false
  | .fetch fds => fds.isEmpty
  | _ => true

/-- Where a worker is that was never given anything. -/
def unused : WorkerPc → Bool
  | .unborn | .start | .test | .toWait | .waiting => true
  | _ => false

/-- Where the dispatcher can be while the commands are read. -/
def reading : DispatcherPc → Bool
  | .line | .input | .slot _ _ _ | .slotWorkers _ _ _ _ | .slotQueue _ _ _ | .install _ _ _
  | .epollAdd _ | .count _ | .assign _ | .connEnqueue _ => true
  | _ => false

/-- A command that is counted and not queued yet. -/
def counted : DispatcherPc → Nat
  | .assign _ | .connEnqueue _ => 1
  | _ => 0

/-- The dispatcher reads before the threads are created, and then has nothing to do. -/
structure Patching (s : State) : Prop where
  before : s.main = .input → reading s.dispatcher = true ∧ s.workspaceCount = 0
  after : s.main ≠ .input → s.dispatcher = .unborn ∨ s.dispatcher = .wait ∨
    (s.dispatcher = .next ∧ s.events = [])

/-- **NOBODY IS AT WORK**. -/
structure Asleep (s : State) : Prop where
  fixed : s.fixedInput = true
  worker : ∀ w, (s.workers w).busy = false ∧ unused (s.workers w).pc = true
  served : ∀ i, (s.slots i).served = .none
  patching : Patching s
  flag : s.continueInput = false
  main : s.main ≠ .past
  remain : s.remainCount = s.connQueue.count + counted s.dispatcher

theorem asleep_start : Asleep (State.start true) := by
  refine ⟨rfl, fun _ => ⟨rfl, rfl⟩, fun _ => rfl, ⟨fun _ => ⟨rfl, rfl⟩, fun h => ?_⟩, rfl, ?_, rfl⟩
  · exact absurd rfl h
  · rintro ⟨⟩

section Steps

variable {s t : State}

/-- A step that calls no handler and counts no command. -/
theorem Asleep.next (h : Asleep s) (hfixed : t.fixedInput = s.fixedInput)
    (hworkers : ∀ w, (t.workers w).busy = false ∧ unused (t.workers w).pc = true)
    (hserved : ∀ i, (t.slots i).served = .none) (hpatching : Patching t)
    (hflag : t.continueInput = s.continueInput) (hmain : t.main ≠ .past)
    (hremain : t.remainCount = t.connQueue.count + counted t.dispatcher) : Asleep t :=
  ⟨hfixed.trans h.fixed, hworkers, hserved, hpatching, hflag.trans h.flag, hmain, hremain⟩

/-- One worker goes on, with nothing to do. -/
theorem Asleep.worker_update (h : Asleep s) {w : Nat} {x : Worker} (hbusy : x.busy = false)
    (hpc : unused x.pc = true) (v : Nat) :
    (Function.update s.workers w x v).busy = false ∧
      unused (Function.update s.workers w x v).pc = true := by
  by_cases hv : v = w
  · rw [hv, Function.update_self]
    exact ⟨hbusy, hpc⟩
  · rw [Function.update_of_ne hv]
    exact h.worker v

theorem Asleep.workerStep (h : Asleep s) {w : Nat} {x : Worker} (hbusy : x.busy = false)
    (hpc : unused x.pc = true) : Asleep (s.setWorker w x) :=
  h.next rfl (h.worker_update hbusy hpc) h.served ⟨h.patching.before, h.patching.after⟩ rfl h.main
    h.remain

/-- There is no worker that could be idle while the commands are read. -/
theorem idleWorker_none (hspace : s.workspaceCount = 0) : s.idleWorker = none := by
  rw [State.idleWorker, hspace]
  rfl

/-- Reading goes on. -/
theorem Asleep.reads (h : Asleep s) (hmain : s.main = .input) {d : DispatcherPc}
    (hd : reading d = true) (hcounted : counted d = counted s.dispatcher) : Asleep (s.goto d) := by
  refine h.next rfl h.worker h.served ⟨fun _ => ⟨hd, ?_⟩, fun hne => absurd hmain hne⟩ rfl h.main ?_
  · exact (h.patching.before hmain).2
  · show s.remainCount = s.connQueue.count + counted d
    rw [hcounted]
    exact h.remain

/-- The main thread is past the input, and the dispatcher stays. -/
theorem Patching.moved (h : Patching s) (hwas : s.main ≠ .input) (hnow : t.main ≠ .input)
    (hdisp : t.dispatcher = s.dispatcher) (hevents : t.events = s.events) : Patching t := by
  refine ⟨fun hmain => absurd hmain hnow, fun _ => ?_⟩
  rw [hdisp, hevents]
  exact h.after hwas

theorem mainStep_asleep (h : Asleep s) (hstep : mainStep s = some t) : Asleep t := by
  rw [mainStep] at hstep
  cases hm : s.main with
  | createPatcher =>
      rw [hm] at hstep
      obtain rfl := Option.some.inj hstep
      have hcounted : counted s.dispatcher = 0 := by
        rcases h.patching.after (by rw [hm]; rintro ⟨⟩) with hd | hd | ⟨hd, -⟩ <;> rw [hd] <;> rfl
      refine h.next rfl h.worker h.served ⟨by rintro ⟨⟩, fun _ => Or.inr (Or.inl rfl)⟩ rfl
        (by rintro ⟨⟩) ?_
      rw [h.remain, hcounted]
      rfl
  | workspaceInit =>
      have hwas : s.main ≠ .input := by rw [hm]; rintro ⟨⟩
      rw [hm] at hstep
      obtain rfl := Option.some.inj hstep
      exact h.next rfl h.worker h.served (h.patching.moved hwas (by rintro ⟨⟩) rfl rfl) rfl
        (by rintro ⟨⟩) h.remain
  | spawn i =>
      have hwas : s.main ≠ .input := by rw [hm]; rintro ⟨⟩
      rw [hm] at hstep
      dsimp only at hstep
      split_ifs at hstep
      · obtain rfl := Option.some.inj hstep
        exact h.next rfl (h.worker_update (h.worker i).1 rfl) h.served
          (h.patching.moved hwas (by rintro ⟨⟩) rfl rfl) rfl (by rintro ⟨⟩) h.remain
      · obtain rfl := Option.some.inj hstep
        exact h.next rfl h.worker h.served (h.patching.moved hwas (by rintro ⟨⟩) rfl rfl) rfl
          (by rintro ⟨⟩) h.remain
  | test =>
      have hwas : s.main ≠ .input := by rw [hm]; rintro ⟨⟩
      rw [hm, h.flag] at hstep
      obtain rfl := Option.some.inj hstep
      exact h.next rfl h.worker h.served (h.patching.moved hwas (by rintro ⟨⟩) rfl rfl)
        h.flag.symm (by rintro ⟨⟩) h.remain
  | toWait =>
      have hwas : s.main ≠ .input := by rw [hm]; rintro ⟨⟩
      rw [hm] at hstep
      obtain rfl := Option.some.inj hstep
      exact h.next rfl h.worker h.served (h.patching.moved hwas (by rintro ⟨⟩) rfl rfl) rfl
        (by rintro ⟨⟩) h.remain
  | input | waiting | past =>
      rw [hm] at hstep
      cases hstep

/-- The commands are read, and all of them are queued. -/
theorem commandStep_asleep {b : Bool} (h : Asleep s) (hmain : s.main = .input)
    (hstep : commandStep b s s.dispatcher = some t) : Asleep t := by
  obtain ⟨hreading, hspace⟩ := h.patching.before hmain
  cases hd : s.dispatcher with
  | slot _ _ _ | slotWorkers _ _ _ _ | slotQueue _ _ _ =>
      rw [hd, commandStep] at hstep
      split_ifs at hstep <;>
      · obtain rfl := Option.some.inj hstep
        exact h.reads hmain rfl (by rw [hd]; rfl)
  | install m fd i =>
      rw [hd] at hstep
      obtain rfl := Option.some.inj hstep
      refine h.next rfl h.worker (fun j => ?_) ⟨fun _ => ⟨rfl, hspace⟩, fun hne => absurd hmain hne⟩
        rfl h.main ?_
      · show (Function.update s.slots i { s.slots i with
          state := 0, sockfd := fd, method := m, served := .none } j).served = .none
        by_cases hj : j = i
        · rw [hj, Function.update_self]
        · rw [Function.update_of_ne hj]
          exact h.served j
      · have hremain := h.remain
        rw [hd] at hremain
        exact hremain
  | epollAdd cev =>
      have hremain := h.remain
      rw [hd] at hremain
      rw [hd, commandStep] at hstep
      split_ifs at hstep
      · obtain rfl := Option.some.inj hstep
        exact h.next rfl h.worker h.served
          ⟨fun _ => ⟨rfl, hspace⟩, fun hne => absurd hmain hne⟩ rfl h.main hremain
      · obtain rfl := Option.some.inj hstep
        exact h.reads hmain rfl (by rw [hd]; rfl)
  | count cev =>
      have hremain := h.remain
      rw [hd] at hremain
      rw [hd] at hstep
      obtain rfl := Option.some.inj hstep
      refine h.next rfl h.worker h.served ⟨fun _ => ⟨rfl, hspace⟩, fun hne => absurd hmain hne⟩
        rfl h.main ?_
      show s.remainCount + 1 = s.connQueue.count + counted (.assign cev)
      rw [hremain]
      rfl
  | assign cev =>
      rw [hd, commandStep, idleWorker_none hspace] at hstep
      obtain rfl := Option.some.inj hstep
      exact h.reads hmain rfl (by rw [hd]; rfl)
  | connEnqueue cev =>
      have hremain := h.remain
      rw [hd] at hremain
      rw [hd] at hstep
      obtain rfl := Option.some.inj hstep
      refine h.next rfl h.worker h.served ⟨fun _ => ⟨rfl, hspace⟩, fun hne => absurd hmain hne⟩
        rfl h.main ?_
      show s.remainCount = ((s.connQueue.count + 1 : Nat) : Int) + counted .input
      rw [hremain]
      simp [counted]
  | connSignal _ =>
      rw [hd] at hreading
      cases hreading
  | _ =>
      rw [hd] at hstep
      cases hstep

theorem dispatcherStep_asleep {b : Bool} (h : Asleep s)
    (hstep : step s (.dispatcher b) = some t) : Asleep t := by
  by_cases hmain : s.main = .input
  · have hreading := (h.patching.before hmain).1
    rw [step] at hstep
    cases hcommand : commandStep b s s.dispatcher with
    | some u =>
        rw [hcommand] at hstep
        exact commandStep_asleep h hmain (Option.some.inj hstep ▸ hcommand)
    | none =>
        rw [hcommand] at hstep
        -- what is not a step of a command is not one of reading
        cases hd : s.dispatcher with
        | quitSignal | next | scan _ _ | queueScan _ | idleCheck _ | store _ _ | setBusy _
        | signal _ | enqueue _ =>
            rw [hd] at hreading
            cases hreading
        | _ =>
            rw [hd] at hstep
            cases hstep
  · rcases h.patching.after hmain with hd | hd | ⟨hd, hevents⟩
    · rw [step, hd] at hstep
      cases hstep
    · rw [step, hd] at hstep
      cases hstep
    · have hremain := h.remain
      rw [hd] at hremain
      rw [step, hd] at hstep
      have hnext : patcherStep s .next = some (s.goto .wait) := by
        rw [patcherStep, hevents]
      rw [show commandStep b s .next = none from rfl] at hstep
      obtain rfl := Option.some.inj (hnext.symm.trans hstep)
      exact h.next rfl h.worker h.served
        ⟨fun hin => absurd hin hmain, fun _ => Or.inr (Or.inl rfl)⟩ rfl h.main hremain

/-- A worker that was never given anything tests its bit and waits. -/
theorem workerStep_asleep {w : Nat} {ok : Bool} (h : Asleep s)
    (hstep : workerStep s w ok = some t) : Asleep t := by
  obtain ⟨hidle, hunused⟩ := h.worker w
  rw [workerStep] at hstep
  cases hpc : (s.workers w).pc with
  | unborn | waiting =>
      rw [hpc] at hstep
      cases hstep
  | start =>
      rw [hpc] at hstep
      obtain rfl := Option.some.inj hstep
      exact h.workerStep hidle rfl
  | test =>
      rw [hpc, hidle] at hstep
      obtain rfl := Option.some.inj hstep
      exact h.workerStep (x := { s.workers w with pc := .toWait }) hidle rfl
  | toWait =>
      rw [hpc] at hstep
      obtain rfl := Option.some.inj hstep
      exact h.workerStep (x := { s.workers w with pc := .waiting }) hidle rfl
  | _ =>
      rw [hpc] at hunused
      cases hunused

/-- **A STEP WAKES NOBODY**. -/
theorem step_asleep {a : Act} (h : Asleep s) (hok : unreadable s a = true)
    (hstep : step s a = some t) : Asleep t := by
  cases a with
  | main => exact mainStep_asleep h hstep
  | dispatcher b => exact dispatcherStep_asleep h hstep
  | quit => cases hok
  | worker w ok =>
      rw [step] at hstep
      split_ifs at hstep
      exact workerStep_asleep h hstep
  | command m fd =>
      rw [step] at hstep
      split_ifs at hstep with hcond
      obtain rfl := Option.some.inj hstep
      have hmain : s.main = .input := by
        by_contra hne
        rcases h.patching.after hne with hd | hd | ⟨hd, -⟩ <;>
        · rw [hd] at hcond
          simp at hcond
      have hcounted : counted s.dispatcher = 0 := by
        rcases hcond.1 with hd | hd <;> rw [hd] <;> rfl
      refine h.next rfl h.worker h.served
        ⟨fun _ => ⟨rfl, (h.patching.before hmain).2⟩, fun hne => absurd hmain hne⟩ rfl h.main ?_
      have hremain := h.remain
      rw [hcounted] at hremain
      exact hremain
  | endInput =>
      rw [step] at hstep
      split_ifs at hstep with hat
      obtain rfl := Option.some.inj hstep
      have hmain : s.main = .input := by
        by_contra hne
        rcases h.patching.after hne with hd | hd | ⟨hd, -⟩ <;>
        · rw [hd] at hat
          simp at hat
      have hcounted : counted s.dispatcher = 0 := by
        rcases hat with hd | hd <;> rw [hd] <;> rfl
      rw [endLine, if_pos hmain]
      refine h.next rfl h.worker h.served ⟨by rintro ⟨⟩, fun _ => Or.inl rfl⟩ rfl (by rintro ⟨⟩) ?_
      have hremain := h.remain
      rw [hcounted] at hremain
      exact hremain
  | fetch fds =>
      rw [step] at hstep
      split_ifs at hstep with hcond
      obtain rfl := Option.some.inj hstep
      have hmain : s.main ≠ .input := by
        intro hin
        have hreading := (h.patching.before hin).1
        rw [hcond.1] at hreading
        cases hreading
      refine h.next rfl h.worker h.served
        ⟨fun hin => absurd hin hmain, fun _ => Or.inr (Or.inr ⟨rfl, List.isEmpty_iff.mp hok⟩)⟩ rfl
        h.main ?_
      have hremain := h.remain
      rw [hcond.1] at hremain
      exact hremain

end Steps

/-! ## Runs -/

/-- No handler was ever called, no worker has work, the main thread has not gone on, and
    the accepted commands are all in the queue but for one that is on its way there. -/
structure Untouched (s : State) : Prop where
  served : ∀ i, (s.slots i).served = .none
  workers : ∀ w, (s.workers w).busy = false ∧ unused (s.workers w).pc = true
  main : s.main ≠ .past
  queued : s.remainCount = s.connQueue.count + counted s.dispatcher

/-- **COMMANDS FROM A FILE WAIT FOR AN EVENT**, in whatever order the threads run. -/
theorem batch_untouched {as : List Act} {s : State}
    (hrun : (program.guarded unreadable).run (State.start true) as = some s) : Untouched s := by
  have h : Asleep s := by
    refine Machine.invariant (fun s a t h hstep => ?_) asleep_start hrun
    obtain ⟨hok, hstep'⟩ := Machine.guarded_step.mp hstep
    exact step_asleep h hok hstep'
  exact ⟨h.served, h.worker, h.main, h.remain⟩

/-- Two commands in a file; all the threads are there and wait. -/
def twoQueued : List Act :=
  [.command .get 3] ++ dispatches 8 ++ [.command .put 4] ++ dispatches 9 ++ [.endInput] ++
    boot ++ [.main]

theorem batch_untouched_twoQueued :
    ∃ s, (program.guarded unreadable).run (State.start true) twoQueued = some s ∧
      (s.connQueue.count = 2 ∧ s.main = .waiting) ∧ Untouched s := by
  obtain ⟨s, hs, hat⟩ := (Option.any_eq_true (fun s : State => decide
    (s.connQueue.count = 2 ∧ s.main = .waiting)) _).mp
    (show ((program.guarded unreadable).run (State.start true) twoQueued).any _ = true by
      decide +kernel)
  exact ⟨s, hs, of_decide_eq_true hat, batch_untouched hs⟩

end Batch
