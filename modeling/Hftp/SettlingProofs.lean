import Hftp.BusyFlagsProofs
import Hftp.TerminationProofs

/-! # The program comes to rest

    What comes from outside is a command, the end of the input and what `epoll_wait`
    reports.  Between two of these the dispatcher, the workers and the main thread
    go on by themselves.

    Every step they take lowers a number that is read off the state: what each
    thread has left to do where it stands, what the events not yet looked at will
    ask for, and what the two queues hold.  The weights are such that work which one
    thread hands to another costs more before the hand-over than after it.  So
    nobody goes round for ever, in whatever order the threads run, and where nothing
    can be done every thread waits for something from outside. -/

namespace Settling

open Threads Transition RingBuffer Termination BusyFlags

/-! ## What is left to do -/

/-- The steps of the threads themselves. -/
def internal : Act → Bool
  | .main | .dispatcher _ | .worker _ _ => true
  | .command _ _ | .quit | .endInput | .fetch _ => false

/-- A worker up to its next wait; it looks at the queues once more if it has work. -/
def workerLeft (x : Worker) : Nat :=
  match x.pc with
  | .unborn | .waiting | .fault => 0
  | .toWait => 1
  | .test => if x.busy then 14 else 2
  | .clear => 3
  | .dequeueEpoll => 4
  | .dequeueConn => 5
  | .release => 6
  | .signal => 9
  | .raise => 10
  | .account => 11
  | .exec _ => 12
  | .load => 13
  | .start => 15

/-- The dispatcher up to the next line or `epoll_wait`, with what the worker it wakes
    or the entry it leaves will take. -/
def dispatcherLeft : DispatcherPc → Nat
  | .unborn | .line | .input | .wait | .fault => 0
  | .next => 1
  | .quitSignal => 4
  | .connEnqueue _ => 11
  | .enqueue _ => 12
  | .connSignal _ => 15
  | .signal _ => 16
  | .assign _ => 28
  | .count _ | .setBusy _ => 29
  | .epollAdd _ | .store _ _ => 30
  | .install _ _ _ | .idleCheck _ => 31
  | .queueScan _ => 32
  | .scan _ th => 33 + (defaultWorkerCount - th)
  | .slotQueue _ _ i => 12 * (epollInstanceMaxSockfd - 1 - i) + 32
  | .slotWorkers _ _ i j =>
      12 * (epollInstanceMaxSockfd - 1 - i) + 33 + (defaultWorkerCount - j)
  | .slot _ _ i => 12 * (epollInstanceMaxSockfd - i) + 30

/-- The main thread, with the workers it has still to create. -/
def mainLeft : MainPc → Nat
  | .waiting | .past => 0
  | .toWait => 1
  | .test => 2
  | .spawn i => 16 * (defaultWorkerCount - i) + 3
  | .workspaceInit => 132
  | .createPatcher => 133
  | .input => 134

def workersLeft (ws : Nat → Worker) : Nat :=
  ∑ w ∈ Finset.range defaultWorkerCount, workerLeft (ws w)

/-- All that is left to do without anything from outside. -/
def potential (s : State) : Nat :=
  workersLeft s.workers + dispatcherLeft s.dispatcher + mainLeft s.main + 41 * s.events.length
    + 10 * s.connQueue.count + 10 * s.epollQueue.count

/-! ## One worker among the others -/

section Workers

variable {s t : State} {w : Nat} {x : Worker}

/-- What a worker no longer has to do is gone from the sum. -/
theorem setWorker_left (hw : w < defaultWorkerCount) :
    workersLeft (s.setWorker w x).workers + workerLeft (s.workers w)
      = workersLeft s.workers + workerLeft x :=
  sum_update hw

/-- A worker that has at most `k` more to do adds at most that to the sum. -/
theorem setWorker_le {k : Nat} (h : workerLeft x ≤ workerLeft (s.workers w) + k) :
    workersLeft (s.setWorker w x).workers ≤ workersLeft s.workers + k :=
  sum_update_le h

/-- A worker that is told to be busy has a round to make. -/
theorem busy_left (h : x.pc = (s.workers w).pc) :
    workerLeft x ≤ workerLeft (s.workers w) + 12 := by
  rw [workerLeft, workerLeft, h]
  cases (s.workers w).pc with
  | test =>
      dsimp only
      split_ifs <;> simp
  | _ => simp

/-- So has one that is woken. -/
theorem wake_left (s : State) (w : Nat) :
    workersLeft (s.wake w).workers ≤ workersLeft s.workers + 14 := by
  rcases wake_eq s w with ⟨-, hsame⟩ | ⟨hpc, hwoken⟩
  · rw [hsame]
    exact Nat.le_add_right _ _
  · rw [hwoken]
    refine setWorker_le ?_
    simp only [workerLeft, hpc]
    split_ifs <;> simp

/-- Waking a worker does nothing else. -/
theorem wake_rest (s : State) (w : Nat) :
    (s.wake w).main = s.main ∧ (s.wake w).events = s.events ∧
      (s.wake w).connQueue = s.connQueue ∧ (s.wake w).epollQueue = s.epollQueue := by
  rcases wake_eq s w with ⟨-, hsame⟩ | ⟨-, hwoken⟩
  · rw [hsame]
    exact ⟨rfl, rfl, rfl, rfl⟩
  · rw [hwoken]
    exact ⟨rfl, rfl, rfl, rfl⟩

/-- The main thread looks at the flag again when it is woken. -/
theorem wakeMain_left (s : State) :
    mainLeft s.wakeMain.main ≤ mainLeft s.main + 2 ∧ s.wakeMain.events = s.events := by
  rw [State.wakeMain]
  split_ifs with hmain
  · rw [hmain]
    exact ⟨Nat.le_refl _, rfl⟩
  · exact ⟨Nat.le_add_right _ _, rfl⟩

end Workers

/-! ## Every step -/

section Steps

variable {s t : State}

/-- The dispatcher goes on, and the rest stays. -/
theorem goto_falls {pc : DispatcherPc} (h : dispatcherLeft pc < dispatcherLeft s.dispatcher) :
    potential (s.goto pc) < potential s := by
  simp only [potential, State.goto]
  omega

/-- A step of a command takes from the potential. -/
theorem commandStep_falls {b : Bool} (hspace : s.workspaceCount ≤ defaultWorkerCount)
    (hstep : commandStep b s s.dispatcher = some t) : potential t < potential s := by
  cases hd : s.dispatcher with
  | slot m fd i =>
      rw [hd, commandStep] at hstep
      -- a slot that is passed over takes as many steps as there are workers, and a few more
      split_ifs at hstep with hi hfree
      · obtain rfl := Option.some.inj hstep
        refine goto_falls ?_
        simp only [hd, dispatcherLeft, epollInstanceMaxSockfd] at hi ⊢
        omega
      · obtain rfl := Option.some.inj hstep
        refine goto_falls ?_
        simp only [hd, dispatcherLeft, epollInstanceMaxSockfd, defaultWorkerCount] at hi ⊢
        omega
      · obtain rfl := Option.some.inj hstep
        refine goto_falls ?_
        simp only [hd, dispatcherLeft]
        omega
  | slotWorkers m fd i j =>
      rw [hd, commandStep] at hstep
      split_ifs at hstep with hj hname
      · obtain rfl := Option.some.inj hstep
        refine goto_falls ?_
        simp only [hd, dispatcherLeft, epollInstanceMaxSockfd]
        omega
      · obtain rfl := Option.some.inj hstep
        refine goto_falls ?_
        have hlt : j < defaultWorkerCount := Nat.lt_of_lt_of_le hj hspace
        simp only [hd, dispatcherLeft]
        omega
      · obtain rfl := Option.some.inj hstep
        refine goto_falls ?_
        simp only [hd, dispatcherLeft]
        omega
  | slotQueue m fd i =>
      rw [hd, commandStep] at hstep
      split_ifs at hstep
      · obtain rfl := Option.some.inj hstep
        refine goto_falls ?_
        simp only [hd, dispatcherLeft, epollInstanceMaxSockfd]
        omega
      · obtain rfl := Option.some.inj hstep
        refine goto_falls ?_
        simp only [hd, dispatcherLeft]
        omega
  | install m fd i =>
      rw [hd] at hstep
      obtain rfl := Option.some.inj hstep
      refine goto_falls (s := installSlot s m fd i) ?_
      show _ < dispatcherLeft s.dispatcher
      rw [hd]
      simp [dispatcherLeft]
  | epollAdd cev =>
      rw [hd, commandStep] at hstep
      split_ifs at hstep
      · obtain rfl := Option.some.inj hstep
        refine goto_falls (s := { s with registered := cev.sockfd :: s.registered }) ?_
        simp [hd, dispatcherLeft]
      · obtain rfl := Option.some.inj hstep
        refine goto_falls ?_
        simp [hd, dispatcherLeft]
  | count cev =>
      rw [hd] at hstep
      obtain rfl := Option.some.inj hstep
      refine goto_falls (s := { s with remainCount := s.remainCount + 1 }) ?_
      simp [hd, dispatcherLeft]
  | assign cev =>
      rw [hd, commandStep] at hstep
      cases hidle : s.idleWorker with
      | some w =>
          rw [hidle] at hstep
          obtain rfl := Option.some.inj hstep
          have hle : workersLeft (assignRequest s cev w).workers ≤ workersLeft s.workers + 12 :=
            setWorker_le (busy_left rfl)
          simp only [potential, State.goto, assignRequest, State.setWorker, State.setSlot, hd,
            dispatcherLeft] at hle ⊢
          omega
      | none =>
          rw [hidle] at hstep
          obtain rfl := Option.some.inj hstep
          refine goto_falls ?_
          simp [hd, dispatcherLeft]
  | connSignal w =>
      rw [hd] at hstep
      obtain rfl := Option.some.inj hstep
      have hle := wake_left s w
      obtain ⟨hmain, hevents, hconn, hepoll⟩ := wake_rest s w
      simp only [potential, State.goto, hmain, hevents, hconn, hepoll, hd, dispatcherLeft]
      omega
  | connEnqueue cev =>
      rw [hd] at hstep
      obtain rfl := Option.some.inj hstep
      simp only [potential, State.goto, RingBuf.enqueue, hd, dispatcherLeft]
      omega
  | _ =>
      rw [hd] at hstep
      cases hstep

/-- After the last command of the lines there are, the main thread has the rest of its
    work before it; else the patcher takes the next event. -/
theorem endLine_left (s : State) :
    potential (endLine s) + dispatcherLeft s.dispatcher ≤ potential s + 1 := by
  rw [endLine]
  split_ifs with hmain
  · simp only [potential, State.goto, hmain, mainLeft, dispatcherLeft]
    omega
  · simp only [potential, State.goto, dispatcherLeft]
    omega

/-- So does a step for an event. -/
theorem patcherStep_falls (hstep : patcherStep s s.dispatcher = some t) :
    potential t < potential s := by
  cases hd : s.dispatcher with
  | quitSignal =>
      rw [hd] at hstep
      obtain rfl := Option.some.inj hstep
      obtain ⟨hmain, hevents⟩ := wakeMain_left s
      obtain ⟨hworkers, hconn, hepoll, -, hdisp⟩ := wakeMain_frame s
      -- waking the main thread costs at most two, which ending the line pays for
      have hwoken : potential s.wakeMain ≤ potential s + 2 := by
        simp only [potential, hworkers, hconn, hepoll, hdisp, hevents]
        omega
      have hend := endLine_left s.wakeMain
      rw [hdisp, hd, dispatcherLeft] at hend
      omega
  | next =>
      rw [hd, patcherStep] at hstep
      -- an empty batch ends the round, an event is one entry less of it
      cases hevents : s.events with
      | nil =>
          rw [hevents] at hstep
          obtain rfl := Option.some.inj hstep
          refine goto_falls ?_
          simp [hd, dispatcherLeft]
      | cons fd rest =>
          rw [hevents] at hstep
          dsimp only at hstep
          split_ifs at hstep
          · obtain rfl := Option.some.inj hstep
            simp only [potential, State.goto, hd, hevents, dispatcherLeft, List.length_cons]
            omega
          · obtain rfl := Option.some.inj hstep
            simp only [potential, State.goto, hd, hevents, dispatcherLeft, List.length_cons,
              defaultWorkerCount]
            omega
  | scan fd th =>
      rw [hd, patcherStep] at hstep
      split_ifs at hstep with hspace hth hconn
      · obtain rfl := Option.some.inj hstep
        refine goto_falls ?_
        simp only [hd, dispatcherLeft]
        omega
      · obtain rfl := Option.some.inj hstep
        refine goto_falls ?_
        simp only [hd, dispatcherLeft]
        omega
      · obtain rfl := Option.some.inj hstep
        refine goto_falls ?_
        simp only [hd, dispatcherLeft]
        omega
      · obtain rfl := Option.some.inj hstep
        refine goto_falls ?_
        simp only [hd, dispatcherLeft]
        omega
  | queueScan fd =>
      rw [hd, patcherStep] at hstep
      split_ifs at hstep <;>
      · obtain rfl := Option.some.inj hstep
        refine goto_falls ?_
        simp [hd, dispatcherLeft]
  | idleCheck fd =>
      rw [hd, patcherStep] at hstep
      cases hidle : s.idleWorker with
      | some _ | none =>
          rw [hidle] at hstep
          obtain rfl := Option.some.inj hstep
          refine goto_falls ?_
          simp [hd, dispatcherLeft]
  | store fd w =>
      rw [hd] at hstep
      obtain rfl := Option.some.inj hstep
      have hle : workersLeft (s.setWorker w { s.workers w with
          process := some .httpResponse,
          connIndex := (s.lookup fd).or (s.workers w).connIndex }).workers
            ≤ workersLeft s.workers + 0 := setWorker_le (Nat.le_refl _)
      simp only [potential, State.goto, State.setWorker, hd, dispatcherLeft] at hle ⊢
      omega
  | setBusy w =>
      rw [hd] at hstep
      obtain rfl := Option.some.inj hstep
      -- the worker made busy has twelve steps more, which the dispatcher's place gives up
      have hle : workersLeft (s.setWorker w { s.workers w with busy := true }).workers
          ≤ workersLeft s.workers + 12 := setWorker_le (busy_left rfl)
      simp only [potential, State.goto, State.setWorker, hd, dispatcherLeft] at hle ⊢
      omega
  | signal w =>
      rw [hd] at hstep
      obtain rfl := Option.some.inj hstep
      have hle := wake_left s w
      obtain ⟨hmain, hevents, hconn, hepoll⟩ := wake_rest s w
      simp only [potential, State.goto, hmain, hevents, hconn, hepoll, hd, dispatcherLeft]
      omega
  | enqueue fd =>
      rw [hd] at hstep
      obtain rfl := Option.some.inj hstep
      simp only [potential, State.goto, RingBuf.enqueue, hd, dispatcherLeft]
      omega
  | _ =>
      rw [hd] at hstep
      cases hstep

/-- So does a step of the main thread. -/
theorem mainStep_falls (hspace : s.workspaceCount ≤ defaultWorkerCount)
    (hstep : mainStep s = some t) : potential t < potential s := by
  rw [mainStep] at hstep
  cases hmain : s.main with
  | createPatcher | workspaceInit =>
      rw [hmain] at hstep
      obtain rfl := Option.some.inj hstep
      simp only [potential, hmain, mainLeft, dispatcherLeft, defaultWorkerCount]
      omega
  | spawn i =>
      rw [hmain] at hstep
      dsimp only at hstep
      split_ifs at hstep with hi
      · obtain rfl := Option.some.inj hstep
        have hlt : i < defaultWorkerCount := Nat.lt_of_lt_of_le hi hspace
        have hle : workersLeft (s.workerGoto i .start).workers ≤ workersLeft s.workers + 15 :=
          setWorker_le (by simp [workerLeft])
        simp only [potential, State.workerGoto, State.setWorker, hmain, mainLeft] at hle ⊢
        omega
      · obtain rfl := Option.some.inj hstep
        simp only [potential, hmain, mainLeft]
        omega
  | test =>
      rw [hmain] at hstep
      obtain rfl := Option.some.inj hstep
      simp only [potential, hmain]
      split_ifs <;> simp [mainLeft]
  | toWait =>
      rw [hmain] at hstep
      obtain rfl := Option.some.inj hstep
      simp [potential, hmain, mainLeft]
  | _ =>
      rw [hmain] at hstep
      cases hstep

/-- A worker goes on by itself; what it takes out of a queue pays for its next round. -/
theorem worker_falls {w : Nat} {x : Worker} (hw : w < defaultWorkerCount)
    (hworkers : t.workers = Function.update s.workers w x) (hdisp : t.dispatcher = s.dispatcher)
    (hevents : t.events = s.events)
    (hless : workerLeft x + mainLeft t.main + 10 * t.connQueue.count + 10 * t.epollQueue.count
      < workerLeft (s.workers w) + mainLeft s.main + 10 * s.connQueue.count
        + 10 * s.epollQueue.count) :
    potential t < potential s := by
  have hsum := setWorker_left (s := s) (x := x) hw
  simp only [potential, State.setWorker, hworkers, hdisp, hevents] at hsum ⊢
  omega

/-- A handler brings no event. -/
theorem handlerReturn_events (s : State) (d : Handler) (i : Nat) (ok : Bool) :
    (handlerReturn s d i ok).events = s.events := by
  cases d <;> cases ok <;> rfl

/-- So does a step of a worker. -/
theorem workerStep_falls {w : Nat} {ok : Bool} (hw : w < defaultWorkerCount)
    (hstep : workerStep s w ok = some t) : potential t < potential s := by
  rw [workerStep] at hstep
  cases hpc : (s.workers w).pc with
  | unborn | waiting | fault =>
      rw [hpc] at hstep
      cases hstep
  | start =>
      rw [hpc] at hstep
      obtain rfl := Option.some.inj hstep
      refine worker_falls hw rfl rfl rfl ?_
      simp only [State.setWorker, workerLeft, hpc]
      split_ifs <;> omega
  | test =>
      rw [hpc] at hstep
      dsimp only at hstep
      split_ifs at hstep with hbusy <;>
      · obtain rfl := Option.some.inj hstep
        refine worker_falls hw rfl rfl rfl ?_
        simp [State.workerGoto, State.setWorker, workerLeft, hpc, hbusy]
  | toWait | release | clear | raise =>
      rw [hpc] at hstep
      obtain rfl := Option.some.inj hstep
      refine worker_falls hw rfl rfl rfl ?_
      simp [State.workerGoto, State.setWorker, workerLeft, hpc]
  | load =>
      rw [hpc] at hstep
      dsimp only at hstep
      cases hdue : (s.workers w).due with
      | none =>
          rw [hdue] at hstep
          obtain rfl := Option.some.inj hstep
          refine worker_falls hw rfl rfl rfl ?_
          simp [State.setWorker, workerLeft, hpc]
      | some d =>
          rw [hdue] at hstep
          cases hconn : s.dueConn (s.workers w) with
          | none =>
              rw [hconn] at hstep
              obtain rfl := Option.some.inj hstep
              refine worker_falls hw rfl rfl rfl ?_
              simp [State.workerGoto, State.setWorker, workerLeft, hpc]
          | some i =>
              rw [hconn] at hstep
              dsimp only at hstep
              split_ifs at hstep <;>
              · obtain rfl := Option.some.inj hstep
                refine worker_falls hw rfl rfl rfl ?_
                simp [State.workerGoto, State.setWorker, State.setSlot, workerLeft, hpc]
  | exec d =>
      rw [hpc] at hstep
      dsimp only at hstep
      cases hconn : (s.workers w).connIndex with
      | none =>
          rw [hconn] at hstep
          obtain rfl := Option.some.inj hstep
          refine worker_falls hw rfl rfl rfl ?_
          simp [State.workerGoto, State.setWorker, workerLeft, hpc]
      | some i =>
          rw [hconn] at hstep
          obtain rfl := Option.some.inj hstep
          -- whatever a handler returns, the queues are as they were
          obtain ⟨-, hworkers, -, hmain, -, hdisp, hconns, hepolls⟩ := handlerReturn_frame s d i ok
          refine worker_falls (x := { s.workers w with pc := .account }) hw ?_ hdisp
            (handlerReturn_events s d i ok) ?_
          · rw [← hworkers]
            rfl
          · simp only [State.workerGoto, State.setWorker, hmain, hconns, hepolls, workerLeft, hpc]
            omega
  | account =>
      rw [hpc] at hstep
      dsimp only at hstep
      split_ifs at hstep
      · cases hconn : (s.workers w).connIndex with
        | none =>
            rw [hconn] at hstep
            obtain rfl := Option.some.inj hstep
            refine worker_falls hw rfl rfl rfl ?_
            simp [State.workerGoto, State.setWorker, workerLeft, hpc]
        | some i =>
            rw [hconn] at hstep
            dsimp only at hstep
            split_ifs at hstep <;>
            · obtain rfl := Option.some.inj hstep
              refine worker_falls hw rfl rfl rfl ?_
              simp [State.workerGoto, State.setWorker, workerLeft, hpc]
      · obtain rfl := Option.some.inj hstep
        refine worker_falls hw rfl rfl rfl ?_
        simp [State.workerGoto, State.setWorker, workerLeft, hpc]
  | signal =>
      rw [hpc] at hstep
      obtain rfl := Option.some.inj hstep
      obtain ⟨hworkers, hconns, hepolls, -, hdisp⟩ := wakeMain_frame s
      obtain ⟨hmain, hevents⟩ := wakeMain_left s
      refine worker_falls (x := { s.workers w with pc := .release }) hw ?_ hdisp hevents ?_
      · rw [← hworkers]
        rfl
      · simp only [State.workerGoto, State.setWorker, hconns, hepolls, workerLeft, hpc]
        omega
  | dequeueConn =>
      rw [hpc] at hstep
      dsimp only at hstep
      split_ifs at hstep with hcount
      · obtain rfl := Option.some.inj hstep
        -- the entry taken is one less in the queue, and pays for the call to come
        rw [takeConn]
        dsimp only
        split_ifs <;>
        · refine worker_falls hw rfl rfl rfl ?_
          simp only [State.workerGoto, State.setWorker, State.setSlot, RingBuf.dequeue, workerLeft,
            hpc]
          omega
      · obtain rfl := Option.some.inj hstep
        refine worker_falls hw rfl rfl rfl ?_
        simp [State.workerGoto, State.setWorker, workerLeft, hpc]
  | dequeueEpoll =>
      rw [hpc] at hstep
      dsimp only at hstep
      split_ifs at hstep with hcount
      · obtain rfl := Option.some.inj hstep
        unfold takeEpoll
        dsimp only
        cases s.lookup (s.epollQueue.head epollEventQueueMax) with
        | some i =>
            refine worker_falls hw rfl rfl rfl ?_
            simp only [State.setWorker, State.setSlot, RingBuf.dequeue, workerLeft, hpc]
            omega
        | none =>
            refine worker_falls hw rfl rfl rfl ?_
            simp only [State.workerGoto, State.setWorker, RingBuf.dequeue, workerLeft, hpc]
            omega
      · obtain rfl := Option.some.inj hstep
        refine worker_falls hw rfl rfl rfl ?_
        simp [State.workerGoto, State.setWorker, workerLeft, hpc]

/-- **EVERY STEP LEAVES LESS TO DO**. -/
theorem step_falls {a : Act} (h : Bounded s) (hown : internal a = true)
    (hstep : step s a = some t) : potential t < potential s := by
  cases a with
  | main => exact mainStep_falls h.space hstep
  | dispatcher b =>
      rw [step] at hstep
      cases hcommand : commandStep b s s.dispatcher with
      | some u =>
          rw [hcommand] at hstep
          exact commandStep_falls h.space (Option.some.inj hstep ▸ hcommand)
      | none =>
          rw [hcommand] at hstep
          exact patcherStep_falls hstep
  | worker w ok =>
      rw [step] at hstep
      split_ifs at hstep with hw
      exact workerStep_falls (Nat.lt_of_lt_of_le hw h.space) hstep
  | command _ _ | quit | endInput | fetch _ => cases hown

/-- Every step from the inside takes from the potential. -/
theorem program_falls : Falls program internal Bounded potential where
  keeps _ _ _ h _ hstep := step_bounded h hstep
  falls _ _ _ h hown hstep := step_falls h hown hstep

end Steps

/-! ## Rest -/

/-- The threads that can do nothing until something comes from outside: the dispatcher
    reads a line, or waits for events, or has crashed; the main thread reads lines,
    waits, or is past its wait; the workers there are wait or have crashed. -/
structure AtRest (s : State) : Prop where
  main : s.main = .input ∨ s.main = .waiting ∨ s.main = .past
  dispatcher : s.dispatcher = .unborn ∨ s.dispatcher = .line ∨ s.dispatcher = .input ∨
    s.dispatcher = .wait ∨ s.dispatcher = .fault
  workers : ∀ w < s.workspaceCount,
    (s.workers w).pc = .unborn ∨ (s.workers w).pc = .waiting ∨ (s.workers w).pc = .fault

section Rest

variable {s : State}

/-- A dispatcher that cannot move has nothing left to do. -/
theorem commandStep_moves {d : DispatcherPc} (b : Bool) (h : commandStep b s d = none) :
    patcherStep s d = none → dispatcherLeft d = 0 := by
  intro hpatcher
  cases d with
  | unborn | line | input | wait | fault => rfl
  | slot _ _ _ | slotWorkers _ _ _ _ | slotQueue _ _ _ | epollAdd _ =>
      rw [commandStep] at h
      split_ifs at h
  | install _ _ _ | count _ | connSignal _ | connEnqueue _ => cases h
  | assign cev =>
      rw [commandStep] at h
      cases hidle : s.idleWorker with
      | some _ | none =>
          rw [hidle] at h
          cases h
  | quitSignal | store _ _ | setBusy _ | signal _ | enqueue _ => cases hpatcher
  | next =>
      rw [patcherStep] at hpatcher
      cases hevents : s.events with
      | nil =>
          rw [hevents] at hpatcher
          cases hpatcher
      | cons fd rest =>
          rw [hevents] at hpatcher
          dsimp only at hpatcher
          split_ifs at hpatcher
  | scan _ _ | queueScan _ =>
      rw [patcherStep] at hpatcher
      split_ifs at hpatcher
  | idleCheck fd =>
      rw [patcherStep] at hpatcher
      cases hidle : s.idleWorker with
      | some _ | none =>
          rw [hidle] at hpatcher
          cases hpatcher

/-- A worker that cannot move is not there yet, waits, or has crashed. -/
theorem workerStep_moves {w : Nat} (h : workerStep s w true = none) :
    (s.workers w).pc = .unborn ∨ (s.workers w).pc = .waiting ∨ (s.workers w).pc = .fault := by
  rw [workerStep] at h
  cases hpc : (s.workers w).pc with
  | unborn | waiting | fault => simp
  | start | test | toWait | raise | signal | release | clear =>
      rw [hpc] at h
      cases h
  | dequeueConn | dequeueEpoll =>
      rw [hpc] at h
      dsimp only at h
      split_ifs at h
  | load =>
      rw [hpc] at h
      dsimp only at h
      cases hdue : (s.workers w).due with
      | none =>
          rw [hdue] at h
          cases h
      | some d =>
          rw [hdue] at h
          cases hconn : s.dueConn (s.workers w) with
          | none =>
              rw [hconn] at h
              cases h
          | some i =>
              rw [hconn] at h
              dsimp only at h
              split_ifs at h
  | exec d =>
      rw [hpc] at h
      dsimp only at h
      cases hconn : (s.workers w).connIndex with
      | some _ | none =>
          rw [hconn] at h
          cases h
  | account =>
      rw [hpc] at h
      dsimp only at h
      split_ifs at h
      cases hconn : (s.workers w).connIndex with
      | none =>
          rw [hconn] at h
          cases h
      | some i =>
          rw [hconn] at h
          dsimp only at h
          split_ifs at h

/-- The main thread stops only for the input, or at the end. -/
theorem mainStep_moves (h : mainStep s = none) :
    s.main = .input ∨ s.main = .waiting ∨ s.main = .past := by
  rw [mainStep] at h
  cases hmain : s.main with
  | input | waiting | past => simp
  | spawn i =>
      rw [hmain] at h
      dsimp only at h
      split_ifs at h
  | _ =>
      rw [hmain] at h
      cases h

/-- **NOTHING CAN BE DONE** exactly where every thread waits for something. -/
theorem still_iff : Still program internal s ↔ AtRest s := by
  constructor
  · intro h
    refine ⟨mainStep_moves (h .main rfl), ?_, fun w hw => ?_⟩
    · have hstep : step s (.dispatcher true) = none := h (.dispatcher true) rfl
      rw [step] at hstep
      cases hcommand : commandStep true s s.dispatcher with
      | some u =>
          rw [hcommand] at hstep
          cases hstep
      | none =>
          rw [hcommand] at hstep
          have hleft := commandStep_moves true hcommand hstep
          cases hd : s.dispatcher with
          | unborn | line | input | wait | fault => simp
          | _ =>
              rw [hd] at hleft
              simp [dispatcherLeft] at hleft
    · have hstep : step s (.worker w true) = none := h (.worker w true) rfl
      rw [step, if_pos hw] at hstep
      exact workerStep_moves hstep
  · intro h a hown
    cases a with
    | main =>
        show mainStep s = none
        rw [mainStep]
        rcases h.main with hm | hm | hm <;> rw [hm]
    | dispatcher b =>
        show step s (.dispatcher b) = none
        rw [step]
        rcases h.dispatcher with hd | hd | hd | hd | hd <;> rw [hd] <;> rfl
    | worker w ok =>
        show step s (.worker w ok) = none
        rw [step]
        split_ifs with hw
        · rw [workerStep]
          rcases h.workers w hw with hpc | hpc | hpc <;> rw [hpc]
        · rfl
    | command _ _ | quit | endInput | fetch _ => cases hown

end Rest

/-! ## Every run -/

/-- The workers have no more than this to do. -/
theorem workersLeft_le (ws : Nat → Worker) : workersLeft ws ≤ 120 := by
  have hone : ∀ w ∈ Finset.range defaultWorkerCount, workerLeft (ws w) ≤ 15 := by
    intro w _
    rw [workerLeft]
    cases (ws w).pc with
    | test =>
        dsimp only
        split_ifs <;> simp
    | _ => simp
  have hsum := Finset.sum_le_card_nsmul _ _ _ hone
  rw [workersLeft]
  simpa [defaultWorkerCount] using hsum

/-- Nor the dispatcher more than this. -/
theorem dispatcherLeft_le (d : DispatcherPc) : dispatcherLeft d ≤ 6174 := by
  cases d <;> simp only [dispatcherLeft, epollInstanceMaxSockfd, defaultWorkerCount] <;> omega

/-- Nor the main thread. -/
theorem mainLeft_le (m : MainPc) : mainLeft m ≤ 134 := by
  cases m <;> simp only [mainLeft, defaultWorkerCount] <;> omega

/-- What is left to do depends on what was reported and queued only. -/
theorem potential_le (s : State) :
    potential s ≤ 6428 + 41 * s.events.length + 10 * (s.connQueue.count + s.epollQueue.count) := by
  have hworkers := workersLeft_le s.workers
  have hdisp := dispatcherLeft_le s.dispatcher
  have hmain := mainLeft_le s.main
  rw [potential]
  omega

/-- Who is reached is bounded. -/
theorem run_bounded {fixedInput : Bool} {as : List Act} {s : State}
    (hrun : program.run (State.start fixedInput) as = some s) : Bounded s :=
  Machine.invariant (fun (u : State) _ _ (h : Bounded u) hstep => step_bounded h hstep)
    (bounded_start fixedInput) hrun

/-- From here the threads take no more than so many steps by themselves, in whatever
    order, and they can be brought to where each of them waits for something from
    outside. -/
def Settles (s : State) : Prop :=
  (∀ as t, (∀ a ∈ as, internal a = true) → program.run s as = some t →
    as.length ≤ 6428 + 41 * s.events.length + 10 * (s.connQueue.count + s.epollQueue.count)) ∧
  ∃ as t, (∀ a ∈ as, internal a = true) ∧ program.run s as = some t ∧ AtRest t

/-- **THE THREADS COME TO REST** from every state that is reached. -/
theorem program_settles {fixedInput : Bool} {as : List Act} {s : State}
    (hrun : program.run (State.start fixedInput) as = some s) : Settles s := by
  have hbounded := run_bounded hrun
  constructor
  · intro bs t hown hbs
    have hlength := program_falls.bound hbounded hown hbs
    have hle := potential_le s
    omega
  · obtain ⟨bs, t, hown, hbs, hstill⟩ := program_falls.rests hbounded
    exact ⟨bs, t, hown, hbs, still_iff.mp hstill⟩

/-- A slot is looked for while a worker sends the request of the command before. -/
def underWay : List Act :=
  boot ++ [.fetch [0]] ++ dispatches 1 ++ [.command .get 3] ++ dispatches 16 ++ works 0 2 ++
    [.command .put 4] ++ dispatches 5

/-- A worker is in its handler when the program is left to itself. -/
theorem program_settles_underWay :
    ∃ s, program.run (State.start false) underWay = some s ∧
      (s.workers 0).pc = .exec .httpRequest ∧ Settles s := by
  obtain ⟨s, hs, hpc⟩ := (Option.any_eq_true (fun s : State => decide
    ((s.workers 0).pc = .exec .httpRequest)) _).mp
    (show (program.run (State.start false) underWay).any _ = true by decide +kernel)
  exact ⟨s, hs, of_decide_eq_true hpc, program_settles hs⟩

end Settling
