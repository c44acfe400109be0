import Hftp.ThreadsProofs

/-! # First come, first served

    Each of the two event queues is filled by the dispatcher and emptied by eight
    workers, of which none knows what the others take.  As long as there is room, what
    the workers take, whichever of them it is, is what the dispatcher put there, in the
    same order, each entry once, and the rest is still in the queue. -/

namespace ServiceOrder

open RingBuffer Transition Threads

/-! ## What is put, and what is taken -/

/-- The connection that a step puts into the queue. -/
def connPut (s : State) : Act → List ConnEvent
  | .dispatcher _ =>
      match s.dispatcher with
      | .connEnqueue cev => [cev]
      | _ => []
  | _ => []

/-- The connection that a step takes out of the queue. -/
def connTaken (s : State) : Act → List ConnEvent
  | .worker w _ =>
      if (s.workers w).pc = .dequeueConn ∧ s.connQueue.count ≠ 0 then
        [s.connQueue.head connEventQueueMax]
      else []
  | _ => []

/-- The event that a step puts into the queue. -/
def epollPut (s : State) : Act → List Nat
  | .dispatcher _ =>
      match s.dispatcher with
      | .enqueue fd => [fd]
      | _ => []
  | _ => []

/-- The event that a step takes out of the queue. -/
def epollTaken (s : State) : Act → List Nat
  | .worker w _ =>
      if (s.workers w).pc = .dequeueEpoll ∧ s.epollQueue.count ≠ 0 then
        [s.epollQueue.head epollEventQueueMax]
      else []
  | _ => []

/-- A step that puts something into a queue finds room. -/
def findsRoom (s : State) : Act → Bool
  | .dispatcher _ =>
      match s.dispatcher with
      | .connEnqueue _ => decide (s.connQueue.count < connEventQueueMax)
      | .enqueue _ => decide (s.epollQueue.count < epollEventQueueMax)
      | _ => true
  | _ => true

/-! ## A step -/

section Steps

variable {s t : State}

/-- The main thread does not touch the queues. -/
theorem main_queues (h : mainStep s = some t) :
    t.connQueue = s.connQueue ∧ t.epollQueue = s.epollQueue := by
  rw [mainStep] at h
  cases hm : s.main with
  | createPatcher | workspaceInit | test | toWait =>
      rw [hm] at h
      rw [← Option.some.inj h]
      exact ⟨rfl, rfl⟩
  | spawn i =>
      rw [hm] at h
      dsimp only at h
      split_ifs at h <;>
      · rw [← Option.some.inj h]
        exact ⟨rfl, rfl⟩
  | input | waiting | past =>
      rw [hm] at h
      cases h

/-- Nor does what comes from outside. -/
theorem outside_queues {a : Act} (h : step s a = some t) (hmain : a ≠ .main)
    (hdispatcher : ∀ b, a ≠ .dispatcher b) (hworker : ∀ w ok, a ≠ .worker w ok) :
    t.connQueue = s.connQueue ∧ t.epollQueue = s.epollQueue := by
  cases a with
  | main => exact absurd rfl hmain
  | dispatcher b => exact absurd rfl (hdispatcher b)
  | worker w ok => exact absurd rfl (hworker w ok)
  | command m fd =>
      rw [step] at h
      split_ifs at h
      rw [← Option.some.inj h]
      exact ⟨rfl, rfl⟩
  | quit =>
      rw [step] at h
      split_ifs at h
      rw [← Option.some.inj h]
      exact ⟨rfl, rfl⟩
  | endInput =>
      rw [step] at h
      split_ifs at h
      rw [← Option.some.inj h]
      obtain ⟨-, hconn, hepoll, -⟩ := endLine_frame s
      exact ⟨hconn, hepoll⟩
  | fetch fds =>
      rw [step] at h
      split_ifs at h
      rw [← Option.some.inj h]
      exact ⟨rfl, rfl⟩

/-- The dispatcher puts an entry to the end of a queue, or leaves both alone. -/
theorem dispatcher_puts {b : Bool} (h : step s (.dispatcher b) = some t)
    (hroom : findsRoom s (.dispatcher b) = true) :
    s.connEvents ++ connPut s (.dispatcher b) = t.connEvents ∧
      s.epollEvents ++ epollPut s (.dispatcher b) = t.epollEvents := by
  have hother : (∀ cev, s.dispatcher ≠ .connEnqueue cev) → (∀ fd, s.dispatcher ≠ .enqueue fd) →
      t.connQueue = s.connQueue ∧ t.epollQueue = s.epollQueue := by
    intro hconn hepoll
    cases dispatcher_dispatched h with
    | alone h _ => exact ⟨h.connQueue, h.epollQueue⟩
    | assign cev w _ ht =>
        rw [ht]
        exact ⟨rfl, rfl⟩
    | wake w pc _ ht =>
        rw [ht]
        rcases wake_eq s w with ⟨-, hsame⟩ | ⟨-, hwoken⟩
        · rw [hsame]
          exact ⟨rfl, rfl⟩
        · rw [hwoken]
          exact ⟨rfl, rfl⟩
    | connEnqueue cev hat _ => exact absurd hat (hconn cev)
    | wakeMain _ ht =>
        obtain ⟨-, hconnEnd, hepollEnd, -⟩ := endLine_frame s.wakeMain
        obtain ⟨-, hconnWake, hepollWake, -⟩ := wakeMain_frame s
        rw [ht]
        exact ⟨hconnEnd.trans hconnWake, hepollEnd.trans hepollWake⟩
    | store fd w x _ _ ht =>
        rw [ht]
        exact ⟨rfl, rfl⟩
    | setBusy w _ ht =>
        rw [ht]
        exact ⟨rfl, rfl⟩
    | enqueue fd hat _ => exact absurd hat (hepoll fd)
  cases hd : s.dispatcher with
  | connEnqueue cev =>
      rw [findsRoom, hd] at hroom
      rw [step, hd] at h
      rw [← Option.some.inj h, connPut, epollPut, hd]
      exact ⟨(RingBuf.contents_enqueue cev (of_decide_eq_true hroom)).symm, List.append_nil _⟩
  | enqueue fd =>
      rw [findsRoom, hd] at hroom
      rw [step, hd] at h
      rw [← Option.some.inj h, connPut, epollPut, hd]
      exact ⟨List.append_nil _, (RingBuf.contents_enqueue fd (of_decide_eq_true hroom)).symm⟩
  | _ =>
      obtain ⟨hconn, hepoll⟩ := hother (by rw [hd]; rintro cev ⟨⟩) (by rw [hd]; rintro fd ⟨⟩)
      rw [connPut, epollPut, hd, State.connEvents, State.epollEvents, State.connEvents,
        State.epollEvents, hconn, hepoll]
      exact ⟨List.append_nil _, List.append_nil _⟩

theorem takeConn_queues (s : State) (w : Nat) :
    (takeConn s w).connQueue = s.connQueue.dequeue connEventQueueMax ∧
      (takeConn s w).epollQueue = s.epollQueue := by
  rw [takeConn]
  dsimp only
  split_ifs <;> exact ⟨rfl, rfl⟩

theorem takeEpoll_queues (s : State) (w : Nat) :
    (takeEpoll s w).connQueue = s.connQueue ∧
      (takeEpoll s w).epollQueue = s.epollQueue.dequeue epollEventQueueMax := by
  unfold takeEpoll
  dsimp only
  split <;> exact ⟨rfl, rfl⟩

/-- A worker that is not at a queue leaves both alone. -/
theorem worker_elsewhere {w : Nat} {ok : Bool} (h : workerStep s w ok = some t)
    (hconn : (s.workers w).pc ≠ .dequeueConn) (hepoll : (s.workers w).pc ≠ .dequeueEpoll) :
    t.connQueue = s.connQueue ∧ t.epollQueue = s.epollQueue := by
  cases workerStep_worked h with
  | serve x h _ _ => exact ⟨h.connQueue, h.epollQueue⟩
  | tested h _ _ => exact ⟨h.connQueue, h.epollQueue⟩
  | waits h _ => exact ⟨h.connQueue, h.epollQueue⟩
  | raise _ ht =>
      rw [ht]
      exact ⟨rfl, rfl⟩
  | signal _ ht =>
      obtain ⟨-, hconnWake, hepollWake, -⟩ := wakeMain_frame s
      rw [ht]
      exact ⟨hconnWake, hepollWake⟩
  | connsEmpty _ hat _ => exact absurd hat hconn
  | takeConn x _ _ hat _ => exact absurd hat hconn
  | epollsEmpty _ hat _ => exact absurd hat hepoll
  | takeEpoll x _ _ hat _ _ => exact absurd hat hepoll
  | clear _ ht =>
      rw [ht]
      exact ⟨rfl, rfl⟩

/-- A worker takes the first entry of a queue that is not empty. -/
theorem worker_takes {w : Nat} {ok : Bool} (h : workerStep s w ok = some t) :
    s.connEvents = connTaken s (.worker w ok) ++ t.connEvents ∧
      s.epollEvents = epollTaken s (.worker w ok) ++ t.epollEvents := by
  rw [State.connEvents, State.epollEvents, State.connEvents, State.epollEvents, connTaken,
    epollTaken]
  by_cases hconn : (s.workers w).pc = .dequeueConn
  · have hepoll : ¬ ((s.workers w).pc = .dequeueEpoll ∧ s.epollQueue.count ≠ 0) := by
      rw [hconn]
      rintro ⟨⟨⟩, -⟩
    rw [if_neg hepoll]
    rw [workerStep, hconn] at h
    dsimp only at h
    split_ifs at h with hcount
    · obtain ⟨hqueue, hother⟩ := takeConn_queues s w
      rw [← Option.some.inj h, if_pos ⟨hconn, hcount⟩, hqueue, hother]
      exact ⟨RingBuf.contents_dequeue hcount, rfl⟩
    · rw [← Option.some.inj h, if_neg (fun hboth => hcount hboth.2)]
      exact ⟨rfl, rfl⟩
  · rw [if_neg (fun hboth => hconn hboth.1)]
    by_cases hepoll : (s.workers w).pc = .dequeueEpoll
    · rw [workerStep, hepoll] at h
      dsimp only at h
      split_ifs at h with hcount
      · obtain ⟨hother, hqueue⟩ := takeEpoll_queues s w
        rw [← Option.some.inj h, if_pos ⟨hepoll, hcount⟩, hqueue, hother]
        exact ⟨rfl, RingBuf.contents_dequeue hcount⟩
      · rw [← Option.some.inj h, if_neg (fun hboth => hcount hboth.2)]
        exact ⟨rfl, rfl⟩
    · obtain ⟨hsame, hother⟩ := worker_elsewhere h hconn hepoll
      rw [if_neg (fun hboth => hepoll hboth.1), hsame, hother]
      exact ⟨rfl, rfl⟩

/-- **A STEP** puts to the end and takes from the front. -/
theorem step_in_order {a : Act} (h : (program.guarded findsRoom).step s a = some t) :
    s.connEvents ++ connPut s a = connTaken s a ++ t.connEvents ∧
      s.epollEvents ++ epollPut s a = epollTaken s a ++ t.epollEvents := by
  obtain ⟨hroom, hstep⟩ := Machine.guarded_step.mp h
  replace hstep : step s a = some t := hstep
  have hquiet : t.connQueue = s.connQueue ∧ t.epollQueue = s.epollQueue →
      s.connEvents ++ [] = [] ++ t.connEvents ∧ s.epollEvents ++ [] = [] ++ t.epollEvents := by
    rintro ⟨hconn, hepoll⟩
    rw [List.append_nil, List.append_nil, List.nil_append, List.nil_append, State.connEvents,
      State.epollEvents, State.connEvents, State.epollEvents, hconn, hepoll]
    exact ⟨rfl, rfl⟩
  cases a with
  | main => exact hquiet (main_queues hstep)
  | dispatcher b =>
      obtain ⟨hconn, hepoll⟩ := dispatcher_puts hstep hroom
      exact ⟨hconn, hepoll⟩
  | worker w ok =>
      have hworker : workerStep s w ok = some t := by
        rw [step] at hstep
        split_ifs at hstep
        exact hstep
      obtain ⟨hconn, hepoll⟩ := worker_takes hworker
      exact ⟨(List.append_nil _).trans hconn, (List.append_nil _).trans hepoll⟩
  | command | quit | endInput | fetch =>
      exact hquiet (outside_queues hstep (by rintro ⟨⟩) (by rintro b ⟨⟩) (by rintro w ok ⟨⟩))

end Steps

/-! ## Runs -/

/-- **FIRST COME, FIRST SERVED**: in every run in which the queues have room, however
    the threads are interleaved, the connections that the workers took, in the order in
    which any of them did, are those that the dispatcher had put into the queue, in that
    order, but for those that are still there; and so are the events. -/
theorem served_in_order {fixedInput : Bool} {as : List Act} {s : State}
    (hrun : (program.guarded findsRoom).run (State.start fixedInput) as = some s) :
    (program.guarded findsRoom).along connTaken (State.start fixedInput) as ++ s.connEvents =
        (program.guarded findsRoom).along connPut (State.start fixedInput) as ∧
      (program.guarded findsRoom).along epollTaken (State.start fixedInput) as ++ s.epollEvents =
        (program.guarded findsRoom).along epollPut (State.start fixedInput) as := by
  have hconn := Machine.in_order (fun s a t h => (step_in_order (s := s) (t := t) h).1) hrun
  have hepoll := Machine.in_order (fun s a t h => (step_in_order (s := s) (t := t) h).2) hrun
  exact ⟨hconn.symm, hepoll.symm⟩

/-- Two commands from a file; the first worker answers an event of the second, and then
    takes the first. -/
def oneTaken : List Act :=
  [.command .get 3] ++ dispatches 8 ++ [.command .put 4] ++ dispatches 9 ++ [.endInput] ++
    boot ++ [.main] ++ [.fetch [4]] ++ dispatches 15 ++ works 0 8

theorem served_in_order_oneTaken :
    ∃ s, (program.guarded findsRoom).run (State.start true) oneTaken = some s ∧
      s.connQueue.count = 1 ∧
      (program.guarded findsRoom).along connTaken (State.start true) oneTaken ++ s.connEvents =
        (program.guarded findsRoom).along connPut (State.start true) oneTaken ∧
      (program.guarded findsRoom).along epollTaken (State.start true) oneTaken ++ s.epollEvents =
        (program.guarded findsRoom).along epollPut (State.start true) oneTaken := by
  obtain ⟨s, hs, hat⟩ := (Option.any_eq_true (fun s : State => decide (s.connQueue.count = 1))
    _).mp (show ((program.guarded findsRoom).run (State.start true) oneTaken).any _ = true by
      decide +kernel)
  exact ⟨s, hs, of_decide_eq_true hat, served_in_order hs⟩

end ServiceOrder
