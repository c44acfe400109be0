import Hftp.ThreadsProofs

/-! # Queued work and idle workers

    A worker looks at the queues when it is done with a handler and at no other
    time.  What is put into a queue later than that, or before there is a worker,
    stays there; and so does what is behind an event whose connection is gone,
    since the worker that finds one looks no further.  If neither comes about, no
    worker is idle while there is something in a queue. -/

namespace Stranded

open RingBuffer Transition Threads

/-! ## The condition -/

/-- A worker that will not look at the queue of events before it has been given
    something by the dispatcher. -/
def pastEpolls (x : Worker) : Bool := !x.busy || decide (x.pc = .clear)

/-- The same for the queue of connections. -/
def pastConns (x : Worker) : Bool := pastEpolls x || decide (x.pc = .dequeueEpoll)

/-- What is queued will be looked at: each of the workers is busy and has not
    looked yet; and no event is behind one whose connection is gone. -/
def looked (s : State) : Act → Bool
  | .dispatcher _ =>
      match s.dispatcher with
      | .connEnqueue _ => (List.range defaultWorkerCount).all fun w => !pastConns (s.workers w)
      | .enqueue _ => (List.range defaultWorkerCount).all fun w => !pastEpolls (s.workers w)
      | _ => true
  | .worker w _ =>
      match (s.workers w).pc with
      | .dequeueEpoll =>
          (s.lookup (s.epollQueue.head epollEventQueueMax)).isSome || decide (s.epollQueue.count ≤ 1)
      | _ => true
  | _ => true

/-! ## The invariant -/

/-- What a worker that looks no more leaves behind. -/
structure Drained (s : State) : Prop where
  conns : ∀ w, w < defaultWorkerCount → pastConns (s.workers w) = true → s.connQueue.count = 0
  epolls : ∀ w, w < defaultWorkerCount → pastEpolls (s.workers w) = true → s.epollQueue.count = 0

section Steps

variable {s t : State}

/-- At the start the queues are empty. -/
theorem drained_start (fixedInput : Bool) : Drained (State.start fixedInput) :=
  ⟨fun _ _ _ => rfl, fun _ _ _ => rfl⟩

/-- Who has looked into the connection queue for the last time: it rests, or is about
    to, or looks into the other. -/
theorem pastConns_iff {x : Worker} :
    pastConns x = true ↔ (x.busy = false ∨ x.pc = .clear) ∨ x.pc = .dequeueEpoll := by
  rw [pastConns, pastEpolls, Bool.or_eq_true, Bool.or_eq_true, Bool.not_eq_true', decide_eq_true_eq,
    decide_eq_true_eq]

/-- Who has looked into both queues for the last time: it rests, or is about to. -/
theorem pastEpolls_iff {x : Worker} : pastEpolls x = true ↔ x.busy = false ∨ x.pc = .clear := by
  rw [pastEpolls, Bool.or_eq_true, Bool.not_eq_true', decide_eq_true_eq]

/-- No queue grows, and no worker comes to look no more. -/
theorem Drained.shrink (h : Drained s) (hconn : t.connQueue.count ≤ s.connQueue.count)
    (hepoll : t.epollQueue.count ≤ s.epollQueue.count)
    (hw : ∀ w, pastConns (t.workers w) = true →
      pastConns (s.workers w) = true ∨ t.connQueue.count = 0)
    (hw' : ∀ w, pastEpolls (t.workers w) = true →
      pastEpolls (s.workers w) = true ∨ t.epollQueue.count = 0) :
    Drained t := by
  constructor
  · intro w hlt hpast
    rcases hw w hpast with hwas | hzero
    · have := h.conns w hlt hwas
      omega
    · exact hzero
  · intro w hlt hpast
    rcases hw' w hpast with hwas | hzero
    · have := h.epolls w hlt hwas
      omega
    · exact hzero

/-- The same when one worker comes to `x`. -/
theorem Drained.one (h : Drained s) {w : Nat} {x : Worker}
    (hconn : t.connQueue.count ≤ s.connQueue.count)
    (hepoll : t.epollQueue.count ≤ s.epollQueue.count)
    (hworkers : t.workers = Function.update s.workers w x)
    (hw : pastConns x = true → pastConns (s.workers w) = true ∨ t.connQueue.count = 0)
    (hw' : pastEpolls x = true → pastEpolls (s.workers w) = true ∨ t.epollQueue.count = 0) :
    Drained t := by
  refine h.shrink hconn hepoll (fun v => ?_) (fun v => ?_)
  · rw [hworkers]
    by_cases hv : v = w
    · rw [hv, Function.update_self]
      exact hw
    · rw [Function.update_of_ne hv]
      exact Or.inl
  · rw [hworkers]
    by_cases hv : v = w
    · rw [hv, Function.update_self]
      exact hw'
    · rw [Function.update_of_ne hv]
      exact Or.inl

/-- A worker keeps its busy bit and comes to no place behind a queue. -/
theorem Drained.engaged (h : Drained s) {w : Nat} {x : Worker}
    (hconn : t.connQueue.count ≤ s.connQueue.count)
    (hepoll : t.epollQueue.count ≤ s.epollQueue.count)
    (hworkers : t.workers = Function.update s.workers w x)
    (hbusy : x.busy = false → (s.workers w).busy = false)
    (hpc : (x.pc = .dequeueEpoll ∨ x.pc = .clear) → x.pc = (s.workers w).pc) :
    Drained t := by
  refine h.one hconn hepoll hworkers (fun hpast => Or.inl ?_) (fun hpast => Or.inl ?_)
  · rcases pastConns_iff.mp hpast with (hidle | hat) | hat
    · exact pastConns_iff.mpr (Or.inl (Or.inl (hbusy hidle)))
    · exact pastConns_iff.mpr (Or.inl (Or.inr (by rw [← hpc (Or.inr hat)]; exact hat)))
    · exact pastConns_iff.mpr (Or.inr (by rw [← hpc (Or.inl hat)]; exact hat))
  · rcases pastEpolls_iff.mp hpast with hidle | hat
    · exact pastEpolls_iff.mpr (Or.inl (hbusy hidle))
    · exact pastEpolls_iff.mpr (Or.inr (by rw [← hpc (Or.inr hat)]; exact hat))

/-- No worker and no queue changes. -/
theorem Drained.same (h : Drained s) (hworkers : t.workers = s.workers)
    (hconn : t.connQueue = s.connQueue) (hepoll : t.epollQueue = s.epollQueue) :
    Drained t := by
  refine h.shrink (by rw [hconn]) (by rw [hepoll]) ?_ ?_
  · rw [hworkers]
    exact fun _ => Or.inl
  · rw [hworkers]
    exact fun _ => Or.inl

/-! ## Steps -/

/-- The main thread puts nothing in. -/
theorem mainStep_drained (h : Drained s) (hstep : mainStep s = some t) : Drained t := by
  rw [mainStep] at hstep
  cases hm : s.main with
  | createPatcher | workspaceInit | test | toWait =>
      rw [hm] at hstep
      obtain rfl := Option.some.inj hstep
      exact h.same rfl rfl rfl
  | spawn i =>
      rw [hm] at hstep
      dsimp only at hstep
      split_ifs at hstep
      · obtain rfl := Option.some.inj hstep
        refine h.engaged (x := { s.workers i with pc := .start }) (Nat.le_refl _) (Nat.le_refl _) rfl
          id ?_
        rintro (heq | heq) <;> cases heq
      · obtain rfl := Option.some.inj hstep
        exact h.same rfl rfl rfl
  | input | waiting | past =>
      rw [hm] at hstep
      cases hstep

/-- The dispatcher puts something in only while a worker is still to look. -/
theorem dispatched_drained {b : Bool} (h : Drained s) (hok : looked s (.dispatcher b) = true)
    (hstep : Dispatched s t) :
    Drained t := by
  cases hstep with
  | alone hsame _ => exact h.same hsame.workers hsame.connQueue hsame.epollQueue
  | assign _ _ _ ht | setBusy _ _ ht =>
      rw [ht]
      exact h.engaged (Nat.le_refl _) (Nat.le_refl _) rfl (by rintro ⟨⟩) (fun _ => rfl)
  | wake w pc _ ht =>
      rw [ht]
      rcases wake_eq s w with ⟨-, hwake⟩ | ⟨-, hwake⟩
      · rw [hwake]
        exact h.same rfl rfl rfl
      · rw [hwake]
        refine h.engaged (x := { s.workers w with pc := .test }) (Nat.le_refl _) (Nat.le_refl _) rfl
          id ?_
        rintro (heq | heq) <;> cases heq
  | connEnqueue cev hat ht =>
      rw [looked, hat] at hok
      rw [ht]
      refine ⟨fun w hlt hpast => ?_, h.epolls⟩
      have hnot := List.all_eq_true.mp hok w (List.mem_range.mpr hlt)
      rw [Bool.not_eq_true'] at hnot
      exact absurd hpast (Bool.eq_false_iff.mp hnot)
  | wakeMain _ ht =>
      obtain ⟨hw, hc, he, -⟩ := endLine_frame s.wakeMain
      obtain ⟨hw', hc', he', -⟩ := wakeMain_frame s
      rw [ht]
      exact h.same (hw.trans hw') (hc.trans hc') (he.trans he')
  | store fd w x _ hx ht =>
      rw [ht]
      refine h.engaged (Nat.le_refl _) (Nat.le_refl _) rfl ?_ (fun _ => hx.1)
      rw [hx.2]
      exact id
  | enqueue fd hat ht =>
      rw [looked, hat] at hok
      rw [ht]
      refine ⟨h.conns, fun w hlt hpast => ?_⟩
      have hnot := List.all_eq_true.mp hok w (List.mem_range.mpr hlt)
      rw [Bool.not_eq_true'] at hnot
      exact absurd hpast (Bool.eq_false_iff.mp hnot)

/-- A worker passes a queue by only if it is empty. -/
theorem worked_drained {w : Nat} {ok : Bool} (h : Drained s)
    (hok : looked s (.worker w ok) = true) (hstep : Worked s t w) :
    Drained t := by
  have hengaged : ∀ {x : Worker}, engaged x.pc = true →
      (x.pc = .dequeueEpoll ∨ x.pc = .clear) → x.pc = (s.workers w).pc := by
    rintro x hpc (heq | heq)
    · rw [heq] at hpc
      cases hpc
    · rw [heq] at hpc
      cases hpc
  cases hstep with
  | serve x hx hpc _ =>
      refine h.engaged (by rw [hx.connQueue]) (by rw [hx.epollQueue]) hx.workers ?_ (hengaged hpc)
      rw [hx.busy]
      exact id
  | tested hx _ _ | waits hx _ =>
      refine h.engaged (by rw [hx.connQueue]) (by rw [hx.epollQueue]) hx.workers id ?_
      rintro (heq | heq) <;> cases heq
  | raise _ ht =>
      rw [ht]
      refine h.engaged (x := { s.workers w with pc := .signal }) (Nat.le_refl _) (Nat.le_refl _) rfl
        id ?_
      rintro (heq | heq) <;> cases heq
  | signal _ ht =>
      obtain ⟨hw, hc, he, -⟩ := wakeMain_frame s
      have hmain : Drained s.wakeMain := h.same hw hc he
      rw [ht]
      refine hmain.engaged (x := { s.wakeMain.workers w with pc := .release }) (Nat.le_refl _)
        (Nat.le_refl _) rfl id ?_
      rintro (heq | heq) <;> cases heq
  | connsEmpty hx _ hempty =>
      refine h.one (by rw [hx.connQueue]) (by rw [hx.epollQueue]) hx.workers
        (fun _ => Or.inr (by rw [hx.connQueue]; exact hempty)) (fun hpast => Or.inl ?_)
      rcases pastEpolls_iff.mp hpast with hidle | hat
      · exact pastEpolls_iff.mpr (Or.inl hidle)
      · cases hat
  | takeConn x hx hpc _ hfewer =>
      refine h.engaged (by omega) (by rw [hx.epollQueue]) hx.workers ?_ (hengaged hpc)
      rw [hx.busy]
      exact id
  | epollsEmpty hx hfrom hempty =>
      refine h.one (by rw [hx.connQueue]) (by rw [hx.epollQueue]) hx.workers
        (fun _ => Or.inl (pastConns_iff.mpr (Or.inr hfrom)))
        (fun _ => Or.inr (by rw [hx.epollQueue]; exact hempty))
  | takeEpoll x hx hpc hfrom hsome hfewer =>
      rw [looked, hfrom] at hok
      rcases hpc with hpc | ⟨-, hgone⟩
      · refine h.engaged (by rw [hx.connQueue]) (by omega) hx.workers ?_ (hengaged hpc)
        rw [hx.busy]
        exact id
      · -- an event whose connection is gone was the last one
        dsimp only at hok
        rw [hgone, Option.isSome_none, Bool.false_or, decide_eq_true_eq] at hok
        exact h.one (by rw [hx.connQueue]) (by omega) hx.workers
          (fun _ => Or.inl (pastConns_iff.mpr (Or.inr hfrom))) (fun _ => Or.inr (by omega))
  | clear hfrom ht =>
      rw [ht]
      exact h.one (Nat.le_refl _) (Nat.le_refl _) rfl
        (fun _ => Or.inl (pastConns_iff.mpr (Or.inl (Or.inr hfrom))))
        (fun _ => Or.inl (pastEpolls_iff.mpr (Or.inr hfrom)))

/-- Nothing is behind the last look, step after step. -/
theorem step_drained {a : Act} (h : Drained s) (hok : looked s a = true)
    (hstep : step s a = some t) :
    Drained t := by
  cases a with
  | main => exact mainStep_drained h hstep
  | command _ _ | quit | fetch _ =>
      rw [step] at hstep
      split_ifs at hstep
      obtain rfl := Option.some.inj hstep
      exact h.same rfl rfl rfl
  | endInput =>
      rw [step] at hstep
      split_ifs at hstep
      obtain rfl := Option.some.inj hstep
      obtain ⟨hw, hc, he, -⟩ := endLine_frame s
      exact h.same hw hc he
  | dispatcher b => exact dispatched_drained h hok (dispatcher_dispatched hstep)
  | worker w ok =>
      rw [step] at hstep
      split_ifs at hstep
      exact worked_drained h hok (workerStep_worked hstep)

end Steps

/-! ## Runs -/

/-- A worker between the end of a handler and the clearing of its busy bit. -/
def finishing : WorkerPc → Bool
  | .account | .raise | .signal | .release | .dequeueConn | .dequeueEpoll | .clear => true
  | _ => false

/-- Nobody is between a look at the busy bits, or the end of a handler, and what
    follows from it. -/
def Settled (s : State) : Prop :=
  (∀ cev, s.dispatcher ≠ .connEnqueue cev) ∧ (∀ fd, s.dispatcher ≠ .enqueue fd) ∧
    ∀ w, w < defaultWorkerCount → finishing (s.workers w).pc = false

/-- No worker idles while there is something in a queue. -/
def NoneStranded (s : State) : Prop :=
  Settled s → ∀ w, w < defaultWorkerCount → (s.workers w).busy = false →
    (s.workers w).pc = .waiting → s.connEvents = [] ∧ s.epollEvents = []

/-- Nothing is behind the last look in any run that keeps the condition. -/
theorem run_drained {fixedInput : Bool} {as : List Act} {s : State}
    (hrun : (program.guarded looked).run (State.start fixedInput) as = some s) :
    Drained s := by
  refine Machine.invariant (fun s a t h hstep => ?_) (drained_start fixedInput) hrun
  obtain ⟨hok, hstep'⟩ := Machine.guarded_step.mp hstep
  exact step_drained h hok hstep'

/-- **NO QUEUED WORK IS STRANDED**. -/
theorem none_stranded {fixedInput : Bool} {as : List Act} {s : State}
    (hrun : (program.guarded looked).run (State.start fixedInput) as = some s) :
    NoneStranded s := by
  have h := run_drained hrun
  intro _ w hlt hidle _
  constructor
  · exact RingBuf.contents_eq_nil.mpr
      (h.conns w hlt (pastConns_iff.mpr (Or.inl (Or.inl hidle))))
  · exact RingBuf.contents_eq_nil.mpr (h.epolls w hlt (pastEpolls_iff.mpr (Or.inl hidle)))

/-- A command from a terminal; its worker sends the request and waits again. -/
def oneCommand : List Act :=
  boot ++ [.fetch [0]] ++ dispatches 1 ++ [.command .get 3] ++ dispatches 16 ++ works 0 10

/-- One command from the terminal, which is sent; then all rest. -/
theorem none_stranded_oneCommand :
    ∃ s, (program.guarded looked).run (State.start false) oneCommand = some s ∧
      ((s.workers 0).busy = false ∧ (s.workers 0).pc = .waiting ∧ (s.slots 0).state = 1) ∧
      NoneStranded s := by
  obtain ⟨s, hs, hpc⟩ := (Option.any_eq_true (fun s : State => decide
    ((s.workers 0).busy = false ∧ (s.workers 0).pc = .waiting ∧ (s.slots 0).state = 1)) _).mp
    (show ((program.guarded looked).run (State.start false) oneCommand).any _ = true by
      decide +kernel)
  exact ⟨s, hs, of_decide_eq_true hpc, none_stranded hs⟩

/-- A command from a file, queued before there are workers. -/
def fileCommand : List Act := [.command .get 3] ++ dispatches 8 ++ [.endInput] ++ boot

/-- All workers wait, and it stays in the queue. -/
theorem fileCommand_stranded :
    ¬ ∀ fixedInput as s, program.run (State.start fixedInput) as = some s → NoneStranded s := by
  intro hall
  obtain ⟨s, hs, hat⟩ := (Option.any_eq_true (fun s : State => decide (s.dispatcher = .wait ∧
    (∀ w, w < defaultWorkerCount → (s.workers w).pc = .waiting ∧ (s.workers w).busy = false) ∧
      s.connQueue.count = 1)) _).mp
    (show (program.run (State.start true) fileCommand).any _ = true by decide +kernel)
  obtain ⟨hdisp, hworkers, hcount⟩ := of_decide_eq_true hat
  have hsettled : Settled s := by
    rw [Settled, hdisp]
    refine ⟨fun _ => by rintro ⟨⟩, fun _ => by rintro ⟨⟩, fun w hw => ?_⟩
    rw [(hworkers w hw).1]
    rfl
  obtain ⟨hpc, hidle⟩ := hworkers 0 (by decide)
  have hnil := (hall true _ s hs hsettled 0 (by decide) hidle hpc).1
  rw [State.connEvents, RingBuf.contents_eq_nil, hcount] at hnil
  cases hnil

end Stranded
