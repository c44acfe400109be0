import Hftp.CommandLifeProofs

/-! # What a worker is given, and what it executes

    The dispatcher stores a handler and a connection into the workspace of an idle
    worker and sets its busy bit; the worker leaves its loop for the bit and calls
    what it finds.  Beside the state stands what was stored for each worker and not
    called yet.  Both agree until a worker starts up with an assignment waiting:
    its first statement is `workspace->conn_index = -1`. -/

namespace Assignment

open HttpCore Transition Threads
open CommandLife (resting idleWorker_idle)

/-! ## The assignments -/

/-- A handler, and the connection it is to be called with. -/
structure Assigned where
  process : Handler
  connIndex : Option Nat
  deriving DecidableEq, Repr

/-- What was stored for each worker, and not called yet. -/
abbrev Pending := Nat → Option Assigned

/-- What the dispatcher stores with its next step, and for which worker. -/
def stores (s : State) : Option (Nat × Assigned) :=
  match s.dispatcher with
  | .assign cev =>
      s.idleWorker.map fun w => (w, { process := .httpRequest, connIndex := some cev.connIndex })
  | .store fd w =>
      some (w, { process := .httpResponse, connIndex := (s.lookup fd).or (s.workers w).connIndex })
  | _ => none

/-- The dispatcher stores, and a worker calls. -/
def Pending.note (s : State) (g : Pending) : Act → Pending
  | .dispatcher _ =>
      match stores s with
      | some (w, a) => Function.update g w (some a)
      | none => g
  | .worker w _ => if (s.workers w).pc = .load then Function.update g w none else g
  | _ => g

/-- The program, with the assignments beside it. -/
def assigning : Machine (State × Pending) Act :=
  { step := fun x a => (step x.1 a).map fun t => (t, x.2.note x.1 a) }

/-- Nothing was stored for anyone. -/
def starting (fixedInput : Bool) : State × Pending := (State.start fixedInput, fun _ => none)

/-- **THE ASSIGNMENT HANDED TO A WORKER IS THE ONE IT EXECUTES**: the dispatcher stores
    only into the workspace of a worker whose busy bit is clear and that has called
    what it was given; nothing overwrites what waits there; and a worker that leaves
    its loop calls it, with the connection that was stored. -/
structure Honoured (x : State × Pending) : Prop where
  clear : ∀ w a, stores x.1 = some (w, a) → (x.1.workers w).busy = false ∧ x.2 w = none
  waits : ∀ w a, x.2 w = some a →
    (x.1.workers w).process = some a.process ∧ (x.1.workers w).connIndex = a.connIndex
  calls : ∀ w, (x.1.workers w).pc = .load → (x.1.workers w).auto = .reserved →
    ∃ a, x.2 w = some a ∧ (x.1.workers w).due = some a.process ∧
      x.1.dueConn (x.1.workers w) = a.connIndex

/-- No worker executes its first statement with an assignment waiting: its busy bit is
    clear, and the dispatcher is not about to set it. -/
def startsFree (x : State × Pending) : Act → Bool
  | .worker w _ =>
      decide ((x.1.workers w).pc = .start →
        (x.1.workers w).busy = false ∧ x.1.dispatcher ≠ .setBusy w)
  | _ => true

/-! ## What is kept -/

/-- A worker that has not called what it was given. -/
def awaits (x : Worker) : Bool := resting x.pc || decide (x.pc = .load ∧ x.auto = .reserved)

/-- The places at which nothing was taken from a queue. -/
def reservedAt : WorkerPc → Bool
  | .dequeueConn | .dequeueEpoll | .clear => true
  | pc => resting pc

/-- A worker that rests has taken nothing from a queue. -/
theorem reservedAt_resting {pc : WorkerPc} (h : resting pc = true) : reservedAt pc = true := by
  cases pc with
  | dequeueConn => rfl
  | dequeueEpoll => rfl
  | clear => rfl
  | _ => exact h

/-- A worker has something to call: its busy bit is set, or the dispatcher is about to
    set it. -/
def engagedBy (d : DispatcherPc) (w : Nat) (x : Worker) : Prop := x.busy = true ∨ d = .setBusy w

/-- What is known of a worker, and of what was stored for it. -/
structure WorkerOk (d : DispatcherPc) (p : Option Assigned) (w : Nat) (x : Worker) : Prop where
  idle : x.busy = false → resting x.pc = true
  auto : reservedAt x.pc = true → x.auto = .reserved
  given : awaits x = true → engagedBy d w x → p ≠ none
  kept : ∀ a, p = some a → x.process = some a.process ∧ x.connIndex = a.connIndex ∧
    awaits x = true ∧ engagedBy d w x
  fresh : x.pc = .unborn ∨ x.pc = .start → x.connIndex ≠ none

/-- The dispatcher goes on with a worker whose busy bit is clear. -/
def DispatcherOk (s : State) : DispatcherPc → Prop
  | .store _ w | .setBusy w => (s.workers w).busy = false
  | _ => True

/-- Where the main thread is with the other threads. -/
structure MainOk (s : State) : Prop where
  created : s.main = .createPatcher → s.dispatcher = .unborn
  born : spawned s.main ≤ defaultWorkerCount
  workspace : s.workspaceCount ≤ defaultWorkerCount

structure Kept (s : State) (g : Pending) : Prop where
  worker : ∀ w, WorkerOk s.dispatcher (g w) w (s.workers w)
  dispatcher : DispatcherOk s s.dispatcher
  unborn : ∀ w, spawned s.main ≤ w → (s.workers w).pc = .unborn
  main : MainOk s

/-- At the start nothing is assigned. -/
theorem kept_start (fixedInput : Bool) : Kept (State.start fixedInput) fun _ => none := by
  have hd : (State.start fixedInput).dispatcher = .line ∨
      (State.start fixedInput).dispatcher = .unborn := by
    cases fixedInput
    · exact Or.inr rfl
    · exact Or.inl rfl
  constructor
  · intro w
    refine ⟨fun _ => rfl, fun _ => rfl, fun _ hengaged => ?_, by rintro _ ⟨⟩, fun _ => by rintro ⟨⟩⟩
    rcases hengaged with hbusy | hset
    · cases hbusy
    · rcases hd with heq | heq
      · cases heq.symm.trans hset
      · cases heq.symm.trans hset
  · rcases hd with heq | heq
    · rw [heq]
      exact trivial
    · rw [heq]
      exact trivial
  · intro w _
    rfl
  · refine ⟨fun hmain => ?_, ?_, Nat.zero_le _⟩
    · cases fixedInput
      · rfl
      · cases hmain
    · cases fixedInput <;> exact Nat.zero_le _

section Steps

variable {s t : State} {g : Pending}

/-- A worker that does not rest is busy, and then the dispatcher is not about to set its
    busy bit. -/
theorem Kept.busy (h : Kept s g) {w : Nat} (hpc : resting (s.workers w).pc = false) :
    (s.workers w).busy = true := by
  cases hb : (s.workers w).busy with
  | true => rfl
  | false => cases hpc.symm.trans ((h.worker w).idle hb)

/-- The dispatcher sets no bit that is set. -/
theorem Kept.setsNot (h : Kept s g) {w : Nat} (hbusy : (s.workers w).busy = true) :
    s.dispatcher ≠ .setBusy w := by
  intro hd
  have hdisp := h.dispatcher
  rw [hd] at hdisp
  cases hdisp.symm.trans hbusy

/-- Nothing waits for a worker that has called what it was given. -/
theorem Kept.called (h : Kept s g) {w : Nat} (hpc : awaits (s.workers w) = false) : g w = none := by
  cases hg : g w with
  | none => rfl
  | some a => cases hpc.symm.trans ((h.worker w).kept a hg).2.2.1

/-- **WHAT A STEP KEEPS** that touches one worker. -/
theorem Kept.change (h : Kept s g) {w : Nat} {y : Worker} {p : Option Assigned}
    (hw : t.workers = Function.update s.workers w y)
    (hset : ∀ v, v ≠ w → (t.dispatcher = .setBusy v ↔ s.dispatcher = .setBusy v))
    (hborn : spawned s.main ≤ spawned t.main) (hunborn : spawned t.main ≤ w → y.pc = .unborn)
    (hmain : MainOk t) (hy : WorkerOk t.dispatcher p w y) (hdisp : DispatcherOk t t.dispatcher) :
    Kept t (Function.update g w p) := by
  refine ⟨fun v => ?_, hdisp, fun v hv => ?_, hmain⟩
  · by_cases hvw : v = w
    · rw [hvw, hw, Function.update_self, Function.update_self]
      exact hy
    · rw [hw, Function.update_of_ne hvw, Function.update_of_ne hvw]
      have hold := h.worker v
      have hsame : engagedBy t.dispatcher v (s.workers v) ↔
          engagedBy s.dispatcher v (s.workers v) := or_congr_right (hset v hvw)
      exact ⟨hold.idle, hold.auto, fun hpc hengaged => hold.given hpc (hsame.mp hengaged),
        fun a ha => ⟨(hold.kept a ha).1, (hold.kept a ha).2.1, (hold.kept a ha).2.2.1,
          hsame.mpr (hold.kept a ha).2.2.2⟩, hold.fresh⟩
  · by_cases hvw : v = w
    · rw [hvw] at hv ⊢
      rw [hw, Function.update_self]
      exact hunborn hv
    · rw [hw, Function.update_of_ne hvw]
      exact h.unborn v (Nat.le_trans hborn hv)

/-- A step of which no worker takes note. -/
theorem Kept.still (h : Kept s g) (hw : t.workers = s.workers)
    (hset : ∀ v, t.dispatcher = .setBusy v ↔ s.dispatcher = .setBusy v)
    (hborn : spawned s.main ≤ spawned t.main)
    (hmain : MainOk t) (hdisp : DispatcherOk t t.dispatcher) : Kept t g := by
  have hold := h.worker 0
  have hkept := h.change (w := 0) (y := s.workers 0) (p := g 0) (t := t)
    (by rw [hw, Function.update_eq_self]) (fun v _ => hset v) hborn
    (fun hle => h.unborn 0 (Nat.le_trans hborn hle)) hmain ?_ hdisp
  · rw [Function.update_eq_self] at hkept
    exact hkept
  · have hsame : engagedBy t.dispatcher 0 (s.workers 0) ↔ engagedBy s.dispatcher 0 (s.workers 0) :=
      or_congr_right (hset 0)
    exact ⟨hold.idle, hold.auto, fun hpc hengaged => hold.given hpc (hsame.mp hengaged),
      fun a ha => ⟨(hold.kept a ha).1, (hold.kept a ha).2.1, (hold.kept a ha).2.2.1,
        hsame.mpr (hold.kept a ha).2.2.2⟩, hold.fresh⟩

/-- A busy bit that is set is set by the dispatcher. -/
theorem DispatcherOk.keep {d : DispatcherPc} (h : DispatcherOk s d)
    (hbusy : ∀ v, (s.workers v).busy = false → (t.workers v).busy = false) : DispatcherOk t d := by
  cases d with
  | store fd w => exact hbusy w h
  | setBusy w => exact hbusy w h
  | _ => exact h

theorem update_busy {w : Nat} {y : Worker} (hw : t.workers = Function.update s.workers w y)
    (hy : (s.workers w).busy = false → y.busy = false) (v : Nat)
    (hv : (s.workers v).busy = false) : (t.workers v).busy = false := by
  rw [hw]
  by_cases hvw : v = w
  · rw [hvw, Function.update_self]
    exact hy (hvw ▸ hv)
  · rw [Function.update_of_ne hvw]
    exact hv

/-- The main thread stands where it stood, or was woken. -/
structure MainStays (s t : State) : Prop where
  born : spawned t.main = spawned s.main
  created : t.main = .createPatcher → s.main = .createPatcher
  workspace : t.workspaceCount = s.workspaceCount

theorem mainStays_of (hmain : t.main = s.main) (hspace : t.workspaceCount = s.workspaceCount) :
    MainStays s t :=
  ⟨by rw [hmain], fun hc => hmain ▸ hc, hspace⟩

/-- A signal takes the main thread no further than its test. -/
theorem mainStays_wakeMain (s : State) : MainStays s s.wakeMain := by
  refine ⟨wakeMain_spawned s, fun hc => ?_, ?_⟩
  · rw [State.wakeMain] at hc
    split_ifs at hc
    exact hc
  · rw [State.wakeMain]
    split_ifs <;> rfl

theorem MainStays.ok (m : MainStays s t) (h : MainOk s)
    (hdisp : s.main = .createPatcher → t.dispatcher = .unborn) : MainOk t :=
  ⟨fun hc => hdisp (m.created hc), by rw [m.born]; exact h.born,
    by rw [m.workspace]; exact h.workspace⟩

/-! ### The workers -/

/-- A worker goes on with what it has called. -/
theorem Kept.works (h : Kept s g) {w : Nat} {y : Worker}
    (hw : t.workers = Function.update s.workers w y) (hdisp : t.dispatcher = s.dispatcher)
    (hmain : MainStays s t) (hpc : resting (s.workers w).pc = false)
    (hbusy : y.busy = (s.workers w).busy) (haway : awaits y = false)
    (hauto : reservedAt y.pc = true → y.auto = .reserved) :
    Kept t (Function.update g w none) := by
  have hset := h.busy hpc
  refine h.change hw (fun v _ => by rw [hdisp]) (Nat.le_of_eq hmain.1.symm) (fun hle => ?_)
    (hmain.ok h.main fun hc => hdisp.trans (h.main.created hc))
    ⟨fun hidle => ?_, hauto, fun hawait => ?_, by rintro _ ⟨⟩, fun hfresh => ?_⟩ ?_
  · have hunborn := h.unborn w (hmain.1 ▸ hle)
    rw [hunborn] at hpc
    cases hpc
  · rw [hbusy, hset] at hidle
    cases hidle
  · cases haway.symm.trans hawait
  · rw [awaits] at haway
    rcases hfresh with heq | heq
    · rw [heq] at haway
      cases haway
    · rw [heq] at haway
      cases haway
  · rw [hdisp]
    exact h.dispatcher.keep (update_busy hw fun hidle => by cases hset.symm.trans hidle)

/-- The same, when it had called it before. -/
theorem Kept.goesOn (h : Kept s g) {w : Nat} {y : Worker}
    (hw : t.workers = Function.update s.workers w y) (hdisp : t.dispatcher = s.dispatcher)
    (hmain : MainStays s t) (hpc : resting (s.workers w).pc = false)
    (hcalled : awaits (s.workers w) = false)
    (hbusy : y.busy = (s.workers w).busy) (haway : awaits y = false)
    (hauto : reservedAt y.pc = true → y.auto = .reserved) : Kept t g := by
  have hkept := h.works hw hdisp hmain hpc hbusy haway hauto
  rw [← h.called hcalled, Function.update_eq_self] at hkept
  exact hkept

/-- A worker waits on for what it has to call. -/
theorem Kept.dozes (h : Kept s g) {w : Nat} {pc : WorkerPc}
    (hw : t.workers = Function.update s.workers w { s.workers w with pc := pc })
    (hdisp : t.dispatcher = s.dispatcher) (hmain : MainStays s t)
    (hpc : resting (s.workers w).pc = true) (hborn : (s.workers w).pc ≠ .unborn)
    (hto : resting pc = true ∧ pc ≠ .unborn ∧ pc ≠ .start ∨
      pc = .load ∧ (s.workers w).busy = true) : Kept t g := by
  have hold := h.worker w
  have hauto : (s.workers w).auto = .reserved := hold.auto (reservedAt_resting hpc)
  have hawaits : awaits { s.workers w with pc := pc } = true := by
    rw [awaits, Bool.or_eq_true, decide_eq_true_eq]
    exact hto.imp (fun hrest => hrest.1) (fun hload => ⟨hload.1, hauto⟩)
  have hbefore : awaits (s.workers w) = true := by
    rw [awaits, hpc]
    rfl
  have hkept := h.change (y := { s.workers w with pc := pc }) (p := g w) hw
    (fun v _ => by rw [hdisp]) (Nat.le_of_eq hmain.1.symm) (fun hle => ?_)
    (hmain.ok h.main fun hc => hdisp.trans (h.main.created hc))
    ⟨fun hidle => ?_, fun _ => hauto, fun _ hengaged => ?_, fun a ha => ?_, fun hfresh => ?_⟩ ?_
  · rw [Function.update_eq_self] at hkept
    exact hkept
  · exact absurd (h.unborn w (hmain.1 ▸ hle)) hborn
  · rcases hto with hrest | hload
    · exact hrest.1
    · cases hload.2.symm.trans hidle
  · rw [hdisp] at hengaged
    exact hold.given hbefore hengaged
  · obtain ⟨hprocess, hindex, -, hengaged⟩ := hold.kept a ha
    rw [hdisp]
    exact ⟨hprocess, hindex, hawaits, hengaged⟩
  · rcases hto with hrest | hload
    · exact absurd hfresh (not_or.mpr hrest.2)
    · have hpcs : pc = .unborn ∨ pc = .start := hfresh
      rw [hload.1] at hpcs
      exact absurd hpcs (not_or.mpr ⟨by rintro ⟨⟩, by rintro ⟨⟩⟩)
  · rw [hdisp]
    exact h.dispatcher.keep (update_busy hw id)

/-- A worker takes its work up at one place only. -/
theorem note_worker {w : Nat} {ok : Bool} (hpc : (s.workers w).pc ≠ .load) :
    g.note s (.worker w ok) = g := if_neg hpc

/-- The first statement of a worker. -/
theorem Kept.starts (h : Kept s g) {w : Nat} (hpc : (s.workers w).pc = .start)
    (hfree : (s.workers w).busy = false ∧ s.dispatcher ≠ .setBusy w) :
    Kept (s.setWorker w { s.workers w with connIndex := none, pc := .test }) g := by
  have hnone : g w = none := by
    cases hg : g w with
    | none => rfl
    | some a =>
        rcases ((h.worker w).kept a hg).2.2.2 with hbusy | hset
        · cases hfree.1.symm.trans hbusy
        · exact absurd hset hfree.2
  have hkept := h.change (t := s.setWorker w { s.workers w with connIndex := none, pc := .test })
    (p := none) rfl (fun _ _ => Iff.rfl) (Nat.le_refl _) (fun hle => ?_)
    ⟨h.main.created, h.main.born, h.main.workspace⟩
    ⟨fun _ => rfl, fun _ => (h.worker w).auto (by rw [hpc]; rfl), fun _ hengaged => ?_,
     by rintro _ ⟨⟩, fun hfresh => ?_⟩ (h.dispatcher.keep (update_busy rfl id))
  · rw [← hnone, Function.update_eq_self] at hkept
    exact hkept
  · cases hpc.symm.trans (h.unborn w hle)
  · rcases hengaged with hbusy | hset
    · cases hfree.1.symm.trans hbusy
    · exact absurd hset hfree.2
  · exact hfresh.elim (by rintro ⟨⟩) (by rintro ⟨⟩)

/-- A worker calls what `switch (auto_dequeue)` chose. -/
theorem Kept.loads (h : Kept s g) {w : Nat} {ok : Bool} (hpc : (s.workers w).pc = .load)
    (hstep : Threads.workerStep s w ok = some t) : Kept t (Function.update g w none) := by
  have hrest : resting (s.workers w).pc = false := by
    rw [hpc]
    rfl
  rw [Threads.workerStep, hpc] at hstep
  dsimp only at hstep
  split at hstep
  · obtain rfl := Option.some.inj hstep
    exact h.works rfl rfl (mainStays_of rfl rfl) hrest rfl rfl (by rintro ⟨⟩)
  · obtain rfl := Option.some.inj hstep
    exact h.works rfl rfl (mainStays_of rfl rfl) hrest rfl rfl (by rintro ⟨⟩)
  · split_ifs at hstep
    · obtain rfl := Option.some.inj hstep
      exact h.works rfl rfl (mainStays_of rfl rfl) hrest rfl rfl (by rintro ⟨⟩)
    · obtain rfl := Option.some.inj hstep
      exact h.works rfl rfl (mainStays_of rfl rfl) hrest rfl rfl (by rintro ⟨⟩)

/-- The places behind the call of a handler. -/
def behindCall : WorkerPc → Bool
  | .exec _ | .account | .raise | .signal | .release | .dequeueConn | .dequeueEpoll | .clear => true
  | _ => false

/-- Behind its call a worker neither rests nor has work to come. -/
theorem behindCall_past {x : Worker} (h : behindCall x.pc = true) :
    resting x.pc = false ∧ awaits x = false := by
  rw [awaits]
  cases hpc : x.pc with
  | exec _ | account | raise | signal | release | dequeueConn | dequeueEpoll | clear =>
      exact ⟨rfl, rfl⟩
  | _ =>
      rw [hpc] at h
      cases h

/-- A worker clears its bit. -/
theorem Kept.clears (h : Kept s g) {w : Nat} (hpc : (s.workers w).pc = .clear)
    (hcalled : awaits (s.workers w) = false) :
    Kept (s.setWorker w { s.workers w with busy := false, pc := .test }) g := by
  have hauto := (h.worker w).auto (by rw [hpc]; rfl)
  have hnot := h.setsNot (h.busy (by rw [hpc]; rfl))
  have hkept := h.change
    (t := s.setWorker w { s.workers w with busy := false, pc := .test })
    (p := none) rfl (fun _ _ => Iff.rfl) (Nat.le_refl _) (fun hle => ?_)
    ⟨h.main.created, h.main.born, h.main.workspace⟩
    ⟨fun _ => rfl, fun _ => hauto, fun _ hengaged => ?_, by rintro _ ⟨⟩, fun hfresh => ?_⟩
    (h.dispatcher.keep (update_busy rfl fun _ => rfl))
  · rw [← h.called hcalled, Function.update_eq_self] at hkept
    exact hkept
  · cases hpc.symm.trans (h.unborn w hle)
  · exact absurd hengaged (not_or.mpr ⟨by rintro ⟨⟩, hnot⟩)
  · exact hfresh.elim (by rintro ⟨⟩) (by rintro ⟨⟩)

/-- A worker goes on behind the call of its handler. -/
theorem Kept.passes (h : Kept s g) {w : Nat} {ok : Bool}
    (hbehind : behindCall (s.workers w).pc = true)
    (hstep : Threads.workerStep s w ok = some t) : Kept t g := by
  obtain ⟨hrest, hcalled⟩ := behindCall_past hbehind
  rw [Threads.workerStep] at hstep
  cases hpc : (s.workers w).pc with
  | exec d =>
      rw [hpc] at hstep
      dsimp only at hstep
      cases hname : (s.workers w).connIndex with
      | some i =>
          rw [hname] at hstep
          obtain rfl := Option.some.inj hstep
          -- a handler writes its own slot and the descriptors, never a worker or the main thread
          obtain ⟨-, hworkers, hspace, hmain, -, hdisp, -, -⟩ := handlerReturn_frame s d i ok
          refine h.goesOn (y := { s.workers w with pc := .account }) ?_ hdisp
            (mainStays_of hmain hspace) hrest hcalled rfl rfl (by rintro ⟨⟩)
          rw [← hworkers]
          rfl
      | none =>
          rw [hname] at hstep
          obtain rfl := Option.some.inj hstep
          exact h.goesOn rfl rfl (mainStays_of rfl rfl) hrest hcalled rfl rfl (by rintro ⟨⟩)
  | account =>
      rw [hpc] at hstep
      dsimp only at hstep
      split_ifs at hstep
      · cases hname : (s.workers w).connIndex with
        | some i =>
            rw [hname] at hstep
            dsimp only at hstep
            split_ifs at hstep
            · obtain rfl := Option.some.inj hstep
              exact h.goesOn (y := { s.workers w with pc := .raise }) rfl rfl
                (mainStays_of rfl rfl) hrest hcalled rfl rfl (by rintro ⟨⟩)
            · obtain rfl := Option.some.inj hstep
              exact h.goesOn rfl rfl (mainStays_of rfl rfl) hrest hcalled rfl rfl (by rintro ⟨⟩)
        | none =>
            rw [hname] at hstep
            obtain rfl := Option.some.inj hstep
            exact h.goesOn rfl rfl (mainStays_of rfl rfl) hrest hcalled rfl rfl (by rintro ⟨⟩)
      · obtain rfl := Option.some.inj hstep
        exact h.goesOn rfl rfl (mainStays_of rfl rfl) hrest hcalled rfl rfl (by rintro ⟨⟩)
  | raise =>
      rw [hpc] at hstep
      obtain rfl := Option.some.inj hstep
      exact h.goesOn (y := { s.workers w with pc := .signal }) rfl rfl
        (mainStays_of rfl rfl) hrest hcalled rfl rfl (by rintro ⟨⟩)
  | signal =>
      rw [hpc] at hstep
      obtain rfl := Option.some.inj hstep
      obtain ⟨hworkers, -, -, -, hdisp⟩ := wakeMain_frame s
      have hstays := mainStays_wakeMain s
      refine h.goesOn (y := { s.workers w with pc := .release }) ?_ hdisp
        ⟨hstays.born, hstays.created, hstays.workspace⟩ hrest hcalled rfl rfl (by rintro ⟨⟩)
      rw [State.workerGoto, hworkers]
      exact congrArg (fun f => Function.update f w _) hworkers
  | release =>
      rw [hpc] at hstep
      obtain rfl := Option.some.inj hstep
      exact h.goesOn rfl rfl (mainStays_of rfl rfl) hrest hcalled rfl rfl fun _ => rfl
  | dequeueConn =>
      -- an empty queue leaves the worker with the entry it had
      have hauto := (h.worker w).auto (by rw [hpc]; rfl)
      rw [hpc] at hstep
      dsimp only at hstep
      split_ifs at hstep
      · obtain rfl := Option.some.inj hstep
        rw [takeConn]
        dsimp only
        split_ifs
        · exact h.goesOn (y := { s.workers w with pc := .fault }) rfl rfl
            (mainStays_of rfl rfl) hrest hcalled rfl rfl (by rintro ⟨⟩)
        · exact h.goesOn rfl rfl (mainStays_of rfl rfl) hrest hcalled rfl rfl (by rintro ⟨⟩)
      · obtain rfl := Option.some.inj hstep
        exact h.goesOn rfl rfl (mainStays_of rfl rfl) hrest hcalled rfl rfl fun _ => hauto
  | dequeueEpoll =>
      have hauto := (h.worker w).auto (by rw [hpc]; rfl)
      rw [hpc] at hstep
      dsimp only at hstep
      split_ifs at hstep
      · obtain rfl := Option.some.inj hstep
        unfold takeEpoll
        dsimp only
        cases s.lookup (s.epollQueue.head epollEventQueueMax) with
        | some i =>
            exact h.goesOn rfl rfl (mainStays_of rfl rfl) hrest hcalled rfl rfl (by rintro ⟨⟩)
        | none =>
            exact h.goesOn (y := { s.workers w with pc := .clear }) rfl rfl
              (mainStays_of rfl rfl) hrest hcalled rfl rfl fun _ => hauto
      · obtain rfl := Option.some.inj hstep
        exact h.goesOn rfl rfl (mainStays_of rfl rfl) hrest hcalled rfl rfl fun _ => hauto
  | clear =>
      rw [hpc] at hstep
      obtain rfl := Option.some.inj hstep
      exact h.clears hpc hcalled
  -- every other place is before the call
  | _ =>
      rw [hpc] at hbehind
      cases hbehind

/-- A worker takes up what it was assigned, or goes on. -/
theorem Kept.workerStep (h : Kept s g) {w : Nat} {ok : Bool}
    (hfree : startsFree (s, g) (.worker w ok) = true)
    (hstep : Threads.workerStep s w ok = some t) : Kept t (g.note s (.worker w ok)) := by
  cases hpc : (s.workers w).pc with
  | load =>
      have hnote : g.note s (.worker w ok) = Function.update g w none := if_pos hpc
      rw [hnote]
      exact h.loads hpc hstep
  | unborn | waiting | fault =>
      rw [Threads.workerStep, hpc] at hstep
      cases hstep
  | start =>
      rw [note_worker (by rw [hpc]; rintro ⟨⟩)]
      rw [Threads.workerStep, hpc] at hstep
      obtain rfl := Option.some.inj hstep
      exact h.starts hpc (of_decide_eq_true hfree hpc)
  | test =>
      rw [note_worker (by rw [hpc]; rintro ⟨⟩)]
      rw [Threads.workerStep, hpc] at hstep
      dsimp only at hstep
      split_ifs at hstep with hbusy
      · obtain rfl := Option.some.inj hstep
        exact h.dozes rfl rfl (mainStays_of rfl rfl) (by rw [hpc]; rfl) (by rw [hpc]; rintro ⟨⟩)
          (Or.inr ⟨rfl, hbusy⟩)
      · obtain rfl := Option.some.inj hstep
        exact h.dozes rfl rfl (mainStays_of rfl rfl) (by rw [hpc]; rfl) (by rw [hpc]; rintro ⟨⟩)
          (Or.inl ⟨rfl, by rintro ⟨⟩, by rintro ⟨⟩⟩)
  | toWait =>
      rw [note_worker (by rw [hpc]; rintro ⟨⟩)]
      rw [Threads.workerStep, hpc] at hstep
      obtain rfl := Option.some.inj hstep
      exact h.dozes rfl rfl (mainStays_of rfl rfl) (by rw [hpc]; rfl) (by rw [hpc]; rintro ⟨⟩)
        (Or.inl ⟨rfl, by rintro ⟨⟩, by rintro ⟨⟩⟩)
  | exec _ | account | raise | signal | release | dequeueConn | dequeueEpoll | clear =>
      rw [note_worker (by rw [hpc]; rintro ⟨⟩)]
      exact h.passes (by rw [hpc]; rfl) hstep

/-! ### The main thread -/

/-- The main thread assigns nothing. -/
theorem Kept.mainStep (h : Kept s g) (hstep : Threads.mainStep s = some t) : Kept t g := by
  have hdisp := h.dispatcher
  rw [Threads.mainStep] at hstep
  cases hm : s.main with
  | createPatcher =>
      rw [hm] at hstep
      obtain rfl := Option.some.inj hstep
      have hd := h.main.created hm
      exact h.still rfl (fun v => ⟨by rintro ⟨⟩, fun hset => by cases hd.symm.trans hset⟩)
        (by rw [hm]; exact Nat.le_refl 0) ⟨by rintro ⟨⟩, Nat.zero_le _, h.main.workspace⟩ trivial
  | workspaceInit =>
      rw [hm] at hstep
      obtain rfl := Option.some.inj hstep
      exact h.still rfl (fun _ => Iff.rfl) (by rw [hm]; exact Nat.le_refl 0)
        ⟨by rintro ⟨⟩, Nat.zero_le _, Nat.le_refl _⟩ hdisp
  | spawn i =>
      rw [hm] at hstep
      dsimp only at hstep
      split_ifs at hstep with hmore
      · -- a worker is created
        obtain rfl := Option.some.inj hstep
        have hunborn := h.unborn i (by rw [hm]; exact Nat.le_refl i)
        have hold := h.worker i
        have hawaits : awaits (s.workers i) = true := by
          rw [awaits, hunborn]
          rfl
        have hkept := h.change (w := i) (y := { s.workers i with pc := .start }) (p := g i)
          (t := { s.workerGoto i .start with main := .spawn (i + 1) }) rfl (fun _ _ => Iff.rfl)
          (by rw [hm]; exact Nat.le_succ i) (fun hle => absurd hle (Nat.not_succ_le_self i))
          ⟨by rintro ⟨⟩, Nat.le_trans hmore h.main.workspace, h.main.workspace⟩
          ⟨fun _ => rfl, fun _ => hold.auto (by rw [hunborn]; rfl), fun _ => hold.given hawaits,
            fun a ha => ⟨(hold.kept a ha).1, (hold.kept a ha).2.1, rfl, (hold.kept a ha).2.2.2⟩,
            fun _ => hold.fresh (Or.inl hunborn)⟩
          (hdisp.keep (update_busy rfl id))
        rw [Function.update_eq_self] at hkept
        exact hkept
      · obtain rfl := Option.some.inj hstep
        exact h.still rfl (fun _ => Iff.rfl) h.main.born
          ⟨by rintro ⟨⟩, Nat.le_refl _, h.main.workspace⟩ hdisp
  | test =>
      rw [hm] at hstep
      obtain rfl := Option.some.inj hstep
      have hpast : spawned (if s.continueInput = true then MainPc.past else MainPc.toWait)
          = defaultWorkerCount ∧
          (if s.continueInput = true then MainPc.past else MainPc.toWait) ≠ .createPatcher := by
        split_ifs <;> exact ⟨rfl, by rintro ⟨⟩⟩
      exact h.still rfl (fun _ => Iff.rfl) (by rw [hm, hpast.1]; exact Nat.le_refl _)
        ⟨fun hc => absurd hc hpast.2, Nat.le_of_eq hpast.1, h.main.workspace⟩ hdisp
  | toWait =>
      rw [hm] at hstep
      obtain rfl := Option.some.inj hstep
      exact h.still rfl (fun _ => Iff.rfl) (by rw [hm]; exact Nat.le_refl _)
        ⟨by rintro ⟨⟩, Nat.le_refl _, h.main.workspace⟩ hdisp
  | input | waiting | past =>
      rw [hm] at hstep
      cases hstep

/-! ### The dispatcher -/

/-- The dispatcher has been created, and is not about to set a busy bit. -/
def underway : DispatcherPc → Bool
  | .unborn | .setBusy _ => false
  | _ => true

/-- It is about to store what a worker has to call. -/
def storing : DispatcherPc → Bool
  | .assign _ | .store _ _ => true
  | _ => false

theorem underway_ne {d : DispatcherPc} (h : underway d = true) :
    (∀ v, d ≠ .setBusy v) ∧ d ≠ .unborn := by
  constructor
  · rintro v rfl
    cases h
  · rintro rfl
    cases h

/-- The dispatcher goes on, about to set no busy bit before and after. -/
theorem Kept.goes (h : Kept s g) (hw : t.workers = s.workers) (hmain : MainStays s t)
    (hfrom : underway s.dispatcher = true) (hto : setting t.dispatcher = false)
    (hdisp : DispatcherOk t t.dispatcher) : Kept t g := by
  obtain ⟨hset, hborn⟩ := underway_ne hfrom
  exact h.still hw
    (fun v => ⟨fun hv => absurd hv (not_setting hto v), fun hv => absurd hv (hset v)⟩)
    (Nat.le_of_eq hmain.born.symm)
    (hmain.ok h.main fun hc => absurd (h.main.created hc) hborn) hdisp

/-- A signal changes no assignment. -/
theorem Kept.wake (h : Kept s g) (w : Nat) : Kept (s.wake w) g := by
  rcases wake_eq s w with ⟨-, heq⟩ | ⟨hpc, heq⟩
  · rw [heq]
    exact h
  · rw [heq]
    exact h.dozes rfl rfl (mainStays_of rfl rfl) (by rw [hpc]; rfl) (by rw [hpc]; rintro ⟨⟩)
      (Or.inl ⟨rfl, by rintro ⟨⟩, by rintro ⟨⟩⟩)

/-- A signal for a worker leaves the dispatcher and the main thread alone. -/
theorem wake_frame (s : State) (w : Nat) :
    (s.wake w).dispatcher = s.dispatcher ∧ (s.wake w).main = s.main := by
  rw [State.wake]
  split_ifs <;> exact ⟨rfl, rfl⟩

/-- Nor does a signal for the main thread. -/
theorem Kept.wakeMain (h : Kept s g) : Kept s.wakeMain g := by
  obtain ⟨hworkers, -, -, -, hdisp⟩ := wakeMain_frame s
  refine h.still hworkers (fun v => by rw [hdisp]) (Nat.le_of_eq (wakeMain_spawned s).symm) ?_ ?_
  · exact (mainStays_wakeMain s).ok h.main fun hc => hdisp.trans (h.main.created hc)
  · rw [hdisp]
    exact h.dispatcher.keep fun v hv => by rw [hworkers]; exact hv

/-- Nor does the end of a line. -/
theorem Kept.endLine (h : Kept s g) (hfrom : underway s.dispatcher = true) :
    Kept (endLine s) g := by
  rw [Threads.endLine]
  split_ifs with hm
  · have hset := (underway_ne hfrom).1
    refine h.still rfl (fun v => ⟨by rintro ⟨⟩, fun hv => absurd hv (hset v)⟩) ?_
      ⟨fun _ => rfl, Nat.zero_le _, h.main.workspace⟩ trivial
    rw [hm]
    exact Nat.le_refl 0
  · exact h.goes rfl (mainStays_of rfl rfl) hfrom rfl trivial

/-- Where the dispatcher stores nothing. -/
theorem note_dispatcher {b : Bool} {d : DispatcherPc} (hd : s.dispatcher = d)
    (hstoring : storing d = false) : g.note s (.dispatcher b) = g := by
  have hnone : stores s = none := by
    rw [stores, hd]
    cases d with
    | assign _ | store _ _ => cases hstoring
    | _ => rfl
  rw [Pending.note, hnone]

/-- What the dispatcher stores is what it assigns. -/
theorem note_stores {b : Bool} {w : Nat} {a : Assigned} (h : stores s = some (w, a)) :
    g.note s (.dispatcher b) = Function.update g w (some a) := by
  rw [Pending.note, h]

/-- **A HANDLER AND A CONNECTION ARE STORED** for a worker whose busy bit is clear. -/
theorem Kept.stored (h : Kept s g) {w : Nat} {a : Assigned} {y : Worker}
    (hw : t.workers = Function.update s.workers w y) (hmain : MainStays s t)
    (hidle : (s.workers w).busy = false)
    (hset : ∀ v, v ≠ w → (t.dispatcher = .setBusy v ↔ s.dispatcher = .setBusy v))
    (hborn : s.dispatcher ≠ .unborn) (hpc : y.pc = (s.workers w).pc)
    (hauto : y.auto = (s.workers w).auto)
    (hy : y.process = some a.process ∧ y.connIndex = a.connIndex)
    (hengaged : engagedBy t.dispatcher w y)
    (hfresh : (s.workers w).connIndex ≠ none → y.connIndex ≠ none)
    (hdisp : DispatcherOk t t.dispatcher) : Kept t (Function.update g w (some a)) := by
  have hold := h.worker w
  have hrest : resting y.pc = true := hpc ▸ hold.idle hidle
  refine h.change hw hset (Nat.le_of_eq hmain.born.symm)
    (fun hle => hpc.trans (h.unborn w (hmain.born ▸ hle)))
    (hmain.ok h.main fun hc => absurd (h.main.created hc) hborn)
    ⟨fun _ => hrest, fun hat => ?_, fun _ _ => by rintro ⟨⟩, fun b hb => ?_, fun hpcs => ?_⟩ hdisp
  · exact hauto.trans (hold.auto (hpc ▸ hat))
  · obtain rfl := Option.some.inj hb
    refine ⟨hy.1, hy.2, ?_, hengaged⟩
    rw [awaits, hrest]
    rfl
  · exact hfresh (hold.fresh (hpc ▸ hpcs))

/-- A command is assigned to a worker that was found idle. -/
theorem Kept.commandStep (h : Kept s g) {b : Bool} {d : DispatcherPc} (hd : s.dispatcher = d)
    (hstep : Threads.commandStep b s d = some t) : Kept t (g.note s (.dispatcher b)) := by
  have hgo : ∀ u : State, underway d = true → u.workers = s.workers → MainStays s u →
      setting u.dispatcher = false → DispatcherOk u u.dispatcher → Kept u g :=
    fun u hfrom hw hmain hto hdisp => h.goes hw hmain (by rw [hd]; exact hfrom) hto hdisp
  cases d with
  | slot _ _ _ | slotWorkers _ _ _ _ | slotQueue _ _ _ | epollAdd _ =>
      rw [note_dispatcher hd rfl]
      rw [Threads.commandStep] at hstep
      split_ifs at hstep <;>
      · obtain rfl := Option.some.inj hstep
        exact hgo _ rfl rfl (mainStays_of rfl rfl) rfl trivial
  | install _ _ _ | count _ | connEnqueue _ =>
      rw [note_dispatcher hd rfl]
      obtain rfl := Option.some.inj hstep
      exact hgo _ rfl rfl (mainStays_of rfl rfl) rfl trivial
  | assign cev =>
      rw [Threads.commandStep] at hstep
      cases hidle : s.idleWorker with
      | some w =>
          rw [hidle] at hstep
          obtain rfl := Option.some.inj hstep
          have hstores : stores s
              = some (w, { process := .httpRequest, connIndex := some cev.connIndex }) := by
            rw [stores, hd]
            dsimp only
            rw [hidle]
            rfl
          rw [note_stores hstores]
          refine h.stored (a := { process := .httpRequest, connIndex := some cev.connIndex }) rfl
            (mainStays_of rfl rfl) (idleWorker_idle hidle).1
            (fun v _ => ⟨by rintro ⟨⟩, fun hset => ?_⟩)
            (by rw [hd]; rintro ⟨⟩) rfl rfl ⟨rfl, rfl⟩ (Or.inl rfl) (fun _ => by rintro ⟨⟩) trivial
          cases hd.symm.trans hset
      | none =>
          rw [hidle] at hstep
          obtain rfl := Option.some.inj hstep
          have hstores : stores s = none := by
            rw [stores, hd]
            dsimp only
            rw [hidle]
            rfl
          rw [Pending.note, hstores]
          exact hgo _ rfl rfl (mainStays_of rfl rfl) rfl trivial
  | connSignal w =>
      rw [note_dispatcher hd rfl]
      obtain rfl := Option.some.inj hstep
      obtain ⟨hdisp, -⟩ := wake_frame s w
      exact (h.wake w).goes rfl (mainStays_of rfl rfl) (by rw [hdisp, hd]; rfl) rfl trivial
  | _ => cases hstep

/-- So is an event. -/
theorem Kept.patcherStep (h : Kept s g) {b : Bool} {d : DispatcherPc} (hd : s.dispatcher = d)
    (hstep : Threads.patcherStep s d = some t) : Kept t (g.note s (.dispatcher b)) := by
  have hok := h.dispatcher
  rw [hd] at hok
  have hgo : ∀ u : State, underway d = true → u.workers = s.workers → MainStays s u →
      setting u.dispatcher = false → DispatcherOk u u.dispatcher → Kept u g :=
    fun u hfrom hw hmain hto hdisp => h.goes hw hmain (by rw [hd]; exact hfrom) hto hdisp
  cases d with
  | quitSignal =>
      rw [note_dispatcher hd rfl]
      obtain rfl := Option.some.inj hstep
      obtain ⟨-, -, -, -, hdisp⟩ := wakeMain_frame s
      exact h.wakeMain.endLine (by rw [hdisp, hd]; rfl)
  | next =>
      rw [note_dispatcher hd rfl]
      rw [Threads.patcherStep] at hstep
      cases hevents : s.events with
      | nil =>
          rw [hevents] at hstep
          obtain rfl := Option.some.inj hstep
          exact hgo _ rfl rfl (mainStays_of rfl rfl) rfl trivial
      | cons fd rest =>
          rw [hevents] at hstep
          dsimp only at hstep
          split_ifs at hstep <;>
          · obtain rfl := Option.some.inj hstep
            exact hgo _ rfl rfl (mainStays_of rfl rfl) rfl trivial
  | scan _ _ | queueScan _ =>
      rw [note_dispatcher hd rfl]
      rw [Threads.patcherStep] at hstep
      split_ifs at hstep <;>
      · obtain rfl := Option.some.inj hstep
        exact hgo _ rfl rfl (mainStays_of rfl rfl) rfl trivial
  | idleCheck fd =>
      rw [note_dispatcher hd rfl]
      rw [Threads.patcherStep] at hstep
      cases hidle : s.idleWorker with
      | some w =>
          rw [hidle] at hstep
          obtain rfl := Option.some.inj hstep
          exact hgo _ rfl rfl (mainStays_of rfl rfl) rfl (idleWorker_idle hidle).1
      | none =>
          rw [hidle] at hstep
          obtain rfl := Option.some.inj hstep
          exact hgo _ rfl rfl (mainStays_of rfl rfl) rfl trivial
  | store fd w =>
      rw [Threads.patcherStep] at hstep
      generalize hc : s.lookup fd = c at hstep
      obtain rfl := Option.some.inj hstep
      have hstores : stores s = some (w,
          { process := .httpResponse, connIndex := c.or (s.workers w).connIndex }) := by
        rw [stores, hd, ← hc]
      have hindex : c.or (s.workers w).connIndex = none → (s.workers w).connIndex = none :=
        fun hnone => (Option.or_eq_none_iff.mp hnone).2
      rw [note_stores hstores]
      refine h.stored rfl (mainStays_of rfl rfl) hok (fun v hv => ⟨fun hset => ?_, fun hset => ?_⟩)
        (by rw [hd]; rintro ⟨⟩) rfl rfl ⟨rfl, rfl⟩ (Or.inr rfl)
        (fun hold hnone => hold (hindex hnone)) ?_
      · exact absurd (DispatcherPc.setBusy.inj hset).symm hv
      · cases hd.symm.trans hset
      · show (Function.update s.workers w _ w).busy = false
        rw [Function.update_self]
        exact hok
  | setBusy w =>
      -- what is set waits there already
      rw [note_dispatcher hd rfl]
      obtain rfl := Option.some.inj hstep
      have hold := h.worker w
      have hawaits : awaits (s.workers w) = true := by
        rw [awaits, hold.idle hok]
        rfl
      have hkept := h.change (w := w) (y := { s.workers w with busy := true }) (p := g w)
        (t := (s.setWorker w { s.workers w with busy := true }).goto (.signal w)) rfl
        (fun v hv => ⟨by rintro ⟨⟩, fun hset => ?_⟩) (Nat.le_refl _) (fun hle => h.unborn w hle)
        ⟨fun hc => ?_, h.main.born, h.main.workspace⟩
        ⟨by rintro ⟨⟩, hold.auto, fun _ _ => hold.given hawaits (Or.inr hd), fun a ha => ?_,
         hold.fresh⟩
        trivial
      · rw [Function.update_eq_self] at hkept
        exact hkept
      · exact absurd (DispatcherPc.setBusy.inj (hd.symm.trans hset)).symm hv
      · cases hd.symm.trans (h.main.created hc)
      · obtain ⟨hprocess, hindex, -, -⟩ := hold.kept a ha
        exact ⟨hprocess, hindex, hawaits, Or.inl rfl⟩
  | signal w =>
      rw [note_dispatcher hd rfl]
      obtain rfl := Option.some.inj hstep
      obtain ⟨hdisp, -⟩ := wake_frame s w
      exact (h.wake w).goes rfl (mainStays_of rfl rfl) (by rw [hdisp, hd]; rfl) rfl trivial
  | enqueue fd =>
      rw [note_dispatcher hd rfl]
      obtain rfl := Option.some.inj hstep
      exact hgo _ rfl rfl (mainStays_of rfl rfl) rfl trivial
  | _ => cases hstep

/-! ## Runs -/

/-- Every step keeps the assignments, if a worker starts with none. -/
theorem Kept.act (h : Kept s g) {a : Act} (hfree : startsFree (s, g) a = true)
    (hstep : Threads.step s a = some t) : Kept t (g.note s a) := by
  cases a with
  | main => exact h.mainStep hstep
  | command m fd =>
      rw [Threads.step] at hstep
      split_ifs at hstep with hcan
      obtain rfl := Option.some.inj hstep
      refine h.goes rfl (mainStays_of rfl rfl) ?_ rfl trivial
      rcases hcan.1 with hline | hinput
      · rw [hline]
        rfl
      · rw [hinput]
        rfl
  | quit =>
      rw [Threads.step] at hstep
      split_ifs at hstep with hline
      obtain rfl := Option.some.inj hstep
      exact h.goes rfl (mainStays_of rfl rfl) (by rw [hline]; rfl) rfl trivial
  | endInput =>
      rw [Threads.step] at hstep
      split_ifs at hstep with hline
      obtain rfl := Option.some.inj hstep
      refine h.endLine ?_
      rcases hline with hline | hinput
      · rw [hline]
        rfl
      · rw [hinput]
        rfl
  | fetch fds =>
      rw [Threads.step] at hstep
      split_ifs at hstep with hwait
      obtain rfl := Option.some.inj hstep
      exact h.goes rfl (mainStays_of rfl rfl) (by rw [hwait.1]; rfl) rfl trivial
  | dispatcher b =>
      rw [Threads.step] at hstep
      cases hcommand : Threads.commandStep b s s.dispatcher with
      | some u =>
          rw [hcommand] at hstep
          exact h.commandStep rfl (Option.some.inj hstep ▸ hcommand)
      | none =>
          rw [hcommand] at hstep
          exact h.patcherStep rfl hstep
  | worker w ok =>
      rw [Threads.step] at hstep
      split_ifs at hstep
      exact h.workerStep hfree hstep

/-- Who calls a handler has taken up what it was assigned. -/
theorem Kept.honoured (h : Kept s g) : Honoured (s, g) := by
  refine ⟨fun w a hstores => ?_, fun w a ha => ?_, fun w hpc hauto => ?_⟩
  · -- the busy bit is clear, and the dispatcher is not about to set it
    have hidle : (s.workers w).busy = false ∧ s.dispatcher ≠ .setBusy w := by
      have hdisp := h.dispatcher
      change stores s = _ at hstores
      rw [stores] at hstores
      cases hd : s.dispatcher with
      | assign cev =>
          rw [hd] at hstores
          obtain ⟨v, hv, heq⟩ := Option.map_eq_some_iff.mp hstores
          obtain ⟨rfl, -⟩ := Prod.mk.inj heq
          exact ⟨(idleWorker_idle hv).1, by rintro ⟨⟩⟩
      | store fd v =>
          rw [hd] at hstores hdisp
          obtain ⟨rfl, -⟩ := Prod.mk.inj (Option.some.inj hstores)
          exact ⟨hdisp, by rintro ⟨⟩⟩
      | _ =>
          rw [hd] at hstores
          cases hstores
    refine ⟨hidle.1, ?_⟩
    show g w = none
    cases hg : g w with
    | none => rfl
    | some b =>
        rcases ((h.worker w).kept b hg).2.2.2 with hbusy | hset
        · cases hidle.1.symm.trans hbusy
        · exact absurd hset hidle.2
  · exact ⟨((h.worker w).kept a ha).1, ((h.worker w).kept a ha).2.1⟩
  · have hawaits : awaits (s.workers w) = true := by
      rw [awaits, decide_eq_true ⟨hpc, hauto⟩, Bool.or_true]
    have hbusy : (s.workers w).busy = true :=
      h.busy (by rw [show (s.workers w).pc = _ from hpc]; rfl)
    obtain ⟨a, ha⟩ := Option.ne_none_iff_exists'.mp ((h.worker w).given hawaits (Or.inl hbusy))
    obtain ⟨hprocess, hindex, -, -⟩ := (h.worker w).kept a ha
    refine ⟨a, ha, ?_, ?_⟩
    · show (s.workers w).due = _
      rw [Worker.due, show (s.workers w).auto = _ from hauto]
      exact hprocess
    · show s.dueConn (s.workers w) = _
      rw [State.dueConn, show (s.workers w).auto = _ from hauto]
      exact hindex

/-- **A WORKER THAT STARTS UP OVERWRITES** the assignment that waits for it. -/
theorem Kept.overwritten (h : Kept s g) {a : Act} (hfree : startsFree (s, g) a = false)
    (hstep : Threads.step s a = some t) : ¬ Honoured (t, g.note s a) := by
  cases a with
  | worker w ok =>
      obtain ⟨hpc, hengaged⟩ := Classical.not_imp.mp (of_decide_eq_false hfree)
      have hpc' : (s.workers w).pc = .start := hpc
      have hset : engagedBy s.dispatcher w (s.workers w) := by
        rw [engagedBy]
        rcases not_and_or.mp hengaged with hbusy | hset
        · exact Or.inl (Bool.not_eq_false _ ▸ hbusy)
        · exact Or.inr (not_not.mp hset)
      have hold := h.worker w
      obtain ⟨b, hb⟩ := Option.ne_none_iff_exists'.mp
        (hold.given (by rw [awaits, hpc']; rfl) hset)
      rw [Threads.step] at hstep
      split_ifs at hstep
      rw [Threads.workerStep, hpc'] at hstep
      obtain rfl := Option.some.inj hstep
      rw [note_worker (by rw [hpc']; rintro ⟨⟩)]
      intro hhonoured
      have hindex := (hhonoured.waits w b hb).2
      have hgone : (Function.update s.workers w
          { s.workers w with connIndex := none, pc := .test } w).connIndex = b.connIndex := hindex
      rw [Function.update_self] at hgone
      -- what was stored names a connection
      exact hold.fresh (Or.inr hpc') ((hold.kept b hb).2.1.trans hgone.symm)
  | _ => cases hfree

end Steps

/-- In a run in which workers start with none they are kept throughout. -/
theorem guarded_kept {fixedInput : Bool} {as : List Act} {x : State × Pending}
    (hrun : (assigning.guarded startsFree).run (starting fixedInput) as = some x) :
    Kept x.1 x.2 := by
  refine Machine.invariant (fun (x : State × Pending) a y (h : Kept x.1 x.2) hstep => ?_)
    (kept_start fixedInput) hrun
  obtain ⟨hfree, htake⟩ := Machine.guarded_step.mp hstep
  obtain ⟨t, ht, rfl⟩ := Option.map_eq_some_iff.mp htake
  exact h.act hfree ht

/-- **THE ASSIGNMENTS ARE HONOURED ALL ALONG A RUN** exactly if no worker starts up with
    one waiting. -/
theorem honoured_iff {fixedInput : Bool} {as : List Act} {x : State × Pending}
    (hrun : assigning.run (starting fixedInput) as = some x) :
    (∀ bs, bs <+: as → ∀ y, assigning.run (starting fixedInput) bs = some y → Honoured y) ↔
      (assigning.guarded startsFree).run (starting fixedInput) as = some x := by
  refine Machine.exact_condition (fun bs y hy => (guarded_kept hy).honoured)
    (fun bs y a z hy hfree hstep => ?_) hrun
  obtain ⟨t, ht, rfl⟩ := Option.map_eq_some_iff.mp hstep
  exact (guarded_kept hy).overwritten hfree ht

/-- A command comes when all workers wait. -/
def lateCommand : List Act :=
  boot ++ [.fetch [0]] ++ dispatches 1 ++ [.command .get 3] ++ dispatches 16 ++ works 0 2

/-- A command that comes when the workers wait is taken up as it was given. -/
theorem honoured_lateCommand :
    ∃ x, assigning.run (starting false) lateCommand = some x ∧
      (x.1.workers 0).pc = .exec .httpRequest ∧
      ∀ bs, bs <+: lateCommand → ∀ y, assigning.run (starting false) bs = some y → Honoured y := by
  obtain ⟨x, hx, hpc⟩ := (Option.any_eq_true (fun x : State × Pending => decide
    ((x.1.workers 0).pc = .exec .httpRequest)) _).mp
    (show ((assigning.guarded startsFree).run (starting false) lateCommand).any _ = true by
      decide +kernel)
  have hrun := Machine.run_of_guarded hx
  exact ⟨x, hrun, of_decide_eq_true hpc, (honoured_iff hrun).mpr hx⟩

/-- A command comes before the first worker runs. -/
def earlyCommand : List Act :=
  List.replicate 3 .main ++ [.fetch [0]] ++ dispatches 1 ++ [.command .get 3] ++ dispatches 17 ++
    works 0 1

/-- The worker has lost its connection. -/
theorem earlyCommand_overwritten :
    ¬ ∀ fixedInput as x, assigning.run (starting fixedInput) as = some x → Honoured x := by
  intro hall
  obtain ⟨x, hx, hat⟩ := (Option.any_eq_true (fun x : State × Pending => decide
    (x.2 0 = some { process := .httpRequest, connIndex := some 1 } ∧
      (x.1.workers 0).connIndex = none)) _).mp
    (show (assigning.run (starting false) earlyCommand).any _ = true by decide +kernel)
  obtain ⟨hpending, hgone⟩ := of_decide_eq_true hat
  cases hgone.symm.trans ((hall false _ x hx).waits 0 _ hpending).2

end Assignment
