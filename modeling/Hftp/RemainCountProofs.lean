import Hftp.CommandLifeProofs

/-! # The end of a program whose input is a file

    `g_remain_count` counts the accepted commands whose connection has not
    finished or failed, and the main thread waits for `g_continue_input_flag`,
    which a worker derives from the counter.  A ledger beside the state says what
    should be counted: the commands that were accepted, the connections whose
    handler was the last, and whether `quit` was entered. -/

namespace RemainCount

open HttpCore RingBuffer Transition Threads
open CommandLife (resting lookup_sockfd idleWorker_idle)

/-! ## The ledger -/

/-- The slots of the accepted commands, those of them whose connection finished or
    failed, and `quit`.  A file is read to its end before any connection is
    served, so each of its commands has a slot of its own. -/
structure Ledger where
  accepted : List Nat
  finished : List Nat
  quit : Bool
  deriving DecidableEq, Repr

def Ledger.empty : Ledger := { accepted := [], finished := [], quit := false }

/-- What a step adds to the ledger. -/
def Ledger.note (s : State) (l : Ledger) : Act → Ledger
  | .quit => { l with quit := true }
  | .dispatcher _ =>
      match s.dispatcher with
      | .count cev => { l with accepted := cev.connIndex :: l.accepted }
      | _ => l
  | .worker w ok =>
      match (s.workers w).pc, (s.workers w).connIndex with
      | .exec h, some i => if isLast h ok then { l with finished := i :: l.finished } else l
      | _, _ => l
  | _ => l

/-- The program with its ledger. -/
def booked : Machine (State × Ledger) Act :=
  { step := fun x a => (step x.1 a).map fun t => (t, x.2.note x.1 a) }

/-- An accepted command whose connection has not finished. -/
def Ledger.isOpen (l : Ledger) (i : Nat) : Bool := l.accepted.contains i && !l.finished.contains i

/-- The connection a worker is on, from the call of a handler to the test of what
    became of it. -/
def Worker.on (x : Worker) : Option Nat :=
  match x.pc with
  | .exec _ | .account => x.connIndex
  | _ => none

/-- A worker is about to test what became of the connection. -/
def counting (s : State) (i : Nat) : Bool :=
  (List.range defaultWorkerCount).any fun w =>
    (s.workers w).pc = .account ∧ (s.workers w).connIndex = some i

/-- The accepted commands whose connection has not finished, or whose worker has yet
    to come to the counter. -/
def outstanding (s : State) (l : Ledger) : List Nat :=
  l.accepted.filter fun i => !l.finished.contains i || counting s i

/-- **THE COUNTER AND THE FLAG ARE RIGHT**: the counter is the number of outstanding
    commands, and unless `quit` was entered, the flag is set only when it is 0,
    and it is set when all accepted commands have finished and no worker is on its
    way to the counter or the flag. -/
structure Balanced (s : State) (l : Ledger) : Prop where
  count : s.remainCount = (outstanding s l).length
  early : l.quit = false → s.continueInput = true → s.remainCount = 0
  late : l.quit = false → l.accepted ≠ [] → (∀ i ∈ l.accepted, i ∈ l.finished) →
    (∀ w < defaultWorkerCount, (s.workers w).pc ≠ .account ∧ (s.workers w).pc ≠ .raise) →
    s.continueInput = true

/-! ## The condition -/

/-- No other worker is on the connection. -/
def alone (s : State) (w i : Nat) : Bool :=
  (List.range defaultWorkerCount).all fun v => decide (v = w ∨ Worker.on (s.workers v) ≠ some i)

/-- No worker comes to `if (g_remain_count) g_continue_input_flag = 1` unless `quit`
    was entered; a handler is called, and a queued connection is taken, for an
    accepted command that has not finished and that no other worker is on. -/
def orderly (x : State × Ledger) : Act → Bool
  | .worker w _ =>
      match (x.1.workers w).pc with
      | .raise => x.2.quit
      | .load => (x.1.dueConn (x.1.workers w)).all fun i => x.2.isOpen i && alone x.1 w i
      | .dequeueConn =>
          decide (x.1.connQueue.count = 0) ||
            (let i := (x.1.connQueue.head connEventQueueMax).connIndex
             x.2.isOpen i && alone x.1 w i)
      | _ => true
  | _ => true

/-! ## While the file is read -/

/-- What the main thread may count on while it reads commands. -/
def ReadOk (s : State) (l : Ledger) : DispatcherPc → Prop
  | .line | .input | .quitSignal | .assign _ | .connEnqueue _ => True
  | .slot _ fd _ => fd ≠ 0
  | .slotWorkers _ fd i _ | .slotQueue _ fd i | .install _ fd i =>
      fd ≠ 0 ∧ (s.slots i).sockfd = 0
  | .epollAdd cev | .count cev =>
      cev.sockfd ≠ 0 ∧ cev.connIndex ∉ l.accepted ∧
        (s.slots cev.connIndex).sockfd ≠ 0 ∧ (s.slots cev.connIndex).state ≠ -1
  | _ => False

/-- The file is read, and there are no other threads. -/
structure Reading (s : State) (l : Ledger) : Prop where
  main : s.main = .input
  fixed : s.fixedInput = true
  workspace : s.workspaceCount = 0
  workers : ∀ w, s.workers w = .zero
  finished : l.finished = []
  once : l.accepted.Nodup
  slots : ∀ i ∈ l.accepted, (s.slots i).sockfd ≠ 0 ∧ (s.slots i).state ≠ -1
  count : s.remainCount = l.accepted.length
  flag : l.quit = false → s.continueInput = false
  events : s.events = []
  registered : ∀ fd ∈ s.registered, fd ≠ 0
  dispatcher : ReadOk s l s.dispatcher

theorem reading_start : Reading (State.start true) .empty := by
  refine ⟨rfl, rfl, rfl, fun _ => rfl, rfl, List.nodup_nil, ?_, rfl, fun _ => rfl, rfl, ?_, trivial⟩
  · intro i hi
    cases hi
  · intro fd hfd
    cases hfd

/-! ## While connections are served -/

/-- The places of the dispatching thread behind the end of the file. -/
def PatchOk (s : State) : DispatcherPc → Prop
  | .unborn | .wait | .next | .scan _ _ | .queueScan _ | .idleCheck _ | .signal _ | .enqueue _
  | .fault => True
  | .store _ w => (s.workers w).busy = false
  | .setBusy w => (s.workers w).process ≠ none
  | _ => False

/-- A worker that leaves its loop has a handler to call, and is on an accepted
    command with it. -/
structure WorkerOk (l : Ledger) (x : Worker) : Prop where
  idle : x.busy = false → resting x.pc = true
  given : x.busy = true → x.process ≠ none
  due : x.pc = .load → x.due ≠ none
  exec : ∀ h i, x.pc = .exec h → x.connIndex = some i → i ∈ l.accepted ∧ i ∉ l.finished
  account : ∀ i, x.pc = .account → x.connIndex = some i → i ∈ l.accepted

/-- The other threads serve the connections. -/
structure Serving (s : State) (l : Ledger) : Prop where
  main : s.main ≠ .input
  fixed : s.fixedInput = true
  workspace : s.workspaceCount ≤ defaultWorkerCount
  born : spawned s.main ≤ defaultWorkerCount
  unborn : ∀ w, spawned s.main ≤ w → (s.workers w).pc = .unborn
  worker : ∀ w, WorkerOk l (s.workers w)
  alone : ∀ v < defaultWorkerCount, ∀ w < defaultWorkerCount, ∀ i,
    Worker.on (s.workers v) = some i → Worker.on (s.workers w) = some i → v = w
  once : l.accepted.Nodup
  live : ∀ i ∈ l.accepted, i ∉ l.finished → (s.slots i).sockfd ≠ 0 ∧ (s.slots i).state ≠ -1
  ended : ∀ i ∈ l.finished, (s.slots i).sockfd = 0
  count : s.remainCount = (outstanding s l).length
  flag : l.quit = false → s.continueInput = false
  stuck : l.quit = false → ∀ i ∈ l.finished, ∃ w < defaultWorkerCount,
    ((s.workers w).pc = .account ∨ (s.workers w).pc = .raise) ∧ (s.workers w).connIndex = some i
  events : ∀ fd ∈ s.events, fd ≠ 0
  registered : ∀ fd ∈ s.registered, fd ≠ 0
  dispatcher : PatchOk s s.dispatcher

/-! ## The steps that read -/

section Steps

variable {s t : State} {l : Ledger}

/-- A command is about to be counted. -/
def accepting : DispatcherPc → Bool
  | .count _ => true
  | _ => false

theorem note_dispatcher {b : Bool} {d : DispatcherPc} (hd : s.dispatcher = d)
    (hne : accepting d = false) : l.note s (.dispatcher b) = l := by
  rw [Ledger.note, hd]
  cases d with
  | count cev => cases hne
  | _ => rfl

theorem Reading.goto (h : Reading s l) {d : DispatcherPc} (hd : ReadOk s l d) :
    Reading (s.goto d) l :=
  ⟨h.main, h.fixed, h.workspace, h.workers, h.finished, h.once, h.slots, h.count, h.flag, h.events,
    h.registered, hd⟩

/-- A free slot is not that of an accepted command. -/
theorem Reading.fresh (h : Reading s l) {i : Nat} (hi : (s.slots i).sockfd = 0) :
    i ∉ l.accepted := fun hmem => (h.slots i hmem).1 hi

theorem Reading.install (h : Reading s l) {m : Method} {fd i : Nat} (hfd : fd ≠ 0)
    (hi : (s.slots i).sockfd = 0) :
    Reading ((installSlot s m fd i).goto (.epollAdd { sockfd := fd, connIndex := i })) l := by
  have hslot : (installSlot s m fd i).slots i
      = { s.slots i with state := 0, sockfd := fd, method := m, served := .none } :=
    Function.update_self _ _ _
  refine ⟨h.main, h.fixed, h.workspace, h.workers, h.finished, h.once, ?_, h.count, h.flag,
    h.events, h.registered, ⟨hfd, h.fresh hi, ?_, ?_⟩⟩
  · intro j hj
    have hne : j ≠ i := fun heq => h.fresh hi (heq ▸ hj)
    have hother : (installSlot s m fd i).slots j = s.slots j := Function.update_of_ne hne _ _
    show ((installSlot s m fd i).slots j).sockfd ≠ 0 ∧ ((installSlot s m fd i).slots j).state ≠ -1
    rw [hother]
    exact h.slots j hj
  · show ((installSlot s m fd i).slots i).sockfd ≠ 0
    rw [hslot]
    exact hfd
  · show ((installSlot s m fd i).slots i).state ≠ -1
    rw [hslot]
    show (0 : Int) ≠ -1
    decide

/-- No worker is there to take a command. -/
theorem Reading.idle (h : Reading s l) : s.idleWorker = none := by
  rw [State.idleWorker, h.workspace]
  rfl

theorem Reading.commandStep (h : Reading s l) {b : Bool} {d : DispatcherPc} (hd : s.dispatcher = d)
    (hstep : commandStep b s d = some t) : Reading t (l.note s (.dispatcher b)) := by
  have hok := h.dispatcher
  rw [hd] at hok
  cases d with
  | slot m fd i =>
      rw [note_dispatcher hd rfl]
      rw [Threads.commandStep] at hstep
      split_ifs at hstep with hbound hused
      · obtain rfl := Option.some.inj hstep
        exact h.goto hok
      · obtain rfl := Option.some.inj hstep
        exact h.goto ⟨hok, not_not.mp hused⟩
      · obtain rfl := Option.some.inj hstep
        exact h.goto trivial
  | slotWorkers m fd i j =>
      rw [note_dispatcher hd rfl]
      rw [Threads.commandStep] at hstep
      split_ifs at hstep
      · obtain rfl := Option.some.inj hstep
        exact h.goto hok.1
      · obtain rfl := Option.some.inj hstep
        exact h.goto hok
      · obtain rfl := Option.some.inj hstep
        exact h.goto hok
  | slotQueue m fd i =>
      rw [note_dispatcher hd rfl]
      rw [Threads.commandStep] at hstep
      split_ifs at hstep
      · obtain rfl := Option.some.inj hstep
        exact h.goto hok.1
      · obtain rfl := Option.some.inj hstep
        exact h.goto hok
  | install m fd i =>
      rw [note_dispatcher hd rfl]
      obtain rfl := Option.some.inj hstep
      exact h.install hok.1 hok.2
  | epollAdd cev =>
      rw [note_dispatcher hd rfl]
      rw [Threads.commandStep] at hstep
      split_ifs at hstep
      · obtain rfl := Option.some.inj hstep
        refine ⟨h.main, h.fixed, h.workspace, h.workers, h.finished, h.once, h.slots, h.count,
          h.flag, h.events, ?_, hok⟩
        intro fd hfd
        rcases List.mem_cons.mp hfd with rfl | hold
        · exact hok.1
        · exact h.registered fd hold
      · obtain rfl := Option.some.inj hstep
        exact h.goto trivial
  | count cev =>
      -- the command is accepted
      obtain rfl := Option.some.inj hstep
      have hnote : l.note s (.dispatcher b)
          = { l with accepted := cev.connIndex :: l.accepted } := by
        rw [Ledger.note, hd]
      rw [hnote]
      refine ⟨h.main, h.fixed, h.workspace, h.workers, h.finished,
        List.nodup_cons.mpr ⟨hok.2.1, h.once⟩, ?_, ?_, h.flag, h.events, h.registered, trivial⟩
      · intro i hi
        rcases List.mem_cons.mp hi with rfl | hold
        · exact hok.2.2
        · exact h.slots i hold
      · show s.remainCount + 1 = ((l.accepted.length + 1 : Nat) : Int)
        rw [h.count]
        push_cast
        rfl
  | assign cev =>
      rw [note_dispatcher hd rfl]
      rw [Threads.commandStep, h.idle] at hstep
      obtain rfl := Option.some.inj hstep
      exact h.goto trivial
  | connEnqueue cev =>
      rw [note_dispatcher hd rfl]
      obtain rfl := Option.some.inj hstep
      exact ⟨h.main, h.fixed, h.workspace, h.workers, h.finished, h.once, h.slots, h.count, h.flag,
        h.events, h.registered, trivial⟩
  | connSignal w => exact hok.elim
  | _ => cases hstep

/-- No worker is on its way to the counter while the file is read. -/
theorem Reading.outstanding_eq (h : Reading s l) : outstanding s l = l.accepted := by
  rw [outstanding, h.finished]
  exact List.filter_eq_self.mpr fun i _ => rfl

/-- The end of the file, or of the line with `quit`. -/
theorem Reading.endLine (h : Reading s l) : Serving (endLine s) l := by
  have hend : Threads.endLine s = { s with main := .createPatcher }.goto .unborn := if_pos h.main
  rw [hend]
  have hzero : ∀ w, (({ s with main := .createPatcher }.goto .unborn).workers w) = .zero :=
    h.workers
  refine ⟨by rintro ⟨⟩, h.fixed, ?_, Nat.zero_le _, ?_, ?_, ?_, h.once, fun i hi _ => h.slots i hi,
    ?_, ?_, h.flag, ?_, ?_, h.registered, trivial⟩
  · show s.workspaceCount ≤ _
    rw [h.workspace]
    exact Nat.zero_le _
  · intro w _
    rw [hzero]
    rfl
  · intro w
    rw [hzero]
    exact ⟨fun _ => rfl, by rintro ⟨⟩, by rintro ⟨⟩, fun _ _ => by rintro ⟨⟩, fun _ => by rintro ⟨⟩⟩
  · intro v _ w _ i hv
    rw [hzero] at hv
    cases hv
  · intro i hi
    rw [h.finished] at hi
    cases hi
  · show s.remainCount = ((outstanding s l).length : Int)
    rw [h.outstanding_eq]
    exact h.count
  · intro _ i hi
    rw [h.finished] at hi
    cases hi
  · intro fd hfd
    have hnone : s.events = [] := h.events
    change fd ∈ s.events at hfd
    rw [hnone] at hfd
    cases hfd

/-! ## The steps that serve -/

/-- The connection whose worker is about to come to the counter. -/
def toCount (x : Worker) : Option Nat :=
  match x.pc with
  | .account => x.connIndex
  | _ => none

/-- The connection whose worker is about to come to the counter or the flag. -/
def toFlag (x : Worker) : Option Nat :=
  match x.pc with
  | .account | .raise => x.connIndex
  | _ => none

theorem toCount_some {x : Worker} {i : Nat} :
    toCount x = some i ↔ x.pc = .account ∧ x.connIndex = some i := by
  rw [toCount]
  split
  · rename_i hpc
    exact ⟨fun hi => ⟨hpc, hi⟩, fun hi => hi.2⟩
  · rename_i hpc
    exact ⟨by rintro ⟨⟩, fun hi => absurd hi.1 hpc⟩

theorem toFlag_some {x : Worker} {i : Nat} :
    toFlag x = some i ↔ (x.pc = .account ∨ x.pc = .raise) ∧ x.connIndex = some i := by
  rw [toFlag]
  split
  · rename_i hpc
    exact ⟨fun hi => ⟨Or.inl hpc, hi⟩, fun hi => hi.2⟩
  · rename_i hpc
    exact ⟨fun hi => ⟨Or.inr hpc, hi⟩, fun hi => hi.2⟩
  · rename_i hcount hraise
    exact ⟨by rintro ⟨⟩, fun hi => hi.1.elim (fun hpc => absurd hpc hcount)
      (fun hpc => absurd hpc hraise)⟩

theorem counting_iff {i : Nat} :
    counting s i = true ↔ ∃ w < defaultWorkerCount, toCount (s.workers w) = some i := by
  rw [counting, List.any_eq_true]
  simp only [List.mem_range, decide_eq_true_eq, toCount_some]

theorem toCount_on {x : Worker} {i : Nat} (h : toCount x = some i) : Worker.on x = some i := by
  obtain ⟨hpc, hi⟩ := toCount_some.mp h
  rw [Worker.on, hpc]
  exact hi

/-- A step that ends no connection, and none comes back. -/
structure Beside (l : Ledger) (s t : State) : Prop where
  main : s.main ≠ .input → t.main ≠ .input
  spawned : spawned s.main ≤ spawned t.main ∧ (spawned s.main ≤ defaultWorkerCount →
    spawned t.main ≤ defaultWorkerCount)
  fixed : t.fixedInput = s.fixedInput
  workspace : t.workspaceCount = s.workspaceCount ∨ t.workspaceCount = defaultWorkerCount
  flag : l.quit = false → t.continueInput = s.continueInput
  events : ∀ fd ∈ t.events, fd ∈ s.events ∨ fd ∈ s.registered
  registered : ∀ fd ∈ t.registered, fd ∈ s.registered
  sockfd : ∀ i ∈ l.accepted ++ l.finished, (t.slots i).sockfd = 0 ↔ (s.slots i).sockfd = 0
  state : ∀ i ∈ l.accepted, (t.slots i).state = -1 → (s.slots i).state = -1

/-- A worker becomes `y`, whose way to the counter is that of `x`. -/
structure Becomes (l : Ledger) (s : State) (w : Nat) (y : Worker) : Prop where
  ok : WorkerOk l y
  on : ∀ i, Worker.on y = some i → Worker.on (s.workers w) = some i ∨
    ∀ v < defaultWorkerCount, v ≠ w → Worker.on (s.workers v) ≠ some i
  flagged : l.quit = false → ∀ i ∈ l.finished, toFlag (s.workers w) = some i → toFlag y = some i

/-- A step that ends no connection, and leaves the counter right. -/
theorem Serving.change (h : Serving s l) {w : Nat} {y : Worker} (hb : Beside l s t)
    (hw : t.workers = Function.update s.workers w y) (hy : Becomes l s w y)
    (hcount : t.remainCount = (outstanding t l).length)
    (hborn : spawned t.main ≤ w → y.pc = .unborn) (hdisp : PatchOk t t.dispatcher) :
    Serving t l := by
  have hself : t.workers w = y := by rw [hw, Function.update_self]
  have hother : ∀ v, v ≠ w → t.workers v = s.workers v := fun v hv => by
    rw [hw, Function.update_of_ne hv]
  refine ⟨hb.main h.main, hb.fixed.trans h.fixed, ?_, hb.spawned.2 h.born, ?_, ?_, ?_, h.once, ?_,
    ?_, hcount, ?_, ?_, ?_, ?_, hdisp⟩
  · rcases hb.workspace with hsame | hall
    · rw [hsame]
      exact h.workspace
    · rw [hall]
  · intro v hv
    by_cases hvw : v = w
    · rw [hvw] at hv ⊢
      rw [hself]
      exact hborn hv
    · rw [hother v hvw]
      exact h.unborn v (Nat.le_trans hb.spawned.1 hv)
  · intro v
    by_cases hvw : v = w
    · rw [hvw, hself]
      exact hy.ok
    · rw [hother v hvw]
      exact h.worker v
  · -- two workers on one connection would have been so before
    intro u hu v hv i hui hvi
    by_cases huw : u = w
    · by_cases hvw : v = w
      · rw [huw, hvw]
      · rw [huw, hself] at hui
        rw [hother v hvw] at hvi
        rcases hy.on i hui with hold | hnone
        · rw [huw]
          exact h.alone w (huw ▸ hu) v hv i hold hvi
        · exact absurd hvi (hnone v hv hvw)
    · rw [hother u huw] at hui
      by_cases hvw : v = w
      · rw [hvw, hself] at hvi
        rcases hy.on i hvi with hold | hnone
        · rw [hvw]
          exact h.alone u hu w (hvw ▸ hv) i hui hold
        · exact absurd hui (hnone u hu huw)
      · rw [hother v hvw] at hvi
        exact h.alone u hu v hv i hui hvi
  · intro i hi hopen
    obtain ⟨hsock, hstate⟩ := h.live i hi hopen
    exact ⟨fun hz => hsock ((hb.sockfd i (List.mem_append_left _ hi)).mp hz),
      fun hs => hstate (hb.state i hi hs)⟩
  · intro i hi
    exact (hb.sockfd i (List.mem_append_right _ hi)).mpr (h.ended i hi)
  · intro hquit
    rw [hb.flag hquit]
    exact h.flag hquit
  · intro hquit i hi
    obtain ⟨v, hv, hat⟩ := h.stuck hquit i hi
    refine ⟨v, hv, ?_⟩
    by_cases hvw : v = w
    · rw [hvw] at hat ⊢
      rw [hself]
      exact toFlag_some.mp (hy.flagged hquit i hi (toFlag_some.mpr hat))
    · rw [hother v hvw]
      exact hat
  · intro fd hfd
    rcases hb.events fd hfd with hold | hreg
    · exact h.events fd hold
    · exact h.registered fd hreg
  · intro fd hfd
    exact h.registered fd (hb.registered fd hfd)

/-- The counter stays right if the way of the finished connections to it is not
    changed. -/
theorem outstanding_same {w : Nat} {y : Worker} (hw : t.workers = Function.update s.workers w y)
    (hy : ∀ i ∈ l.finished, toCount y = some i ↔ toCount (s.workers w) = some i) :
    outstanding t l = outstanding s l := by
  refine List.filter_congr fun i _ => ?_
  by_cases hi : i ∈ l.finished
  · have hsame : counting t i = counting s i := by
      rw [Bool.eq_iff_iff, counting_iff, counting_iff]
      refine exists_congr fun v => and_congr_right fun _ => ?_
      by_cases hv : v = w
      · rw [hv, hw, Function.update_self]
        exact hy i hi
      · rw [hw, Function.update_of_ne hv]
    rw [hsame]
  · have hnot : l.finished.contains i = false := by
      rw [List.contains_eq_mem, decide_eq_false hi]
    rw [hnot]
    rfl

/-- **A STEP THAT ENDS NO CONNECTION** keeps the books. -/
theorem Serving.step (h : Serving s l) {w : Nat} {y : Worker} (hb : Beside l s t)
    (hremain : t.remainCount = s.remainCount) (hw : t.workers = Function.update s.workers w y)
    (hy : Becomes l s w y)
    (hcounted : ∀ i ∈ l.finished, toCount y = some i ↔ toCount (s.workers w) = some i)
    (hborn : spawned t.main ≤ w → y.pc = .unborn) (hdisp : PatchOk t t.dispatcher) :
    Serving t l := by
  refine h.change hb hw hy ?_ hborn hdisp
  rw [hremain, h.count, outstanding_same hw hcounted]

/-- A step of which the workers take no note. -/
theorem Serving.still (h : Serving s l) (hb : Beside l s t)
    (hremain : t.remainCount = s.remainCount) (hw : t.workers = s.workers)
    (hdisp : PatchOk t t.dispatcher) : Serving t l := by
  refine h.step hb hremain (w := 0) (y := s.workers 0) ?_
    ⟨h.worker 0, fun _ hi => Or.inl hi, fun _ _ _ hi => hi⟩ (fun _ _ => Iff.rfl)
    (fun hle => h.unborn 0 (Nat.le_trans hb.spawned.1 hle)) hdisp
  rw [hw, Function.update_eq_self]

/-- A step that changes neither the slots nor the main thread. -/
theorem beside_of (hmain : t.main = s.main) (hfixed : t.fixedInput = s.fixedInput)
    (hspace : t.workspaceCount = s.workspaceCount)
    (hflag : t.continueInput = s.continueInput) (hevents : ∀ fd ∈ t.events, fd ∈ s.events)
    (hreg : t.registered = s.registered) (hslots : t.slots = s.slots) : Beside l s t := by
  refine ⟨fun hne => hmain ▸ hne, by rw [hmain]; exact ⟨Nat.le_refl _, id⟩, hfixed, Or.inl hspace,
    fun _ => hflag, fun fd hfd => Or.inl (hevents fd hfd), fun fd hfd => hreg ▸ hfd, ?_, ?_⟩
  · intro i _
    rw [hslots]
  · intro i _ hi
    rw [hslots] at hi
    exact hi

theorem toCount_flag {x : Worker} {i : Nat} (h : toCount x = some i) : toFlag x = some i := by
  obtain ⟨hpc, hname⟩ := toCount_some.mp h
  exact toFlag_some.mpr ⟨Or.inl hpc, hname⟩

/-- A worker that is on nothing becomes one that is on nothing; if it was on its way
    to the flag, then for a connection that goes on. -/
theorem Serving.off (h : Serving s l) {w : Nat} {y : Worker} (hb : Beside l s t)
    (hremain : t.remainCount = s.remainCount) (hw : t.workers = Function.update s.workers w y)
    (hok : WorkerOk l y) (hon : Worker.on y = none)
    (hfrom : ∀ i ∈ l.finished, toFlag (s.workers w) ≠ some i)
    (hborn : spawned t.main ≤ w → y.pc = .unborn) (hdisp : PatchOk t t.dispatcher) :
    Serving t l := by
  refine h.step hb hremain hw ⟨hok, fun i hi => ?_, fun _ i hmem hi => ?_⟩ (fun i hmem => ?_) hborn
    hdisp
  · rw [hon] at hi
    cases hi
  · exact absurd hi (hfrom i hmem)
  · refine ⟨fun hi => ?_, fun hi => absurd (toCount_flag hi) (hfrom i hmem)⟩
    have hy := toCount_on hi
    rw [hon] at hy
    cases hy

theorem toFlag_resting {x : Worker} (h : resting x.pc = true) (i : Nat) : toFlag x ≠ some i := by
  intro hi
  rcases (toFlag_some.mp hi).1 with hpc | hpc
  · rw [hpc] at h
    cases h
  · rw [hpc] at h
    cases h

theorem on_resting {x : Worker} (h : resting x.pc = true) : Worker.on x = none := by
  rw [Worker.on]
  cases hpc : x.pc with
  | account => rw [hpc] at h; cases h
  | exec d => rw [hpc] at h; cases h
  | _ => rfl

/-- A resting worker, whatever it was given. -/
theorem workerOk_resting {x : Worker} (h : resting x.pc = true)
    (hgiven : x.busy = true → x.process ≠ none) : WorkerOk l x := by
  refine ⟨fun _ => h, hgiven, fun hpc => ?_, fun d i hpc => ?_, fun i hpc => ?_⟩
  · rw [hpc] at h
    cases h
  · rw [hpc] at h
    cases h
  · rw [hpc] at h
    cases h

/-- What one worker keeps all keep. -/
theorem update_keep {q : Worker → Prop} {w : Nat} {y : Worker}
    (hy : q (s.workers w) → q y) (v : Nat)
    (hv : q (s.workers v)) : q (Function.update s.workers w y v) := by
  by_cases hvw : v = w
  · rw [hvw, Function.update_self]
    exact hy (hvw ▸ hv)
  · rw [Function.update_of_ne hvw]
    exact hv

/-- A step that neither takes a handler from a worker nor makes one busy. -/
theorem PatchOk.keep {d : DispatcherPc} (h : PatchOk s d)
    (hprocess : ∀ v, (s.workers v).process ≠ none → (t.workers v).process ≠ none)
    (hbusy : ∀ v, (s.workers v).busy = false → (t.workers v).busy = false) : PatchOk t d := by
  cases d with
  | store fd w => exact hbusy w h
  | setBusy w => exact hprocess w h
  | _ => exact h

/-! ### The main thread -/

theorem Serving.mainStep (h : Serving s l) (hstep : mainStep s = some t) : Serving t l := by
  have hdisp := h.dispatcher
  have hborn := h.born
  -- the main thread goes on, and nothing else happens
  have hgo : ∀ m : MainPc, m ≠ .input → spawned s.main ≤ spawned m →
      spawned m ≤ defaultWorkerCount → Beside l s { s with main := m } := fun m hm hle hmax =>
    ⟨fun _ => hm, ⟨hle, fun _ => hmax⟩, rfl, Or.inl rfl, fun _ => rfl, fun _ => Or.inl,
      fun _ hfd => hfd, fun _ _ => Iff.rfl, fun _ _ hi => hi⟩
  rw [Threads.mainStep] at hstep
  cases hm : s.main with
  | createPatcher =>
      rw [hm] at hstep
      obtain rfl := Option.some.inj hstep
      refine h.still ⟨fun _ => by rintro ⟨⟩, ⟨?_, fun _ => Nat.zero_le _⟩, rfl, Or.inl rfl,
        fun _ => rfl, fun _ => Or.inl, fun _ hfd => hfd, fun _ _ => Iff.rfl,
        fun _ _ hi => hi⟩ rfl rfl
        trivial
      rw [hm]
      exact Nat.le_refl 0
  | workspaceInit =>
      rw [hm] at hstep
      obtain rfl := Option.some.inj hstep
      refine h.still ⟨fun _ => by rintro ⟨⟩, ⟨?_, fun _ => Nat.zero_le _⟩, rfl, Or.inr rfl,
        fun _ => rfl, fun _ => Or.inl, fun _ hfd => hfd, fun _ _ => Iff.rfl,
        fun _ _ hi => hi⟩ rfl rfl
        hdisp
      rw [hm]
      exact Nat.le_refl 0
  | spawn i =>
      rw [hm] at hstep hborn
      dsimp only at hstep
      split_ifs at hstep with hlt
      · obtain rfl := Option.some.inj hstep
        have hunborn := h.unborn i (by rw [hm]; exact Nat.le_refl i)
        refine h.off (y := { s.workers i with pc := .start })
          ⟨fun _ => by rintro ⟨⟩, ⟨?_, fun _ => ?_⟩,
          rfl, Or.inl rfl, fun _ => rfl, fun _ => Or.inl, fun _ hfd => hfd, fun _ _ => Iff.rfl,
          fun _ _ hi => hi⟩ rfl rfl (workerOk_resting rfl (h.worker i).given) rfl
          (fun j _ => toFlag_resting (by rw [hunborn]; rfl) j) ?_ ?_
        · rw [hm]
          exact Nat.le_succ i
        · exact Nat.le_trans hlt h.workspace
        · intro hle
          exact absurd hle (Nat.not_succ_le_self i)
        · exact hdisp.keep (update_keep (q := fun x => x.process ≠ none) id)
            (update_keep (q := fun x => x.busy = false) id)
      · obtain rfl := Option.some.inj hstep
        exact h.still (hgo .test (by rintro ⟨⟩) (by rw [hm]; exact hborn) (Nat.le_refl _)) rfl rfl
          hdisp
  | test =>
      rw [hm] at hstep
      obtain rfl := Option.some.inj hstep
      have hpast : (if s.continueInput = true then MainPc.past else MainPc.toWait) ≠ .input ∧
          spawned (if s.continueInput = true then MainPc.past else MainPc.toWait)
            = defaultWorkerCount := by
        split_ifs <;> exact ⟨by rintro ⟨⟩, rfl⟩
      exact h.still (hgo _ hpast.1 (by rw [hpast.2]; exact hborn) (Nat.le_of_eq hpast.2)) rfl rfl
        hdisp
  | toWait =>
      rw [hm] at hstep
      obtain rfl := Option.some.inj hstep
      exact h.still (hgo .waiting (by rintro ⟨⟩) hborn (Nat.le_refl _)) rfl rfl hdisp
  | input => exact absurd hm h.main
  | waiting | past =>
      rw [hm] at hstep
      cases hstep

/-! ### The dispatcher -/

theorem Serving.goto (h : Serving s l) {d : DispatcherPc} (hd : PatchOk s d) :
    Serving (s.goto d) l :=
  h.still (beside_of rfl rfl rfl rfl (fun _ hfd => hfd) rfl rfl) rfl rfl hd

theorem Serving.wake (h : Serving s l) (w : Nat) {d : DispatcherPc} (hd : ∀ t, PatchOk t d) :
    Serving ((s.wake w).goto d) l := by
  rcases wake_eq s w with ⟨-, heq⟩ | ⟨hpc, heq⟩
  · rw [heq]
    exact h.goto (hd s)
  · rw [heq]
    refine h.off (y := { s.workers w with pc := .test })
      (beside_of rfl rfl rfl rfl (fun _ hfd => hfd) rfl rfl) rfl rfl
      (workerOk_resting rfl (h.worker w).given) rfl
      (fun i _ => toFlag_resting (by rw [hpc]; rfl) i) ?_ (hd _)
    intro hle
    have hunborn := h.unborn w hle
    rw [hpc] at hunborn
    cases hunborn

theorem Serving.patcherStep (h : Serving s l) {d : DispatcherPc} (hd : s.dispatcher = d)
    (hstep : patcherStep s d = some t) : Serving t l := by
  have hok := h.dispatcher
  rw [hd] at hok
  cases d with
  | next =>
      rw [Threads.patcherStep] at hstep
      cases hevents : s.events with
      | nil =>
          rw [hevents] at hstep
          obtain rfl := Option.some.inj hstep
          exact h.goto trivial
      | cons fd rest =>
          rw [hevents] at hstep
          dsimp only at hstep
          have hfd : fd ≠ 0 := h.events fd (by rw [hevents]; exact List.mem_cons_self)
          rw [if_neg hfd] at hstep
          obtain rfl := Option.some.inj hstep
          refine h.still (beside_of rfl rfl rfl rfl ?_ rfl rfl) rfl rfl trivial
          intro e he
          rw [hevents]
          exact List.mem_cons_of_mem fd he
  | scan _ _ | queueScan _ =>
      rw [Threads.patcherStep] at hstep
      split_ifs at hstep <;>
      · obtain rfl := Option.some.inj hstep
        exact h.goto trivial
  | idleCheck fd =>
      rw [Threads.patcherStep] at hstep
      cases hidle : s.idleWorker with
      | some w =>
          rw [hidle] at hstep
          obtain rfl := Option.some.inj hstep
          exact h.goto (idleWorker_idle hidle).1
      | none =>
          rw [hidle] at hstep
          obtain rfl := Option.some.inj hstep
          exact h.goto trivial
  | store fd w =>
      obtain rfl := Option.some.inj hstep
      have hrest := (h.worker w).idle hok
      refine h.off (w := w) (beside_of rfl rfl rfl rfl (fun _ hfd => hfd) rfl rfl) rfl rfl
        (workerOk_resting hrest fun _ => by rintro ⟨⟩) (on_resting hrest)
        (fun i _ => toFlag_resting hrest i) (fun hle => h.unborn w hle) ?_
      show (Function.update s.workers w _ w).process ≠ none
      rw [Function.update_self]
      rintro ⟨⟩
  | setBusy w =>
      obtain rfl := Option.some.inj hstep
      have hworker := h.worker w
      refine h.step (y := { s.workers w with busy := true })
        (beside_of rfl rfl rfl rfl (fun _ hfd => hfd) rfl rfl) rfl rfl
        ⟨⟨by rintro ⟨⟩, fun _ => hok, hworker.due, hworker.exec, hworker.account⟩,
         fun _ hi => Or.inl hi,
          fun _ _ _ hi => hi⟩ (fun _ _ => Iff.rfl) (fun hle => h.unborn w hle) trivial
  | signal w =>
      obtain rfl := Option.some.inj hstep
      exact h.wake w fun _ => trivial
  | enqueue fd =>
      obtain rfl := Option.some.inj hstep
      exact h.still (beside_of rfl rfl rfl rfl (fun _ hfd => hfd) rfl rfl) rfl rfl trivial
  | quitSignal => exact hok.elim
  | _ => cases hstep

/-- No command is read any more. -/
theorem Serving.commandStep (h : Serving s l) {b : Bool} {d : DispatcherPc}
    (hd : s.dispatcher = d) :
    commandStep b s d = none := by
  have hok := h.dispatcher
  rw [hd] at hok
  cases d with
  | slot m fd i => exact hok.elim
  | slotWorkers m fd i j => exact hok.elim
  | slotQueue m fd i => exact hok.elim
  | install m fd i => exact hok.elim
  | epollAdd cev => exact hok.elim
  | count cev => exact hok.elim
  | assign cev => exact hok.elim
  | connSignal w => exact hok.elim
  | connEnqueue cev => exact hok.elim
  | _ => rfl

/-! ### The workers -/

/-- The places at which a worker is on nothing. -/
def unattached : WorkerPc → Bool
  | .load | .account | .exec _ => false
  | _ => true

theorem unattached_ne {pc : WorkerPc} (h : unattached pc = true) :
    pc ≠ .load ∧ pc ≠ .account ∧ ∀ d, pc ≠ .exec d := by
  refine ⟨?_, ?_, ?_⟩
  · rintro rfl
    cases h
  · rintro rfl
    cases h
  · rintro d rfl
    cases h

/-- The places of a worker that is neither at the counter nor at the flag. -/
def uncounted : WorkerPc → Bool
  | .unborn | .account | .raise => false
  | _ => true

theorem uncounted_ne {pc : WorkerPc} (h : uncounted pc = true) :
    pc ≠ .unborn ∧ pc ≠ .account ∧ pc ≠ .raise := by
  refine ⟨?_, ?_, ?_⟩ <;>
  · rintro rfl
    cases h

/-- A worker goes on to a place where it is on nothing. -/
theorem WorkerOk.goOn {x : Worker} (h : WorkerOk l x) {pc : WorkerPc} {c : Option Nat}
    {a : AutoDequeue} (hrest : resting pc = true ∨ resting x.pc = false)
    (hpc : unattached pc = true) : WorkerOk l { x with pc := pc, connIndex := c, auto := a } := by
  obtain ⟨hload, haccount, hexec⟩ := unattached_ne hpc
  refine ⟨fun hidle => ?_, h.given, fun heq => absurd heq hload,
    fun d _ heq => absurd heq (hexec d), fun _ heq => absurd heq haccount⟩
  rcases hrest with hr | hr
  · exact hr
  · have hold := h.idle hidle
    rw [hr] at hold
    cases hold

theorem on_none {x : Worker} (h : unattached x.pc = true) : Worker.on x = none := by
  obtain ⟨-, haccount, hexec⟩ := unattached_ne h
  rw [Worker.on]
  cases hpc : x.pc with
  | account => exact absurd hpc haccount
  | exec d => exact absurd hpc (hexec d)
  | _ => rfl

/-- The steps of a worker that is neither at the counter nor at the flag, and comes to
    none of its connections by them. -/
theorem Serving.goOn (h : Serving s l) {w : Nat} (pc : WorkerPc) {c : Option Nat} {a : AutoDequeue}
    (hfrom : uncounted (s.workers w).pc = true)
    (hrest : resting pc = true ∨ resting (s.workers w).pc = false) (hpc : unattached pc = true)
    (hb : Beside l s t) (hremain : t.remainCount = s.remainCount)
    (hdisp : t.dispatcher = s.dispatcher)
    (hw : t.workers
      = Function.update s.workers w { s.workers w with pc := pc, connIndex := c, auto := a }) :
    Serving t l := by
  obtain ⟨hborn, haccount, hraise⟩ := uncounted_ne hfrom
  refine h.off hb hremain hw ((h.worker w).goOn hrest hpc) (on_none hpc) (fun i _ hi => ?_)
    (fun hle => ?_) ?_
  · rcases (toFlag_some.mp hi).1 with heq | heq
    · exact haccount heq
    · exact hraise heq
  · exact absurd (h.unborn w (Nat.le_trans hb.spawned.1 hle)) hborn
  · rw [hdisp]
    refine h.dispatcher.keep ?_ ?_
    · rw [hw]
      exact update_keep (q := fun x => x.process ≠ none) id
    · rw [hw]
      exact update_keep (q := fun x => x.busy = false) id

/-- The slots go on as they are, but for what is not looked at. -/
theorem beside_setSlot {i : Nat} {x : Slot} (hmain : t.main = s.main)
    (hfixed : t.fixedInput = s.fixedInput) (hspace : t.workspaceCount = s.workspaceCount)
    (hflag : t.continueInput = s.continueInput) (hevents : t.events = s.events)
    (hreg : t.registered = s.registered) (hslots : t.slots = Function.update s.slots i x)
    (hsock : i ∈ l.accepted ++ l.finished → (x.sockfd = 0 ↔ (s.slots i).sockfd = 0))
    (hstate : x.state ≠ -1 ∨ x.state = (s.slots i).state) : Beside l s t := by
  refine ⟨fun hne => hmain ▸ hne, by rw [hmain]; exact ⟨Nat.le_refl _, id⟩, hfixed, Or.inl hspace,
    fun _ => hflag, fun fd hfd => Or.inl (hevents ▸ hfd), fun fd hfd => hreg ▸ hfd, ?_, ?_⟩
  · intro j hj
    rw [hslots]
    by_cases hji : j = i
    · rw [hji, Function.update_self]
      exact hsock (hji ▸ hj)
    · rw [Function.update_of_ne hji]
  · intro j _ hm
    rw [hslots] at hm
    by_cases hji : j = i
    · rw [hji, Function.update_self] at hm
      rcases hstate with hne | heq
      · exact absurd hm hne
      · rw [hji, ← heq]
        exact hm
    · rw [Function.update_of_ne hji] at hm
      exact hm

theorem isOpen_iff {i : Nat} : l.isOpen i = true ↔ i ∈ l.accepted ∧ i ∉ l.finished := by
  rw [Ledger.isOpen, Bool.and_eq_true, Bool.not_eq_true', List.contains_iff_mem]
  refine and_congr_right fun _ => ?_
  rw [← List.contains_iff_mem, Bool.not_eq_true]

theorem alone_off {w i : Nat} (h : RemainCount.alone s w i = true) :
    ∀ v < defaultWorkerCount, v ≠ w → Worker.on (s.workers v) ≠ some i := by
  intro v hv hne
  have hall := of_decide_eq_true (List.all_eq_true.mp h v (List.mem_range.mpr hv))
  exact hall.resolve_left hne

/-- A worker that takes something from a queue comes to the call of a handler. -/
theorem Serving.takes (h : Serving s l) {w : Nat} {c : Option Nat} {a : AutoDequeue}
    (hfrom : (s.workers w).pc = .dequeueConn ∨ (s.workers w).pc = .dequeueEpoll)
    (ha : a ≠ .reserved) (hb : Beside l s t) (hremain : t.remainCount = s.remainCount)
    (hdisp : t.dispatcher = s.dispatcher)
    (hw : t.workers
      = Function.update s.workers w { s.workers w with pc := .load, connIndex := c, auto := a }) :
    Serving t l := by
  have hworker := h.worker w
  have hbusy : (s.workers w).busy = false → False := by
    intro hidle
    have hrest := hworker.idle hidle
    rcases hfrom with hpc | hpc
    · rw [hpc] at hrest
      cases hrest
    · rw [hpc] at hrest
      cases hrest
  refine h.off hb hremain hw ⟨fun hidle => (hbusy hidle).elim, hworker.given, fun _ => ?_,
    by rintro _ _ ⟨⟩, by rintro _ ⟨⟩⟩ rfl (fun i _ hi => ?_) (fun hle => ?_) ?_
  · show Worker.due { s.workers w with pc := .load, connIndex := c, auto := a } ≠ none
    rw [Worker.due]
    cases a with
    | reserved => exact absurd rfl ha
    | conn cev => rintro ⟨⟩
    | epoll fd => rintro ⟨⟩
  · rcases (toFlag_some.mp hi).1 with heq | heq
    · rcases hfrom with hpc | hpc <;> cases hpc.symm.trans heq
    · rcases hfrom with hpc | hpc <;> cases hpc.symm.trans heq
  · have hunborn := h.unborn w (Nat.le_trans hb.spawned.1 hle)
    rcases hfrom with hpc | hpc <;> cases hpc.symm.trans hunborn
  · rw [hdisp]
    refine h.dispatcher.keep ?_ ?_
    · rw [hw]
      exact update_keep (q := fun x => x.process ≠ none) id
    · rw [hw]
      exact update_keep (q := fun x => x.busy = false) id

theorem Serving.takeConn (h : Serving s l) {w : Nat} (hpc : (s.workers w).pc = .dequeueConn)
    (hopen : l.isOpen (s.connQueue.head connEventQueueMax).connIndex = true) :
    Serving (takeConn s w) l := by
  obtain ⟨hmem, hlive⟩ := isOpen_iff.mp hopen
  rw [Threads.takeConn]
  dsimp only
  split
  · exact h.goOn .fault (by rw [hpc]; rfl) (Or.inr (by rw [hpc]; rfl)) rfl
      (beside_of rfl rfl rfl rfl (fun _ hfd => hfd) rfl rfl) rfl rfl rfl
  · rename_i hpos
    refine h.takes (Or.inl hpc) (a := .conn _) (by rintro ⟨⟩)
      (beside_setSlot rfl rfl rfl rfl rfl rfl rfl ?_
      (Or.inl (show (0 : Int) ≠ -1 by decide))) rfl rfl rfl
    intro _
    have hsock := (h.live _ hmem hlive).1
    refine ⟨fun hz => ?_, fun hz => absurd hz hsock⟩
    have hzero : (s.connQueue.head connEventQueueMax).sockfd = 0 := hz
    omega

theorem Serving.takeEpoll (h : Serving s l) {w : Nat} (hpc : (s.workers w).pc = .dequeueEpoll) :
    Serving (takeEpoll s w) l := by
  unfold Threads.takeEpoll
  dsimp only
  cases hfind : s.lookup (s.epollQueue.head epollEventQueueMax) with
  | none =>
      exact h.goOn .clear (by rw [hpc]; rfl) (Or.inr (by rw [hpc]; rfl)) rfl
        (beside_of rfl rfl rfl rfl (fun _ hfd => hfd) rfl rfl) rfl rfl rfl
  | some i =>
      refine h.takes (Or.inr hpc) (a := .epoll _) (by rintro ⟨⟩)
        (beside_setSlot rfl rfl rfl rfl rfl rfl rfl
        (fun _ => ?_) (Or.inl (show (2 : Int) ≠ -1 by decide))) rfl rfl rfl
      show s.epollQueue.head epollEventQueueMax = 0 ↔ _
      rw [← lookup_sockfd hfind]

/-- A worker that runs has been created. -/
theorem Serving.created (h : Serving s l) {w : Nat} (hpc : (s.workers w).pc ≠ .unborn) :
    w < defaultWorkerCount := by
  by_contra hle
  exact hpc (h.unborn w (Nat.le_trans h.born (Nat.le_of_not_lt hle)))

/-- A handler is called. -/
theorem Serving.calls (h : Serving s l) {w i : Nat} {d : Handler} {x : Slot}
    (hpc : (s.workers w).pc = .load) (hopen : l.isOpen i = true)
    (halone : RemainCount.alone s w i = true)
    (hx : x.sockfd = (s.slots i).sockfd ∧ x.state = (s.slots i).state) :
    Serving ((s.setSlot i x).setWorker w { s.workers w with connIndex := some i, pc := .exec d })
      l := by
  have hworker := h.worker w
  refine h.step (w := w) (beside_setSlot rfl rfl rfl rfl rfl rfl rfl (fun _ => by rw [hx.1])
    (Or.inr hx.2)) rfl rfl ⟨⟨fun hidle => ?_, hworker.given, by rintro ⟨⟩, ?_, by rintro _ ⟨⟩⟩, ?_,
    ?_⟩ ?_ ?_ ?_
  · have hrest := hworker.idle hidle
    rw [hpc] at hrest
    cases hrest
  · intro e j _ hj
    rw [← Option.some.inj hj]
    exact isOpen_iff.mp hopen
  · intro j hj
    have hji : i = j := Option.some.inj hj
    exact Or.inr (hji ▸ alone_off halone)
  · intro _ j _ hj
    rcases (toFlag_some.mp hj).1 with heq | heq <;> cases hpc.symm.trans heq
  · intro j _
    refine ⟨by rintro ⟨⟩, fun hj => ?_⟩
    cases hpc.symm.trans (toCount_some.mp hj).1
  · intro hle
    cases hpc.symm.trans (h.unborn w hle)
  · exact h.dispatcher.keep (update_keep (q := fun y => y.process ≠ none) id)
      (update_keep (q := fun y => y.busy = false) id)

/-- A request was sent, and its connection goes on. -/
theorem Serving.sends (h : Serving s l) {w i : Nat} {d : Handler} {x : Slot}
    (hpc : (s.workers w).pc = .exec d) (hx : x.sockfd = (s.slots i).sockfd ∧ x.state = 1) :
    Serving ((s.setSlot i x).workerGoto w .account) l := by
  have hworker := h.worker w
  refine h.step (y := { s.workers w with pc := .account })
    (beside_setSlot rfl rfl rfl rfl rfl rfl rfl (fun _ => by rw [hx.1])
      (Or.inl (by rw [hx.2]; decide))) rfl rfl
    ⟨⟨fun hidle => ?_, hworker.given, by rintro ⟨⟩, fun _ _ => by rintro ⟨⟩, ?_⟩, ?_, ?_⟩ ?_ ?_ ?_
  · have hrest := hworker.idle hidle
    rw [hpc] at hrest
    cases hrest
  · intro j _ hj
    exact (hworker.exec d j hpc hj).1
  · intro j hj
    refine Or.inl ?_
    rw [Worker.on, hpc]
    exact hj
  · intro _ j _ hj
    rcases (toFlag_some.mp hj).1 with heq | heq <;> cases hpc.symm.trans heq
  · intro j hj
    refine ⟨fun hy => ?_, fun hy => ?_⟩
    · exact absurd hj (hworker.exec d j hpc (toCount_some.mp hy).2).2
    · cases hpc.symm.trans (toCount_some.mp hy).1
  · intro hle
    cases hpc.symm.trans (h.unborn w hle)
  · exact h.dispatcher.keep (update_keep (q := fun y => y.process ≠ none) id)
      (update_keep (q := fun y => y.busy = false) id)

/-- **A CONNECTION ENDS**: it is outstanding until its worker comes to the counter. -/
theorem Serving.finishes (h : Serving s l) {w i fd : Nat} {d : Handler} {x : Slot}
    (hpc : (s.workers w).pc = .exec d) (hname : (s.workers w).connIndex = some i)
    (hx : x.sockfd = 0) :
    Serving (((s.setSlot i x).close fd).workerGoto w .account)
      { l with finished := i :: l.finished } := by
  obtain ⟨t, ht⟩ : ∃ t, t = ((s.setSlot i x).close fd).workerGoto w .account := ⟨_, rfl⟩
  rw [← ht]
  have hlt := h.created (w := w) (by rw [hpc]; rintro ⟨⟩)
  obtain ⟨hmem, hlive⟩ := (h.worker w).exec d i hpc hname
  have hself : t.workers w = { s.workers w with pc := .account } := by
    rw [ht]
    exact Function.update_self _ _ _
  have hother : ∀ v, v ≠ w → t.workers v = s.workers v := fun v hv => by
    rw [ht]
    exact Function.update_of_ne hv _ _
  have hslot : ∀ j, j ≠ i → t.slots j = s.slots j := fun j hj => by
    rw [ht]
    exact Function.update_of_ne hj _ _
  have hon : ∀ v, Worker.on (t.workers v) = Worker.on (s.workers v) := by
    intro v
    by_cases hv : v = w
    · rw [hv, hself, Worker.on, Worker.on, hpc]
    · rw [hother v hv]
  have hat : Worker.on (s.workers w) = some i := by
    rw [Worker.on, hpc]
    exact hname
  have hcount : ∀ j, j ≠ i → counting t j = counting s j := by
    intro j hj
    rw [Bool.eq_iff_iff, counting_iff, counting_iff]
    refine exists_congr fun v => and_congr_right fun _ => ?_
    by_cases hv : v = w
    · rw [hv, hself, toCount_some, toCount_some, hpc, hname]
      exact ⟨fun hi => absurd (Option.some.inj hi.2).symm hj, fun hi => by cases hi.1⟩
    · rw [hother v hv]
  have hcounted : counting t i = true := by
    refine counting_iff.mpr ⟨w, hlt, ?_⟩
    rw [hself]
    exact toCount_some.mpr ⟨rfl, hname⟩
  constructor
  · rw [ht]; exact h.main
  · rw [ht]; exact h.fixed
  · rw [ht]; exact h.workspace
  · rw [ht]; exact h.born
  · intro v hv
    have hunborn := h.unborn v (by rw [ht] at hv; exact hv)
    by_cases hvw : v = w
    · rw [hvw, hpc] at hunborn
      cases hunborn
    · rw [hother v hvw]
      exact hunborn
  · intro v
    by_cases hvw : v = w
    · rw [hvw, hself]
      refine ⟨fun hidle => ?_, (h.worker w).given, by rintro ⟨⟩, fun _ _ => by rintro ⟨⟩, ?_⟩
      · have hrest := (h.worker w).idle hidle
        rw [hpc] at hrest
        cases hrest
      · intro j _ hj
        exact ((h.worker w).exec d j hpc hj).1
    · rw [hother v hvw]
      have hworker := h.worker v
      refine ⟨hworker.idle, hworker.given, hworker.due, fun e j hexec hj => ?_, hworker.account⟩
      obtain ⟨hacc, hnot⟩ := hworker.exec e j hexec hj
      refine ⟨hacc, fun hin => ?_⟩
      rcases List.mem_cons.mp hin with rfl | hold
      · -- both would be on it
        refine hvw (h.alone v (h.created (by rw [hexec]; rintro ⟨⟩)) w hlt j ?_ hat)
        rw [Worker.on, hexec]
        exact hj
      · exact hnot hold
  · intro u hu v hv j huj hvj
    rw [hon] at huj hvj
    exact h.alone u hu v hv j huj hvj
  · exact h.once
  · intro j hj hnot
    have hji : j ≠ i := fun heq => hnot (heq ▸ List.mem_cons_self)
    rw [hslot j hji]
    exact h.live j hj fun hin => hnot (List.mem_cons_of_mem i hin)
  · intro j hj
    by_cases hji : j = i
    · rw [hji, ht]
      show (Function.update s.slots i x i).sockfd = 0
      rw [Function.update_self]
      exact hx
    · rw [hslot j hji]
      exact h.ended j ((List.mem_cons.mp hj).resolve_left hji)
  · have hsame : outstanding t { l with finished := i :: l.finished } = outstanding s l := by
      refine List.filter_congr fun j _ => ?_
      show (!(i :: l.finished).contains j || counting t j) = _
      by_cases hji : j = i
      · have hnot : l.finished.contains i = false := by
          rw [List.contains_eq_mem, decide_eq_false hlive]
        rw [hji, hcounted, hnot, Bool.or_true]
        rfl
      · have hsame : (i :: l.finished).contains j = l.finished.contains j := by
          rw [List.contains_cons, beq_eq_false_iff_ne.mpr hji, Bool.false_or]
        rw [hcount j hji, hsame]
    rw [hsame, ht]
    exact h.count
  · intro hquit
    rw [ht]
    exact h.flag hquit
  · intro hquit j hj
    by_cases hji : j = i
    · refine ⟨w, hlt, ?_⟩
      rw [hself, hji]
      exact ⟨Or.inl rfl, hname⟩
    · obtain ⟨v, hv, hpcv, hnamev⟩ := h.stuck hquit j ((List.mem_cons.mp hj).resolve_left hji)
      have hvw : v ≠ w := by
        rintro rfl
        rw [hname] at hnamev
        exact hji (Option.some.inj hnamev).symm
      exact ⟨v, hv, by rw [hother v hvw]; exact ⟨hpcv, hnamev⟩⟩
  · rw [ht]; exact h.events
  · intro e he
    rw [ht] at he
    exact h.registered e (List.mem_of_mem_erase he)
  · rw [ht]
    exact h.dispatcher.keep (update_keep (q := fun y => y.process ≠ none) id)
      (update_keep (q := fun y => y.busy = false) id)

/-- **THE COUNTER** goes down with a connection that ended. -/
theorem Serving.counts (h : Serving s l) {w i : Nat} (hpc : (s.workers w).pc = .account)
    (hname : (s.workers w).connIndex = some i)
    (htest : (s.slots i).state = -1 ∨ (s.slots i).sockfd = 0) :
    Serving { s.workerGoto w .raise with remainCount := s.remainCount - 1 } l := by
  obtain ⟨t, ht⟩ : ∃ t, t = { s.workerGoto w .raise with remainCount := s.remainCount - 1 } :=
    ⟨_, rfl⟩
  rw [← ht]
  have hlt := h.created (w := w) (by rw [hpc]; rintro ⟨⟩)
  have hmem := (h.worker w).account i hpc hname
  -- the test is on the slot, and the slot says that the request is over
  have hended : i ∈ l.finished := by
    by_contra hnot
    obtain ⟨hsock, hstate⟩ := h.live i hmem hnot
    exact htest.elim hstate hsock
  have hself : t.workers w = { s.workers w with pc := .raise } := by
    rw [ht]
    exact Function.update_self _ _ _
  have hother : ∀ v, v ≠ w → t.workers v = s.workers v := fun v hv => by
    rw [ht]
    exact Function.update_of_ne hv _ _
  have hat : toCount (s.workers w) = some i := toCount_some.mpr ⟨hpc, hname⟩
  -- no other worker is about to count the same slot
  have hgone : counting t i = false := by
    rw [Bool.eq_false_iff]
    intro hcount
    obtain ⟨v, hv, hi⟩ := counting_iff.mp hcount
    by_cases hvw : v = w
    · rw [hvw, hself] at hi
      cases (toCount_some.mp hi).1
    · rw [hother v hvw] at hi
      exact hvw (h.alone v hv w hlt i (toCount_on hi) (toCount_on hat))
  -- so the slot leaves what is outstanding, and nothing else does
  have hrest : outstanding t l = (outstanding s l).erase i := by
    have hnodup : (outstanding s l).Nodup := h.once.filter _
    rw [hnodup.erase_eq_filter, outstanding, outstanding, List.filter_filter]
    refine List.filter_congr fun j _ => ?_
    by_cases hji : j = i
    · have hin : l.finished.contains i = true := List.contains_iff_mem.mpr hended
      rw [hji, hgone, hin, bne_self_eq_false, Bool.false_and]
      rfl
    · have hsame : counting t j = counting s j := by
        rw [Bool.eq_iff_iff, counting_iff, counting_iff]
        refine exists_congr fun v => and_congr_right fun _ => ?_
        by_cases hv : v = w
        · rw [hv, hself, toCount_some, hat]
          exact ⟨fun hj => (by cases hj.1), fun hj => absurd (Option.some.inj hj).symm hji⟩
        · rw [hother v hv]
      rw [hsame, bne_iff_ne.mpr hji, Bool.true_and]
  have hin : i ∈ outstanding s l := by
    refine List.mem_filter.mpr ⟨hmem, ?_⟩
    rw [counting_iff.mpr ⟨w, hlt, hat⟩, Bool.or_true]
  refine h.change (w := w) (y := { s.workers w with pc := .raise }) ?_ (by rw [ht]; rfl)
    ⟨?_, by rintro _ ⟨⟩, ?_⟩ ?_ ?_ ?_
  · rw [ht]
    exact beside_of rfl rfl rfl rfl (fun _ hfd => hfd) rfl rfl
  · exact (h.worker w).goOn (Or.inr (by rw [hpc]; rfl)) rfl
  · intro _ j _ hj
    exact toFlag_some.mpr ⟨Or.inr rfl, (toFlag_some.mp hj).2⟩
  · have hlen := List.length_erase_of_mem hin
    have hpos := List.length_pos_of_mem hin
    rw [hrest, hlen, ht]
    show s.remainCount - 1 = _
    rw [h.count]
    omega
  · intro hle
    cases hpc.symm.trans (h.unborn w (by rw [ht] at hle; exact hle))
  · rw [ht]
    exact h.dispatcher.keep (update_keep (q := fun y => y.process ≠ none) id)
      (update_keep (q := fun y => y.busy = false) id)

/-- In a handler. -/
def executing : WorkerPc → Bool
  | .exec _ => true
  | _ => false

/-- A step of a worker that does not return from a handler. -/
theorem note_worker {w : Nat} {ok : Bool} {pc : WorkerPc} (hpc : (s.workers w).pc = pc)
    (h : executing pc = false) : l.note s (.worker w ok) = l := by
  rw [Ledger.note, hpc]
  cases pc with
  | exec d => cases h
  | _ => rfl

/-- The test of what became of the connection. -/
theorem Serving.tests (h : Serving s l) {w : Nat} (hpc : (s.workers w).pc = .account)
    (hstep : Threads.workerStep s w ok = some t) : Serving t l := by
  have hworker := h.worker w
  -- a connection that goes on has not finished
  have hgoes : ∀ pc : WorkerPc, resting pc = false → unattached pc = true →
      (∀ i ∈ l.finished, (s.workers w).connIndex ≠ some i) → Serving (s.workerGoto w pc) l := by
    intro pc hrest hne hlive
    refine h.off (y := { s.workers w with pc := pc })
      (beside_of rfl rfl rfl rfl (fun _ hfd => hfd) rfl rfl) rfl rfl
      (hworker.goOn (Or.inr (by rw [hpc]; rfl)) hne) (on_none hne) ?_ ?_ ?_
    · intro i hi hflag
      exact hlive i hi (toFlag_some.mp hflag).2
    · intro hle
      cases hpc.symm.trans (h.unborn w hle)
    · exact h.dispatcher.keep (update_keep (q := fun y => y.process ≠ none) id)
        (update_keep (q := fun y => y.busy = false) id)
  rw [Threads.workerStep, hpc] at hstep
  dsimp only at hstep
  rw [if_pos h.fixed] at hstep
  cases hname : (s.workers w).connIndex with
  | none =>
      rw [hname] at hstep
      obtain rfl := Option.some.inj hstep
      refine hgoes .fault rfl rfl fun i _ hi => ?_
      cases hname.symm.trans hi
  | some i =>
      rw [hname] at hstep
      dsimp only at hstep
      split_ifs at hstep with htest
      · obtain rfl := Option.some.inj hstep
        exact h.counts hpc hname htest
      · obtain rfl := Option.some.inj hstep
        refine hgoes .release rfl rfl fun j hj hi => ?_
        obtain rfl := Option.some.inj (hname.symm.trans hi)
        exact htest (Or.inr (h.ended i hj))

/-- A handler returns. -/
theorem Serving.returns (h : Serving s l) {w : Nat} {ok : Bool} {d : Handler}
    (hpc : (s.workers w).pc = .exec d) (hstep : Threads.workerStep s w ok = some t) :
    Serving t (l.note s (.worker w ok)) := by
  rw [Threads.workerStep, hpc] at hstep
  dsimp only at hstep
  rw [Ledger.note, hpc]
  cases hname : (s.workers w).connIndex with
  | none =>
      rw [hname] at hstep
      obtain rfl := Option.some.inj hstep
      exact h.goOn .fault (by rw [hpc]; rfl) (Or.inr (by rw [hpc]; rfl)) rfl
        (beside_of rfl rfl rfl rfl (fun _ hfd => hfd) rfl rfl) rfl rfl rfl
  | some i =>
      rw [hname] at hstep
      obtain rfl := Option.some.inj hstep
      cases d with
      | httpResponse =>
          cases ok with
          | true => exact h.finishes hpc hname rfl
          | false => exact h.finishes hpc hname rfl
      | httpRequest =>
          cases ok with
          | true => exact h.sends hpc ⟨rfl, rfl⟩
          | false => exact h.finishes hpc hname rfl

/-- A handler is called. -/
theorem Serving.loads (h : Serving s l) {w : Nat} {ok : Bool} (hpc : (s.workers w).pc = .load)
    (hok : orderly (s, l) (.worker w ok) = true) (hstep : Threads.workerStep s w ok = some t) :
    Serving t l := by
  have hfault : Serving (s.workerGoto w .fault) l :=
    h.goOn .fault (by rw [hpc]; rfl) (Or.inr (by rw [hpc]; rfl)) rfl
      (beside_of rfl rfl rfl rfl (fun _ hfd => hfd) rfl rfl) rfl rfl rfl
  rw [orderly, hpc] at hok
  dsimp only at hok
  rw [Threads.workerStep, hpc] at hstep
  dsimp only at hstep
  cases hdue : (s.workers w).due with
  | none => exact absurd hdue ((h.worker w).due hpc)
  | some d =>
      rw [hdue] at hstep
      cases hconn : s.dueConn (s.workers w) with
      | none =>
          rw [hconn] at hstep
          obtain rfl := Option.some.inj hstep
          exact hfault
      | some i =>
          rw [hconn] at hstep hok
          dsimp only at hstep
          split_ifs at hstep
          · obtain rfl := Option.some.inj hstep
            exact hfault
          · obtain rfl := Option.some.inj hstep
            obtain ⟨hopen, halone⟩ := Bool.and_eq_true_iff.mp hok
            exact h.calls hpc hopen halone ⟨rfl, rfl⟩

theorem Serving.workerStep (h : Serving s l) {w : Nat} {ok : Bool}
    (hok : orderly (s, l) (.worker w ok) = true) (hstep : workerStep s w ok = some t) :
    Serving t (l.note s (.worker w ok)) := by
  have hworker := h.worker w
  have hbeside : ∀ x, Beside l s (s.setWorker w x) := fun x =>
    beside_of rfl rfl rfl rfl (fun _ hfd => hfd) rfl rfl
  cases hpc : (s.workers w).pc with
  | exec d => exact h.returns hpc hstep
  | account =>
      rw [note_worker hpc rfl]
      exact h.tests hpc hstep
  | load =>
      rw [note_worker hpc rfl]
      exact h.loads hpc hok hstep
  | unborn | waiting | fault =>
      rw [Threads.workerStep, hpc] at hstep
      cases hstep
  | start =>
      rw [note_worker hpc rfl]
      rw [Threads.workerStep, hpc] at hstep
      obtain rfl := Option.some.inj hstep
      exact h.goOn .test (by rw [hpc]; rfl) (Or.inl rfl) rfl (hbeside _) rfl rfl rfl
  | test =>
      rw [note_worker hpc rfl]
      rw [Threads.workerStep, hpc] at hstep
      dsimp only at hstep
      split_ifs at hstep with hbusy
      · -- it leaves its loop
        obtain rfl := Option.some.inj hstep
        refine h.off (y := { s.workers w with pc := .load }) (hbeside _) rfl rfl
          ⟨fun hidle => ?_, hworker.given, fun _ => ?_, by rintro _ _ ⟨⟩, by rintro _ ⟨⟩⟩ rfl
          (fun i _ => toFlag_resting (by rw [hpc]; rfl) i) (fun hle => ?_) ?_
        · cases hbusy.symm.trans hidle
        · show Worker.due { s.workers w with pc := .load } ≠ none
          rw [Worker.due]
          cases hauto : (s.workers w).auto with
          | reserved => exact hworker.given hbusy
          | conn cev => rintro ⟨⟩
          | epoll fd => rintro ⟨⟩
        · cases hpc.symm.trans (h.unborn w hle)
        · exact h.dispatcher.keep (update_keep (q := fun y => y.process ≠ none) id)
            (update_keep (q := fun y => y.busy = false) id)
      · obtain rfl := Option.some.inj hstep
        exact h.goOn .toWait (by rw [hpc]; rfl) (Or.inl rfl) rfl (hbeside _) rfl rfl rfl
  | toWait =>
      rw [note_worker hpc rfl]
      rw [Threads.workerStep, hpc] at hstep
      obtain rfl := Option.some.inj hstep
      exact h.goOn .waiting (by rw [hpc]; rfl) (Or.inl rfl) rfl (hbeside _) rfl rfl rfl
  | raise =>
      -- the flag may be set, for `quit` was entered
      rw [note_worker hpc rfl]
      rw [orderly, hpc] at hok
      have hquit : l.quit = true := hok
      rw [Threads.workerStep, hpc] at hstep
      obtain rfl := Option.some.inj hstep
      refine h.step (w := w) (y := { s.workers w with pc := .signal })
        ⟨fun hne => hne, ⟨Nat.le_refl _, id⟩, rfl, Or.inl rfl, fun hnot => ?_, fun _ => Or.inl,
          fun _ hfd => hfd, fun _ _ => Iff.rfl, fun _ _ hi => hi⟩ rfl rfl
        ⟨hworker.goOn (Or.inr (by rw [hpc]; rfl)) rfl, by rintro _ ⟨⟩, fun hnot => ?_⟩
        (fun i _ => ⟨by rintro ⟨⟩, fun hi => ?_⟩) (fun hle => ?_) ?_
      · cases hquit.symm.trans hnot
      · cases hquit.symm.trans hnot
      · cases hpc.symm.trans (toCount_some.mp hi).1
      · cases hpc.symm.trans (h.unborn w hle)
      · exact h.dispatcher.keep (update_keep (q := fun y => y.process ≠ none) id)
          (update_keep (q := fun y => y.busy = false) id)
  | signal =>
      rw [note_worker hpc rfl]
      rw [Threads.workerStep, hpc] at hstep
      obtain rfl := Option.some.inj hstep
      have hfrom : uncounted (s.workers w).pc = true := by
        rw [hpc]
        rfl
      rw [State.wakeMain]
      split_ifs with hmain
      · refine h.goOn .release hfrom (Or.inr (by rw [hpc]; rfl)) rfl
          ⟨fun _ => by rintro ⟨⟩, ?_, rfl, Or.inl rfl, fun _ => rfl, fun _ => Or.inl,
           fun _ hfd => hfd, fun _ _ => Iff.rfl, fun _ _ hi => hi⟩ rfl rfl rfl
        rw [hmain]
        exact ⟨Nat.le_refl _, id⟩
      · exact h.goOn .release hfrom (Or.inr (by rw [hpc]; rfl)) rfl (hbeside _) rfl rfl rfl
  | release =>
      rw [note_worker hpc rfl]
      rw [Threads.workerStep, hpc] at hstep
      obtain rfl := Option.some.inj hstep
      exact h.goOn .dequeueConn (by rw [hpc]; rfl) (Or.inr (by rw [hpc]; rfl)) rfl
        (hbeside _) rfl rfl rfl
  | dequeueConn =>
      rw [note_worker hpc rfl]
      rw [orderly, hpc] at hok
      dsimp only at hok
      rw [Threads.workerStep, hpc] at hstep
      dsimp only at hstep
      split_ifs at hstep with hcount
      · obtain rfl := Option.some.inj hstep
        rw [decide_eq_false hcount, Bool.false_or] at hok
        exact h.takeConn hpc (Bool.and_eq_true_iff.mp hok).1
      · obtain rfl := Option.some.inj hstep
        exact h.goOn .dequeueEpoll (by rw [hpc]; rfl) (Or.inr (by rw [hpc]; rfl)) rfl
          (hbeside _) rfl rfl rfl
  | dequeueEpoll =>
      rw [note_worker hpc rfl]
      rw [Threads.workerStep, hpc] at hstep
      dsimp only at hstep
      split_ifs at hstep with hcount
      · obtain rfl := Option.some.inj hstep
        exact h.takeEpoll hpc
      · obtain rfl := Option.some.inj hstep
        exact h.goOn .clear (by rw [hpc]; rfl) (Or.inr (by rw [hpc]; rfl)) rfl
          (hbeside _) rfl rfl rfl
  | clear =>
      rw [note_worker hpc rfl]
      rw [Threads.workerStep, hpc] at hstep
      obtain rfl := Option.some.inj hstep
      refine h.off (y := { s.workers w with busy := false, pc := .test }) (hbeside _) rfl rfl
        (workerOk_resting rfl (by rintro ⟨⟩)) rfl (fun i _ hi => ?_) (fun hle => ?_) ?_
      · rcases (toFlag_some.mp hi).1 with heq | heq <;> cases hpc.symm.trans heq
      · cases hpc.symm.trans (h.unborn w hle)
      · exact h.dispatcher.keep (update_keep (q := fun y => y.process ≠ none) id)
          (update_keep (q := fun y => y.busy = false) fun _ => rfl)

/-! ## Runs -/

theorem Reading.takes (h : Reading s l) {a : Act} (hstep : step s a = some t) :
    Reading t (l.note s a) ∨ Serving t (l.note s a) := by
  have hdisp := h.dispatcher
  cases a with
  | main =>
      rw [step, Threads.mainStep, h.main] at hstep
      cases hstep
  | command m fd =>
      rw [step] at hstep
      split_ifs at hstep with hcan
      obtain rfl := Option.some.inj hstep
      refine Or.inl ⟨h.main, h.fixed, h.workspace, h.workers, h.finished, h.once, h.slots, h.count,
        h.flag, h.events, h.registered, ?_⟩
      show fd ≠ 0
      omega
  | quit =>
      rw [step] at hstep
      split_ifs at hstep
      obtain rfl := Option.some.inj hstep
      exact Or.inl ⟨h.main, h.fixed, h.workspace, h.workers, h.finished, h.once, h.slots, h.count,
        by rintro ⟨⟩, h.events, h.registered, trivial⟩
  | endInput =>
      rw [step] at hstep
      split_ifs at hstep
      obtain rfl := Option.some.inj hstep
      exact Or.inr h.endLine
  | fetch fds =>
      rw [step] at hstep
      split_ifs at hstep with hwait
      rw [hwait.1] at hdisp
      exact hdisp.elim
  | dispatcher b =>
      rw [step] at hstep
      cases hcommand : Threads.commandStep b s s.dispatcher with
      | some u =>
          rw [hcommand] at hstep
          exact Or.inl (h.commandStep rfl (Option.some.inj hstep ▸ hcommand))
      | none =>
          -- the line had `quit`
          rw [hcommand] at hstep
          dsimp only at hstep
          cases hd : s.dispatcher with
          | quitSignal =>
              rw [hd] at hstep
              obtain rfl := Option.some.inj hstep
              have hawake : s.wakeMain = s := if_neg (by rw [h.main]; rintro ⟨⟩)
              rw [note_dispatcher hd rfl, hawake]
              exact Or.inr h.endLine
          | line => rw [hd] at hstep; cases hstep
          | input => rw [hd] at hstep; cases hstep
          | slot m fd i => rw [hd] at hstep; cases hstep
          | slotWorkers m fd i j => rw [hd] at hstep; cases hstep
          | slotQueue m fd i => rw [hd] at hstep; cases hstep
          | install m fd i => rw [hd] at hstep; cases hstep
          | epollAdd cev => rw [hd] at hstep; cases hstep
          | count cev => rw [hd] at hstep; cases hstep
          | assign cev => rw [hd] at hstep; cases hstep
          | connEnqueue cev => rw [hd] at hstep; cases hstep
          | _ => rw [hd] at hdisp; exact hdisp.elim
  | worker w ok =>
      rw [step, h.workspace, if_neg (Nat.not_lt_zero w)] at hstep
      cases hstep

theorem Serving.acts (h : Serving s l) {a : Act} (hok : orderly (s, l) a = true)
    (hstep : Threads.step s a = some t) : Serving t (l.note s a) := by
  have hdisp := h.dispatcher
  -- the dispatcher reads no line
  have hline : ¬ (s.dispatcher = .line ∨ s.dispatcher = .input) := by
    rintro (hd | hd) <;>
    · rw [hd] at hdisp
      exact hdisp
  cases a with
  | main => exact h.mainStep hstep
  | command m fd =>
      rw [Threads.step] at hstep
      split_ifs at hstep with hcan
      exact absurd hcan.1 hline
  | quit =>
      rw [Threads.step] at hstep
      split_ifs at hstep with hcan
      exact absurd (Or.inl hcan) hline
  | endInput =>
      rw [Threads.step, if_neg hline] at hstep
      cases hstep
  | fetch fds =>
      rw [Threads.step] at hstep
      split_ifs at hstep with hcan
      obtain rfl := Option.some.inj hstep
      refine h.still ⟨id, ⟨Nat.le_refl _, id⟩, rfl, Or.inl rfl, fun _ => rfl, fun fd hfd => ?_,
        fun _ hfd => hfd, fun _ _ => Iff.rfl, fun _ _ hi => hi⟩ rfl rfl trivial
      rcases hcan.2.2 fd hfd with hreg | ⟨-, hfile⟩
      · exact Or.inr hreg
      · cases h.fixed.symm.trans hfile
  | dispatcher b =>
      have hnone : accepting s.dispatcher = false := by
        cases hd : s.dispatcher with
        | count cev =>
            rw [hd] at hdisp
            exact hdisp.elim
        | _ => rfl
      rw [note_dispatcher rfl hnone]
      rw [Threads.step, h.commandStep rfl] at hstep
      exact h.patcherStep rfl hstep
  | worker w ok =>
      rw [Threads.step] at hstep
      split_ifs at hstep
      exact h.workerStep hok hstep

/-- **THE BOOKS ARE KEPT** by every step that meets the condition. -/
theorem takes_kept {x y : State × Ledger} {a : Act}
    (h : Reading x.1 x.2 ∨ Serving x.1 x.2) (hstep : (booked.guarded orderly).step x a = some y) :
    Reading y.1 y.2 ∨ Serving y.1 y.2 := by
  obtain ⟨hok, htake⟩ := Machine.guarded_step.mp hstep
  obtain ⟨u, hu, rfl⟩ := Option.map_eq_some_iff.mp htake
  rcases h with hreading | hserving
  · exact hreading.takes hu
  · exact Or.inr (hserving.acts hok hu)

theorem Reading.balanced (h : Reading s l) : Balanced s l := by
  refine ⟨?_, ?_, ?_⟩
  · rw [h.outstanding_eq]
    exact h.count
  · intro hquit hflag
    cases hflag.symm.trans (h.flag hquit)
  · intro _ hsome hall _
    obtain ⟨i, hi⟩ := List.exists_mem_of_ne_nil _ hsome
    have hended := hall i hi
    rw [h.finished] at hended
    cases hended

theorem Serving.balanced (h : Serving s l) : Balanced s l := by
  refine ⟨h.count, ?_, ?_⟩
  · intro hquit hflag
    cases hflag.symm.trans (h.flag hquit)
  · intro hquit hsome hall hnone
    -- the worker of the connection is still on its way
    obtain ⟨i, hi⟩ := List.exists_mem_of_ne_nil _ hsome
    obtain ⟨w, hw, hpc, -⟩ := h.stuck hquit i (hall i hi)
    exact hpc.elim (fun heq => absurd heq (hnone w hw).1) (fun heq => absurd heq (hnone w hw).2)

/-- **THE TEST OF THE COUNTER IS THE WRONG WAY ROUND**: without `quit`, the last worker
    that comes to it leaves the flag set while connections are outstanding, or not set
    when there are none. -/
theorem Serving.raises (h : Serving s l) {w : Nat} {ok : Bool} (hquit : l.quit = false)
    (hsome : l.accepted ≠ []) (hpc : (s.workers w).pc = .raise)
    (hlast : ∀ v < defaultWorkerCount, v ≠ w →
      (s.workers v).pc ≠ .account ∧ (s.workers v).pc ≠ .raise)
    (hstep : Threads.workerStep s w ok = some t) : ¬ Balanced t l := by
  intro hb
  rw [Threads.workerStep, hpc] at hstep
  obtain rfl := Option.some.inj hstep
  by_cases hzero : s.remainCount = 0
  · -- all have finished, and the flag is as it was
    have hflag := hb.late hquit hsome ?_ ?_
    · have hstays : (if s.remainCount ≠ 0 then true else s.continueInput) = false := by
        rw [if_neg (not_not.mpr hzero)]
        exact h.flag hquit
      cases hstays.symm.trans hflag
    · intro i hi
      have hnil : outstanding s l = [] := by
        have hlen := h.count
        rw [hzero] at hlen
        exact List.length_eq_zero_iff.mp (by omega)
      have hout := List.filter_eq_nil_iff.mp hnil i hi
      rw [Bool.or_eq_true, not_or, Bool.not_eq_true', Bool.not_eq_false] at hout
      exact List.contains_iff_mem.mp hout.1
    · intro v hv
      show (Function.update s.workers w _ v).pc ≠ _ ∧ (Function.update s.workers w _ v).pc ≠ _
      by_cases hvw : v = w
      · rw [hvw, Function.update_self]
        exact ⟨by rintro ⟨⟩, by rintro ⟨⟩⟩
      · rw [Function.update_of_ne hvw]
        exact hlast v hv hvw
  · -- connections are outstanding, and the flag is set
    exact hzero (hb.early hquit (if_pos hzero))

end Steps

/-- **THE COUNTER AND THE FLAG** are right after every run whose steps meet the
    condition. -/
theorem counter_right {as : List Act} {s : State} {l : Ledger}
    (hrun : (booked.guarded orderly).run (State.start true, .empty) as = some (s, l)) :
    Balanced s l := by
  have hkept : Reading s l ∨ Serving s l :=
    Machine.invariant (fun x _ _ (h : Reading x.1 x.2 ∨ Serving x.1 x.2) => takes_kept h)
      (Or.inl reading_start) hrun
  exact hkept.elim Reading.balanced Serving.balanced

/-- A file with one command, whose connection fails in the first call that a worker
    makes for it. -/
def oneCommand : List Act :=
  [.command .get 5] ++ dispatches 8 ++ [.endInput] ++ boot ++ [.fetch [5]] ++ dispatches 15 ++
    works 0 4

theorem counter_right_oneCommand :
    ∃ s l, (booked.guarded orderly).run (State.start true, .empty) oneCommand = some (s, l) ∧
      (s.workers 0).pc = .raise ∧ Balanced s l := by
  obtain ⟨⟨s, l⟩, hs, hpc⟩ := (Option.any_eq_true (fun x : State × Ledger => decide
    ((x.1.workers 0).pc = .raise)) _).mp
    (show ((booked.guarded orderly).run (State.start true, .empty) oneCommand).any _ = true by
      decide +kernel)
  exact ⟨s, l, hs, of_decide_eq_true hpc, counter_right hs⟩

/-- A file with two commands; the connection of the first ends. -/
def twoCommands : List Act :=
  [.command .get 5] ++ dispatches 8 ++ [.command .get 6] ++ dispatches 9 ++ [.endInput] ++ boot ++
    [.fetch [5]] ++ dispatches 15 ++ works 0 5

/-- The flag is set, although the second has not been served. -/
theorem twoCommands_early :
    ¬ ∀ as s l, booked.run (State.start true, .empty) as = some (s, l) → Balanced s l := by
  intro hall
  obtain ⟨⟨s, l⟩, hs, hat⟩ := (Option.any_eq_true (fun x : State × Ledger => decide
    (x.2.quit = false ∧ x.1.continueInput = true ∧ x.1.remainCount = 1)) _).mp
    (show (booked.run (State.start true, .empty) twoCommands).any _ = true by decide +kernel)
  obtain ⟨hquit, hflag, hcount⟩ := of_decide_eq_true hat
  have hzero := (hall _ s l hs).early hquit hflag
  exact absurd (hcount.symm.trans hzero) (by decide)

end RemainCount
