import Hftp.ThreadsProofs

/-! # The life of a command

    Nothing locks a connection.  Which worker handles it, and when, follows from
    where its command can be: with the dispatcher, in the queue of connections,
    with one worker, or with nobody, its request answered.  A command in such a
    phase is tied to what the slots, the workers, the queues and the dispatcher
    hold; here is the tie, and what of it a step keeps that moves one command, or
    none. -/

namespace CommandLife

open HttpCore RingBuffer Transition Threads

/-! ## Phases -/

/-- Where a command is. -/
inductive Phase where
  | free
  | carried
  | connQueued
  | reqPending (w : Nat)
  | reqRunning (w : Nat)
  | answered
  | respPending (w : Nat)
  | respRunning (w : Nat)
  /-- no worker and no queue will ever name it -/
  | lost
  deriving DecidableEq, Repr

/-- The worker that has the command. -/
def Phase.holder : Phase → Option Nat
  | .reqPending w | .reqRunning w | .respPending w | .respRunning w => some w
  | _ => none

/-- One move in the life of a command. -/
inductive Next : Phase → Phase → Prop
  | install : Next .free .carried
  | forget : Next .carried .lost
  | assign (w : Nat) : Next .carried (.reqPending w)
  | queue : Next .carried .connQueued
  | serve (w : Nat) : Next .connQueued (.reqPending w)
  | request (w : Nat) : Next (.reqPending w) (.reqRunning w)
  | answer (w : Nat) : Next (.reqRunning w) .answered
  | refuse (w : Nat) : Next (.reqRunning w) .free
  | hand (w : Nat) : Next .answered (.respPending w)
  | response (w : Nat) : Next (.respPending w) (.respRunning w)
  | finish (w : Nat) : Next (.respRunning w) .free

/-- One command moves. -/
def Move (φ ψ : Nat → Phase) : Prop := ∃ i p, Next (φ i) p ∧ ψ = Function.update φ i p

/-! ## What the program keeps about it -/

/-- Each handler was called at most once, and the response not too early. -/
def Orderly (v : Served) : Prop := v.requests ≤ 1 ∧ v.responses ≤ 1 ∧ v.early = false

/-- A slot as it is in a phase of its command. -/
def SlotIs (x : Slot) : Phase → Prop
  | .free => x.sockfd = 0 ∧ x.state ≠ 1 ∧ Orderly x.served
  | .carried | .connQueued | .reqPending _ | .lost =>
      2 < x.sockfd ∧ x.state = 0 ∧ x.served = .none
  | .reqRunning _ => 2 < x.sockfd ∧ x.state = 0 ∧ x.served = ⟨1, false, 0, false⟩
  | .answered => 2 < x.sockfd ∧ x.state = 1 ∧ x.served = ⟨1, true, 0, false⟩
  | .respPending _ =>
      2 < x.sockfd ∧ (x.state = 1 ∨ x.state = 2) ∧ x.served = ⟨1, true, 0, false⟩
  | .respRunning _ =>
      2 < x.sockfd ∧ (x.state = 1 ∨ x.state = 2) ∧ x.served = ⟨1, true, 1, false⟩

/-- A handler that is called next, and one that runs. -/
def pending (w : Nat) : Handler → Phase
  | .httpRequest => .reqPending w
  | .httpResponse => .respPending w

def running (w : Nat) : Handler → Phase
  | .httpRequest => .reqRunning w
  | .httpResponse => .respRunning w

/-- The phase of the command whose connection the worker names. -/
def claim (w : Nat) (x : Worker) : Option Phase :=
  match x.pc with
  | .exec h => some (running w h)
  | .test | .toWait | .waiting | .load => x.due.map (pending w)
  | _ => none

/-- A worker between its start and a call. -/
def resting : WorkerPc → Bool
  | .unborn | .start | .test | .toWait | .waiting => true
  | _ => false

/-- What is known of the slots. -/
structure SlotsOk (s : State) (φ : Nat → Phase) : Prop where
  slot : ∀ i, SlotIs (s.slots i) (φ i)
  bound : ∀ i, φ i ≠ .free → i < epollInstanceMaxSockfd
  fds : ∀ i j, φ i ≠ .free → (s.slots i).sockfd = (s.slots j).sockfd → i = j
  opened : ∀ i, φ i ≠ .free → (s.slots i).sockfd ∈ s.openFds

/-- What is known of each worker. -/
structure WorkerOk (s : State) (φ : Nat → Phase) (w : Nat) : Prop where
  claims : ∀ i p, (s.workers w).connIndex = some i → claim w (s.workers w) = some p → φ i = p
  held : ∀ i, (φ i).holder = some w → w < s.workspaceCount ∧
    (s.workers w).connIndex = some i ∧ claim w (s.workers w) = some (φ i)
  idle : (s.workers w).busy = false → resting (s.workers w).pc = true
  unnamed : (s.workers w).busy = false → (s.workers w).pc ≠ .unborn →
    (s.workers w).pc ≠ .start → s.dispatcher ≠ .setBusy w → (s.workers w).connIndex = none
  auto : resting (s.workers w).pc = true → (s.workers w).auto = .reserved
  emptied : (s.workers w).pc = .dequeueConn ∨ (s.workers w).pc = .dequeueEpoll ∨
    (s.workers w).pc = .clear →
    (s.workers w).connIndex = none ∧ (s.workers w).auto = .reserved
  conn : ∀ cev, (s.workers w).pc = .load → (s.workers w).auto = .conn cev →
    (s.workers w).connIndex = some cev.connIndex
  epoll : ∀ fd, (s.workers w).pc = .load → (s.workers w).auto = .epoll fd →
    ∃ i, (s.workers w).connIndex = some i ∧ (s.slots i).sockfd = fd
  unborn : spawned s.main ≤ w → (s.workers w).pc = .unborn

/-- The connections in the table that have this descriptor and an answered
    request are in one of the phases. -/
def Among (s : State) (φ : Nat → Phase) (fd : Nat) (q : Phase → Prop) : Prop :=
  ∀ i, φ i ≠ .free → (s.slots i).sockfd = fd → (s.slots i).state = 1 → q (φ i)

/-- What the dispatching thread may count on at each place. -/
def DispatcherOk (s : State) (φ : Nat → Phase) : DispatcherPc → Prop
  | .slot _ fd _ =>
      2 < fd ∧ fd ∈ s.openFds ∧ ∀ i, φ i ≠ .free → (s.slots i).sockfd ≠ fd
  | .slotWorkers _ fd i _ | .slotQueue _ fd i | .install _ fd i =>
      (2 < fd ∧ fd ∈ s.openFds ∧ ∀ j, φ j ≠ .free → (s.slots j).sockfd ≠ fd) ∧
        i < epollInstanceMaxSockfd ∧ φ i = .free
  | .epollAdd cev | .count cev | .assign cev | .connEnqueue cev =>
      φ cev.connIndex = .carried ∧ (s.slots cev.connIndex).sockfd = cev.sockfd
  | .scan fd th => Among s φ fd fun p => p = .answered ∨ ∃ w, th ≤ w ∧ p.holder = some w
  | .queueScan fd => Among s φ fd fun p => p = .answered
  | .idleCheck fd | .enqueue fd =>
      fd ∉ s.epollEvents ∧ Among s φ fd fun p => p = .answered
  | .store fd w =>
      (fd ∉ s.epollEvents ∧ Among s φ fd fun p => p = .answered) ∧
        (s.workers w).busy = false ∧ w < s.workspaceCount
  | .setBusy w => (s.workers w).busy = false
  | _ => True

/-- What the connection queue holds. -/
structure ConnsOk (s : State) (φ : Nat → Phase) : Prop where
  named : ∀ e ∈ s.connEvents, φ e.connIndex = .connQueued ∧
    (s.slots e.connIndex).sockfd = e.sockfd
  once : (s.connEvents.map ConnEvent.connIndex).Nodup

/-- **THE STATE TRACKS THE LIVES OF THE COMMANDS**. -/
structure Tracks (s : State) (φ : Nat → Phase) : Prop where
  slots : SlotsOk s φ
  worker : ∀ w, WorkerOk s φ w
  conns : ConnsOk s φ
  epolls : ∀ fd ∈ s.epollEvents, Among s φ fd fun p => p = .answered
  dispatcher : DispatcherOk s φ s.dispatcher
  workspace : s.workspaceCount = 0 ∨ s.workspaceCount = defaultWorkerCount
  born : spawned s.main ≤ defaultWorkerCount

/-! ## The start -/

/-- At the start every slot is free. -/
theorem tracks_start (fixedInput : Bool) : Tracks (State.start fixedInput) fun _ => .free := by
  have hconn : (State.start fixedInput).connEvents = [] := rfl
  have hepoll : (State.start fixedInput).epollEvents = [] := rfl
  constructor
  · constructor
    · intro i
      exact ⟨rfl, show (0 : Int) ≠ 1 by decide, Nat.zero_le _, Nat.zero_le _, rfl⟩
    · intro i h; exact absurd rfl h
    · intro i j h; exact absurd rfl h
    · intro i h; exact absurd rfl h
  · intro w
    constructor
    · intro i p _ hp
      cases hp
    · intro i h; cases h
    · intro _; rfl
    · intro _ h; exact absurd rfl h
    · intro _; rfl
    · rintro (h | h | h) <;> cases h
    · intro cev h; cases h
    · intro fd h; cases h
    · intro _; rfl
  · constructor
    · rw [hconn]
      intro e he
      cases he
    · rw [hconn]
      exact List.nodup_nil
  · rw [hepoll]
    intro fd hfd
    cases hfd
  · cases fixedInput <;> exact trivial
  · exact Or.inl rfl
  · cases fixedInput <;> exact Nat.zero_le _

/-! ## Facts of one state -/

/-- A handler that is to come is held by its worker. -/
theorem pending_holder (w : Nat) (h : Handler) : (pending w h).holder = some w := by
  cases h <;> rfl

/-- One that runs is too. -/
theorem running_holder (w : Nat) (h : Handler) : (running w h).holder = some w := by
  cases h <;> rfl

/-- A slot with a handler to come is in use, by no other. -/
theorem pending_live (w : Nat) (h : Handler) :
    pending w h ≠ .free ∧ pending w h ≠ .carried ∧ pending w h ≠ .connQueued := by
  cases h <;> exact ⟨by rintro ⟨⟩, by rintro ⟨⟩, by rintro ⟨⟩⟩

/-- So is one with a handler that runs. -/
theorem running_live (w : Nat) (h : Handler) :
    running w h ≠ .free ∧ running w h ≠ .carried ∧ running w h ≠ .connQueued := by
  cases h <;> exact ⟨by rintro ⟨⟩, by rintro ⟨⟩, by rintro ⟨⟩⟩

/-- A worker claims for itself. -/
theorem claim_holder {w : Nat} {x : Worker} {p : Phase} (h : claim w x = some p) :
    p.holder = some w := by
  rw [claim] at h
  split at h
  · rw [← Option.some.inj h]
    exact running_holder w _
  all_goals
    first
      | obtain ⟨d, -, rfl⟩ := Option.map_eq_some_iff.mp h
        exact pending_holder w d
      | cases h

/-- A slot that is not free has a descriptor. -/
theorem SlotIs.live {x : Slot} {p : Phase} (h : SlotIs x p) (hp : p ≠ .free) : 2 < x.sockfd := by
  cases p with
  | free => exact absurd rfl hp
  | carried => exact h.1
  | connQueued => exact h.1
  | reqPending w => exact h.1
  | reqRunning w => exact h.1
  | answered => exact h.1
  | respPending w => exact h.1
  | respRunning w => exact h.1
  | lost => exact h.1

/-- In every phase the handlers were called in order. -/
theorem SlotIs.orderly {x : Slot} {p : Phase} (h : SlotIs x p) : Orderly x.served := by
  cases p with
  | free => exact h.2.2
  | carried => exact h.2.2 ▸ ⟨Nat.zero_le _, Nat.zero_le _, rfl⟩
  | connQueued => exact h.2.2 ▸ ⟨Nat.zero_le _, Nat.zero_le _, rfl⟩
  | reqPending w => exact h.2.2 ▸ ⟨Nat.zero_le _, Nat.zero_le _, rfl⟩
  | reqRunning w => exact h.2.2 ▸ ⟨Nat.le_refl _, Nat.zero_le _, rfl⟩
  | answered => exact h.2.2 ▸ ⟨Nat.le_refl _, Nat.zero_le _, rfl⟩
  | respPending w => exact h.2.2 ▸ ⟨Nat.le_refl _, Nat.zero_le _, rfl⟩
  | respRunning w => exact h.2.2 ▸ ⟨Nat.le_refl _, Nat.le_refl _, rfl⟩
  | lost => exact h.2.2 ▸ ⟨Nat.zero_le _, Nat.zero_le _, rfl⟩

/-- A connection in the table whose request is answered has nothing else in
    store than its response. -/
theorem SlotIs.answered {x : Slot} {p : Phase} (h : SlotIs x p) (hp : p ≠ .free)
    (hstate : x.state = 1) : p = .answered ∨ ∃ w, p.holder = some w := by
  cases p with
  | free => exact absurd rfl hp
  | answered => exact Or.inl rfl
  | reqPending w => exact Or.inr ⟨w, rfl⟩
  | reqRunning w => exact Or.inr ⟨w, rfl⟩
  | respPending w => exact Or.inr ⟨w, rfl⟩
  | respRunning w => exact Or.inr ⟨w, rfl⟩
  | carried => have := h.2.1; omega
  | connQueued => have := h.2.1; omega
  | lost => have := h.2.1; omega

section Facts

variable {s : State} {φ : Nat → Phase}

/-- A slot in use names a descriptor. -/
theorem Tracks.sockfd_pos (h : Tracks s φ) {i : Nat} (hi : φ i ≠ .free) : (s.slots i).sockfd ≠ 0 := by
  have := (h.slots.slot i).live hi
  omega

/-- A slot is free exactly if it names none. -/
theorem Tracks.free_iff (h : Tracks s φ) (i : Nat) : φ i = .free ↔ (s.slots i).sockfd = 0 := by
  constructor
  · intro hi
    have hslot := h.slots.slot i
    rw [hi] at hslot
    exact hslot.1
  · intro hz
    by_contra hi
    exact h.sockfd_pos hi hz

/-- The search for a descriptor finds the connection that has it. -/
theorem Tracks.lookup_some (h : Tracks s φ) {i fd : Nat} (hi : φ i ≠ .free)
    (hfd : (s.slots i).sockfd = fd) :
    s.lookup fd = some i := by
  rw [State.lookup]
  cases hfind : (List.range epollInstanceMaxSockfd).find? fun k => (s.slots k).sockfd = fd with
  | none =>
      have hnone := List.find?_eq_none.mp hfind i (List.mem_range.mpr (h.slots.bound i hi))
      exact absurd (decide_eq_true hfd) hnone
  | some k =>
      have hk := List.find?_some hfind
      rw [decide_eq_true_eq] at hk
      rw [h.slots.fds i k hi (by rw [hfd, hk])]

/-- The search finds a slot with the descriptor. -/
theorem lookup_sockfd {s : State} {fd i : Nat} (h : s.lookup fd = some i) :
    (s.slots i).sockfd = fd := by
  rw [State.lookup] at h
  have hi := List.find?_some h
  rw [decide_eq_true_eq] at hi
  exact hi

/-- The search finds a worker that is idle and there. -/
theorem idleWorker_idle {s : State} {w : Nat} (h : s.idleWorker = some w) :
    (s.workers w).busy = false ∧ w < s.workspaceCount := by
  rw [State.idleWorker] at h
  have hidle := List.find?_some h
  have hmem := List.mem_range.mp (List.mem_of_find?_eq_some h)
  rw [Bool.not_eq_true'] at hidle
  exact ⟨hidle, by omega⟩

/-- A worker that does not rest is busy. -/
theorem WorkerOk.busy {w : Nat} (h : WorkerOk s φ w) (hpc : resting (s.workers w).pc = false) :
    (s.workers w).busy = true := by
  cases hb : (s.workers w).busy with
  | true => rfl
  | false =>
      rw [h.idle hb] at hpc
      cases hpc

/-- A worker that works has been created. -/
theorem WorkerOk.created {w : Nat} (h : WorkerOk s φ w) (hpc : resting (s.workers w).pc = false) :
    ¬ spawned s.main ≤ w := by
  intro hle
  rw [h.unborn hle] at hpc
  cases hpc

/-- A worker that claims no command, or names none, has none. -/
theorem Tracks.unclaimed (h : Tracks s φ) {w : Nat}
    (hw : claim w (s.workers w) = none ∨ (s.workers w).connIndex = none) (i : Nat) :
    (φ i).holder ≠ some w := by
  intro hi
  obtain ⟨-, hname, hclaim⟩ := (h.worker w).held i hi
  rcases hw with hw | hw
  · rw [hw] at hclaim
    cases hclaim
  · rw [hw] at hname
    cases hname

/-- A worker has one command at a time. -/
theorem Tracks.one_command (h : Tracks s φ) {i j w : Nat} (hi : (φ i).holder = some w)
    (hj : (φ j).holder = some w) : i = j := by
  have hi' := ((h.worker w).held i hi).2.1
  rw [((h.worker w).held j hj).2.1] at hi'
  exact (Option.some.inj hi').symm

/-- An idle worker has no command. -/
theorem Tracks.idle_free (h : Tracks s φ) {w : Nat} (hidle : (s.workers w).busy = false)
    (hdisp : s.dispatcher ≠ .setBusy w) (i : Nat) : (φ i).holder ≠ some w := by
  intro hi
  obtain ⟨-, hname, hclaim⟩ := (h.worker w).held i hi
  have hnone := (h.worker w).unnamed hidle (fun hpc => by rw [claim, hpc] at hclaim; cases hclaim)
    (fun hpc => by rw [claim, hpc] at hclaim; cases hclaim) hdisp
  rw [hnone] at hname
  cases hname

end Facts

/-! ## What a move changes -/

/-- No slot other than `i` changes. -/
structure Touches (s t : State) (i : Nat) : Prop where
  others : ∀ j, j ≠ i → t.slots j = s.slots j
  count : t.workspaceCount = s.workspaceCount
  main : t.main = s.main

/-- The command of connection `i` goes to phase `p`. -/
structure Moves (s t : State) (φ : Nat → Phase) (i : Nat) (p : Phase) : Prop
    extends Touches s t i where
  was : φ i ≠ .free
  slot : SlotIs (t.slots i) p
  sockfd : p = .free ∨ (t.slots i).sockfd = (s.slots i).sockfd
  openFds : t.openFds = s.openFds ∨
    (p = .free ∧ t.openFds = s.openFds.erase (s.slots i).sockfd)

section Move

variable {s t : State} {φ : Nat → Phase} {i : Nat} {p : Phase}

/-- A slot that moves on leaves the others as they were. -/
theorem SlotsOk.move (h : SlotsOk s φ) (m : Moves s t φ i p) :
    SlotsOk t (Function.update φ i p) := by
  constructor
  · intro j
    by_cases hj : j = i
    · rw [hj, Function.update_self]
      exact m.slot
    · rw [Function.update_of_ne hj, m.others j hj]
      exact h.slot j
  · intro j hlive
    by_cases hj : j = i
    · rw [hj]
      exact h.bound i m.was
    · rw [Function.update_of_ne hj] at hlive
      exact h.bound j hlive
  · intro j k hlive heq
    by_cases hj : j = i
    · rw [hj, Function.update_self] at hlive
      rw [hj] at heq ⊢
      by_cases hk : k = i
      · exact hk.symm
      · rw [m.others k hk, m.sockfd.resolve_left hlive] at heq
        exact h.fds i k m.was heq
    · rw [Function.update_of_ne hj] at hlive
      rw [m.others j hj] at heq
      by_cases hk : k = i
      · rw [hk] at heq ⊢
        rcases m.sockfd with hfree | hkept
        · have hslot := m.slot
          rw [hfree] at hslot
          have hpos := (h.slot j).live hlive
          rw [heq, hslot.1] at hpos
          exact absurd hpos (Nat.not_lt_zero 2)
        · rw [hkept] at heq
          exact h.fds j i hlive heq
      · rw [m.others k hk] at heq
        exact h.fds j k hlive heq
  · intro j hlive
    by_cases hj : j = i
    · rw [hj, Function.update_self] at hlive
      rw [hj, m.sockfd.resolve_left hlive]
      rcases m.openFds with hsame | ⟨hfree, -⟩
      · rw [hsame]
        exact h.opened i m.was
      · exact absurd hfree hlive
    · rw [Function.update_of_ne hj] at hlive
      rw [m.others j hj]
      rcases m.openFds with hsame | ⟨-, herase⟩
      · rw [hsame]
        exact h.opened j hlive
      · rw [herase]
        exact (List.mem_erase_of_ne (fun heq => hj (h.fds j i hlive heq))).mpr (h.opened j hlive)

/-- The workers that have nothing to do with the command. -/
theorem WorkerOk.other {v : Nat} (h : WorkerOk s φ v) (m : Touches s t i)
    (hv : t.workers v = s.workers v) (hwas : (φ i).holder ≠ some v) (hnow : p.holder ≠ some v)
    (hdisp : s.dispatcher = .setBusy v → t.dispatcher = .setBusy v) :
    WorkerOk t (Function.update φ i p) v := by
  have hclaims : ∀ j q, (s.workers v).connIndex = some j → claim v (s.workers v) = some q →
      j ≠ i ∧ φ j = q := by
    intro j q hj hq
    have hphase := h.claims j q hj hq
    refine ⟨?_, hphase⟩
    rintro rfl
    rw [hphase] at hwas
    exact hwas (claim_holder hq)
  constructor
  · intro j q hj hq
    rw [hv] at hj hq
    obtain ⟨hne, hphase⟩ := hclaims j q hj hq
    rw [Function.update_of_ne hne]
    exact hphase
  · intro j hheld
    by_cases hj : j = i
    · rw [hj, Function.update_self] at hheld
      exact absurd hheld hnow
    · rw [Function.update_of_ne hj] at hheld ⊢
      rw [m.count, hv]
      exact h.held j hheld
  · rw [hv]; exact h.idle
  · rw [hv]
    intro hidle hunborn hstart hne
    exact h.unnamed hidle hunborn hstart (fun heq => hne (hdisp heq))
  · rw [hv]; exact h.auto
  · rw [hv]; exact h.emptied
  · rw [hv]; exact h.conn
  · rw [hv]
    intro fd hload hauto
    obtain ⟨j, hj, hfd⟩ := h.epoll fd hload hauto
    have hne := (hclaims j (.respPending v) hj (by
      rw [claim, hload]
      dsimp only
      rw [Worker.due, hauto]
      rfl)).1
    exact ⟨j, hj, by rw [m.others j hne]; exact hfd⟩
  · rw [hv, m.main]; exact h.unborn

/-- A command that moves stays among those it was among, if a request that is
    answered is left to be handed on. -/
theorem Among.move {fd : Nat} {q : Phase → Prop} (h : Among s φ fd q) (m : Moves s t φ i p)
    (hstate : (t.slots i).state = 1 → p ≠ .free → p = .answered ∨
      ((s.slots i).state = 1 ∧ p.holder = (φ i).holder ∧ (φ i).holder ≠ none))
    (hanswered : q .answered)
    (hsame : ∀ r : Phase, r.holder = (φ i).holder → (φ i).holder ≠ none → q (φ i) → q r) :
    Among t (Function.update φ i p) fd q := by
  intro j hlive hfd hone
  by_cases hj : j = i
  · rw [hj, Function.update_self] at hlive ⊢
    rw [hj] at hfd hone
    rcases hstate hone hlive with hp | ⟨hwas, hholder, hsome⟩
    · rw [hp]
      exact hanswered
    · refine hsame p hholder hsome (h i m.was ?_ hwas)
      rw [← m.sockfd.resolve_left hlive]
      exact hfd
  · rw [Function.update_of_ne hj] at hlive ⊢
    rw [m.others j hj] at hfd hone
    exact h j hlive hfd hone

/-- The same of the phase that no worker has. -/
theorem Among.move_answered {fd : Nat} (h : Among s φ fd fun r => r = .answered)
    (m : Moves s t φ i p)
    (hstate : (t.slots i).state = 1 → p ≠ .free → p = .answered ∨
      ((s.slots i).state = 1 ∧ p.holder = (φ i).holder ∧ (φ i).holder ≠ none)) :
    Among t (Function.update φ i p) fd fun r => r = .answered := by
  refine Among.move h m hstate rfl (fun r _ hsome hq => ?_)
  rw [show φ i = .answered from hq] at hsome
  exact absurd rfl hsome

/-- The dispatcher, while a worker moves a command. -/
theorem DispatcherOk.move {d : DispatcherPc} (h : DispatcherOk s φ d)
    (m : Moves s t φ i p) (hne : φ i ≠ .carried)
    (hstate : (t.slots i).state = 1 → p ≠ .free → p = .answered ∨
      ((s.slots i).state = 1 ∧ p.holder = (φ i).holder ∧ (φ i).holder ≠ none))
    (hepoll : ∀ fd ∈ t.epollEvents, fd ∈ s.epollEvents)
    (hbusy : ∀ v, (s.workers v).busy = false → (t.workers v).busy = false) :
    DispatcherOk t (Function.update φ i p) d := by
  -- a socket on its way is not the one of the slot that moves
  have hfresh : ∀ fd, (2 < fd ∧ fd ∈ s.openFds ∧ ∀ j, φ j ≠ .free → (s.slots j).sockfd ≠ fd) →
      2 < fd ∧ fd ∈ t.openFds ∧
        ∀ j, Function.update φ i p j ≠ .free → (t.slots j).sockfd ≠ fd := by
    rintro fd ⟨hpos, hopen, hnot⟩
    refine ⟨hpos, ?_, ?_⟩
    · rcases m.openFds with hsame | ⟨-, herase⟩
      · rw [hsame]
        exact hopen
      · rw [herase]
        exact (List.mem_erase_of_ne (fun heq => hnot i m.was heq.symm)).mpr hopen
    · intro j hlive
      by_cases hj : j = i
      · rw [hj, Function.update_self] at hlive
        rw [hj, m.sockfd.resolve_left hlive]
        exact hnot i m.was
      · rw [Function.update_of_ne hj] at hlive
        rw [m.others j hj]
        exact hnot j hlive
  have hfree : ∀ j, φ j = .free → Function.update φ i p j = .free := by
    intro j hj
    rw [Function.update_of_ne (by rintro rfl; exact m.was hj)]
    exact hj
  -- the slot being handed over is carried, and the one that moves is not
  have hcarried : ∀ cev : ConnEvent, (φ cev.connIndex = .carried ∧
      (s.slots cev.connIndex).sockfd = cev.sockfd) →
      Function.update φ i p cev.connIndex = .carried ∧
        (t.slots cev.connIndex).sockfd = cev.sockfd := by
    rintro cev ⟨hphase, hfd⟩
    have hj : cev.connIndex ≠ i := fun heq => hne (heq ▸ hphase)
    rw [Function.update_of_ne hj, m.others _ hj]
    exact ⟨hphase, hfd⟩
  have hclear : ∀ fd, (fd ∉ s.epollEvents ∧ Among s φ fd fun r => r = .answered) →
      fd ∉ t.epollEvents ∧ Among t (Function.update φ i p) fd fun r => r = .answered :=
    fun fd hfd => ⟨fun hmem => hfd.1 (hepoll fd hmem), hfd.2.move_answered m hstate⟩
  cases d with
  | slot m fd k => exact hfresh fd h
  | slotWorkers m fd k j => exact ⟨hfresh fd h.1, h.2.1, hfree k h.2.2⟩
  | slotQueue m fd k => exact ⟨hfresh fd h.1, h.2.1, hfree k h.2.2⟩
  | install m fd k => exact ⟨hfresh fd h.1, h.2.1, hfree k h.2.2⟩
  | epollAdd cev => exact hcarried cev h
  | count cev => exact hcarried cev h
  | assign cev => exact hcarried cev h
  | connEnqueue cev => exact hcarried cev h
  -- the command is with nobody, or with a worker the scan has yet to come to
  | scan fd th =>
      have hall : Among s φ fd fun r => r = .answered ∨ ∃ w, th ≤ w ∧ r.holder = some w := h
      refine hall.move m hstate (Or.inl rfl) ?_
      rintro r hholder hsome (hq | ⟨w, hw, hq⟩)
      · rw [hq] at hsome
        exact absurd rfl hsome
      · exact Or.inr ⟨w, hw, by rw [hholder, hq]⟩
  | queueScan fd => exact Among.move_answered h m hstate
  | idleCheck fd => exact hclear fd h
  | enqueue fd => exact hclear fd h
  | store fd w =>
      refine ⟨hclear fd h.1, hbusy w h.2.1, ?_⟩
      rw [m.count]
      exact h.2.2
  | setBusy w => exact hbusy w h
  | unborn => exact trivial
  | line => exact trivial
  | input => exact trivial
  | connSignal w => exact trivial
  | quitSignal => exact trivial
  | wait => exact trivial
  | next => exact trivial
  | signal w => exact trivial
  | fault => exact trivial

/-! ## The queues -/

/-- A slot that is not queued changes nothing for those that are. -/
theorem ConnsOk.other (h : ConnsOk s φ) (m : Touches s t i) (hconn : t.connEvents = s.connEvents)
    (hwas : φ i ≠ .connQueued) :
    ConnsOk t (Function.update φ i p) := by
  constructor
  · rw [hconn]
    intro e he
    obtain ⟨hphase, hfd⟩ := h.named e he
    have hj : e.connIndex ≠ i := fun heq => hwas (heq ▸ hphase)
    rw [Function.update_of_ne hj, m.others _ hj]
    exact ⟨hphase, hfd⟩
  · rw [hconn]
    exact h.once

/-- The head of the connection queue is taken. -/
theorem ConnsOk.take (h : ConnsOk s φ) {cev : ConnEvent} (m : Touches s t cev.connIndex)
    (hconn : s.connEvents = cev :: t.connEvents) :
    ConnsOk t (Function.update φ cev.connIndex p) := by
  have honce := h.once
  rw [hconn, List.map_cons, List.nodup_cons] at honce
  constructor
  · intro e he
    obtain ⟨hphase, hfd⟩ := h.named e (by rw [hconn]; exact List.mem_cons_of_mem _ he)
    have hj : e.connIndex ≠ cev.connIndex := by
      intro heq
      exact honce.1 (by rw [← heq]; exact List.mem_map_of_mem he)
    rw [Function.update_of_ne hj, m.others _ hj]
    exact ⟨hphase, hfd⟩
  · exact honce.2

/-- A command is put into the connection queue. -/
theorem ConnsOk.put (h : ConnsOk s φ) {cev : ConnEvent} (m : Touches s t cev.connIndex)
    (hconn : t.connEvents = s.connEvents ++ [cev])
    (hfd : (t.slots cev.connIndex).sockfd = cev.sockfd) (hwas : φ cev.connIndex ≠ .connQueued) :
    ConnsOk t (Function.update φ cev.connIndex .connQueued) := by
  have hother : ∀ e ∈ s.connEvents, e.connIndex ≠ cev.connIndex :=
    fun e he heq => hwas (heq ▸ (h.named e he).1)
  constructor
  · rw [hconn]
    intro e he
    rcases List.mem_append.mp he with he' | he'
    · obtain ⟨hphase, hsock⟩ := h.named e he'
      have hj := hother e he'
      rw [Function.update_of_ne hj, m.others _ hj]
      exact ⟨hphase, hsock⟩
    · rw [List.mem_singleton.mp he', Function.update_self]
      exact ⟨rfl, hfd⟩
  · rw [hconn, List.map_append, List.map_singleton, List.nodup_append]
    refine ⟨h.once, List.nodup_singleton _, ?_⟩
    rintro a ha b hb rfl
    obtain ⟨e, he, heq⟩ := List.mem_map.mp ha
    rw [List.mem_singleton.mp hb] at heq
    exact hother e he heq

end Move

/-! ## What leaves the commands alone -/

/-- A step that moves no command. -/
structure Quiet (s t : State) : Prop where
  slots : t.slots = s.slots
  openFds : t.openFds = s.openFds
  conns : t.connEvents = s.connEvents
  epolls : ∀ fd ∈ t.epollEvents, fd ∈ s.epollEvents
  count : s.workspaceCount ≤ t.workspaceCount
  born : spawned s.main ≤ spawned t.main

section Quiet

variable {s t : State} {φ : Nat → Phase}

/-- A step that touches no slot keeps what is known of them. -/
theorem Quiet.slotsOk (q : Quiet s t) (h : SlotsOk s φ) : SlotsOk t φ := by
  constructor
  · rw [q.slots]; exact h.slot
  · exact h.bound
  · rw [q.slots]; exact h.fds
  · rw [q.slots, q.openFds]; exact h.opened

/-- So it does for the queue. -/
theorem Quiet.connsOk (q : Quiet s t) (h : ConnsOk s φ) : ConnsOk t φ := by
  constructor
  · rw [q.conns, q.slots]; exact h.named
  · rw [q.conns]; exact h.once

/-- So it does for a descriptor. -/
theorem Quiet.among (q : Quiet s t) {fd : Nat} {r : Phase → Prop} (h : Among s φ fd r) :
    Among t φ fd r := by
  rw [Among, q.slots]
  exact h

/-- So it does for a worker it does not touch. -/
theorem Quiet.workerOk (q : Quiet s t) {v : Nat} (h : WorkerOk s φ v)
    (hv : t.workers v = s.workers v)
    (hdisp : s.dispatcher = .setBusy v → t.dispatcher = .setBusy v ∨ (s.workers v).pc = .unborn) :
    WorkerOk t φ v := by
  constructor
  · rw [hv]; exact h.claims
  · intro i hi
    obtain ⟨hlt, hname, hclaim⟩ := h.held i hi
    rw [hv]
    exact ⟨Nat.lt_of_lt_of_le hlt q.count, hname, hclaim⟩
  · rw [hv]; exact h.idle
  · rw [hv]
    intro hidle hborn hstart hne
    refine h.unnamed hidle hborn hstart (fun heq => ?_)
    rcases hdisp heq with hnow | hunborn
    · exact hne hnow
    · exact hborn hunborn
  · rw [hv]; exact h.auto
  · rw [hv]; exact h.emptied
  · rw [hv]; exact h.conn
  · rw [hv, q.slots]; exact h.epoll
  · rw [hv]
    intro hle
    exact h.unborn (Nat.le_trans q.born hle)

/-- So it does for the dispatcher. -/
theorem Quiet.dispatcherOk (q : Quiet s t) {d : DispatcherPc} (h : DispatcherOk s φ d)
    (hbusy : ∀ v, (s.workers v).busy = false → (t.workers v).busy = false) :
    DispatcherOk t φ d := by
  have hfresh : ∀ fd, (2 < fd ∧ fd ∈ s.openFds ∧ ∀ j, φ j ≠ .free → (s.slots j).sockfd ≠ fd) →
      2 < fd ∧ fd ∈ t.openFds ∧ ∀ j, φ j ≠ .free → (t.slots j).sockfd ≠ fd := by
    rw [q.openFds, q.slots]
    exact fun _ hfd => hfd
  have hcarried : ∀ cev : ConnEvent, (φ cev.connIndex = .carried ∧
      (s.slots cev.connIndex).sockfd = cev.sockfd) →
      φ cev.connIndex = .carried ∧ (t.slots cev.connIndex).sockfd = cev.sockfd := by
    rw [q.slots]
    exact fun _ hcev => hcev
  have hclear : ∀ fd, (fd ∉ s.epollEvents ∧ Among s φ fd fun r => r = .answered) →
      fd ∉ t.epollEvents ∧ Among t φ fd fun r => r = .answered := by
    exact fun fd hfd => ⟨fun hmem => hfd.1 (q.epolls fd hmem), q.among hfd.2⟩
  cases d with
  | slot m fd k => exact hfresh fd h
  | slotWorkers m fd k j => exact ⟨hfresh fd h.1, h.2⟩
  | slotQueue m fd k => exact ⟨hfresh fd h.1, h.2⟩
  | install m fd k => exact ⟨hfresh fd h.1, h.2⟩
  | epollAdd cev => exact hcarried cev h
  | count cev => exact hcarried cev h
  | assign cev => exact hcarried cev h
  | connEnqueue cev => exact hcarried cev h
  | scan fd th =>
      have hall : Among s φ fd fun r => r = .answered ∨ ∃ w, th ≤ w ∧ r.holder = some w := h
      exact q.among hall
  | queueScan fd =>
      have hall : Among s φ fd fun r => r = .answered := h
      exact q.among hall
  | idleCheck fd => exact hclear fd h
  | enqueue fd => exact hclear fd h
  | store fd w => exact ⟨hclear fd h.1, hbusy w h.2.1, Nat.lt_of_lt_of_le h.2.2 q.count⟩
  | setBusy w => exact hbusy w h
  | unborn => exact trivial
  | line => exact trivial
  | input => exact trivial
  | connSignal w => exact trivial
  | quitSignal => exact trivial
  | wait => exact trivial
  | next => exact trivial
  | signal w => exact trivial
  | fault => exact trivial

/-- A quiet step of the dispatcher. -/
theorem Tracks.quiet (h : Tracks s φ) (q : Quiet s t) (hv : t.workers = s.workers)
    (hcount : t.workspaceCount = s.workspaceCount ∨ t.workspaceCount = defaultWorkerCount)
    (hborn : spawned t.main ≤ defaultWorkerCount)
    (hne : ∀ v, s.dispatcher = .setBusy v →
      t.dispatcher = .setBusy v ∨ (s.workers v).pc = .unborn)
    (hdisp : DispatcherOk t φ t.dispatcher) :
    Tracks t φ := by
  constructor
  · exact q.slotsOk h.slots
  · exact fun v => q.workerOk (h.worker v) (by rw [hv]) (hne v)
  · exact q.connsOk h.conns
  · exact fun fd hfd => q.among (h.epolls fd (q.epolls fd hfd))
  · exact hdisp
  · rcases hcount with hcount | hcount
    · rw [hcount]; exact h.workspace
    · exact Or.inr hcount
  · exact hborn

/-- A quiet step that concerns one worker. -/
theorem Tracks.one (h : Tracks s φ) (q : Quiet s t) {w : Nat}
    (hv : ∀ v, v ≠ w → t.workers v = s.workers v) (hw : WorkerOk t φ w)
    (hcount : t.workspaceCount = s.workspaceCount) (hborn : spawned t.main ≤ defaultWorkerCount)
    (hsame : ∀ v, v ≠ w → s.dispatcher = .setBusy v → t.dispatcher = .setBusy v)
    (hdisp : DispatcherOk t φ t.dispatcher) :
    Tracks t φ := by
  constructor
  · exact q.slotsOk h.slots
  · intro v
    by_cases hvw : v = w
    · rw [hvw]
      exact hw
    · exact q.workerOk (h.worker v) (hv v hvw) (fun hd => Or.inl (hsame v hvw hd))
  · exact q.connsOk h.conns
  · exact fun fd hfd => q.among (h.epolls fd (q.epolls fd hfd))
  · exact hdisp
  · rw [hcount]; exact h.workspace
  · exact hborn

/-- A quiet step of one worker. -/
theorem Tracks.workerStep (h : Tracks s φ) (q : Quiet s t) {w : Nat}
    (hv : ∀ v, v ≠ w → t.workers v = s.workers v) (hw : WorkerOk t φ w)
    (hbusy : (s.workers w).busy = false → (t.workers w).busy = false)
    (hcount : t.workspaceCount = s.workspaceCount)
    (hborn : spawned t.main ≤ defaultWorkerCount) (hdisp : t.dispatcher = s.dispatcher) :
    Tracks t φ := by
  refine h.one q hv hw hcount hborn (fun v _ hd => hdisp ▸ hd) ?_
  rw [hdisp]
  refine q.dispatcherOk h.dispatcher (fun v hidle => ?_)
  by_cases hvw : v = w
  · rw [hvw] at hidle ⊢
    exact hbusy hidle
  · rw [hv v hvw]
    exact hidle

end Quiet

/-! ## Workers at work and at rest -/

/-- A worker between the end of a call and its next rest. -/
def working : WorkerPc → Bool
  | .account | .raise | .signal | .release | .dequeueConn | .dequeueEpoll | .clear | .fault => true
  | _ => false

/-- A worker at the test of its busy bit, or behind it. -/
def dozing : WorkerPc → Bool
  | .test | .toWait | .waiting => true
  | _ => false

/-- A worker that works and holds nothing names nothing it would take up. -/
theorem workerOk_working {s : State} {φ : Nat → Phase} {w : Nat}
    (hpc : working (s.workers w).pc = true) (hbusy : (s.workers w).busy = true)
    (hheld : ∀ i, (φ i).holder ≠ some w) (hborn : ¬ spawned s.main ≤ w)
    (hempty : (s.workers w).pc = .dequeueConn ∨ (s.workers w).pc = .dequeueEpoll ∨
      (s.workers w).pc = .clear →
      (s.workers w).connIndex = none ∧ (s.workers w).auto = .reserved) :
    WorkerOk s φ w := by
  have hnot : claim w (s.workers w) = none ∧ resting (s.workers w).pc = false ∧
      (s.workers w).pc ≠ .load := by
    rw [claim]
    revert hpc
    cases (s.workers w).pc with
    | exec d => rintro ⟨⟩
    | unborn => rintro ⟨⟩
    | start => rintro ⟨⟩
    | test => rintro ⟨⟩
    | toWait => rintro ⟨⟩
    | waiting => rintro ⟨⟩
    | load => rintro ⟨⟩
    | account => exact fun _ => ⟨rfl, rfl, by rintro ⟨⟩⟩
    | raise => exact fun _ => ⟨rfl, rfl, by rintro ⟨⟩⟩
    | signal => exact fun _ => ⟨rfl, rfl, by rintro ⟨⟩⟩
    | release => exact fun _ => ⟨rfl, rfl, by rintro ⟨⟩⟩
    | dequeueConn => exact fun _ => ⟨rfl, rfl, by rintro ⟨⟩⟩
    | dequeueEpoll => exact fun _ => ⟨rfl, rfl, by rintro ⟨⟩⟩
    | clear => exact fun _ => ⟨rfl, rfl, by rintro ⟨⟩⟩
    | fault => exact fun _ => ⟨rfl, rfl, by rintro ⟨⟩⟩
  obtain ⟨hclaim, hrest, hload⟩ := hnot
  constructor
  · intro i p _ hp
    rw [hclaim] at hp
    cases hp
  · intro i hi
    exact absurd hi (hheld i)
  · intro hidle
    rw [hbusy] at hidle
    cases hidle
  · intro hidle
    rw [hbusy] at hidle
    cases hidle
  · intro hr
    rw [hrest] at hr
    cases hr
  · exact hempty
  · intro cev hl; exact absurd hl hload
  · intro fd hl; exact absurd hl hload
  · intro hle; exact absurd hle hborn

/-- Who dozes rests. -/
theorem dozing_resting {pc : WorkerPc} (h : dozing pc = true) : resting pc = true := by
  revert h
  cases pc with
  | test => exact fun _ => rfl
  | toWait => exact fun _ => rfl
  | waiting => exact fun _ => rfl
  | _ => rintro ⟨⟩

/-- Who rests and has started dozes. -/
theorem resting_early {pc : WorkerPc} (h : resting pc = true)
    (hearly : ¬ (pc = .unborn ∨ pc = .start)) : dozing pc = true := by
  revert h hearly
  cases pc with
  | unborn => exact fun _ h => absurd (Or.inl rfl) h
  | start => exact fun _ h => absurd (Or.inr rfl) h
  | test => exact fun _ _ => rfl
  | toWait => exact fun _ _ => rfl
  | waiting => exact fun _ _ => rfl
  | _ => rintro ⟨⟩

/-- Who dozes claims what it was given. -/
theorem claim_dozing {w : Nat} {x : Worker} (h : dozing x.pc = true ∨ x.pc = .load) :
    claim w x = x.due.map (pending w) := by
  rw [claim]
  revert h
  cases x.pc with
  | test => exact fun _ => rfl
  | toWait => exact fun _ => rfl
  | waiting => exact fun _ => rfl
  | load => exact fun _ => rfl
  | _ => exact fun h => h.elim (by rintro ⟨⟩) (by rintro ⟨⟩)

/-- What a worker does that was given a handler by the dispatcher. -/
theorem claim_given {w : Nat} {x : Worker} {d : Handler} (h : dozing x.pc = true)
    (hauto : x.auto = .reserved) (hprocess : x.process = some d) :
    claim w x = some (pending w d) := by
  rw [claim_dozing (Or.inl h), Worker.due, hauto]
  dsimp only
  rw [hprocess]
  rfl

/-- A step of a worker at work. -/
theorem Tracks.work {s t : State} {φ : Nat → Phase} {w : Nat} (h : Tracks s φ) (q : Quiet s t)
    (hother : ∀ v, v ≠ w → t.workers v = s.workers v)
    (hrest : resting (s.workers w).pc = false) (hheld : ∀ i, (φ i).holder ≠ some w)
    (hpc : working (t.workers w).pc = true) (hbusy : (t.workers w).busy = (s.workers w).busy)
    (hempty : (t.workers w).pc = .dequeueConn ∨ (t.workers w).pc = .dequeueEpoll ∨
      (t.workers w).pc = .clear →
      (t.workers w).connIndex = none ∧ (t.workers w).auto = .reserved)
    (hcount : t.workspaceCount = s.workspaceCount) (hmain : t.main = s.main)
    (hdisp : t.dispatcher = s.dispatcher) :
    Tracks t φ := by
  have hw := h.worker w
  refine h.workerStep q hother ?_ ?_ hcount (by rw [hmain]; exact h.born) hdisp
  · refine workerOk_working hpc ?_ hheld ?_ hempty
    · rw [hbusy]
      exact hw.busy hrest
    · rw [hmain]
      exact hw.created hrest
  · rw [hbusy]
    exact id

/-- A dozing worker goes to another place of its loop, or leaves it when busy. -/
theorem WorkerOk.doze {s t : State} {φ : Nat → Phase} {w : Nat} {pc : WorkerPc}
    (h : WorkerOk s φ w) (hdoze : dozing (s.workers w).pc = true)
    (hpc : dozing pc = true ∨ (pc = .load ∧ (s.workers w).busy = true))
    (ht : t.workers w = { s.workers w with pc := pc }) (q : Quiet s t)
    (hborn : spawned t.main = spawned s.main) (hdisp : t.dispatcher = s.dispatcher) :
    WorkerOk t φ w := by
  have hauto := h.auto (dozing_resting hdoze)
  have hclaim : claim w (t.workers w) = claim w (s.workers w) := by
    rw [claim_dozing (Or.inl hdoze), claim_dozing (by rw [ht]; exact hpc.imp_right And.left), ht]
    rfl
  have hname : (t.workers w).connIndex = (s.workers w).connIndex := by rw [ht]
  have hbusy : (t.workers w).busy = (s.workers w).busy := by rw [ht]
  have hreserved : (t.workers w).auto = .reserved := by
    rw [ht]
    exact hauto
  have hnot : (s.workers w).pc ≠ .unborn ∧ (s.workers w).pc ≠ .start := by
    constructor
    · intro heq
      rw [heq] at hdoze
      cases hdoze
    · intro heq
      rw [heq] at hdoze
      cases hdoze
  constructor
  · rw [hclaim, hname]; exact h.claims
  · intro i hi
    rw [hclaim, hname]
    obtain ⟨hlt, hrest⟩ := h.held i hi
    exact ⟨Nat.lt_of_lt_of_le hlt q.count, hrest⟩
  · rw [hbusy, ht]
    intro hidle
    rcases hpc with hpc | ⟨-, hb⟩
    · exact dozing_resting hpc
    · rw [hb] at hidle
      cases hidle
  · rw [hbusy, hname, hdisp]
    exact fun hidle _ _ => h.unnamed hidle hnot.1 hnot.2
  · exact fun _ => hreserved
  · rw [ht]
    rcases hpc with hpc | ⟨rfl, -⟩
    · rintro (heq | heq | heq) <;>
      · rw [show pc = _ from heq] at hpc
        cases hpc
    · rintro (heq | heq | heq) <;> cases heq
  · intro cev _ hconn
    rw [hreserved] at hconn
    cases hconn
  · intro fd _ hepoll
    rw [hreserved] at hepoll
    cases hepoll
  · rw [hborn]
    exact fun hle => absurd (h.unborn hle) hnot.1

/-- A worker that is not at its loop yet. -/
theorem workerOk_early {s : State} {φ : Nat → Phase} {w : Nat}
    (hpc : (s.workers w).pc = .unborn ∨ (s.workers w).pc = .start)
    (hauto : (s.workers w).auto = .reserved) (hheld : ∀ i, (φ i).holder ≠ some w)
    (hborn : spawned s.main ≤ w → (s.workers w).pc = .unborn) :
    WorkerOk s φ w := by
  have hclaim : claim w (s.workers w) = none := by
    rw [claim]
    rcases hpc with hpc | hpc
    · rw [hpc]
    · rw [hpc]
  have hat : ∀ pc, (s.workers w).pc = pc → pc = .unborn ∨ pc = .start := by
    rintro pc rfl
    exact hpc
  constructor
  · intro i p _ hp
    rw [hclaim] at hp
    cases hp
  · exact fun i hi => absurd hi (hheld i)
  · intro _
    rcases hpc with hpc | hpc
    · rw [hpc]; rfl
    · rw [hpc]; rfl
  · intro _ hunborn hstart
    exact (hpc.elim hunborn hstart).elim
  · exact fun _ => hauto
  · rintro (heq | heq | heq)
    · exact (hat _ heq).elim (by rintro ⟨⟩) (by rintro ⟨⟩)
    · exact (hat _ heq).elim (by rintro ⟨⟩) (by rintro ⟨⟩)
    · exact (hat _ heq).elim (by rintro ⟨⟩) (by rintro ⟨⟩)
  · intro cev heq
    exact (hat _ heq).elim (by rintro ⟨⟩) (by rintro ⟨⟩)
  · intro fd heq
    exact (hat _ heq).elim (by rintro ⟨⟩) (by rintro ⟨⟩)
  · exact hborn

/-- A worker at rest that has no connection. -/
theorem workerOk_nameless {s : State} {φ : Nat → Phase} {w : Nat}
    (hrest : resting (s.workers w).pc = true) (hname : (s.workers w).connIndex = none)
    (hauto : (s.workers w).auto = .reserved) (hheld : ∀ i, (φ i).holder ≠ some w)
    (hborn : spawned s.main ≤ w → (s.workers w).pc = .unborn) :
    WorkerOk s φ w := by
  have hat : ∀ pc, (s.workers w).pc = pc → resting pc = true := by
    rintro pc rfl
    exact hrest
  constructor
  · intro i p hi
    rw [hname] at hi
    cases hi
  · exact fun i hi => absurd hi (hheld i)
  · exact fun _ => hrest
  · exact fun _ _ _ _ => hname
  · exact fun _ => hauto
  · exact fun _ => ⟨hname, hauto⟩
  · intro cev heq
    exact absurd (hat _ heq) (by rintro ⟨⟩)
  · intro fd heq
    exact absurd (hat _ heq) (by rintro ⟨⟩)
  · exact hborn

/-- A worker with a command. -/
theorem workerOk_claiming {s : State} {φ : Nat → Phase} {w i : Nat} {p : Phase}
    (hname : (s.workers w).connIndex = some i) (hclaim : claim w (s.workers w) = some p)
    (hphase : φ i = p) (honly : ∀ j, (φ j).holder = some w → j = i)
    (hlt : w < s.workspaceCount) (hborn : ¬ spawned s.main ≤ w)
    (hidle : (s.workers w).busy = false →
      resting (s.workers w).pc = true ∧ s.dispatcher = .setBusy w)
    (hauto : resting (s.workers w).pc = true → (s.workers w).auto = .reserved)
    (hconn : ∀ cev, (s.workers w).auto = .conn cev → i = cev.connIndex)
    (hepoll : ∀ fd, (s.workers w).auto = .epoll fd → (s.slots i).sockfd = fd) :
    WorkerOk s φ w := by
  constructor
  · intro j q hj hq
    rw [hname] at hj
    rw [hclaim] at hq
    rw [← Option.some.inj hj, ← Option.some.inj hq]
    exact hphase
  · intro j hj
    rw [honly j hj, hphase]
    exact ⟨hlt, hname, hclaim⟩
  · exact fun hb => (hidle hb).1
  · intro hb _ _ hne
    exact absurd (hidle hb).2 hne
  · exact hauto
  · rintro (heq | heq | heq) <;>
    · rw [claim, heq] at hclaim
      cases hclaim
  · intro cev _ hc
    rw [hname, hconn cev hc]
  · intro fd _ he
    exact ⟨i, hname, hepoll fd he⟩
  · exact fun hle => absurd hle hborn

end CommandLife
