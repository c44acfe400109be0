import Hftp.AssignmentProofs
import Hftp.QueueProofs

/-! # The connections handlers are called with

    A worker calls a handler with `g_conn_workspace + conn_index`, and both the index
    and what the slot holds come from steps taken long before: a command installed, an
    event looked up, an entry taken from a queue.  A slot that is in use has a
    descriptor of its own that is open; what is kept is that whoever will name a slot
    in a call names one in use. -/

namespace Invocation

open HttpCore RingBuffer Transition Threads
open CommandLife (resting dozing dozing_resting lookup_sockfd idleWorker_idle)
open Assignment (engagedBy Kept Pending startsFree)

/-! ## Valid calls -/

/-- The slot is in the table, and its descriptor is open and none of the standard
    streams. -/
def Live (s : State) (i : Nat) : Prop :=
  i < epollInstanceMaxSockfd ∧ 2 < (s.slots i).sockfd ∧ (s.slots i).sockfd ∈ s.openFds

/-- **EVERY HANDLER IS CALLED WITH A VALID CONNECTION**: a worker that is about to call
    one has a connection for it, and the slot is live. -/
def Valid (s : State) : Prop :=
  ∀ w d, (s.workers w).pc = .load → (s.workers w).due = some d →
    ∃ i, s.dueConn (s.workers w) = some i ∧ Live s i

/-! ## The condition -/

/-- The places of a worker that will call what it is given. -/
def calling (pc : WorkerPc) : Bool := dozing pc || decide (pc = .load)

/-- The worker has been given the connection, and has not called a handler with it. -/
def awaited (s : State) (w i : Nat) : Bool :=
  calling (s.workers w).pc &&
    ((s.workers w).busy || decide (s.dispatcher = .setBusy w)) &&
    decide ((s.workers w).connIndex = some i)

/-- The dispatcher is about to hand the connection over, or to queue it. -/
def carries (i : Nat) : DispatcherPc → Bool
  | .epollAdd cev | .count cev | .assign cev | .connEnqueue cev => decide (cev.connIndex = i)
  | _ => false

/-- Someone other than worker `w` counts on the connection. -/
def countedOn (s : State) (w i : Nat) : Bool :=
  ((List.range defaultWorkerCount).any fun v => decide (v ≠ w) && awaited s v i) ||
    s.connQueueHave i || carries i s.dispatcher

/-- The socket of an event that is handed to a worker still belongs to a connection; a
    worker does not start up with an assignment waiting; and a handler that closes the
    connection leaves nobody who counts on it. -/
def onlyLive (s : State) : Act → Bool
  | .dispatcher _ =>
      match s.dispatcher with
      | .store fd _ => (s.lookup fd).isSome
      | _ => true
  | .worker w ok =>
      match (s.workers w).pc, (s.workers w).connIndex with
      | .start, _ => !(s.workers w).busy && !decide (s.dispatcher = .setBusy w)
      | .exec h, some i => !isLast h ok || !countedOn s w i
      | _, _ => true
  | _ => true

/-! ## What is kept -/

/-- A slot in use is live, and no other has its descriptor. -/
structure SlotsOk (s : State) : Prop where
  live : ∀ i, (s.slots i).sockfd ≠ 0 → Live s i
  apart : ∀ i j, (s.slots i).sockfd ≠ 0 → (s.slots i).sockfd = (s.slots j).sockfd → i = j

/-- A worker that will call a handler names a slot in use. -/
structure WorkerOk (s : State) (w : Nat) (x : Worker) : Prop where
  given : calling x.pc = true → engagedBy s.dispatcher w x →
    ∃ i, x.connIndex = some i ∧ (s.slots i).sockfd ≠ 0
  conn : ∀ cev, x.pc = .load → x.auto = .conn cev → x.connIndex = some cev.connIndex
  epoll : ∀ fd, x.pc = .load → x.auto = .epoll fd → fd ≠ 0

/-- A new descriptor that no slot has yet. -/
def Fresh (s : State) (fd : Nat) : Prop := 2 < fd ∧ fd ∈ s.openFds ∧ ∀ i, (s.slots i).sockfd ≠ fd

/-- What the dispatcher carries. -/
def DispatcherOk (s : State) : DispatcherPc → Prop
  | .slot _ fd _ => Fresh s fd
  | .slotWorkers _ fd i _ | .slotQueue _ fd i | .install _ fd i =>
      Fresh s fd ∧ i < epollInstanceMaxSockfd ∧ (s.slots i).sockfd = 0
  | .epollAdd cev | .count cev | .assign cev | .connEnqueue cev =>
      (s.slots cev.connIndex).sockfd = cev.sockfd ∧ cev.sockfd ≠ 0
  | .scan fd _ | .queueScan fd | .idleCheck fd | .store fd _ | .enqueue fd => fd ≠ 0
  | _ => True

/-- **WHOEVER NAMES A CONNECTION** names one in use. -/
structure Named (s : State) : Prop where
  slots : SlotsOk s
  worker : ∀ w, WorkerOk s w (s.workers w)
  conns : ∀ e ∈ s.connEvents, (s.slots e.connIndex).sockfd = e.sockfd ∧ e.sockfd ≠ 0
  epolls : ∀ fd ∈ s.epollEvents, fd ≠ 0
  dispatcher : DispatcherOk s s.dispatcher

section Steps

variable {s t : State} {g : Pending}

/-! ## What the slots keep -/

/-- No connection is opened or closed. -/
structure Same (s t : State) : Prop where
  sockfd : ∀ i, (t.slots i).sockfd = (s.slots i).sockfd
  openFds : t.openFds = s.openFds
  conns : ∀ e ∈ t.connEvents, e ∈ s.connEvents
  epolls : ∀ fd ∈ t.epollEvents, fd ∈ s.epollEvents

theorem same_of (hslots : t.slots = s.slots) (hopen : t.openFds = s.openFds)
    (hconn : t.connQueue = s.connQueue) (hepoll : t.epollQueue = s.epollQueue) : Same s t := by
  refine ⟨fun i => by rw [hslots], hopen, fun e he => ?_, fun fd hfd => ?_⟩
  · rw [State.connEvents, hconn] at he
    exact he
  · rw [State.epollEvents, hepoll] at hfd
    exact hfd

theorem sockfd_setSlot {i : Nat} {x : Slot} (hx : x.sockfd = (s.slots i).sockfd) (j : Nat) :
    ((s.setSlot i x).slots j).sockfd = (s.slots j).sockfd := by
  show (Function.update s.slots i x j).sockfd = _
  by_cases hji : j = i
  · rw [hji, Function.update_self]
    exact hx
  · rw [Function.update_of_ne hji]

theorem Same.slotsOk (m : Same s t) (h : SlotsOk s) : SlotsOk t := by
  refine ⟨fun i hi => ?_, fun i j hi hij => ?_⟩
  · rw [m.sockfd] at hi
    rw [Live, m.sockfd, m.openFds]
    exact h.live i hi
  · rw [m.sockfd] at hi
    rw [m.sockfd, m.sockfd] at hij
    exact h.apart i j hi hij

theorem Same.fresh (m : Same s t) {fd : Nat} (h : Fresh s fd) : Fresh t fd := by
  refine ⟨h.1, by rw [m.openFds]; exact h.2.1, fun i => ?_⟩
  rw [m.sockfd]
  exact h.2.2 i

theorem Same.dispatcherOk (m : Same s t) {d : DispatcherPc} (h : DispatcherOk s d) :
    DispatcherOk t d := by
  have hfree : ∀ {fd i : Nat}, Fresh s fd ∧ i < epollInstanceMaxSockfd ∧ (s.slots i).sockfd = 0 →
      Fresh t fd ∧ i < epollInstanceMaxSockfd ∧ (t.slots i).sockfd = 0 := by
    intro fd i hi
    rw [m.sockfd]
    exact ⟨m.fresh hi.1, hi.2⟩
  have hcarried : ∀ {cev : ConnEvent},
      (s.slots cev.connIndex).sockfd = cev.sockfd ∧ cev.sockfd ≠ 0 →
      (t.slots cev.connIndex).sockfd = cev.sockfd ∧ cev.sockfd ≠ 0 := by
    intro cev hcev
    rw [m.sockfd]
    exact hcev
  cases d with
  | slot a fd i => exact m.fresh h
  | slotWorkers a fd i j => exact hfree h
  | slotQueue a fd i => exact hfree h
  | install a fd i => exact hfree h
  | epollAdd cev => exact hcarried h
  | count cev => exact hcarried h
  | assign cev => exact hcarried h
  | connEnqueue cev => exact hcarried h
  | _ => exact h

theorem WorkerOk.same (m : Same s t) {w : Nat} {x : Worker} (h : WorkerOk s w x)
    (hset : t.dispatcher = .setBusy w → s.dispatcher = .setBusy w) : WorkerOk t w x := by
  refine ⟨fun hpc hengaged => ?_, h.conn, h.epoll⟩
  obtain ⟨i, hi, hsock⟩ := h.given hpc (hengaged.imp id hset)
  exact ⟨i, hi, by rw [m.sockfd]; exact hsock⟩

/-- A worker takes no note of what is put into a queue, or opened. -/
theorem WorkerOk.undisturbed {w : Nat} {x : Worker} (h : WorkerOk s w x)
    (hset : t.dispatcher ≠ .setBusy w) (hslots : t.slots = s.slots) : WorkerOk t w x := by
  refine ⟨fun hpc hengaged => ?_, h.conn, h.epoll⟩
  obtain ⟨i, hi, hsock⟩ := h.given hpc (Or.inl (hengaged.resolve_right hset))
  exact ⟨i, hi, by rw [hslots]; exact hsock⟩

/-- **A STEP THAT OPENS AND CLOSES NOTHING**, and touches one worker. -/
theorem Named.change (h : Named s) (m : Same s t) {w : Nat} {y : Worker}
    (hw : t.workers = Function.update s.workers w y)
    (hset : ∀ v, v ≠ w → t.dispatcher = .setBusy v → s.dispatcher = .setBusy v)
    (hy : WorkerOk t w y) (hdisp : DispatcherOk t t.dispatcher) : Named t := by
  refine ⟨m.slotsOk h.slots, fun v => ?_, fun e he => ?_, fun fd hfd => ?_, hdisp⟩
  · by_cases hvw : v = w
    · rw [hvw, hw, Function.update_self]
      exact hy
    · rw [hw, Function.update_of_ne hvw]
      exact (h.worker v).same m (hset v hvw)
  · rw [m.sockfd]
    exact h.conns e (m.conns e he)
  · exact h.epolls fd (m.epolls fd hfd)

/-- A step of which the workers take no note. -/
theorem Named.still (h : Named s) (m : Same s t) (hw : t.workers = s.workers)
    (hset : ∀ v, t.dispatcher = .setBusy v → s.dispatcher = .setBusy v)
    (hdisp : DispatcherOk t t.dispatcher) : Named t :=
  h.change m (w := 0) (y := s.workers 0) (by rw [hw, Function.update_eq_self]) (fun v _ => hset v)
    ((h.worker 0).same m (hset 0)) hdisp

/-- A worker away from its calls names nothing. -/
theorem workerOk_away {w : Nat} {x : Worker} (hpc : calling x.pc = false) : WorkerOk t w x := by
  have hload : x.pc ≠ .load := by
    intro heq
    rw [heq] at hpc
    cases hpc
  exact ⟨fun hcalling => (by cases hpc.symm.trans hcalling), fun _ heq => absurd heq hload,
    fun _ heq => absurd heq hload⟩

/-- A worker that rests has taken nothing from a queue. -/
theorem workerOk_dozing {w : Nat} {x : Worker} (hload : x.pc ≠ .load)
    (hgiven : calling x.pc = true → engagedBy t.dispatcher w x →
      ∃ i, x.connIndex = some i ∧ (t.slots i).sockfd ≠ 0) : WorkerOk t w x :=
  ⟨hgiven, fun _ heq => absurd heq hload, fun _ heq => absurd heq hload⟩

/-! ## The workers -/

/-- A worker goes to a place at which it names nothing. -/
theorem Named.away (h : Named s) (m : Same s t) {w : Nat} {y : Worker}
    (hw : t.workers = Function.update s.workers w y) (hdisp : t.dispatcher = s.dispatcher)
    (hpc : calling y.pc = false) : Named t :=
  h.change m hw (fun v _ hset => hdisp ▸ hset) (workerOk_away hpc)
    (by rw [hdisp]; exact m.dispatcherOk h.dispatcher)

/-- A worker that was given something goes on towards its call. -/
theorem Named.dozes (h : Named s) (hk : Kept s g) {w : Nat} (pc : WorkerPc)
    (hpc : dozing (s.workers w).pc = true) : Named (s.workerGoto w pc) := by
  have hold := h.worker w
  have hauto := (hk.worker w).auto (Assignment.reservedAt_resting (dozing_resting hpc))
  refine h.change (same_of rfl rfl rfl rfl) (w := w) (y := { s.workers w with pc := pc }) rfl
    (fun _ _ => id) ⟨fun _ hengaged => ?_, fun cev _ heq => ?_, fun fd _ heq => ?_⟩
    ((same_of rfl rfl rfl rfl).dispatcherOk h.dispatcher)
  · exact hold.given (by rw [calling, hpc]; rfl) hengaged
  · cases hauto.symm.trans heq
  · cases hauto.symm.trans heq

/-- The first statement of a worker: nothing waits for it. -/
theorem Named.starts (h : Named s) {w : Nat} (hpc : (s.workers w).pc = .start)
    (hok : onlyLive s (.worker w ok) = true) :
    Named (s.setWorker w { s.workers w with connIndex := none, pc := .test }) := by
  rw [onlyLive, hpc, Bool.and_eq_true, Bool.not_eq_true', Bool.not_eq_true',
    decide_eq_false_iff_not] at hok
  refine h.change (same_of rfl rfl rfl rfl) (w := w) rfl (fun _ _ => id)
    (workerOk_dozing (by rintro ⟨⟩) fun _ hengaged => ?_)
    ((same_of rfl rfl rfl rfl).dispatcherOk h.dispatcher)
  rcases hengaged with hbusy | hset
  · cases hok.1.symm.trans hbusy
  · exact absurd hset hok.2

/-- A worker that calls, and one that finds nothing to call, has left its loop. -/
theorem Named.loads (h : Named s) {w : Nat} {ok : Bool} (hpc : (s.workers w).pc = .load)
    (hstep : Threads.workerStep s w ok = some t) : Named t := by
  rw [Threads.workerStep, hpc] at hstep
  dsimp only at hstep
  split at hstep
  · obtain rfl := Option.some.inj hstep
    exact h.away (same_of rfl rfl rfl rfl) rfl rfl rfl
  · obtain rfl := Option.some.inj hstep
    exact h.away (same_of rfl rfl rfl rfl) rfl rfl rfl
  · split_ifs at hstep
    · obtain rfl := Option.some.inj hstep
      exact h.away (same_of rfl rfl rfl rfl) rfl rfl rfl
    · obtain rfl := Option.some.inj hstep
      exact h.away ⟨sockfd_setSlot rfl, rfl, fun _ => id, fun _ => id⟩ rfl rfl rfl

theorem not_countedOn {w i : Nat} (h : countedOn s w i = false) :
    (∀ v < defaultWorkerCount, v ≠ w → awaited s v i = false) ∧
      (∀ e ∈ s.connEvents, e.connIndex ≠ i) ∧ carries i s.dispatcher = false := by
  rw [countedOn, Bool.or_eq_false_iff, Bool.or_eq_false_iff] at h
  obtain ⟨⟨hworkers, hqueue⟩, hcarried⟩ := h
  refine ⟨fun v hv hvw => ?_, fun e he heq => ?_, hcarried⟩
  · have hv' := List.any_eq_false.mp hworkers v (List.mem_range.mpr hv)
    rw [Bool.and_eq_true, not_and, decide_eq_true_eq] at hv'
    exact Bool.not_eq_true _ ▸ hv' hvw
  · have hfound := (Queue.connQueueHaveConnIndex_iff i s.connQueue).mpr ⟨e, he, heq⟩
    exact Bool.eq_false_iff.mp hqueue ((Queue.connQueueHave_iff s i).mpr hfound)

/-- **A CONNECTION IS CLOSED** on which nobody counts any more. -/
theorem Named.closes (h : Named s) (hk : Kept s g) {w i : Nat} {x : Slot}
    (hcount : countedOn s w i = false) (hx : x.sockfd = 0) :
    Named (((s.setSlot i x).close (s.slots i).sockfd).workerGoto w .account) := by
  obtain ⟨t, ht⟩ : ∃ t, t = ((s.setSlot i x).close (s.slots i).sockfd).workerGoto w .account :=
    ⟨_, rfl⟩
  rw [← ht]
  obtain ⟨hworkers, hqueue, hcarried⟩ := not_countedOn hcount
  have hself : (t.slots i).sockfd = 0 := by
    rw [ht]
    show (Function.update s.slots i x i).sockfd = 0
    rw [Function.update_self]
    exact hx
  have hother : ∀ j, j ≠ i → (t.slots j).sockfd = (s.slots j).sockfd := by
    intro j hj
    rw [ht]
    show (Function.update s.slots i x j).sockfd = _
    rw [Function.update_of_ne hj]
  have hused : ∀ j, (t.slots j).sockfd ≠ 0 → j ≠ i := fun j hj heq => hj (heq ▸ hself)
  have hdisp : t.dispatcher = s.dispatcher := by rw [ht]; rfl
  have hopen : ∀ fd, fd ≠ (s.slots i).sockfd → fd ∈ s.openFds → fd ∈ t.openFds := by
    intro fd hne hfd
    rw [ht]
    exact (List.mem_erase_of_ne hne).mpr hfd
  have hfresh : ∀ {fd : Nat}, Fresh s fd → Fresh t fd := by
    intro fd hfd
    refine ⟨hfd.1, hopen fd (fun heq => hfd.2.2 i heq.symm) hfd.2.1, fun j => ?_⟩
    by_cases hji : j = i
    · rw [hji, hself]
      have := hfd.1
      omega
    · rw [hother j hji]
      exact hfd.2.2 j
  have hfree : ∀ {fd j : Nat}, Fresh s fd ∧ j < epollInstanceMaxSockfd ∧ (s.slots j).sockfd = 0 →
      Fresh t fd ∧ j < epollInstanceMaxSockfd ∧ (t.slots j).sockfd = 0 := by
    intro fd j hj
    refine ⟨hfresh hj.1, hj.2.1, ?_⟩
    by_cases hji : j = i
    · rw [hji]
      exact hself
    · rw [hother j hji]
      exact hj.2.2
  refine ⟨⟨fun j hj => ?_, fun j k hj hjk => ?_⟩, fun v => ?_, fun e he => ?_, fun fd hfd => ?_, ?_⟩
  · have hji := hused j hj
    rw [hother j hji] at hj
    obtain ⟨hbound, hpos, hin⟩ := h.slots.live j hj
    rw [Live, hother j hji]
    exact ⟨hbound, hpos, hopen _ (fun heq => hji (h.slots.apart j i hj heq)) hin⟩
  · have hji := hused j hj
    have hki := hused k (hjk ▸ hj)
    rw [hother j hji] at hj
    rw [hother j hji, hother k hki] at hjk
    exact h.slots.apart j k hj hjk
  · by_cases hvw : v = w
    · rw [hvw, ht]
      show WorkerOk _ w (Function.update s.workers w { s.workers w with pc := .account } w)
      rw [Function.update_self]
      exact workerOk_away rfl
    · have hsame : t.workers v = s.workers v := by
        rw [ht]
        exact Function.update_of_ne hvw _ _
      rw [hsame]
      have hold := h.worker v
      refine ⟨fun hpc hengaged => ?_, hold.conn, hold.epoll⟩
      rw [hdisp] at hengaged
      obtain ⟨j, hj, hsock⟩ := hold.given hpc hengaged
      -- a worker that runs has been created, and counts on another connection
      have hlt : v < defaultWorkerCount := by
        by_contra hle
        have hunborn := hk.unborn v (Nat.le_trans hk.main.born (Nat.le_of_not_lt hle))
        rw [hunborn] at hpc
        cases hpc
      have hji : j ≠ i := by
        rintro rfl
        have hnot := hworkers v hlt hvw
        have hbit : ((s.workers v).busy || decide (s.dispatcher = .setBusy v)) = true := by
          rw [Bool.or_eq_true, decide_eq_true_eq]
          exact hengaged
        rw [awaited, hpc, hbit, decide_eq_true hj] at hnot
        cases hnot
      exact ⟨j, hj, by rw [hother j hji]; exact hsock⟩
  · have he' : e ∈ s.connEvents := by
      rw [ht] at he
      exact he
    rw [hother _ (hqueue e he')]
    exact h.conns e he'
  · rw [ht] at hfd
    exact h.epolls fd hfd
  · rw [hdisp]
    have hold := h.dispatcher
    have hkept : ∀ {cev : ConnEvent}, cev.connIndex ≠ i →
        (s.slots cev.connIndex).sockfd = cev.sockfd ∧ cev.sockfd ≠ 0 →
        (t.slots cev.connIndex).sockfd = cev.sockfd ∧ cev.sockfd ≠ 0 := by
      intro cev hne hcev
      rw [hother _ hne]
      exact hcev
    cases hd : s.dispatcher with
    | slot a fd j => rw [hd] at hold; exact hfresh hold
    | slotWorkers a fd j v => rw [hd] at hold; exact hfree hold
    | slotQueue a fd j => rw [hd] at hold; exact hfree hold
    | install a fd j => rw [hd] at hold; exact hfree hold
    | epollAdd _ | count _ | assign _ | connEnqueue _ =>
        rw [hd] at hold hcarried
        exact hkept (of_decide_eq_false hcarried) hold
    | _ => rw [hd] at hold; exact hold

/-- A handler returns. -/
theorem Named.returns (h : Named s) (hk : Kept s g) {w : Nat} {ok : Bool} {d : Handler}
    (hpc : (s.workers w).pc = .exec d) (hok : onlyLive s (.worker w ok) = true)
    (hstep : Threads.workerStep s w ok = some t) : Named t := by
  rw [Threads.workerStep, hpc] at hstep
  dsimp only at hstep
  rw [onlyLive, hpc] at hok
  cases hname : (s.workers w).connIndex with
  | none =>
      rw [hname] at hstep
      obtain rfl := Option.some.inj hstep
      exact h.away (same_of rfl rfl rfl rfl) rfl rfl rfl
  | some i =>
      rw [hname] at hstep hok
      obtain rfl := Option.some.inj hstep
      dsimp only at hok
      rw [Bool.or_eq_true, Bool.not_eq_true', Bool.not_eq_true'] at hok
      cases d with
      | httpRequest =>
          cases ok with
          | true =>
              -- the connection goes on
              exact h.away (y := { s.workers w with pc := .account })
                ⟨sockfd_setSlot rfl, rfl, fun _ => id, fun _ => id⟩ rfl rfl rfl
          | false => exact h.closes hk (hok.resolve_left (by rintro ⟨⟩)) rfl
      | httpResponse =>
          cases ok with
          | true => exact h.closes hk (hok.resolve_left (by rintro ⟨⟩)) rfl
          | false => exact h.closes hk (hok.resolve_left (by rintro ⟨⟩)) rfl

/-- A worker takes a connection from the queue. -/
theorem Named.takeConn (h : Named s) {w : Nat} (hcount : s.connQueue.count ≠ 0) :
    Named (takeConn s w) := by
  have hcontents : s.connEvents = s.connQueue.head connEventQueueMax ::
      (s.connQueue.dequeue connEventQueueMax).contents connEventQueueMax :=
    RingBuf.contents_dequeue hcount
  have hfewer : ∀ e ∈ (s.connQueue.dequeue connEventQueueMax).contents connEventQueueMax,
      e ∈ s.connEvents := by
    intro e he
    rw [hcontents]
    exact List.mem_cons_of_mem _ he
  obtain ⟨hsock, hpos⟩ := h.conns (s.connQueue.head connEventQueueMax)
    (by rw [hcontents]; exact List.mem_cons_self)
  rw [Threads.takeConn]
  dsimp only
  split_ifs
  · exact h.away (y := { s.workers w with pc := .fault })
      ⟨fun _ => rfl, rfl, hfewer, fun _ => id⟩ rfl rfl rfl
  · -- the slot has the descriptor already
    have hsame : Same s ((({ s with connQueue := s.connQueue.dequeue connEventQueueMax }).setSlot
        (s.connQueue.head connEventQueueMax).connIndex
        { s.slots (s.connQueue.head connEventQueueMax).connIndex with
          sockfd := (s.connQueue.head connEventQueueMax).sockfd, state := 0, param := some w })) :=
      ⟨sockfd_setSlot hsock.symm, rfl, hfewer, fun _ => id⟩
    refine h.change ⟨hsame.sockfd, rfl, hfewer, fun _ => id⟩ (w := w) rfl (fun _ _ => id)
      ⟨fun _ _ => ⟨_, rfl, ?_⟩, fun cev _ heq => ?_, fun fd _ heq => by cases heq⟩
      (hsame.dispatcherOk h.dispatcher)
    · exact fun hz => hpos (hsock.symm.trans ((hsame.sockfd _).symm.trans hz))
    · rw [AutoDequeue.conn.inj heq]

/-- A worker takes a socket from the queue. -/
theorem Named.takeEpoll (h : Named s) {w : Nat} (hcount : s.epollQueue.count ≠ 0) :
    Named (takeEpoll s w) := by
  have hcontents : s.epollEvents = s.epollQueue.head epollEventQueueMax ::
      (s.epollQueue.dequeue epollEventQueueMax).contents epollEventQueueMax :=
    RingBuf.contents_dequeue hcount
  have hfewer : ∀ fd ∈ (s.epollQueue.dequeue epollEventQueueMax).contents epollEventQueueMax,
      fd ∈ s.epollEvents := by
    intro fd hfd
    rw [hcontents]
    exact List.mem_cons_of_mem _ hfd
  have hpos := h.epolls (s.epollQueue.head epollEventQueueMax)
    (by rw [hcontents]; exact List.mem_cons_self)
  unfold Threads.takeEpoll
  dsimp only
  cases hfind : s.lookup (s.epollQueue.head epollEventQueueMax) with
  | none =>
      exact h.away (y := { s.workers w with pc := .clear })
        ⟨fun _ => rfl, rfl, fun _ => id, hfewer⟩ rfl rfl rfl
  | some i =>
      have hsock := lookup_sockfd hfind
      have hsame : Same s
          (({ s with epollQueue := s.epollQueue.dequeue epollEventQueueMax }).setSlot i
            { s.slots i with sockfd := s.epollQueue.head epollEventQueueMax, state := 2 }) :=
        ⟨sockfd_setSlot hsock.symm, rfl, fun _ => id, hfewer⟩
      refine h.change ⟨hsame.sockfd, rfl, fun _ => id, hfewer⟩ (w := w) rfl (fun _ _ => id)
        ⟨fun _ _ => ⟨_, rfl, ?_⟩, fun cev _ heq => (by cases heq), fun fd _ heq => ?_⟩
        (hsame.dispatcherOk h.dispatcher)
      · exact fun hz => hpos (hsock.symm.trans ((hsame.sockfd i).symm.trans hz))
      · rw [← AutoDequeue.epoll.inj heq]
        exact hpos

theorem Named.workerStep (h : Named s) (hk : Kept s g) {w : Nat} {ok : Bool}
    (hok : onlyLive s (.worker w ok) = true) (hstep : Threads.workerStep s w ok = some t) :
    Named t := by
  have hsame : ∀ pc, Same s (s.workerGoto w pc) := fun _ => same_of rfl rfl rfl rfl
  cases hpc : (s.workers w).pc with
  | load => exact h.loads hpc hstep
  | exec d => exact h.returns hk hpc hok hstep
  | unborn | waiting | fault =>
      rw [Threads.workerStep, hpc] at hstep
      cases hstep
  | start =>
      rw [Threads.workerStep, hpc] at hstep
      obtain rfl := Option.some.inj hstep
      exact h.starts hpc hok
  | test | toWait =>
      rw [Threads.workerStep, hpc] at hstep
      obtain rfl := Option.some.inj hstep
      exact h.dozes hk _ (by rw [hpc]; rfl)
  | account =>
      rw [Threads.workerStep, hpc] at hstep
      dsimp only at hstep
      split_ifs at hstep
      · cases hname : (s.workers w).connIndex with
        | some i =>
            rw [hname] at hstep
            dsimp only at hstep
            split_ifs at hstep
            · obtain rfl := Option.some.inj hstep
              exact h.away (y := { s.workers w with pc := .raise }) (same_of rfl rfl rfl rfl)
                rfl rfl rfl
            · obtain rfl := Option.some.inj hstep
              exact h.away (hsame _) rfl rfl rfl
        | none =>
            rw [hname] at hstep
            obtain rfl := Option.some.inj hstep
            exact h.away (hsame _) rfl rfl rfl
      · obtain rfl := Option.some.inj hstep
        exact h.away (hsame _) rfl rfl rfl
  | raise =>
      rw [Threads.workerStep, hpc] at hstep
      obtain rfl := Option.some.inj hstep
      exact h.away (y := { s.workers w with pc := .signal }) (same_of rfl rfl rfl rfl) rfl rfl rfl
  | signal =>
      rw [Threads.workerStep, hpc] at hstep
      obtain rfl := Option.some.inj hstep
      rw [State.wakeMain]
      split_ifs
      · exact h.away (y := { s.workers w with pc := .release }) (same_of rfl rfl rfl rfl)
          rfl rfl rfl
      · exact h.away (hsame _) rfl rfl rfl
  | release =>
      rw [Threads.workerStep, hpc] at hstep
      obtain rfl := Option.some.inj hstep
      exact h.away (same_of rfl rfl rfl rfl) rfl rfl rfl
  | dequeueConn =>
      rw [Threads.workerStep, hpc] at hstep
      dsimp only at hstep
      split_ifs at hstep with hcount
      · obtain rfl := Option.some.inj hstep
        exact h.takeConn hcount
      · obtain rfl := Option.some.inj hstep
        exact h.away (hsame _) rfl rfl rfl
  | dequeueEpoll =>
      rw [Threads.workerStep, hpc] at hstep
      dsimp only at hstep
      split_ifs at hstep with hcount
      · obtain rfl := Option.some.inj hstep
        exact h.takeEpoll hcount
      · obtain rfl := Option.some.inj hstep
        exact h.away (hsame _) rfl rfl rfl
  | clear =>
      -- it has called what it was given, and the dispatcher is not about to set its bit
      have hnot := hk.setsNot (hk.busy (by rw [hpc]; rfl))
      rw [Threads.workerStep, hpc] at hstep
      obtain rfl := Option.some.inj hstep
      exact h.change (same_of rfl rfl rfl rfl) (w := w) rfl (fun _ _ => id)
        (workerOk_dozing (by rintro ⟨⟩) fun _ hengaged => absurd hengaged
        (not_or.mpr ⟨by rintro ⟨⟩, hnot⟩)) ((same_of rfl rfl rfl rfl).dispatcherOk h.dispatcher)

/-! ## The main thread -/

theorem Named.mainStep (h : Named s) (hstep : Threads.mainStep s = some t) : Named t := by
  have hsame : ∀ u : State, u.slots = s.slots → u.openFds = s.openFds → u.connQueue = s.connQueue →
      u.epollQueue = s.epollQueue → u.workers = s.workers → u.dispatcher = s.dispatcher →
      Named u := by
    intro u hslots hopen hconn hepoll hw hdisp
    have m := same_of hslots hopen hconn hepoll
    exact h.still m hw (fun v hset => hdisp ▸ hset)
      (by rw [hdisp]; exact m.dispatcherOk h.dispatcher)
  rw [Threads.mainStep] at hstep
  cases hm : s.main with
  | createPatcher =>
      rw [hm] at hstep
      obtain rfl := Option.some.inj hstep
      exact h.still (same_of rfl rfl rfl rfl) rfl (fun _ => by rintro ⟨⟩) trivial
  | spawn i =>
      rw [hm] at hstep
      dsimp only at hstep
      split_ifs at hstep
      · obtain rfl := Option.some.inj hstep
        exact h.away (y := { s.workers i with pc := .start }) (same_of rfl rfl rfl rfl) rfl rfl rfl
      · obtain rfl := Option.some.inj hstep
        exact hsame _ rfl rfl rfl rfl rfl rfl
  | workspaceInit | test | toWait =>
      rw [hm] at hstep
      obtain rfl := Option.some.inj hstep
      exact hsame _ rfl rfl rfl rfl rfl rfl
  | input | waiting | past =>
      rw [hm] at hstep
      cases hstep

/-! ## The dispatcher -/

/-- The dispatcher goes on, and opens and closes nothing. -/
theorem Named.goes (h : Named s) {d : DispatcherPc} (hset : setting d = false)
    (hd : DispatcherOk s d) : Named (s.goto d) :=
  h.still (same_of rfl rfl rfl rfl) rfl (fun v heq => absurd heq (not_setting hset v))
    ((same_of rfl rfl rfl rfl).dispatcherOk hd)

theorem Named.wake (h : Named s) (hk : Kept s g) (w : Nat) : Named (s.wake w) := by
  rcases wake_eq s w with ⟨-, heq⟩ | ⟨hpc, heq⟩
  · rw [heq]
    exact h
  · rw [heq]
    exact h.dozes hk _ (by rw [hpc]; rfl)

theorem Named.endLine (h : Named s) : Named (endLine s.wakeMain) ∧ Named (endLine s) := by
  have hend : ∀ u : State, Same s u → u.workers = s.workers → Named (Threads.endLine u) := by
    intro u m hw
    rw [Threads.endLine]
    split_ifs
    · exact h.still ⟨m.sockfd, m.openFds, m.conns, m.epolls⟩ hw (fun _ => by rintro ⟨⟩) trivial
    · exact h.still ⟨m.sockfd, m.openFds, m.conns, m.epolls⟩ hw (fun _ => by rintro ⟨⟩) trivial
  refine ⟨hend _ ?_ (wakeMain_frame s).1, hend _ (same_of rfl rfl rfl rfl) rfl⟩
  rw [State.wakeMain]
  split_ifs <;> exact same_of rfl rfl rfl rfl

/-- **A CONNECTION IS OPENED** in a free slot. -/
theorem Named.installs (h : Named s) {m : Method} {fd i : Nat}
    (hok : Fresh s fd ∧ i < epollInstanceMaxSockfd ∧ (s.slots i).sockfd = 0) :
    Named ((installSlot s m fd i).goto (.epollAdd { sockfd := fd, connIndex := i })) := by
  obtain ⟨t, ht⟩ : ∃ t, t =
      (installSlot s m fd i).goto (.epollAdd { sockfd := fd, connIndex := i }) := ⟨_, rfl⟩
  rw [← ht]
  obtain ⟨⟨hpos, hin, hnew⟩, hbound, hfree⟩ := hok
  have hself : (t.slots i).sockfd = fd := by
    rw [ht]
    show (Function.update s.slots i _ i).sockfd = fd
    rw [Function.update_self]
  have hother : ∀ j, j ≠ i → (t.slots j).sockfd = (s.slots j).sockfd := by
    intro j hj
    rw [ht]
    show (Function.update s.slots i _ j).sockfd = _
    rw [Function.update_of_ne hj]
  have hopen : t.openFds = s.openFds := by rw [ht]; rfl
  -- a slot in use is another one
  have hused : ∀ j, (s.slots j).sockfd ≠ 0 → j ≠ i := fun j hj heq => hj (heq ▸ hfree)
  refine ⟨⟨fun j hj => ?_, fun j k hj hjk => ?_⟩, fun v => ?_, fun e he => ?_, fun e he => ?_, ?_⟩
  · by_cases hji : j = i
    · rw [Live, hji, hself, hopen]
      exact ⟨hbound, hpos, hin⟩
    · rw [hother j hji] at hj
      rw [Live, hother j hji, hopen]
      exact h.slots.live j hj
  · by_cases hji : j = i
    · by_cases hki : k = i
      · rw [hji, hki]
      · rw [hji, hself, hother k hki] at hjk
        exact absurd hjk.symm (hnew k)
    · by_cases hki : k = i
      · rw [hki, hself, hother j hji] at hjk
        exact absurd hjk (hnew j)
      · rw [hother j hji] at hj
        rw [hother j hji, hother k hki] at hjk
        exact h.slots.apart j k hj hjk
  · have hw : t.workers v = s.workers v := by rw [ht]; rfl
    have hold := h.worker v
    rw [hw]
    refine ⟨fun hpc hengaged => ?_, hold.conn, hold.epoll⟩
    have hbusy : (s.workers v).busy = true := by
      rcases hengaged with hbusy | hset
      · exact hbusy
      · rw [ht] at hset
        cases hset
    obtain ⟨j, hj, hsock⟩ := hold.given hpc (Or.inl hbusy)
    exact ⟨j, hj, by rw [hother j (hused j hsock)]; exact hsock⟩
  · rw [ht] at he
    obtain ⟨hsock, hne⟩ := h.conns e he
    rw [hother _ (hused _ (by rw [hsock]; exact hne))]
    exact ⟨hsock, hne⟩
  · rw [ht] at he
    exact h.epolls e he
  · have hd : t.dispatcher = .epollAdd { sockfd := fd, connIndex := i } := by rw [ht]; rfl
    rw [hd]
    refine ⟨hself, ?_⟩
    show fd ≠ 0
    omega

/-- A worker is given a slot in use. -/
theorem workerOk_given {w i : Nat} {x : Worker} (hrest : resting x.pc = true)
    (hname : x.connIndex = some i) (hsock : (t.slots i).sockfd ≠ 0) : WorkerOk t w x := by
  refine workerOk_dozing (fun heq => ?_) fun _ _ => ⟨i, hname, hsock⟩
  rw [heq] at hrest
  cases hrest

theorem Named.commandStep (h : Named s) (hk : Kept s g) {b : Bool} {d : DispatcherPc}
    (hd : s.dispatcher = d) (hstep : Threads.commandStep b s d = some t) : Named t := by
  have hok := h.dispatcher
  rw [hd] at hok
  cases d with
  | slot m fd i =>
      rw [Threads.commandStep] at hstep
      split_ifs at hstep with hbound hused
      · obtain rfl := Option.some.inj hstep
        exact h.goes rfl hok
      · obtain rfl := Option.some.inj hstep
        exact h.goes rfl ⟨hok, hbound, not_not.mp hused⟩
      · obtain rfl := Option.some.inj hstep
        exact h.goes rfl trivial
  | slotWorkers m fd i j =>
      rw [Threads.commandStep] at hstep
      split_ifs at hstep
      · obtain rfl := Option.some.inj hstep
        exact h.goes rfl hok.1
      · obtain rfl := Option.some.inj hstep
        exact h.goes rfl hok
      · obtain rfl := Option.some.inj hstep
        exact h.goes rfl hok
  | slotQueue m fd i =>
      rw [Threads.commandStep] at hstep
      split_ifs at hstep
      · obtain rfl := Option.some.inj hstep
        exact h.goes rfl hok.1
      · obtain rfl := Option.some.inj hstep
        exact h.goes rfl hok
  | install m fd i =>
      obtain rfl := Option.some.inj hstep
      exact h.installs hok
  | epollAdd cev =>
      rw [Threads.commandStep] at hstep
      split_ifs at hstep
      · obtain rfl := Option.some.inj hstep
        exact h.still (same_of rfl rfl rfl rfl) rfl (fun _ => by rintro ⟨⟩) hok
      · obtain rfl := Option.some.inj hstep
        exact h.goes rfl trivial
  | count cev =>
      obtain rfl := Option.some.inj hstep
      exact h.still (same_of rfl rfl rfl rfl) rfl (fun _ => by rintro ⟨⟩) hok
  | assign cev =>
      rw [Threads.commandStep] at hstep
      cases hidle : s.idleWorker with
      | some w =>
          rw [hidle] at hstep
          obtain rfl := Option.some.inj hstep
          have hsame : Same s (s.setSlot cev.connIndex
              { s.slots cev.connIndex with param := some w }) :=
            ⟨sockfd_setSlot rfl, rfl, fun _ => id, fun _ => id⟩
          have hrest := (hk.worker w).idle (idleWorker_idle hidle).1
          refine h.change ⟨hsame.sockfd, rfl, fun _ => id, fun _ => id⟩ (w := w) rfl
            (fun _ _ => by rintro ⟨⟩) (workerOk_given (i := cev.connIndex) hrest rfl ?_) trivial
          exact fun hz => hok.2 (hok.1.symm.trans ((hsame.sockfd _).symm.trans hz))
      | none =>
          rw [hidle] at hstep
          obtain rfl := Option.some.inj hstep
          exact h.goes rfl hok
  | connSignal w =>
      obtain rfl := Option.some.inj hstep
      exact (h.wake hk w).goes rfl trivial
  | connEnqueue cev =>
      obtain rfl := Option.some.inj hstep
      refine ⟨⟨h.slots.live, h.slots.apart⟩, fun v => (h.worker v).undisturbed (by rintro ⟨⟩) rfl,
        fun e he => ?_, h.epolls, trivial⟩
      rcases RingBuf.mem_enqueue he with rfl | hold
      · exact hok
      · exact h.conns e hold
  | _ => cases hstep

theorem Named.patcherStep (h : Named s) (hk : Kept s g) {b : Bool} {d : DispatcherPc}
    (hd : s.dispatcher = d) (hlive : onlyLive s (.dispatcher b) = true)
    (hstep : Threads.patcherStep s d = some t) : Named t := by
  have hok := h.dispatcher
  rw [hd] at hok
  rw [onlyLive, hd] at hlive
  cases d with
  | quitSignal =>
      obtain rfl := Option.some.inj hstep
      exact h.endLine.1
  | next =>
      rw [Threads.patcherStep] at hstep
      cases hevents : s.events with
      | nil =>
          rw [hevents] at hstep
          obtain rfl := Option.some.inj hstep
          exact h.goes rfl trivial
      | cons fd rest =>
          rw [hevents] at hstep
          dsimp only at hstep
          split_ifs at hstep with hzero
          · obtain rfl := Option.some.inj hstep
            exact h.still (same_of rfl rfl rfl rfl) rfl (fun _ => by rintro ⟨⟩) trivial
          · obtain rfl := Option.some.inj hstep
            exact h.still (same_of rfl rfl rfl rfl) rfl (fun _ => by rintro ⟨⟩) hzero
  | scan fd th =>
      rw [Threads.patcherStep] at hstep
      split_ifs at hstep
      · obtain rfl := Option.some.inj hstep
        exact h.goes rfl trivial
      · obtain rfl := Option.some.inj hstep
        exact h.goes rfl trivial
      · obtain rfl := Option.some.inj hstep
        exact h.goes rfl hok
      · obtain rfl := Option.some.inj hstep
        exact h.goes rfl hok
  | queueScan fd =>
      rw [Threads.patcherStep] at hstep
      split_ifs at hstep
      · obtain rfl := Option.some.inj hstep
        exact h.goes rfl trivial
      · obtain rfl := Option.some.inj hstep
        exact h.goes rfl hok
  | idleCheck fd =>
      rw [Threads.patcherStep] at hstep
      cases hidle : s.idleWorker with
      | some _ | none =>
          rw [hidle] at hstep
          obtain rfl := Option.some.inj hstep
          exact h.goes rfl hok
  | store fd w =>
      -- the search finds the connection of the socket
      have hidle : (s.workers w).busy = false := by
        have hdisp := hk.dispatcher
        rw [hd] at hdisp
        exact hdisp
      obtain ⟨i, hi⟩ := Option.isSome_iff_exists.mp hlive
      rw [Threads.patcherStep, hi] at hstep
      obtain rfl := Option.some.inj hstep
      refine h.change (same_of rfl rfl rfl rfl) (w := w) rfl (fun v hv hset => ?_)
        (workerOk_given (i := i) ((hk.worker w).idle hidle) rfl ?_) trivial
      · exact absurd (DispatcherPc.setBusy.inj hset).symm hv
      · exact fun hz => hok ((lookup_sockfd hi).symm.trans hz)
  | setBusy w =>
      obtain rfl := Option.some.inj hstep
      have hold := h.worker w
      exact h.change (same_of rfl rfl rfl rfl) (w := w) rfl (fun _ _ => by rintro ⟨⟩)
        ⟨fun hpc _ => hold.given hpc (Or.inr hd), hold.conn, hold.epoll⟩ trivial
  | signal w =>
      obtain rfl := Option.some.inj hstep
      exact (h.wake hk w).goes rfl trivial
  | enqueue fd =>
      obtain rfl := Option.some.inj hstep
      refine ⟨⟨h.slots.live, h.slots.apart⟩, fun v => (h.worker v).undisturbed (by rintro ⟨⟩) rfl,
        h.conns,
        fun e he => ?_, trivial⟩
      rcases RingBuf.mem_enqueue he with rfl | hold
      · exact hok
      · exact h.epolls e hold
  | _ => cases hstep

/-! ## Runs -/

theorem Named.act (h : Named s) (hk : Kept s g) {a : Act} (hlive : onlyLive s a = true)
    (hstep : Threads.step s a = some t) : Named t := by
  cases a with
  | main => exact h.mainStep hstep
  | command m fd =>
      rw [Threads.step] at hstep
      split_ifs at hstep with hcan
      obtain rfl := Option.some.inj hstep
      obtain ⟨-, hpos, hnew⟩ := hcan
      refine ⟨⟨fun i hi => ?_, h.slots.apart⟩, fun v => (h.worker v).undisturbed (by rintro ⟨⟩) rfl,
        h.conns,
        h.epolls, hpos, List.mem_cons_self, fun i heq => ?_⟩
      · obtain ⟨hbound, hsock, hin⟩ := h.slots.live i hi
        exact ⟨hbound, hsock, List.mem_cons_of_mem _ hin⟩
      · -- an open descriptor is not given again
        have heq' : (s.slots i).sockfd = fd := heq
        obtain ⟨-, -, hin⟩ := h.slots.live i (by rw [heq']; omega)
        rw [heq'] at hin
        exact hnew hin
  | quit | fetch _ =>
      rw [Threads.step] at hstep
      split_ifs at hstep
      obtain rfl := Option.some.inj hstep
      exact h.still (same_of rfl rfl rfl rfl) rfl (fun _ => by rintro ⟨⟩) trivial
  | endInput =>
      rw [Threads.step] at hstep
      split_ifs at hstep
      obtain rfl := Option.some.inj hstep
      exact h.endLine.2
  | dispatcher b =>
      rw [Threads.step] at hstep
      cases hcommand : Threads.commandStep b s s.dispatcher with
      | some u =>
          rw [hcommand] at hstep
          exact h.commandStep hk rfl (Option.some.inj hstep ▸ hcommand)
      | none =>
          rw [hcommand] at hstep
          exact h.patcherStep hk rfl hlive hstep
  | worker w ok =>
      rw [Threads.step] at hstep
      split_ifs at hstep
      exact h.workerStep hk hlive hstep

theorem Named.valid (h : Named s) (hk : Kept s g) : Valid s := by
  intro w d hpc hdue
  have hbusy : (s.workers w).busy = true := hk.busy (by rw [hpc]; rfl)
  obtain ⟨i, hi, hsock⟩ := (h.worker w).given (by rw [hpc]; rfl) (Or.inl hbusy)
  rw [State.dueConn]
  cases hauto : (s.workers w).auto with
  | reserved => exact ⟨i, hi, h.slots.live i hsock⟩
  | conn cev =>
      have hname := (h.worker w).conn cev hpc hauto
      obtain rfl := Option.some.inj (hname.symm.trans hi)
      exact ⟨_, rfl, h.slots.live _ hsock⟩
  | epoll fd =>
      show ∃ i, (s.lookup fd).or (s.workers w).connIndex = some i ∧ Live s i
      cases hfind : s.lookup fd with
      | none => exact ⟨i, hi, h.slots.live i hsock⟩
      | some j =>
          refine ⟨j, rfl, h.slots.live j ?_⟩
          rw [lookup_sockfd hfind]
          exact (h.worker w).epoll fd hpc hauto

end Steps

end Invocation
