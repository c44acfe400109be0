import Hftp.HttpCoreProofs
import Hftp.RingBufferProofs
import Hftp.TransitionProofs

/-! # The threads of the program

    One thread dispatches: it takes commands from the input and readiness events
    from the epoll instance, and gives each to an idle worker or puts it into a
    queue.  Eight workers run the handlers and serve themselves from the queues.
    The main thread starts them all and waits for the input to be over.

    A step is one check, one assignment or one section under a lock.  A handler
    is two steps, its call and its return; what it does to the connection is in
    the second.  If the standard input is a file, the main thread takes the
    commands before there are any other threads.

    Of a slot the model keeps what these functions look at, and counts for the
    proofs which handlers were started on it. -/

namespace Threads

open HttpCore RingBuffer Transition

/-- `EPOLL_INSTANCE_MAX_SOCKFD` -/
def epollInstanceMaxSockfd : Nat := 512

/-- `EPOLL_EVENT_QUEUE_MAX` -/
def epollEventQueueMax : Nat := 256

/-- `CONN_EVENT_QUEUE_MAX` -/
def connEventQueueMax : Nat := 256

/-- `DEFAULT_WORKER_COUNT` -/
def defaultWorkerCount : Nat := 8

/-! ## The shared records -/

/-- What `http_process` points to. -/
inductive Handler where
  | httpRequest
  | httpResponse
  deriving DecidableEq, Repr

/-- What happened to a command so far: the calls of `http_request`, whether one
    returned 0, the calls of `http_response`, and whether one came before that. -/
structure Served where
  requests : Nat
  answered : Bool
  responses : Nat
  early : Bool
  deriving DecidableEq, Repr

def Served.none : Served := { requests := 0, answered := false, responses := 0, early := false }

/-- A slot of `g_conn_workspace`; `sockfd` is 0 if it is free. -/
structure Slot where
  state : Int
  sockfd : Nat
  method : Method
  /-- the worker whose `chunks` the callbacks were given -/
  param : Option Nat
  served : Served
  deriving DecidableEq, Repr

def Slot.free : Slot :=
  { state := 0, sockfd := 0, method := .get, param := none, served := .none }

/-- `struct conn_event`. -/
structure ConnEvent where
  sockfd : Nat
  connIndex : Nat
  deriving DecidableEq, Repr

/-- The local `auto_dequeue` with the event that goes with it. -/
inductive AutoDequeue where
  | reserved
  | conn (cev : ConnEvent)
  | epoll (fd : Nat)
  deriving DecidableEq, Repr

/-- Where a worker stands in `epoll_worker`. -/
inductive WorkerPc where
  | unborn
  /-- `workspace->conn_index = -1` -/
  | start
  /-- `while (is_idle_thread(thread_index))` -/
  | test
  /-- before `pthread_cond_wait` -/
  | toWait
  | waiting
  /-- `switch (auto_dequeue)` and the call -/
  | load
  | exec (h : Handler)
  /-- `if (g_fixed_input)`, with `g_remain_count--` -/
  | account
  /-- `if (g_remain_count) g_continue_input_flag = 1` -/
  | raise
  /-- `pthread_cond_signal(&g_continue_input_cond)` -/
  | signal
  /-- `workspace->conn_index = -1` -/
  | release
  | dequeueConn
  | dequeueEpoll
  /-- `g_thread_work_flag & ~(0x01 << thread_index)` -/
  | clear
  /-- an assertion failed, or there was no connection to work on -/
  | fault
  deriving DecidableEq, Repr

/-- `struct thread_workspace`, with its bit of `g_thread_work_flag` and the
    locals of the thread. -/
structure Worker where
  pc : WorkerPc
  busy : Bool
  process : Option Handler
  connIndex : Option Nat
  auto : AutoDequeue
  deriving DecidableEq, Repr

/-- The memory is zeroed before the threads are created. -/
def Worker.zero : Worker :=
  { pc := .unborn, busy := false, process := none, connIndex := some 0, auto := .reserved }

/-- Where the main thread stands. -/
inductive MainPc where
  /-- `input_handling`, called by `input_init` for a fixed input -/
  | input
  /-- `pthread_create(.., epoll_patcher, ..)` -/
  | createPatcher
  /-- `workspace_init` -/
  | workspaceInit
  | spawn (i : Nat)
  /-- `while (!g_continue_input_flag)` -/
  | test
  | toWait
  | waiting
  | past
  deriving DecidableEq, Repr

/-- How many workers have been created. -/
def spawned : MainPc → Nat
  | .input | .createPatcher | .workspaceInit => 0
  | .spawn i => i
  | .test | .toWait | .waiting | .past => defaultWorkerCount

/-- Where the dispatching thread stands: in `input_handling`, in
    `interprete_single_command`, or in `epoll_patcher`. -/
inductive DispatcherPc where
  | unborn
  /-- a line was read -/
  | line
  /-- behind a command of it -/
  | input
  /-- `if (g_conn_workspace[i].sockfd != 0) continue` -/
  | slot (m : Method) (fd i : Nat)
  /-- `if (i == g_workspace[j].conn_index)` -/
  | slotWorkers (m : Method) (fd i j : Nat)
  /-- `if (conn_queue_have_conn_index(i)) continue` -/
  | slotQueue (m : Method) (fd i : Nat)
  | install (m : Method) (fd i : Nat)
  | epollAdd (cev : ConnEvent)
  | count (cev : ConnEvent)
  | assign (cev : ConnEvent)
  | connSignal (w : Nat)
  | connEnqueue (cev : ConnEvent)
  /-- `pthread_cond_signal` after `quit` -/
  | quitSignal
  /-- `epoll_wait` -/
  | wait
  /-- `for (int ei = 0; ei < event_cnt; ei++)` -/
  | next
  /-- the scan of the workers, at worker `th` -/
  | scan (fd th : Nat)
  /-- `if (epoll_queue_have_sockfd(..))` -/
  | queueScan (fd : Nat)
  | idleCheck (fd : Nat)
  /-- `http_process = http_response`, and the search for the connection -/
  | store (fd w : Nat)
  | setBusy (w : Nat)
  | signal (w : Nat)
  | enqueue (fd : Nat)
  /-- a NULL pointer was followed -/
  | fault
  deriving DecidableEq, Repr

structure State where
  fixedInput : Bool
  main : MainPc
  dispatcher : DispatcherPc
  /-- what is left of the array `epoll_wait` filled -/
  events : List Nat
  slots : Nat → Slot
  openFds : List Nat
  registered : List Nat
  workspaceCount : Nat
  workers : Nat → Worker
  connQueue : RingBuf ConnEvent
  epollQueue : RingBuf Nat
  remainCount : Int
  continueInput : Bool

/-- The start of the program, with a standard input that is a file or not. -/
def State.start (fixedInput : Bool) : State :=
  { fixedInput := fixedInput,
    main := if fixedInput then .input else .createPatcher,
    dispatcher := if fixedInput then .line else .unborn,
    events := [], slots := fun _ => .free, openFds := [], registered := [],
    workspaceCount := 0, workers := fun _ => .zero,
    connQueue := .empty { sockfd := 0, connIndex := 0 }, epollQueue := .empty 0,
    remainCount := 0, continueInput := false }

/-! ## Searches -/

/-- The first slot with the descriptor. -/
def State.lookup (s : State) (fd : Nat) : Option Nat :=
  (List.range epollInstanceMaxSockfd).find? fun i => (s.slots i).sockfd = fd

/-- `get_idle_work_thread_index_not_safety()`; nothing stands for -1. -/
def State.idleWorker (s : State) : Option Nat :=
  (List.range (min 64 s.workspaceCount)).find? fun w => !(s.workers w).busy

def State.connEvents (s : State) : List ConnEvent := s.connQueue.contents connEventQueueMax

def State.epollEvents (s : State) : List Nat := s.epollQueue.contents epollEventQueueMax

/-- `conn_queue_have_conn_index(i)` -/
def State.connQueueHave (s : State) (i : Nat) : Bool := s.connEvents.any fun e => e.connIndex = i

/-- `epoll_queue_have_sockfd(fd)` -/
def State.epollQueueHave (s : State) (fd : Nat) : Bool := s.epollEvents.any fun e => e = fd

/-! ## Updates -/

def State.setWorker (s : State) (w : Nat) (x : Worker) : State :=
  { s with workers := Function.update s.workers w x }

def State.setSlot (s : State) (i : Nat) (x : Slot) : State :=
  { s with slots := Function.update s.slots i x }

def State.goto (s : State) (pc : DispatcherPc) : State := { s with dispatcher := pc }

def State.workerGoto (s : State) (w : Nat) (pc : WorkerPc) : State :=
  s.setWorker w { s.workers w with pc := pc }

/-- `pthread_cond_signal` on the condition of a worker. -/
def State.wake (s : State) (w : Nat) : State :=
  if (s.workers w).pc = .waiting then s.workerGoto w .test else s

/-- `pthread_cond_signal(&g_continue_input_cond)` -/
def State.wakeMain (s : State) : State :=
  if s.main = .waiting then { s with main := .test } else s

/-- `close(sockfd)`: the descriptor leaves the epoll instance as well. -/
def State.close (s : State) (fd : Nat) : State :=
  { s with openFds := s.openFds.erase fd, registered := s.registered.erase fd }

/-! ## The main thread -/

def mainStep (s : State) : Option State :=
  match s.main with
  | .createPatcher => some { s with main := .workspaceInit, dispatcher := .wait }
  | .workspaceInit => some { s with main := .spawn 0, workspaceCount := defaultWorkerCount }
  | .spawn i =>
      if i < s.workspaceCount then
        some { s.workerGoto i .start with main := .spawn (i + 1) }
      else some { s with main := .test }
  | .test => some { s with main := if s.continueInput then .past else .toWait }
  | .toWait => some { s with main := .waiting }
  | .input | .waiting | .past => none

/-! ## The dispatcher -/

/-- A slot for a new connection; `clb` stays as the last transfer left it. -/
def installSlot (s : State) (m : Method) (fd i : Nat) : State :=
  s.setSlot i { s.slots i with state := 0, sockfd := fd, method := m, served := .none }

/-- `http_process`, `conn_index`, the callbacks and the busy bit of an idle
    worker, under the lock of the busy bits. -/
def assignRequest (s : State) (cev : ConnEvent) (w : Nat) : State :=
  (s.setSlot cev.connIndex { s.slots cev.connIndex with param := some w }).setWorker w
    { s.workers w with process := some .httpRequest, connIndex := some cev.connIndex, busy := true }

/-- `interprete_single_command` from the search for a slot on; `b` is whether
    `epoll_ctl` succeeds. -/
def commandStep (b : Bool) (s : State) : DispatcherPc → Option State
  | .slot m fd i =>
      if i < epollInstanceMaxSockfd then
        if (s.slots i).sockfd ≠ 0 then some (s.goto (.slot m fd (i + 1)))
        else some (s.goto (.slotWorkers m fd i 0))
      else some (s.goto .input)
  | .slotWorkers m fd i j =>
      if j < s.workspaceCount then
        if (s.workers j).connIndex = some i then some (s.goto (.slot m fd (i + 1)))
        else some (s.goto (.slotWorkers m fd i (j + 1)))
      else some (s.goto (.slotQueue m fd i))
  | .slotQueue m fd i =>
      if s.connQueueHave i then some (s.goto (.slot m fd (i + 1)))
      else some (s.goto (.install m fd i))
  | .install m fd i =>
      some ((installSlot s m fd i).goto (.epollAdd { sockfd := fd, connIndex := i }))
  | .epollAdd cev =>
      if b then some ({ s with registered := cev.sockfd :: s.registered }.goto (.count cev))
      else some (s.goto .input)
  | .count cev => some ({ s with remainCount := s.remainCount + 1 }.goto (.assign cev))
  | .assign cev =>
      match s.idleWorker with
      | some w => some ((assignRequest s cev w).goto (.connSignal w))
      | none => some (s.goto (.connEnqueue cev))
  | .connSignal w => some ((s.wake w).goto .input)
  | .connEnqueue cev =>
      some ({ s with connQueue := s.connQueue.enqueue connEventQueueMax cev }.goto .input)
  | _ => none

/-- The line is over: the main thread goes on to create the threads, the patcher
    to the next event. -/
def endLine (s : State) : State :=
  if s.main = .input then { s with main := .createPatcher }.goto .unborn else s.goto .next

/-- `epoll_patcher` for one event after the other. -/
def patcherStep (s : State) : DispatcherPc → Option State
  | .quitSignal => some (endLine s.wakeMain)
  | .next =>
      match s.events with
      | [] => some (s.goto .wait)
      | fd :: rest =>
          if fd = 0 then some ({ s with events := rest }.goto .line)
          else some ({ s with events := rest }.goto (.scan fd 0))
  | .scan fd th =>
      if s.workspaceCount = 0 then some (s.goto .fault)
      else if th < defaultWorkerCount then
        if (s.workers th).connIndex.any fun i => (s.slots i).sockfd = fd then some (s.goto .next)
        else some (s.goto (.scan fd (th + 1)))
      else some (s.goto (.queueScan fd))
  | .queueScan fd =>
      if s.epollQueueHave fd then some (s.goto .next) else some (s.goto (.idleCheck fd))
  | .idleCheck fd =>
      match s.idleWorker with
      | some w => some (s.goto (.store fd w))
      | none => some (s.goto (.enqueue fd))
  | .store fd w =>
      some ((s.setWorker w { s.workers w with
        process := some .httpResponse,
        connIndex := (s.lookup fd).or (s.workers w).connIndex }).goto (.setBusy w))
  | .setBusy w => some ((s.setWorker w { s.workers w with busy := true }).goto (.signal w))
  | .signal w => some ((s.wake w).goto .next)
  | .enqueue fd =>
      some ({ s with epollQueue := s.epollQueue.enqueue epollEventQueueMax fd }.goto .next)
  | _ => none

/-! ## The workers -/

/-- What `switch (auto_dequeue)` chooses. -/
def Worker.due (x : Worker) : Option Handler :=
  match x.auto with
  | .reserved => x.process
  | .conn _ => some .httpRequest
  | .epoll _ => some .httpResponse

/-- The connection it is called with. -/
def State.dueConn (s : State) (x : Worker) : Option Nat :=
  match x.auto with
  | .reserved => x.connIndex
  | .conn cev => some cev.connIndex
  | .epoll fd => (s.lookup fd).or x.connIndex

/-- A call of a handler, as the proofs count it. -/
def Served.call (h : Handler) (v : Served) : Served :=
  match h with
  | .httpRequest => { v with requests := v.requests + 1 }
  | .httpResponse => { v with responses := v.responses + 1, early := v.early || !v.answered }

/-- The return of `http_request` or `http_response`; `ok` is whether it is 0. -/
def handlerReturn (s : State) (h : Handler) (i : Nat) (ok : Bool) : State :=
  match h, ok with
  | .httpRequest, true =>
      s.setSlot i { s.slots i with
        state := 1, served := { (s.slots i).served with answered := true } }
  | .httpRequest, false | .httpResponse, false =>
      (s.setSlot i { s.slots i with state := -1, sockfd := 0 }).close (s.slots i).sockfd
  | .httpResponse, true =>
      (s.setSlot i { s.slots i with state := 3, sockfd := 0 }).close (s.slots i).sockfd

/-- A handler that returns has finished with the connection, unless it is a request
    that was sent. -/
def isLast : Handler → Bool → Bool
  | .httpRequest, ok => !ok
  | .httpResponse, _ => true

/-- `dequeue_conn_event_not_safety` and what follows, under the lock of the queue. -/
def takeConn (s : State) (w : Nat) : State :=
  let cev := s.connQueue.head connEventQueueMax
  let t := { s with connQueue := s.connQueue.dequeue connEventQueueMax }
  -- assert(cev.sockfd > 2)
  if cev.sockfd ≤ 2 then t.workerGoto w .fault
  else
    (t.setSlot cev.connIndex
      { s.slots cev.connIndex with sockfd := cev.sockfd, state := 0, param := some w }).setWorker w
      { s.workers w with connIndex := some cev.connIndex, auto := .conn cev, pc := .load }

/-- `dequeue_epoll_event_not_safety` and what follows, under the lock of the queue. -/
def takeEpoll (s : State) (w : Nat) : State :=
  let fd := s.epollQueue.head epollEventQueueMax
  let t := { s with epollQueue := s.epollQueue.dequeue epollEventQueueMax }
  match s.lookup fd with
  | some i =>
      (t.setSlot i { s.slots i with sockfd := fd, state := 2 }).setWorker w
        { s.workers w with connIndex := some i, auto := .epoll fd, pc := .load }
  | none => t.workerGoto w .clear

/-- `epoll_worker` of worker `w`; `ok` is whether a handler that returns does so
    with 0. -/
def workerStep (s : State) (w : Nat) (ok : Bool) : Option State :=
  let x := s.workers w
  match x.pc with
  | .unborn | .waiting | .fault => none
  | .start => some (s.setWorker w { x with connIndex := none, pc := .test })
  | .test => some (s.workerGoto w (if x.busy then .load else .toWait))
  | .toWait => some (s.workerGoto w .waiting)
  | .load =>
      match x.due, s.dueConn x with
      | none, i => some (s.setWorker w { x with connIndex := i, pc := .account })
      | some _, none => some (s.workerGoto w .fault)
      | some h, some i =>
          -- assert(conn->sockfd > 2)
          if (s.slots i).sockfd ≤ 2 then some (s.workerGoto w .fault)
          else
            some ((s.setSlot i
              { s.slots i with served := (s.slots i).served.call h }).setWorker w
              { x with connIndex := some i, pc := .exec h })
  | .exec h =>
      match x.connIndex with
      | some i => some ((handlerReturn s h i ok).workerGoto w .account)
      | none => some (s.workerGoto w .fault)
  | .account =>
      if s.fixedInput then
        match x.connIndex with
        | some i =>
            if (s.slots i).state = -1 ∨ (s.slots i).sockfd = 0 then
              some { s.workerGoto w .raise with remainCount := s.remainCount - 1 }
            else some (s.workerGoto w .release)
        | none => some (s.workerGoto w .fault)
      else some (s.workerGoto w .release)
  | .raise =>
      some { s.workerGoto w .signal with
        continueInput := if s.remainCount ≠ 0 then true else s.continueInput }
  | .signal => some (s.wakeMain.workerGoto w .release)
  | .release =>
      some (s.setWorker w { x with connIndex := none, auto := .reserved, pc := .dequeueConn })
  | .dequeueConn =>
      if s.connQueue.count ≠ 0 then some (takeConn s w) else some (s.workerGoto w .dequeueEpoll)
  | .dequeueEpoll =>
      if s.epollQueue.count ≠ 0 then some (takeEpoll s w) else some (s.workerGoto w .clear)
  | .clear => some (s.setWorker w { x with busy := false, pc := .test })

/-! ## The program -/

/-- What happens next. -/
inductive Act where
  | main
  /-- a command is accepted, and its connection has the descriptor -/
  | command (m : Method) (fd : Nat)
  | quit
  | endInput
  /-- `epoll_wait` returns with these descriptors readable -/
  | fetch (fds : List Nat)
  | dispatcher (b : Bool)
  | worker (w : Nat) (ok : Bool)
  deriving DecidableEq, Repr

def step (s : State) : Act → Option State
  | .main => mainStep s
  | .command m fd =>
      if (s.dispatcher = .line ∨ s.dispatcher = .input) ∧ 2 < fd ∧ fd ∉ s.openFds then
        some ({ s with openFds := fd :: s.openFds }.goto (.slot m fd 0))
      else none
  | .quit =>
      if s.dispatcher = .line then some ({ s with continueInput := true }.goto .quitSignal)
      else none
  | .endInput =>
      if s.dispatcher = .line ∨ s.dispatcher = .input then some (endLine s) else none
  | .fetch fds =>
      if s.dispatcher = .wait ∧ fds.Nodup ∧
          ∀ fd ∈ fds, fd ∈ s.registered ∨ (fd = 0 ∧ s.fixedInput = false) then
        some ({ s with events := fds }.goto .next)
      else none
  | .dispatcher b =>
      match commandStep b s s.dispatcher with
      | some t => some t
      | none => patcherStep s s.dispatcher
  | .worker w ok => if w < s.workspaceCount then workerStep s w ok else none

/-- The program as a machine. -/
def program : Machine State Act := { step := step }

/-! ## Pieces of runs -/

/-- The dispatcher goes on for so many steps. -/
def dispatches (n : Nat) : List Act := List.replicate n (.dispatcher true)

/-- A worker goes on for so many steps. -/
def works (w n : Nat) : List Act := List.replicate n (.worker w true)

/-- The main thread starts the others, and the workers come to wait. -/
def boot : List Act :=
  List.replicate 12 .main ++ (List.range defaultWorkerCount).flatMap fun w => works w 3

/-! ## What a step can do -/

/-- A step of which neither a worker, nor a queue, nor the main thread takes note. -/
structure Unnoticed (s t : State) : Prop where
  workers : t.workers = s.workers
  connQueue : t.connQueue = s.connQueue
  epollQueue : t.epollQueue = s.epollQueue
  main : t.main = s.main
  continueInput : t.continueInput = s.continueInput

/-- The dispatcher is about to signal. -/
def signalling : DispatcherPc → Bool
  | .connSignal _ | .signal _ | .quitSignal => true
  | _ => false

/-- The dispatcher is about to set a busy bit that it did not set with the work. -/
def setting : DispatcherPc → Bool
  | .setBusy _ => true
  | _ => false

/-- A dispatcher that is not about to set a bit sets none. -/
theorem not_setting {d : DispatcherPc} (h : setting d = false) (v : Nat) : d ≠ .setBusy v := by
  rintro rfl
  cases h

/-- The steps of the dispatcher. -/
inductive Dispatched (s t : State) : Prop where
  | alone (h : Unnoticed s t) (hat : signalling s.dispatcher = false)
  | assign (cev : ConnEvent) (w : Nat) (hat : s.dispatcher = .assign cev)
      (ht : t = (assignRequest s cev w).goto (.connSignal w))
  | wake (w : Nat) (pc : DispatcherPc) (hat : s.dispatcher = .connSignal w ∨ s.dispatcher = .signal w)
      (ht : t = (s.wake w).goto pc)
  | connEnqueue (cev : ConnEvent) (hat : s.dispatcher = .connEnqueue cev)
      (ht : t = { s with connQueue := s.connQueue.enqueue connEventQueueMax cev }.goto .input)
  | wakeMain (hat : s.dispatcher = .quitSignal) (ht : t = endLine s.wakeMain)
  | store (fd w : Nat) (x : Worker) (hat : s.dispatcher = .store fd w)
      (hx : x.pc = (s.workers w).pc ∧ x.busy = (s.workers w).busy)
      (ht : t = (s.setWorker w x).goto (.setBusy w))
  | setBusy (w : Nat) (hat : s.dispatcher = .setBusy w)
      (ht : t = (s.setWorker w { s.workers w with busy := true }).goto (.signal w))
  | enqueue (fd : Nat) (hat : s.dispatcher = .enqueue fd)
      (ht : t = { s with epollQueue := s.epollQueue.enqueue epollEventQueueMax fd }.goto .next)

/-- Neither a worker nor a queue takes note of the main thread being woken. -/
theorem wakeMain_frame (s : State) :
    s.wakeMain.workers = s.workers ∧ s.wakeMain.connQueue = s.connQueue ∧
      s.wakeMain.epollQueue = s.epollQueue ∧ s.wakeMain.continueInput = s.continueInput ∧
      s.wakeMain.dispatcher = s.dispatcher := by
  rw [State.wakeMain]
  split_ifs <;> exact ⟨rfl, rfl, rfl, rfl, rfl⟩

/-- Nor of the end of a line. -/
theorem endLine_frame (s : State) :
    (endLine s).workers = s.workers ∧ (endLine s).connQueue = s.connQueue ∧
      (endLine s).epollQueue = s.epollQueue ∧ (endLine s).continueInput = s.continueInput := by
  rw [endLine]
  split_ifs <;> exact ⟨rfl, rfl, rfl, rfl⟩

/-- A signal for the main thread creates no worker. -/
theorem wakeMain_spawned (s : State) : spawned s.wakeMain.main = spawned s.main := by
  rw [State.wakeMain]
  split_ifs with hm
  · rw [hm]
    rfl
  · rfl

/-- The end of a line creates no worker. -/
theorem endLine_spawned (s : State) : spawned (endLine s).main = spawned s.main := by
  rw [endLine]
  split_ifs with hm
  · rw [hm]
    rfl
  · rfl

/-- A signal wakes a worker that waits, and is lost on any other. -/
theorem wake_eq (s : State) (w : Nat) :
    ((s.workers w).pc ≠ .waiting ∧ s.wake w = s) ∨
      ((s.workers w).pc = .waiting ∧ s.wake w = s.workerGoto w .test) := by
  rw [State.wake]
  split_ifs with hpc
  · exact Or.inr ⟨hpc, rfl⟩
  · exact Or.inl ⟨hpc, rfl⟩

/-- A dispatcher that gives no signal may just go on. -/
theorem Dispatched.goto {s : State} {pc : DispatcherPc} (hat : signalling s.dispatcher = false) :
    Dispatched s (s.goto pc) :=
  .alone ⟨rfl, rfl, rfl, rfl, rfl⟩ hat

/-- A step of a command is one of the forms of a dispatch. -/
theorem commandStep_dispatched {b : Bool} {s t : State} {d : DispatcherPc} (hd : s.dispatcher = d)
    (hstep : commandStep b s d = some t) :
    Dispatched s t := by
  cases d with
  | slot _ _ _ | slotWorkers _ _ _ _ | slotQueue _ _ _ =>
      rw [commandStep] at hstep
      split_ifs at hstep <;>
      · obtain rfl := Option.some.inj hstep
        exact .goto (by rw [hd]; rfl)
  | install _ _ _ | count _ =>
      obtain rfl := Option.some.inj hstep
      exact .alone ⟨rfl, rfl, rfl, rfl, rfl⟩ (by rw [hd]; rfl)
  | epollAdd cev =>
      rw [commandStep] at hstep
      split_ifs at hstep <;>
      · obtain rfl := Option.some.inj hstep
        exact .alone ⟨rfl, rfl, rfl, rfl, rfl⟩ (by rw [hd]; rfl)
  | assign cev =>
      rw [commandStep] at hstep
      cases hidle : s.idleWorker with
      | some w =>
          rw [hidle] at hstep
          exact .assign cev w hd (Option.some.inj hstep).symm
      | none =>
          rw [hidle] at hstep
          obtain rfl := Option.some.inj hstep
          exact .goto (by rw [hd]; rfl)
  | connSignal w => exact .wake w _ (Or.inl hd) (Option.some.inj hstep).symm
  | connEnqueue cev => exact .connEnqueue cev hd (Option.some.inj hstep).symm
  | _ => cases hstep

/-- A step for an event is one of them too. -/
theorem patcherStep_dispatched {s t : State} {d : DispatcherPc} (hd : s.dispatcher = d)
    (hstep : patcherStep s d = some t) :
    Dispatched s t := by
  cases d with
  | quitSignal => exact .wakeMain hd (Option.some.inj hstep).symm
  | next =>
      rw [patcherStep] at hstep
      cases hevents : s.events with
      | nil =>
          rw [hevents] at hstep
          obtain rfl := Option.some.inj hstep
          exact .goto (by rw [hd]; rfl)
      | cons fd rest =>
          rw [hevents] at hstep
          dsimp only at hstep
          split_ifs at hstep <;>
          · obtain rfl := Option.some.inj hstep
            exact .alone ⟨rfl, rfl, rfl, rfl, rfl⟩ (by rw [hd]; rfl)
  | scan _ _ | queueScan _ =>
      rw [patcherStep] at hstep
      split_ifs at hstep <;>
      · obtain rfl := Option.some.inj hstep
        exact .goto (by rw [hd]; rfl)
  | idleCheck fd =>
      rw [patcherStep] at hstep
      cases hidle : s.idleWorker with
      | some _ | none =>
          rw [hidle] at hstep
          obtain rfl := Option.some.inj hstep
          exact .goto (by rw [hd]; rfl)
  | store fd w =>
      refine .store fd w _ hd ?_ (Option.some.inj hstep).symm
      exact ⟨rfl, rfl⟩
  | setBusy w => exact .setBusy w hd (Option.some.inj hstep).symm
  | signal w => exact .wake w _ (Or.inr hd) (Option.some.inj hstep).symm
  | enqueue fd => exact .enqueue fd hd (Option.some.inj hstep).symm
  | _ => cases hstep

/-- **WHAT THE DISPATCHER DOES** in a step. -/
theorem dispatcher_dispatched {b : Bool} {s t : State} (hstep : step s (.dispatcher b) = some t) :
    Dispatched s t := by
  rw [step] at hstep
  cases hcommand : commandStep b s s.dispatcher with
  | some u =>
      rw [hcommand] at hstep
      exact commandStep_dispatched rfl (Option.some.inj hstep ▸ hcommand)
  | none =>
      rw [hcommand] at hstep
      exact patcherStep_dispatched rfl hstep

/-- A worker comes to `x`, and neither a queue nor the main thread takes note. -/
structure Comes (s t : State) (w : Nat) (x : Worker) : Prop where
  workers : t.workers = Function.update s.workers w x
  busy : x.busy = (s.workers w).busy
  connQueue : t.connQueue = s.connQueue
  epollQueue : t.epollQueue = s.epollQueue
  main : t.main = s.main
  continueInput : t.continueInput = s.continueInput
  dispatcher : t.dispatcher = s.dispatcher

/-- The places at which a worker neither waits, nor signals, nor has found a
    queue empty. -/
def engaged : WorkerPc → Bool
  | .toWait | .waiting | .signal | .dequeueEpoll | .clear => false
  | _ => true

/-- The steps of a worker. -/
inductive Worked (s t : State) (w : Nat) : Prop where
  | serve (x : Worker) (h : Comes s t w x) (hpc : engaged x.pc = true)
      (hfrom : (s.workers w).pc ≠ .signal ∧ (s.workers w).pc ≠ .unborn)
  | tested (h : Comes s t w { s.workers w with pc := .toWait }) (hfrom : (s.workers w).pc = .test)
      (hidle : (s.workers w).busy = false)
  | waits (h : Comes s t w { s.workers w with pc := .waiting }) (hfrom : (s.workers w).pc = .toWait)
  | raise (hfrom : (s.workers w).pc = .raise)
      (ht : t = { s.workerGoto w .signal with
        continueInput := if s.remainCount ≠ 0 then true else s.continueInput })
  | signal (hfrom : (s.workers w).pc = .signal) (ht : t = s.wakeMain.workerGoto w .release)
  | connsEmpty (h : Comes s t w { s.workers w with pc := .dequeueEpoll })
      (hfrom : (s.workers w).pc = .dequeueConn) (hempty : s.connQueue.count = 0)
  | takeConn (x : Worker) (h : Comes { s with connQueue := t.connQueue } t w x)
      (hpc : engaged x.pc = true) (hfrom : (s.workers w).pc = .dequeueConn)
      (hfewer : t.connQueue.count = s.connQueue.count - 1)
  | epollsEmpty (h : Comes s t w { s.workers w with pc := .clear })
      (hfrom : (s.workers w).pc = .dequeueEpoll) (hempty : s.epollQueue.count = 0)
  | takeEpoll (x : Worker) (h : Comes { s with epollQueue := t.epollQueue } t w x)
      (hpc : engaged x.pc = true ∨
        (x.pc = .clear ∧ s.lookup (s.epollQueue.head epollEventQueueMax) = none))
      (hfrom : (s.workers w).pc = .dequeueEpoll) (hsome : s.epollQueue.count ≠ 0)
      (hfewer : t.epollQueue.count = s.epollQueue.count - 1)
  | clear (hfrom : (s.workers w).pc = .clear)
      (ht : t = s.setWorker w { s.workers w with busy := false, pc := .test })

/-- Nothing but the slot and the descriptors is changed by a handler. -/
theorem handlerReturn_frame (s : State) (d : Handler) (i : Nat) (ok : Bool) :
    (∀ j, j ≠ i → (handlerReturn s d i ok).slots j = s.slots j) ∧
      (handlerReturn s d i ok).workers = s.workers ∧
      (handlerReturn s d i ok).workspaceCount = s.workspaceCount ∧
      (handlerReturn s d i ok).main = s.main ∧
      (handlerReturn s d i ok).continueInput = s.continueInput ∧
      (handlerReturn s d i ok).dispatcher = s.dispatcher ∧
      (handlerReturn s d i ok).connQueue = s.connQueue ∧
      (handlerReturn s d i ok).epollQueue = s.epollQueue := by
  cases d <;> cases ok <;>
    exact ⟨fun j hj => Function.update_of_ne hj _ _, rfl, rfl, rfl, rfl, rfl, rfl, rfl⟩

/-- A worker that only goes on comes to where it goes. -/
theorem Comes.workerGoto (s : State) (w : Nat) (pc : WorkerPc) :
    Comes s (s.workerGoto w pc) w { s.workers w with pc := pc } :=
  ⟨rfl, rfl, rfl, rfl, rfl, rfl, rfl⟩

/-- **WHAT A WORKER DOES** in a step. -/
theorem workerStep_worked {w : Nat} {ok : Bool} {s t : State} (hstep : workerStep s w ok = some t) :
    Worked s t w := by
  rw [workerStep] at hstep
  cases hpc : (s.workers w).pc with
  | unborn | waiting | fault =>
      rw [hpc] at hstep
      cases hstep
  | start | release =>
      rw [hpc] at hstep
      obtain rfl := Option.some.inj hstep
      exact .serve _ ⟨rfl, rfl, rfl, rfl, rfl, rfl, rfl⟩ rfl
        (by rw [hpc]; exact ⟨by rintro ⟨⟩, by rintro ⟨⟩⟩)
  | test =>
      rw [hpc] at hstep
      dsimp only at hstep
      split_ifs at hstep with hbusy
      · obtain rfl := Option.some.inj hstep
        exact .serve _ (.workerGoto s w .load) rfl (by rw [hpc]; exact ⟨by rintro ⟨⟩, by rintro ⟨⟩⟩)
      · obtain rfl := Option.some.inj hstep
        exact .tested (.workerGoto s w .toWait) hpc (Bool.eq_false_iff.mpr hbusy)
  | toWait =>
      rw [hpc] at hstep
      obtain rfl := Option.some.inj hstep
      exact .waits (.workerGoto s w .waiting) hpc
  | load =>
      have hfrom : (s.workers w).pc ≠ .signal ∧ (s.workers w).pc ≠ .unborn := by
        rw [hpc]
        exact ⟨by rintro ⟨⟩, by rintro ⟨⟩⟩
      rw [hpc] at hstep
      dsimp only at hstep
      split at hstep
      · obtain rfl := Option.some.inj hstep
        exact .serve _ ⟨rfl, rfl, rfl, rfl, rfl, rfl, rfl⟩ rfl hfrom
      · obtain rfl := Option.some.inj hstep
        exact .serve _ (.workerGoto s w .fault) rfl hfrom
      · split_ifs at hstep
        · obtain rfl := Option.some.inj hstep
          exact .serve _ (.workerGoto s w .fault) rfl hfrom
        · obtain rfl := Option.some.inj hstep
          exact .serve _ ⟨rfl, rfl, rfl, rfl, rfl, rfl, rfl⟩ rfl hfrom
  | exec d =>
      have hfrom : (s.workers w).pc ≠ .signal ∧ (s.workers w).pc ≠ .unborn := by
        rw [hpc]
        exact ⟨by rintro ⟨⟩, by rintro ⟨⟩⟩
      rw [hpc] at hstep
      dsimp only at hstep
      cases hname : (s.workers w).connIndex with
      | some i =>
          rw [hname] at hstep
          obtain rfl := Option.some.inj hstep
          obtain ⟨-, hworkers, -, hmain, hflag, hdisp, hconn, hepoll⟩ := handlerReturn_frame s d i ok
          refine .serve { s.workers w with pc := .account } ?_ rfl hfrom
          refine ⟨?_, rfl, hconn, hepoll, hmain, hflag, hdisp⟩
          rw [← hworkers]
          rfl
      | none =>
          rw [hname] at hstep
          obtain rfl := Option.some.inj hstep
          exact .serve _ (.workerGoto s w .fault) rfl hfrom
  | account =>
      have hfrom : (s.workers w).pc ≠ .signal ∧ (s.workers w).pc ≠ .unborn := by
        rw [hpc]
        exact ⟨by rintro ⟨⟩, by rintro ⟨⟩⟩
      rw [hpc] at hstep
      dsimp only at hstep
      split_ifs at hstep
      · cases hname : (s.workers w).connIndex with
        | some i =>
            rw [hname] at hstep
            dsimp only at hstep
            split_ifs at hstep
            · obtain rfl := Option.some.inj hstep
              exact .serve { s.workers w with pc := .raise } ⟨rfl, rfl, rfl, rfl, rfl, rfl, rfl⟩ rfl
                hfrom
            · obtain rfl := Option.some.inj hstep
              exact .serve _ (.workerGoto s w .release) rfl hfrom
        | none =>
            rw [hname] at hstep
            obtain rfl := Option.some.inj hstep
            exact .serve _ (.workerGoto s w .fault) rfl hfrom
      · obtain rfl := Option.some.inj hstep
        exact .serve _ (.workerGoto s w .release) rfl hfrom
  | raise =>
      rw [hpc] at hstep
      exact .raise hpc (Option.some.inj hstep).symm
  | signal =>
      rw [hpc] at hstep
      exact .signal hpc (Option.some.inj hstep).symm
  | dequeueConn =>
      rw [hpc] at hstep
      dsimp only at hstep
      split_ifs at hstep with hcount
      · obtain rfl := Option.some.inj hstep
        rw [takeConn]
        dsimp only
        split_ifs
        · exact .takeConn _ (.workerGoto _ w .fault) rfl hpc rfl
        · exact .takeConn _ ⟨rfl, rfl, rfl, rfl, rfl, rfl, rfl⟩ rfl hpc rfl
      · obtain rfl := Option.some.inj hstep
        exact .connsEmpty (.workerGoto s w .dequeueEpoll) hpc (not_not.mp hcount)
  | dequeueEpoll =>
      rw [hpc] at hstep
      dsimp only at hstep
      split_ifs at hstep with hcount
      · obtain rfl := Option.some.inj hstep
        unfold takeEpoll
        dsimp only
        cases hfind : s.lookup (s.epollQueue.head epollEventQueueMax) with
        | some i =>
            exact .takeEpoll _ ⟨rfl, rfl, rfl, rfl, rfl, rfl, rfl⟩ (Or.inl rfl) hpc hcount rfl
        | none =>
            exact .takeEpoll _ (.workerGoto _ w .clear) (Or.inr ⟨rfl, hfind⟩) hpc hcount rfl
      · obtain rfl := Option.some.inj hstep
        exact .epollsEmpty (.workerGoto s w .clear) hpc (not_not.mp hcount)
  | clear =>
      rw [hpc] at hstep
      exact .clear hpc (Option.some.inj hstep).symm

end Threads
