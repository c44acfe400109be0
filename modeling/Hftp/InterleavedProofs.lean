import Hftp.CommandRefinementProofs
import Hftp.ExclusionProofs
import Hftp.SlotReuseProofs
import Hftp.WireProofs

/-! # Commands side by side

    The threads of `program` hand slots to each other, and the functions of the
    handlers work on the connections in them.  Here both are in one machine: beside
    the threads stand the connections with all that is in them, and each step writes
    into them what the code writes; a handler is one step, when it returns, whatever
    it met.

    However the threads are interleaved, a handler is called with the connection of
    the command that its descriptor was opened for.  The request is, byte for byte,
    what it would be in a slot that held no command before, if it met the same: of
    what others left, only the `chunks` of the worker can make a difference.  This
    holds as long as each connection has one worker at a time. -/

namespace Interleaved

open CBytes HttpCore HttpResp HttpMethod HttpTransfer SingleCommand SlotReuse Wire
open Threads CommandLife RingBuffer Transition CommandRefinement
open Exclusion (handsOn)

/-! ## The machine -/

/-- What a step meets outside the threads and the connections: the text that was read,
    for a command; what `write` takes, the buffer of the worker, what the server sends,
    the files and the `chunks`, for a handler. -/
structure Env where
  command : Locals
  results : Writes
  fuel : Nat
  buffer : Bytes
  sock : Sock
  world : MethodWorld

/-- `http_request` on a connection. -/
def Env.request (e : Env) (conn : HttpConnection) : RequestRun MethodWorld :=
  httpRequest (methodCallbacks conn.clb) conn httpConnDataBufferSize e.results e.fuel e.world

/-- `http_process`: what it returns, and the connection. -/
def Env.handle (e : Env) (conn : HttpConnection) : Handler → Except Abort Int × HttpConnection
  | .httpRequest => ((e.request conn).stop, (e.request conn).conn)
  | .httpResponse =>
      let run := httpResponse conn e.buffer e.sock e.world
      (run.stop, run.conn)

/-- A call of a handler: the connection, the command that the descriptor in it was opened
    for, and what it met. -/
structure Call where
  handler : Handler
  conn : HttpConnection
  command : Locals
  env : Env

/-- The threads, `g_conn_workspace`, the locals of `interprete_single_command`; and, as the
    proofs count them, the commands for which descriptors were opened and the calls. -/
structure Side where
  threads : State
  conns : Nat → HttpConnection
  command : Locals
  opened : Nat → Locals
  calls : List Call

/-- `g_param_set_func_arr[conn->method](&conn->clb, &workspace->chunks)` -/
def register (conn : HttpConnection) (w : Nat) : HttpConnection :=
  { conn with clb := paramSet conn.method w }

/-- The slot that a step writes, and what is in it then. -/
def written (x : Side) (e : Env) : Act → Option (Nat × HttpConnection)
  | .dispatcher _ =>
      match x.threads.dispatcher with
      | .install _ fd i => (fillSlot (x.conns i) fd x.command).toOption.map fun conn => (i, conn)
      | .assign cev =>
          x.threads.idleWorker.map fun w => (cev.connIndex, register (x.conns cev.connIndex) w)
      | _ => none
  | .worker w _ =>
      match (x.threads.workers w).pc with
      | .dequeueConn =>
          let cev := x.threads.connQueue.head connEventQueueMax
          if x.threads.connQueue.count ≠ 0 ∧ 2 < cev.sockfd then
            some (cev.connIndex,
              register { x.conns cev.connIndex with sockfd := cev.sockfd, state := 0 } w)
          else none
      | .dequeueEpoll =>
          let fd := x.threads.epollQueue.head epollEventQueueMax
          if x.threads.epollQueue.count ≠ 0 then
            (x.threads.lookup fd).map fun i => (i, { x.conns i with sockfd := fd, state := 2 })
          else none
      | .exec d =>
          (x.threads.workers w).connIndex.map fun i => (i, (e.handle (x.conns i) d).2)
      | _ => none
  | _ => none

/-- The call that comes to its end in a step. -/
def returned (x : Side) (e : Env) : Act → List Call
  | .worker w _ =>
      match (x.threads.workers w).pc with
      | .exec d =>
          (x.threads.workers w).connIndex.toList.map fun i =>
            { handler := d, conn := x.conns i, command := x.opened (x.conns i).sockfd.toNat,
              env := e }
      | _ => []
  | _ => []

/-- The step and what it meets go together: the method was read from the text, the arrays
    hold strings, and a handler returns what the step says. -/
def meets (x : Side) (e : Env) : Act → Bool
  | .command m _ => decide (e.command.method = m)
  | .dispatcher _ =>
      match x.threads.dispatcher with
      | .install _ fd i => (fillSlot (x.conns i) fd x.command).toOption.isSome
      | _ => true
  | .worker w ok =>
      match (x.threads.workers w).pc with
      | .exec d =>
          (x.threads.workers w).connIndex.all fun i =>
            (e.handle (x.conns i) d).1.toOption.any fun code => ok = decide (code = 0)
      | _ => true
  | _ => true

def sideStep (x : Side) (turn : Act × Env) : Option Side :=
  if meets x turn.2 turn.1 then
    (step x.threads turn.1).map fun t =>
      { threads := t
        conns := (written x turn.2 turn.1).elim x.conns fun ic =>
          Function.update x.conns ic.1 ic.2
        command := match turn.1 with
          | .command _ _ => turn.2.command
          | _ => x.command
        opened := match turn.1 with
          | .command _ fd => Function.update x.opened fd turn.2.command
          | _ => x.opened
        calls := x.calls ++ returned x turn.2 turn.1 }
  else none

/-- The program, with its connections. -/
def sideBySide : Machine Side (Act × Env) := { step := sideStep }

/-- The start of the program, with what lies on the stack. -/
def Side.start (fixedInput : Bool) (stack : Stack) : Side :=
  { threads := State.start fixedInput, conns := fun _ => .zero, command := stack.locals,
    opened := fun _ => stack.locals, calls := [] }

/-- The condition under which each connection has one worker at a time. -/
def orderly (x : Side) (turn : Act × Env) : Bool := handsOn x.threads turn.1

/-! ## A handler -/

section Handler

variable (e : Env) (conn : HttpConnection)

theorem handle_returns {d : Handler} {code : Int} (h : (e.handle conn d).1 = .ok code) :
    Returns conn code d (e.handle conn d).2 := by
  cases d with
  | httpRequest => exact .request httpConnDataBufferSize e.results e.fuel e.world h
  | httpResponse => exact .response e.buffer e.sock e.world h

/-- A handler leaves the names alone. -/
theorem handle_names (d : Handler) : SameNames conn (e.handle conn d).2 := by
  cases d with
  | httpRequest => exact request_names conn.clb httpConnDataBufferSize e.fuel e.results e.world
  | httpResponse => exact response_names e.buffer e.sock e.world

end Handler

/-! ## What a step writes -/

/-- A worker that is about to call `http_request`, or in it. -/
def requesting (x : Worker) : Bool :=
  match x.pc with
  | .exec .httpRequest => true
  | .test | .toWait | .waiting | .load => decide (x.due = some .httpRequest)
  | _ => false

/-- The command that has no slot yet. -/
def searching : DispatcherPc → Option (Method × Nat)
  | .slot m fd _ | .slotWorkers m fd _ _ | .slotQueue m fd _ | .install m fd _ => some (m, fd)
  | _ => none

/-- The steps, by what they write into a slot. -/
inductive Effect (s t : State) : Act → Prop where
  | aside {a : Act} (hslots : t.slots = s.slots)
      (hwrites : ∀ x e, x.threads = s → written x e a = none ∧ returned x e a = [])
      (hworkers : ∀ v i, (t.workers v).connIndex = some i → requesting (t.workers v) = true →
        (s.workers v).connIndex = some i ∧ requesting (s.workers v) = true) : Effect s t a
  | install {b : Bool} (m : Method) (fd i : Nat) (hd : s.dispatcher = .install m fd i)
      (ht : t = (installSlot s m fd i).goto (.epollAdd { sockfd := fd, connIndex := i })) :
      Effect s t (.dispatcher b)
  | assign {b : Bool} (cev : ConnEvent) (w : Nat) (hd : s.dispatcher = .assign cev)
      (hidle : s.idleWorker = some w) (ht : t = (assignRequest s cev w).goto (.connSignal w)) :
      Effect s t (.dispatcher b)
  | takeConn {w : Nat} {ok : Bool} (hpc : (s.workers w).pc = .dequeueConn)
      (hcount : s.connQueue.count ≠ 0) (hfd : 2 < (s.connQueue.head connEventQueueMax).sockfd)
      (ht : t = takeConn s w) : Effect s t (.worker w ok)
  | takeEpoll {w : Nat} {ok : Bool} (i : Nat) (hpc : (s.workers w).pc = .dequeueEpoll)
      (hcount : s.epollQueue.count ≠ 0)
      (hfind : s.lookup (s.epollQueue.head epollEventQueueMax) = some i)
      (ht : t = takeEpoll s w) : Effect s t (.worker w ok)
  | load {w : Nat} {ok : Bool} (h : Handler) (i : Nat) (hpc : (s.workers w).pc = .load)
      (hdue : (s.workers w).due = some h) (hindex : s.dueConn (s.workers w) = some i)
      (ht : t = (s.setSlot i
        { s.slots i with served := (s.slots i).served.call h }).setWorker w
        { s.workers w with connIndex := some i, pc := .exec h }) : Effect s t (.worker w ok)
  | exec {w : Nat} {ok : Bool} (d : Handler) (i : Nat) (hpc : (s.workers w).pc = .exec d)
      (hname : (s.workers w).connIndex = some i)
      (ht : t = (handlerReturn s d i ok).workerGoto w .account) : Effect s t (.worker w ok)

section Effects

variable {s t : State} {a : Act} {φ : Nat → Phase}

/-- No slot is written, and no worker takes note. -/
theorem Effect.still (hslots : t.slots = s.slots) (hworkers : t.workers = s.workers)
    (hwrites : ∀ x e, x.threads = s → written x e a = none ∧ returned x e a = []) :
    Effect s t a := by
  refine .aside hslots hwrites fun v i hi hreq => ?_
  rw [hworkers] at hi hreq
  exact ⟨hi, hreq⟩

/-- No slot is written, and one worker becomes `y`. -/
theorem Effect.one {w : Nat} {y : Worker} (hslots : t.slots = s.slots)
    (hworkers : t.workers = Function.update s.workers w y)
    (hwrites : ∀ x e, x.threads = s → written x e a = none ∧ returned x e a = [])
    (hy : ∀ i, y.connIndex = some i → requesting y = true →
      (s.workers w).connIndex = some i ∧ requesting (s.workers w) = true) : Effect s t a := by
  refine .aside hslots hwrites fun v i hi hreq => ?_
  rw [hworkers] at hi hreq
  by_cases hv : v = w
  · rw [hv, Function.update_self] at hi hreq
    rw [hv]
    exact hy i hi hreq
  · rw [Function.update_of_ne hv] at hi hreq
    exact ⟨hi, hreq⟩

/-- The dispatcher writes a slot at two places only. -/
theorem dispatcher_writes {b : Bool} (hinstall : ∀ m fd i, s.dispatcher ≠ .install m fd i)
    (hassign : ∀ cev, s.dispatcher ≠ .assign cev) (x : Side) (e : Env) (hx : x.threads = s) :
    written x e (.dispatcher b) = none ∧ returned x e (.dispatcher b) = [] := by
  refine ⟨?_, rfl⟩
  rw [written, hx]
  cases hd : s.dispatcher with
  | install m fd i => exact absurd hd (hinstall m fd i)
  | assign cev => exact absurd hd (hassign cev)
  | _ => rfl

/-- A worker at most places writes none. -/
theorem worker_writes {w : Nat} {ok : Bool} (hconn : (s.workers w).pc ≠ .dequeueConn)
    (hepoll : (s.workers w).pc ≠ .dequeueEpoll) (hexec : ∀ d, (s.workers w).pc ≠ .exec d)
    (x : Side) (e : Env) (hx : x.threads = s) :
    written x e (.worker w ok) = none ∧ returned x e (.worker w ok) = [] := by
  rw [written, returned, hx]
  cases hpc : (s.workers w).pc with
  | dequeueConn => exact absurd hpc hconn
  | dequeueEpoll => exact absurd hpc hepoll
  | exec d => exact absurd hpc (hexec d)
  | _ => exact ⟨rfl, rfl⟩

theorem main_effect (h : mainStep s = some t) : Effect s t .main := by
  have hwrites : ∀ x e, x.threads = s → written x e .main = none ∧ returned x e .main = [] :=
    fun _ _ _ => ⟨rfl, rfl⟩
  rw [mainStep] at h
  cases hm : s.main with
  | createPatcher | workspaceInit | test | toWait =>
      rw [hm] at h
      obtain rfl := Option.some.inj h
      exact .still rfl rfl hwrites
  | spawn i =>
      rw [hm] at h
      dsimp only at h
      split_ifs at h
      · obtain rfl := Option.some.inj h
        exact .one rfl rfl hwrites (by rintro j hj ⟨⟩)
      · obtain rfl := Option.some.inj h
        exact .still rfl rfl hwrites
  | input | waiting | past =>
      rw [hm] at h
      cases h

theorem wakeMain_slots (s : State) : s.wakeMain.slots = s.slots := by
  rw [State.wakeMain]
  split_ifs <;> rfl

theorem endLine_slots (s : State) : (endLine s).slots = s.slots := by
  rw [endLine]
  split_ifs <;> rfl

/-- A worker that is woken still has the same to do. -/
theorem wake_effect {w : Nat} {d : DispatcherPc}
    (hwrites : ∀ x e, x.threads = s → written x e a = none ∧ returned x e a = []) :
    Effect s ((s.wake w).goto d) a := by
  rcases wake_eq s w with ⟨-, hsame⟩ | ⟨hpc, hwoken⟩
  · rw [hsame]
    exact .still rfl rfl hwrites
  · rw [hwoken]
    refine .one (w := w) (y := { s.workers w with pc := .test }) rfl rfl hwrites fun i hi hreq => ?_
    refine ⟨hi, ?_⟩
    rw [requesting, hpc]
    exact hreq

theorem command_effect {b : Bool} {d : DispatcherPc} (hd : s.dispatcher = d)
    (h : commandStep b s d = some t) : Effect s t (.dispatcher b) := by
  have hnone : (∀ m fd i, d ≠ .install m fd i) → (∀ cev, d ≠ .assign cev) →
      ∀ x e, x.threads = s →
        written x e (.dispatcher b) = none ∧ returned x e (.dispatcher b) = [] :=
    fun hinstall hassign => dispatcher_writes (hd ▸ hinstall) (hd ▸ hassign)
  cases d with
  | slot _ _ _ | slotWorkers _ _ _ _ | slotQueue _ _ _ | epollAdd _ =>
      rw [commandStep] at h
      split_ifs at h <;>
      · obtain rfl := Option.some.inj h
        exact .still rfl rfl (hnone (by rintro _ _ _ ⟨⟩) (by rintro _ ⟨⟩))
  | install m fd i => exact .install m fd i hd (Option.some.inj h).symm
  | count _ | connEnqueue _ =>
      obtain rfl := Option.some.inj h
      exact .still rfl rfl (hnone (by rintro _ _ _ ⟨⟩) (by rintro _ ⟨⟩))
  | assign cev =>
      rw [commandStep] at h
      cases hidle : s.idleWorker with
      | some w =>
          rw [hidle] at h
          exact .assign cev w hd hidle (Option.some.inj h).symm
      | none =>
          rw [hidle] at h
          obtain rfl := Option.some.inj h
          refine .still rfl rfl fun x e hx => ⟨?_, rfl⟩
          rw [written, hx, hd]
          dsimp only
          rw [hidle]
          rfl
  | connSignal w =>
      obtain rfl := Option.some.inj h
      exact wake_effect (hnone (by rintro _ _ _ ⟨⟩) (by rintro _ ⟨⟩))
  | _ => cases h

theorem patcher_effect {b : Bool} {d : DispatcherPc} (hφ : Tracks s φ) (hd : s.dispatcher = d)
    (h : patcherStep s d = some t) : Effect s t (.dispatcher b) := by
  have hnone : (∀ m fd i, d ≠ .install m fd i) → (∀ cev, d ≠ .assign cev) →
      ∀ x e, x.threads = s →
        written x e (.dispatcher b) = none ∧ returned x e (.dispatcher b) = [] :=
    fun hinstall hassign => dispatcher_writes (hd ▸ hinstall) (hd ▸ hassign)
  cases d with
  | quitSignal =>
      obtain rfl := Option.some.inj h
      refine .still ?_ ?_ (hnone (by rintro _ _ _ ⟨⟩) (by rintro _ ⟨⟩))
      · exact (endLine_slots s.wakeMain).trans (wakeMain_slots s)
      · exact (endLine_frame s.wakeMain).1.trans (wakeMain_frame s).1
  | next =>
      rw [patcherStep] at h
      cases hevents : s.events with
      | nil =>
          rw [hevents] at h
          obtain rfl := Option.some.inj h
          exact .still rfl rfl (hnone (by rintro _ _ _ ⟨⟩) (by rintro _ ⟨⟩))
      | cons fd rest =>
          rw [hevents] at h
          dsimp only at h
          split_ifs at h <;>
          · obtain rfl := Option.some.inj h
            exact .still rfl rfl (hnone (by rintro _ _ _ ⟨⟩) (by rintro _ ⟨⟩))
  | scan _ _ | queueScan _ =>
      rw [patcherStep] at h
      split_ifs at h <;>
      · obtain rfl := Option.some.inj h
        exact .still rfl rfl (hnone (by rintro _ _ _ ⟨⟩) (by rintro _ ⟨⟩))
  | idleCheck fd =>
      rw [patcherStep] at h
      cases hidle : s.idleWorker with
      | some _ | none =>
          rw [hidle] at h
          obtain rfl := Option.some.inj h
          exact .still rfl rfl (hnone (by rintro _ _ _ ⟨⟩) (by rintro _ ⟨⟩))
  | store fd w =>
      -- the worker is idle, so it is the response that it will call
      have hidle : (s.workers w).busy = false := by
        have hdisp := hφ.dispatcher
        rw [hd] at hdisp
        exact hdisp.2.1
      have hrest := (hφ.worker w).idle hidle
      have hauto := (hφ.worker w).auto hrest
      obtain rfl := Option.some.inj h
      refine .one rfl rfl (hnone (by rintro _ _ _ ⟨⟩) (by rintro _ ⟨⟩)) fun i _ hreq => ?_
      rw [requesting, Worker.due, hauto] at hreq
      dsimp only at hreq
      cases hpc : (s.workers w).pc with
      | exec d =>
          rw [hpc] at hrest
          cases hrest
      | _ =>
          rw [hpc] at hreq
          cases hreq
  | setBusy w =>
      obtain rfl := Option.some.inj h
      exact .one rfl rfl (hnone (by rintro _ _ _ ⟨⟩) (by rintro _ ⟨⟩)) fun i hi hreq => ⟨hi, hreq⟩
  | signal w =>
      obtain rfl := Option.some.inj h
      exact wake_effect (hnone (by rintro _ _ _ ⟨⟩) (by rintro _ ⟨⟩))
  | enqueue fd =>
      obtain rfl := Option.some.inj h
      exact .still rfl rfl (hnone (by rintro _ _ _ ⟨⟩) (by rintro _ ⟨⟩))
  | _ => cases h

/-- A worker whose next place is none of the table's. -/
theorem goto_effect {w : Nat} {ok : Bool} {pc : WorkerPc}
    (hwrites : ∀ x e, x.threads = s → written x e (.worker w ok) = none ∧
      returned x e (.worker w ok) = [])
    (hpc : requesting { s.workers w with pc := pc } = true → requesting (s.workers w) = true) :
    Effect s (s.workerGoto w pc) (.worker w ok) :=
  .one rfl rfl hwrites fun _ hi hreq => ⟨hi, hpc hreq⟩

theorem worker_effect {w : Nat} {ok : Bool} (hφ : Tracks s φ) (h : workerStep s w ok = some t) :
    Effect s t (.worker w ok) := by
  have hnone : (s.workers w).pc ≠ .dequeueConn → (s.workers w).pc ≠ .dequeueEpoll →
      (∀ d, (s.workers w).pc ≠ .exec d) → ∀ x e, x.threads = s →
        written x e (.worker w ok) = none ∧ returned x e (.worker w ok) = [] := worker_writes
  rw [workerStep] at h
  cases hpc : (s.workers w).pc with
  | unborn | waiting | fault =>
      rw [hpc] at h
      cases h
  | start =>
      rw [hpc] at h hnone
      obtain rfl := Option.some.inj h
      exact .one rfl rfl (hnone (by rintro ⟨⟩) (by rintro ⟨⟩) (by rintro _ ⟨⟩)) (by rintro i ⟨⟩)
  | test =>
      rw [hpc] at h hnone
      obtain rfl := Option.some.inj h
      refine goto_effect (hnone (by rintro ⟨⟩) (by rintro ⟨⟩) (by rintro _ ⟨⟩)) fun hreq => ?_
      rw [requesting, hpc]
      dsimp only at hreq
      split_ifs at hreq <;> exact hreq
  | toWait =>
      rw [hpc] at h hnone
      obtain rfl := Option.some.inj h
      refine goto_effect (hnone (by rintro ⟨⟩) (by rintro ⟨⟩) (by rintro _ ⟨⟩)) fun hreq => ?_
      rw [requesting, hpc]
      exact hreq
  | load =>
      rw [hpc] at h hnone
      have hwrites := hnone (by rintro ⟨⟩) (by rintro ⟨⟩) (by rintro _ ⟨⟩)
      dsimp only at h
      cases hdue : (s.workers w).due with
      | none =>
          rw [hdue] at h
          obtain rfl := Option.some.inj h
          exact .one rfl rfl hwrites (by rintro i _ ⟨⟩)
      | some d =>
          rw [hdue] at h
          cases hindex : s.dueConn (s.workers w) with
          | none =>
              rw [hindex] at h
              obtain rfl := Option.some.inj h
              exact goto_effect hwrites (by rintro ⟨⟩)
          | some i =>
              rw [hindex] at h
              dsimp only at h
              split_ifs at h
              · obtain rfl := Option.some.inj h
                exact goto_effect hwrites (by rintro ⟨⟩)
              · exact .load d i hpc hdue hindex (Option.some.inj h).symm
  | exec d =>
      rw [hpc] at h
      dsimp only at h
      cases hname : (s.workers w).connIndex with
      | some i =>
          rw [hname] at h
          exact .exec d i hpc hname (Option.some.inj h).symm
      | none =>
          rw [hname] at h
          obtain rfl := Option.some.inj h
          refine goto_effect (fun x e hx => ?_) (by rintro ⟨⟩)
          rw [written, returned, hx, hpc]
          dsimp only
          rw [hname]
          exact ⟨rfl, rfl⟩
  | account =>
      rw [hpc] at h hnone
      have hwrites := hnone (by rintro ⟨⟩) (by rintro ⟨⟩) (by rintro _ ⟨⟩)
      dsimp only at h
      split_ifs at h
      · cases hname : (s.workers w).connIndex with
        | some i =>
            rw [hname] at h
            dsimp only at h
            split_ifs at h
            · obtain rfl := Option.some.inj h
              exact .one (y := { s.workers w with pc := .raise }) rfl rfl hwrites (by rintro i _ ⟨⟩)
            · obtain rfl := Option.some.inj h
              exact goto_effect hwrites (by rintro ⟨⟩)
        | none =>
            rw [hname] at h
            obtain rfl := Option.some.inj h
            exact goto_effect hwrites (by rintro ⟨⟩)
      · obtain rfl := Option.some.inj h
        exact goto_effect hwrites (by rintro ⟨⟩)
  | raise =>
      rw [hpc] at h hnone
      obtain rfl := Option.some.inj h
      exact .one (y := { s.workers w with pc := .signal }) rfl rfl
        (hnone (by rintro ⟨⟩) (by rintro ⟨⟩) (by rintro _ ⟨⟩)) (by rintro i _ ⟨⟩)
  | signal =>
      rw [hpc] at h hnone
      obtain rfl := Option.some.inj h
      refine .one (w := w) (y := { s.wakeMain.workers w with pc := .release }) ?_ ?_
        (hnone (by rintro ⟨⟩) (by rintro ⟨⟩) (by rintro _ ⟨⟩)) (by rintro i _ ⟨⟩)
      · exact wakeMain_slots s
      · rw [← (wakeMain_frame s).1]
        rfl
  | release =>
      rw [hpc] at h hnone
      obtain rfl := Option.some.inj h
      exact .one rfl rfl (hnone (by rintro ⟨⟩) (by rintro ⟨⟩) (by rintro _ ⟨⟩)) (by rintro i ⟨⟩)
  | dequeueConn =>
      rw [hpc] at h
      dsimp only at h
      split_ifs at h with hcount
      · have ht := (Option.some.inj h).symm
        -- an entry with a standard stream stops the worker and leaves its slot as it was
        by_cases hfd : 2 < (s.connQueue.head connEventQueueMax).sockfd
        · exact .takeConn hpc hcount hfd ht
        · rw [takeConn, if_pos (Nat.not_lt.mp hfd)] at ht
          rw [ht]
          refine .one (w := w) (y := { s.workers w with pc := .fault }) rfl rfl (fun x e hx => ?_)
            (by rintro i _ ⟨⟩)
          rw [written, returned, hx, hpc]
          exact ⟨if_neg (fun hboth => hfd hboth.2), rfl⟩
      · obtain rfl := Option.some.inj h
        refine goto_effect (fun x e hx => ?_) (by rintro ⟨⟩)
        rw [written, returned, hx, hpc]
        exact ⟨if_neg (fun hboth => hcount hboth.1), rfl⟩
  | dequeueEpoll =>
      rw [hpc] at h
      dsimp only at h
      split_ifs at h with hcount
      · have ht := (Option.some.inj h).symm
        -- a descriptor that no slot has any more is dropped
        cases hfind : s.lookup (s.epollQueue.head epollEventQueueMax) with
        | some i => exact .takeEpoll i hpc hcount hfind ht
        | none =>
            unfold takeEpoll at ht
            dsimp only at ht
            rw [hfind] at ht
            rw [ht]
            refine .one (w := w) (y := { s.workers w with pc := .clear }) rfl rfl (fun x e hx => ?_)
              (by rintro i _ ⟨⟩)
            rw [written, returned, hx, hpc]
            dsimp only
            rw [if_pos hcount, hfind]
            exact ⟨rfl, rfl⟩
      · obtain rfl := Option.some.inj h
        refine goto_effect (fun x e hx => ?_) (by rintro ⟨⟩)
        rw [written, returned, hx, hpc]
        exact ⟨if_neg hcount, rfl⟩
  | clear =>
      -- the command of the worker is over before the worker is cleared
      have hnobody := ((hφ.worker w).emptied (Or.inr (Or.inr hpc))).1
      rw [hpc] at h hnone
      obtain rfl := Option.some.inj h
      refine .one rfl rfl (hnone (by rintro ⟨⟩) (by rintro ⟨⟩) (by rintro _ ⟨⟩)) fun i hi _ => ?_
      rw [show (s.workers w).connIndex = some i from hi] at hnobody
      cases hnobody

/-- **WHAT A STEP WRITES** into the table. -/
theorem step_effect (hφ : Tracks s φ) (h : step s a = some t) : Effect s t a := by
  cases a with
  | main => exact main_effect h
  | command m fd =>
      rw [step] at h
      split_ifs at h
      obtain rfl := Option.some.inj h
      exact .still rfl rfl fun _ _ _ => ⟨rfl, rfl⟩
  | quit =>
      rw [step] at h
      split_ifs at h
      obtain rfl := Option.some.inj h
      exact .still rfl rfl fun _ _ _ => ⟨rfl, rfl⟩
  | endInput =>
      rw [step] at h
      split_ifs at h
      obtain rfl := Option.some.inj h
      exact .still (endLine_slots s) (endLine_frame s).1 fun _ _ _ => ⟨rfl, rfl⟩
  | fetch fds =>
      rw [step] at h
      split_ifs at h
      obtain rfl := Option.some.inj h
      exact .still rfl rfl fun _ _ _ => ⟨rfl, rfl⟩
  | dispatcher b =>
      rw [step] at h
      cases hcommand : commandStep b s s.dispatcher with
      | some u =>
          rw [hcommand] at h
          exact command_effect rfl (Option.some.inj h ▸ hcommand)
      | none =>
          rw [hcommand] at h
          exact patcher_effect hφ rfl h
  | worker w ok =>
      rw [step] at h
      split_ifs at h
      exact worker_effect hφ h

end Effects

/-! ## What the connections are -/

/-- The names, the method and the descriptor are those of the command. -/
structure OfCommand (l : Locals) (conn : HttpConnection) : Prop where
  method : conn.method = l.method
  domain : untilNul l.domain = some conn.domain
  remoteDir : untilNul l.remoteDir = some conn.remoteDir
  localDir : untilNul l.localDir = some conn.localDir

/-- The callbacks are those of the method. -/
def Registered (conn : HttpConnection) : Prop := ∃ k, conn.clb = paramSet conn.method k

/-- What the slot would be given if there were no other command. -/
def single (conn : HttpConnection) (k : Nat) : HttpConnection :=
  install .zero
    { method := conn.method, sockfd := conn.sockfd, domain := conn.domain,
      remoteDir := conn.remoteDir, localDir := conn.localDir, worker := k }

/-- Two requests of which nobody outside the slot can tell one from the other. -/
structure SameRequest (run run' : RequestRun MethodWorld) : Prop where
  stop : run.stop = run'.stop
  send : run.send = run'.send
  world : run.world = run'.world

/-- **A CALL OF ITS OWN COMMAND**. -/
structure Own (call : Call) : Prop where
  command : OfCommand call.command call.conn
  registered : Registered call.conn
  request : call.handler = .httpRequest →
    ∃ k, SameRequest (call.env.request call.conn) (call.env.request (single call.conn k))

theorem OfCommand.same {l : Locals} {conn conn' : HttpConnection} (h : OfCommand l conn)
    (hmethod : conn'.method = conn.method) (hnames : SameNames conn conn') :
    OfCommand l conn' := by
  refine ⟨hmethod.trans h.method, ?_, ?_, ?_⟩
  · rw [hnames.domain]
    exact h.domain
  · rw [hnames.remoteDir]
    exact h.remoteDir
  · rw [hnames.localDir]
    exact h.localDir

theorem Registered.same {conn conn' : HttpConnection} (h : Registered conn)
    (hmethod : conn'.method = conn.method) (hclb : conn'.clb = conn.clb) : Registered conn' := by
  obtain ⟨k, hk⟩ := h
  refine ⟨k, ?_⟩
  rw [hclb, hmethod]
  exact hk

theorem register_registered (conn : HttpConnection) (w : Nat) : Registered (register conn w) :=
  ⟨w, rfl⟩

/-- The slot with the command in it has its names. -/
theorem fillSlot_ofCommand {conn conn' : HttpConnection} {fd : Nat} {l : Locals}
    (h : fillSlot conn fd l = .ok conn') : OfCommand l conn' ∧ conn'.sockfd = fd ∧
      conn'.state = 0 ∧ conn'.clb = conn.clb := by
  rw [fillSlot] at h
  cases hdomain : untilNul l.domain with
  | none =>
      rw [hdomain] at h
      cases h
  | some domain =>
      cases hremote : untilNul l.remoteDir with
      | none =>
          rw [hdomain, hremote] at h
          cases h
      | some remoteDir =>
          cases hlocal : untilNul l.localDir with
          | none =>
              rw [hdomain, hremote, hlocal] at h
              cases h
          | some localDir =>
              rw [hdomain, hremote, hlocal] at h
              obtain rfl := Except.ok.inj h
              exact ⟨⟨rfl, hdomain, hremote, hlocal⟩, rfl, rfl, rfl⟩

/-- **THE REQUEST IS WHAT IT WOULD BE ALONE**: what earlier commands left in the slot is
    not looked at. -/
theorem request_single (e : Env) {conn : HttpConnection} (hreg : Registered conn)
    (hstate : conn.state = 0) :
    ∃ k, SameRequest (e.request conn) (e.request (single conn k)) := by
  obtain ⟨k, hclb⟩ := hreg
  have hswap : conn = swapLeft (single conn k) conn.filefd conn.resp conn.ctx := by
    rcases conn with ⟨method, state, sockfd, filefd, resp, ctx, clb, domain, remoteDir, localDir⟩
    dsimp only at hstate hclb
    rw [hstate, hclb]
    rfl
  have hsingleClb : (single conn k).clb = paramSet conn.method k := rfl
  obtain ⟨run, f, halone, hbeside, -⟩ :=
    request_swap hsingleClb conn.filefd conn.resp conn.ctx httpConnDataBufferSize e.results
      e.fuel e.world
  have hrun : e.request conn = { run with conn := swapLeft run.conn f conn.resp conn.ctx } := by
    rw [← hbeside, ← hswap, Env.request, hclb]
    rfl
  have hsingle : e.request (single conn k) = run := halone
  refine ⟨k, ?_⟩
  rw [hrun, hsingle]
  exact ⟨rfl, rfl, rfl⟩

/-! ## What every step keeps -/

/-- **THE CONNECTIONS GO WITH THE SLOTS**, and each belongs to its command. -/
structure Kept (x : Side) : Prop where
  tracks : ∃ φ, Tracks x.threads φ
  shows : ∀ i, SlotShows (x.threads.slots i) (x.conns i)
  command : ∀ i, (x.threads.slots i).sockfd ≠ 0 →
    OfCommand (x.opened (x.threads.slots i).sockfd) (x.conns i)
  searching : ∀ p, Interleaved.searching x.threads.dispatcher = some p →
    x.opened p.2 = x.command ∧ x.command.method = p.1
  requesting : ∀ v i, (x.threads.workers v).connIndex = some i →
    Interleaved.requesting (x.threads.workers v) = true → Registered (x.conns i)
  asked : ∀ i, (x.threads.slots i).served.requests ≠ 0 → Registered (x.conns i)
  calls : ∀ call ∈ x.calls, Own call

theorem kept_start (fixedInput : Bool) (stack : Stack) : Kept (Side.start fixedInput stack) := by
  constructor
  · exact ⟨_, tracks_start fixedInput⟩
  · intro i
    exact ⟨rfl, rfl, rfl, rfl⟩
  · intro i hi
    exact absurd rfl hi
  · intro p hp
    cases fixedInput <;> cases hp
  · rintro v i _ ⟨⟩
  · intro i hi
    exact absurd rfl hi
  · rintro call ⟨⟩

section Steps

variable {x y : Side} {e : Env} {a : Act}

/-- A step of the machine, taken apart. -/
theorem sideStep_some (h : sideBySide.step x (a, e) = some y) :
    meets x e a = true ∧ step x.threads a = some y.threads ∧
      y.conns = ((written x e a).elim x.conns fun ic => Function.update x.conns ic.1 ic.2) ∧
      y.calls = x.calls ++ returned x e a ∧
      (∀ m fd, a = .command m fd → y.command = e.command ∧
        y.opened = Function.update x.opened fd e.command) ∧
      ((∀ m fd, a ≠ .command m fd) → y.command = x.command ∧ y.opened = x.opened) := by
  have hstep : sideStep x (a, e) = some y := h
  rw [sideStep] at hstep
  split_ifs at hstep with hmeets
  obtain ⟨t, ht, rfl⟩ := Option.map_eq_some_iff.mp hstep
  refine ⟨hmeets, ht, rfl, rfl, ?_, ?_⟩
  · rintro m fd rfl
    exact ⟨rfl, rfl⟩
  · intro hnot
    cases a with
    | command m fd => exact absurd rfl (hnot m fd)
    | _ => exact ⟨rfl, rfl⟩

/-- A worker does not move the dispatcher. -/
theorem worked_dispatcher {s t : State} {w : Nat} (h : Worked s t w) :
    t.dispatcher = s.dispatcher := by
  cases h with
  | serve _ h _ _ => exact h.dispatcher
  | tested h _ _ => exact h.dispatcher
  | waits h _ => exact h.dispatcher
  | raise _ ht => rw [ht]; rfl
  | signal _ ht => rw [ht]; exact (wakeMain_frame s).2.2.2.2
  | connsEmpty h _ _ => exact h.dispatcher
  | takeConn _ h _ _ _ => exact h.dispatcher
  | epollsEmpty h _ _ => exact h.dispatcher
  | takeEpoll _ h _ _ _ _ => exact h.dispatcher
  | clear _ ht => rw [ht]; rfl

theorem endLine_searching (s : State) : searching (endLine s).dispatcher = none := by
  rw [endLine]
  split_ifs <;> rfl

theorem command_searching {b : Bool} {s t : State} {d : DispatcherPc} {p : Method × Nat}
    (h : commandStep b s d = some t) (hp : searching t.dispatcher = some p) :
    searching d = some p := by
  cases d with
  | slot _ _ _ | slotWorkers _ _ _ _ | slotQueue _ _ _ =>
      rw [commandStep] at h
      split_ifs at h <;>
      · obtain rfl := Option.some.inj h
        first
          | exact hp
          | cases hp
  | epollAdd _ =>
      rw [commandStep] at h
      split_ifs at h <;>
      · obtain rfl := Option.some.inj h
        cases hp
  | install _ _ _ | count _ | connSignal _ | connEnqueue _ =>
      obtain rfl := Option.some.inj h
      cases hp
  | assign _ =>
      rw [commandStep] at h
      cases hidle : s.idleWorker with
      | some _ | none =>
          rw [hidle] at h
          obtain rfl := Option.some.inj h
          cases hp
  | _ => cases h

/-- The patcher looks for no slot. -/
theorem patcher_searching {s t : State} {d : DispatcherPc} (h : patcherStep s d = some t) :
    searching t.dispatcher = none := by
  cases d with
  | quitSignal =>
      obtain rfl := Option.some.inj h
      exact endLine_searching s.wakeMain
  | next =>
      rw [patcherStep] at h
      cases hevents : s.events with
      | nil =>
          rw [hevents] at h
          obtain rfl := Option.some.inj h
          rfl
      | cons _ _ =>
          rw [hevents] at h
          dsimp only at h
          split_ifs at h <;>
          · obtain rfl := Option.some.inj h
            rfl
  | scan _ _ | queueScan _ =>
      rw [patcherStep] at h
      split_ifs at h <;>
      · obtain rfl := Option.some.inj h
        rfl
  | idleCheck _ =>
      rw [patcherStep] at h
      cases hidle : s.idleWorker with
      | some _ | none =>
          rw [hidle] at h
          obtain rfl := Option.some.inj h
          rfl
  | store _ _ | setBusy _ | signal _ | enqueue _ =>
      obtain rfl := Option.some.inj h
      rfl
  | _ => cases h

/-- The search goes on with the same command, or begins with a new one. -/
theorem searching_step {s t : State} {p : Method × Nat} (h : step s a = some t)
    (hp : searching t.dispatcher = some p) :
    searching s.dispatcher = some p ∨ a = .command p.1 p.2 := by
  cases a with
  | main =>
      replace h : mainStep s = some t := h
      rw [mainStep] at h
      cases hm : s.main with
      | createPatcher | workspaceInit | test | toWait =>
          rw [hm] at h
          obtain rfl := Option.some.inj h
          first
            | exact Or.inl hp
            | cases hp
      | spawn i =>
          rw [hm] at h
          dsimp only at h
          split_ifs at h <;>
          · obtain rfl := Option.some.inj h
            exact Or.inl hp
      | input | waiting | past =>
          rw [hm] at h
          cases h
  | command m fd =>
      rw [step] at h
      split_ifs at h
      obtain rfl := Option.some.inj h
      obtain rfl := Option.some.inj hp
      exact Or.inr rfl
  | quit | fetch =>
      rw [step] at h
      split_ifs at h
      obtain rfl := Option.some.inj h
      cases hp
  | endInput =>
      rw [step] at h
      split_ifs at h
      obtain rfl := Option.some.inj h
      rw [endLine_searching] at hp
      cases hp
  | dispatcher b =>
      rw [step] at h
      cases hcommand : commandStep b s s.dispatcher with
      | some u =>
          rw [hcommand] at h
          exact Or.inl (command_searching (Option.some.inj h ▸ hcommand) hp)
      | none =>
          rw [hcommand] at h
          rw [patcher_searching h] at hp
          cases hp
  | worker w ok =>
      rw [step] at h
      split_ifs at h
      rw [worked_dispatcher (workerStep_worked h)] at hp
      exact Or.inl hp

/-- The command that looks for a slot is the last one that was read. -/
theorem Kept.searching_next (h : Kept x) (hstep : sideBySide.step x (a, e) = some y) :
    ∀ p, Interleaved.searching y.threads.dispatcher = some p →
      y.opened p.2 = y.command ∧ y.command.method = p.1 := by
  obtain ⟨hmeets, hthreads, -, -, hnew, hsame⟩ := sideStep_some hstep
  intro p hp
  rcases searching_step hthreads hp with hold | rfl
  · have hnot : ∀ m fd, a ≠ .command m fd := by
      rintro m fd rfl
      rw [step] at hthreads
      split_ifs at hthreads with hcond
      rcases hcond.1 with hd | hd <;>
      · rw [hd] at hold
        cases hold
    obtain ⟨hcommand, hopened⟩ := hsame hnot
    rw [hcommand, hopened]
    exact h.searching p hold
  · obtain ⟨hcommand, hopened⟩ := hnew p.1 p.2 rfl
    rw [hcommand, hopened, Function.update_self]
    exact ⟨rfl, of_decide_eq_true hmeets⟩

/-- A new command has a new descriptor, so the others keep theirs. -/
theorem Kept.opened_next {φ : Nat → Phase} (hφ : Tracks x.threads φ)
    (hstep : sideBySide.step x (a, e) = some y) {i : Nat}
    (hi : (x.threads.slots i).sockfd ≠ 0) :
    y.opened (x.threads.slots i).sockfd = x.opened (x.threads.slots i).sockfd := by
  obtain ⟨-, hthreads, -, -, hnew, hsame⟩ := sideStep_some hstep
  by_cases hnot : ∀ m fd, a ≠ .command m fd
  · rw [(hsame hnot).2]
  · obtain ⟨m, fd, rfl⟩ : ∃ m fd, a = .command m fd := by
      by_contra hno
      exact hnot fun m fd ha => hno ⟨m, fd, ha⟩
    rw [step] at hthreads
    split_ifs at hthreads with hcond
    have hlive : φ i ≠ .free := fun hfree => hi ((hφ.free_iff i).mp hfree)
    have hne : (x.threads.slots i).sockfd ≠ fd := by
      intro heq
      exact hcond.2.2 (heq ▸ hφ.slots.opened i hlive)
    rw [(hnew m fd rfl).2, Function.update_of_ne hne]

/-- One slot is written, and the others stay. -/
theorem Kept.next {ψ : Nat → Phase} (h : Kept x) (hψ : Tracks y.threads ψ)
    (hstep : sideBySide.step x (a, e) = some y) (hnot : ∀ m fd, a ≠ .command m fd) {i : Nat}
    {c : HttpConnection} (hconns : y.conns = Function.update x.conns i c)
    (hslots : ∀ j, j ≠ i → y.threads.slots j = x.threads.slots j)
    (hworkers : ∀ v j, j ≠ i → (y.threads.workers v).connIndex = some j →
      Interleaved.requesting (y.threads.workers v) = true →
      (x.threads.workers v).connIndex = some j ∧
        Interleaved.requesting (x.threads.workers v) = true)
    (hshows : SlotShows (y.threads.slots i) c)
    (hcommand : (y.threads.slots i).sockfd ≠ 0 →
      OfCommand (x.opened (y.threads.slots i).sockfd) c)
    (hreq : ∀ v, (y.threads.workers v).connIndex = some i →
      Interleaved.requesting (y.threads.workers v) = true → Registered c)
    (hasked : (y.threads.slots i).served.requests ≠ 0 → Registered c)
    (hreturned : ∀ call ∈ returned x e a, Own call) : Kept y := by
  obtain ⟨-, -, -, hcalls, -, hsame⟩ := sideStep_some hstep
  have hopened := (hsame hnot).2
  have hself : y.conns i = c := by rw [hconns, Function.update_self]
  have hother : ∀ j, j ≠ i → y.conns j = x.conns j := fun j hj => by
    rw [hconns, Function.update_of_ne hj]
  constructor
  · exact ⟨ψ, hψ⟩
  · intro j
    by_cases hj : j = i
    · rw [hj, hself]
      exact hshows
    · rw [hother j hj, hslots j hj]
      exact h.shows j
  · intro j hlive
    rw [hopened]
    by_cases hj : j = i
    · rw [hj] at hlive ⊢
      rw [hself]
      exact hcommand hlive
    · rw [hslots j hj] at hlive ⊢
      rw [hother j hj]
      exact h.command j hlive
  · exact h.searching_next hstep
  · intro v j hindex hrequest
    by_cases hj : j = i
    · rw [hj] at hindex ⊢
      rw [hself]
      exact hreq v hindex hrequest
    · obtain ⟨hold, hrequested⟩ := hworkers v j hj hindex hrequest
      rw [hother j hj]
      exact h.requesting v j hold hrequested
  · intro j hrequests
    by_cases hj : j = i
    · rw [hj] at hrequests ⊢
      rw [hself]
      exact hasked hrequests
    · rw [hslots j hj] at hrequests
      rw [hother j hj]
      exact h.asked j hrequests
  · intro call hcall
    rw [hcalls] at hcall
    exact (List.mem_append.mp hcall).elim (h.calls call) (hreturned call)

/-- No slot is written. -/
theorem Kept.aside {φ ψ : Nat → Phase} (h : Kept x) (hφ : Tracks x.threads φ)
    (hψ : Tracks y.threads ψ) (hstep : sideBySide.step x (a, e) = some y)
    (hslots : y.threads.slots = x.threads.slots)
    (hwritten : written x e a = none) (hreturned : returned x e a = [])
    (hworkers : ∀ v i, (y.threads.workers v).connIndex = some i →
      Interleaved.requesting (y.threads.workers v) = true →
      (x.threads.workers v).connIndex = some i ∧
        Interleaved.requesting (x.threads.workers v) = true) : Kept y := by
  obtain ⟨-, -, hconns, hcalls, -, -⟩ := sideStep_some hstep
  rw [hwritten] at hconns
  replace hconns : y.conns = x.conns := hconns
  rw [hreturned, List.append_nil] at hcalls
  constructor
  · exact ⟨ψ, hψ⟩
  · intro i
    rw [hslots, hconns]
    exact h.shows i
  · intro i hlive
    rw [hslots] at hlive ⊢
    rw [hconns, Kept.opened_next hφ hstep hlive]
    exact h.command i hlive
  · exact h.searching_next hstep
  · intro v i hindex hrequest
    obtain ⟨hold, hrequested⟩ := hworkers v i hindex hrequest
    rw [hconns]
    exact h.requesting v i hold hrequested
  · intro i hrequests
    rw [hslots] at hrequests
    rw [hconns]
    exact h.asked i hrequests
  · rw [hcalls]
    exact h.calls

/-- A worker that is about to call `http_request` names a connection in use. -/
theorem requesting_live {s : State} {φ : Nat → Phase} (hφ : Tracks s φ) {v i : Nat}
    (hindex : (s.workers v).connIndex = some i) (hreq : requesting (s.workers v) = true) :
    φ i ≠ .free := by
  have hclaims := (hφ.worker v).claims i
  have hcalls : ∀ p, claim v (s.workers v) = some p → p ≠ .free → φ i ≠ .free := by
    intro p hp hlive
    rw [hclaims p hindex hp]
    exact hlive
  rw [requesting] at hreq
  cases hpc : (s.workers v).pc with
  | exec d =>
      exact hcalls (running v d) (by rw [claim, hpc]) (running_live v d).1
  | test | toWait | waiting | load =>
      rw [hpc] at hreq
      refine hcalls (pending v .httpRequest) ?_ (by rintro ⟨⟩)
      rw [claim, hpc]
      dsimp only
      rw [of_decide_eq_true hreq]
      rfl
  | _ =>
      rw [hpc] at hreq
      cases hreq

/-- The command goes into a slot of which nobody speaks. -/
theorem Kept.install {φ ψ : Nat → Phase} {b : Bool} {m : Method} {fd i : Nat} (h : Kept x)
    (hφ : Tracks x.threads φ) (hψ : Tracks y.threads ψ)
    (hstep : sideBySide.step x (.dispatcher b, e) = some y)
    (hd : x.threads.dispatcher = .install m fd i)
    (ht : y.threads =
      (installSlot x.threads m fd i).goto (.epollAdd { sockfd := fd, connIndex := i })) :
    Kept y := by
  obtain ⟨hmeets, -, hconns, -, -, -⟩ := sideStep_some hstep
  rw [meets, hd] at hmeets
  dsimp only at hmeets
  cases hfill : fillSlot (x.conns i) fd x.command with
  | error _ =>
      rw [hfill] at hmeets
      cases hmeets
  | ok conn =>
      obtain ⟨hof, hsock, hstate, hclb⟩ := fillSlot_ofCommand hfill
      obtain ⟨hopened, hmethod⟩ := h.searching (m, fd) (by rw [hd]; rfl)
      have hfree : φ i = .free := by
        have hdisp := hφ.dispatcher
        rw [hd] at hdisp
        exact hdisp.2.2
      rw [written, hd] at hconns
      dsimp only at hconns
      rw [hfill] at hconns
      have hself : y.threads.slots i = { x.threads.slots i with
          state := 0, sockfd := fd, method := m, served := .none } := by
        rw [ht]
        exact Function.update_self _ _ _
      have hworkers : y.threads.workers = x.threads.workers := by rw [ht]; rfl
      refine h.next hψ hstep (by rintro _ _ ⟨⟩) (i := i) (c := conn) hconns ?_ ?_ ?_ ?_ ?_ ?_ ?_
      · intro j hj
        rw [ht]
        exact Function.update_of_ne hj _ _
      · intro v j _ hindex hreq
        rw [hworkers] at hindex hreq
        exact ⟨hindex, hreq⟩
      · rw [hself]
        exact ⟨hsock, hstate, hof.method.trans hmethod, by rw [hclb]; exact (h.shows i).param⟩
      · intro _
        rw [hself]
        dsimp only
        rw [hopened]
        exact hof
      · intro v hindex hreq
        rw [hworkers] at hindex hreq
        exact absurd hfree (requesting_live hφ hindex hreq)
      · intro hrequests
        rw [hself] at hrequests
        exact absurd rfl hrequests
      · rintro call ⟨⟩

/-- A worker is given the command, and its callbacks. -/
theorem Kept.assign {ψ : Nat → Phase} {b : Bool} {cev : ConnEvent} {w : Nat} (h : Kept x)
    (hψ : Tracks y.threads ψ) (hstep : sideBySide.step x (.dispatcher b, e) = some y)
    (hd : x.threads.dispatcher = .assign cev) (hidle : x.threads.idleWorker = some w)
    (ht : y.threads = (assignRequest x.threads cev w).goto (.connSignal w)) : Kept y := by
  obtain ⟨-, -, hconns, -, -, -⟩ := sideStep_some hstep
  rw [written, hd] at hconns
  dsimp only at hconns
  rw [hidle] at hconns
  have hself : y.threads.slots cev.connIndex =
      { x.threads.slots cev.connIndex with param := some w } := by
    rw [ht]
    exact Function.update_self _ _ _
  have hreg := register_registered (x.conns cev.connIndex) w
  have hshows := h.shows cev.connIndex
  refine h.next hψ hstep (by rintro _ _ ⟨⟩) (i := cev.connIndex)
    (c := register (x.conns cev.connIndex) w) hconns ?_ ?_ ?_ ?_ (fun _ _ _ => hreg)
    (fun _ => hreg) (by rintro call ⟨⟩)
  · intro j hj
    rw [ht]
    exact Function.update_of_ne hj _ _
  · intro v j hj hindex hreq
    have hworkers : y.threads.workers = Function.update x.threads.workers w
        { x.threads.workers w with
          process := some .httpRequest, connIndex := some cev.connIndex, busy := true } := by
      rw [ht]
      rfl
    rw [hworkers] at hindex hreq
    by_cases hv : v = w
    · rw [hv, Function.update_self] at hindex
      exact absurd (Option.some.inj hindex).symm hj
    · rw [Function.update_of_ne hv] at hindex hreq
      exact ⟨hindex, hreq⟩
  · rw [hself]
    exact ⟨hshows.sockfd, hshows.state, hshows.method, rfl⟩
  · intro hlive
    rw [hself] at hlive ⊢
    exact (h.command cev.connIndex hlive).same rfl ⟨rfl, rfl, rfl⟩

/-- A worker takes a command from the queue. -/
theorem Kept.takeConn {φ ψ : Nat → Phase} {w : Nat} {ok : Bool} (h : Kept x)
    (hφ : Tracks x.threads φ) (hψ : Tracks y.threads ψ)
    (hstep : sideBySide.step x (.worker w ok, e) = some y)
    (hpc : (x.threads.workers w).pc = .dequeueConn) (hcount : x.threads.connQueue.count ≠ 0)
    (hfd : 2 < (x.threads.connQueue.head connEventQueueMax).sockfd)
    (ht : y.threads = Threads.takeConn x.threads w) : Kept y := by
  obtain ⟨-, -, hconns, -, -, -⟩ := sideStep_some hstep
  obtain ⟨cev, hcev⟩ : ∃ cev, cev = x.threads.connQueue.head connEventQueueMax := ⟨_, rfl⟩
  -- what is queued still has the descriptor it was queued with
  have hmem : cev ∈ x.threads.connEvents := by
    rw [State.connEvents, RingBuf.contents_dequeue hcount, ← hcev]
    exact List.mem_cons_self
  obtain ⟨-, hsock⟩ := hφ.conns.named cev hmem
  rw [← hcev] at hfd
  rw [written, hpc] at hconns
  dsimp only at hconns
  rw [← hcev, if_pos ⟨hcount, hfd⟩] at hconns
  rw [Threads.takeConn] at ht
  dsimp only at ht
  rw [← hcev, if_neg (Nat.not_le.mpr hfd)] at ht
  have hself : y.threads.slots cev.connIndex = { x.threads.slots cev.connIndex with
      sockfd := cev.sockfd, state := 0, param := some w } := by
    rw [ht]
    exact Function.update_self _ _ _
  have hreg := register_registered
    { x.conns cev.connIndex with sockfd := (cev.sockfd : Int), state := 0 } w
  refine h.next hψ hstep (by rintro _ _ ⟨⟩) (i := cev.connIndex)
    (c := register { x.conns cev.connIndex with sockfd := (cev.sockfd : Int), state := 0 } w)
    hconns ?_ ?_ ?_ ?_ (fun _ _ _ => hreg) (fun _ => hreg) ?_
  · intro j hj
    rw [ht]
    exact Function.update_of_ne hj _ _
  · intro v j hj hindex hreq
    have hworkers : y.threads.workers = Function.update x.threads.workers w
        { x.threads.workers w with
          connIndex := some cev.connIndex, auto := .conn cev, pc := .load } := by
      rw [ht]
      rfl
    rw [hworkers] at hindex hreq
    by_cases hv : v = w
    · rw [hv, Function.update_self] at hindex
      exact absurd (Option.some.inj hindex).symm hj
    · rw [Function.update_of_ne hv] at hindex hreq
      exact ⟨hindex, hreq⟩
  · rw [hself]
    exact ⟨rfl, rfl, (h.shows cev.connIndex).method, rfl⟩
  · intro _
    rw [hself]
    dsimp only
    have hlive : (x.threads.slots cev.connIndex).sockfd ≠ 0 := by
      rw [hsock]
      omega
    have hof := h.command cev.connIndex hlive
    rw [hsock] at hof
    exact hof.same rfl ⟨rfl, rfl, rfl⟩
  · rw [returned, hpc]
    rintro call ⟨⟩

/-- A worker that is not about to call `http_request` takes nothing away. -/
theorem requesting_others {s t : State} {w : Nat} {z : Worker}
    (hworkers : t.workers = Function.update s.workers w z) (hz : requesting z = false) :
    ∀ v j, (t.workers v).connIndex = some j → requesting (t.workers v) = true →
      (s.workers v).connIndex = some j ∧ requesting (s.workers v) = true := by
  intro v j hindex hreq
  rw [hworkers] at hindex hreq
  by_cases hv : v = w
  · rw [hv, Function.update_self, hz] at hreq
    cases hreq
  · rw [Function.update_of_ne hv] at hindex hreq
    exact ⟨hindex, hreq⟩

/-- A worker takes an event from the queue. -/
theorem Kept.takeEpoll {ψ : Nat → Phase} {w i : Nat} {ok : Bool} (h : Kept x)
    (hψ : Tracks y.threads ψ) (hstep : sideBySide.step x (.worker w ok, e) = some y)
    (hpc : (x.threads.workers w).pc = .dequeueEpoll) (hcount : x.threads.epollQueue.count ≠ 0)
    (hfind : x.threads.lookup (x.threads.epollQueue.head epollEventQueueMax) = some i)
    (ht : y.threads = Threads.takeEpoll x.threads w) : Kept y := by
  obtain ⟨-, -, hconns, -, -, -⟩ := sideStep_some hstep
  obtain ⟨fd, hfd⟩ : ∃ fd, fd = x.threads.epollQueue.head epollEventQueueMax := ⟨_, rfl⟩
  rw [← hfd] at hfind
  have hsock : (x.threads.slots i).sockfd = fd := by
    have hfound := List.find?_some hfind
    exact of_decide_eq_true hfound
  rw [written, hpc] at hconns
  dsimp only at hconns
  rw [if_pos hcount, ← hfd, hfind] at hconns
  unfold Threads.takeEpoll at ht
  dsimp only at ht
  rw [← hfd, hfind] at ht
  have hself : y.threads.slots i = { x.threads.slots i with sockfd := fd, state := 2 } := by
    rw [ht]
    exact Function.update_self _ _ _
  -- it is the response that it will call
  have hothers := requesting_others (s := x.threads) (t := y.threads) (w := w)
    (z := { x.threads.workers w with connIndex := some i, auto := .epoll fd, pc := .load })
    (by rw [ht]; rfl) rfl
  refine h.next hψ hstep (by rintro _ _ ⟨⟩) (i := i)
    (c := { x.conns i with sockfd := (fd : Int), state := 2 }) hconns ?_
    (fun v j _ => hothers v j) ?_ ?_ ?_ ?_ ?_
  · intro j hj
    rw [ht]
    exact Function.update_of_ne hj _ _
  · rw [hself]
    exact ⟨rfl, rfl, (h.shows i).method, (h.shows i).param⟩
  · intro hlive
    rw [hself] at hlive ⊢
    have hof := h.command i (hsock ▸ hlive)
    rw [hsock] at hof
    exact hof.same rfl ⟨rfl, rfl, rfl⟩
  · intro v hindex hreq
    obtain ⟨hold, hrequested⟩ := hothers v i hindex hreq
    exact (h.requesting v i hold hrequested).same rfl rfl
  · intro hrequests
    rw [hself] at hrequests
    exact (h.asked i hrequests).same rfl rfl
  · rw [returned, hpc]
    rintro call ⟨⟩

/-- A worker calls a handler. -/
theorem Kept.load {φ ψ : Nat → Phase} {w i : Nat} {ok : Bool} {d : Handler} (h : Kept x)
    (hφ : Tracks x.threads φ) (hψ : Tracks y.threads ψ)
    (hstep : sideBySide.step x (.worker w ok, e) = some y)
    (hpc : (x.threads.workers w).pc = .load) (hdue : (x.threads.workers w).due = some d)
    (hindex : x.threads.dueConn (x.threads.workers w) = some i)
    (ht : y.threads = (x.threads.setSlot i { x.threads.slots i with
      served := (x.threads.slots i).served.call d }).setWorker w
      { x.threads.workers w with connIndex := some i, pc := .exec d }) : Kept y := by
  obtain ⟨-, -, hconns, -, -, -⟩ := sideStep_some hstep
  have hnone : written x e (.worker w ok) = none ∧ returned x e (.worker w ok) = [] :=
    worker_writes (by rw [hpc]; rintro ⟨⟩) (by rw [hpc]; rintro ⟨⟩)
      (by rw [hpc]; rintro _ ⟨⟩) x e rfl
  rw [hnone.1] at hconns
  replace hconns : y.conns = Function.update x.conns i (x.conns i) := by
    rw [Function.update_eq_self]
    exact hconns
  have hself : y.threads.slots i = { x.threads.slots i with
      served := (x.threads.slots i).served.call d } := by
    rw [ht]
    exact Function.update_self _ _ _
  -- the connection it is called with was registered when the worker was given it
  have hrequest : d = .httpRequest → Registered (x.conns i) := by
    rintro rfl
    have hreq : Interleaved.requesting (x.threads.workers w) = true := by
      rw [Interleaved.requesting, hpc]
      exact decide_eq_true hdue
    refine h.requesting w i ?_ hreq
    rw [State.dueConn] at hindex
    rw [Worker.due] at hdue
    cases hauto : (x.threads.workers w).auto with
    | reserved =>
        rw [hauto] at hindex
        exact hindex
    | conn cev =>
        rw [hauto] at hindex
        rw [(hφ.worker w).conn cev hpc hauto]
        exact hindex
    | epoll fd =>
        rw [hauto] at hdue
        cases hdue
  have hasked : (y.threads.slots i).served.requests ≠ 0 → Registered (x.conns i) := by
    rw [hself]
    intro hrequests
    cases d with
    | httpRequest => exact hrequest rfl
    | httpResponse => exact h.asked i hrequests
  refine h.next hψ hstep (by rintro _ _ ⟨⟩) (i := i) (c := x.conns i) hconns ?_ ?_ ?_ ?_ ?_ hasked
    (by rw [hnone.2]; rintro call ⟨⟩)
  · intro j hj
    rw [ht]
    exact Function.update_of_ne hj _ _
  · intro v j hj hname hreq
    have hworkers : y.threads.workers = Function.update x.threads.workers w
        { x.threads.workers w with connIndex := some i, pc := .exec d } := by
      rw [ht]
      rfl
    rw [hworkers] at hname hreq
    by_cases hv : v = w
    · rw [hv, Function.update_self] at hname
      exact absurd (Option.some.inj hname).symm hj
    · rw [Function.update_of_ne hv] at hname hreq
      exact ⟨hname, hreq⟩
  · rw [hself]
    exact ⟨(h.shows i).sockfd, (h.shows i).state, (h.shows i).method, (h.shows i).param⟩
  · intro hlive
    rw [hself] at hlive ⊢
    exact h.command i hlive
  · intro v hname hreq
    have hworkers : y.threads.workers = Function.update x.threads.workers w
        { x.threads.workers w with connIndex := some i, pc := .exec d } := by
      rw [ht]
      rfl
    rw [hworkers] at hname hreq
    by_cases hv : v = w
    · rw [hv, Function.update_self] at hreq
      cases d with
      | httpRequest => exact hrequest rfl
      | httpResponse => cases hreq
    · rw [Function.update_of_ne hv] at hname hreq
      exact h.requesting v i hname hreq

/-- The connection that a handler worked on was its own. -/
theorem Kept.returned_own {φ : Nat → Phase} {w i : Nat} {ok : Bool} {d : Handler} (h : Kept x)
    (hφ : Tracks x.threads φ) (hpc : (x.threads.workers w).pc = .exec d)
    (hname : (x.threads.workers w).connIndex = some i) :
    ∀ call ∈ returned x e (.worker w ok), Own call := by
  have hphase : φ i = running w d := (hφ.worker w).claims i _ hname (by rw [claim, hpc])
  have hlive : φ i ≠ .free := by
    rw [hphase]
    exact (running_live w d).1
  have hslot := hφ.slots.slot i
  rw [hphase] at hslot
  have hsock : (x.conns i).sockfd.toNat = (x.threads.slots i).sockfd := by
    rw [(h.shows i).sockfd]
    rfl
  have hof := h.command i (hφ.sockfd_pos hlive)
  rw [returned, hpc]
  dsimp only
  rw [hname]
  intro call hcall
  obtain rfl := List.mem_singleton.mp hcall
  cases d with
  | httpRequest =>
      obtain ⟨-, hstate, -⟩ := hslot
      have hreg : Registered (x.conns i) :=
        h.requesting w i hname (by rw [Interleaved.requesting, hpc])
      refine ⟨?_, hreg, fun _ => ?_⟩
      · dsimp only
        rw [hsock]
        exact hof
      · exact request_single e hreg ((h.shows i).state.trans hstate)
  | httpResponse =>
      obtain ⟨-, -, hserved⟩ := hslot
      have hreg : Registered (x.conns i) := by
        refine h.asked i ?_
        rw [hserved]
        exact Nat.one_ne_zero
      refine ⟨?_, hreg, by rintro ⟨⟩⟩
      dsimp only
      rw [hsock]
      exact hof

/-- What a handler leaves of its slot. -/
theorem handlerReturn_slot (s : State) (d : Handler) (i : Nat) (ok : Bool) :
    ((handlerReturn s d i ok).slots i).method = (s.slots i).method ∧
      ((handlerReturn s d i ok).slots i).param = (s.slots i).param ∧
      ((handlerReturn s d i ok).slots i).served.requests = (s.slots i).served.requests ∧
      (if ok = true then
        if d = .httpRequest then ((handlerReturn s d i ok).slots i).state = 1 ∧
          ((handlerReturn s d i ok).slots i).sockfd = (s.slots i).sockfd
        else ((handlerReturn s d i ok).slots i).state = 3 ∧
          ((handlerReturn s d i ok).slots i).sockfd = 0
      else ((handlerReturn s d i ok).slots i).state = -1 ∧
        ((handlerReturn s d i ok).slots i).sockfd = 0) := by
  cases d with
  | httpRequest =>
      cases ok with
      | true =>
          have hslot : (handlerReturn s .httpRequest i true).slots i = { s.slots i with
              state := 1, served := { (s.slots i).served with answered := true } } :=
            Function.update_self _ _ _
          rw [hslot, if_pos rfl, if_pos rfl]
          exact ⟨rfl, rfl, rfl, rfl, rfl⟩
      | false =>
          have hslot : (handlerReturn s .httpRequest i false).slots i =
              { s.slots i with state := -1, sockfd := 0 } := Function.update_self _ _ _
          rw [hslot, if_neg Bool.false_ne_true]
          exact ⟨rfl, rfl, rfl, rfl, rfl⟩
  | httpResponse =>
      cases ok with
      | true =>
          have hslot : (handlerReturn s .httpResponse i true).slots i =
              { s.slots i with state := 3, sockfd := 0 } := Function.update_self _ _ _
          rw [hslot, if_pos rfl, if_neg (by rintro ⟨⟩)]
          exact ⟨rfl, rfl, rfl, rfl, rfl⟩
      | false =>
          have hslot : (handlerReturn s .httpResponse i false).slots i =
              { s.slots i with state := -1, sockfd := 0 } := Function.update_self _ _ _
          rw [hslot, if_neg Bool.false_ne_true]
          exact ⟨rfl, rfl, rfl, rfl, rfl⟩

/-- The function leaves of the connection what the step of the worker leaves of the slot. -/
theorem handle_shows {s : State} {d : Handler} {i : Nat} {ok : Bool} {conn : HttpConnection}
    {code : Int} (hshows : SlotShows (s.slots i) conn) (hrun : (e.handle conn d).1 = .ok code)
    (hok : ok = decide (code = 0)) :
    SlotShows ((handlerReturn s d i ok).slots i) (e.handle conn d).2 ∧
      (((handlerReturn s d i ok).slots i).sockfd ≠ 0 →
        ((handlerReturn s d i ok).slots i).sockfd = (s.slots i).sockfd) := by
  obtain ⟨hmethod, hclb, hleft⟩ := (handle_returns e conn hrun).leaves
  obtain ⟨hmethod', hparam', -, hleft'⟩ := handlerReturn_slot s d i ok
  have hmethods := (hmethod.trans hshows.method).trans hmethod'.symm
  have hparams := ((congrArg HttpCallback.param hclb).trans hshows.param).trans hparam'.symm
  by_cases hcode : code = 0
  · rw [hok, decide_eq_true hcode] at hleft' hmethods hparams ⊢
    rw [if_pos hcode] at hleft
    rw [if_pos rfl] at hleft'
    cases d with
    | httpRequest =>
        rw [if_pos rfl] at hleft hleft'
        refine ⟨⟨?_, hleft.1.trans hleft'.1.symm, hmethods, hparams⟩, fun _ => hleft'.2⟩
        rw [hleft.2, hleft'.2]
        exact hshows.sockfd
    | httpResponse =>
        rw [if_neg (by rintro ⟨⟩)] at hleft hleft'
        refine ⟨⟨?_, hleft.1.trans hleft'.1.symm, hmethods, hparams⟩,
          fun hlive => absurd hleft'.2 hlive⟩
        rw [hleft.2, hleft'.2]
        rfl
  · rw [hok, decide_eq_false hcode] at hleft' hmethods hparams ⊢
    rw [if_neg hcode] at hleft
    rw [if_neg Bool.false_ne_true] at hleft'
    refine ⟨⟨?_, hleft.1.trans hleft'.1.symm, hmethods, hparams⟩,
      fun hlive => absurd hleft'.2 hlive⟩
    rw [hleft.2, hleft'.2]
    rfl

/-- A handler returns. -/
theorem Kept.exec {φ ψ : Nat → Phase} {w i : Nat} {ok : Bool} {d : Handler} (h : Kept x)
    (hφ : Tracks x.threads φ) (hψ : Tracks y.threads ψ)
    (hstep : sideBySide.step x (.worker w ok, e) = some y)
    (hpc : (x.threads.workers w).pc = .exec d)
    (hname : (x.threads.workers w).connIndex = some i)
    (ht : y.threads = (handlerReturn x.threads d i ok).workerGoto w .account) : Kept y := by
  obtain ⟨hmeets, -, hconns, -, -, -⟩ := sideStep_some hstep
  rw [written, hpc] at hconns
  dsimp only at hconns
  rw [hname] at hconns
  rw [meets, hpc] at hmeets
  dsimp only at hmeets
  rw [hname, Option.all_some] at hmeets
  cases hrun : (e.handle (x.conns i) d).1 with
  | error _ =>
      rw [hrun] at hmeets
      cases hmeets
  | ok code =>
      rw [hrun] at hmeets
      have hok : ok = decide (code = 0) := of_decide_eq_true hmeets
      have hself : y.threads.slots i = (handlerReturn x.threads d i ok).slots i := by
        rw [ht]
        rfl
      obtain ⟨hmethod, hclb, -⟩ := (handle_returns e (x.conns i) hrun).leaves
      obtain ⟨hshows, hkept⟩ := handle_shows (h.shows i) hrun hok
      have hothers := requesting_others (s := x.threads) (t := y.threads) (w := w)
        (z := { x.threads.workers w with pc := .account }) (by
          rw [ht, ← (handlerReturn_frame x.threads d i ok).2.1]
          rfl) rfl
      refine h.next hψ hstep (by rintro _ _ ⟨⟩) (i := i) (c := (e.handle (x.conns i) d).2) hconns
        ?_ (fun v j _ => hothers v j) (hself ▸ hshows) ?_ ?_ ?_ (h.returned_own hφ hpc hname)
      · intro j hj
        rw [ht]
        exact (handlerReturn_frame x.threads d i ok).1 j hj
      · intro hlive
        rw [hself] at hlive ⊢
        rw [hkept hlive]
        rw [hkept hlive] at hlive
        exact (h.command i hlive).same hmethod (handle_names e (x.conns i) d)
      · intro v hindex hreq
        obtain ⟨hold, hrequested⟩ := hothers v i hindex hreq
        exact (h.requesting v i hold hrequested).same hmethod hclb
      · intro hrequests
        rw [hself, (handlerReturn_slot x.threads d i ok).2.2.1] at hrequests
        exact (h.asked i hrequests).same hmethod hclb

/-- **A STEP KEEPS EACH COMMAND WITH ITS CONNECTION**. -/
theorem Kept.step (h : Kept x) (hstep : (sideBySide.guarded orderly).step x (a, e) = some y) :
    Kept y := by
  obtain ⟨hok, hside⟩ := Machine.guarded_step.mp hstep
  obtain ⟨φ, hφ⟩ := h.tracks
  obtain ⟨-, hthreads, -⟩ := sideStep_some hside
  obtain ⟨ψ, hψ, -⟩ := Exclusion.step_follows hφ hok hthreads
  have heffect := step_effect hφ hthreads
  cases heffect with
  | aside hslots hwrites hworkers =>
      obtain ⟨hwritten, hreturned⟩ := hwrites x e rfl
      exact h.aside hφ hψ hside hslots hwritten hreturned hworkers
  | install m fd i hd ht => exact h.install hφ hψ hside hd ht
  | assign cev w hd hidle ht => exact h.assign hψ hside hd hidle ht
  | takeConn hpc hcount hfd ht => exact h.takeConn hφ hψ hside hpc hcount hfd ht
  | takeEpoll i hpc hcount hfind ht => exact h.takeEpoll hψ hside hpc hcount hfind ht
  | load d i hpc hdue hindex ht => exact h.load hφ hψ hside hpc hdue hindex ht
  | exec d i hpc hname ht => exact h.exec hφ hψ hside hpc hname ht

end Steps

/-! ## Runs -/

end Interleaved
