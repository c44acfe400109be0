import Hftp.ExclusionProofs
import Hftp.StrandedProofs
import Hftp.WakeupProofs

/-! # Nothing is owed at rest

    A request that has not been sent is somebody's: the dispatcher is on its way
    with the command, or an entry of the queue of connections names it, or a worker
    has it to send.  A step hands it from one to the next and never to nobody, as
    long as a command is not given to a worker that is about to forget it, and the
    conditions of the single protocols hold: no response without its request, no
    entry behind the last look into a queue, no signal between a test and its wait.

    So when the dispatcher waits for events and all the workers wait for work,
    every connection that epoll watches has had its request sent, and waits for
    nothing but the server. -/

namespace Ownership

open HttpCore RingBuffer Transition Threads CommandLife

/-! ## The condition -/

/-- A worker that has been given work before `workspace->conn_index = -1`. -/
def forgets (x : Worker) : Bool := decide (x.pc = .start) && x.busy

/-- No worker forgets its work. -/
def remembers (s : State) : Act → Bool
  | .worker w _ => !forgets (s.workers w)
  | _ => true

/-- The conditions of the single protocols as well. -/
def attended (s : State) (a : Act) : Bool :=
  Exclusion.handsOn s a && Stranded.looked s a && Wakeup.inTime s a && remembers s a

/-! ## The dispatcher -/

/-- Nobody dispatches before the main thread has created the thread for it. -/
def Created (s : State) : Prop := s.main = .createPatcher → s.dispatcher = .unborn

section Created

variable {s t : State}

theorem created_start (fixedInput : Bool) : Created (State.start fixedInput) := by
  intro hmain
  cases fixedInput
  · rfl
  · cases hmain

theorem wakeMain_created (h : s.wakeMain.main = .createPatcher) : s.main = .createPatcher := by
  rw [State.wakeMain] at h
  split_ifs at h
  exact h

theorem mainStep_created (hstep : mainStep s = some t) : Created t := by
  intro hmain
  rw [mainStep] at hstep
  cases hm : s.main with
  | spawn i =>
      rw [hm] at hstep
      dsimp only at hstep
      split_ifs at hstep <;>
      · obtain rfl := Option.some.inj hstep
        cases hmain
  | test =>
      rw [hm] at hstep
      obtain rfl := Option.some.inj hstep
      dsimp only at hmain
      split_ifs at hmain
  | createPatcher | workspaceInit | toWait =>
      rw [hm] at hstep
      obtain rfl := Option.some.inj hstep
      cases hmain
  | input | waiting | past =>
      rw [hm] at hstep
      cases hstep

/-- The last line of a fixed input ends where there is no dispatcher yet. -/
theorem endLine_created (h : s.main ≠ .createPatcher) : Created (endLine s) := by
  intro hmain
  rw [endLine] at hmain ⊢
  split_ifs at hmain ⊢ with hinput
  · rfl
  · exact absurd hmain h

theorem dispatched_created (h : Dispatched s t) (hs : s.main ≠ .createPatcher) : Created t := by
  have hsame : t.main = s.main → Created t := fun hmain hcreate => absurd (hmain ▸ hcreate) hs
  cases h with
  | alone hall _ => exact hsame hall.main
  | assign cev w _ ht | connEnqueue cev _ ht | store fd w x _ _ ht | setBusy w _ ht
  | enqueue fd _ ht =>
      exact hsame (by rw [ht]; rfl)
  | wake w pc _ ht =>
      refine hsame ?_
      rw [ht]
      rcases wake_eq s w with ⟨-, hsleeps⟩ | ⟨-, hwoken⟩
      · rw [hsleeps]
        rfl
      · rw [hwoken]
        rfl
  | wakeMain _ ht =>
      rw [ht]
      exact endLine_created fun hmain => hs (wakeMain_created hmain)

theorem worked_created {w : Nat} (h : Worked s t w) (hs : Created s) : Created t := by
  intro hmain
  cases h with
  | serve x hx _ _ => rw [hx.dispatcher]; exact hs (hx.main ▸ hmain)
  | tested hx _ _ => rw [hx.dispatcher]; exact hs (hx.main ▸ hmain)
  | waits hx _ => rw [hx.dispatcher]; exact hs (hx.main ▸ hmain)
  | connsEmpty hx _ _ => rw [hx.dispatcher]; exact hs (hx.main ▸ hmain)
  | takeConn x hx _ _ _ => rw [hx.dispatcher]; exact hs (hx.main ▸ hmain)
  | epollsEmpty hx _ _ => rw [hx.dispatcher]; exact hs (hx.main ▸ hmain)
  | takeEpoll x hx _ _ _ _ => rw [hx.dispatcher]; exact hs (hx.main ▸ hmain)
  | raise _ ht | clear _ ht =>
      rw [ht] at hmain ⊢
      exact hs hmain
  | signal _ ht =>
      rw [ht] at hmain ⊢
      exact (wakeMain_frame s).2.2.2.2.trans (hs (wakeMain_created hmain))

theorem step_created {a : Act} (h : Created s) (hstep : step s a = some t) : Created t := by
  have hthere : s.dispatcher ≠ .unborn → s.main ≠ .createPatcher := fun hd hmain => hd (h hmain)
  cases a with
  | main => exact mainStep_created hstep
  | command _ _ | quit | endInput | fetch _ =>
      rw [step] at hstep
      split_ifs at hstep with hcond
      have hmain : s.main ≠ .createPatcher := by
        refine hthere ?_
        rintro hd
        rw [hd] at hcond
        simp at hcond
      obtain rfl := Option.some.inj hstep
      first
        | exact endLine_created hmain
        | exact fun hcreate => absurd hcreate hmain
  | dispatcher b =>
      refine dispatched_created (dispatcher_dispatched hstep) (hthere ?_)
      intro hd
      rw [step, hd] at hstep
      cases hstep
  | worker w ok =>
      rw [step] at hstep
      split_ifs at hstep
      exact worked_created (workerStep_worked hstep) h

end Created

/-! ## Who has a request to send -/

/-- The connection the dispatcher is on its way with. -/
def carried : DispatcherPc → Option Nat
  | .epollAdd cev | .count cev | .assign cev | .connEnqueue cev => some cev.connIndex
  | _ => none

/-- The descriptor the dispatcher is on its way to `epoll_ctl` with. -/
def adding : DispatcherPc → Option Nat
  | .slot _ fd _ | .slotWorkers _ fd _ _ | .slotQueue _ fd _ | .install _ fd _ => some fd
  | .epollAdd cev => some cev.sockfd
  | _ => none

/-- A worker that will call `http_request`, or has. -/
def holdsRequest (x : Worker) : Bool :=
  match x.pc with
  | .exec h => decide (h = .httpRequest)
  | .unborn | .start | .test | .toWait | .waiting | .load =>
      x.busy && decide (x.due = some .httpRequest)
  | _ => false

def Holds (x : Worker) (i : Nat) : Prop := x.connIndex = some i ∧ holdsRequest x = true

/-- The request of connection `i` is to be sent, and epoll watches the connection. -/
def Owed (s : State) (i : Nat) : Prop :=
  (s.slots i).sockfd ≠ 0 ∧ (s.slots i).sockfd ∈ s.registered ∧ (s.slots i).state = 0

/-- Who has it. -/
inductive Owner (s : State) (i : Nat) : Prop where
  | dispatcher (h : carried s.dispatcher = some i)
  | queue (cev : ConnEvent) (hmem : cev ∈ s.connEvents) (hi : cev.connIndex = i)
  | worker (w : Nat) (hw : w < defaultWorkerCount) (h : Holds (s.workers w) i)

/-- **EVERY REQUEST IS SOMEBODY'S**. -/
structure Owned (s : State) : Prop where
  owed : ∀ i, Owed s i → Owner s i
  fresh : ∀ fd, adding s.dispatcher = some fd → fd ∉ s.registered
  opened : ∀ fd ∈ s.registered, fd ∈ s.openFds
  once : s.registered.Nodup

theorem owned_start (fixedInput : Bool) : Owned (State.start fixedInput) := by
  constructor
  · rintro i ⟨hlive, -⟩
    exact absurd rfl hlive
  · intro fd hadd
    cases fixedInput <;> cases hadd
  · intro fd hfd
    cases hfd
  · exact List.nodup_nil

/-! ## What a step hands on -/

section Pass

variable {s t : State} {φ : Nat → Phase} {i w : Nat} {x : Worker}

/-- A worker with nothing to do has no request. -/
theorem not_holds_idle (hrest : resting (s.workers w).pc = true)
    (hidle : (s.workers w).busy = false) : ¬ Holds (s.workers w) i := by
  rintro ⟨-, hholds⟩
  rw [holdsRequest] at hholds
  cases hpc : (s.workers w).pc with
  | unborn | start | test | toWait | waiting =>
      rw [hpc, hidle] at hholds
      cases hholds
  | _ =>
      rw [hpc] at hrest
      cases hrest

/-- A place at which a worker has no request. -/
theorem not_holds (hpc : holdsRequest x = false) : ¬ Holds x i := by
  rintro ⟨-, hholds⟩
  rw [hpc] at hholds
  cases hholds

/-- One worker changes, and keeps what it has. -/
theorem holds_update (hworkers : t.workers = Function.update s.workers w x)
    (hx : Holds (s.workers w) i → Holds x i) (v : Nat) :
    Holds (s.workers v) i → Holds (t.workers v) i := by
  rw [hworkers]
  by_cases hv : v = w
  · rw [hv, Function.update_self]
    exact hx
  · rw [Function.update_of_ne hv]
    exact fun h => h

/-- Everybody keeps what he has. -/
theorem Owner.same (hcarry : carried t.dispatcher = carried s.dispatcher)
    (hconn : t.connQueue = s.connQueue)
    (hworkers : ∀ v, Holds (s.workers v) i → Holds (t.workers v) i) (h : Owner s i) :
    Owner t i := by
  cases h with
  | dispatcher h => exact .dispatcher (hcarry ▸ h)
  | queue cev hmem hi =>
      refine .queue cev ?_ hi
      rw [State.connEvents, hconn]
      exact hmem
  | worker v hv h => exact .worker v hv (hworkers v h)

/-- A step that leaves what epoll watches. -/
theorem Owned.next (h : Owned s) (hreg : t.registered = s.registered)
    (hopen : ∀ fd ∈ s.openFds, fd ∈ t.openFds)
    (hadd : ∀ fd, adding t.dispatcher = some fd → fd ∉ s.registered)
    (howed : ∀ i, Owed t i → Owner t i ∨ (Owed s i ∧ (Owner s i → Owner t i))) : Owned t := by
  constructor
  · intro i hi
    rcases howed i hi with hnow | ⟨hwas, hpass⟩
    · exact hnow
    · exact hpass (h.owed i hwas)
  · rw [hreg]
    exact hadd
  · rw [hreg]
    exact fun fd hfd => hopen fd (h.opened fd hfd)
  · rw [hreg]
    exact h.once

/-- A step that leaves the table as well. -/
theorem Owned.still (h : Owned s) (hreg : t.registered = s.registered)
    (hopen : t.openFds = s.openFds) (hslots : t.slots = s.slots)
    (hadd : ∀ fd, adding t.dispatcher = some fd → adding s.dispatcher = some fd)
    (hpass : ∀ i, Owner s i → Owner t i) : Owned t := by
  refine h.next hreg (fun fd hfd => hopen ▸ hfd) (fun fd hfd => h.fresh fd (hadd fd hfd))
    (fun i hi => Or.inr ⟨?_, hpass i⟩)
  rw [Owed, hslots, hreg] at hi
  exact hi

/-- A step of the dispatcher that only it takes note of. -/
theorem Owned.goto (h : Owned s) {d : DispatcherPc}
    (hcarry : carried d = carried s.dispatcher)
    (hadd : ∀ fd, adding d = some fd → adding s.dispatcher = some fd) : Owned (s.goto d) :=
  h.still rfl rfl rfl hadd fun _ => Owner.same hcarry rfl fun _ hw => hw

/-- A descriptor is closed, and its slot is free. -/
theorem Owned.close (h : Owned s) {fd : Nat} (hreg : t.registered = s.registered.erase fd)
    (hopen : t.openFds = s.openFds.erase fd) (hdisp : t.dispatcher = s.dispatcher)
    (howed : ∀ i, Owed t i → (t.slots i = s.slots i ∧ (Owner s i → Owner t i))) : Owned t := by
  constructor
  · intro i hi
    obtain ⟨hsame, hpass⟩ := howed i hi
    rw [Owed, hsame, hreg] at hi
    exact hpass (h.owed i ⟨hi.1, List.mem_of_mem_erase hi.2.1, hi.2.2⟩)
  · rw [hdisp, hreg]
    exact fun fd' hadd hmem => h.fresh fd' hadd (List.mem_of_mem_erase hmem)
  · rw [hreg, hopen]
    intro fd' hmem
    obtain ⟨hne, hmem⟩ := h.once.mem_erase_iff.mp hmem
    exact (List.mem_erase_of_ne hne).mpr (h.opened fd' hmem)
  · rw [hreg]
    exact h.once.erase fd

end Pass

/-! ## The steps -/

section Steps

variable {s t : State} {φ : Nat → Phase}

/-- A worker is created with what it has been given. -/
theorem mainStep_owned (hφ : Tracks s φ) (hc : Created s) (h : Owned s)
    (hstep : mainStep s = some t) :
    Owned t := by
  rw [mainStep] at hstep
  cases hm : s.main with
  | createPatcher =>
      rw [hm] at hstep
      obtain rfl := Option.some.inj hstep
      have hd := hc hm
      refine h.still rfl rfl rfl (fun fd hadd => by cases hadd)
        fun i => Owner.same ?_ rfl fun _ hw => hw
      rw [hd]
      rfl
  | spawn i =>
      rw [hm] at hstep
      dsimp only at hstep
      split_ifs at hstep with hlt
      · obtain rfl := Option.some.inj hstep
        refine h.still rfl rfl rfl (fun _ hadd => hadd)
          fun j => Owner.same rfl rfl (holds_update rfl fun hw => ?_)
        have hunborn := (hφ.worker i).unborn (by rw [hm]; exact Nat.le_refl i)
        obtain ⟨hname, hholds⟩ := hw
        rw [holdsRequest, hunborn] at hholds
        exact ⟨hname, hholds⟩
      · obtain rfl := Option.some.inj hstep
        exact h.still rfl rfl rfl (fun _ hadd => hadd)
          fun _ => Owner.same rfl rfl fun _ hw => hw
  | workspaceInit | toWait =>
      rw [hm] at hstep
      obtain rfl := Option.some.inj hstep
      exact h.still rfl rfl rfl (fun _ hadd => hadd)
        fun _ => Owner.same rfl rfl fun _ hw => hw
  | test =>
      rw [hm] at hstep
      obtain rfl := Option.some.inj hstep
      exact h.still rfl rfl rfl (fun _ hadd => hadd) fun _ => Owner.same rfl rfl fun _ hw => hw
  | input | waiting | past =>
      rw [hm] at hstep
      cases hstep

/-- The command is put into its slot. -/
theorem install_owned (h : Owned s) {m : Method} {fd i : Nat}
    (hd : s.dispatcher = .install m fd i) :
    Owned ((installSlot s m fd i).goto (.epollAdd { sockfd := fd, connIndex := i })) := by
  refine h.next rfl (fun _ hfd => hfd) (fun fd' hadd => h.fresh fd' ?_)
    (fun j hj => ?_)
  · rw [hd]
    exact hadd
  · by_cases hji : j = i
    · exact Or.inl (.dispatcher (by rw [hji]; rfl))
    · refine Or.inr ⟨?_, ?_⟩
      · obtain ⟨hlive, hreg, hstate⟩ := hj
        have hsame : ((installSlot s m fd i).goto
            (.epollAdd { sockfd := fd, connIndex := i })).slots j = s.slots j :=
          Function.update_of_ne hji _ _
        rw [hsame] at hlive hreg hstate
        exact ⟨hlive, hreg, hstate⟩
      · intro howner
        -- nobody else was on its way
        cases howner with
        | dispatcher hcarry =>
            rw [hd] at hcarry
            cases hcarry
        | queue cev hmem hi => exact .queue cev hmem hi
        | worker v hv hholds => exact .worker v hv hholds

/-- `epoll_ctl`: what is watched from now on is what the dispatcher is on its way with,
    and what is not watched is owed nothing. -/
theorem epollAdd_owned (hφ : Tracks s φ) (h : Owned s) {cev : ConnEvent}
    (hd : s.dispatcher = .epollAdd cev) :
    Owned ({ s with registered := cev.sockfd :: s.registered }.goto (.count cev)) ∧
      Owned (s.goto .input) := by
  obtain ⟨hcarried, hsockfd⟩ := show φ cev.connIndex = .carried ∧
      (s.slots cev.connIndex).sockfd = cev.sockfd by
    have hdisp := hφ.dispatcher
    rw [hd] at hdisp
    exact hdisp
  have hlive : φ cev.connIndex ≠ .free := by rw [hcarried]; rintro ⟨⟩
  have hfresh : cev.sockfd ∉ s.registered := h.fresh cev.sockfd (by rw [hd]; rfl)
  have hopen : cev.sockfd ∈ s.openFds := hsockfd ▸ hφ.slots.opened cev.connIndex hlive
  constructor
  · constructor
    · rintro i ⟨hpos, hreg, hstate⟩
      rcases List.mem_cons.mp hreg with heq | hmem
      · have hi : cev.connIndex = i := hφ.slots.fds cev.connIndex i hlive (hsockfd.trans heq.symm)
        exact .dispatcher (congrArg some hi)
      · cases h.owed i ⟨hpos, hmem, hstate⟩ with
        | dispatcher hcarry =>
            rw [hd] at hcarry
            exact .dispatcher hcarry
        | queue e hmem hi => exact .queue e hmem hi
        | worker v hv hholds => exact .worker v hv hholds
    · intro fd hadd
      cases hadd
    · intro fd hfd
      rcases List.mem_cons.mp hfd with heq | hmem
      · exact heq ▸ hopen
      · exact h.opened fd hmem
    · exact List.nodup_cons.mpr ⟨hfresh, h.once⟩
  · refine h.next rfl (fun _ hfd => hfd) (fun fd hadd => by cases hadd)
      (fun i hi => Or.inr ⟨hi, fun howner => ?_⟩)
    cases howner with
    | dispatcher hcarry =>
        rw [hd] at hcarry
        obtain rfl : cev.connIndex = i := Option.some.inj hcarry
        have hmem : (s.slots cev.connIndex).sockfd ∈ s.registered := hi.2.1
        rw [hsockfd] at hmem
        exact absurd hmem hfresh
    | queue e hmem hi => exact .queue e hmem hi
    | worker v hv hholds => exact .worker v hv hholds

/-- The command is given to an idle worker. -/
theorem assign_owned (hφ : Tracks s φ) (h : Owned s) {cev : ConnEvent} {w : Nat}
    (hd : s.dispatcher = .assign cev) (hidle : s.idleWorker = some w) :
    Owned ((assignRequest s cev w).goto (.connSignal w)) := by
  obtain ⟨hbusy, hlt⟩ := idleWorker_idle hidle
  have hw : w < defaultWorkerCount := by
    rcases hφ.workspace with hzero | hcount <;> omega
  have hrest := (hφ.worker w).idle hbusy
  have hauto := (hφ.worker w).auto hrest
  obtain ⟨t, ht⟩ : ∃ t, t = (assignRequest s cev w).goto (.connSignal w) := ⟨_, rfl⟩
  have hworkers : t.workers = Function.update s.workers w { s.workers w with
      process := some .httpRequest, connIndex := some cev.connIndex, busy := true } := by
    rw [ht]
    rfl
  have hslots : ∀ j, (t.slots j).sockfd = (s.slots j).sockfd ∧
      (t.slots j).state = (s.slots j).state := by
    intro j
    rw [ht]
    show (Function.update s.slots cev.connIndex _ j).sockfd = _ ∧
      (Function.update s.slots cev.connIndex _ j).state = _
    by_cases hj : j = cev.connIndex
    · rw [hj, Function.update_self]
      exact ⟨rfl, rfl⟩
    · rw [Function.update_of_ne hj]
      exact ⟨rfl, rfl⟩
  have hreg : t.registered = s.registered := by rw [ht]; rfl
  have hopen : t.openFds = s.openFds := by rw [ht]; rfl
  rw [← ht]
  refine h.next hreg (fun fd hfd => hopen ▸ hfd) (fun fd hadd => by rw [ht] at hadd; cases hadd)
    (fun i hi => Or.inr ⟨?_, fun howner => ?_⟩)
  · rw [Owed, (hslots i).1, (hslots i).2, hreg] at hi
    exact hi
  · cases howner with
    | dispatcher hcarry =>
        rw [hd] at hcarry
        obtain rfl : cev.connIndex = i := Option.some.inj hcarry
        refine .worker w hw ⟨?_, ?_⟩
        · rw [hworkers, Function.update_self]
        · rw [hworkers, Function.update_self, holdsRequest]
          cases hpc : (s.workers w).pc with
          | unborn | start | test | toWait | waiting => simp [Worker.due, hauto]
          | _ =>
              rw [hpc] at hrest
              cases hrest
    | queue e hmem hi =>
        refine .queue e ?_ hi
        rw [ht]
        exact hmem
    | worker v hv hholds =>
        refine .worker v hv (holds_update hworkers (fun hwas => ?_) v hholds)
        exact absurd hwas (not_holds_idle hrest hbusy)

/-- It is put into the queue, where there is room. -/
theorem connEnqueue_owned (h : Owned s) {cev : ConnEvent} (hd : s.dispatcher = .connEnqueue cev)
    (hroom : s.connQueue.count < connEventQueueMax) :
    Owned ({ s with connQueue := s.connQueue.enqueue connEventQueueMax cev }.goto .input) := by
  refine h.still rfl rfl rfl (fun fd hadd => by cases hadd)
    (fun i howner => ?_)
  have hevents : ({ s with connQueue := s.connQueue.enqueue connEventQueueMax cev }.goto
      .input).connEvents = s.connEvents ++ [cev] := RingBuf.contents_enqueue cev hroom
  cases howner with
  | dispatcher hcarry =>
      rw [hd] at hcarry
      refine .queue cev ?_ (Option.some.inj hcarry)
      rw [hevents]
      exact List.mem_append_right _ List.mem_cons_self
  | queue e hmem hi =>
      refine .queue e ?_ hi
      rw [hevents]
      exact List.mem_append_left _ hmem
  | worker v hv hholds => exact .worker v hv hholds

/-- A worker that is woken keeps what it has. -/
theorem wake_holds (s : State) (w : Nat) {i : Nat} (v : Nat) :
    Holds (s.workers v) i → Holds ((s.wake w).workers v) i := by
  rcases wake_eq s w with ⟨-, hsame⟩ | ⟨hpc, hwoken⟩
  · rw [hsame]
    exact fun h => h
  · rw [hwoken]
    refine holds_update rfl ?_ v
    rintro ⟨hname, hholds⟩
    rw [holdsRequest, hpc] at hholds
    exact ⟨hname, hholds⟩

theorem wake_owned (h : Owned s) {w : Nat} {d : DispatcherPc}
    (hd : s.dispatcher = .connSignal w ∨ s.dispatcher = .signal w) (hcarry : carried d = none)
    (hadd : adding d = none) : Owned ((s.wake w).goto d) := by
  have hwas : carried s.dispatcher = none := by
    rcases hd with hd | hd <;> rw [hd] <;> rfl
  have hframe : (s.wake w).slots = s.slots ∧ (s.wake w).openFds = s.openFds ∧
      (s.wake w).registered = s.registered ∧ (s.wake w).connQueue = s.connQueue := by
    rcases wake_eq s w with ⟨-, hsame⟩ | ⟨-, hwoken⟩
    · rw [hsame]
      exact ⟨rfl, rfl, rfl, rfl⟩
    · rw [hwoken]
      exact ⟨rfl, rfl, rfl, rfl⟩
  obtain ⟨hslots, hopen, hreg, hconn⟩ := hframe
  refine h.still hreg hopen hslots (fun fd hfd => ?_)
    (fun i => Owner.same ?_ hconn (wake_holds s w))
  · rw [State.goto] at hfd
    rw [hadd] at hfd
    cases hfd
  · rw [hwas]
    exact hcarry

/-- The end of a line hands on nothing. -/
theorem endLine_owned (h : Owned s) (hcarry : carried s.dispatcher = none) :
    Owned (endLine s) := by
  rw [endLine]
  split_ifs with hmain
  · refine h.still rfl rfl rfl (fun fd hadd => by cases hadd)
      fun _ => Owner.same ?_ rfl fun _ hw => hw
    rw [hcarry]
    rfl
  · refine h.still rfl rfl rfl (fun fd hadd => by cases hadd)
      fun _ => Owner.same ?_ rfl fun _ hw => hw
    rw [hcarry]
    rfl

theorem wakeMain_owned (h : Owned s) : Owned s.wakeMain := by
  rw [State.wakeMain]
  split_ifs with hmain
  · exact h.still rfl rfl rfl (fun _ hadd => hadd)
      fun _ => Owner.same rfl rfl fun _ hw => hw
  · exact h

theorem commandStep_owned {b : Bool} (hφ : Tracks s φ) (h : Owned s)
    (hok : Exclusion.handsOn s (.dispatcher b) = true)
    (hstep : commandStep b s s.dispatcher = some t) : Owned t := by
  cases hd : s.dispatcher with
  | slot _ _ _ | slotWorkers _ _ _ _ | slotQueue _ _ _ =>
      rw [hd, commandStep] at hstep
      split_ifs at hstep <;>
      · obtain rfl := Option.some.inj hstep
        refine h.goto (by rw [hd]; rfl) (fun fd hadd => ?_)
        rw [hd]
        first
          | exact hadd
          | cases hadd
  | install m fd i =>
      rw [hd] at hstep
      obtain rfl := Option.some.inj hstep
      exact install_owned h hd
  | epollAdd cev =>
      rw [hd, commandStep] at hstep
      obtain ⟨hadded, hfailed⟩ := epollAdd_owned hφ h hd
      split_ifs at hstep
      · obtain rfl := Option.some.inj hstep
        exact hadded
      · obtain rfl := Option.some.inj hstep
        exact hfailed
  | count cev =>
      rw [hd] at hstep
      obtain rfl := Option.some.inj hstep
      refine h.still rfl rfl rfl (fun fd hadd => by cases hadd)
        fun _ => Owner.same ?_ rfl fun _ hw => hw
      rw [hd]
      rfl
  | assign cev =>
      rw [hd, commandStep] at hstep
      cases hidle : s.idleWorker with
      | some w =>
          rw [hidle] at hstep
          obtain rfl := Option.some.inj hstep
          exact assign_owned hφ h hd hidle
      | none =>
          rw [hidle] at hstep
          obtain rfl := Option.some.inj hstep
          exact h.goto (by rw [hd]; rfl) (fun fd hadd => by cases hadd)
  | connSignal w =>
      rw [hd] at hstep
      obtain rfl := Option.some.inj hstep
      exact wake_owned h (Or.inl hd) rfl rfl
  | connEnqueue cev =>
      rw [Exclusion.handsOn, hd] at hok
      rw [hd] at hstep
      obtain rfl := Option.some.inj hstep
      exact connEnqueue_owned h hd (of_decide_eq_true hok)
  | _ =>
      rw [hd] at hstep
      cases hstep

theorem patcherStep_owned (hφ : Tracks s φ) (h : Owned s)
    (hstep : patcherStep s s.dispatcher = some t) : Owned t := by
  -- the worker that is given an event was idle
  have hgiven : ∀ w, (s.workers w).busy = false → ∀ i x, Holds (s.workers w) i → Holds x i :=
    fun w hidle _ _ hholds => absurd hholds (not_holds_idle ((hφ.worker w).idle hidle) hidle)
  cases hd : s.dispatcher with
  | quitSignal =>
      rw [hd] at hstep
      obtain rfl := Option.some.inj hstep
      have hdisp := (wakeMain_frame s).2.2.2.2
      refine endLine_owned (wakeMain_owned h) ?_
      rw [hdisp, hd]
      rfl
  | next =>
      rw [hd, patcherStep] at hstep
      cases hevents : s.events with
      | nil =>
          rw [hevents] at hstep
          obtain rfl := Option.some.inj hstep
          exact h.goto (by rw [hd]; rfl) (fun fd hadd => by cases hadd)
      | cons fd rest =>
          rw [hevents] at hstep
          dsimp only at hstep
          split_ifs at hstep <;>
          · obtain rfl := Option.some.inj hstep
            refine h.still rfl rfl rfl (fun fd hadd => by cases hadd)
              fun _ => Owner.same ?_ rfl fun _ hw => hw
            rw [hd]
            rfl
  | scan _ _ | queueScan _ =>
      rw [hd, patcherStep] at hstep
      split_ifs at hstep <;>
      · obtain rfl := Option.some.inj hstep
        exact h.goto (by rw [hd]; rfl) (fun fd hadd => by cases hadd)
  | idleCheck fd =>
      rw [hd, patcherStep] at hstep
      cases hidle : s.idleWorker with
      | some _ | none =>
          rw [hidle] at hstep
          obtain rfl := Option.some.inj hstep
          exact h.goto (by rw [hd]; rfl) (fun fd hadd => by cases hadd)
  | store fd w =>
      have hidle : (s.workers w).busy = false := by
        have hdisp := hφ.dispatcher
        rw [hd] at hdisp
        exact hdisp.2.1
      rw [hd] at hstep
      obtain rfl := Option.some.inj hstep
      refine h.still rfl rfl rfl (fun fd hadd => by cases hadd)
        fun _ => Owner.same ?_ rfl
          (holds_update rfl (hgiven w hidle _ _))
      rw [hd]
      rfl
  | setBusy w =>
      have hidle : (s.workers w).busy = false := by
        have hdisp := hφ.dispatcher
        rw [hd] at hdisp
        exact hdisp
      rw [hd] at hstep
      obtain rfl := Option.some.inj hstep
      refine h.still rfl rfl rfl (fun fd hadd => by cases hadd)
        fun _ => Owner.same ?_ rfl
          (holds_update rfl (hgiven w hidle _ _))
      rw [hd]
      rfl
  | signal w =>
      rw [hd] at hstep
      obtain rfl := Option.some.inj hstep
      exact wake_owned h (Or.inr hd) rfl rfl
  | enqueue fd =>
      rw [hd] at hstep
      obtain rfl := Option.some.inj hstep
      refine h.still rfl rfl rfl (fun fd hadd => by cases hadd)
        fun _ => Owner.same ?_ rfl
          fun _ hw => hw
      rw [hd]
      rfl
  | _ =>
      rw [hd] at hstep
      cases hstep

/-! ### The workers -/

/-- A slot is written, and nothing is owed there that was not before. -/
theorem setSlot_state {i j : Nat} {x : Slot}
    (hx : x.state = 0 → x.sockfd = (s.slots i).sockfd ∧ (s.slots i).state = 0)
    (hstate : ((s.setSlot i x).slots j).state = 0) :
    ((s.setSlot i x).slots j).sockfd = (s.slots j).sockfd ∧ (s.slots j).state = 0 := by
  simp only [State.setSlot] at hstate ⊢
  by_cases hj : j = i
  · rw [hj, Function.update_self] at hstate ⊢
    exact hx hstate
  · rw [Function.update_of_ne hj] at hstate ⊢
    exact ⟨rfl, hstate⟩

/-- A worker goes on by itself; what it has, it keeps. -/
theorem worker_owned (h : Owned s) {w : Nat} {x : Worker}
    (hworkers : t.workers = Function.update s.workers w x) (hreg : t.registered = s.registered)
    (hopen : t.openFds = s.openFds) (hdisp : t.dispatcher = s.dispatcher)
    (hconn : t.connQueue = s.connQueue)
    (hslots : ∀ i, (t.slots i).state = 0 → (t.slots i).sockfd = (s.slots i).sockfd ∧
      (s.slots i).state = 0)
    (hx : ∀ i, Owed t i → Holds (s.workers w) i → Holds x i) : Owned t := by
  refine h.next hreg (fun fd hfd => hopen ▸ hfd) (fun fd hadd => h.fresh fd (hdisp ▸ hadd))
    (fun i hi => Or.inr ⟨?_, ?_⟩)
  · obtain ⟨hlive, hmem, hstate⟩ := hi
    obtain ⟨hsame, hwas⟩ := hslots i hstate
    rw [hsame] at hlive hmem
    exact ⟨hlive, hreg ▸ hmem, hwas⟩
  · exact Owner.same (by rw [hdisp]) hconn (holds_update hworkers (hx i hi))

/-- A step after which the worker is at another place. -/
theorem workerGoto_owned (h : Owned s) {w : Nat} {pc : WorkerPc}
    (hx : ∀ i, Holds (s.workers w) i → Holds { s.workers w with pc := pc } i) :
    Owned (s.workerGoto w pc) :=
  worker_owned h rfl rfl rfl rfl rfl (fun _ hs => ⟨rfl, hs⟩) fun i _ => hx i

/-- A handler is called. -/
theorem load_owned {w : Nat} {ok : Bool} (hφ : Tracks s φ) (h : Owned s)
    (hpc : (s.workers w).pc = .load) (hstep : workerStep s w ok = some t) : Owned t := by
  rw [workerStep, hpc] at hstep
  dsimp only at hstep
  have hname := Exclusion.dueConn_eq hφ hpc
  have hholds : ∀ i, Holds (s.workers w) i →
      (s.workers w).due = some .httpRequest ∧ (s.workers w).connIndex = some i := by
    rintro i ⟨hi, hhas⟩
    rw [holdsRequest, hpc] at hhas
    exact ⟨of_decide_eq_true (Bool.and_eq_true_iff.mp hhas).2, hi⟩
  cases hdue : (s.workers w).due with
  | none =>
      rw [hdue] at hstep
      obtain rfl := Option.some.inj hstep
      refine worker_owned h rfl rfl rfl rfl rfl (fun _ hs => ⟨rfl, hs⟩)
        fun i _ hi => ?_
      have hreq := (hholds i hi).1
      rw [hdue] at hreq
      cases hreq
  | some d =>
      cases hconn : (s.workers w).connIndex with
      | none =>
          rw [hdue, hname, hconn] at hstep
          obtain rfl := Option.some.inj hstep
          refine workerGoto_owned h fun i hi => ?_
          have hsome := (hholds i hi).2
          rw [hconn] at hsome
          cases hsome
      | some i =>
          rw [hdue, hname, hconn] at hstep
          dsimp only at hstep
          split_ifs at hstep with hfd
          · obtain rfl := Option.some.inj hstep
            refine workerGoto_owned h fun j _ => ?_
            -- the connection of a request that is to be sent is live
            have hphase : φ i = pending w d := by
              refine (hφ.worker w).claims i _ hconn ?_
              rw [claim_dozing (Or.inr hpc), hdue]
              rfl
            have hlive := (hφ.slots.slot i).live (by rw [hphase]; exact (pending_live w d).1)
            exact absurd hlive (Nat.not_lt.mpr hfd)
          · obtain rfl := Option.some.inj hstep
            refine worker_owned h rfl rfl rfl rfl rfl (fun j => ?_) fun j _ hj => ?_
            · exact setSlot_state (x := { s.slots i with served := (s.slots i).served.call d })
                fun hs => ⟨rfl, hs⟩
            · obtain ⟨hreq, hsome⟩ := hholds j hj
              rw [hdue] at hreq
              rw [hconn] at hsome
              exact ⟨hsome, by rw [holdsRequest]; exact decide_eq_true (Option.some.inj hreq)⟩

/-- A handler returns. -/
theorem exec_owned {w : Nat} {ok : Bool} {d : Handler} (h : Owned s)
    (hpc : (s.workers w).pc = .exec d) (hstep : workerStep s w ok = some t) : Owned t := by
  rw [workerStep, hpc] at hstep
  dsimp only at hstep
  cases hconn : (s.workers w).connIndex with
  | none =>
      rw [hconn] at hstep
      obtain rfl := Option.some.inj hstep
      refine workerGoto_owned h fun i hi => ?_
      obtain ⟨hsome, -⟩ := hi
      rw [hconn] at hsome
      cases hsome
  | some i =>
      rw [hconn] at hstep
      obtain rfl := Option.some.inj hstep
      -- what the worker had was the request of this connection
      have hother : ∀ j, j ≠ i → Holds (s.workers w) j →
          Holds { s.workers w with pc := .account } j := by
        rintro j hj ⟨hsome, -⟩
        rw [hconn] at hsome
        exact absurd (Option.some.inj hsome).symm hj
      have hclosed : ∀ x : Slot, x.sockfd = 0 →
          Owned (((s.setSlot i x).close (s.slots i).sockfd).workerGoto w .account) := by
        intro x hx
        refine h.close rfl rfl rfl (fun j hj => ?_)
        have hji : j ≠ i := by
          rintro rfl
          have hlive : (Function.update s.slots j x j).sockfd ≠ 0 := hj.1
          rw [Function.update_self] at hlive
          exact hlive hx
        exact ⟨Function.update_of_ne hji _ _,
          Owner.same rfl rfl (holds_update rfl (hother j hji))⟩
      cases d with
      | httpRequest =>
          cases ok with
          | true =>
              refine worker_owned h rfl rfl rfl rfl rfl (fun j => ?_) fun j hj => ?_
              · exact setSlot_state (x := { s.slots i with
                  state := 1, served := { (s.slots i).served with answered := true } })
                  fun hs => by cases hs
              · refine hother j ?_
                rintro rfl
                have hstate : (Function.update s.slots j _ j).state = 0 := hj.2.2
                rw [Function.update_self] at hstate
                cases hstate
          | false => exact hclosed { s.slots i with state := -1, sockfd := 0 } rfl
      | httpResponse =>
          cases ok with
          | true => exact hclosed { s.slots i with state := 3, sockfd := 0 } rfl
          | false => exact hclosed { s.slots i with state := -1, sockfd := 0 } rfl

/-- A worker takes a command out of the queue. -/
theorem takeConn_owned {w : Nat} (hφ : Tracks s φ) (h : Owned s) (hlt : w < defaultWorkerCount)
    (hpc : (s.workers w).pc = .dequeueConn) (hcount : s.connQueue.count ≠ 0) :
    Owned (takeConn s w) := by
  have hcontents : s.connEvents = s.connQueue.head connEventQueueMax ::
      (s.connQueue.dequeue connEventQueueMax).contents connEventQueueMax :=
    RingBuf.contents_dequeue hcount
  obtain ⟨cev, hcev⟩ : ∃ cev, cev = s.connQueue.head connEventQueueMax := ⟨_, rfl⟩
  rw [← hcev] at hcontents
  obtain ⟨hphase, hsockfd⟩ := hφ.conns.named cev (by rw [hcontents]; exact List.mem_cons_self)
  have hslot := hφ.slots.slot cev.connIndex
  rw [hphase] at hslot
  obtain ⟨hlive, hstate, -⟩ := hslot
  have hpos : ¬ cev.sockfd ≤ 2 := by omega
  have hbusy : (s.workers w).busy = true := (hφ.worker w).busy (by rw [hpc]; rfl)
  obtain ⟨t, ht⟩ : ∃ t, t = takeConn s w := ⟨_, rfl⟩
  rw [← ht]
  rw [takeConn, ← hcev] at ht
  dsimp only at ht
  rw [if_neg hpos] at ht
  have hworkers : t.workers = Function.update s.workers w { s.workers w with
      connIndex := some cev.connIndex, auto := .conn cev, pc := .load } := by
    rw [ht]
    rfl
  have hevents : t.connEvents =
      (s.connQueue.dequeue connEventQueueMax).contents connEventQueueMax := by
    rw [ht]
    rfl
  refine h.next (by rw [ht]; rfl) (fun fd hfd => by rw [ht]; exact hfd) (fun fd hadd => ?_)
    (fun i hi => Or.inr ⟨?_, fun howner => ?_⟩)
  · rw [ht] at hadd
    exact h.fresh fd hadd
  · obtain ⟨hnonzero, hmem, hzero⟩ := hi
    have hslots : t.slots = (s.setSlot cev.connIndex { s.slots cev.connIndex with
        sockfd := cev.sockfd, state := 0, param := some w }).slots := by
      rw [ht]
      rfl
    rw [hslots] at hnonzero hmem hzero
    obtain ⟨hsame, hwas⟩ := setSlot_state (fun _ => ⟨hsockfd.symm, hstate⟩) hzero
    rw [hsame] at hnonzero hmem
    exact ⟨hnonzero, by rw [ht] at hmem; exact hmem, hwas⟩
  · have hmine : Holds (t.workers w) cev.connIndex := by
      rw [hworkers, Function.update_self]
      refine ⟨rfl, ?_⟩
      rw [holdsRequest]
      simp [hbusy, Worker.due]
    cases howner with
    | dispatcher hcarry => exact .dispatcher (by rw [ht]; exact hcarry)
    | queue e hmem hi =>
        rw [hcontents] at hmem
        rcases List.mem_cons.mp hmem with rfl | hrest
        · exact .worker w hlt (hi ▸ hmine)
        · exact .queue e (by rw [hevents]; exact hrest) hi
    | worker v hv hholds =>
        refine .worker v hv (holds_update hworkers (fun hwas => ?_) v hholds)
        exact absurd hwas (not_holds (by rw [holdsRequest, hpc]))

/-- And one of the queue of events. -/
theorem takeEpoll_owned {w : Nat} (h : Owned s) (hpc : (s.workers w).pc = .dequeueEpoll) :
    Owned (takeEpoll s w) := by
  have hnone : ∀ i x, Holds (s.workers w) i → Holds x i :=
    fun i x hwas => absurd hwas (not_holds (by rw [holdsRequest, hpc]))
  unfold takeEpoll
  dsimp only
  cases hfind : s.lookup (s.epollQueue.head epollEventQueueMax) with
  | some i =>
      refine worker_owned h rfl rfl rfl rfl rfl (fun j => ?_)
        fun j _ => hnone j _
      exact setSlot_state (x := { s.slots i with
        sockfd := s.epollQueue.head epollEventQueueMax, state := 2 }) fun hs => by cases hs
  | none =>
      exact worker_owned h rfl rfl rfl rfl rfl (fun _ hs => ⟨rfl, hs⟩)
        fun j _ => hnone j _

theorem workerStep_owned {w : Nat} {ok : Bool} (hφ : Tracks s φ) (h : Owned s)
    (hlt : w < defaultWorkerCount) (hforget : forgets (s.workers w) = false)
    (hstep : workerStep s w ok = some t) : Owned t := by
  -- a worker behind its call holds nothing any more, wherever it goes
  have hat : ∀ pc, (s.workers w).pc = pc → holdsRequest { s.workers w with pc := pc } = false →
      ∀ i x, Holds (s.workers w) i → Holds x i := by
    rintro pc rfl hnone i x hwas
    exact absurd hwas (not_holds hnone)
  cases hpc : (s.workers w).pc with
  | unborn | waiting | fault =>
      rw [workerStep, hpc] at hstep
      cases hstep
  | start =>
      rw [workerStep, hpc] at hstep
      obtain rfl := Option.some.inj hstep
      -- the guard rules out a worker that was given work before it starts
      have hidle : (s.workers w).busy = false := by
        rw [forgets, hpc] at hforget
        exact hforget
      exact worker_owned h rfl rfl rfl rfl rfl (fun _ hs => ⟨rfl, hs⟩)
        fun i _ hi => absurd hi (not_holds_idle (by rw [hpc]; rfl) hidle)
  | test =>
      rw [workerStep, hpc] at hstep
      dsimp only at hstep
      split_ifs at hstep with hbusy
      · obtain rfl := Option.some.inj hstep
        refine workerGoto_owned h ?_
        rintro i ⟨hname, hholds⟩
        rw [holdsRequest, hpc] at hholds
        exact ⟨hname, hholds⟩
      · obtain rfl := Option.some.inj hstep
        exact workerGoto_owned h fun i hi => absurd hi
          (not_holds_idle (by rw [hpc]; rfl) (Bool.eq_false_iff.mpr hbusy))
  | toWait =>
      rw [workerStep, hpc] at hstep
      obtain rfl := Option.some.inj hstep
      refine workerGoto_owned h ?_
      rintro i ⟨hname, hholds⟩
      rw [holdsRequest, hpc] at hholds
      exact ⟨hname, hholds⟩
  | load => exact load_owned hφ h hpc hstep
  | exec d => exact exec_owned h hpc hstep
  | account =>
      rw [workerStep, hpc] at hstep
      dsimp only at hstep
      have hnone := hat .account hpc rfl
      split_ifs at hstep
      · cases hconn : (s.workers w).connIndex with
        | none =>
            rw [hconn] at hstep
            obtain rfl := Option.some.inj hstep
            exact workerGoto_owned h fun i => hnone i _
        | some i =>
            rw [hconn] at hstep
            dsimp only at hstep
            split_ifs at hstep <;>
            · obtain rfl := Option.some.inj hstep
              exact worker_owned h rfl rfl rfl rfl rfl (fun _ hs => ⟨rfl, hs⟩)
                fun j _ => hnone j _
      · obtain rfl := Option.some.inj hstep
        exact workerGoto_owned h fun i => hnone i _
  | raise | release | clear =>
      have hnone := hat _ hpc rfl
      rw [workerStep, hpc] at hstep
      obtain rfl := Option.some.inj hstep
      exact worker_owned h rfl rfl rfl rfl rfl (fun _ hs => ⟨rfl, hs⟩)
        fun j _ => hnone j _
  | signal =>
      have hnone := hat _ hpc rfl
      rw [workerStep, hpc] at hstep
      obtain rfl := Option.some.inj hstep
      refine workerGoto_owned (wakeMain_owned h) fun i hi => ?_
      rw [(wakeMain_frame s).1] at hi ⊢
      exact hnone i _ hi
  | dequeueConn =>
      have hnone := hat _ hpc rfl
      rw [workerStep, hpc] at hstep
      dsimp only at hstep
      split_ifs at hstep with hcount
      · obtain rfl := Option.some.inj hstep
        exact takeConn_owned hφ h hlt hpc hcount
      · obtain rfl := Option.some.inj hstep
        exact workerGoto_owned h fun i => hnone i _
  | dequeueEpoll =>
      have hnone := hat _ hpc rfl
      rw [workerStep, hpc] at hstep
      dsimp only at hstep
      split_ifs at hstep with hcount
      · obtain rfl := Option.some.inj hstep
        exact takeEpoll_owned h hpc
      · obtain rfl := Option.some.inj hstep
        exact workerGoto_owned h fun i => hnone i _

/-- **A STEP HANDS THE REQUESTS ON**. -/
theorem step_owned {a : Act} (hφ : Tracks s φ) (hc : Created s) (h : Owned s)
    (hok : attended s a = true) (hstep : step s a = some t) : Owned t := by
  rw [attended, Bool.and_eq_true, Bool.and_eq_true, Bool.and_eq_true] at hok
  obtain ⟨⟨⟨hhands, -⟩, -⟩, hforget⟩ := hok
  cases a with
  | main => exact mainStep_owned hφ hc h hstep
  | command m fd =>
      rw [step] at hstep
      split_ifs at hstep with hcond
      obtain ⟨hat, -, hclosed⟩ := hcond
      obtain rfl := Option.some.inj hstep
      refine h.next rfl (fun _ hfd => List.mem_cons_of_mem _ hfd) (fun fd' hadd => ?_)
        (fun i hi => Or.inr ⟨hi, Owner.same ?_ rfl
          fun _ hw => hw⟩)
      · obtain rfl : fd = fd' := Option.some.inj hadd
        exact fun hmem => hclosed (h.opened fd hmem)
      · rcases hat with hd | hd <;> rw [hd] <;> rfl
  | quit =>
      rw [step] at hstep
      split_ifs at hstep with hd
      obtain rfl := Option.some.inj hstep
      refine h.still rfl rfl rfl (fun fd hadd => by cases hadd)
        fun _ => Owner.same ?_ rfl
          fun _ hw => hw
      rw [hd]
      rfl
  | endInput =>
      rw [step] at hstep
      split_ifs at hstep with hat
      obtain rfl := Option.some.inj hstep
      refine endLine_owned h ?_
      rcases hat with hd | hd <;> rw [hd] <;> rfl
  | fetch fds =>
      rw [step] at hstep
      split_ifs at hstep with hcond
      obtain ⟨hd, -, -⟩ := hcond
      obtain rfl := Option.some.inj hstep
      refine h.still rfl rfl rfl (fun fd hadd => by cases hadd)
        fun _ => Owner.same ?_ rfl
          fun _ hw => hw
      rw [hd]
      rfl
  | dispatcher b =>
      rw [step] at hstep
      cases hcommand : commandStep b s s.dispatcher with
      | some u =>
          rw [hcommand] at hstep
          exact commandStep_owned hφ h hhands (Option.some.inj hstep ▸ hcommand)
      | none =>
          rw [hcommand] at hstep
          exact patcherStep_owned hφ h hstep
  | worker w ok =>
      rw [step] at hstep
      split_ifs at hstep with hw
      refine workerStep_owned hφ h ?_ (by simpa [remembers] using hforget) hstep
      rcases hφ.workspace with hzero | hcount <;> omega

end Steps

/-! ## Runs -/

/-- What every run under the condition keeps. -/
structure Kept (s : State) : Prop where
  tracks : ∃ φ, Tracks s φ
  created : Created s
  drained : Stranded.Drained s
  signalled : Wakeup.Signalled s
  owned : Owned s

theorem run_kept {fixedInput : Bool} {as : List Act} {s : State}
    (hrun : (program.guarded attended).run (State.start fixedInput) as = some s) : Kept s := by
  refine Machine.invariant (fun s a t (h : Kept s) hstep => ?_) ?_ hrun
  · obtain ⟨hok, hstep'⟩ := Machine.guarded_step.mp hstep
    obtain ⟨φ, hφ⟩ := h.tracks
    have hparts := hok
    rw [attended, Bool.and_eq_true, Bool.and_eq_true, Bool.and_eq_true] at hparts
    obtain ⟨⟨⟨hhands, hlooked⟩, htime⟩, -⟩ := hparts
    obtain ⟨ψ, hψ, -⟩ := Exclusion.step_follows hφ hhands hstep'
    exact ⟨⟨ψ, hψ⟩, step_created h.created hstep', Stranded.step_drained h.drained hlooked hstep',
      Wakeup.step_signalled h.signalled htime hstep', step_owned hφ h.created h.owned hok hstep'⟩
  · exact ⟨⟨_, tracks_start fixedInput⟩, created_start fixedInput,
      Stranded.drained_start fixedInput, Wakeup.signalled_start fixedInput, owned_start fixedInput⟩

/-- The dispatcher is in `epoll_wait`, and the workers wait for work. -/
def Quiet (s : State) : Prop :=
  s.dispatcher = .wait ∧ ∀ w < defaultWorkerCount, (s.workers w).pc = .waiting

/-- No worker has work, nothing is queued, and each connection that epoll watches has
    had one request, which was sent, and no response yet. -/
structure NothingOwed (s : State) : Prop where
  workers : ∀ w < defaultWorkerCount, (s.workers w).busy = false
  conns : s.connEvents = []
  epolls : s.epollEvents = []
  sent : ∀ i, (s.slots i).sockfd ≠ 0 → (s.slots i).sockfd ∈ s.registered →
    (s.slots i).state = 1 ∧
      (s.slots i).served = { requests := 1, answered := true, responses := 0, early := false }

/-- **NOTHING IS OWED AT REST**, in whatever order the threads came there. -/
theorem nothing_owed {fixedInput : Bool} {as : List Act} {s : State}
    (hrun : (program.guarded attended).run (State.start fixedInput) as = some s)
    (hquiet : Quiet s) : NothingOwed s := by
  obtain ⟨⟨φ, hφ⟩, -, hdrained, hsignalled, howned⟩ := run_kept hrun
  obtain ⟨hd, hwaiting⟩ := hquiet
  -- a worker that waits with its bit set has a signal to come, and there is none
  have hidle : ∀ w < defaultWorkerCount, (s.workers w).busy = false := by
    intro w hw
    cases hbusy : (s.workers w).busy with
    | false => rfl
    | true =>
        have hsignal := hsignalled.worker w (by rw [hwaiting w hw]; rfl) hbusy
        rw [hd] at hsignal
        exact hsignal.elim (by rintro ⟨⟩) (by rintro ⟨⟩)
  have hfirst := hidle 0 (by decide)
  have hconns : s.connEvents = [] := RingBuf.contents_eq_nil.mpr
    (hdrained.conns 0 (by decide) (Stranded.pastConns_iff.mpr (Or.inl (Or.inl hfirst))))
  have hepolls : s.epollEvents = [] := RingBuf.contents_eq_nil.mpr
    (hdrained.epolls 0 (by decide) (Stranded.pastEpolls_iff.mpr (Or.inl hfirst)))
  have hnobody : ∀ i, ¬ Owner s i := by
    intro i howner
    cases howner with
    | dispatcher hcarry =>
        rw [hd] at hcarry
        cases hcarry
    | queue cev hmem _ =>
        rw [hconns] at hmem
        cases hmem
    | worker w hw hholds =>
        exact not_holds_idle (by rw [hwaiting w hw]; rfl) (hidle w hw) hholds
  have hunheld : ∀ i w, (φ i).holder ≠ some w := by
    intro i w hheld
    have hlt : w < defaultWorkerCount := by
      have hspace := ((hφ.worker w).held i hheld).1
      rcases hφ.workspace with hzero | hcount <;> omega
    exact hφ.idle_free (hidle w hlt) (by rw [hd]; rintro ⟨⟩) i hheld
  refine ⟨hidle, hconns, hepolls, fun i hlive hreg => ?_⟩
  have hstate : (s.slots i).state ≠ 0 := fun hzero => hnobody i (howned.owed i ⟨hlive, hreg, hzero⟩)
  have hslot := hφ.slots.slot i
  cases hphase : φ i with
  | free => exact absurd ((hφ.free_iff i).mp hphase) hlive
  | answered =>
      rw [hphase] at hslot
      exact ⟨hslot.2.1, hslot.2.2⟩
  | carried | connQueued | lost =>
      rw [hphase] at hslot
      exact absurd hslot.2.1 hstate
  | reqPending w | reqRunning w | respPending w | respRunning w =>
      exact absurd (show (φ i).holder = some w by rw [hphase]; rfl) (hunheld i w)

/-- Two commands from a terminal, the second of them while the first is sent. -/
def twoSent : List Act :=
  boot ++ [.fetch [0]] ++ dispatches 1 ++ [.command .get 3] ++ dispatches 16 ++ works 0 2 ++
    [.command .put 4] ++ dispatches 17 ++ works 1 10 ++ works 0 8 ++ [.endInput] ++ dispatches 1

theorem nothing_owed_twoSent :
    ∃ s, (program.guarded attended).run (State.start false) twoSent = some s ∧
      ((s.slots 0).sockfd = 3 ∧ (s.slots 1).sockfd = 4) ∧ NothingOwed s := by
  obtain ⟨s, hs, hat⟩ := (Option.any_eq_true (fun s : State => decide
    (((s.slots 0).sockfd = 3 ∧ (s.slots 1).sockfd = 4) ∧
      s.dispatcher = .wait ∧ ∀ w < defaultWorkerCount, (s.workers w).pc = .waiting)) _).mp
    (show ((program.guarded attended).run (State.start false) twoSent).any _ = true by
      decide +kernel)
  obtain ⟨hfds, hquiet⟩ := of_decide_eq_true hat
  exact ⟨s, hs, hfds, nothing_owed hs hquiet⟩

end Ownership
