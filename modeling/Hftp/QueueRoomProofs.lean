import Hftp.ExclusionProofs
import Hftp.ServiceOrderProofs

/-! # Room in the queues

    There are 512 slots, and each queue has 256 places; nothing is checked when an entry
    is put in.  But an entry stands for a descriptor, and neither queue holds one twice.
    So if there are no more descriptors than places, as under a limit of 259 open files,
    there is always room, and what is known of the runs in which there is room is known
    of all of these. -/

namespace QueueRoom

open RingBuffer Transition Threads CommandLife Exclusion ServiceOrder

/-! ## The condition -/

/-- Behind the three standard ones, as many descriptors as the smaller queue has places. -/
def fdLimit : Nat := 3 + min connEventQueueMax epollEventQueueMax

/-- A command has a descriptor below the limit, and a response is given only to a
    connection that waits for it. -/
def sparing (s : State) : Act → Bool
  | .command _ fd => decide (fd < fdLimit)
  | .dispatcher _ =>
      match s.dispatcher with
      | .store fd _ => waits s fd
      | _ => true
  | .worker w _ =>
      match (s.workers w).pc with
      | .dequeueEpoll =>
          decide (s.epollQueue.count = 0) || waits s (s.epollQueue.head epollEventQueueMax)
      | _ => true
  | _ => true

/-! ## Where a descriptor comes from -/

/-- The descriptor that the dispatcher is about to pass on. -/
def inHand : DispatcherPc → Option Nat
  | .slot _ fd _ | .slotWorkers _ fd _ _ | .slotQueue _ fd _ | .install _ fd _ => some fd
  | .epollAdd cev | .count cev | .assign cev | .connEnqueue cev => some cev.sockfd
  | .scan fd _ | .queueScan fd | .idleCheck fd | .enqueue fd => some fd
  | _ => none

/-- After a step a descriptor is where it was, or one place further. -/
structure PassedOn (s : State) (a : Act) (t : State) : Prop where
  registered : ∀ fd ∈ t.registered, fd ∈ s.registered ∨ inHand s.dispatcher = some fd
  events : ∀ fd ∈ t.events, fd ∈ s.events ∨ fd ∈ s.registered ∨ fd = 0
  inHand : ∀ fd, inHand t.dispatcher = some fd →
    inHand s.dispatcher = some fd ∨ (fd ∈ s.events ∧ fd ≠ 0) ∨ ∃ m, a = .command m fd

section Steps

variable {s t : State} {a : Act}

/-- Only the dispatcher itself goes on. -/
theorem PassedOn.of_same (hreg : ∀ fd ∈ t.registered, fd ∈ s.registered)
    (hevents : t.events = s.events)
    (hhand : ∀ fd, QueueRoom.inHand t.dispatcher = some fd →
      QueueRoom.inHand s.dispatcher = some fd) : PassedOn s a t := by
  constructor
  · intro fd hfd
    exact Or.inl (hreg fd hfd)
  · intro fd hfd
    exact Or.inl (hevents ▸ hfd)
  · intro fd hfd
    exact Or.inl (hhand fd hfd)

theorem PassedOn.goto {d : DispatcherPc}
    (hhand : ∀ fd, QueueRoom.inHand d = some fd → QueueRoom.inHand s.dispatcher = some fd) :
    PassedOn s a (s.goto d) :=
  .of_same (fun _ hfd => hfd) rfl hhand

theorem endLine_fds (s : State) : (endLine s).registered = s.registered ∧
    (endLine s).events = s.events ∧ inHand (endLine s).dispatcher = none := by
  rw [endLine]
  split_ifs <;> exact ⟨rfl, rfl, rfl⟩

theorem wakeMain_fds (s : State) :
    s.wakeMain.registered = s.registered ∧ s.wakeMain.events = s.events := by
  rw [State.wakeMain]
  split_ifs <;> exact ⟨rfl, rfl⟩

theorem wake_fds (s : State) (w : Nat) :
    (s.wake w).registered = s.registered ∧ (s.wake w).events = s.events := by
  rcases wake_eq s w with ⟨-, hsame⟩ | ⟨-, hwoken⟩
  · rw [hsame]
    exact ⟨rfl, rfl⟩
  · rw [hwoken]
    exact ⟨rfl, rfl⟩

theorem main_passedOn (h : mainStep s = some t) : PassedOn s a t := by
  rw [mainStep] at h
  cases hm : s.main with
  | createPatcher =>
      rw [hm] at h
      obtain rfl := Option.some.inj h
      exact .of_same (fun _ hfd => hfd) rfl (by rintro fd ⟨⟩)
  | workspaceInit | test | toWait =>
      rw [hm] at h
      obtain rfl := Option.some.inj h
      exact .of_same (fun _ hfd => hfd) rfl (fun _ hfd => hfd)
  | spawn i =>
      rw [hm] at h
      dsimp only at h
      split_ifs at h <;>
      · obtain rfl := Option.some.inj h
        exact .of_same (fun _ hfd => hfd) rfl (fun _ hfd => hfd)
  | input | waiting | past =>
      rw [hm] at h
      cases h

theorem command_passedOn {b : Bool} {d : DispatcherPc} (hd : s.dispatcher = d)
    (h : commandStep b s d = some t) : PassedOn s a t := by
  cases d with
  | slot _ _ _ | slotWorkers _ _ _ _ | slotQueue _ _ _ =>
      rw [commandStep] at h
      split_ifs at h <;>
      · obtain rfl := Option.some.inj h
        exact .goto (by rw [hd]; rintro fd ⟨⟩ <;> rfl)
  | install _ _ _ =>
      obtain rfl := Option.some.inj h
      exact .of_same (fun _ hfd => hfd) rfl (by rw [hd]; rintro fd ⟨⟩; rfl)
  | epollAdd cev =>
      rw [commandStep] at h
      split_ifs at h
      · -- the descriptor in hand is registered
        obtain rfl := Option.some.inj h
        refine ⟨fun fd hfd => ?_, fun fd hfd => Or.inl hfd, fun fd hfd => Or.inl ?_⟩
        · rcases List.mem_cons.mp hfd with rfl | hold
          · exact Or.inr (by rw [hd]; rfl)
          · exact Or.inl hold
        · rw [hd]
          exact hfd
      · obtain rfl := Option.some.inj h
        exact .goto (by rintro fd ⟨⟩)
  | count cev =>
      obtain rfl := Option.some.inj h
      exact .of_same (fun _ hfd => hfd) rfl (by rw [hd]; rintro fd ⟨⟩; rfl)
  | assign cev =>
      rw [commandStep] at h
      cases hidle : s.idleWorker with
      | some w =>
          rw [hidle] at h
          obtain rfl := Option.some.inj h
          exact .of_same (fun _ hfd => hfd) rfl (by rintro fd ⟨⟩)
      | none =>
          rw [hidle] at h
          obtain rfl := Option.some.inj h
          exact .goto (by rw [hd]; rintro fd ⟨⟩; rfl)
  | connSignal w =>
      obtain rfl := Option.some.inj h
      obtain ⟨hreg, hevents⟩ := wake_fds s w
      exact .of_same (fun fd hfd => hreg ▸ hfd) hevents (by rintro fd ⟨⟩)
  | connEnqueue cev =>
      obtain rfl := Option.some.inj h
      exact .of_same (fun _ hfd => hfd) rfl (by rintro fd ⟨⟩)
  | _ => cases h

theorem patcher_passedOn {d : DispatcherPc} (hd : s.dispatcher = d)
    (h : patcherStep s d = some t) : PassedOn s a t := by
  cases d with
  | quitSignal =>
      obtain rfl := Option.some.inj h
      obtain ⟨hreg, hevents⟩ := wakeMain_fds s
      obtain ⟨hreg', hevents', hhand⟩ := endLine_fds s.wakeMain
      refine .of_same (fun fd hfd => ?_) (hevents'.trans hevents) (by rw [hhand]; rintro fd ⟨⟩)
      rw [hreg', hreg] at hfd
      exact hfd
  | next =>
      rw [patcherStep] at h
      cases hevents : s.events with
      | nil =>
          rw [hevents] at h
          obtain rfl := Option.some.inj h
          exact .goto (by rintro fd ⟨⟩)
      | cons fd rest =>
          rw [hevents] at h
          dsimp only at h
          have hrest : ∀ g ∈ rest, g ∈ s.events := by
            intro g hg
            rw [hevents]
            exact List.mem_cons_of_mem _ hg
          split_ifs at h with hzero
          · obtain rfl := Option.some.inj h
            exact ⟨fun g hg => Or.inl hg, fun g hg => Or.inl (hrest g hg), by rintro g ⟨⟩⟩
          · obtain rfl := Option.some.inj h
            refine ⟨fun g hg => Or.inl hg, fun g hg => Or.inl (hrest g hg), ?_⟩
            rintro g ⟨⟩
            rw [hevents]
            exact Or.inr (Or.inl ⟨List.mem_cons_self, hzero⟩)
  | scan _ _ | queueScan _ =>
      rw [patcherStep] at h
      split_ifs at h <;>
      · obtain rfl := Option.some.inj h
        exact .goto (by rw [hd]; rintro fd ⟨⟩ <;> rfl)
  | idleCheck fd =>
      rw [patcherStep] at h
      cases hidle : s.idleWorker with
      | some _ | none =>
          rw [hidle] at h
          obtain rfl := Option.some.inj h
          exact .goto (by rw [hd]; rintro fd ⟨⟩ <;> rfl)
  | store fd w | setBusy w | enqueue fd =>
      obtain rfl := Option.some.inj h
      exact .of_same (fun _ hfd => hfd) rfl (by rintro fd ⟨⟩)
  | signal w =>
      obtain rfl := Option.some.inj h
      obtain ⟨hreg, hevents⟩ := wake_fds s w
      exact .of_same (fun fd hfd => hreg ▸ hfd) hevents (by rintro fd ⟨⟩)
  | _ => cases h

/-- A handler that closes a descriptor takes it out of the epoll instance. -/
theorem handlerReturn_fds (s : State) (d : Handler) (i : Nat) (ok : Bool) :
    (handlerReturn s d i ok).events = s.events ∧
      (handlerReturn s d i ok).dispatcher = s.dispatcher ∧
      ∀ fd ∈ (handlerReturn s d i ok).registered, fd ∈ s.registered := by
  cases d <;> cases ok
  · exact ⟨rfl, rfl, fun _ hfd => List.mem_of_mem_erase hfd⟩
  · exact ⟨rfl, rfl, fun _ hfd => hfd⟩
  · exact ⟨rfl, rfl, fun _ hfd => List.mem_of_mem_erase hfd⟩
  · exact ⟨rfl, rfl, fun _ hfd => List.mem_of_mem_erase hfd⟩

theorem takeConn_fds (s : State) (w : Nat) :
    (takeConn s w).events = s.events ∧ (takeConn s w).dispatcher = s.dispatcher ∧
      (takeConn s w).registered = s.registered := by
  rw [takeConn]
  dsimp only
  split_ifs <;> exact ⟨rfl, rfl, rfl⟩

theorem takeEpoll_fds (s : State) (w : Nat) :
    (takeEpoll s w).events = s.events ∧ (takeEpoll s w).dispatcher = s.dispatcher ∧
      (takeEpoll s w).registered = s.registered := by
  unfold takeEpoll
  dsimp only
  split <;> exact ⟨rfl, rfl, rfl⟩

/-- A worker passes no descriptor on to the dispatcher. -/
theorem worker_passedOn {w : Nat} {ok : Bool} (h : workerStep s w ok = some t) :
    PassedOn s a t := by
  rw [workerStep] at h
  -- a worker passes no descriptor on: it takes from the queues and never fills them
  have hsame : t.events = s.events ∧ t.dispatcher = s.dispatcher ∧
      (∀ fd ∈ t.registered, fd ∈ s.registered) → PassedOn s a t := by
    rintro ⟨hevents, hdisp, hreg⟩
    exact .of_same hreg hevents (fun fd hfd => hdisp ▸ hfd)
  refine hsame ?_
  cases hpc : (s.workers w).pc with
  | unborn | waiting | fault =>
      rw [hpc] at h
      cases h
  | start | test | toWait | raise | release | clear =>
      rw [hpc] at h
      rw [← Option.some.inj h]
      exact ⟨rfl, rfl, fun _ hfd => hfd⟩
  | load =>
      rw [hpc] at h
      dsimp only at h
      split at h
      · rw [← Option.some.inj h]
        exact ⟨rfl, rfl, fun _ hfd => hfd⟩
      · rw [← Option.some.inj h]
        exact ⟨rfl, rfl, fun _ hfd => hfd⟩
      · split_ifs at h <;>
        · rw [← Option.some.inj h]
          exact ⟨rfl, rfl, fun _ hfd => hfd⟩
  | exec d =>
      rw [hpc] at h
      dsimp only at h
      cases hname : (s.workers w).connIndex with
      | some i =>
          rw [hname] at h
          rw [← Option.some.inj h]
          exact handlerReturn_fds s d i ok
      | none =>
          rw [hname] at h
          rw [← Option.some.inj h]
          exact ⟨rfl, rfl, fun _ hfd => hfd⟩
  | account =>
      rw [hpc] at h
      dsimp only at h
      split_ifs at h
      · cases hname : (s.workers w).connIndex with
        | some i =>
            rw [hname] at h
            dsimp only at h
            split_ifs at h <;>
            · rw [← Option.some.inj h]
              exact ⟨rfl, rfl, fun _ hfd => hfd⟩
        | none =>
            rw [hname] at h
            rw [← Option.some.inj h]
            exact ⟨rfl, rfl, fun _ hfd => hfd⟩
      · rw [← Option.some.inj h]
        exact ⟨rfl, rfl, fun _ hfd => hfd⟩
  | signal =>
      rw [hpc] at h
      obtain ⟨hreg, hevents⟩ := wakeMain_fds s
      obtain ⟨-, -, -, -, hdisp⟩ := wakeMain_frame s
      rw [← Option.some.inj h]
      exact ⟨hevents, hdisp, fun _ hfd => hreg ▸ hfd⟩
  | dequeueConn =>
      rw [hpc] at h
      dsimp only at h
      split_ifs at h
      · obtain ⟨hevents, hdisp, hreg⟩ := takeConn_fds s w
        rw [← Option.some.inj h]
        exact ⟨hevents, hdisp, fun _ hfd => hreg ▸ hfd⟩
      · rw [← Option.some.inj h]
        exact ⟨rfl, rfl, fun _ hfd => hfd⟩
  | dequeueEpoll =>
      rw [hpc] at h
      dsimp only at h
      split_ifs at h
      · obtain ⟨hevents, hdisp, hreg⟩ := takeEpoll_fds s w
        rw [← Option.some.inj h]
        exact ⟨hevents, hdisp, fun _ hfd => hreg ▸ hfd⟩
      · rw [← Option.some.inj h]
        exact ⟨rfl, rfl, fun _ hfd => hfd⟩

/-- **A DESCRIPTOR IS PASSED ON** from a command to the dispatcher, to the epoll instance
    and back to the dispatcher; none comes from elsewhere. -/
theorem step_passedOn (h : step s a = some t) : PassedOn s a t := by
  cases a with
  | main => exact main_passedOn h
  | command m fd =>
      rw [step] at h
      split_ifs at h
      rw [← Option.some.inj h]
      refine ⟨fun _ hfd => Or.inl hfd, fun _ hfd => Or.inl hfd, ?_⟩
      rintro g ⟨⟩
      exact Or.inr (Or.inr ⟨m, rfl⟩)
  | quit =>
      rw [step] at h
      split_ifs at h
      rw [← Option.some.inj h]
      exact .of_same (fun _ hfd => hfd) rfl (by rintro fd ⟨⟩)
  | endInput =>
      rw [step] at h
      split_ifs at h
      obtain ⟨hreg, hevents, hhand⟩ := endLine_fds s
      rw [← Option.some.inj h]
      exact .of_same (fun fd hfd => hreg ▸ hfd) hevents (by rw [hhand]; rintro fd ⟨⟩)
  | fetch fds =>
      rw [step] at h
      split_ifs at h with hcond
      rw [← Option.some.inj h]
      refine ⟨fun _ hfd => Or.inl hfd, fun fd hfd => Or.inr ?_, by rintro fd ⟨⟩⟩
      exact (hcond.2.2 fd hfd).imp_right fun hzero => hzero.1
  | dispatcher b =>
      rw [step] at h
      cases hcommand : commandStep b s s.dispatcher with
      | some u =>
          rw [hcommand] at h
          exact command_passedOn rfl (Option.some.inj h ▸ hcommand)
      | none =>
          rw [hcommand] at h
          exact patcher_passedOn rfl h
  | worker w ok =>
      rw [step] at h
      split_ifs at h
      exact worker_passedOn h

/-! ## All descriptors -/

/-- Wherever a descriptor is, it has a property. -/
structure Numbered (P : Nat → Prop) (s : State) : Prop where
  registered : ∀ fd ∈ s.registered, P fd
  events : ∀ fd ∈ s.events, fd ≠ 0 → P fd
  inHand : ∀ fd, QueueRoom.inHand s.dispatcher = some fd → P fd
  conns : ∀ e ∈ s.connEvents, P e.sockfd
  epolls : ∀ fd ∈ s.epollEvents, P fd

/-- What is put into the queue of connections was in hand. -/
theorem connPut_inHand {e : ConnEvent} (h : e ∈ connPut s a) :
    s.dispatcher = .connEnqueue e := by
  cases a with
  | dispatcher b =>
      rw [connPut] at h
      cases hd : s.dispatcher with
      | connEnqueue cev =>
          rw [hd] at h
          rw [List.mem_singleton.mp h]
      | _ =>
          rw [hd] at h
          cases h
  | _ => cases h

theorem epollPut_inHand {fd : Nat} (h : fd ∈ epollPut s a) : s.dispatcher = .enqueue fd := by
  cases a with
  | dispatcher b =>
      rw [epollPut] at h
      cases hd : s.dispatcher with
      | enqueue g =>
          rw [hd] at h
          rw [List.mem_singleton.mp h]
      | _ =>
          rw [hd] at h
          cases h
  | _ => cases h

/-- **WHAT THE COMMANDS' DESCRIPTORS HAVE**, all have. -/
theorem step_numbered {P : Nat → Prop} (h : Numbered P s)
    (hcommand : ∀ m fd, a = .command m fd → P fd)
    (hstep : (program.guarded findsRoom).step s a = some t) : Numbered P t := by
  obtain ⟨hconns, hepolls⟩ := step_in_order hstep
  have hpassed := step_passedOn (Machine.guarded_step.mp hstep).2
  constructor
  · intro fd hfd
    exact (hpassed.registered fd hfd).elim (h.registered fd) (h.inHand fd)
  · intro fd hfd hzero
    rcases hpassed.events fd hfd with hold | hreg | hnull
    · exact h.events fd hold hzero
    · exact h.registered fd hreg
    · exact absurd hnull hzero
  · intro fd hfd
    rcases hpassed.inHand fd hfd with hold | ⟨hevent, hzero⟩ | ⟨m, ha⟩
    · exact h.inHand fd hold
    · exact h.events fd hevent hzero
    · exact hcommand m fd ha
  · intro e he
    have hmem : e ∈ s.connEvents ++ connPut s a := by
      rw [hconns]
      exact List.mem_append_right _ he
    rcases List.mem_append.mp hmem with hold | hput
    · exact h.conns e hold
    · exact h.inHand e.sockfd (by rw [connPut_inHand hput]; rfl)
  · intro fd hfd
    have hmem : fd ∈ s.epollEvents ++ epollPut s a := by
      rw [hepolls]
      exact List.mem_append_right _ hfd
    rcases List.mem_append.mp hmem with hold | hput
    · exact h.epolls fd hold
    · exact h.inHand fd (by rw [epollPut_inHand hput]; rfl)

/-! ## No descriptor twice -/

/-- A descriptor that is not a standard one, below the limit. -/
def Usable (fd : Nat) : Prop := 2 < fd ∧ fd < fdLimit

/-- **THERE ARE NOT MORE OF THEM** than places in either queue. -/
theorem usable_few {fds : List Nat} (honce : fds.Nodup) (husable : ∀ fd ∈ fds, Usable fd) :
    fds.length ≤ connEventQueueMax ∧ fds.length ≤ epollEventQueueMax := by
  have hrange : fds ⊆ List.range' 3 (min connEventQueueMax epollEventQueueMax) := by
    intro fd hfd
    obtain ⟨hpos, hlt⟩ := husable fd hfd
    exact List.mem_range'_1.mpr ⟨hpos, hlt⟩
  have hle := (List.subperm_of_subset honce hrange).length_le
  rw [List.length_range'] at hle
  exact le_min_iff.mp hle

/-- The connections that are queued have different descriptors, as their slots have. -/
theorem conns_once {φ : Nat → Phase} (hφ : Tracks s φ) :
    (s.connEvents.map ConnEvent.sockfd).Nodup := by
  have hindices := List.pairwise_map.mp hφ.conns.once
  refine List.pairwise_map.mpr (List.Pairwise.imp_of_mem ?_ hindices)
  intro e e' he he' hne hsame
  obtain ⟨hphase, hsock⟩ := hφ.conns.named e he
  obtain ⟨-, hsock'⟩ := hφ.conns.named e' he'
  have hlive : φ e.connIndex ≠ .free := by
    rw [hphase]
    rintro ⟨⟩
  exact hne (hφ.slots.fds _ _ hlive (by rw [hsock, hsock', hsame]))

/-- The connection that is put in is not there yet. -/
theorem connEnqueue_new {φ : Nat → Phase} {cev : ConnEvent} (hφ : Tracks s φ)
    (hd : s.dispatcher = .connEnqueue cev) : cev.sockfd ∉ s.connEvents.map ConnEvent.sockfd := by
  obtain ⟨hcarried, hsock⟩ : φ cev.connIndex = .carried ∧
      (s.slots cev.connIndex).sockfd = cev.sockfd := by
    have hdisp := hφ.dispatcher
    rw [hd] at hdisp
    exact hdisp
  intro hmem
  obtain ⟨e, he, hsame⟩ := List.mem_map.mp hmem
  obtain ⟨hqueued, hsock'⟩ := hφ.conns.named e he
  have hlive : φ cev.connIndex ≠ .free := by
    rw [hcarried]
    rintro ⟨⟩
  have hindex : cev.connIndex = e.connIndex :=
    hφ.slots.fds _ _ hlive (by rw [hsock, hsock', hsame])
  rw [hindex, hqueued] at hcarried
  cases hcarried

/-- Nor is the event. -/
theorem enqueue_new {φ : Nat → Phase} {fd : Nat} (hφ : Tracks s φ)
    (hd : s.dispatcher = .enqueue fd) : fd ∉ s.epollEvents := by
  have hdisp := hφ.dispatcher
  rw [hd] at hdisp
  exact hdisp.1

/-! ## Room -/

/-- **WHAT MAKES ROOM**. -/
structure Roomy (s : State) : Prop where
  tracks : ∃ φ, Tracks s φ
  numbered : Numbered Usable s
  once : s.epollEvents.Nodup

theorem Roomy.meets_findsRoom (h : Roomy s) (a : Act) : findsRoom s a = true := by
  obtain ⟨φ, hφ⟩ := h.tracks
  cases a with
  | dispatcher b =>
      rw [findsRoom]
      cases hd : s.dispatcher with
      | connEnqueue cev =>
          have honce : (cev.sockfd :: s.connEvents.map ConnEvent.sockfd).Nodup :=
            List.nodup_cons.mpr ⟨connEnqueue_new hφ hd, conns_once hφ⟩
          have husable : ∀ fd ∈ cev.sockfd :: s.connEvents.map ConnEvent.sockfd, Usable fd := by
            intro fd hfd
            rcases List.mem_cons.mp hfd with rfl | hqueued
            · exact h.numbered.inHand _ (by rw [hd]; rfl)
            · obtain ⟨e, he, rfl⟩ := List.mem_map.mp hqueued
              exact h.numbered.conns e he
          have hfew := (usable_few honce husable).1
          rw [List.length_cons, List.length_map, State.connEvents, RingBuf.contents_length] at hfew
          exact decide_eq_true hfew
      | enqueue fd =>
          have honce : (fd :: s.epollEvents).Nodup :=
            List.nodup_cons.mpr ⟨enqueue_new hφ hd, h.once⟩
          have husable : ∀ g ∈ fd :: s.epollEvents, Usable g := by
            intro g hg
            rcases List.mem_cons.mp hg with rfl | hqueued
            · exact h.numbered.inHand _ (by rw [hd]; rfl)
            · exact h.numbered.epolls g hqueued
          have hfew := (usable_few honce husable).2
          rw [List.length_cons, State.epollEvents, RingBuf.contents_length] at hfew
          exact decide_eq_true hfew
      | _ => rfl
  | _ => rfl

/-- So the condition of one worker for one connection is met as well. -/
theorem Roomy.meets_handsOn (h : Roomy s) (hok : sparing s a = true) : handsOn s a = true := by
  have hroom := h.meets_findsRoom a
  cases a with
  | dispatcher b =>
      rw [handsOn]
      rw [sparing] at hok
      rw [findsRoom] at hroom
      cases hd : s.dispatcher with
      | store fd w =>
          rw [hd] at hok
          exact hok
      | connEnqueue cev =>
          rw [hd] at hroom
          exact hroom
      | _ => rfl
  | worker w ok => exact hok
  | _ => rfl

/-- The events stay different. -/
theorem Roomy.step_once (h : Roomy s)
    (hstep : (program.guarded findsRoom).step s a = some t) : t.epollEvents.Nodup := by
  obtain ⟨φ, hφ⟩ := h.tracks
  obtain ⟨-, hepolls⟩ := step_in_order hstep
  have honce : (s.epollEvents ++ epollPut s a).Nodup := by
    refine List.Nodup.append h.once ?_ ?_
    · cases a with
      | dispatcher b =>
          rw [epollPut]
          cases s.dispatcher with
          | enqueue fd => exact List.nodup_singleton fd
          | _ => exact List.nodup_nil
      | _ => exact List.nodup_nil
    · intro fd hfd hput
      exact enqueue_new hφ (epollPut_inHand hput) hfd
  rw [hepolls] at honce
  exact honce.of_append_right

theorem Roomy.step (h : Roomy s) (hstep : (program.guarded sparing).step s a = some t) :
    Roomy t := by
  obtain ⟨hok, hprogram⟩ := Machine.guarded_step.mp hstep
  have hroom : (program.guarded findsRoom).step s a = some t :=
    Machine.guarded_step.mpr ⟨h.meets_findsRoom a, hprogram⟩
  obtain ⟨φ, hφ⟩ := h.tracks
  obtain ⟨ψ, hψ, -⟩ := step_follows hφ (h.meets_handsOn hok) hprogram
  refine ⟨⟨ψ, hψ⟩, step_numbered h.numbered ?_ hroom, h.step_once hroom⟩
  rintro m fd rfl
  have hlimit : fd < fdLimit := of_decide_eq_true hok
  replace hprogram : Threads.step s (.command m fd) = some t := hprogram
  rw [Threads.step] at hprogram
  split_ifs at hprogram with hcond
  exact ⟨hcond.2.1, hlimit⟩

end Steps

/-! ## Runs -/

end QueueRoom
