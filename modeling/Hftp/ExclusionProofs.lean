import Hftp.CommandLifeProofs
import Hftp.QueueProofs

/-! # One worker for one connection

    That a connection is handled by one worker at a time, and that its request
    comes before its response, holds as long as a response is given only to a
    connection whose request has been answered and whose response nobody has yet,
    and as long as the queue of connections does not overflow.  Nothing in the
    program sees to either: `http_response` is chosen by the queue an event comes
    from, and not by the state of the connection. -/

namespace Exclusion

open HttpCore RingBuffer Transition Threads CommandLife

/-! ## The condition -/

/-- The connection with the descriptor, if there is one, waits for its response. -/
def waits (s : State) (fd : Nat) : Bool := (s.lookup fd).all fun i => (s.slots i).state = 1

/-- A response is given to such a connection only, and a connection is queued
    where there is room. -/
def handsOn (s : State) : Act → Bool
  | .dispatcher _ =>
      match s.dispatcher with
      | .store fd _ => waits s fd
      | .connEnqueue _ => decide (s.connQueue.count < connEventQueueMax)
      | _ => true
  | .worker w _ =>
      match (s.workers w).pc with
      | .dequeueEpoll =>
          decide (s.epollQueue.count = 0) || waits s (s.epollQueue.head epollEventQueueMax)
      | _ => true
  | _ => true

/-! ## Steps -/

/-- The commands go on to where they are in the state. -/
def Follows (φ : Nat → Phase) (t : State) : Prop :=
  ∃ ψ, Tracks t ψ ∧ Relation.ReflTransGen Move φ ψ

section Steps

variable {s t : State} {φ : Nat → Phase}

theorem Follows.still (h : Tracks t φ) : Follows φ t := ⟨φ, h, .refl⟩

theorem Follows.move {i : Nat} {p : Phase} (hnext : Next (φ i) p)
    (h : Tracks t (Function.update φ i p)) : Follows φ t :=
  ⟨_, h, .single ⟨i, p, hnext, rfl⟩⟩

/-! ### The main thread -/

theorem mainStep_follows (h : Tracks s φ) (hstep : mainStep s = some t) : Follows φ t := by
  refine Follows.still ?_
  have hstill : ∀ v, s.dispatcher = .setBusy v →
      s.dispatcher = .setBusy v ∨ (s.workers v).pc = .unborn := fun v hv => Or.inl hv
  rw [mainStep] at hstep
  cases hm : s.main with
  | createPatcher =>
      rw [hm] at hstep
      obtain rfl := Option.some.inj hstep
      have hzero : spawned s.main = 0 := by rw [hm]; rfl
      -- no worker is born when the dispatcher is set going
      have q : Quiet s { s with main := .workspaceInit, dispatcher := .wait } :=
        ⟨rfl, rfl, rfl, fun _ hg => hg, Nat.le_refl _, by rw [hzero]; exact Nat.zero_le _⟩
      refine h.quiet q rfl (Or.inl rfl) (Nat.zero_le _) (fun v _ => Or.inr ?_) trivial
      exact (h.worker v).unborn (by rw [hzero]; exact Nat.zero_le v)
  | workspaceInit =>
      rw [hm] at hstep
      obtain rfl := Option.some.inj hstep
      have q : Quiet s { s with main := .spawn 0, workspaceCount := defaultWorkerCount } := by
        refine ⟨rfl, rfl, rfl, fun _ hg => hg, ?_, by rw [hm]; exact Nat.zero_le _⟩
        rcases h.workspace with hzero | hcount
        · rw [hzero]
          exact Nat.zero_le _
        · rw [hcount]
      refine h.quiet q rfl (Or.inr rfl) (Nat.zero_le _) hstill ?_
      exact q.dispatcherOk h.dispatcher fun v hv => hv
  | spawn i =>
      rw [hm] at hstep
      dsimp only at hstep
      split_ifs at hstep with hlt
      · obtain rfl := Option.some.inj hstep
        have hcount : i + 1 ≤ defaultWorkerCount := by
          rcases h.workspace with hzero | hcount
          · rw [hzero] at hlt
            exact absurd hlt (Nat.not_lt_zero i)
          · rw [hcount] at hlt
            exact hlt
        -- the one worker touched is the one being born, which holds nothing
        have q : Quiet s { s.workerGoto i .start with main := .spawn (i + 1) } :=
          ⟨rfl, rfl, rfl, fun _ hg => hg, Nat.le_refl _, by rw [hm]; exact Nat.le_succ i⟩
        have hi : ({ s.workerGoto i .start with main := .spawn (i + 1) } : State).workers i =
            { s.workers i with pc := .start } := Function.update_self _ _ _
        refine h.workerStep q (fun v hv => Function.update_of_ne hv _ _) ?_ ?_ rfl hcount rfl
        · have hunborn := (h.worker i).unborn (by rw [hm]; exact Nat.le_refl i)
          refine workerOk_early (Or.inr (by rw [hi])) ?_ (fun j hj => ?_)
            (fun hle => absurd hle (Nat.not_succ_le_self i))
          · rw [hi]
            exact (h.worker i).auto (by rw [hunborn]; rfl)
          · have hclaim := ((h.worker i).held j hj).2.2
            rw [claim, hunborn] at hclaim
            cases hclaim
        · rw [hi]
          exact fun hidle => hidle
      · obtain rfl := Option.some.inj hstep
        have hborn := h.born
        rw [hm] at hborn
        exact h.quiet ⟨rfl, rfl, rfl, fun _ hg => hg, Nat.le_refl _, by rw [hm]; exact hborn⟩ rfl
          (Or.inl rfl) (Nat.le_refl _) hstill h.dispatcher
  | test =>
      rw [hm] at hstep
      obtain rfl := Option.some.inj hstep
      have hborn : spawned (if s.continueInput = true then .past else .toWait) =
          defaultWorkerCount := by
        split_ifs <;> rfl
      exact h.quiet ⟨rfl, rfl, rfl, fun _ hg => hg, Nat.le_refl _, by rw [hm, hborn]; exact Nat.le_refl _⟩ rfl
        (Or.inl rfl) (Nat.le_of_eq hborn) hstill h.dispatcher
  | toWait =>
      rw [hm] at hstep
      obtain rfl := Option.some.inj hstep
      exact h.quiet ⟨rfl, rfl, rfl, fun _ hg => hg, Nat.le_refl _, by rw [hm]; exact Nat.le_refl _⟩ rfl
          (Or.inl rfl) (Nat.le_refl _) hstill h.dispatcher
  | input | waiting | past =>
      rw [hm] at hstep
      cases hstep

/-! ### The dispatcher, with a command -/

/-- A step of the dispatcher that only it takes note of. -/
theorem goto_tracks (h : Tracks s φ) {d : DispatcherPc} (hne : ∀ v, s.dispatcher ≠ .setBusy v)
    (hdisp : DispatcherOk s φ d) :
    Tracks (s.goto d) φ := by
  have q : Quiet s (s.goto d) := ⟨rfl, rfl, rfl, fun _ hg => hg, Nat.le_refl _, Nat.le_refl _⟩
  refine h.quiet q rfl (Or.inl rfl) h.born (fun v hv => absurd hv (hne v)) ?_
  exact q.dispatcherOk hdisp fun v hv => hv

/-- A command is put into a free slot. -/
theorem install_follows (h : Tracks s φ) {m : Method} {fd i : Nat}
    (hd : s.dispatcher = .install m fd i) :
    Follows φ ((installSlot s m fd i).goto (.epollAdd { sockfd := fd, connIndex := i })) := by
  have hdisp := h.dispatcher
  rw [hd] at hdisp
  obtain ⟨⟨hpos, hopen, hfresh⟩, hbound, hfree⟩ := hdisp
  obtain ⟨t, ht⟩ : ∃ t, t = (installSlot s m fd i).goto
    (.epollAdd { sockfd := fd, connIndex := i }) := ⟨_, rfl⟩
  rw [← ht]
  have hslot : t.slots i =
      { s.slots i with state := 0, sockfd := fd, method := m, served := Served.none } := by
    rw [ht]
    exact Function.update_self _ _ _
  have touch : Touches s t i :=
    ⟨fun j hj => by rw [ht]; exact Function.update_of_ne hj _ _, by rw [ht]; rfl, by rw [ht]; rfl⟩
  refine Follows.move (i := i) (p := .carried) (hfree ▸ .install) ?_
  -- the kernel hands out a descriptor no open connection has, and free slots hold none
  have hnew : ∀ j, j ≠ i → (t.slots j).sockfd ≠ (t.slots i).sockfd := by
    intro j hj
    rw [touch.others j hj, hslot]
    by_cases hlive : φ j = .free
    · rw [(h.free_iff j).mp hlive]
      exact fun heq => Nat.not_lt_zero 2 (heq ▸ hpos)
    · exact hfresh j hlive
  constructor
  · constructor
    · intro j
      by_cases hj : j = i
      · rw [hj, Function.update_self, hslot]
        exact ⟨hpos, rfl, rfl⟩
      · rw [Function.update_of_ne hj, touch.others j hj]
        exact h.slots.slot j
    · intro j hlive
      by_cases hj : j = i
      · rw [hj]
        exact hbound
      · rw [Function.update_of_ne hj] at hlive
        exact h.slots.bound j hlive
    -- two slots with one descriptor: neither is the installed one
    · intro j k hlive heq
      by_cases hj : j = i
      · by_contra hk
        rw [hj] at heq
        exact hnew k (fun hki => hk (by rw [hj, hki])) heq.symm
      · by_cases hk : k = i
        · rw [hk] at heq
          exact absurd heq (hnew j hj)
        · rw [Function.update_of_ne hj] at hlive
          rw [touch.others j hj, touch.others k hk] at heq
          exact h.slots.fds j k hlive heq
    · intro j hlive
      by_cases hj : j = i
      · rw [hj, hslot, ht]
        exact hopen
      · rw [Function.update_of_ne hj] at hlive
        rw [touch.others j hj, ht]
        exact h.slots.opened j hlive
  · intro v
    refine (h.worker v).other touch (by rw [ht]; rfl) (by rw [hfree]; rintro ⟨⟩) (by rintro ⟨⟩) ?_
    intro hv
    rw [hd] at hv
    cases hv
  · exact h.conns.other touch (by rw [ht]; rfl) (by rw [hfree]; rintro ⟨⟩)
  -- an event names slots of state 1, and the installed slot is in state 0
  · intro g hg j hlive hfd hone
    by_cases hj : j = i
    · rw [hj, hslot] at hone
      exact absurd hone (show ¬ (0 : Int) = 1 by decide)
    · rw [Function.update_of_ne hj] at hlive ⊢
      rw [touch.others j hj] at hfd hone
      exact h.epolls g (by rw [ht] at hg; exact hg) j hlive hfd hone
  · rw [ht]
    refine ⟨Function.update_self _ _ _, ?_⟩
    rw [← ht, hslot]
  · rw [ht]; exact h.workspace
  · rw [ht]; exact h.born

/-- A command moves. -/
theorem move_follows (h : Tracks s φ) {i : Nat} {p : Phase} (hnext : Next (φ i) p)
    (m : Moves s t φ i p) (hworkers : ∀ v, WorkerOk t (Function.update φ i p) v)
    (hconns : ConnsOk t (Function.update φ i p))
    (hepolls : ∀ fd ∈ t.epollEvents, Among t (Function.update φ i p) fd fun r => r = .answered)
    (hdisp : DispatcherOk t (Function.update φ i p) t.dispatcher) :
    Follows φ t := by
  refine Follows.move hnext ?_
  constructor
  · exact h.slots.move m
  · exact hworkers
  · exact hconns
  · exact hepolls
  · exact hdisp
  · rw [m.count]; exact h.workspace
  · rw [m.main]; exact h.born

/-- `epoll_ctl` fails, and the dispatcher goes on. -/
theorem forget_follows (h : Tracks s φ) {cev : ConnEvent} (hd : s.dispatcher = .epollAdd cev) :
    Follows φ (s.goto .input) := by
  have hdisp := h.dispatcher
  rw [hd] at hdisp
  obtain ⟨hcarried, -⟩ := hdisp
  have hslot := h.slots.slot cev.connIndex
  rw [hcarried] at hslot
  have m : Moves s (s.goto .input) φ cev.connIndex .lost :=
    { others := fun _ _ => rfl, count := rfl, main := rfl, was := by rw [hcarried]; rintro ⟨⟩,
      slot := hslot, sockfd := Or.inr rfl, openFds := Or.inl rfl }
  refine move_follows h (hcarried ▸ .forget) m (fun v => ?_) ?_ ?_ trivial
  · refine (h.worker v).other m.toTouches rfl (by rw [hcarried]; rintro ⟨⟩) (by rintro ⟨⟩) ?_
    intro hv
    rw [hd] at hv
    cases hv
  · exact h.conns.other m.toTouches rfl (by rw [hcarried]; rintro ⟨⟩)
  · refine fun fd hfd => (h.epolls fd hfd).move_answered m (fun hone => ?_)
    rw [show ((s.goto .input).slots cev.connIndex).state = 0 from hslot.2.1] at hone
    exact absurd hone (by decide)

/-- The dispatcher gives a command to a worker. -/
theorem hand_follows (h : Tracks s φ) {i w : Nat} {p : Phase} (hnext : Next (φ i) p)
    (m : Moves s t φ i p) (hv : ∀ v, v ≠ w → t.workers v = s.workers v)
    (hwas : (φ i).holder = none ∧ φ i ≠ .connQueued) (hp : ∀ v, v ≠ w → p.holder ≠ some v)
    (hne : ∀ v, s.dispatcher ≠ .setBusy v) (hw : WorkerOk t (Function.update φ i p) w)
    (hconn : t.connEvents = s.connEvents)
    (hepolls : ∀ fd ∈ t.epollEvents, Among t (Function.update φ i p) fd fun r => r = .answered)
    (hdisp : DispatcherOk t (Function.update φ i p) t.dispatcher) :
    Follows φ t := by
  refine move_follows h hnext m (fun v => ?_) (h.conns.other m.toTouches hconn hwas.2) hepolls hdisp
  by_cases hvw : v = w
  · rw [hvw]
    exact hw
  · exact (h.worker v).other m.toTouches (hv v hvw) (by rw [hwas.1]; rintro ⟨⟩) (hp v hvw)
      (fun hd => absurd hd (hne v))

/-- A command goes to an idle worker. -/
theorem assign_follows (h : Tracks s φ) {cev : ConnEvent} {w : Nat}
    (hd : s.dispatcher = .assign cev) (hidle : s.idleWorker = some w) :
    Follows φ ((assignRequest s cev w).goto (.connSignal w)) := by
  have hdisp := h.dispatcher
  rw [hd] at hdisp
  obtain ⟨hcarried, -⟩ := hdisp
  obtain ⟨hbusy, hlt⟩ := idleWorker_idle hidle
  have hslot := h.slots.slot cev.connIndex
  rw [hcarried] at hslot
  have hne : ∀ v, s.dispatcher ≠ .setBusy v := by
    intro v
    rw [hd]
    rintro ⟨⟩
  have hnobody := h.idle_free hbusy (hne w)
  have hw := h.worker w
  have hauto := hw.auto (hw.idle hbusy)
  obtain ⟨t, ht⟩ : ∃ t, t = (assignRequest s cev w).goto (.connSignal w) := ⟨_, rfl⟩
  rw [← ht]
  have hnew : t.slots cev.connIndex = { s.slots cev.connIndex with param := some w } := by
    rw [ht]
    exact Function.update_self _ _ _
  have hwork : t.workers w = { s.workers w with
      process := some .httpRequest, connIndex := some cev.connIndex, busy := true } := by
    rw [ht]
    exact Function.update_self _ _ _
  have hmain : t.main = s.main := by rw [ht]; rfl
  have hgive : ∀ p, Next (φ cev.connIndex) p → SlotIs (t.slots cev.connIndex) p →
      (∀ v, v ≠ w → p.holder ≠ some v) → WorkerOk t (Function.update φ cev.connIndex p) w →
      Follows φ t := by
    intro p hnext hp hholder hwt
    have m : Moves s t φ cev.connIndex p :=
      { others := fun j hj => by rw [ht]; exact Function.update_of_ne hj _ _,
        count := by rw [ht]; rfl, main := hmain, was := by rw [hcarried]; rintro ⟨⟩,
        slot := hp, sockfd := Or.inr (by rw [hnew]), openFds := Or.inl (by rw [ht]; rfl) }
    refine hand_follows h hnext m (fun v hv => by rw [ht]; exact Function.update_of_ne hv _ _)
      (by rw [hcarried]; exact ⟨rfl, by rintro ⟨⟩⟩) hholder hne hwt (by rw [ht]; rfl) ?_
      (by rw [ht]; exact trivial)
    intro fd hfd
    refine (h.epolls fd (by rw [ht] at hfd; exact hfd)).move_answered m (fun hone => ?_)
    rw [hnew, show (s.slots cev.connIndex).state = 0 from hslot.2.1] at hone
    exact absurd hone (by decide)
  -- a worker that has not come to its loop forgets the command there
  by_cases hpc : (s.workers w).pc = .unborn ∨ (s.workers w).pc = .start
  · refine hgive .lost (hcarried ▸ .forget) (by rw [hnew]; exact hslot) (fun _ _ => by rintro ⟨⟩) ?_
    refine workerOk_early (by rw [hwork]; exact hpc) (by rw [hwork]; exact hauto) (fun j => ?_)
      (by rw [hwork, hmain]; exact hw.unborn)
    by_cases hj : j = cev.connIndex
    · rw [hj, Function.update_self]
      rintro ⟨⟩
    · rw [Function.update_of_ne hj]
      exact hnobody j
  · have hdoze := resting_early (hw.idle hbusy) hpc
    have hreserved : (t.workers w).auto = .reserved := by
      rw [hwork]
      exact hauto
    refine hgive (.reqPending w) (hcarried ▸ .assign w) (by rw [hnew]; exact hslot)
      (fun v hv heq => hv (Option.some.inj heq).symm) ?_
    refine workerOk_claiming (i := cev.connIndex) (p := .reqPending w) (by rw [hwork])
      (claim_given (by rw [hwork]; exact hdoze) hreserved (by rw [hwork]))
      (Function.update_self _ _ _) (fun j hj => ?_) ?_ ?_ ?_ (fun _ => hreserved) ?_ ?_
    · by_contra hne
      rw [Function.update_of_ne hne] at hj
      exact hnobody j hj
    · rw [ht]
      exact hlt
    · rw [hmain]
      exact fun hle => hpc (Or.inl (hw.unborn hle))
    · rw [hwork]
      rintro ⟨⟩
    · rw [hreserved]
      rintro _ ⟨⟩
    · rw [hreserved]
      rintro _ ⟨⟩

/-- A command goes into the queue of connections. -/
theorem connEnqueue_follows (h : Tracks s φ) {cev : ConnEvent} (hd : s.dispatcher = .connEnqueue cev)
    (hroom : s.connQueue.count < connEventQueueMax) :
    Follows φ ({ s with connQueue := s.connQueue.enqueue connEventQueueMax cev }.goto .input) := by
  have hdisp := h.dispatcher
  rw [hd] at hdisp
  obtain ⟨hcarried, hfd⟩ := hdisp
  have hslot := h.slots.slot cev.connIndex
  rw [hcarried] at hslot
  obtain ⟨t, ht⟩ : ∃ t, t =
    { s with connQueue := s.connQueue.enqueue connEventQueueMax cev }.goto .input := ⟨_, rfl⟩
  rw [← ht]
  have hslots : t.slots = s.slots := by rw [ht]; rfl
  have m : Moves s t φ cev.connIndex .connQueued :=
    { others := fun _ _ => by rw [hslots], count := by rw [ht]; rfl, main := by rw [ht]; rfl,
      was := by rw [hcarried]; rintro ⟨⟩, slot := by rw [hslots]; exact hslot,
      sockfd := Or.inr (by rw [hslots]), openFds := Or.inl (by rw [ht]; rfl) }
  refine move_follows h (hcarried ▸ .queue) m (fun v => ?_) ?_ ?_ (by rw [ht]; exact trivial)
  · refine (h.worker v).other m.toTouches (by rw [ht]; rfl) (by rw [hcarried]; rintro ⟨⟩)
      (by rintro ⟨⟩) ?_
    intro hv
    rw [hd] at hv
    cases hv
  · refine h.conns.put m.toTouches ?_ (by rw [hslots]; exact hfd) (by rw [hcarried]; rintro ⟨⟩)
    rw [ht]
    exact RingBuf.contents_enqueue cev hroom
  · intro fd hmem
    refine (h.epolls fd (by rw [ht] at hmem; exact hmem)).move_answered m (fun hone => ?_)
    rw [hslots, show (s.slots cev.connIndex).state = 0 from hslot.2.1] at hone
    exact absurd hone (by decide)

/-- The dispatcher wakes a worker. -/
theorem wake_tracks (h : Tracks s φ) (w : Nat) : Tracks (s.wake w) φ := by
  rw [State.wake]
  split_ifs with hpc
  · have ht : (s.workerGoto w .test).workers w = { s.workers w with pc := .test } :=
      Function.update_self _ _ _
    have q : Quiet s (s.workerGoto w .test) := ⟨rfl, rfl, rfl, fun _ hg => hg, Nat.le_refl _, Nat.le_refl _⟩
    refine h.workerStep q (fun v hv => Function.update_of_ne hv _ _) ?_ ?_ rfl h.born rfl
    · exact (h.worker w).doze (by rw [hpc]; rfl) (Or.inl rfl) ht q rfl rfl
    · rw [ht]
      exact fun hb => hb
  · exact h

theorem wake_dispatcher (s : State) (w : Nat) : (s.wake w).dispatcher = s.dispatcher := by
  rw [State.wake]
  split_ifs <;> rfl

theorem commandStep_follows {b : Bool} {d : DispatcherPc} (h : Tracks s φ) (hd : s.dispatcher = d)
    (hok : handsOn s (.dispatcher b) = true) (hstep : commandStep b s d = some t) :
    Follows φ t := by
  have hdisp := h.dispatcher
  rw [hd] at hdisp
  have hne : setting d = false → ∀ v, s.dispatcher ≠ .setBusy v := by
    rw [hd]
    exact not_setting
  cases d with
  | slot m fd i =>
      rw [commandStep] at hstep
      split_ifs at hstep with hi htaken
      · obtain rfl := Option.some.inj hstep
        exact Follows.still (goto_tracks h (hne rfl) hdisp)
      · obtain rfl := Option.some.inj hstep
        have hfree := (h.free_iff i).mpr (not_not.mp htaken)
        exact Follows.still (goto_tracks h (hne rfl) ⟨hdisp, hi, hfree⟩)
      · obtain rfl := Option.some.inj hstep
        exact Follows.still (goto_tracks h (hne rfl) trivial)
  | slotWorkers m fd i j =>
      rw [commandStep] at hstep
      split_ifs at hstep
      · obtain rfl := Option.some.inj hstep
        exact Follows.still (goto_tracks h (hne rfl) hdisp.1)
      · obtain rfl := Option.some.inj hstep
        exact Follows.still (goto_tracks h (hne rfl) hdisp)
      · obtain rfl := Option.some.inj hstep
        exact Follows.still (goto_tracks h (hne rfl) hdisp)
  | slotQueue m fd i =>
      rw [commandStep] at hstep
      split_ifs at hstep
      · obtain rfl := Option.some.inj hstep
        exact Follows.still (goto_tracks h (hne rfl) hdisp.1)
      · obtain rfl := Option.some.inj hstep
        exact Follows.still (goto_tracks h (hne rfl) hdisp)
  | install m fd i =>
      obtain rfl := Option.some.inj hstep
      exact install_follows h hd
  | epollAdd cev =>
      rw [commandStep] at hstep
      split_ifs at hstep
      · obtain rfl := Option.some.inj hstep
        exact Follows.still (h.quiet ⟨rfl, rfl, rfl, fun _ hg => hg, Nat.le_refl _, Nat.le_refl _⟩ rfl
          (Or.inl rfl) h.born (fun v hv => absurd hv (hne rfl v)) hdisp)
      · obtain rfl := Option.some.inj hstep
        exact forget_follows h hd
  | count cev =>
      obtain rfl := Option.some.inj hstep
      exact Follows.still (h.quiet ⟨rfl, rfl, rfl, fun _ hg => hg, Nat.le_refl _, Nat.le_refl _⟩ rfl
        (Or.inl rfl) h.born (fun v hv => absurd hv (hne rfl v)) hdisp)
  | assign cev =>
      rw [commandStep] at hstep
      cases hidle : s.idleWorker with
      | some w =>
          rw [hidle] at hstep
          obtain rfl := Option.some.inj hstep
          exact assign_follows h hd hidle
      | none =>
          rw [hidle] at hstep
          obtain rfl := Option.some.inj hstep
          exact Follows.still (goto_tracks h (hne rfl) hdisp)
  | connSignal w =>
      obtain rfl := Option.some.inj hstep
      exact Follows.still (goto_tracks (wake_tracks h w)
        (by rw [wake_dispatcher]; exact hne rfl) trivial)
  | connEnqueue cev =>
      obtain rfl := Option.some.inj hstep
      rw [handsOn, hd] at hok
      exact connEnqueue_follows h hd (of_decide_eq_true hok)
  | _ => cases hstep

/-! ### The dispatcher, with an event -/

theorem wakeMain_tracks (h : Tracks s φ) : Tracks s.wakeMain φ := by
  rw [State.wakeMain]
  split_ifs with hm
  · refine h.quiet ⟨rfl, rfl, rfl, fun _ hg => hg, Nat.le_refl _, by rw [hm]; exact Nat.le_refl _⟩ rfl
      (Or.inl rfl) (Nat.le_refl _) (fun v hv => Or.inl hv) h.dispatcher
  · exact h

theorem wakeMain_dispatcher (s : State) : s.wakeMain.dispatcher = s.dispatcher := by
  rw [State.wakeMain]
  split_ifs <;> rfl

theorem endLine_tracks (h : Tracks s φ) (hne : ∀ v, s.dispatcher ≠ .setBusy v) :
    Tracks (endLine s) φ := by
  rw [endLine]
  split_ifs with hm
  · exact h.quiet ⟨rfl, rfl, rfl, fun _ hg => hg, Nat.le_refl _, by rw [hm]; exact Nat.le_refl _⟩ rfl
      (Or.inl rfl) (Nat.zero_le _) (fun v hv => absurd hv (hne v)) trivial
  · exact goto_tracks h hne trivial

/-- A worker that has a command names its connection. -/
theorem held_named (h : Tracks s φ) {i w fd : Nat} (hheld : (φ i).holder = some w)
    (hfd : (s.slots i).sockfd = fd) :
    ((s.workers w).connIndex.any fun k => (s.slots k).sockfd = fd) = true := by
  rw [((h.worker w).held i hheld).2.1]
  exact decide_eq_true hfd

/-- An answered request is handed to a worker for its response. -/
theorem store_follows (h : Tracks s φ) {fd w : Nat} (hd : s.dispatcher = .store fd w)
    (hwaits : waits s fd = true) :
    Follows φ ((s.setWorker w { s.workers w with
      process := some .httpResponse,
      connIndex := (s.lookup fd).or (s.workers w).connIndex }).goto (.setBusy w)) := by
  have hdisp := h.dispatcher
  rw [hd] at hdisp
  obtain ⟨⟨hnot, hall⟩, hbusy, hlt⟩ := hdisp
  have hne : ∀ v, s.dispatcher ≠ .setBusy v := by
    intro v
    rw [hd]
    rintro ⟨⟩
  have hnobody := h.idle_free hbusy (hne w)
  have hw := h.worker w
  have hauto := hw.auto (hw.idle hbusy)
  obtain ⟨t, ht⟩ : ∃ t, t = (s.setWorker w { s.workers w with
    process := some .httpResponse,
    connIndex := (s.lookup fd).or (s.workers w).connIndex }).goto (.setBusy w) := ⟨_, rfl⟩
  rw [← ht]
  have hwork : t.workers w = { s.workers w with
      process := some .httpResponse, connIndex := (s.lookup fd).or (s.workers w).connIndex } := by
    rw [ht]
    exact Function.update_self _ _ _
  have hother : ∀ v, v ≠ w → t.workers v = s.workers v := by
    intro v hv
    rw [ht]
    exact Function.update_of_ne hv _ _
  have hslots : t.slots = s.slots := by rw [ht]; rfl
  have hmain : t.main = s.main := by rw [ht]; rfl
  have hidle : (t.workers w).busy = false := by rw [hwork]; exact hbusy
  have hreserved : (t.workers w).auto = .reserved := by rw [hwork]; exact hauto
  have hborn : spawned t.main ≤ w → (t.workers w).pc = .unborn := by
    rw [hwork, hmain]
    exact hw.unborn
  have hdisp' : ∀ ψ, DispatcherOk t ψ t.dispatcher := by
    intro ψ
    rw [show t.dispatcher = .setBusy w by rw [ht]; rfl]
    exact hidle
  have q : Quiet s t := by
    rw [ht]
    exact ⟨rfl, rfl, rfl, fun _ hg => hg, Nat.le_refl _, Nat.le_refl _⟩
  have hstill : WorkerOk t φ w → Follows φ t := fun hwt =>
    Follows.still (h.one q hother hwt (by rw [ht]; rfl) (by rw [hmain]; exact h.born)
      (fun v _ hv => absurd hv (hne v)) (hdisp' φ))
  by_cases hpc : (s.workers w).pc = .unborn ∨ (s.workers w).pc = .start
  · exact hstill (workerOk_early (by rw [hwork]; exact hpc) hreserved hnobody hborn)
  · cases hfind : s.lookup fd with
    | none =>
        -- no connection has the descriptor any more: the worker is woken for nothing
        have hname := hw.unnamed hbusy (fun heq => hpc (Or.inl heq)) (fun heq => hpc (Or.inr heq))
          (hne w)
        refine hstill (workerOk_nameless ?_ ?_ hreserved hnobody hborn)
        · rw [hwork]
          exact hw.idle hbusy
        · rw [hwork, hfind]
          exact hname
    | some i =>
        have hfd := lookup_sockfd hfind
        have hone : (s.slots i).state = 1 := by
          rw [waits, hfind] at hwaits
          exact of_decide_eq_true hwaits
        have hlive : φ i ≠ .free := by
          intro hfree
          have hslot := h.slots.slot i
          rw [hfree] at hslot
          exact hslot.2.1 hone
        have hanswered : φ i = .answered := hall i hlive hfd hone
        have hslot := h.slots.slot i
        rw [hanswered] at hslot
        have m : Moves s t φ i (.respPending w) :=
          { others := fun _ _ => by rw [hslots], count := by rw [ht]; rfl, main := hmain,
            was := hlive, slot := by rw [hslots]; exact ⟨hslot.1, Or.inl hone, hslot.2.2⟩,
            sockfd := Or.inr (by rw [hslots]), openFds := Or.inl (by rw [ht]; rfl) }
        refine hand_follows h (hanswered ▸ .hand w) m hother
          (by rw [hanswered]; exact ⟨rfl, by rintro ⟨⟩⟩)
          (fun v hv heq => hv (Option.some.inj heq).symm) hne ?_ q.conns ?_ (hdisp' _)
        · have hdoze := resting_early (hw.idle hbusy) hpc
          refine workerOk_claiming (i := i) (p := .respPending w) (by rw [hwork, hfind]; rfl)
            (claim_given (by rw [hwork]; exact hdoze) hreserved (by rw [hwork]))
            (Function.update_self _ _ _) (fun j hj => ?_) ?_ ?_ ?_ (fun _ => hreserved) ?_ ?_
          · by_contra hji
            rw [Function.update_of_ne hji] at hj
            exact hnobody j hj
          · rw [ht]
            exact hlt
          · rw [hmain]
            exact fun hle => hpc (Or.inl (hw.unborn hle))
          · rw [hwork]
            exact fun _ => ⟨hw.idle hbusy, by rw [ht]; rfl⟩
          · rw [hreserved]
            rintro _ ⟨⟩
          · rw [hreserved]
            rintro _ ⟨⟩
        · intro g hg j hj hsock
          have hg' := q.epolls g hg
          by_cases hji : j = i
          · rw [hji, hslots, hfd] at hsock
            exact absurd (hsock ▸ hg') hnot
          · rw [Function.update_of_ne hji] at hj ⊢
            rw [hslots] at hsock ⊢
            exact h.epolls g hg' j hj hsock

/-- The busy bit of a worker that was given an event. -/
theorem setBusy_tracks (h : Tracks s φ) {w : Nat} (hd : s.dispatcher = .setBusy w) :
    Tracks ((s.setWorker w { s.workers w with busy := true }).goto (.signal w)) φ := by
  obtain ⟨t, ht⟩ : ∃ t, t = (s.setWorker w { s.workers w with busy := true }).goto (.signal w) :=
    ⟨_, rfl⟩
  rw [← ht]
  have hwork : t.workers w = { s.workers w with busy := true } := by
    rw [ht]
    exact Function.update_self _ _ _
  have q : Quiet s t := by
    rw [ht]
    exact ⟨rfl, rfl, rfl, fun _ hg => hg, Nat.le_refl _, Nat.le_refl _⟩
  have hw := h.worker w
  refine h.one q (fun v hv => by rw [ht]; exact Function.update_of_ne hv _ _) ?_ (by rw [ht]; rfl)
    (by rw [ht]; exact h.born) ?_ (by rw [ht]; exact trivial)
  · constructor
    · rw [hwork]; exact hw.claims
    · rw [hwork, ht]; exact hw.held
    · rw [hwork]; rintro ⟨⟩
    · rw [hwork]; rintro ⟨⟩
    · rw [hwork]; exact hw.auto
    · rw [hwork]; exact hw.emptied
    · rw [hwork]; exact hw.conn
    · rw [hwork, ht]; exact hw.epoll
    · rw [hwork, ht]; exact hw.unborn
  · intro v hv hbusy
    rw [hd] at hbusy
    exact absurd (DispatcherPc.setBusy.inj hbusy).symm hv

/-- An event goes into its queue. -/
theorem enqueue_tracks (h : Tracks s φ) {fd : Nat} (hd : s.dispatcher = .enqueue fd) :
    Tracks ({ s with epollQueue := s.epollQueue.enqueue epollEventQueueMax fd }.goto .next) φ := by
  have hdisp := h.dispatcher
  rw [hd] at hdisp
  have hnext : Tracks (s.goto .next) φ := goto_tracks h (by rw [hd]; exact fun _ => by rintro ⟨⟩)
    trivial
  constructor
  · exact { hnext.slots with }
  · exact fun v => { hnext.worker v with }
  · exact { hnext.conns with }
  · intro g hg
    rcases RingBuf.mem_enqueue hg with rfl | hg'
    · exact hdisp.2
    · exact h.epolls g hg'
  · exact trivial
  · exact h.workspace
  · exact h.born

theorem patcherStep_follows {b : Bool} {d : DispatcherPc} (h : Tracks s φ) (hd : s.dispatcher = d)
    (hok : handsOn s (.dispatcher b) = true) (hstep : patcherStep s d = some t) :
    Follows φ t := by
  have hdisp := h.dispatcher
  rw [hd] at hdisp
  have hne : setting d = false → ∀ v, s.dispatcher ≠ .setBusy v := by
    rw [hd]
    exact not_setting
  cases d with
  | quitSignal =>
      obtain rfl := Option.some.inj hstep
      exact Follows.still (endLine_tracks (wakeMain_tracks h)
        (by rw [wakeMain_dispatcher]; exact hne rfl))
  | next =>
      rw [patcherStep] at hstep
      cases hevents : s.events with
      | nil =>
          rw [hevents] at hstep
          obtain rfl := Option.some.inj hstep
          exact Follows.still (goto_tracks h (hne rfl) trivial)
      | cons fd rest =>
          rw [hevents] at hstep
          dsimp only at hstep
          have q : Quiet s { s with events := rest } :=
            ⟨rfl, rfl, rfl, fun _ hg => hg, Nat.le_refl _, Nat.le_refl _⟩
          have hrest : Tracks { s with events := rest } φ :=
            h.quiet q rfl (Or.inl rfl) h.born (fun v hv => Or.inl hv) h.dispatcher
          split_ifs at hstep
          · obtain rfl := Option.some.inj hstep
            exact Follows.still (goto_tracks hrest (hne rfl) trivial)
          · obtain rfl := Option.some.inj hstep
            refine Follows.still (goto_tracks hrest (hne rfl) ?_)
            intro i hlive _ hone
            rcases (h.slots.slot i).answered hlive hone with hp | ⟨w, hw⟩
            · exact Or.inl hp
            · exact Or.inr ⟨w, Nat.zero_le w, hw⟩
  | scan fd th =>
      rw [patcherStep] at hstep
      split_ifs at hstep with hzero hth hnamed
      · obtain rfl := Option.some.inj hstep
        exact Follows.still (goto_tracks h (hne rfl) trivial)
      · obtain rfl := Option.some.inj hstep
        exact Follows.still (goto_tracks h (hne rfl) trivial)
      · obtain rfl := Option.some.inj hstep
        refine Follows.still (goto_tracks h (hne rfl) ?_)
        intro i hlive hfd hone
        rcases hdisp i hlive hfd hone with hp | ⟨w, hle, hw⟩
        · exact Or.inl hp
        · refine Or.inr ⟨w, Nat.lt_of_le_of_ne hle ?_, hw⟩
          rintro rfl
          exact hnamed (held_named h hw hfd)
      · obtain rfl := Option.some.inj hstep
        refine Follows.still (goto_tracks h (hne rfl) ?_)
        intro i hlive hfd hone
        rcases hdisp i hlive hfd hone with hp | ⟨w, hle, hw⟩
        · exact hp
        · have hlt := ((h.worker w).held i hw).1
          rw [h.workspace.resolve_left hzero] at hlt
          omega
  | queueScan fd =>
      rw [patcherStep] at hstep
      split_ifs at hstep with hhave
      · obtain rfl := Option.some.inj hstep
        exact Follows.still (goto_tracks h (hne rfl) trivial)
      · obtain rfl := Option.some.inj hstep
        refine Follows.still (goto_tracks h (hne rfl) ⟨fun hmem => hhave ?_, hdisp⟩)
        have hfound := (Queue.epollQueueHaveSockfd_iff fd s.epollQueue).mpr ⟨fd, hmem, rfl⟩
        exact (Queue.epollQueueHave_iff s fd).mpr hfound
  | idleCheck fd =>
      rw [patcherStep] at hstep
      cases hidle : s.idleWorker with
      | some w =>
          rw [hidle] at hstep
          obtain rfl := Option.some.inj hstep
          exact Follows.still (goto_tracks h (hne rfl) ⟨hdisp, idleWorker_idle hidle⟩)
      | none =>
          rw [hidle] at hstep
          obtain rfl := Option.some.inj hstep
          exact Follows.still (goto_tracks h (hne rfl) hdisp)
  | store fd w =>
      obtain rfl := Option.some.inj hstep
      rw [handsOn, hd] at hok
      exact store_follows h hd hok
  | setBusy w =>
      obtain rfl := Option.some.inj hstep
      exact Follows.still (setBusy_tracks h hd)
  | signal w =>
      obtain rfl := Option.some.inj hstep
      exact Follows.still (goto_tracks (wake_tracks h w)
        (by rw [wake_dispatcher]; exact hne rfl) trivial)
  | enqueue fd =>
      obtain rfl := Option.some.inj hstep
      exact Follows.still (enqueue_tracks h hd)
  | _ => cases hstep

/-! ### The workers -/

/-- A worker moves a command. -/
theorem worker_follows (h : Tracks s φ) {i w : Nat} {p : Phase} (hnext : Next (φ i) p)
    (m : Moves s t φ i p) (hother : ∀ v, v ≠ w → t.workers v = s.workers v)
    (hwas : φ i ≠ .carried) (hheld : ∀ v, v ≠ w → (φ i).holder ≠ some v)
    (hp : ∀ v, v ≠ w → p.holder ≠ some v) (hw : WorkerOk t (Function.update φ i p) w)
    (hconns : ConnsOk t (Function.update φ i p)) (hepolls : ∀ g ∈ t.epollEvents, g ∈ s.epollEvents)
    (hstate : (t.slots i).state = 1 → p ≠ .free → p = .answered ∨
      ((s.slots i).state = 1 ∧ p.holder = (φ i).holder ∧ (φ i).holder ≠ none))
    (hbusy : (t.workers w).busy = (s.workers w).busy) (hdisp : t.dispatcher = s.dispatcher) :
    Follows φ t := by
  refine move_follows h hnext m (fun v => ?_) hconns (fun g hg => ?_) ?_
  · by_cases hvw : v = w
    · rw [hvw]
      exact hw
    · exact (h.worker v).other m.toTouches (hother v hvw) (hheld v hvw) (hp v hvw)
        (fun hd => hdisp ▸ hd)
  · exact (h.epolls g (hepolls g hg)).move_answered m hstate
  · rw [hdisp]
    refine h.dispatcher.move m hwas hstate hepolls (fun v hv => ?_)
    by_cases hvw : v = w
    · rw [hvw] at hv ⊢
      rw [hbusy]
      exact hv
    · rw [hother v hvw]
      exact hv

/-- `switch (auto_dequeue)` comes to the connection that the worker names. -/
theorem dueConn_eq (h : Tracks s φ) {w : Nat} (hpc : (s.workers w).pc = .load) :
    s.dueConn (s.workers w) = (s.workers w).connIndex := by
  rw [State.dueConn]
  cases hauto : (s.workers w).auto with
  | reserved => rfl
  | conn cev => exact ((h.worker w).conn cev hpc hauto).symm
  | epoll fd =>
      obtain ⟨i, hname, hfd⟩ := (h.worker w).epoll fd hpc hauto
      have hclaim : claim w (s.workers w) = some (.respPending w) := by
        rw [claim_dozing (Or.inr hpc), Worker.due, hauto]
        rfl
      have hphase := (h.worker w).claims i _ hname hclaim
      dsimp only
      rw [h.lookup_some (by rw [hphase]; rintro ⟨⟩) hfd, hname]
      rfl

/-- A handler is called. -/
theorem call_follows (h : Tracks s φ) {i w : Nat} {d : Handler}
    (hpc : (s.workers w).pc = .load) (hname : (s.workers w).connIndex = some i)
    (hdue : (s.workers w).due = some d) :
    Follows φ ((s.setSlot i { s.slots i with served := (s.slots i).served.call d }).setWorker w
      { s.workers w with connIndex := some i, pc := .exec d }) := by
  have hw := h.worker w
  have hphase : φ i = pending w d := by
    refine hw.claims i _ hname ?_
    rw [claim_dozing (Or.inr hpc), hdue]
    rfl
  have hrest : resting (s.workers w).pc = false := by rw [hpc]; rfl
  have hslot := h.slots.slot i
  rw [hphase] at hslot
  obtain ⟨t, ht⟩ : ∃ t, t =
    (s.setSlot i { s.slots i with served := (s.slots i).served.call d }).setWorker w
      { s.workers w with connIndex := some i, pc := .exec d } := ⟨_, rfl⟩
  rw [← ht]
  have hnew : t.slots i = { s.slots i with served := (s.slots i).served.call d } := by
    rw [ht]
    exact Function.update_self _ _ _
  have hwork : t.workers w = { s.workers w with connIndex := some i, pc := .exec d } := by
    rw [ht]
    exact Function.update_self _ _ _
  have hmain : t.main = s.main := by rw [ht]; rfl
  have hbusy : (t.workers w).busy = (s.workers w).busy := by rw [hwork]
  have m : Moves s t φ i (running w d) :=
    { others := fun j hj => by rw [ht]; exact Function.update_of_ne hj _ _,
      count := by rw [ht]; rfl, main := hmain, was := by rw [hphase]; exact (pending_live w d).1,
      slot := by
        rw [hnew]
        cases d with
        | httpRequest => exact ⟨hslot.1, hslot.2.1, by rw [hslot.2.2]; rfl⟩
        | httpResponse => exact ⟨hslot.1, hslot.2.1, by rw [hslot.2.2]; rfl⟩,
      sockfd := Or.inr (by rw [hnew]), openFds := Or.inl (by rw [ht]; rfl) }
  -- a pending call becomes the running one, and no other move is open to it
  have hnext : Next (φ i) (running w d) := by
    rw [hphase]
    cases d with
    | httpRequest => exact .request w
    | httpResponse => exact .response w
  have hholder : ∀ v, v ≠ w → some w ≠ some v := fun v hv heq => hv (Option.some.inj heq).symm
  refine worker_follows h hnext m
    (fun v hv => by rw [ht]; exact Function.update_of_ne hv _ _)
    (by rw [hphase]; exact (pending_live w d).2.1)
    (by rw [hphase, pending_holder]; exact hholder) (by rw [running_holder]; exact hholder) ?_ ?_
    (by rw [ht]; exact fun _ hg => hg) ?_ hbusy (by rw [ht]; rfl)
  · refine workerOk_claiming (i := i) (p := running w d) (by rw [hwork])
      (by rw [claim, hwork]) (Function.update_self _ _ _) (fun j hj => ?_) ?_ ?_ ?_ ?_ ?_ ?_
    -- a second slot held by this worker would be a second command in its hands
    · by_contra hji
      rw [Function.update_of_ne hji] at hj
      exact hji (h.one_command hj (by rw [hphase, pending_holder]))
    · rw [ht]
      exact (hw.held i (by rw [hphase, pending_holder])).1
    · rw [hmain]
      exact hw.created hrest
    · rw [hbusy, hw.busy hrest]
      rintro ⟨⟩
    · rw [hwork]
      rintro ⟨⟩
    · rw [hwork]
      intro cev hauto
      have hcev := hw.conn cev hpc hauto
      rw [hname] at hcev
      exact Option.some.inj hcev
    · rw [hwork, hnew]
      intro fd hauto
      obtain ⟨j, hj, hfd⟩ := hw.epoll fd hpc hauto
      rw [hname] at hj
      rw [Option.some.inj hj]
      exact hfd
  · exact h.conns.other m.toTouches (by rw [ht]; rfl) (by rw [hphase]; exact (pending_live w d).2.2)
  · rw [hnew, hphase, pending_holder, running_holder]
    exact fun hone _ => Or.inr ⟨hone, rfl, by rintro ⟨⟩⟩

/-- What a handler leaves behind. -/
theorem handlerReturn_slot {w : Nat} {d : Handler} {i : Nat} (ok : Bool)
    (h : SlotIs (s.slots i) (running w d)) :
    ∃ p, Next (running w d) p ∧ (p = .answered ∨ p = .free) ∧
      SlotIs ((handlerReturn s d i ok).slots i) p ∧
      (p = .free ∨ ((handlerReturn s d i ok).slots i).sockfd = (s.slots i).sockfd) ∧
      ((handlerReturn s d i ok).openFds = s.openFds ∨
        (p = .free ∧ (handlerReturn s d i ok).openFds = s.openFds.erase (s.slots i).sockfd)) := by
  have horderly : Orderly (s.slots i).served := h.orderly
  cases d with
  | httpRequest =>
      cases ok with
      | true =>
          have hnew : (handlerReturn s .httpRequest i true).slots i = { s.slots i with
              state := 1, served := { (s.slots i).served with answered := true } } :=
            Function.update_self _ _ _
          refine ⟨.answered, .answer w, Or.inl rfl, ?_, Or.inr (by rw [hnew]), Or.inl rfl⟩
          rw [hnew]
          exact ⟨h.1, rfl, by rw [h.2.2]⟩
      | false =>
          have hnew : (handlerReturn s .httpRequest i false).slots i =
              { s.slots i with state := -1, sockfd := 0 } := Function.update_self _ _ _
          refine ⟨.free, .refuse w, Or.inr rfl, ?_, Or.inl rfl, Or.inr ⟨rfl, rfl⟩⟩
          rw [hnew]
          exact ⟨rfl, show (-1 : Int) ≠ 1 by decide, horderly⟩
  | httpResponse =>
      cases ok with
      | true =>
          have hnew : (handlerReturn s .httpResponse i true).slots i =
              { s.slots i with state := 3, sockfd := 0 } := Function.update_self _ _ _
          refine ⟨.free, .finish w, Or.inr rfl, ?_, Or.inl rfl, Or.inr ⟨rfl, rfl⟩⟩
          rw [hnew]
          exact ⟨rfl, show (3 : Int) ≠ 1 by decide, horderly⟩
      | false =>
          have hnew : (handlerReturn s .httpResponse i false).slots i =
              { s.slots i with state := -1, sockfd := 0 } := Function.update_self _ _ _
          refine ⟨.free, .finish w, Or.inr rfl, ?_, Or.inl rfl, Or.inr ⟨rfl, rfl⟩⟩
          rw [hnew]
          exact ⟨rfl, show (-1 : Int) ≠ 1 by decide, horderly⟩

/-- A handler returns. -/
theorem return_follows (h : Tracks s φ) {i w : Nat} {d : Handler} {ok : Bool}
    (hpc : (s.workers w).pc = .exec d) (hname : (s.workers w).connIndex = some i) :
    Follows φ ((handlerReturn s d i ok).workerGoto w .account) := by
  have hw := h.worker w
  have hphase : φ i = running w d := by
    refine hw.claims i _ hname ?_
    rw [claim, hpc]
  have hrest : resting (s.workers w).pc = false := by rw [hpc]; rfl
  have hslot := h.slots.slot i
  rw [hphase] at hslot
  obtain ⟨p, hnext, hp, hslot', hsock, hopen⟩ := handlerReturn_slot ok hslot
  obtain ⟨hothers, hworkers, hcount, hmain, -, hdisp, hconn, hepoll⟩ := handlerReturn_frame s d i ok
  obtain ⟨t, ht⟩ : ∃ t, t = (handlerReturn s d i ok).workerGoto w .account := ⟨_, rfl⟩
  rw [← ht]
  have hslots : t.slots = (handlerReturn s d i ok).slots := by rw [ht]; rfl
  have hwork : t.workers w = { s.workers w with pc := .account } := by
    rw [ht, State.workerGoto, hworkers]
    exact Function.update_self _ _ _
  have hbusy : (t.workers w).busy = (s.workers w).busy := by rw [hwork]
  have hmain' : t.main = s.main := by rw [ht]; exact hmain
  have m : Moves s t φ i p :=
    { others := by rw [hslots]; exact hothers, count := by rw [ht]; exact hcount, main := hmain',
      was := by rw [hphase]; exact (running_live w d).1, slot := by rw [hslots]; exact hslot',
      sockfd := by rw [hslots]; exact hsock, openFds := by rw [ht]; exact hopen }
  have hnobody : ∀ v, p.holder ≠ some v := by
    rcases hp with rfl | rfl
    · exact fun v => by rintro ⟨⟩
    · exact fun v => by rintro ⟨⟩
  have hevents : t.epollEvents = s.epollEvents := by
    rw [ht, State.epollEvents, State.epollEvents, ← hepoll]
    rfl
  refine worker_follows h (hphase ▸ hnext) m ?_ (by rw [hphase]; exact (running_live w d).2.1) ?_
    (fun v _ => hnobody v) ?_ ?_ (by rw [hevents]; exact fun _ hg => hg) ?_ hbusy
    (by rw [ht]; exact hdisp)
  · intro v hv
    rw [ht, ← hworkers]
    exact Function.update_of_ne hv _ _
  · intro v hv heq
    rw [hphase, running_holder] at heq
    exact hv (Option.some.inj heq).symm
  · refine workerOk_working (by rw [hwork]; rfl) (by rw [hbusy]; exact hw.busy hrest) (fun j => ?_)
      (by rw [hmain']; exact hw.created hrest)
      (by rw [hwork]; rintro (heq | heq | heq) <;> cases heq)
    by_cases hj : j = i
    · rw [hj, Function.update_self]
      exact hnobody w
    · rw [Function.update_of_ne hj]
      exact fun heq => hj (h.one_command heq (by rw [hphase, running_holder]))
  · refine h.conns.other m.toTouches ?_ (by rw [hphase]; exact (running_live w d).2.2)
    rw [ht, State.connEvents, State.connEvents, ← hconn]
    rfl
  · exact fun _ hlive => Or.inl (hp.resolve_right hlive)

/-- A worker serves itself from the queue of connections. -/
theorem takeConn_follows (h : Tracks s φ) {w : Nat} (hlt : w < s.workspaceCount)
    (hpc : (s.workers w).pc = .dequeueConn) (hcount : s.connQueue.count ≠ 0) :
    Follows φ (takeConn s w) := by
  have hw := h.worker w
  have hrest : resting (s.workers w).pc = false := by rw [hpc]; rfl
  have hnobody := h.unclaimed (w := w) (Or.inl (by rw [claim, hpc]))
  obtain ⟨cev, hcev⟩ : ∃ cev, cev = s.connQueue.head connEventQueueMax := ⟨_, rfl⟩
  have hevents := (RingBuf.contents_dequeue hcount : s.connQueue.contents connEventQueueMax = _)
  rw [← hcev] at hevents
  -- an entry of the queue names a carried slot and its own descriptor
  obtain ⟨hphase, hfd⟩ := h.conns.named cev (by
    rw [State.connEvents, hevents]
    exact List.mem_cons_self)
  have hslot := h.slots.slot cev.connIndex
  rw [hphase] at hslot
  -- hence the check on the standard streams does not stop the worker here
  have hpos : ¬ cev.sockfd ≤ 2 := by
    rw [← hfd]
    exact Nat.not_le_of_lt hslot.1
  obtain ⟨t, ht⟩ : ∃ t, t = takeConn s w := ⟨_, rfl⟩
  rw [← ht]
  rw [takeConn, ← hcev] at ht
  dsimp only at ht
  rw [if_neg hpos] at ht
  have hnew : t.slots cev.connIndex =
      { s.slots cev.connIndex with sockfd := cev.sockfd, state := 0, param := some w } := by
    rw [ht]
    exact Function.update_self _ _ _
  have hwork : t.workers w = { s.workers w with
      connIndex := some cev.connIndex, auto := .conn cev, pc := .load } := by
    rw [ht]
    exact Function.update_self _ _ _
  have hmain : t.main = s.main := by rw [ht]; rfl
  have hbusy : (t.workers w).busy = (s.workers w).busy := by rw [hwork]
  have m : Moves s t φ cev.connIndex (.reqPending w) :=
    { others := fun j hj => by rw [ht]; exact Function.update_of_ne hj _ _,
      count := by rw [ht]; rfl, main := hmain, was := by rw [hphase]; rintro ⟨⟩,
      slot := by rw [hnew]; exact ⟨Nat.lt_of_not_le hpos, rfl, hslot.2.2⟩,
      sockfd := Or.inr (by rw [hnew]; exact hfd.symm), openFds := Or.inl (by rw [ht]; rfl) }
  refine worker_follows h (hphase ▸ .serve w) m
    (fun v hv => by rw [ht]; exact Function.update_of_ne hv _ _)
    (by rw [hphase]; rintro ⟨⟩) (by rw [hphase]; exact fun _ _ => by rintro ⟨⟩)
    (fun v hv heq => hv (Option.some.inj heq).symm) ?_ ?_ (by rw [ht]; exact fun _ hg => hg) ?_
    hbusy (by rw [ht]; rfl)
  · refine workerOk_claiming (i := cev.connIndex) (p := .reqPending w) (by rw [hwork])
      ?_ (Function.update_self _ _ _) (fun j hj => ?_) ?_ ?_ ?_ ?_ ?_ ?_
    · rw [claim_dozing (Or.inr (by rw [hwork])), Worker.due, hwork]
      rfl
    · by_contra hji
      rw [Function.update_of_ne hji] at hj
      exact hnobody j hj
    · rw [ht]
      exact hlt
    · rw [hmain]
      exact hw.created hrest
    · rw [hbusy, hw.busy hrest]
      rintro ⟨⟩
    · rw [hwork]
      rintro ⟨⟩
    · rw [hwork]
      intro e he
      rw [AutoDequeue.conn.inj he]
    · rw [hwork]
      rintro _ ⟨⟩
  · refine h.conns.take m.toTouches ?_
    rw [State.connEvents, hevents, ht]
    rfl
  · rw [hnew]
    intro hone
    exact absurd hone (show ¬ (0 : Int) = 1 by decide)

/-- A worker serves itself from the queue of events. -/
theorem takeEpoll_follows (h : Tracks s φ) {w : Nat} (hlt : w < s.workspaceCount)
    (hpc : (s.workers w).pc = .dequeueEpoll) (hcount : s.epollQueue.count ≠ 0)
    (hwaits : waits s (s.epollQueue.head epollEventQueueMax) = true) :
    Follows φ (takeEpoll s w) := by
  have hw := h.worker w
  have hrest : resting (s.workers w).pc = false := by rw [hpc]; rfl
  have hnobody := h.unclaimed (w := w) (Or.inl (by rw [claim, hpc]))
  obtain ⟨fd, hfd⟩ : ∃ fd, fd = s.epollQueue.head epollEventQueueMax := ⟨_, rfl⟩
  have hevents := (RingBuf.contents_dequeue hcount : s.epollQueue.contents epollEventQueueMax = _)
  rw [← hfd] at hevents hwaits
  have hhead : fd ∈ s.epollEvents := by
    rw [State.epollEvents, hevents]
    exact List.mem_cons_self
  have hfewer : ∀ u : State, u.epollQueue = s.epollQueue.dequeue epollEventQueueMax →
      ∀ g ∈ u.epollEvents, g ∈ s.epollEvents := by
    intro u hu g hg
    rw [State.epollEvents, hu] at hg
    rw [State.epollEvents, hevents]
    exact List.mem_cons_of_mem _ hg
  obtain ⟨t, ht⟩ : ∃ t, t = takeEpoll s w := ⟨_, rfl⟩
  rw [← ht]
  unfold takeEpoll at ht
  rw [← hfd] at ht
  dsimp only at ht
  cases hfind : s.lookup fd with
  | none =>
      -- the connection is gone, and the event is dropped
      rw [hfind] at ht
      have hwork : t.workers w = { s.workers w with pc := .clear } := by
        rw [ht]
        exact Function.update_self _ _ _
      have q : Quiet s t := by
        rw [ht]
        exact ⟨rfl, rfl, rfl, hfewer _ rfl, Nat.le_refl _, Nat.le_refl _⟩
      refine Follows.still (h.work q (fun v hv => by rw [ht]; exact Function.update_of_ne hv _ _)
        hrest hnobody (by rw [hwork]; rfl) (by rw [hwork]) ?_ (by rw [ht]; rfl) (by rw [ht]; rfl)
        (by rw [ht]; rfl))
      rw [hwork]
      exact fun _ => hw.emptied (Or.inr (Or.inl hpc))
  | some i =>
      rw [hfind] at ht
      have hsock := lookup_sockfd hfind
      have hone : (s.slots i).state = 1 := by
        rw [waits, hfind] at hwaits
        exact of_decide_eq_true hwaits
      have hlive : φ i ≠ .free := by
        intro hfree
        have hslot := h.slots.slot i
        rw [hfree] at hslot
        exact hslot.2.1 hone
      have hphase : φ i = .answered := h.epolls fd hhead i hlive hsock hone
      have hslot := h.slots.slot i
      rw [hphase] at hslot
      have hnew : t.slots i = { s.slots i with sockfd := fd, state := 2 } := by
        rw [ht]
        exact Function.update_self _ _ _
      have hwork : t.workers w = { s.workers w with
          connIndex := some i, auto := .epoll fd, pc := .load } := by
        rw [ht]
        exact Function.update_self _ _ _
      have hmain : t.main = s.main := by rw [ht]; rfl
      have hbusy : (t.workers w).busy = (s.workers w).busy := by rw [hwork]
      have m : Moves s t φ i (.respPending w) :=
        { others := fun j hj => by rw [ht]; exact Function.update_of_ne hj _ _,
          count := by rw [ht]; rfl, main := hmain, was := hlive,
          slot := by rw [hnew]; exact ⟨hsock ▸ hslot.1, Or.inr rfl, hslot.2.2⟩,
          sockfd := Or.inr (by rw [hnew]; exact hsock.symm), openFds := Or.inl (by rw [ht]; rfl) }
      refine worker_follows h (hphase ▸ .hand w) m
        (fun v hv => by rw [ht]; exact Function.update_of_ne hv _ _)
        (by rw [hphase]; rintro ⟨⟩) (by rw [hphase]; exact fun _ _ => by rintro ⟨⟩)
        (fun v hv heq => hv (Option.some.inj heq).symm) ?_ ?_ (hfewer t (by rw [ht]; rfl)) ?_
        hbusy (by rw [ht]; rfl)
      · refine workerOk_claiming (i := i) (p := .respPending w) (by rw [hwork])
          ?_ (Function.update_self _ _ _) (fun j hj => ?_) ?_ ?_ ?_ ?_ ?_ ?_
        · rw [claim_dozing (Or.inr (by rw [hwork])), Worker.due, hwork]
          rfl
        · by_contra hji
          rw [Function.update_of_ne hji] at hj
          exact hnobody j hj
        · rw [ht]
          exact hlt
        · rw [hmain]
          exact hw.created hrest
        · rw [hbusy, hw.busy hrest]
          rintro ⟨⟩
        · rw [hwork]
          rintro ⟨⟩
        · rw [hwork]
          rintro _ ⟨⟩
        · rw [hwork, hnew]
          intro g hg
          exact AutoDequeue.epoll.inj hg
      · exact h.conns.other m.toTouches (by rw [ht]; rfl) (by rw [hphase]; rintro ⟨⟩)
      · rw [hnew]
        intro htwo
        exact absurd htwo (show ¬ (2 : Int) = 1 by decide)

/-- The places of a worker that has let go of its connection. -/
def emptying : WorkerPc → Bool
  | .dequeueConn | .dequeueEpoll | .clear => true
  | _ => false

theorem emptying_of {pc : WorkerPc} (h : pc = .dequeueConn ∨ pc = .dequeueEpoll ∨ pc = .clear) :
    emptying pc = true := by
  rcases h with rfl | rfl | rfl <;> rfl

/-- A worker goes on to its next place. -/
theorem goOn_tracks (h : Tracks s φ) {w : Nat} {x : Worker} {pc : WorkerPc}
    (hx : x = { s.workers w with connIndex := x.connIndex, auto := x.auto, pc := pc })
    (hpc : working pc = true) (hrest : resting (s.workers w).pc = false)
    (hfree : claim w (s.workers w) = none ∨ (s.workers w).connIndex = none)
    (hempty : emptying pc = false ∨ (x.connIndex = none ∧ x.auto = .reserved)) :
    Tracks (s.setWorker w x) φ := by
  have hself : (s.setWorker w x).workers w = x := Function.update_self _ _ _
  have hat : x.pc = pc := by rw [hx]
  refine h.work ⟨rfl, rfl, rfl, fun _ hg => hg, Nat.le_refl _, Nat.le_refl _⟩
    (fun v hv => Function.update_of_ne hv _ _) hrest (h.unclaimed hfree) ?_ ?_ ?_ rfl rfl rfl
  · rw [hself, hat]
    exact hpc
  · rw [hself, hx]
  · rw [hself, hat]
    intro hplace
    rcases hempty with hnot | hnone
    · rw [emptying_of hplace] at hnot
      cases hnot
    · exact hnone

/-- A worker comes to call what it was given. -/
theorem load_follows {w : Nat} {ok : Bool} (h : Tracks s φ) (hpc : (s.workers w).pc = .load)
    (hstep : Threads.workerStep s w ok = some t) : Follows φ t := by
  have hrest : resting (s.workers w).pc = false := by rw [hpc]; rfl
  rw [Threads.workerStep, hpc] at hstep
  dsimp only at hstep
  rw [dueConn_eq h hpc] at hstep
  cases hdue : (s.workers w).due with
  | none =>
      rw [hdue] at hstep
      obtain rfl := Option.some.inj hstep
      refine Follows.still (goOn_tracks h rfl rfl hrest (Or.inl ?_) (Or.inl rfl))
      rw [claim_dozing (Or.inr hpc), hdue]
      rfl
  | some d =>
      rw [hdue] at hstep
      cases hname : (s.workers w).connIndex with
      | none =>
          rw [hname] at hstep
          obtain rfl := Option.some.inj hstep
          exact Follows.still (goOn_tracks h rfl rfl hrest (Or.inr hname) (Or.inl rfl))
      | some i =>
          rw [hname] at hstep
          dsimp only at hstep
          have hphase : φ i = pending w d := by
            refine (h.worker w).claims i _ hname ?_
            rw [claim_dozing (Or.inr hpc), hdue]
            rfl
          have hlive := (h.slots.slot i).live (by rw [hphase]; exact (pending_live w d).1)
          rw [if_neg (Nat.not_le_of_lt hlive)] at hstep
          obtain rfl := Option.some.inj hstep
          exact call_follows h hpc hname hdue

/-- Neither the counter nor the flag is looked at. -/
theorem counted_tracks {w : Nat} {pc : WorkerPc} {remain : Int} {flag : Bool}
    (h : Tracks (s.workerGoto w pc) φ) :
    Tracks { s.workerGoto w pc with remainCount := remain, continueInput := flag } φ :=
  h.quiet ⟨rfl, rfl, rfl, fun _ hg => hg, Nat.le_refl _, Nat.le_refl _⟩ rfl (Or.inl rfl) h.born
    (fun _ hv => Or.inl hv) h.dispatcher

/-- A worker comes from the test of what became of its connection. -/
theorem account_tracks {w : Nat} {ok : Bool} (h : Tracks s φ) (hpc : (s.workers w).pc = .account)
    (hstep : Threads.workerStep s w ok = some t) : Tracks t φ := by
  have hrest : resting (s.workers w).pc = false := by rw [hpc]; rfl
  have hgo : ∀ pc, working pc = true → emptying pc = false → Tracks (s.workerGoto w pc) φ :=
    fun pc hwork hempty =>
      goOn_tracks h rfl hwork hrest (Or.inl (by rw [claim, hpc])) (Or.inl hempty)
  rw [Threads.workerStep, hpc] at hstep
  dsimp only at hstep
  split_ifs at hstep with hfixed
  · cases hname : (s.workers w).connIndex with
    | none =>
        rw [hname] at hstep
        obtain rfl := Option.some.inj hstep
        exact hgo .fault rfl rfl
    | some i =>
        rw [hname] at hstep
        dsimp only at hstep
        split_ifs at hstep
        · obtain rfl := Option.some.inj hstep
          exact counted_tracks (hgo .raise rfl rfl)
        · obtain rfl := Option.some.inj hstep
          exact hgo .release rfl rfl
  · obtain rfl := Option.some.inj hstep
    exact hgo .release rfl rfl

theorem workerStep_follows {w : Nat} {ok : Bool} (h : Tracks s φ) (hlt : w < s.workspaceCount)
    (hok : handsOn s (.worker w ok) = true) (hstep : Threads.workerStep s w ok = some t) :
    Follows φ t := by
  have hself : ∀ x, (s.setWorker w x).workers w = x := fun x => Function.update_self _ _ _
  have hquiet : ∀ x, Quiet s (s.setWorker w x) :=
    fun x => ⟨rfl, rfl, rfl, fun _ hg => hg, Nat.le_refl _, Nat.le_refl _⟩
  have hother : ∀ x v, v ≠ w → (s.setWorker w x).workers v = s.workers v :=
    fun x v hv => Function.update_of_ne hv _ _
  have hkeeps : ∀ pc, (s.workers w).busy = false →
      ((s.workerGoto w pc).workers w).busy = false := by
    intro pc hb
    rw [State.workerGoto, hself]
    exact hb
  have hw := h.worker w
  rw [Threads.workerStep] at hstep
  cases hpc : (s.workers w).pc with
  | unborn | waiting | fault =>
      rw [hpc] at hstep
      cases hstep
  | start =>
      rw [hpc] at hstep
      obtain rfl := Option.some.inj hstep
      refine Follows.still (h.workerStep (hquiet _) (hother _) ?_ ?_ rfl h.born rfl)
      · refine workerOk_nameless (by rw [hself]; rfl) (by rw [hself]) ?_
          (h.unclaimed (Or.inl (by rw [claim, hpc]))) (fun hle => ?_)
        · rw [hself]
          exact hw.auto (by rw [hpc]; rfl)
        · have hunborn := hw.unborn hle
          rw [hpc] at hunborn
          cases hunborn
      · rw [hself]
        exact id
  | test =>
      rw [hpc] at hstep
      obtain rfl := Option.some.inj hstep
      refine Follows.still (h.workerStep (hquiet _) (hother _) ?_ (hkeeps _) rfl h.born rfl)
      refine hw.doze (by rw [hpc]; rfl) ?_ (hself _) (hquiet _) rfl rfl
      split_ifs with hbusy
      · exact Or.inr ⟨rfl, hbusy⟩
      · exact Or.inl rfl
  | toWait =>
      rw [hpc] at hstep
      obtain rfl := Option.some.inj hstep
      refine Follows.still (h.workerStep (hquiet _) (hother _) ?_ (hkeeps _) rfl h.born rfl)
      exact hw.doze (by rw [hpc]; rfl) (Or.inl rfl) (hself _) (hquiet _) rfl rfl
  | load => exact load_follows h hpc hstep
  | exec d =>
      have hrest : resting (s.workers w).pc = false := by rw [hpc]; rfl
      rw [hpc] at hstep
      dsimp only at hstep
      cases hname : (s.workers w).connIndex with
      | some i =>
          rw [hname] at hstep
          obtain rfl := Option.some.inj hstep
          exact return_follows h hpc hname
      | none =>
          rw [hname] at hstep
          obtain rfl := Option.some.inj hstep
          exact Follows.still (goOn_tracks h rfl rfl hrest (Or.inr hname) (Or.inl rfl))
  | account => exact Follows.still (account_tracks h hpc hstep)
  | raise =>
      have hrest : resting (s.workers w).pc = false := by rw [hpc]; rfl
      rw [hpc] at hstep
      obtain rfl := Option.some.inj hstep
      have hsignal : Tracks (s.workerGoto w .signal) φ :=
        goOn_tracks h rfl rfl hrest (Or.inl (by rw [claim, hpc])) (Or.inl rfl)
      -- the counter and the flag of the main thread are none of the places tracked
      exact Follows.still (counted_tracks hsignal)
  | signal =>
      rw [hpc] at hstep
      obtain rfl := Option.some.inj hstep
      have hworkers := (wakeMain_frame s).1
      refine Follows.still (goOn_tracks (wakeMain_tracks h) rfl rfl ?_ (Or.inl ?_) (Or.inl rfl))
      · rw [hworkers, hpc]
        rfl
      · rw [hworkers, claim, hpc]
  | release =>
      have hrest : resting (s.workers w).pc = false := by rw [hpc]; rfl
      rw [hpc] at hstep
      obtain rfl := Option.some.inj hstep
      exact Follows.still (goOn_tracks h rfl rfl hrest (Or.inl (by rw [claim, hpc]))
        (Or.inr ⟨rfl, rfl⟩))
  | dequeueConn =>
      have hrest : resting (s.workers w).pc = false := by rw [hpc]; rfl
      have hempty := hw.emptied (Or.inl hpc)
      rw [hpc] at hstep
      dsimp only at hstep
      split_ifs at hstep with hcount
      · obtain rfl := Option.some.inj hstep
        exact takeConn_follows h hlt hpc hcount
      · obtain rfl := Option.some.inj hstep
        exact Follows.still (goOn_tracks h rfl rfl hrest (Or.inl (by rw [claim, hpc]))
          (Or.inr hempty))
  | dequeueEpoll =>
      have hrest : resting (s.workers w).pc = false := by rw [hpc]; rfl
      have hempty := hw.emptied (Or.inr (Or.inl hpc))
      rw [hpc] at hstep
      dsimp only at hstep
      split_ifs at hstep with hcount
      · obtain rfl := Option.some.inj hstep
        -- the guard speaks of a queue that is not empty, as this one is
        rw [handsOn, hpc] at hok
        refine takeEpoll_follows h hlt hpc hcount ?_
        dsimp only at hok
        rw [decide_eq_false hcount, Bool.false_or] at hok
        exact hok
      · obtain rfl := Option.some.inj hstep
        exact Follows.still (goOn_tracks h rfl rfl hrest (Or.inl (by rw [claim, hpc]))
          (Or.inr hempty))
  | clear =>
      have hempty := hw.emptied (Or.inr (Or.inr hpc))
      rw [hpc] at hstep
      obtain rfl := Option.some.inj hstep
      refine Follows.still (h.workerStep (hquiet _) (hother _) ?_ ?_ rfl h.born rfl)
      · refine workerOk_nameless (by rw [hself]; rfl) ?_ ?_
          (h.unclaimed (Or.inl (by rw [claim, hpc]))) (fun hle => ?_)
        · rw [hself]
          exact hempty.1
        · rw [hself]
          exact hempty.2
        · exact absurd hle (hw.created (by rw [hpc]; rfl))
      · rw [hself]
        exact fun _ => rfl

/-- **EVERY STEP** that meets the condition follows the commands. -/
theorem step_follows {a : Act} (h : Tracks s φ) (hok : handsOn s a = true)
    (hstep : step s a = some t) :
    Follows φ t := by
  cases a with
  | main => exact mainStep_follows h hstep
  | command m fd =>
      rw [step] at hstep
      split_ifs at hstep with hcond
      obtain ⟨hat, hpos, hnew⟩ := hcond
      obtain rfl := Option.some.inj hstep
      have hne : ∀ v, s.dispatcher ≠ .setBusy v := by
        intro v heq
        rw [heq] at hat
        exact hat.elim (by rintro ⟨⟩) (by rintro ⟨⟩)
      have hfresh : ∀ i, φ i ≠ .free → (s.slots i).sockfd ≠ fd := by
        rintro i hlive rfl
        exact hnew (h.slots.opened i hlive)
      have hgo := goto_tracks h (d := .line) hne trivial
      refine Follows.still ?_
      constructor
      · exact ⟨hgo.slots.slot, hgo.slots.bound, hgo.slots.fds,
          fun i hi => List.mem_cons_of_mem _ (hgo.slots.opened i hi)⟩
      · intro v
        have hv := hgo.worker v
        exact ⟨hv.claims, hv.held, hv.idle, fun h1 h2 h3 _ => hv.unnamed h1 h2 h3 (by rintro ⟨⟩),
          hv.auto, hv.emptied, hv.conn, hv.epoll, hv.unborn⟩
      · exact { hgo.conns with }
      · exact h.epolls
      · exact ⟨hpos, List.mem_cons_self, hfresh⟩
      · exact h.workspace
      · exact h.born
  | quit =>
      rw [step] at hstep
      split_ifs at hstep with hcond
      obtain rfl := Option.some.inj hstep
      refine Follows.still (h.quiet ⟨rfl, rfl, rfl, fun _ hg => hg, Nat.le_refl _, Nat.le_refl _⟩ rfl
        (Or.inl rfl) h.born (fun v hv => ?_) trivial)
      rw [hcond] at hv
      cases hv
  | endInput =>
      rw [step] at hstep
      split_ifs at hstep with hcond
      obtain rfl := Option.some.inj hstep
      refine Follows.still (endLine_tracks h (fun v heq => ?_))
      rw [heq] at hcond
      exact hcond.elim (by rintro ⟨⟩) (by rintro ⟨⟩)
  | fetch fds =>
      rw [step] at hstep
      split_ifs at hstep with hcond
      obtain rfl := Option.some.inj hstep
      refine Follows.still (h.quiet ⟨rfl, rfl, rfl, fun _ hg => hg, Nat.le_refl _, Nat.le_refl _⟩ rfl
        (Or.inl rfl) h.born (fun v hv => ?_) trivial)
      rw [hcond.1] at hv
      cases hv
  | dispatcher b =>
      rw [step] at hstep
      cases hcommand : commandStep b s s.dispatcher with
      | some u =>
          rw [hcommand] at hstep
          obtain rfl := Option.some.inj hstep
          exact commandStep_follows h rfl hok hcommand
      | none =>
          rw [hcommand] at hstep
          exact patcherStep_follows h rfl hok hstep
  | worker w ok =>
      rw [step] at hstep
      split_ifs at hstep with hlt
      exact workerStep_follows h hlt hok hstep

end Steps

/-! ## Runs -/

/-- Every run that meets the condition follows the lives of its commands. -/
theorem run_tracks {fixedInput : Bool} {as : List Act} {s : State}
    (hrun : (program.guarded handsOn).run (State.start fixedInput) as = some s) :
    ∃ φ, Tracks s φ ∧ Relation.ReflTransGen Move (fun _ => .free) φ := by
  refine Machine.simulate (fun s a t φ h hstep => ?_) (tracks_start fixedInput) hrun
  obtain ⟨hok, hstep'⟩ := Machine.guarded_step.mp hstep
  exact step_follows h hok hstep'

/-- No two workers execute a handler with one connection. -/
def Exclusive (s : State) : Prop :=
  ∀ v w i d e, (s.workers v).pc = .exec d → (s.workers w).pc = .exec e →
    (s.workers v).connIndex = some i → (s.workers w).connIndex = some i → v = w

/-- The command in each slot had each handler called at most once, the one for
    its response after the one for its request returned 0. -/
def InOrder (s : State) : Prop := ∀ i, Orderly (s.slots i).served

/-- **ONE WORKER AT A TIME** has a connection. -/
theorem one_worker {fixedInput : Bool} {as : List Act} {s : State}
    (hrun : (program.guarded handsOn).run (State.start fixedInput) as = some s) :
    Exclusive s := by
  obtain ⟨φ, h, -⟩ := run_tracks hrun
  intro v w i d e hv hw hvi hwi
  have hphase : φ i = running v d := (h.worker v).claims i _ hvi (by rw [claim, hv])
  have hphase' : φ i = running w e := (h.worker w).claims i _ hwi (by rw [claim, hw])
  have hholder := running_holder v d
  rw [← hphase, hphase', running_holder] at hholder
  exact (Option.some.inj hholder).symm

/-- **REQUEST BEFORE RESPONSE**, and each once. -/
theorem request_first {fixedInput : Bool} {as : List Act} {s : State}
    (hrun : (program.guarded handsOn).run (State.start fixedInput) as = some s) :
    InOrder s := by
  obtain ⟨φ, h, -⟩ := run_tracks hrun
  exact fun i => (h.slots.slot i).orderly

/-! ## Some runs -/

/-- Two commands from a terminal, for a worker each. -/
def twoCommands : List Act :=
  boot ++ [.fetch [0]] ++ dispatches 1 ++ [.command .get 3] ++ dispatches 16 ++
    [.command .get 4] ++ dispatches 17

theorem one_worker_twoCommands :
    ∃ s, (program.guarded handsOn).run (State.start false)
        (twoCommands ++ works 0 2 ++ works 1 2) = some s ∧
      ((s.workers 0).pc = .exec .httpRequest ∧ (s.workers 1).pc = .exec .httpRequest) ∧
      Exclusive s := by
  obtain ⟨s, hs, hpc⟩ := (Option.any_eq_true (fun s : State => decide
    ((s.workers 0).pc = .exec .httpRequest ∧ (s.workers 1).pc = .exec .httpRequest)) _).mp
    (show ((program.guarded handsOn).run (State.start false)
      (twoCommands ++ works 0 2 ++ works 1 2)).any _ = true by decide +kernel)
  exact ⟨s, hs, of_decide_eq_true hpc, one_worker hs⟩

theorem request_first_twoCommands :
    ∃ s, (program.guarded handsOn).run (State.start false)
        (twoCommands ++ works 0 10 ++ [.endInput] ++ dispatches 1 ++ [.fetch [3]] ++
          dispatches 16 ++ works 0 3) = some s ∧
      (s.slots 0).served.responses = 1 ∧ InOrder s := by
  obtain ⟨s, hs, hone⟩ := (Option.any_eq_true (fun s : State => decide
    ((s.slots 0).served.responses = 1)) _).mp
    (show ((program.guarded handsOn).run (State.start false)
      (twoCommands ++ works 0 10 ++ [.endInput] ++ dispatches 1 ++ [.fetch [3]] ++
        dispatches 16 ++ works 0 3)).any _ = true by decide +kernel)
  exact ⟨s, hs, of_decide_eq_true hone, request_first hs⟩

/-- Two commands in a file, and both connections readable before a worker has
    come to them. -/
def twoEarly : List Act :=
  [.command .get 3] ++ dispatches 8 ++ [.command .get 4] ++ dispatches 9 ++ [.endInput] ++ boot ++
    [.fetch [3, 4]] ++ dispatches 30

/-- The first of them is handled by two workers: one was given the event, the
    other took the command from the queue. -/
theorem twoEarly_not_exclusive :
    ¬ ∀ fixedInput as s, program.run (State.start fixedInput) as = some s → Exclusive s := by
  intro hall
  obtain ⟨s, hs, hboth⟩ := (Option.any_eq_true (fun s : State => decide
    (((s.workers 0).pc = .exec .httpResponse ∧ (s.workers 0).connIndex = some 0) ∧
      (s.workers 1).pc = .exec .httpRequest ∧ (s.workers 1).connIndex = some 0)) _).mp
    (show (program.run (State.start true) (twoEarly ++ works 0 2 ++ works 1 9)).any _ = true by
      decide +kernel)
  obtain ⟨⟨hpc, hname⟩, hpc', hname'⟩ := of_decide_eq_true hboth
  exact absurd (hall true _ s hs 0 1 0 _ _ hpc hpc' hname hname') (by decide)

/-- Its response comes before its request. -/
theorem twoEarly_not_inOrder :
    ¬ ∀ fixedInput as s, program.run (State.start fixedInput) as = some s → InOrder s := by
  intro hall
  obtain ⟨s, hs, hearly⟩ := (Option.any_eq_true (fun s : State => (s.slots 0).served.early) _).mp
    (show (program.run (State.start true) (twoEarly ++ works 0 2)).any _ = true by decide +kernel)
  rw [(hall true _ s hs 0).2.2] at hearly
  cases hearly

end Exclusion
