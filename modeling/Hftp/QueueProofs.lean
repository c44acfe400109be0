import Hftp.ThreadsProofs

/-! # The two event queues

    Connections that found no idle worker wait in `g_conn_event_queue`, and
    readiness events in `g_epoll_event_queue`.  Both are ring buffers of 256
    entries, and as many as 512 connections may wait.  An enqueue does not look
    at the count and always returns 0, so the queues are queues as long as no
    event comes when 256 wait. -/

namespace Queue

open RingBuffer Threads

/-- `g_conn_event_queue`, with its start index and its count. -/
abbrev ConnQueue := RingBuf ConnEvent

/-- `g_epoll_event_queue`; of an event nobody reads more than `data.fd`. -/
abbrev EpollQueue := RingBuf Nat

/-- The memory is zeroed at the start. -/
def ConnQueue.zero : ConnQueue := .empty { sockfd := 0, connIndex := 0 }

def EpollQueue.zero : EpollQueue := .empty 0

/-! ## The functions

    The entry is written behind the last one, or over the first if the count is
    256 already. -/

def enqueueConnEvent (inEv : ConnEvent) (q : ConnQueue) : Int × ConnQueue :=
  (0, q.enqueue connEventQueueMax inEv)

/-- The entry that is returned stands in for `*out_ev`. -/
def dequeueConnEvent (q : ConnQueue) : Int × ConnEvent × ConnQueue :=
  (0, q.head connEventQueueMax, q.dequeue connEventQueueMax)

def connQueueHaveConnIndex (connIndex : Nat) (q : ConnQueue) : Int :=
  if q.findFrom connEventQueueMax (fun e => e.connIndex = connIndex) q.count 0 then 1 else 0

def enqueueEpollEvent (inEv : Nat) (q : EpollQueue) : Int × EpollQueue :=
  (0, q.enqueue epollEventQueueMax inEv)

def dequeueEpollEvent (q : EpollQueue) : Int × Nat × EpollQueue :=
  (0, q.head epollEventQueueMax, q.dequeue epollEventQueueMax)

def epollQueueHaveSockfd (sockfd : Nat) (q : EpollQueue) : Int :=
  if q.findFrom epollEventQueueMax (fun fd => fd = sockfd) q.count 0 then 1 else 0

/-! ## As the program calls them

    `epoll_worker` takes an event out only if the count is not zero, and whoever
    puts one in takes it for stored if 0 is returned. -/

def connStep (q : ConnQueue) : Op ConnEvent → Option (Result ConnEvent × ConnQueue)
  | .enqueue inEv =>
      let (code, q') := enqueueConnEvent inEv q
      some (.stored (code = 0), q')
  | .dequeue =>
      if q.count ≠ 0 then
        let (_, cev, q') := dequeueConnEvent q
        some (.taken cev, q')
      else none

def epollStep (q : EpollQueue) : Op Nat → Option (Result Nat × EpollQueue)
  | .enqueue inEv =>
      let (code, q') := enqueueEpollEvent inEv q
      some (.stored (code = 0), q')
  | .dequeue =>
      if q.count ≠ 0 then
        let (_, eev, q') := dequeueEpollEvent q
        some (.taken eev, q')
      else none

/-- The count is in bounds, and the search says what the queue holds. -/
structure ConnAgrees (q : ConnQueue) (left : List ConnEvent) : Prop where
  count : q.count ≤ connEventQueueMax
  search : ∀ i, connQueueHaveConnIndex i q = 1 ↔ ∃ e ∈ left, e.connIndex = i

structure EpollAgrees (q : EpollQueue) (left : List Nat) : Prop where
  count : q.count ≤ epollEventQueueMax
  search : ∀ fd, epollQueueHaveSockfd fd q = 1 ↔ ∃ e ∈ left, e = fd

/-- `g_conn_event_queue` behaves as a queue of at most 256 entries. -/
def ConnFaithful (ops : List (Op ConnEvent)) : Prop :=
  Faithful connEventQueueMax connStep ConnAgrees .zero [] ops

/-- `g_epoll_event_queue` behaves as a queue of at most 256 entries. -/
def EpollFaithful (ops : List (Op Nat)) : Prop :=
  Faithful epollEventQueueMax epollStep EpollAgrees .zero [] ops

/-! ## Both are ring buffers -/

theorem connStep_eq : connStep = RingBuf.step connEventQueueMax := by
  ext q op
  cases op with
  | enqueue inEv => rfl
  | dequeue =>
      by_cases hcount : q.count = 0
      · rw [connStep, RingBuf.step, if_pos hcount, if_neg (not_not.mpr hcount)]
      · rw [connStep, RingBuf.step, if_neg hcount, if_pos hcount]
        rfl

theorem epollStep_eq : epollStep = RingBuf.step epollEventQueueMax := by
  ext q op
  cases op with
  | enqueue inEv => rfl
  | dequeue =>
      by_cases hcount : q.count = 0
      · rw [epollStep, RingBuf.step, if_pos hcount, if_neg (not_not.mpr hcount)]
      · rw [epollStep, RingBuf.step, if_neg hcount, if_pos hcount]
        rfl

/-- **THE SEARCH FOR A CONNECTION** finds what the queue holds. -/
theorem connQueueHaveConnIndex_iff (i : Nat) (q : ConnQueue) :
    connQueueHaveConnIndex i q = 1 ↔ ∃ e ∈ q.contents connEventQueueMax, e.connIndex = i := by
  rw [connQueueHaveConnIndex]
  split_ifs with hfind
  · obtain ⟨e, hmem, he⟩ := RingBuf.findFrom_contents.mp hfind
    exact ⟨fun _ => ⟨e, hmem, of_decide_eq_true he⟩, fun _ => rfl⟩
  · refine ⟨by rintro ⟨⟩, ?_⟩
    rintro ⟨e, hmem, he⟩
    exact absurd (RingBuf.findFrom_contents.mpr ⟨e, hmem, decide_eq_true he⟩) hfind

/-- **THE SEARCH FOR A DESCRIPTOR** finds what the queue holds. -/
theorem epollQueueHaveSockfd_iff (fd : Nat) (q : EpollQueue) :
    epollQueueHaveSockfd fd q = 1 ↔ ∃ e ∈ q.contents epollEventQueueMax, e = fd := by
  rw [epollQueueHaveSockfd]
  split_ifs with hfind
  · obtain ⟨e, hmem, he⟩ := RingBuf.findFrom_contents.mp hfind
    exact ⟨fun _ => ⟨e, hmem, of_decide_eq_true he⟩, fun _ => rfl⟩
  · refine ⟨by rintro ⟨⟩, ?_⟩
    rintro ⟨e, hmem, he⟩
    exact absurd (RingBuf.findFrom_contents.mpr ⟨e, hmem, decide_eq_true he⟩) hfind

/-- The threads ask the same questions. -/
theorem connQueueHave_iff (s : State) (i : Nat) :
    s.connQueueHave i = true ↔ connQueueHaveConnIndex i s.connQueue = 1 := by
  rw [connQueueHaveConnIndex_iff, State.connQueueHave, List.any_eq_true]
  constructor
  · rintro ⟨e, hmem, he⟩
    exact ⟨e, hmem, of_decide_eq_true he⟩
  · rintro ⟨e, hmem, he⟩
    exact ⟨e, hmem, decide_eq_true he⟩

theorem epollQueueHave_iff (s : State) (fd : Nat) :
    s.epollQueueHave fd = true ↔ epollQueueHaveSockfd fd s.epollQueue = 1 := by
  rw [epollQueueHaveSockfd_iff, State.epollQueueHave, List.any_eq_true]
  constructor
  · rintro ⟨e, hmem, he⟩
    exact ⟨e, hmem, of_decide_eq_true he⟩
  · rintro ⟨e, hmem, he⟩
    exact ⟨e, hmem, decide_eq_true he⟩

/-! ## First in, first out -/

theorem connFaithful_iff {ops : List (Op ConnEvent)} (hadm : Admissible 0 ops) :
    ConnFaithful ops ↔ Fits connEventQueueMax 0 ops := by
  rw [ConnFaithful, connStep_eq]
  have hagrees : ∀ q : ConnQueue, q.count ≤ connEventQueueMax →
      ConnAgrees q (q.contents connEventQueueMax) :=
    fun q hcount => ⟨hcount, fun i => connQueueHaveConnIndex_iff i q⟩
  exact RingBuf.faithful_iff hagrees (r := ConnQueue.zero) (Nat.zero_le _) hadm

theorem epollFaithful_iff {ops : List (Op Nat)} (hadm : Admissible 0 ops) :
    EpollFaithful ops ↔ Fits epollEventQueueMax 0 ops := by
  rw [EpollFaithful, epollStep_eq]
  have hagrees : ∀ q : EpollQueue, q.count ≤ epollEventQueueMax →
      EpollAgrees q (q.contents epollEventQueueMax) :=
    fun q hcount => ⟨hcount, fun fd => epollQueueHaveSockfd_iff fd q⟩
  exact RingBuf.faithful_iff hagrees (r := EpollQueue.zero) (Nat.zero_le _) hadm

/-- **BOTH QUEUES ARE FAITHFUL** exactly as long as no event comes when 256 wait. -/
theorem both_faithful {conns : List (Op ConnEvent)} {epolls : List (Op Nat)}
    (hconns : Admissible 0 conns) (hepolls : Admissible 0 epolls) :
    ConnFaithful conns ∧ EpollFaithful epolls ↔
      Fits connEventQueueMax 0 conns ∧ Fits epollEventQueueMax 0 epolls := by
  rw [connFaithful_iff hconns, epollFaithful_iff hepolls]

/-- Two connections wait and are taken; an event waits, is taken, and another
    comes. -/
theorem both_faithful_few :
    ConnFaithful [.enqueue ⟨3, 0⟩, .enqueue ⟨4, 1⟩, .dequeue, .dequeue] ∧
      EpollFaithful [.enqueue 3, .dequeue, .enqueue 4] :=
  (both_faithful (by decide) (by decide)).mpr ⟨by simp [Fits, connEventQueueMax],
    by simp [Fits, epollEventQueueMax]⟩

/-- So many connections, one in each slot, come while no worker is idle. -/
def crowd (n : Nat) : List (Op ConnEvent) :=
  ((List.range n).map fun i => { sockfd := i + 3, connIndex := i }).map .enqueue

/-- The 257th connection is written over the first. -/
theorem crowd_unfaithful :
    Admissible 0 (crowd 257) ∧ (crowd 257).length ≤ epollInstanceMaxSockfd ∧
      ¬ ConnFaithful (crowd 257) := by
  have hadm : Admissible 0 (crowd 257) := admissible_enqueues 0 _
  refine ⟨hadm, ?_, fun hfaithful => ?_⟩
  · rw [crowd, List.length_map, List.length_map, List.length_range]
    decide
  · have hfits := (connFaithful_iff hadm).mp hfaithful
    have hlen := (fits_enqueues (Nat.zero_le _)).mp hfits
    rw [List.length_map, List.length_range] at hlen
    exact absurd hlen (by decide)

end Queue
