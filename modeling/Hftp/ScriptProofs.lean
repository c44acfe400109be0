import Hftp.InputHandlingProofs

/-! # A line of commands

    A file of commands is read once, before there is a worker: `input_handling` takes
    its first line, and the commands of the line are carried out one after the other
    while nothing else runs.  So what they leave can be told from the line: the
    command that was accepted as the `k`-th is in slot `k`, the first ones have the
    workers, if there are any, and the others wait in the order of the line.

    The queue has 256 places and the table 512.  From the 257th command that waits
    on, the oldest is overwritten; from the 513th on, a socket stays open. -/

namespace Script

open CBytes HttpCore HttpMethod RingBuffer SingleCommand CommandLines InputHandling
open Threads (ConnEvent epollInstanceMaxSockfd connEventQueueMax)

/-! ## Which commands are accepted -/

/-- A call of `interprete_single_command`, with what the system answers and what
    lies on the stack. -/
structure Call where
  net : Net
  stack : Stack
  str : Bytes

/-- A command with its socket, as its text was read. -/
structure Entry where
  fd : Nat
  text : Locals

/-- The command is read and connected. -/
structure Call.Accepts (c : Call) (e : Entry) : Prop where
  read : readCommand c.str c.stack = .ok (some e.text)
  readable : Readable e.text
  dials : Dials c.net e.text e.fd
  sockfd : e.fd ≠ 0
  registers : c.net.registers = true

/-- The command is rejected with its usage, or not connected. -/
def Call.Rejects (c : Call) : Prop :=
  readCommand c.str c.stack = .ok none ∨
    ∃ l, readCommand c.str c.stack = .ok (some l) ∧ (untilNul l.domain).isSome = true ∧
      ∀ fd, ¬ Dials c.net l fd

/-- What is accepted of a number of calls. -/
inductive Accepted : List Call → List Entry → Prop where
  | nil : Accepted [] []
  | accepts {c : Call} {e : Entry} {calls : List Call} {entries : List Entry} (h : c.Accepts e)
      (rest : Accepted calls entries) : Accepted (c :: calls) (e :: entries)
  | rejects {c : Call} {calls : List Call} {entries : List Entry} (h : c.Rejects)
      (rest : Accepted calls entries) : Accepted (c :: calls) entries

/-- The calls, one after the other. -/
def perform : List Call → Globals → Except Abort Globals
  | [], g => .ok g
  | c :: calls, g => do
      let (_, g) ← interpreteSingleCommand c.net c.str c.stack g
      perform calls g

/-! ## The table -/

/-- The workers that `get_idle_work_thread_index_not_safety` looks at. -/
def servers (g : Globals) : Nat := min 64 g.workspaceCount

/-- Nothing is in use. -/
structure Fresh (g : Globals) : Prop where
  slots : ∀ i, (g.connWorkspace i).sockfd = 0
  workers : ∀ w, (g.workspaces w).connIndex = none ∧ (g.workspaces w).busy = false
  queue : g.connQueue.count = 0

/-- What waits: the entries behind the first ones, with their slots. -/
def waiting (first : Nat) (held : List Entry) : List ConnEvent :=
  (held.zipIdx.drop first).map fun ek => { sockfd := ek.1.fd, connIndex := ek.2 }

theorem waiting_append (first : Nat) (held : List Entry) (e : Entry) :
    waiting first (held ++ [e]) = waiting first held ++
      if held.length < first then [] else [{ sockfd := e.fd, connIndex := held.length }] := by
  rw [waiting, List.zipIdx_append, List.drop_append, List.map_append, List.length_zipIdx]
  congr 1
  split_ifs with h
  · rw [List.drop_eq_nil_of_le (by simp; omega), List.map_nil]
  · rw [Nat.sub_eq_zero_of_le (Nat.not_lt.mp h), List.drop_zero]
    simp

/-- The work of a worker that has the command of slot `k`. -/
def working (k : Nat) (e : Entry) (before : Workspace) : Workspace :=
  { httpProcess := some .httpRequest, connIndex := some k,
    chunks := paramSetChunks e.text.method before.chunks, busy := true }

/-- The entries are in the slots of their numbers, the first ones have the workers,
    and the others are in the queue. -/
structure Table (g₀ : Globals) (held : List Entry) (g : Globals) : Prop where
  workspaceCount : g.workspaceCount = g₀.workspaceCount
  sockets : ∀ e ∈ held, e.fd ≠ 0
  slots : ∀ k e, held[k]? = some e → ∃ conn,
    fillSlot (g₀.connWorkspace k) e.fd e.text = .ok conn ∧
      g.connWorkspace k =
        if k < servers g₀ then { conn with clb := paramSet conn.method k } else conn
  free : ∀ k, held.length ≤ k → g.connWorkspace k = g₀.connWorkspace k
  workers : ∀ w e, held[w]? = some e → w < servers g₀ →
    g.workspaces w = working w e (g₀.workspaces w)
  idle : ∀ w, ¬ (w < held.length ∧ w < servers g₀) → g.workspaces w = g₀.workspaces w
  waits : g.connQueue.count = held.length - servers g₀
  inOrder : held.length ≤ servers g₀ + connEventQueueMax →
    g.connQueue.contents connEventQueueMax = waiting (servers g₀) held
  queued : ∀ x ∈ g.connQueue.contents connEventQueueMax, x.connIndex < held.length
  remainCount : g.remainCount = g₀.remainCount + held.length
  registered : g.registered = (held.map Entry.fd).reverse ++ g₀.registered
  epollQueue : g.epollQueue = g₀.epollQueue

/-! ## One command more -/

section One

variable {g₀ g : Globals} {held : List Entry} {c : Call} {e : Entry}

/-- An entry of the longer table is one of the shorter, or the last. -/
theorem entry_snoc {k : Nat} {e' : Entry} (h : (held ++ [e])[k]? = some e') :
    (k < held.length ∧ held[k]? = some e') ∨ (k = held.length ∧ e' = e) := by
  rw [List.getElem?_append] at h
  split_ifs at h with hk
  · exact Or.inl ⟨hk, h⟩
  · obtain ⟨hlt, he⟩ := List.getElem?_eq_some_iff.mp h
    rw [List.length_singleton] at hlt
    have hzero : k - held.length = 0 := by omega
    refine Or.inr ⟨by omega, ?_⟩
    rw [List.getElem_singleton] at he
    exact he.symm

theorem fillSlot_fields {conn conn' : HttpConnection} {fd : Nat} {l : Locals}
    (h : fillSlot conn fd l = .ok conn') : conn'.sockfd = fd ∧ conn'.method = l.method := by
  rw [fillSlot] at h
  cases hd : untilNul l.domain with
  | none =>
      rw [hd] at h
      cases h
  | some domain =>
      cases hr : untilNul l.remoteDir with
      | none =>
          rw [hd, hr] at h
          cases h
      | some remoteDir =>
          cases hl : untilNul l.localDir with
          | none =>
              rw [hd, hr, hl] at h
              cases h
          | some localDir =>
              rw [hd, hr, hl] at h
              rw [← Except.ok.inj h]
              exact ⟨rfl, rfl⟩

/-- A fresh table is that of no command. -/
theorem Fresh.table (hfresh : Fresh g₀) : Table g₀ [] g₀ where
  workspaceCount := rfl
  sockets := fun e he => by cases he
  slots := fun k e he => by cases he
  free := fun _ _ => rfl
  workers := fun w e he => by cases he
  idle := fun _ _ => rfl
  waits := by rw [hfresh.queue, List.length_nil, Nat.zero_sub]
  inOrder := by
    intro _
    rw [RingBuf.contents_eq_nil.mpr hfresh.queue, waiting, List.zipIdx_nil, List.drop_nil,
      List.map_nil]
  queued := by
    intro x hx
    rw [RingBuf.contents_eq_nil.mpr hfresh.queue] at hx
    cases hx
  remainCount := (Int.add_zero _).symm
  registered := rfl
  epollQueue := rfl

theorem Table.sockfd (h : Table g₀ held g) {k : Nat} (hk : held[k]? = some e) :
    (g.connWorkspace k).sockfd = e.fd := by
  obtain ⟨conn, hfill, hslot⟩ := h.slots k e hk
  rw [hslot]
  split_ifs <;> exact (fillSlot_fields hfill).1

/-- A worker has a slot of the table. -/
theorem Table.connIndex_lt (hfresh : Fresh g₀) (h : Table g₀ held g) {w k : Nat}
    (hk : (g.workspaces w).connIndex = some k) : k < held.length := by
  by_cases hw : w < held.length ∧ w < servers g₀
  · have hentry := h.workers w held[w] (List.getElem?_eq_getElem hw.1) hw.2
    rw [hentry] at hk
    have hwk : w = k := Option.some.inj hk
    rw [← hwk]
    exact hw.1
  · rw [h.idle w hw, (hfresh.workers w).1] at hk
    cases hk

/-- The first free slot is the one behind the table. -/
theorem Table.findSlot_eq (hfresh : Fresh g₀) (h : Table g₀ held g) :
    findSlot g = if held.length < epollInstanceMaxSockfd then some held.length else none := by
  have htaken : ∀ j, j < held.length → slotTaken g j = true := by
    intro j hj
    have hsock := h.sockfd (List.getElem?_eq_getElem hj)
    have hne := h.sockets held[j] (List.getElem_mem hj)
    have hfd : (g.connWorkspace j).sockfd ≠ 0 := by
      rw [hsock]
      exact Int.natCast_ne_zero.mpr hne
    rw [slotTaken, decide_eq_true hfd]
    rfl
  have hfree : slotTaken g held.length = false := by
    have hsock : (g.connWorkspace held.length).sockfd = 0 := by
      rw [h.free _ (Nat.le_refl _)]
      exact hfresh.slots _
    have hworker : (List.range g.workspaceCount).any
        (fun j => (g.workspaces j).connIndex = some held.length) = false := by
      refine List.any_eq_false.mpr (fun j _ hj => ?_)
      exact Nat.lt_irrefl _ (h.connIndex_lt hfresh (of_decide_eq_true hj))
    have hqueue : (g.connQueue.contents connEventQueueMax).any
        (fun x => x.connIndex = held.length) = false := by
      refine List.any_eq_false.mpr (fun x hx hj => ?_)
      exact absurd (of_decide_eq_true hj) (Nat.ne_of_lt (h.queued x hx))
    rw [slotTaken, hsock, hworker, hqueue]
    rfl
  rw [findSlot]
  split_ifs with hroom
  · refine List.find?_range_eq_some.mpr ⟨?_, List.mem_range.mpr hroom, fun j hj => ?_⟩
    · rw [hfree]
      rfl
    · rw [htaken j hj]
      rfl
  · refine List.find?_range_eq_none.mpr (fun j hj => ?_)
    rw [htaken j (by omega)]
    rfl

/-- The first idle worker is the one with the number of the slot. -/
theorem Table.idleWorker_eq (hfresh : Fresh g₀) (h : Table g₀ held g) :
    idleWorker g = if held.length < servers g₀ then some held.length else none := by
  have hbusy : ∀ w, w < held.length → w < servers g₀ → (g.workspaces w).busy = true := by
    intro w hw hserver
    rw [h.workers w held[w] (List.getElem?_eq_getElem hw) hserver]
    rfl
  rw [idleWorker, h.workspaceCount]
  split_ifs with hfirst
  · refine List.find?_range_eq_some.mpr ⟨?_, List.mem_range.mpr hfirst, fun w hw => ?_⟩
    · rw [h.idle _ (by omega), (hfresh.workers _).2]
      rfl
    · rw [hbusy w hw (by omega)]
      rfl
  · refine List.find?_range_eq_none.mpr (fun w hw => ?_)
    have hserver : w < servers g₀ := hw
    rw [hbusy w (by omega) hserver]
    rfl

/-- The globals when the slot is filled and the socket registered. -/
def seated (g : Globals) (i fd : Nat) (conn : HttpConnection) : Globals :=
  { g with connWorkspace := Function.update g.connWorkspace i conn, openFds := fd :: g.openFds,
           registered := fd :: g.registered, remainCount := g.remainCount + 1 }

/-- **AN ACCEPTED COMMAND** takes the first free slot; if there is none, its socket is
    left open. -/
theorem accepts_eq (hacc : c.Accepts e) :
    (findSlot g = none → interpreteSingleCommand c.net c.str c.stack g =
      .ok (1, { g with openFds := e.fd :: g.openFds })) ∧
    ∀ i conn, findSlot g = some i → fillSlot (g.connWorkspace i) e.fd e.text = .ok conn →
      interpreteSingleCommand c.net c.str c.stack g =
        .ok (0, assignSlot (seated g i e.fd conn) i e.fd) := by
  have hdial := (dial_eq e.text g).1 e.fd hacc.dials
  constructor
  · intro hnone
    simp only [interpreteSingleCommand, hacc.read, bind, Except.bind, hdial, findSlot_openFds,
      hnone]
    rfl
  · intro i conn hsome hfill
    simp only [interpreteSingleCommand, hacc.read, bind, Except.bind, hdial, findSlot_openFds,
      hsome, hfill, hacc.registers, if_true]
    rfl

/-- The slots with one command more. -/
theorem Table.slots_snoc (h : Table g₀ held g) {conn conn' : HttpConnection}
    (hfill : fillSlot (g₀.connWorkspace held.length) e.fd e.text = .ok conn)
    (hconn : conn' = if held.length < servers g₀ then
      { conn with clb := paramSet conn.method held.length } else conn) :
    ∀ k e', (held ++ [e])[k]? = some e' → ∃ filled,
      fillSlot (g₀.connWorkspace k) e'.fd e'.text = .ok filled ∧
        Function.update g.connWorkspace held.length conn' k =
          if k < servers g₀ then { filled with clb := paramSet filled.method k } else filled := by
  intro k e' hk
  rcases entry_snoc hk with ⟨hlt, hk⟩ | ⟨rfl, rfl⟩
  · rw [Function.update_of_ne (Nat.ne_of_lt hlt)]
    exact h.slots k e' hk
  · rw [Function.update_self]
    exact ⟨conn, hfill, hconn⟩

/-- **THE TABLE GROWS** by an accepted command. -/
theorem Table.push (hfresh : Fresh g₀) (h : Table g₀ held g) (hfd : e.fd ≠ 0)
    {conn : HttpConnection}
    (hfill : fillSlot (g.connWorkspace held.length) e.fd e.text = .ok conn) :
    Table g₀ (held ++ [e]) (assignSlot (seated g held.length e.fd conn) held.length e.fd) := by
  have hsockets : ∀ e' ∈ held ++ [e], e'.fd ≠ 0 := by
    intro e' he'
    rcases List.mem_append.mp he' with hin | hlast
    · exact h.sockets e' hin
    · rw [List.mem_singleton.mp hlast]
      exact hfd
  rw [h.free _ (Nat.le_refl _)] at hfill
  have hlen : (held ++ [e]).length = held.length + 1 := by
    rw [List.length_append, List.length_singleton]
  have hremain : g.remainCount + 1 = g₀.remainCount + ((held ++ [e]).length : Nat) := by
    rw [h.remainCount, hlen]
    omega
  have hregistered : e.fd :: g.registered =
      ((held ++ [e]).map Entry.fd).reverse ++ g₀.registered := by
    rw [h.registered, List.map_append, List.reverse_append]
    rfl
  have hidle : idleWorker (seated g held.length e.fd conn) = idleWorker g := rfl
  rw [assignSlot, hidle, h.idleWorker_eq hfresh]
  by_cases hfirst : held.length < servers g₀
  · -- a worker has it
    rw [if_pos hfirst]
    refine { workspaceCount := h.workspaceCount, sockets := hsockets, slots := ?_, free := ?_,
             workers := ?_, idle := ?_, waits := ?_, inOrder := ?_, queued := ?_,
             remainCount := hremain, registered := hregistered, epollQueue := h.epollQueue }
    · simp only [seated, Globals.setSlot, Function.update_self, Function.update_idem]
      exact h.slots_snoc hfill (if_pos hfirst).symm
    · intro k hk
      rw [hlen] at hk
      simp only [seated, Globals.setSlot, Function.update_self, Function.update_idem]
      rw [Function.update_of_ne (by omega)]
      exact h.free k (by omega)
    · intro w e' hw hserver
      rcases entry_snoc hw with ⟨hlt, hw⟩ | ⟨rfl, rfl⟩
      · have hne : w ≠ held.length := by omega
        show Function.update g.workspaces held.length _ w = _
        rw [Function.update_of_ne hne]
        exact h.workers w e' hw hserver
      · show Function.update g.workspaces held.length _ held.length = _
        rw [Function.update_self]
        simp only [seated, Function.update_self, (fillSlot_fields hfill).2]
        rw [working, h.idle held.length (by omega)]
    · intro w hw
      rw [hlen] at hw
      show Function.update g.workspaces held.length _ w = _
      rw [Function.update_of_ne (by omega)]
      exact h.idle w (by omega)
    · show g.connQueue.count = _
      rw [h.waits, hlen]
      omega
    · intro _
      show g.connQueue.contents connEventQueueMax = _
      rw [h.inOrder (by omega), waiting_append, if_pos hfirst, List.append_nil]
    · intro x hx
      rw [hlen]
      exact Nat.lt_succ_of_lt (h.queued x hx)
  · -- the queue has it
    rw [if_neg hfirst]
    refine { workspaceCount := h.workspaceCount, sockets := hsockets, slots := ?_, free := ?_,
             workers := ?_, idle := ?_, waits := ?_, inOrder := ?_, queued := ?_,
             remainCount := hremain, registered := hregistered, epollQueue := h.epollQueue }
    · exact h.slots_snoc hfill (if_neg hfirst).symm
    · intro k hk
      rw [hlen] at hk
      show Function.update g.connWorkspace held.length conn k = _
      rw [Function.update_of_ne (by omega)]
      exact h.free k (by omega)
    · intro w e' hw hserver
      rcases entry_snoc hw with ⟨hlt, hw⟩ | ⟨rfl, rfl⟩
      · exact h.workers w e' hw hserver
      · exact absurd hserver hfirst
    · intro w hw
      rw [hlen] at hw
      exact h.idle w (by omega)
    · show g.connQueue.count + 1 = _
      rw [h.waits, hlen]
      omega
    · intro hroom
      rw [hlen] at hroom
      have hcount : g.connQueue.count < connEventQueueMax := by
        rw [h.waits]
        omega
      show (g.connQueue.enqueue connEventQueueMax _).contents connEventQueueMax = _
      rw [RingBuf.contents_enqueue _ hcount, h.inOrder (by omega), waiting_append, if_neg hfirst]
    · intro x hx
      rw [hlen]
      rcases RingBuf.mem_enqueue hx with rfl | hold
      · exact Nat.lt_succ_self _
      · exact Nat.lt_succ_of_lt (h.queued x hold)

theorem assignSlot_openFds (g : Globals) (i fd : Nat) :
    (assignSlot g i fd).openFds = g.openFds := by
  rw [assignSlot]
  cases idleWorker g with
  | some w => rfl
  | none => rfl

/-- The table does not tell which descriptors are open. -/
theorem Table.leaves (h : Table g₀ held g) (fds : List Nat) :
    Table g₀ held { g with openFds := fds } where
  workspaceCount := h.workspaceCount
  sockets := h.sockets
  slots := h.slots
  free := h.free
  workers := h.workers
  idle := h.idle
  waits := h.waits
  inOrder := h.inOrder
  queued := h.queued
  remainCount := h.remainCount
  registered := h.registered
  epollQueue := h.epollQueue

/-- A name that is a string is looked up, whatever comes of it. -/
theorem dial_ends {net : Net} {l : Locals} (hdomain : (untilNul l.domain).isSome = true)
    (g : Globals) : ∃ r, dial net l g = .ok r := by
  obtain ⟨host, hhost⟩ := Option.isSome_iff_exists.mp hdomain
  rw [dial, hhost]
  dsimp only
  by_cases hresolves : net.resolves host = true
  · rw [if_pos hresolves]
    cases net.socket with
    | none => exact ⟨_, rfl⟩
    | some fd =>
        dsimp only
        by_cases hconnects : net.connects host l.port = true
        · rw [if_pos hconnects]
          exact ⟨_, rfl⟩
        · rw [if_neg hconnects]
          exact ⟨_, rfl⟩
  · rw [if_neg hresolves]
    exact ⟨_, rfl⟩

theorem rejects_eq (h : c.Rejects) (g : Globals) :
    interpreteSingleCommand c.net c.str c.stack g = .ok (1, g) := by
  rw [interpreteSingleCommand]
  rcases h with hread | ⟨l, hread, hdomain, hnot⟩
  · rw [hread]
    rfl
  · obtain ⟨r, hdial⟩ := dial_ends hdomain g
    rw [(dial_eq l g).2 r hnot hdial] at hdial
    simp only [hread, bind, Except.bind, hdial]
    rfl

end One

/-! ## A line of commands -/

section Line

variable {g₀ g : Globals} {held entries : List Entry} {calls : List Call}

/-- **ALL CALLS**: what was accepted is in the table as far as the table goes, and
    every socket is open. -/
theorem perform_table (hfresh : Fresh g₀) (hacc : Accepted calls entries) :
    ∀ {held : List Entry} {g : Globals}, Table g₀ held g → held.length ≤ epollInstanceMaxSockfd →
      ∃ g', perform calls g = .ok g' ∧
        Table g₀ ((held ++ entries).take epollInstanceMaxSockfd) g' ∧
        g'.openFds = (entries.map Entry.fd).reverse ++ g.openFds := by
  induction hacc with
  | nil =>
      intro held g h hlen
      refine ⟨g, rfl, ?_, rfl⟩
      rw [List.append_nil, List.take_of_length_le hlen]
      exact h
  | @accepts c e calls entries hc rest ih =>
      intro held g h hlen
      have hfds : ∀ fds : List Nat, (entries.map Entry.fd).reverse ++ e.fd :: fds =
          ((e :: entries).map Entry.fd).reverse ++ fds := by
        intro fds
        simp
      by_cases hroom : held.length < epollInstanceMaxSockfd
      · have hslot : findSlot g = some held.length := by rw [h.findSlot_eq hfresh, if_pos hroom]
        obtain ⟨conn, hfill⟩ := fillSlot_readable.mpr hc.readable
        have hpush := h.push hfresh hc.sockfd hfill
        obtain ⟨g', hrun, htable, hopen⟩ := ih hpush (by
          rw [List.length_append, List.length_singleton]
          exact hroom)
        refine ⟨g', ?_, ?_, ?_⟩
        · rw [perform, (accepts_eq hc).2 _ conn hslot hfill]
          exact hrun
        · rw [List.append_assoc] at htable
          exact htable
        · rw [hopen, assignSlot_openFds]
          exact hfds g.openFds
      · have hslot : findSlot g = none := by rw [h.findSlot_eq hfresh, if_neg hroom]
        have hfull : held.length = epollInstanceMaxSockfd := by omega
        obtain ⟨g', hrun, htable, hopen⟩ := ih (h.leaves (e.fd :: g.openFds)) hlen
        refine ⟨g', ?_, ?_, ?_⟩
        · rw [perform, (accepts_eq hc).1 hslot]
          exact hrun
        · rw [List.take_left' hfull] at htable ⊢
          exact htable
        · rw [hopen]
          exact hfds g.openFds
  | @rejects c calls entries hc rest ih =>
      intro held g h hlen
      obtain ⟨g', hrun, hleft⟩ := ih h hlen
      refine ⟨g', ?_, hleft⟩
      rw [perform, rejects_eq hc]
      exact hrun

theorem waiting_connIndex {first i : Nat} {x : ConnEvent}
    (h : (waiting first held)[i]? = some x) : x.connIndex = first + i := by
  rw [waiting, List.getElem?_map, List.getElem?_drop, List.getElem?_zipIdx] at h
  obtain ⟨ek, hek, rfl⟩ := Option.map_eq_some_iff.mp h
  obtain ⟨e, -, rfl⟩ := Option.map_eq_some_iff.mp hek
  exact Nat.zero_add _

/-- **THE QUEUE IS THE REST OF THE LINE** as long as it has room. -/
theorem Table.inOrder_iff (h : Table g₀ held g) :
    g.connQueue.contents connEventQueueMax = waiting (servers g₀) held ↔
      held.length ≤ servers g₀ + connEventQueueMax := by
  refine ⟨fun heq => ?_, h.inOrder⟩
  by_contra hmany
  have hcount : connEventQueueMax < g.connQueue.count := by
    rw [h.waits]
    omega
  have hget : ∀ i, i < g.connQueue.count → (waiting (servers g₀) held)[i]? =
      some (g.connQueue.cells ((g.connQueue.start + i) % connEventQueueMax)) := by
    intro i hi
    rw [← heq, RingBuf.contents, List.getElem?_map, List.getElem?_range hi]
    rfl
  -- the entry behind the last place is over the first
  have hfirst := hget 0 (by omega)
  have hlast := hget connEventQueueMax hcount
  rw [Nat.add_mod_right] at hlast
  rw [Nat.add_zero] at hfirst
  have hsame := (waiting_connIndex hfirst).symm.trans (waiting_connIndex hlast)
  have hmax : connEventQueueMax = 256 := rfl
  omega

end Line

/-! ## From the file to the table -/

section File

variable {σ : Type} {single : Single σ} {line : Bytes}

/-- A line is carried out, and the rest of the input is left. -/
theorem line_effect {effect : Bytes → σ → σ} (heffect : Effect single effect)
    (hline : (10 : Byte) ∉ line) (hnul : (0 : Byte) ∉ line) (hne : line ≠ [])
    (hquit : line ≠ lit "quit") (rest : Bytes) (buf : Buffer) (world : σ) :
    ∃ run, inputHandling single 1 (line ++ 10 :: rest) buf world = .ok run ∧
      run.returned = true ∧ run.stdin = rest ∧
      run.world = (commandsOf line).foldl (fun w command => effect command w) world := by
  obtain ⟨taken, htaken⟩ : ∃ taken, takeLine (line ++ 10 :: rest) 0 buf = taken := ⟨_, rfl⟩
  have hlast : taken.last = 10 := by rw [← htaken, takeLine_newline hline]
  have hstdin : taken.stdin = rest := by rw [← htaken, takeLine_newline hline]
  have hcount : taken.inputCount = line.length + 1 := by
    rw [← htaken, takeLine_newline hline]
    exact congrArg (· + 1) (Nat.zero_add _)
  have hwin : taken.terminated.window (line.length + 1) = line ++ [0] := by
    rw [← htaken]
    exact newline_window hline rest buf
  have hnot : ¬ taken.terminated.isQuit = true :=
    fun h => hquit ((isQuit_iff _ hwin hnul).mp h)
  have hmore : ¬ ((line.length + 1 : Nat) : Int) - 1 ≤ 0 := by
    have := List.length_pos_iff.mpr hne
    omega
  have hread : cstr (taken.terminated.window (line.length + 1)) 0 = some line := by
    rw [hwin]
    exact untilNul_append hnul []
  obtain ⟨out, hout, -, -, -, hworld⟩ :=
    rounds_calls single world (show line.length < line.length + 1 + 1 by omega) hread
  rw [inputHandling]
  simp only [htaken, hcount, hlast, if_neg hnot, if_neg hmore, readStr_ok hread, bind, Except.bind,
    hout, true_or, or_true, if_true]
  exact ⟨_, rfl, rfl, hstdin, hworld effect heffect⟩

/-- The calls of a number of commands. -/
def callsOf (net : Nat → Net) (stack : Nat → Stack) : Nat → List Bytes → List Call
  | _, [] => []
  | n, str :: strs =>
      { net := net n, stack := stack n, str := str } :: callsOf net stack (n + 1) strs

/-- One command after the other, as `interprete_multiple_commands` hands them over. -/
theorem perform_executes {net : Nat → Net} {stack : Nat → Stack} {strs : List Bytes} :
    ∀ {n : Nat} {g g' : Globals}, perform (callsOf net stack n strs) g = .ok g' →
      strs.foldl (fun w command => (execute net stack command w).2) (n, .ok g) =
        (n + strs.length, .ok g') := by
  induction strs with
  | nil =>
      intro n g g' h
      rw [callsOf, perform] at h
      rw [← Except.ok.inj h]
      rfl
  | cons str strs ih =>
      intro n g g' h
      rw [callsOf, perform] at h
      rw [List.foldl_cons, List.length_cons, execute]
      cases hcall : interpreteSingleCommand (net n) str (stack n) g with
      | error abort =>
          rw [hcall] at h
          cases h
      | ok r =>
          rw [hcall] at h
          dsimp only
          rw [ih h, Nat.add_right_comm, Nat.add_assoc]

/-- **A FILE OF COMMANDS**: behind any number of empty lines, the commands of the first
    line fill the table in their order, the rest of the file is left alone, and
    the queue holds the commands that wait, in their order, exactly if it has room for
    them. -/
theorem script_fills {net : Nat → Net} {stack : Nat → Stack} {g : Globals} {entries : List Entry}
    (hfresh : Fresh g) (hline : (10 : Byte) ∉ line) (hnul : (0 : Byte) ∉ line) (hne : line ≠ [])
    (hquit : line ≠ lit "quit")
    (hacc : Accepted (callsOf net stack 0 (commandsOf line)) entries) (blanks : Nat)
    (rest : Bytes) (buf : Buffer) :
    ∃ run g', inputHandling (tokenizing (execute net stack)) (blanks + 1)
        (List.replicate blanks 10 ++ (line ++ 10 :: rest)) buf (0, .ok g) = .ok run ∧
      run.returned = true ∧ run.stdin = rest ∧
      run.world = ((commandsOf line).length, .ok g') ∧
      Table g (entries.take epollInstanceMaxSockfd) g' ∧
      g'.openFds = (entries.map Entry.fd).reverse ++ g.openFds ∧
      (g'.connQueue.contents connEventQueueMax =
          waiting (servers g) (entries.take epollInstanceMaxSockfd) ↔
        entries.length ≤ servers g + connEventQueueMax) := by
  obtain ⟨g', hperform, htable, hopen⟩ := perform_table hfresh hacc hfresh.table (Nat.zero_le _)
  rw [List.nil_append] at htable
  have hworld := perform_executes hperform
  rw [Nat.zero_add] at hworld
  have hqueue := htable.inOrder_iff
  have hroom : (entries.take epollInstanceMaxSockfd).length ≤ servers g + connEventQueueMax ↔
      entries.length ≤ servers g + connEventQueueMax := by
    have hmax : epollInstanceMaxSockfd = 512 ∧ connEventQueueMax = 256 := ⟨rfl, rfl⟩
    have hservers : servers g ≤ 64 := Nat.min_le_left _ _
    rw [List.length_take]
    omega
  rw [hroom] at hqueue
  clear hroom
  induction blanks generalizing buf with
  | zero =>
      obtain ⟨run, hrun, hreturned, hstdin, hleft⟩ :=
        line_effect (tokenizing_effect (execute net stack)) hline hnul hne hquit rest buf (0, .ok g)
      exact ⟨run, g', hrun, hreturned, hstdin, hleft.trans hworld, htable, hopen, hqueue⟩
  | succ blanks ih =>
      rw [List.replicate_succ, List.cons_append, round_blank]
      exact ih (blank buf)

end File

/-! ## Two commands -/

/-- Before there is a worker. -/
def atStart : Globals := { Globals.idle with workspaceCount := 0 }

theorem atStart_fresh : Fresh atStart := ⟨fun _ => rfl, fun _ => ⟨rfl, rfl⟩, rfl⟩

/-- A system that agrees to everything; the sockets are 5, 6 and so on. -/
def nets (n : Nat) : Net := { netOf true with socket := some (n + 5) }

/-- What is read of a text. -/
def textOf (str : Bytes) : Locals :=
  ((readCommand str zeroStack).toOption.join).getD zeroStack.locals

/-- A text that is read to strings is accepted by that system. -/
theorem textOf_accepts {str : Bytes} {n : Nat}
    (h : (readCommand str zeroStack).toOption.join.isSome = true)
    (hread : Readable (textOf str)) :
    Call.Accepts { net := nets n, stack := zeroStack, str := str }
      { fd := n + 5, text := textOf str } := by
  refine ⟨?_, hread, ⟨rfl, ?_⟩, Nat.succ_ne_zero _, rfl⟩
  · show readCommand str zeroStack = .ok (some (textOf str))
    rw [textOf]
    cases hrun : readCommand str zeroStack with
    | error abort =>
        rw [hrun] at h
        cases h
    | ok read =>
        cases read with
        | none =>
            rw [hrun] at h
            cases h
        | some l => rfl
  · obtain ⟨host, hhost⟩ := Option.isSome_iff_exists.mp hread.1
    exact ⟨host, hhost, rfl, rfl⟩

/-- The line `get h/p f; ;put h/q g`. -/
def twoCommands : Bytes := lit "get h/p f; ;put h/q g"

def twoEntries : List Entry :=
  [{ fd := 5, text := textOf (lit "get h/p f") }, { fd := 6, text := textOf (lit "put h/q g") }]

theorem twoCommands_accepted :
    Accepted (callsOf nets (fun _ => zeroStack) 0 (commandsOf twoCommands)) twoEntries := by
  have htwo : commandsOf twoCommands = [lit "get h/p f", lit "put h/q g"] := by decide +kernel
  rw [htwo]
  have hreadable : ∀ str ∈ [lit "get h/p f", lit "put h/q g"],
      (readCommand str zeroStack).toOption.join.isSome = true ∧ Readable (textOf str) := by
    simp only [Readable]
    decide +kernel
  obtain ⟨hget, hput, -⟩ := List.forall_mem_cons.mp hreadable |>.imp_right List.forall_mem_cons.mp
  exact .accepts (textOf_accepts hget.1 hget.2) (.accepts (textOf_accepts hput.1 hput.2) .nil)

theorem script_fills_twoCommands :
    ∃ run g', inputHandling (tokenizing (execute nets fun _ => zeroStack)) (1 + 1)
        (List.replicate 1 10 ++ (twoCommands ++ 10 :: lit "quit")) ⟨fun _ => 0, []⟩
        (0, .ok atStart) = .ok run ∧
      run.returned = true ∧ run.stdin = lit "quit" ∧
      run.world = ((commandsOf twoCommands).length, .ok g') ∧
      Table atStart (twoEntries.take epollInstanceMaxSockfd) g' ∧
      g'.openFds = (twoEntries.map Entry.fd).reverse ++ atStart.openFds ∧
      (g'.connQueue.contents connEventQueueMax =
          waiting (servers atStart) (twoEntries.take epollInstanceMaxSockfd) ↔
        twoEntries.length ≤ servers atStart + connEventQueueMax) :=
  script_fills atStart_fresh (by decide) (by decide) (by decide) (by decide) twoCommands_accepted 1
    (lit "quit") ⟨fun _ => 0, []⟩

end Script
