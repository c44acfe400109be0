import Hftp.HttpMethodProofs
import Hftp.ThreadsProofs
import Hftp.UrlProofs

/-! # A command

    `interprete_single_command`: the tokens of the text are read into arrays on the
    stack, a socket is opened and connected, the first free slot is filled, and the
    connection is given to an idle worker or put into the queue.  Whatever the
    arrays hold by then is copied into the slot.

    A rejected command should leave no trace.  Two of the ways out lie behind the
    `connect`, and neither closes the socket or empties the slot. -/

namespace SingleCommand

open CBytes HttpCore HttpMethod RingBuffer Url
open Threads (ConnEvent Handler epollInstanceMaxSockfd epollEventQueueMax connEventQueueMax)

/-! ## The text -/

/-- `DOMAIN_MAX_LEN` -/
def domainMaxLen : Nat := 256

/-- `REMOTE_DIR_MAX_LEN` -/
def remoteDirMaxLen : Nat := 256

/-- `LOCAL_DIR_MAX_LEN` -/
def localDirMaxLen : Nat := 256

/-- The results of `strtok(str, " ")`, call after call: any number of blanks
    separates two tokens. -/
def strtok (str : Bytes) : List Bytes := (str.splitOn 32).filter (· ≠ [])

/-- `name_to_method` -/
def nameToMethod (name : Bytes) : Option Method :=
  if strcaseeq name (lit "get") then some .get
  else if strcaseeq name (lit "put") then some .put
  else if strcaseeq name (lit "propfind") then some .propfind
  else if strcaseeq name (lit "delete") then some .delete
  else none

/-- `strcpy(dst, src)` -/
def strcpy (dst src : Bytes) : Except Abort Bytes :=
  if src.length < dst.length then .ok (store dst 0 (src ++ [0])) else .error .outOfBounds

/-- What the tokens are read into. -/
structure Locals where
  domain : Bytes
  remoteDir : Bytes
  localDir : Bytes
  port : Nat
  method : Method
  fail : Bool
  deriving DecidableEq, Repr

/-- The stack when the function is called: three arrays and a number that nobody
    has written to. -/
structure Stack where
  domain : Bytes
  remoteDir : Bytes
  localDir : Bytes
  port : Nat
  method : Method
  domain_length : domain.length = domainMaxLen
  remoteDir_length : remoteDir.length = remoteDirMaxLen
  localDir_length : localDir.length = localDirMaxLen

def Stack.locals (stack : Stack) : Locals :=
  { domain := stack.domain, remoteDir := stack.remoteDir, localDir := stack.localDir,
    port := stack.port, method := stack.method, fail := false }

/-- `url_to_words(token, NULL, NULL, NULL, domain, &port, remote_dir, NULL, NULL, NULL)` -/
def Locals.words (l : Locals) : Words :=
  { scheme := none, username := none, password := none, domain := some l.domain,
    port := some l.port, dir := some l.remoteDir }

/-- The body of the loop over the tokens. -/
def tokenStep (tokenCnt : Nat) (token : Bytes) (l : Locals) : Except Abort Locals :=
  match tokenCnt with
  | 0 =>
      match nameToMethod token with
      | some method => .ok { l with method := method }
      | none => .ok { l with fail := true }
  | 1 => do
      let (code, words) ← urlToWords token l.words
      return { l with domain := words.domain.getD [], remoteDir := words.dir.getD [],
                      port := words.port.getD 0, fail := l.fail || code ≠ 0 }
  | 2 => do
      let localDir ← strcpy l.localDir token
      return { l with localDir := localDir }
  | _ => .ok l

/-- `while (token)` -/
def tokenLoop : Nat → List Bytes → Locals → Except Abort Locals
  | _, [], l => .ok l
  | tokenCnt, token :: tokens, l => do
      let l ← tokenStep tokenCnt token l
      tokenLoop (tokenCnt + 1) tokens l

/-- The command as it was read; nothing if it is rejected with its usage. -/
def readCommand (str : Bytes) (stack : Stack) : Except Abort (Option Locals) := do
  let l ← tokenLoop 0 (strtok str) stack.locals
  let tokenCnt := (strtok str).length
  if tokenCnt < 2 ∨ tokenCnt > 3 ∨ l.fail then return none else return some l

/-! ## The connection -/

/-- `struct thread_workspace`, with its bit of `g_thread_work_flag`. -/
structure Workspace where
  httpProcess : Option Handler
  connIndex : Option Nat
  chunks : MethodChunks
  busy : Bool
  deriving DecidableEq, Repr

/-- What the command may change, with the descriptors that are open and those in
    the epoll instance. -/
structure Globals where
  connWorkspace : Nat → HttpConnection
  connQueue : RingBuf ConnEvent
  epollQueue : RingBuf Nat
  workspaces : Nat → Workspace
  workspaceCount : Nat
  remainCount : Int
  openFds : List Nat
  registered : List Nat

/-- What the system answers: whether the name is resolved, the descriptor of the
    socket, whether `connect` succeeds at an address and a port, and whether
    `epoll_ctl` does. -/
structure Net where
  resolves : Bytes → Bool
  socket : Option Nat
  connects : Bytes → Nat → Bool
  registers : Bool

/-- `close(sockfd)`; the descriptor was not in the epoll instance. -/
def Globals.close (g : Globals) (fd : Nat) : Globals := { g with openFds := g.openFds.erase fd }

/-- `host_to_addrv4`, `socket` and `connect`: the descriptor, unless the command is
    rejected. -/
def dial (net : Net) (l : Locals) (g : Globals) : Except Abort (Option Nat × Globals) :=
  match untilNul l.domain with
  | none => .error .outOfBounds
  | some host =>
      if net.resolves host then
        match net.socket with
        | none => .ok (none, g)
        | some fd =>
            let g := { g with openFds := fd :: g.openFds }
            if net.connects host l.port then .ok (some fd, g) else .ok (none, g.close fd)
      else .ok (none, g)

/-- `if (g_conn_workspace[i].sockfd != 0) continue`, the workers, and the queue. -/
def slotTaken (g : Globals) (i : Nat) : Bool :=
  (g.connWorkspace i).sockfd ≠ 0 ||
    (List.range g.workspaceCount).any (fun j => (g.workspaces j).connIndex = some i) ||
    (g.connQueue.contents connEventQueueMax).any (fun e => e.connIndex = i)

/-- The first slot that is free. -/
def findSlot (g : Globals) : Option Nat :=
  (List.range epollInstanceMaxSockfd).find? fun i => !slotTaken g i

/-- The slot with the command in it: the three `strcpy`, from arrays as long as those
    of the slot. -/
def fillSlot (conn : HttpConnection) (fd : Nat) (l : Locals) : Except Abort HttpConnection :=
  match untilNul l.domain, untilNul l.remoteDir, untilNul l.localDir with
  | some domain, some remoteDir, some localDir =>
      .ok { conn with state := 0, method := l.method, sockfd := fd, domain := domain,
                      remoteDir := remoteDir, localDir := localDir }
  | _, _, _ => .error .outOfBounds

def Globals.setSlot (g : Globals) (i : Nat) (conn : HttpConnection) : Globals :=
  { g with connWorkspace := Function.update g.connWorkspace i conn }

/-- `get_idle_work_thread_index_not_safety()` -/
def idleWorker (g : Globals) : Option Nat :=
  (List.range (min 64 g.workspaceCount)).find? fun w => !(g.workspaces w).busy

/-- The handler, the connection and the callbacks of an idle worker, and its busy
    bit; otherwise the queue. -/
def assignSlot (g : Globals) (i fd : Nat) : Globals :=
  match idleWorker g with
  | some w =>
      let conn := g.connWorkspace i
      let workspace :=
        { httpProcess := some .httpRequest, connIndex := some i,
          chunks := paramSetChunks conn.method (g.workspaces w).chunks, busy := true }
      let g := g.setSlot i { conn with clb := paramSet conn.method w }
      { g with workspaces := Function.update g.workspaces w workspace }
  | none =>
      { g with connQueue := g.connQueue.enqueue connEventQueueMax { sockfd := fd, connIndex := i } }

/-- `interprete_single_command(str)`: the code it returns, and the globals. -/
def interpreteSingleCommand (net : Net) (str : Bytes) (stack : Stack) (g : Globals) :
    Except Abort (Int × Globals) := do
  match ← readCommand str stack with
  | none => return (1, g)
  | some l =>
      match ← dial net l g with
      | (none, g) => return (1, g)
      | (some fd, g) =>
          match findSlot g with
          | none => return (1, g)
          | some i =>
              let conn ← fillSlot (g.connWorkspace i) fd l
              let g := g.setSlot i conn
              if net.registers then
                let g := { g with registered := fd :: g.registered,
                                  remainCount := g.remainCount + 1 }
                return (0, assignSlot g i fd)
              else return (1, g)

/-! ## What a rejected command leaves behind -/

section Trace

variable {net : Net} {str : Bytes} {stack : Stack} {g : Globals}

/-- Nothing is open, queued or in use. -/
def Globals.idle : Globals :=
  { connWorkspace := fun _ => .zero, connQueue := .empty { sockfd := 0, connIndex := 0 },
    epollQueue := .empty 0,
    workspaces := fun _ =>
      { httpProcess := none, connIndex := none, chunks := .zero, busy := false },
    workspaceCount := 8, remainCount := 0, openFds := [], registered := [] }

/-- **NO TRACE**: if the command is rejected, everything is as it was. -/
def Traceless (net : Net) (str : Bytes) (stack : Stack) (g : Globals) : Prop :=
  ∀ code g', interpreteSingleCommand net str stack g = .ok (code, g') → code ≠ 0 → g' = g

/-- The name is resolved, and a socket is opened and connected. -/
def Dials (net : Net) (l : Locals) (fd : Nat) : Prop :=
  net.socket = some fd ∧
    ∃ host, untilNul l.domain = some host ∧ net.resolves host = true ∧
      net.connects host l.port = true

/-- The arrays hold strings that can be copied. -/
def Readable (l : Locals) : Prop :=
  (untilNul l.domain).isSome ∧ (untilNul l.remoteDir).isSome ∧ (untilNul l.localDir).isSome

/-- **A SOCKET IS LEFT OPEN**: a command that was read and connected finds no free
    slot, or a slot that `epoll_ctl` does not agree to. -/
def LeavesSocket (net : Net) (str : Bytes) (stack : Stack) (g : Globals) : Prop :=
  ∃ l fd, readCommand str stack = .ok (some l) ∧ Dials net l fd ∧
    (findSlot g = none ∨ ((findSlot g).isSome ∧ Readable l ∧ net.registers = false))

/-- A socket that cannot be connected is closed again. -/
theorem dial_eq (l : Locals) (g : Globals) :
    (∀ fd, Dials net l fd → dial net l g = .ok (some fd, { g with openFds := fd :: g.openFds })) ∧
      (∀ r, (∀ fd, ¬ Dials net l fd) → dial net l g = .ok r → r = (none, g)) := by
  rw [dial]
  constructor
  · rintro fd ⟨hsocket, host, hhost, hresolves, hconnects⟩
    simp only [hhost, hresolves, hsocket, hconnects, if_true]
  · intro r hnot h
    cases hhost : untilNul l.domain with
    | none =>
        rw [hhost] at h
        cases h
    | some host =>
        rw [hhost] at h
        dsimp only at h
        by_cases hresolves : net.resolves host = true
        · rw [if_pos hresolves] at h
          cases hsocket : net.socket with
          | none =>
              rw [hsocket] at h
              exact (Except.ok.inj h).symm
          | some fd =>
              rw [hsocket] at h
              dsimp only at h
              by_cases hconnects : net.connects host l.port = true
              · exact absurd ⟨hsocket, host, hhost, hresolves, hconnects⟩ (hnot fd)
              · rw [if_neg hconnects] at h
                rw [← Except.ok.inj h, Globals.close, List.erase_cons_head]
        · rw [if_neg hresolves] at h
          exact (Except.ok.inj h).symm

/-- The search for a slot does not look at the descriptors. -/
theorem findSlot_openFds (g : Globals) (fds : List Nat) :
    findSlot { g with openFds := fds } = findSlot g := rfl

theorem fillSlot_readable {conn : HttpConnection} {fd : Nat} {l : Locals} :
    (∃ conn', fillSlot conn fd l = .ok conn') ↔ Readable l := by
  rw [fillSlot, Readable]
  cases untilNul l.domain with
  | none => exact ⟨by rintro ⟨_, ⟨⟩⟩, fun h => by cases h.1⟩
  | some domain =>
      cases untilNul l.remoteDir with
      | none => exact ⟨by rintro ⟨_, ⟨⟩⟩, fun h => by cases h.2.1⟩
      | some remoteDir =>
          cases untilNul l.localDir with
          | none => exact ⟨by rintro ⟨_, ⟨⟩⟩, fun h => by cases h.2.2⟩
          | some localDir => exact ⟨fun _ => ⟨rfl, rfl, rfl⟩, fun _ => ⟨_, rfl⟩⟩

/-- A list is not what it was with one more in front. -/
theorem openFds_ne {fd : Nat} {g' : Globals} (h : g'.openFds = fd :: g.openFds) : g' ≠ g := by
  intro heq
  rw [heq] at h
  exact List.cons_ne_self fd g.openFds h.symm

/-- **A REJECTED COMMAND LEAVES NO TRACE** exactly if no socket was connected for
    it. -/
theorem traceless_iff : Traceless net str stack g ↔ ¬ LeavesSocket net str stack g := by
  constructor
  · rintro htrace ⟨l, fd, hread, hdials, hlost⟩
    have hdial := (dial_eq l g).1 fd hdials
    rcases hlost with hnone | ⟨hsome, hreadable, hrefuses⟩
    · have hopen : ({ g with openFds := fd :: g.openFds } : Globals).openFds = fd :: g.openFds :=
        rfl
      refine openFds_ne hopen (htrace 1 _ ?_ (by decide))
      rw [interpreteSingleCommand, hread]
      simp only [bind, Except.bind, hdial, findSlot_openFds, hnone]
      rfl
    · obtain ⟨i, hi⟩ := Option.isSome_iff_exists.mp hsome
      obtain ⟨conn, hfill⟩ : ∃ conn, fillSlot (g.connWorkspace i) fd l = .ok conn :=
        fillSlot_readable.mpr hreadable
      have hopen : (({ g with openFds := fd :: g.openFds } : Globals).setSlot i conn).openFds =
          fd :: g.openFds := rfl
      refine openFds_ne hopen (htrace 1 _ ?_ (by decide))
      rw [interpreteSingleCommand, hread]
      simp only [bind, Except.bind, hdial, findSlot_openFds, hi, hfill, hrefuses]
      rfl
  · intro hkept code g' h hcode
    rw [interpreteSingleCommand] at h
    cases hread : readCommand str stack with
    | error e =>
        rw [hread] at h
        cases h
    | ok read =>
        rw [hread] at h
        cases read with
        | none => exact ((Prod.mk.inj (Except.ok.inj h)).2).symm
        | some l =>
            simp only [bind, Except.bind] at h
            by_cases hdials : ∃ fd, Dials net l fd
            · obtain ⟨fd, hdials⟩ := hdials
              rw [(dial_eq l g).1 fd hdials] at h
              simp only [findSlot_openFds] at h
              cases hslot : findSlot g with
              | none => exact absurd ⟨l, fd, hread, hdials, Or.inl hslot⟩ hkept
              | some i =>
                  rw [hslot] at h
                  dsimp only at h
                  cases hfill : fillSlot (g.connWorkspace i) fd l with
                  | error e =>
                      rw [hfill] at h
                      cases h
                  | ok conn =>
                      rw [hfill] at h
                      dsimp only at h
                      by_cases hregisters : net.registers = true
                      · rw [if_pos hregisters] at h
                        exact absurd (Prod.mk.inj (Except.ok.inj h)).1.symm hcode
                      · refine absurd ⟨l, fd, hread, hdials, Or.inr ⟨?_, ?_, ?_⟩⟩ hkept
                        · rw [hslot]
                          rfl
                        · exact fillSlot_readable.mp ⟨conn, hfill⟩
                        · exact Bool.eq_false_iff.mpr hregisters
            · have hnot : ∀ fd, ¬ Dials net l fd := fun fd hd => hdials ⟨fd, hd⟩
              cases hdial : dial net l g with
              | error e =>
                  rw [hdial] at h
                  cases h
              | ok r =>
                  obtain rfl := (dial_eq l g).2 r hnot hdial
                  rw [hdial] at h
                  exact ((Prod.mk.inj (Except.ok.inj h)).2).symm

end Trace

/-! ## What an accepted command fills -/

/-- The assignment registers callbacks, or leaves the slot alone. -/
theorem assignSlot_slots (g : Globals) (i fd : Nat) : ∃ clb,
    (assignSlot g i fd).connWorkspace =
      Function.update g.connWorkspace i { g.connWorkspace i with clb := clb } := by
  rw [assignSlot]
  cases idleWorker g with
  | some w => exact ⟨paramSet (g.connWorkspace i).method w, rfl⟩
  | none => exact ⟨(g.connWorkspace i).clb, (Function.update_eq_self i g.connWorkspace).symm⟩

/-- What a command fills, and with what. -/
structure Fills (net : Net) (str : Bytes) (stack : Stack) (g g' : Globals) (i fd : Nat)
    (l : Locals) : Prop where
  read : readCommand str stack = .ok (some l)
  dials : Dials net l fd
  slot : findSlot g = some i
  filled : ∃ conn clb, fillSlot (g.connWorkspace i) fd l = .ok conn ∧
    g'.connWorkspace = Function.update g.connWorkspace i { conn with clb := clb }

/-- **A COMMAND** fills the first free slot, or no slot at all; the one that is
    accepted fills one. -/
theorem command_fills {net : Net} {str : Bytes} {stack : Stack} {g g' : Globals} {code : Int}
    (h : interpreteSingleCommand net str stack g = .ok (code, g')) :
    (code ≠ 0 ∧ g'.connWorkspace = g.connWorkspace) ∨
      ∃ i fd l, Fills net str stack g g' i fd l := by
  rw [interpreteSingleCommand] at h
  cases hread : readCommand str stack with
  | error e =>
      rw [hread] at h
      cases h
  | ok read =>
      rw [hread] at h
      cases read with
      | none =>
          obtain ⟨rfl, rfl⟩ := Prod.mk.inj (Except.ok.inj h)
          exact Or.inl ⟨by decide, rfl⟩
      | some l =>
          simp only [bind, Except.bind] at h
          by_cases hdials : ∃ fd, Dials net l fd
          · obtain ⟨fd, hdials⟩ := hdials
            rw [(dial_eq l g).1 fd hdials] at h
            simp only [findSlot_openFds] at h
            cases hslot : findSlot g with
            | none =>
                rw [hslot] at h
                obtain ⟨rfl, rfl⟩ := Prod.mk.inj (Except.ok.inj h)
                exact Or.inl ⟨by decide, rfl⟩
            | some i =>
                rw [hslot] at h
                dsimp only at h
                cases hfill : fillSlot (g.connWorkspace i) fd l with
                | error e =>
                    rw [hfill] at h
                    cases h
                | ok conn =>
                    rw [hfill] at h
                    dsimp only at h
                    refine Or.inr ⟨i, fd, l, hread, hdials, hslot, ?_⟩
                    split_ifs at h
                    · obtain ⟨-, rfl⟩ := Prod.mk.inj (Except.ok.inj h)
                      obtain ⟨clb, hclb⟩ := assignSlot_slots
                        { g.setSlot i conn with
                          openFds := fd :: g.openFds, registered := fd :: g.registered,
                          remainCount := g.remainCount + 1 } i fd
                      refine ⟨conn, clb, hfill, hclb.trans ?_⟩
                      rw [Globals.setSlot]
                      dsimp only
                      rw [Function.update_idem, Function.update_self]
                    · obtain ⟨-, rfl⟩ := Prod.mk.inj (Except.ok.inj h)
                      exact ⟨conn, conn.clb, hfill, rfl⟩
          · have hnot : ∀ fd, ¬ Dials net l fd := fun fd hd => hdials ⟨fd, hd⟩
            cases hdial : dial net l g with
            | error e =>
                rw [hdial] at h
                cases h
            | ok r =>
                obtain rfl := (dial_eq l g).2 r hnot hdial
                rw [hdial] at h
                obtain ⟨rfl, rfl⟩ := Prod.mk.inj (Except.ok.inj h)
                exact Or.inl ⟨by decide, rfl⟩

/-- A system on which everything succeeds, except perhaps `epoll_ctl`. -/
def netOf (registers : Bool) : Net :=
  { resolves := fun _ => true, socket := some 5, connects := fun _ _ => true,
    registers := registers }

/-- A stack that holds zeros. -/
def zeroStack : Stack :=
  { domain := List.replicate 256 0, remoteDir := List.replicate 256 0,
    localDir := List.replicate 256 0, port := 0, method := .get,
    domain_length := List.length_replicate, remoteDir_length := List.length_replicate,
    localDir_length := List.length_replicate }

/-- `get h/p f`, and `epoll_ctl` fails: the socket is left open, and the first slot
    taken. -/
theorem not_traceless : ¬ ∀ net str stack g, Traceless net str stack g := by
  intro hall
  have hrun : (interpreteSingleCommand (netOf false) (lit "get h/p f") zeroStack .idle).map
      (fun r => (r.1, r.2.openFds, (r.2.connWorkspace 0).sockfd)) = .ok (1, [5], 5) := by
    decide +kernel
  cases h : interpreteSingleCommand (netOf false) (lit "get h/p f") zeroStack .idle with
  | error e =>
      rw [h] at hrun
      cases hrun
  | ok r =>
      rw [h] at hrun
      obtain ⟨hcode, hleft⟩ := Prod.mk.inj (Except.ok.inj hrun)
      have hidle := hall (netOf false) (lit "get h/p f") zeroStack .idle r.1 r.2 h
        (by rw [hcode]; decide)
      rw [hidle] at hleft
      exact absurd hleft (by decide)

end SingleCommand
