import Hftp.RequestFramingProofs
import Hftp.TransitionProofs

/-! # Transfers that share the chunks of the workers

    All callbacks of a connection are given the `chunks` of the worker that was
    assigned the command.  The worker zeroes them when its handler has returned
    and may be assigned another command, while a second worker handles the
    response of the first connection, with the parameters as they were set.

    One machine runs any number of transfers, a callback at a time. -/

namespace ChunkSharing

open CBytes HttpCore HttpResp HttpMethod MimeType HttpTransfer RequestFraming Transition

/-! ## Transfers, callback by callback -/

/-- Where a command is, and the worker that handles it.  A handler that has
    returned has still to zero its worker's `chunks`; `asked` says whether a
    response is waited for. -/
inductive Phase where
  | waiting
  | opening (k : Nat)
  | writing (k : Nat)
  | leaving (k : Nat)
  | returned (k : Nat) (asked : Bool)
  | asked
  | answering (j : Nat)
  | finished
  deriving DecidableEq, Repr

/-- The loop of `req_write` has come to its end, or there was none. -/
def Phase.requested : Phase → Bool
  | .waiting | .opening _ | .writing _ => false
  | .leaving _ | .returned _ _ | .asked | .answering _ | .finished => true

/-- A connection with its own file and socket, and what was put into the buffer
    and taken by `write`.  The `chunks` of `world` are those of nobody. -/
structure Transfer where
  phase : Phase
  conn : HttpConnection
  world : MethodWorld
  results : Writes
  produced : List Bytes
  accepted : Bytes

/-- `g_workspace` (the `chunks` and `conn_index` of each worker) and the
    transfers. -/
structure Sharing where
  chunks : Nat → MethodChunks
  connIndex : Nat → Option Nat
  transfers : Nat → Transfer

/-- A worker was assigned the command, and the callbacks set to its `chunks`. -/
def Transfer.assigned (t : Transfer) (k : Nat) : Transfer :=
  { t with phase := .opening k, conn := { t.conn with clb := paramSet t.conn.method k } }

/-- The world of a callback that is given the `chunks` of a worker. -/
def Transfer.worldWith (t : Transfer) (chunks : MethodChunks) : MethodWorld :=
  { t.world with chunks := chunks }

inductive Action where
  /-- a command is assigned to an idle worker -/
  | ask (c k : Nat)
  | beforeReq (c : Nat)
  /-- one call of `req_write`, and of `write` -/
  | reqWrite (c : Nat)
  | afterReq (c : Nat)
  /-- the end of the pass of the worker: its `chunks` are zeroed -/
  | release (k : Nat)
  /-- an idle worker is given the response -/
  | answer (c j : Nat)
  | respCall (c : Nat) (call : RespCall)
  | afterResp (c : Nat)
  /-- the response fails -/
  | failResp (c : Nat)
  deriving DecidableEq, Repr

/-- The transfer `c` has gone on to `t`. -/
def Sharing.put (s : Sharing) (c : Nat) (t : Transfer) : Sharing :=
  { s with transfers := Function.update s.transfers c t }

/-- A worker's `chunks` were written to. -/
def Sharing.putChunks (s : Sharing) (k : Nat) (chunks : MethodChunks) : Sharing :=
  { s with chunks := Function.update s.chunks k chunks }

/-- `workspace->conn_index` was set. -/
def Sharing.putIndex (s : Sharing) (k : Nat) (index : Option Nat) : Sharing :=
  { s with connIndex := Function.update s.connIndex k index }

/-- What a callback does; nothing where it is not the next, or where the program
    goes down. -/
def step (s : Sharing) : Action → Option Sharing
  | .ask c k =>
      let t := s.transfers c
      if t.phase = .waiting ∧ s.connIndex k = none then
        let chunks := paramSetChunks t.conn.method (s.chunks k)
        some (((s.put c (t.assigned k)).putChunks k chunks).putIndex k c)
      else none
  | .beforeReq c =>
      let t := s.transfers c
      match t.phase with
      | .opening k =>
          if t.conn.sockfd ≤ 2 then none
          else
            let (code, conn, w) := methodBeforeReq t.conn (t.worldWith (s.chunks k))
            let phase := if code = 0 then .writing k else .returned k false
            some ((s.put c { t with phase := phase, conn := conn, world := w }).putChunks k w.chunks)
      | _ => none
  | .reqWrite c =>
      let t := s.transfers c
      match t.phase with
      | .writing k =>
          match methodReqWrite t.conn httpConnDataBufferSize (t.worldWith (s.chunks k)) with
          | .error _ => none
          | .ok (none, w) =>
              some ((s.put c { t with phase := .returned k false, world := w }).putChunks k w.chunks)
          | .ok (some d, w) =>
              let t' :=
                if d = [] then { t with phase := .leaving k, world := w }
                else { t with world := w, produced := t.produced ++ [d],
                              accepted := t.accepted ++ takes (t.results t.produced.length) d }
              some ((s.put c t').putChunks k w.chunks)
      | _ => none
  | .afterReq c =>
      let t := s.transfers c
      match t.phase with
      | .leaving k =>
          let (code, conn, w) := methodAfterReq t.conn (t.worldWith (s.chunks k))
          let t' := { t with phase := .returned k (code = 0), conn := conn, world := w }
          some ((s.put c t').putChunks k w.chunks)
      | _ => none
  | .release k =>
      match s.connIndex k with
      | none => none
      | some c =>
          let t := s.transfers c
          match t.phase with
          | .returned k' asked =>
              if k' = k then
                let t' := { t with phase := if asked then .asked else .finished }
                some (((s.put c t').putChunks k .zero).putIndex k none)
              else none
          | _ => none
  | .answer c j =>
      let t := s.transfers c
      if t.phase = .asked ∧ s.connIndex j = none then
        some ((s.put c { t with phase := .answering j }).putIndex j c)
      else none
  | .respCall c call =>
      let t := s.transfers c
      match t.phase, t.conn.clb.param with
      | .answering _, some k =>
          let (conn, w) := HttpTransfer.respCall (t.conn, t.worldWith (s.chunks k)) call
          some ((s.put c { t with conn := conn, world := w }).putChunks k w.chunks)
      | _, _ => none
  | .afterResp c =>
      let t := s.transfers c
      match t.phase with
      | .answering j =>
          let (conn, w) := methodAfterResp t.conn t.world
          some (s.put c { t with phase := .returned j false, conn := conn, world := w })
      | _ => none
  | .failResp c =>
      let t := s.transfers c
      match t.phase with
      | .answering j => some (s.put c { t with phase := .returned j false })
      | _ => none

/-- Nothing has begun. -/
structure Start (s : Sharing) : Prop where
  chunks : ∀ k, s.chunks k = .zero
  idle : ∀ k, s.connIndex k = none
  waiting : ∀ c, (s.transfers c).phase = .waiting
  unsent : ∀ c, (s.transfers c).produced = [] ∧ (s.transfers c).accepted = []

/-! ## A transfer alone -/

/-- `http_request` for a command that the first worker was assigned, with nobody
    else there. -/
def alone (t : Transfer) (fuel : Nat) : RequestRun MethodWorld :=
  httpRequest (methodCallbacks (t.assigned 0).conn.clb) (t.assigned 0).conn httpConnDataBufferSize
    t.results fuel (t.worldWith .zero)

/-- What was put into the buffer, and what the socket took of it. -/
def sentBy (run : RequestRun MethodWorld) : List Bytes × Bytes :=
  match run.send with
  | none => ([], [])
  | some send => (send.sent.produced, send.sent.accepted)

/-- A head, and what is in the file. -/
def putText (conn : HttpConnection) (mimeType content : Bytes) : Bytes :=
  headText (lit "PUT " ++ conn.remoteDir ++ lit " HTTP/1.1")
    (putFields conn .zero mimeType (decimal (toInt content.length))) ++ content

/-! ## The condition -/

/-- `http_get_response_header` clears the flag in the `chunks` it is given. -/
def clears (conn : HttpConnection) (file : LocalFile) (resp : HttpResponse) : Bool :=
  decide (conn.clb.respHeaderFunc = some .get) &&
    (decide (resp.code ≠ sucOk) || decide (0 ≤ file.fd))

/-- The worker is in the middle of a request that has written its head. -/
def midRequest (s : Sharing) (k : Nat) : Bool :=
  match s.connIndex k with
  | none => false
  | some c => decide ((s.transfers c).phase = .writing k) && decide ((s.chunks k).fin ≠ 0)

/-- **UNDISTURBED**: the header callback of a GET does not clear a flag while the
    worker that it was set up on is in the middle of another request. -/
def undisturbed (s : Sharing) : Action → Bool
  | .respCall c (.header resp) =>
      match (s.transfers c).conn.clb.param with
      | none => true
      | some k => !(clears (s.transfers c).conn (s.transfers c).world.file resp && midRequest s k)
  | _ => true

/-! ## What one transfer writes -/

section One

variable {t₀ t : Transfer} {chunks : MethodChunks}

/-- The worker a method was set up on is nowhere in what it does. -/
theorem beforeReq_worker {m : Method} {conn conn' : HttpConnection} {k : Nat} {code : Int}
    {w w' : MethodWorld}
    (h : methodBeforeReq { conn with clb := paramSet m k } w = (code, conn', w')) :
    methodBeforeReq { conn with clb := paramSet m 0 } w =
        (code, { conn' with clb := paramSet m 0 }, w') ∧
      conn' = { conn' with clb := paramSet m k } ∧ conn'.sockfd = conn.sockfd ∧
      w'.chunks = w.chunks := by
  cases m with
  | get => cases h; exact ⟨rfl, rfl, rfl, rfl⟩
  | put => cases h; exact ⟨rfl, rfl, rfl, rfl⟩
  | propfind => cases h; exact ⟨rfl, rfl, rfl, rfl⟩
  | delete => cases h; exact ⟨rfl, rfl, rfl, rfl⟩

/-- Alone, the loop begins where `before_req` has left off. -/
theorem alone_send (fuel : Nat) {conn : HttpConnection} {w : MethodWorld}
    (hsock : 2 < t.conn.sockfd) (hsock' : 2 < conn.sockfd)
    (hbefore : methodBeforeReq (t.assigned 0).conn (t.worldWith .zero) = (0, conn, w)) :
    (alone t fuel).send =
      some (requestLoop (methodReqWrite conn httpConnDataBufferSize) t.results fuel (.start w)) := by
  have hcap : 0 < httpConnDataBufferSize := by decide
  have hready : Ready (methodCallbacks (t.assigned 0).conn.clb) (t.assigned 0).conn httpConnDataBufferSize
      (t.worldWith .zero) conn w := ⟨hsock, hcap, hbefore, hsock'⟩
  rw [alone, hready.send, internalRequest_eq rfl hsock' hcap]

/-- **MIDWAY**: alone, the loop comes to the same point after as many calls, and
    goes on with the same connection, file and `chunks`. -/
structure Midway (t₀ t : Transfer) (chunks : MethodChunks) : Prop where
  sockfd : 2 < t₀.conn.sockfd
  results : t.results = t₀.results
  ahead : ∀ fuel, (alone t₀ (t.produced.length + fuel)).send =
    some (requestLoop (methodReqWrite t.conn httpConnDataBufferSize) t₀.results fuel
      { world := t.worldWith chunks, produced := t.produced, accepted := t.accepted })

/-- **WRITTEN**: more calls would not have written more. -/
structure Written (t₀ t : Transfer) : Prop where
  sockfd : 2 < t₀.conn.sockfd
  all : ∀ fuel, t.produced.length ≤ fuel → sentBy (alone t₀ fuel) = (t.produced, t.accepted)

/-- The loop begins. -/
theorem Midway.start (hunsent : t₀.produced = [] ∧ t₀.accepted = []) {k : Nat} {phase : Phase}
    {conn : HttpConnection} {w : MethodWorld} (hsock : 2 < t₀.conn.sockfd)
    (hbefore : methodBeforeReq (t₀.assigned k).conn (t₀.worldWith .zero) = (0, conn, w)) :
    Midway t₀ { t₀ with phase := phase, conn := conn, world := w } w.chunks := by
  obtain ⟨halone, hconn, hsock', -⟩ := beforeReq_worker hbefore
  refine ⟨hsock, rfl, fun fuel => ?_⟩
  have hsend := alone_send fuel hsock (hsock'.symm ▸ hsock) halone
  obtain ⟨hproduced, haccepted⟩ := hunsent
  dsimp only
  rw [hproduced, haccepted, List.length_nil, Nat.zero_add]
  rw [hsend, hconn]
  rfl

/-- A request that is refused is not written alone. -/
theorem Written.refused (hunsent : t₀.produced = [] ∧ t₀.accepted = []) {k : Nat} {phase : Phase}
    {code : Int} {conn : HttpConnection} {w : MethodWorld} (hsock : 2 < t₀.conn.sockfd)
    (hcode : code ≠ 0)
    (hbefore : methodBeforeReq (t₀.assigned k).conn (t₀.worldWith .zero) = (code, conn, w)) :
    Written t₀ { t₀ with phase := phase, conn := conn, world := w } := by
  obtain ⟨halone, -⟩ := beforeReq_worker hbefore
  obtain ⟨hproduced, haccepted⟩ := hunsent
  refine ⟨hsock, fun fuel _ => ?_⟩
  have hsend : (alone t₀ fuel).send = none := request_refused hcode halone
  rw [sentBy, hsend]
  dsimp only
  rw [hproduced, haccepted]

/-- A call that writes. -/
theorem Midway.more (h : Midway t₀ t chunks) {d : Bytes} {w : MethodWorld} (hd : d ≠ [])
    (hcall : methodReqWrite t.conn httpConnDataBufferSize (t.worldWith chunks) =
      .ok (some d, w)) :
    Midway t₀
      { t with world := w, produced := t.produced ++ [d],
               accepted := t.accepted ++ takes (t.results t.produced.length) d } w.chunks := by
  refine ⟨h.sockfd, h.results, fun fuel => ?_⟩
  have hahead := h.ahead (fuel + 1)
  rw [requestLoop, hcall] at hahead
  dsimp only at hahead
  rw [if_neg hd, ← Nat.add_assoc, Nat.add_right_comm, ← h.results] at hahead
  rw [List.length_append, List.length_singleton, hahead, h.results]
  rfl

/-- A call that ends the loop. -/
theorem Midway.done (h : Midway t₀ t chunks) {got : Option Bytes} {w : MethodWorld}
    (hgot : ∀ d, got = some d → d = [])
    (hcall : methodReqWrite t.conn httpConnDataBufferSize (t.worldWith chunks) = .ok (got, w)) :
    Written t₀ t := by
  refine ⟨h.sockfd, fun fuel hfuel => ?_⟩
  obtain ⟨n, rfl⟩ := Nat.exists_eq_add_of_le hfuel
  rw [sentBy, h.ahead n]
  cases n with
  | zero => rfl
  | succ n =>
      rw [requestLoop, hcall]
      cases got with
      | none => rfl
      | some d =>
          obtain rfl := hgot d rfl
          rfl

end One

/-! ## All of them -/

/-- The worker that is to write the request, or is writing it. -/
def Phase.requests (k : Nat) : Phase → Prop
  | .opening k' | .writing k' => k' = k
  | _ => False

/-- What is known of a transfer in each phase. -/
def Placed (s : Sharing) (c : Nat) (t₀ t : Transfer) : Prop :=
  match t.phase with
  | .waiting => t = t₀
  | .opening k => s.connIndex k = some c ∧ s.chunks k = .zero ∧ t = t₀.assigned k
  | .writing k => s.connIndex k = some c ∧ Midway t₀ t (s.chunks k)
  | .leaving k | .returned k _ | .answering k => s.connIndex k = some c ∧ Written t₀ t
  | .asked | .finished => Written t₀ t

/-- An idle worker's `chunks` are zeroed, and every transfer is where it is alone. -/
structure Apart (s₀ s : Sharing) : Prop where
  idle : ∀ k, s.connIndex k = none → s.chunks k = .zero
  placed : ∀ c, Placed s c (s₀.transfers c) (s.transfers c)

section Apart

variable {s₀ s s' : Sharing} {c : Nat} {t₀ t : Transfer}

/-- A transfer sees of the others what they do to the `chunks` of the worker that
    writes its request. -/
theorem Placed.frame (h : Placed s c t₀ t)
    (hindex : ∀ k, s.connIndex k = some c → s'.connIndex k = some c)
    (hchunks : ∀ k, s.connIndex k = some c → t.phase.requests k → s'.chunks k = s.chunks k) :
    Placed s' c t₀ t := by
  rw [Placed] at h ⊢
  cases hphase : t.phase with
  | waiting | asked | finished =>
      rw [hphase] at h
      exact h
  | opening k =>
      rw [hphase] at h
      obtain ⟨hk, hzero, ht⟩ := h
      have hsame := hchunks k hk (by rw [hphase]; rfl)
      exact ⟨hindex k hk, hsame.trans hzero, ht⟩
  | writing k =>
      rw [hphase] at h
      obtain ⟨hk, hmid⟩ := h
      have hsame := hchunks k hk (by rw [hphase]; rfl)
      exact ⟨hindex k hk, hsame ▸ hmid⟩
  | leaving k | returned k _ =>
      rw [hphase] at h
      exact ⟨hindex k h.1, h.2⟩
  | answering j =>
      rw [hphase] at h
      exact ⟨hindex j h.1, h.2⟩

/-- One transfer goes on, and the others do not notice. -/
theorem Apart.move (h : Apart s₀ s) (htransfers : s'.transfers = Function.update s.transfers c t)
    (hindex : ∀ k c', c' ≠ c → s.connIndex k = some c' → s'.connIndex k = some c')
    (hchunks : ∀ k c', c' ≠ c → s.connIndex k = some c' → (s.transfers c').phase.requests k →
      s'.chunks k = s.chunks k)
    (hidle : ∀ k, s'.connIndex k = none → s'.chunks k = .zero)
    (hplaced : Placed s' c (s₀.transfers c) t) : Apart s₀ s' := by
  refine ⟨hidle, fun c' => ?_⟩
  rw [htransfers]
  by_cases hc : c' = c
  · rw [hc, Function.update_self]
    exact hplaced
  · rw [Function.update_of_ne hc]
    exact (h.placed c').frame (fun k => hindex k c' hc) (fun k => hchunks k c' hc)

/-- A worker works on the transfer it was assigned. -/
theorem Apart.own (h : Apart s₀ s) {k : Nat} {chunks : MethodChunks}
    (hk : s.connIndex k = some c)
    (hplaced : Placed ((s.put c t).putChunks k chunks) c (s₀.transfers c) t) :
    Apart s₀ ((s.put c t).putChunks k chunks) := by
  refine h.move rfl (fun k' c' _ hk' => hk') (fun k' c' hc hk' _ => ?_) (fun k' hk' => ?_) hplaced
  · -- another worker
    have hne : k' ≠ k := by
      rintro rfl
      exact hc (Option.some.inj (hk'.symm.trans hk))
    exact Function.update_of_ne hne _ _
  · have hne : k' ≠ k := by
      rintro rfl
      cases hk'.symm.trans hk
    exact (Function.update_of_ne hne _ _).trans (h.idle k' hk')

/-- It goes on without its `chunks`. -/
theorem Apart.goesOn (h : Apart s₀ s) (hplaced : Placed (s.put c t) c (s₀.transfers c) t) :
    Apart s₀ (s.put c t) :=
  h.move rfl (fun _ _ _ hk => hk) (fun _ _ _ _ _ => rfl) h.idle hplaced

/-- An idle worker is assigned a transfer. -/
theorem Apart.assign (h : Apart s₀ s) {k : Nat} (hk : s.connIndex k = none)
    (hplaced : Placed ((s.put c t).putIndex k c) c (s₀.transfers c) t) :
    Apart s₀ ((s.put c t).putIndex k c) := by
  have hne : ∀ k' c', s.connIndex k' = some c' → k' ≠ k := by
    rintro k' c' hk' rfl
    cases hk'.symm.trans hk
  refine h.move rfl (fun k' c' _ hk' => ?_) (fun _ _ _ _ _ => rfl) (fun k' hk' => ?_) hplaced
  · exact (Function.update_of_ne (hne k' c' hk') _ _).trans hk'
  · have hne' : k' ≠ k := by
      rintro rfl
      have hself : ((s.put c t).putIndex k' c).connIndex k' = some c := Function.update_self _ _ _
      cases hself.symm.trans hk'
    exact h.idle k' ((Function.update_of_ne hne' _ _).symm.trans hk')

end Apart

/-! ## The callbacks, one by one -/

section Callbacks

variable {s₀ s s' : Sharing} {c k : Nat}

/-- Memory that holds what is written to it is as it was. -/
theorem Sharing.putChunks_self {chunks : MethodChunks} (h : s.chunks k = chunks) :
    s.putChunks k chunks = s := by
  rw [Sharing.putChunks, ← h, Function.update_eq_self]

theorem paramSetChunks_zero (m : Method) : paramSetChunks m .zero = .zero := by
  cases m with
  | get => rfl
  | put => rfl
  | propfind => rfl
  | delete => rfl

theorem Apart.ask (h : Apart s₀ s) (hstep : step s (.ask c k) = some s') : Apart s₀ s' := by
  rw [step] at hstep
  dsimp only at hstep
  split_ifs at hstep with hwaits
  obtain ⟨hphase, hidle⟩ := hwaits
  have hplaced := h.placed c
  rw [Placed, hphase] at hplaced
  have hzero : s.chunks k = .zero := h.idle k hidle
  obtain rfl := Option.some.inj hstep
  rw [hzero, paramSetChunks_zero, Sharing.putChunks_self (s := s.put c _) hzero, hplaced]
  exact h.assign hidle ⟨Function.update_self k _ _, hzero, rfl⟩

theorem Apart.beforeReq (h : Apart s₀ s) (hstart : Start s₀)
    (hstep : step s (.beforeReq c) = some s') : Apart s₀ s' := by
  rw [step] at hstep
  dsimp only at hstep
  split at hstep
  next k hphase =>
    have hplaced := h.placed c
    rw [Placed, hphase] at hplaced
    obtain ⟨hk, hzero, ht⟩ := hplaced
    by_cases hassert : (s.transfers c).conn.sockfd ≤ 2
    · rw [if_pos hassert] at hstep
      cases hstep
    · rw [if_neg hassert, hzero] at hstep
      rw [ht] at hassert hstep
      have hsock : 2 < (s₀.transfers c).conn.sockfd := not_le.mp hassert
      rcases hbefore : methodBeforeReq ((s₀.transfers c).assigned k).conn
        (((s₀.transfers c).assigned k).worldWith .zero) with ⟨code, conn, w⟩
      rw [hbefore] at hstep
      dsimp only at hstep
      obtain rfl := Option.some.inj hstep
      refine h.own hk ?_
      by_cases hcode : code = 0
      · rw [hcode] at hbefore
        rw [if_pos hcode]
        refine ⟨hk, ?_⟩
        show Midway _ _ (Function.update s.chunks k w.chunks k)
        rw [Function.update_self]
        exact .start (hstart.unsent c) hsock hbefore
      · rw [if_neg hcode]
        exact ⟨hk, .refused (hstart.unsent c) hsock hcode hbefore⟩
  next => cases hstep

theorem Apart.reqWrite (h : Apart s₀ s) (hstep : step s (.reqWrite c) = some s') :
    Apart s₀ s' := by
  rw [step] at hstep
  dsimp only at hstep
  split at hstep
  next k hphase =>
    have hplaced := h.placed c
    rw [Placed, hphase] at hplaced
    obtain ⟨hk, hmid⟩ := hplaced
    rcases hcall : methodReqWrite (s.transfers c).conn httpConnDataBufferSize
      ((s.transfers c).worldWith (s.chunks k)) with e | ⟨got, w⟩
    · rw [hcall] at hstep
      cases hstep
    · rw [hcall] at hstep
      cases got with
      | none =>
          obtain rfl := Option.some.inj hstep
          have hnone : ∀ d, (none : Option Bytes) = some d → d = [] := by rintro _ ⟨⟩
          have hwritten := hmid.done hnone hcall
          exact h.own hk ⟨hk, hwritten.sockfd, hwritten.all⟩
      | some d =>
          dsimp only at hstep
          obtain rfl := Option.some.inj hstep
          refine h.own hk ?_
          by_cases hd : d = []
          · have hwritten := hmid.done (fun d' hd' => (Option.some.inj hd').symm.trans hd) hcall
            rw [if_pos hd]
            exact ⟨hk, hwritten.sockfd, hwritten.all⟩
          · have hmore := hmid.more hd hcall
            rw [hphase] at hmore
            rw [if_neg hd]
            rw [Placed, hphase]
            refine ⟨hk, ?_⟩
            show Midway _ _ (Function.update s.chunks k w.chunks k)
            rw [Function.update_self]
            exact hmore
  next => cases hstep

theorem Apart.afterReq (h : Apart s₀ s) (hstep : step s (.afterReq c) = some s') :
    Apart s₀ s' := by
  rw [step] at hstep
  dsimp only at hstep
  split at hstep
  next k hphase =>
    have hplaced := h.placed c
    rw [Placed, hphase] at hplaced
    obtain ⟨hk, hwritten⟩ := hplaced
    obtain rfl := Option.some.inj hstep
    exact h.own hk ⟨hk, hwritten.sockfd, hwritten.all⟩
  next => cases hstep

/-- The worker forgets the connection, and its `chunks` are zeroed. -/
theorem Apart.release (h : Apart s₀ s) (hstep : step s (.release k) = some s') :
    Apart s₀ s' := by
  rw [step] at hstep
  split at hstep
  next => cases hstep
  next c hk =>
    dsimp only at hstep
    split at hstep
    next k' asked hphase =>
      by_cases hsame : k' = k
      swap
      · rw [if_neg hsame] at hstep
        cases hstep
      rw [if_pos hsame] at hstep
      have hplaced := h.placed c
      rw [Placed, hphase] at hplaced
      obtain rfl := Option.some.inj hstep
      have hne : ∀ k' c', c' ≠ c → s.connIndex k' = some c' → k' ≠ k := by
        rintro k' c' hc hk' rfl
        exact hc (Option.some.inj (hk'.symm.trans hk))
      refine h.move rfl (fun k' c' hc hk' => ?_) (fun k' c' hc hk' _ => ?_) (fun k' hk' => ?_) ?_
      · exact (Function.update_of_ne (hne k' c' hc hk') _ _).trans hk'
      · exact Function.update_of_ne (hne k' c' hc hk') _ _
      · show Function.update s.chunks k .zero k' = .zero
        by_cases hk'' : k' = k
        · rw [hk'', Function.update_self]
        · rw [Function.update_of_ne hk'']
          exact h.idle k' ((Function.update_of_ne hk'' _ _).symm.trans hk')
      · cases asked with
        | true => exact ⟨hplaced.2.sockfd, hplaced.2.all⟩
        | false => exact ⟨hplaced.2.sockfd, hplaced.2.all⟩
    next => cases hstep

theorem Apart.answer {j : Nat} (h : Apart s₀ s) (hstep : step s (.answer c j) = some s') :
    Apart s₀ s' := by
  rw [step] at hstep
  split_ifs at hstep with hwaits
  obtain ⟨hphase, hidle⟩ := hwaits
  have hplaced := h.placed c
  rw [Placed, hphase] at hplaced
  obtain rfl := Option.some.inj hstep
  exact h.assign hidle ⟨Function.update_self j _ _, hplaced.sockfd, hplaced.all⟩

/-- The callbacks of a response leave the `chunks` alone, or clear the flag. -/
theorem respCall_chunks (conn : HttpConnection) (w : MethodWorld) (call : RespCall) :
    (HttpTransfer.respCall (conn, w) call).2.chunks = w.chunks ∨
      ∃ resp, call = .header resp ∧ clears conn w.file resp = true ∧
        (HttpTransfer.respCall (conn, w) call).2.chunks = { w.chunks with fin := 0 } := by
  cases call with
  | body piece =>
      left
      rw [HttpTransfer.respCall]
      split
      · split_ifs
        · rfl
        · rfl
      all_goals rfl
  | header resp =>
      rw [HttpTransfer.respCall, respHeaderFunc]
      dsimp only
      rcases hfunc : conn.clb.respHeaderFunc with - | m
      · exact Or.inl rfl
      · cases m with
        | get =>
            dsimp only
            rw [httpGetResponseHeader]
            by_cases hcode : resp.code = sucOk
            · rw [if_pos hcode]
              by_cases hfd : w.file.fd < 0
              · rw [if_pos hfd]
                exact Or.inl rfl
              · rw [if_neg hfd]
                refine Or.inr ⟨resp, rfl, ?_, rfl⟩
                rw [clears, hfunc, decide_eq_true (not_lt.mp hfd), Bool.or_true]
                rfl
            · rw [if_neg hcode]
              refine Or.inr ⟨resp, rfl, ?_, rfl⟩
              rw [clears, hfunc, decide_eq_true hcode]
              rfl
        | put => exact Or.inl rfl
        | propfind => exact Or.inl rfl
        | delete => exact Or.inl rfl

/-- **A FLAG THAT IS CLEARED** in memory nobody looks at, or that was clear. -/
theorem Apart.unharmed (h : Apart s₀ s) {call : RespCall} {conn : HttpConnection}
    {w : MethodWorld} (hok : undisturbed s (.respCall c call) = true)
    (hparam : (s.transfers c).conn.clb.param = some k)
    (hcall : HttpTransfer.respCall ((s.transfers c).conn, (s.transfers c).worldWith (s.chunks k))
      call = (conn, w))
    (hlooks : s.connIndex k = none ∨
      ∃ c', s.connIndex k = some c' ∧ (s.transfers c').phase.requests k) :
    w.chunks = s.chunks k := by
  have hchunks := respCall_chunks (s.transfers c).conn ((s.transfers c).worldWith (s.chunks k)) call
  rw [hcall] at hchunks
  rcases hchunks with hsame | ⟨resp, rfl, hclears, hcleared⟩
  · exact hsame
  · have hfin : (s.chunks k).fin = 0 := by
      rcases hlooks with hk | ⟨c', hk, hrequests⟩
      · rw [h.idle k hk]
        rfl
      · have hplaced := h.placed c'
        rw [Placed] at hplaced
        cases hphase : (s.transfers c').phase with
        | opening k' =>
            rw [hphase] at hplaced hrequests
            obtain rfl : k' = k := hrequests
            rw [hplaced.2.1]
            rfl
        | writing k' =>
            -- the only one that has something to lose
            rw [hphase] at hrequests
            obtain rfl : k' = k := hrequests
            rw [undisturbed, hparam] at hok
            have hclears' : clears (s.transfers c).conn (s.transfers c).world.file resp = true :=
              hclears
            have hmid : midRequest s k' = false := by
              dsimp only at hok
              rw [hclears', Bool.true_and, Bool.not_eq_true'] at hok
              exact hok
            rw [midRequest, hk] at hmid
            dsimp only at hmid
            rw [decide_eq_true hphase, Bool.true_and] at hmid
            exact not_not.mp (of_decide_eq_false hmid)
        | _ =>
            rw [hphase] at hrequests
            exact hrequests.elim
    show w.chunks = s.chunks k
    have hflag : ∀ m : MethodChunks, m.fin = 0 → { m with fin := 0 } = m := by
      rintro ⟨close, fin⟩ rfl
      rfl
    exact hcleared.trans (hflag _ hfin)

theorem Apart.respCall (h : Apart s₀ s) {call : RespCall}
    (hok : undisturbed s (.respCall c call) = true)
    (hstep : step s (.respCall c call) = some s') : Apart s₀ s' := by
  rw [step] at hstep
  dsimp only at hstep
  split at hstep
  next j k hphase hparam =>
    have hplaced := h.placed c
    rw [Placed, hphase] at hplaced
    rcases hcall : HttpTransfer.respCall ((s.transfers c).conn,
      (s.transfers c).worldWith (s.chunks k)) call with ⟨conn, w⟩
    rw [hcall] at hstep
    obtain rfl := Option.some.inj hstep
    have hsame := h.unharmed hok hparam hcall
    refine h.move rfl (fun k' c' _ hk' => hk') (fun k' c' hc hk' hrequests => ?_)
      (fun k' hk' => ?_) ?_
    · show Function.update s.chunks k w.chunks k' = s.chunks k'
      by_cases hk : k' = k
      · rw [hk] at hk' hrequests ⊢
        rw [Function.update_self]
        exact hsame (Or.inr ⟨c', hk', hrequests⟩)
      · exact Function.update_of_ne hk _ _
    · show Function.update s.chunks k w.chunks k' = .zero
      by_cases hk : k' = k
      · rw [hk] at hk' ⊢
        rw [Function.update_self, hsame (Or.inl hk')]
        exact h.idle k hk'
      · rw [Function.update_of_ne hk]
        exact h.idle k' hk'
    · rw [Placed, hphase]
      exact ⟨hplaced.1, hplaced.2.sockfd, hplaced.2.all⟩
  next => cases hstep

theorem Apart.afterResp (h : Apart s₀ s) (hstep : step s (.afterResp c) = some s') :
    Apart s₀ s' := by
  rw [step] at hstep
  dsimp only at hstep
  split at hstep
  next j hphase =>
    have hplaced := h.placed c
    rw [Placed, hphase] at hplaced
    obtain ⟨hj, hwritten⟩ := hplaced
    obtain rfl := Option.some.inj hstep
    exact h.goesOn ⟨hj, hwritten.sockfd, hwritten.all⟩
  next => cases hstep

theorem Apart.failResp (h : Apart s₀ s) (hstep : step s (.failResp c) = some s') :
    Apart s₀ s' := by
  rw [step] at hstep
  split at hstep
  next j hphase =>
    have hplaced := h.placed c
    rw [Placed, hphase] at hplaced
    obtain ⟨hj, hwritten⟩ := hplaced
    obtain rfl := Option.some.inj hstep
    exact h.goesOn ⟨hj, hwritten.sockfd, hwritten.all⟩
  next => cases hstep

end Callbacks

/-! ## Whole runs -/

section Runs

variable {s₀ s : Sharing} {t₀ t : Transfer}

theorem Start.apart (h : Start s₀) : Apart s₀ s₀ := by
  refine ⟨fun k _ => h.chunks k, fun c => ?_⟩
  rw [Placed, h.waiting c]

theorem Placed.written {c : Nat} (h : Placed s c t₀ t) (hrequested : t.phase.requested = true) :
    Written t₀ t := by
  rw [Placed] at h
  cases hphase : t.phase with
  | waiting | opening _ | writing _ =>
      rw [hphase] at hrequested
      cases hrequested
  | leaving _ | returned _ _ | answering _ =>
      rw [hphase] at h
      exact h.2
  | asked | finished =>
      rw [hphase] at h
      exact h

/-- What was written is what the calls put into the buffer. -/
theorem Written.produces (h : Written t₀ t) (conn : HttpConnection) {w u : MethodWorld}
    {bufs : List Bytes} {ok : Bool} (hsock : 2 < conn.sockfd)
    (hbefore : methodBeforeReq (t₀.assigned 0).conn (t₀.worldWith .zero) = (0, conn, w))
    (hproduces : Produces (methodReqWrite conn httpConnDataBufferSize) w bufs ok u) :
    t.produced = bufs := by
  have hfuel : bufs.length < t.produced.length + (bufs.length + 1) :=
    Nat.lt_add_left _ (Nat.lt_succ_self _)
  have hsend := alone_send (t.produced.length + (bufs.length + 1)) h.sockfd hsock hbefore
  rw [requestLoop_produces (s := Sent.start w) hproduces hfuel] at hsend
  have hall := h.all (t.produced.length + (bufs.length + 1)) (Nat.le_add_right _ _)
  rw [sentBy, hsend] at hall
  exact (Prod.mk.inj hall).1.symm

/-- A head, once. -/
theorem Written.get (h : Written t₀ t) (hmethod : t₀.conn.method = .get) :
    t.produced = [getHead t₀.conn .zero] := by
  have hclb : (t₀.assigned 0).conn.clb = paramSet .get 0 := by
    rw [← hmethod]
    rfl
  have hbefore : methodBeforeReq (t₀.assigned 0).conn (t₀.worldWith .zero) =
      (0, (t₀.assigned 0).conn, t₀.worldWith .zero) := by
    rw [methodBeforeReq, HttpMethod.beforeReq, hclb]
    rfl
  exact h.produces (t₀.assigned 0).conn h.sockfd hbefore (get_produces hclb rfl)

theorem beforeReq_opens {conn : HttpConnection} {w : MethodWorld}
    (hclb : conn.clb.beforeReq = some .put) (hfd : 0 ≤ w.file.fd) :
    methodBeforeReq conn w = (0, { conn with filefd := w.file.fd },
      { w with fds := w.fds ++ openEvents w.file.fd }) := by
  rw [methodBeforeReq, HttpMethod.beforeReq, hclb]
  dsimp only
  rw [if_neg (not_lt.mpr hfd)]

/-- A head, and the file. -/
theorem Written.put {content mimeType : Bytes} (h : Written t₀ t) (hmethod : t₀.conn.method = .put)
    (hfd : 2 < t₀.world.file.fd) (hfile : Holds t₀.world.file content)
    (hmime : findMimeType (getFileExtension t₀.conn.localDir) = .ok mimeType) :
    t.produced.flatten = putText t₀.conn mimeType content := by
  have hclb : (t₀.assigned 0).conn.clb = paramSet .put 0 := by
    rw [← hmethod]
    rfl
  have hopened : 0 ≤ (t₀.worldWith .zero).file.fd := le_of_lt (lt_trans (by decide) hfd)
  have hbefore := beforeReq_opens (congrArg HttpCallback.beforeReq hclb) hopened
  have hcap : 0 < httpConnDataBufferSize := by decide
  have hput : ∃ bufs u, Produces
      (methodReqWrite { (t₀.assigned 0).conn with filefd := t₀.world.file.fd }
        httpConnDataBufferSize)
      { t₀.worldWith .zero with fds := t₀.world.fds ++ openEvents t₀.world.file.fd } bufs true u ∧
        _ :=
    put_produces (congrArg HttpCallback.reqWrite hclb) hfd hcap rfl hmime hfile
  obtain ⟨bufs, u, hproduces, hbytes⟩ := hput
  have hproduced := h.produces { (t₀.assigned 0).conn with filefd := t₀.world.file.fd }
    h.sockfd hbefore hproduces
  rw [hproduced, hbytes]
  rfl

end Runs

/-! ## What holds of every transfer -/

end ChunkSharing
