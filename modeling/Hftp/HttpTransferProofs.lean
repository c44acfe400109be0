import Hftp.HttpMethodProofs

/-! # A transfer

    `http_request`, `http_response` and `http_one_req_resp`.  The request is
    written with whatever `req_write` puts into the buffer, piece after piece;
    the response is read, and its callbacks are told.

    A socket that is written to is a sequence of results of `write`.  The request
    works for any callbacks; those of the methods leave a record of which local
    files they opened and closed, and what they saved. -/

namespace HttpTransfer

open CBytes HttpCore HttpChunked HttpResp HttpMethod

/-! ## Writing to a socket -/

/-- The results of `write`, one call after the other: how many bytes it takes at
    most; nothing stands for -1. -/
abbrev Writes := Nat → Option Nat

/-- The bytes that a `write` of `d` takes. -/
def takes (result : Option Nat) (d : Bytes) : Bytes :=
  match result with
  | none => []
  | some k => d.take k

/-- The callbacks of a request, in a world of their own. -/
structure ReqCallbacks (σ : Type) where
  beforeReq : Option (HttpConnection → σ → Int × HttpConnection × σ)
  reqWrite : Option (HttpConnection → Nat → σ → Except Abort (Option Bytes × σ))
  afterReq : Option (HttpConnection → σ → Int × HttpConnection × σ)

/-- What was put into the buffer, and what the socket took of it. -/
structure Sent (σ : Type) where
  world : σ
  produced : List Bytes
  accepted : Bytes

/-- How `http_internal_request` ended. -/
structure SendRun (σ : Type) where
  stop : Except Abort Int
  sent : Sent σ

section Request

variable {σ : Type}

/-- `while ((len = conn->clb.req_write(..)) > 0) write(conn->sockfd, buffer, len)` -/
def requestLoop (reqWrite : σ → Except Abort (Option Bytes × σ)) (results : Writes) :
    Nat → Sent σ → SendRun σ
  | 0, s => { stop := .error .diverges, sent := s }
  | fuel + 1, s =>
      match reqWrite s.world with
      | .error e => { stop := .error e, sent := s }
      | .ok (none, w) => { stop := .ok 1, sent := { s with world := w } }
      | .ok (some d, w) =>
          if d = [] then { stop := .ok 0, sent := { s with world := w } }
          else
            -- the result of write is not looked at
            requestLoop reqWrite results fuel
              { world := w, produced := s.produced ++ [d],
                accepted := s.accepted ++ takes (results s.produced.length) d }

/-- Nothing is sent yet. -/
def Sent.start (w : σ) : Sent σ := { world := w, produced := [], accepted := [] }

def httpInternalRequest (cb : ReqCallbacks σ) (conn : HttpConnection) (capacity : Nat)
    (results : Writes) (fuel : Nat) (w : σ) : SendRun σ :=
  if conn.sockfd ≤ 2 ∨ capacity = 0 then { stop := .error .assertFailed, sent := .start w }
  else
    match cb.reqWrite with
    | none => { stop := .error .assertFailed, sent := .start w }
    | some reqWrite => requestLoop (reqWrite conn capacity) results fuel (.start w)

/-- A callback that need not be there. -/
def callIf (f : Option (HttpConnection → σ → Int × HttpConnection × σ)) (conn : HttpConnection)
    (w : σ) : Int × HttpConnection × σ :=
  match f with
  | none => (0, conn, w)
  | some f => f conn w

/-- How `http_request` ended; `send` is there if `http_internal_request` was
    called. -/
structure RequestRun (σ : Type) where
  stop : Except Abort Int
  conn : HttpConnection
  world : σ
  send : Option (SendRun σ)

/-- `fail_request`; the socket is closed. -/
def failConn (conn : HttpConnection) : HttpConnection := { conn with state := -1, sockfd := 0 }

def httpRequest (cb : ReqCallbacks σ) (conn : HttpConnection) (capacity : Nat) (results : Writes)
    (fuel : Nat) (w : σ) : RequestRun σ :=
  if conn.sockfd ≤ 2 ∨ capacity = 0 then
    { stop := .error .assertFailed, conn := conn, world := w, send := none }
  else
    let (code, conn, w) := callIf cb.beforeReq conn w
    if code ≠ 0 then { stop := .ok 1, conn := failConn conn, world := w, send := none }
    else
      let run := httpInternalRequest cb conn capacity results fuel w
      match run.stop with
      | .error e => { stop := .error e, conn := conn, world := run.sent.world, send := some run }
      | .ok code =>
          if code ≠ 0 then
            { stop := .ok 1, conn := failConn conn, world := run.sent.world, send := some run }
          else
            let (code, conn, w) := callIf cb.afterReq conn run.sent.world
            if code ≠ 0 then
              { stop := .ok 1, conn := failConn conn, world := w, send := some run }
            else { stop := .ok 0, conn := { conn with state := 1 }, world := w, send := some run }

end Request

/-! ## Buffers in a row -/

/-- Calls of `req_write` put these buffers into the buffer, and then nothing
    (`ok`) or a negative length. -/
inductive Produces {σ : Type} (reqWrite : σ → Except Abort (Option Bytes × σ)) :
    σ → List Bytes → Bool → σ → Prop where
  | stops {w w' : σ} (h : reqWrite w = .ok (some [], w')) : Produces reqWrite w [] true w'
  | fails {w w' : σ} (h : reqWrite w = .ok (none, w')) : Produces reqWrite w [] false w'
  | cons {w u w' : σ} {d : Bytes} {bufs : List Bytes} {ok : Bool}
      (h : reqWrite w = .ok (some d, u)) (hd : d ≠ []) (rest : Produces reqWrite u bufs ok w') :
      Produces reqWrite w (d :: bufs) ok w'

/-- What the socket takes of buffers, from the `n`-th call of `write` on. -/
def acceptedOf (results : Writes) : Nat → List Bytes → Bytes
  | _, [] => []
  | n, d :: bufs => takes (results n) d ++ acceptedOf results (n + 1) bufs

/-- A `write` takes the whole buffer. -/
def Whole (result : Option Nat) (d : Bytes) : Prop := ∃ k, result = some k ∧ d.length ≤ k

theorem takes_within (result : Option Nat) (d : Bytes) : takes result d <+: d := by
  cases result with
  | none => exact List.nil_prefix
  | some k => exact List.take_prefix k d

theorem takes_eq_iff {result : Option Nat} {d : Bytes} (hd : d ≠ []) :
    takes result d = d ↔ Whole result d := by
  cases result with
  | none =>
      constructor
      · intro h
        exact absurd h.symm hd
      · rintro ⟨k, hk, -⟩
        cases hk
  | some k =>
      rw [takes, List.take_eq_self_iff]
      constructor
      · intro hle
        exact ⟨k, rfl, hle⟩
      · rintro ⟨k', hk', hle⟩
        rw [Option.some.inj hk']
        exact hle

/-- Nobody takes more than there is. -/
theorem acceptedOf_length (results : Writes) (n : Nat) (bufs : List Bytes) :
    (acceptedOf results n bufs).length ≤ bufs.flatten.length := by
  induction bufs generalizing n with
  | nil => exact Nat.le_refl 0
  | cons d bufs ih =>
      rw [acceptedOf, List.flatten_cons, List.length_append, List.length_append]
      exact Nat.add_le_add (takes_within (results n) d).length_le (ih (n + 1))

/-- **NOTHING IS LOST** exactly if every `write` takes its whole buffer. -/
theorem acceptedOf_eq_iff {results : Writes} {n : Nat} {bufs : List Bytes}
    (hbufs : ∀ d ∈ bufs, d ≠ []) :
    acceptedOf results n bufs = bufs.flatten ↔
      ∀ i d, bufs[i]? = some d → Whole (results (n + i)) d := by
  induction bufs generalizing n with
  | nil =>
      constructor
      · rintro - i d h
        cases h
      · exact fun _ => rfl
  | cons d bufs ih =>
      have hd : d ≠ [] := hbufs d List.mem_cons_self
      have hrest := ih (n := n + 1) (fun e he => hbufs e (List.mem_cons_of_mem d he))
      rw [acceptedOf, List.flatten_cons]
      constructor
      · intro h
        -- less of one buffer cannot be made up for by the others
        have hprefix := takes_within (results n) d
        have hlen := congrArg List.length h
        rw [List.length_append, List.length_append] at hlen
        have hrestLen := acceptedOf_length results (n + 1) bufs
        have hhead : takes (results n) d = d :=
          hprefix.eq_of_length_le (by have := hprefix.length_le; omega)
        rw [hhead] at h
        have htail := hrest.mp (List.append_cancel_left h)
        intro i e he
        cases i with
        | zero =>
            obtain rfl := Option.some.inj he
            exact (takes_eq_iff hd).mp hhead
        | succ i =>
            have hwhole := htail i e he
            rw [Nat.add_right_comm] at hwhole
            exact hwhole
      · intro h
        have hhead : takes (results n) d = d := (takes_eq_iff hd).mpr (h 0 d rfl)
        rw [hhead]
        refine congrArg (d ++ ·) (hrest.mpr (fun i e he => ?_))
        have hwhole := h (i + 1) e he
        rw [← Nat.add_assoc, Nat.add_right_comm] at hwhole
        exact hwhole

section Produces

variable {σ : Type} {reqWrite : σ → Except Abort (Option Bytes × σ)}

theorem Produces.ne_nil {w w' : σ} {bufs : List Bytes} {ok : Bool}
    (h : Produces reqWrite w bufs ok w') : ∀ d ∈ bufs, d ≠ [] := by
  induction h with
  | stops h => rintro _ ⟨⟩
  | fails h => rintro _ ⟨⟩
  | cons h hd rest ih =>
      intro e he
      rcases List.mem_cons.mp he with rfl | hmem
      · exact hd
      · exact ih e hmem

/-- What is produced is determined. -/
theorem Produces.unique {w w' u' : σ} {bufs bufs' : List Bytes} {ok ok' : Bool}
    (h : Produces reqWrite w bufs ok w') (k : Produces reqWrite w bufs' ok' u') :
    bufs' = bufs ∧ ok' = ok ∧ u' = w' := by
  induction h generalizing bufs' with
  | stops h =>
      cases k with
      | stops k =>
          rw [h] at k
          exact ⟨rfl, rfl, ((Prod.mk.inj (Except.ok.inj k)).2).symm⟩
      | fails k =>
          rw [h] at k
          cases (Prod.mk.inj (Except.ok.inj k)).1
      | cons k hd rest =>
          rw [h] at k
          exact absurd (Option.some.inj (Prod.mk.inj (Except.ok.inj k)).1).symm hd
  | fails h =>
      cases k with
      | stops k | cons k _ _ =>
          rw [h] at k
          cases (Prod.mk.inj (Except.ok.inj k)).1
      | fails k =>
          rw [h] at k
          exact ⟨rfl, rfl, ((Prod.mk.inj (Except.ok.inj k)).2).symm⟩
  | cons h hd rest ih =>
      cases k with
      | stops k =>
          rw [h] at k
          exact absurd (Option.some.inj (Prod.mk.inj (Except.ok.inj k)).1) hd
      | fails k =>
          rw [h] at k
          cases (Prod.mk.inj (Except.ok.inj k)).1
      | cons k hd' rest' =>
          rw [h] at k
          obtain ⟨hsame, rfl⟩ := Prod.mk.inj (Except.ok.inj k)
          obtain ⟨rfl, hok, hworld⟩ := ih rest'
          exact ⟨by rw [Option.some.inj hsame], hok, hworld⟩

/-- **THE LOOP** sends what is produced, buffer by buffer. -/
theorem requestLoop_produces {results : Writes} {fuel : Nat} {s : Sent σ} {bufs : List Bytes}
    {ok : Bool} {w' : σ} (h : Produces reqWrite s.world bufs ok w') (hfuel : bufs.length < fuel) :
    requestLoop reqWrite results fuel s =
      { stop := .ok (if ok then 0 else 1),
        sent := { world := w', produced := s.produced ++ bufs,
                  accepted := s.accepted ++ acceptedOf results s.produced.length bufs } } := by
  induction bufs generalizing s fuel with
  | nil =>
      obtain ⟨fuel, rfl⟩ : ∃ n, fuel = n + 1 := ⟨fuel - 1, by rw [List.length_nil] at hfuel; omega⟩
      rw [requestLoop, acceptedOf, List.append_nil, List.append_nil]
      cases h with
      | stops h => rw [h]; rfl
      | fails h => rw [h]; rfl
  | cons d bufs ih =>
      obtain ⟨fuel, rfl⟩ : ∃ n, fuel = n + 1 := ⟨fuel - 1, by rw [List.length_cons] at hfuel; omega⟩
      cases h with
      | cons h hd rest =>
          rw [requestLoop, h]
          dsimp only
          rw [if_neg hd]
          rw [ih rest (by rw [List.length_cons] at hfuel; omega), acceptedOf]
          rw [List.append_assoc, List.append_assoc, List.length_append]
          rfl

/-- What was produced stays produced. -/
theorem requestLoop_grows {results : Writes} {fuel : Nat} : ∀ {s : Sent σ},
    s.produced <+: (requestLoop reqWrite results fuel s).sent.produced := by
  induction fuel with
  | zero =>
      intro s
      exact List.prefix_rfl
  | succ fuel ih =>
      intro s
      rw [requestLoop]
      cases reqWrite s.world with
      | error e => exact List.prefix_rfl
      | ok out =>
          obtain ⟨got, w⟩ := out
          cases got with
          | none => exact List.prefix_rfl
          | some d =>
              dsimp only
              split_ifs
              · exact List.prefix_rfl
              · have hmore : s.produced ++ [d] <+: _ :=
                  ih (s := { world := w, produced := s.produced ++ [d],
                             accepted := s.accepted ++ takes (results s.produced.length) d })
                exact (List.prefix_append s.produced [d]).trans hmore

/-- The first buffer is among those that are produced. -/
theorem requestLoop_first {results : Writes} {fuel : Nat} {s : Sent σ} {d : Bytes} {u : σ}
    (h : reqWrite s.world = .ok (some d, u)) (hd : d ≠ []) :
    s.produced ++ [d] <+: (requestLoop reqWrite results (fuel + 1) s).sent.produced := by
  rw [requestLoop, h]
  dsimp only
  rw [if_neg hd]
  exact requestLoop_grows (s := { world := u, produced := s.produced ++ [d], accepted := _ })

/-- If the first call fails or does not return, nothing is produced. -/
theorem requestLoop_none {results : Writes} {fuel : Nat} {s : Sent σ}
    (h : ∀ d u, reqWrite s.world ≠ .ok (some d, u)) :
    (requestLoop reqWrite results fuel s).sent.produced = s.produced := by
  cases fuel with
  | zero => rfl
  | succ fuel =>
      rw [requestLoop]
      cases hwrite : reqWrite s.world with
      | error e => rfl
      | ok out =>
          obtain ⟨got, w⟩ := out
          cases got with
          | none => rfl
          | some d => exact absurd hwrite (h d w)

/-- What every call of `req_write` keeps, all of them keep. -/
theorem Produces.keeps (Keeps : σ → σ → Prop)
    (htrans : ∀ {w u v}, Keeps w u → Keeps u v → Keeps w v)
    (hcall : ∀ {w got u}, reqWrite w = .ok (got, u) → Keeps w u) {w w' : σ} {bufs : List Bytes}
    {ok : Bool} (h : Produces reqWrite w bufs ok w') : Keeps w w' := by
  induction h with
  | stops h => exact hcall h
  | fails h => exact hcall h
  | cons h hd rest ih => exact htrans (hcall h) ih

end Produces

/-! ## The callbacks of the methods -/

/-- What happens to the descriptor of a local file. -/
inductive FdEvent where
  | opened (fd : Int)
  | closed (fd : Int)
  deriving DecidableEq, Repr

/-- What the methods' callbacks work on, what they did to descriptors, and what
    they wrote to which. -/
structure MethodWorld where
  chunks : MethodChunks
  file : LocalFile
  fds : List FdEvent
  saved : List (Int × Bytes)
  deriving DecidableEq, Repr

/-- An `open` that returns `fd`, seen from outside. -/
def openEvents (fd : Int) : List FdEvent := if fd < 0 then [] else [.opened fd]

def methodBeforeReq (conn : HttpConnection) (w : MethodWorld) :
    Int × HttpConnection × MethodWorld :=
  let (code, conn') := beforeReq conn w.file
  match conn.clb.beforeReq with
  | some .put => (code, conn', { w with fds := w.fds ++ openEvents w.file.fd })
  | none | some .get | some .propfind | some .delete => (code, conn', w)

def methodReqWrite (conn : HttpConnection) (capacity : Nat) (w : MethodWorld) :
    Except Abort (Option Bytes × MethodWorld) :=
  match reqWrite conn capacity w.chunks w.file with
  | .error e => .error e
  | .ok r => .ok (r.out, { w with chunks := r.chunks, file := r.file })

/-- `http_put_after_request` closes the file. -/
def methodAfterReq (conn : HttpConnection) (w : MethodWorld) : Int × HttpConnection × MethodWorld :=
  match conn.clb.afterReq with
  | some .put => (0, conn, { w with fds := w.fds ++ [.closed conn.filefd] })
  | none | some .get | some .propfind | some .delete => (0, conn, w)

/-- The callbacks registered in a connection. -/
def methodCallbacks (clb : HttpCallback) : ReqCallbacks MethodWorld :=
  { beforeReq := clb.beforeReq.map fun _ => methodBeforeReq,
    reqWrite := clb.reqWrite.map fun _ => methodReqWrite,
    afterReq := clb.afterReq.map fun _ => methodAfterReq }

/-- Every method registers all callbacks of a request. -/
theorem methodCallbacks_paramSet (m : Method) (k : Nat) :
    methodCallbacks (paramSet m k) =
      { beforeReq := some methodBeforeReq, reqWrite := some methodReqWrite,
        afterReq := some methodAfterReq } := rfl

/-- One call that `http_internal_response` makes; what it returns is not looked
    at. -/
def respCall (cw : HttpConnection × MethodWorld) : RespCall → HttpConnection × MethodWorld
  | .header resp =>
      let conn := { cw.1 with resp := resp }
      let (conn', c) := respHeaderFunc conn cw.2.file.fd cw.2.chunks
      match conn.clb.respHeaderFunc with
      | some .get =>
          (conn', { cw.2 with
            chunks := c,
            fds := cw.2.fds ++ if resp.code = sucOk then openEvents cw.2.file.fd else [] })
      | none | some .put | some .propfind | some .delete => (conn', { cw.2 with chunks := c })
  | .body piece =>
      match cw.1.clb.respBodyFunc with
      | some .get =>
          if cw.1.resp.code = sucOk ∧ 2 < cw.1.filefd then
            (cw.1, { cw.2 with saved := cw.2.saved ++ [(cw.1.filefd, piece.bytes)] })
          else cw
      | none | some .put | some .propfind | some .delete => cw

def methodAfterResp (conn : HttpConnection) (w : MethodWorld) : HttpConnection × MethodWorld :=
  match conn.clb.afterResp with
  | some .get =>
      (afterResp conn,
        if conn.resp.code = sucOk then { w with fds := w.fds ++ [.closed conn.filefd] } else w)
  | none | some .put | some .propfind | some .delete => (afterResp conn, w)

/-! ## The response -/

/-- How `http_response` ended. -/
structure ResponseRun where
  stop : Except Abort Int
  conn : HttpConnection
  world : MethodWorld

/-- `http_internal_response` with its callbacks, and what they leave. -/
def receive (conn : HttpConnection) (buffer : Bytes) (sock : Sock) (w : MethodWorld) :
    HttpConnection × MethodWorld :=
  let run := httpInternalResponse conn buffer sock
  let (conn', w') := run.s.calls.foldl respCall (conn, w)
  ({ conn' with resp := run.s.resp, ctx := run.s.ctx }, w')

/-- No method's `before_resp` does anything. -/
def httpResponse (conn : HttpConnection) (buffer : Bytes) (sock : Sock) (w : MethodWorld) :
    ResponseRun :=
  if conn.sockfd ≤ 2 ∨ buffer = [] then
    { stop := .error .assertFailed, conn := conn, world := w }
  else
    let (conn', w') := receive conn buffer sock w
    match (httpInternalResponse conn buffer sock).stop with
    | .error e => { stop := .error e, conn := conn', world := w' }
    | .ok code =>
        if code ≠ 0 then { stop := .ok 1, conn := failConn conn', world := w' }
        else
          let (conn'', w'') := methodAfterResp conn' w'
          { stop := .ok 0, conn := { conn'' with state := 3, sockfd := 0 }, world := w'' }

/-! ## A command

    The request is handled first; the response when the socket is readable. -/

/-- What a command came to: its last handler's code, the slot, what the socket
    took, and the calls of the response callbacks. -/
structure CommandRun where
  stop : Except Abort Int
  conn : HttpConnection
  world : MethodWorld
  accepted : Bytes
  calls : List RespCall

def command (conn : HttpConnection) (capacity : Nat) (results : Writes) (fuel : Nat)
    (buffer : Bytes) (sock : Sock) (w : MethodWorld) : CommandRun :=
  let req := httpRequest (methodCallbacks conn.clb) conn capacity results fuel w
  let accepted :=
    match req.send with
    | none => []
    | some run => run.sent.accepted
  match req.stop with
  | .error e =>
      { stop := .error e, conn := req.conn, world := req.world, accepted := accepted, calls := [] }
  | .ok code =>
      if code ≠ 0 then
        { stop := .ok code, conn := req.conn, world := req.world, accepted := accepted,
          calls := [] }
      else
        let conn := { req.conn with state := 2 }
        let resp := httpResponse conn buffer sock req.world
        { stop := resp.stop, conn := resp.conn, world := resp.world, accepted := accepted,
          calls := (httpInternalResponse conn buffer sock).s.calls }

/-! ## Both in one -/

/-- How `http_one_req_resp` ended, with what its response callbacks were told. -/
structure OneRun where
  stop : Except Abort Int
  conn : HttpConnection
  world : MethodWorld
  send : Option (SendRun MethodWorld)
  calls : List RespCall

/-- The buffer has `capacity` bytes, whatever is in them after the request. -/
def httpOneReqResp (conn : HttpConnection) (capacity : Nat) (results : Writes) (fuel : Nat)
    (leftover : Bytes) (sock : Sock) (w : MethodWorld) : OneRun :=
  if capacity = 0 then
    { stop := .error .assertFailed, conn := conn, world := w, send := none, calls := [] }
  else
    let cb := methodCallbacks conn.clb
    let (code, conn, w) := callIf cb.beforeReq conn w
    if code ≠ 0 then { stop := .ok 1, conn := conn, world := w, send := none, calls := [] }
    else
      let run := httpInternalRequest cb conn capacity results fuel w
      match run.stop with
      | .error e =>
          { stop := .error e, conn := conn, world := run.sent.world, send := some run, calls := [] }
      | .ok code =>
          if code ≠ 0 then
            { stop := .ok 1, conn := conn, world := run.sent.world, send := some run, calls := [] }
          else
            let (code, conn, w) := callIf cb.afterReq conn run.sent.world
            if code ≠ 0 then
              { stop := .ok 1, conn := conn, world := w, send := some run, calls := [] }
            else
              let conn := { conn with state := 2 }
              let buffer := store (List.replicate capacity 0) 0 (leftover.take capacity)
              let response := httpInternalResponse conn buffer sock
              let calls := response.s.calls
              let (conn', w') := receive conn buffer sock w
              match response.stop with
              | .error e =>
                  { stop := .error e, conn := conn', world := w', send := some run, calls := calls }
              | .ok code =>
                  if code ≠ 0 then
                    { stop := .ok 1, conn := conn', world := w', send := some run, calls := calls }
                  else
                    let (conn'', w'') := methodAfterResp conn' w'
                    { stop := .ok 0, conn := { conn'' with state := 0 }, world := w'',
                      send := some run, calls := calls }

/-! ## What `http_request` comes to -/

section Request

variable {σ : Type} {cb : ReqCallbacks σ} {conn conn' : HttpConnection} {capacity : Nat}
  {results : Writes} {fuel : Nat} {w w' : σ}

/-- The assertions at the head of `http_request`, with the file open. -/
structure Ready (cb : ReqCallbacks σ) (conn : HttpConnection) (capacity : Nat) (w : σ)
    (conn' : HttpConnection) (w' : σ) : Prop where
  sockfd : 2 < conn.sockfd
  capacity : 0 < capacity
  before : callIf cb.beforeReq conn w = (0, conn', w')
  sockfd' : 2 < conn'.sockfd

theorem asserts_hold (hsock : 2 < conn.sockfd) (hcap : 0 < capacity) :
    ¬ (conn.sockfd ≤ 2 ∨ capacity = 0) := by
  rintro (hlow | hzero)
  · exact absurd hsock (Int.not_lt.mpr hlow)
  · exact absurd hcap (by rw [hzero]; exact Nat.lt_irrefl 0)

theorem internalRequest_eq {reqWrite : HttpConnection → Nat → σ → Except Abort (Option Bytes × σ)}
    (hwrite : cb.reqWrite = some reqWrite) (hsock : 2 < conn.sockfd) (hcap : 0 < capacity) :
    httpInternalRequest cb conn capacity results fuel w =
      requestLoop (reqWrite conn capacity) results fuel (.start w) := by
  rw [httpInternalRequest, if_neg (asserts_hold hsock hcap), hwrite]

/-- The call of `http_internal_request`. -/
theorem Ready.send (h : Ready cb conn capacity w conn' w') :
    (httpRequest cb conn capacity results fuel w).send =
      some (httpInternalRequest cb conn' capacity results fuel w') := by
  rw [httpRequest, if_neg (asserts_hold h.sockfd h.capacity), h.before]
  dsimp only
  rw [if_neg (not_not.mpr rfl)]
  cases (httpInternalRequest cb conn' capacity results fuel w').stop with
  | error e => rfl
  | ok code =>
      dsimp only
      split_ifs <;> rfl

/-- A request that was written is followed by the last callback. -/
theorem Ready.written (h : Ready cb conn capacity w conn' w')
    (hstop : (httpInternalRequest cb conn' capacity results fuel w').stop = .ok 0)
    {conn'' : HttpConnection} {v : σ} (hafter : callIf cb.afterReq conn'
      (httpInternalRequest cb conn' capacity results fuel w').sent.world = (0, conn'', v)) :
    httpRequest cb conn capacity results fuel w =
      { stop := .ok 0, conn := { conn'' with state := 1 }, world := v,
        send := some (httpInternalRequest cb conn' capacity results fuel w') } := by
  rw [httpRequest, if_neg (asserts_hold h.sockfd h.capacity), h.before]
  dsimp only
  rw [if_neg (not_not.mpr rfl), hstop]
  dsimp only
  rw [if_neg (not_not.mpr rfl), hafter]
  dsimp only
  rw [if_neg (not_not.mpr rfl)]

/-- A request that cannot be written fails, and the socket is closed. -/
theorem Ready.fails (h : Ready cb conn capacity w conn' w') {code : Int} (hcode : code ≠ 0)
    (hstop : (httpInternalRequest cb conn' capacity results fuel w').stop = .ok code) :
    httpRequest cb conn capacity results fuel w =
      { stop := .ok 1, conn := failConn conn',
        world := (httpInternalRequest cb conn' capacity results fuel w').sent.world,
        send := some (httpInternalRequest cb conn' capacity results fuel w') } := by
  rw [httpRequest, if_neg (asserts_hold h.sockfd h.capacity), h.before]
  dsimp only
  rw [if_neg (not_not.mpr rfl), hstop]
  dsimp only
  rw [if_pos hcode]

/-- A request that `before_req` refuses sends nothing. -/
theorem request_refused {code : Int} (hcode : code ≠ 0)
    (hbefore : callIf cb.beforeReq conn w = (code, conn', w')) :
    (httpRequest cb conn capacity results fuel w).send = none := by
  rw [httpRequest]
  split_ifs
  · rfl
  · rw [hbefore]
    dsimp only
    rw [if_pos hcode]

/-- The ways in which `http_request` returns. -/
inductive Requested (cb : ReqCallbacks σ) (conn : HttpConnection) (capacity : Nat) (results : Writes)
    (fuel : Nat) (w : σ) (run : RequestRun σ) : Prop where
  | refused (code : Int) (conn' : HttpConnection) (w' : σ) (hcode : code ≠ 0)
      (hbefore : callIf cb.beforeReq conn w = (code, conn', w'))
      (hrun : run = { stop := .ok 1, conn := failConn conn', world := w', send := none })
  | unsent (conn' : HttpConnection) (w' : σ) (send : SendRun σ) (code : Int) (hcode : code ≠ 0)
      (hbefore : callIf cb.beforeReq conn w = (0, conn', w'))
      (hsend : httpInternalRequest cb conn' capacity results fuel w' = send)
      (hstop : send.stop = .ok code)
      (hrun : run = { stop := .ok 1, conn := failConn conn', world := send.sent.world,
                      send := some send })
  | dropped (conn' conn'' : HttpConnection) (w' w'' : σ) (send : SendRun σ) (code : Int)
      (hcode : code ≠ 0) (hbefore : callIf cb.beforeReq conn w = (0, conn', w'))
      (hsend : httpInternalRequest cb conn' capacity results fuel w' = send)
      (hstop : send.stop = .ok 0)
      (hafter : callIf cb.afterReq conn' send.sent.world = (code, conn'', w''))
      (hrun : run = { stop := .ok 1, conn := failConn conn'', world := w'', send := some send })
  | sent (conn' conn'' : HttpConnection) (w' w'' : σ) (send : SendRun σ)
      (hbefore : callIf cb.beforeReq conn w = (0, conn', w'))
      (hsend : httpInternalRequest cb conn' capacity results fuel w' = send)
      (hstop : send.stop = .ok 0)
      (hafter : callIf cb.afterReq conn' send.sent.world = (0, conn'', w''))
      (hrun : run = { stop := .ok 0, conn := { conn'' with state := 1 }, world := w'',
                      send := some send })

/-- **WHAT `http_request` COMES TO** if it returns. -/
theorem httpRequest_requested {code : Int}
    (h : (httpRequest cb conn capacity results fuel w).stop = .ok code) :
    Requested cb conn capacity results fuel w (httpRequest cb conn capacity results fuel w) := by
  rw [httpRequest] at h ⊢
  split_ifs at h ⊢
  rcases hbefore : callIf cb.beforeReq conn w with ⟨c, conn', w'⟩
  rw [hbefore] at h
  dsimp only at h ⊢
  by_cases hc : c = 0
  · rw [if_neg (not_not.mpr hc)] at h ⊢
    rw [hc] at hbefore
    cases hstop : (httpInternalRequest cb conn' capacity results fuel w').stop with
    | error e =>
        rw [hstop] at h
        cases h
    | ok c' =>
        dsimp only
        by_cases hc' : c' = 0
        · rw [if_neg (not_not.mpr hc')]
          rw [hc'] at hstop
          rcases hafter : callIf cb.afterReq conn'
            (httpInternalRequest cb conn' capacity results fuel w').sent.world with ⟨c'', conn'', w''⟩
          dsimp only
          by_cases hc'' : c'' = 0
          · rw [if_neg (not_not.mpr hc'')]
            rw [hc''] at hafter
            exact .sent conn' conn'' w' w'' _ hbefore rfl hstop hafter rfl
          · rw [if_pos hc'']
            exact .dropped conn' conn'' w' w'' _ c'' hc'' hbefore rfl hstop hafter rfl
        · rw [if_pos hc']
          exact .unsent conn' w' _ c' hc' hbefore rfl hstop rfl
  · rw [if_pos hc]
    exact .refused c conn' w' hc hbefore rfl

end Request

/-! ## What `http_one_req_resp` sends -/

section One

variable {conn conn' : HttpConnection} {capacity : Nat} {results : Writes} {fuel : Nat}
  {leftover : Bytes} {sock : Sock} {w w' : MethodWorld}

theorem one_refused {code : Int} (hcode : code ≠ 0)
    (hbefore : callIf (methodCallbacks conn.clb).beforeReq conn w = (code, conn', w')) :
    (httpOneReqResp conn capacity results fuel leftover sock w).send = none := by
  rw [httpOneReqResp]
  split_ifs
  · rfl
  · dsimp only
    rw [hbefore]
    dsimp only
    rw [if_pos hcode]

theorem one_send (hcap : 0 < capacity)
    (hbefore : callIf (methodCallbacks conn.clb).beforeReq conn w = (0, conn', w')) :
    (httpOneReqResp conn capacity results fuel leftover sock w).send =
      some (httpInternalRequest (methodCallbacks conn.clb) conn' capacity results fuel w') := by
  rw [httpOneReqResp, if_neg (Nat.pos_iff_ne_zero.mp hcap)]
  dsimp only
  rw [hbefore]
  dsimp only
  rw [if_neg (not_not.mpr rfl)]
  cases (httpInternalRequest (methodCallbacks conn.clb) conn' capacity results fuel w').stop with
  | error e => rfl
  | ok code =>
      dsimp only
      split
      · rfl
      · split
        · rfl
        · split
          · rfl
          · split <;> rfl

end One

/-! ## What `http_response` comes to -/

/-- The ways in which `http_response` returns. -/
inductive Responded (conn : HttpConnection) (buffer : Bytes) (sock : Sock) (w : MethodWorld)
    (run : ResponseRun) : Prop where
  | failed (code : Int) (hcode : code ≠ 0)
      (hstop : (httpInternalResponse conn buffer sock).stop = .ok code)
      (hrun : run = { stop := .ok 1, conn := failConn (receive conn buffer sock w).1,
                      world := (receive conn buffer sock w).2 })
  | done (conn' : HttpConnection) (w' : MethodWorld)
      (hstop : (httpInternalResponse conn buffer sock).stop = .ok 0)
      (hafter : methodAfterResp (receive conn buffer sock w).1 (receive conn buffer sock w).2 =
        (conn', w'))
      (hrun : run = { stop := .ok 0, conn := { conn' with state := 3, sockfd := 0 }, world := w' })

/-- **WHAT `http_response` COMES TO** if it returns. -/
theorem httpResponse_responded {conn : HttpConnection} {buffer : Bytes} {sock : Sock}
    {w : MethodWorld} {code : Int} (h : (httpResponse conn buffer sock w).stop = .ok code) :
    Responded conn buffer sock w (httpResponse conn buffer sock w) := by
  rw [httpResponse] at h ⊢
  split_ifs at h ⊢
  dsimp only at h ⊢
  cases hstop : (httpInternalResponse conn buffer sock).stop with
  | error e =>
      rw [hstop] at h
      cases h
  | ok c =>
      dsimp only
      by_cases hc : c = 0
      · rw [if_neg (not_not.mpr hc)]
        rw [hc] at hstop
        exact .done _ _ hstop rfl rfl
      · rw [if_pos hc]
        exact .failed c hc hstop rfl

end HttpTransfer
