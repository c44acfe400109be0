import Hftp.HttpTransferProofs
import Hftp.ArrivalsProofs

/-! # A callback that fails

    A command runs up to seven callbacks: `http_request` calls three of them,
    `http_response` two, and `http_internal_response` the other two, from its read
    loop and from the chunked decoder.  The first five are listened to: a code
    other than 0 ends the command, with the socket closed.  What the last two
    return is dropped, so the command goes on, and may even succeed.

    The callbacks are any functions on a world of their own.  To see which of them
    are invoked, each is wrapped in one that takes a note of its code. -/

namespace CallbackFailure

open CBytes HttpCore HttpChunked HttpResp HttpMethod HttpTransfer Arrivals

/-! ## A command with any callbacks -/

/-- The callbacks of a command.  Those that `http_internal_response` calls may
    change the file of the connection and nothing else of it, and do not read the
    context of the parser. -/
structure Callbacks (σ : Type) where
  req : ReqCallbacks σ
  beforeResp : Option (HttpConnection → σ → Int × HttpConnection × σ)
  respHeaderFunc : Option (HttpConnection → σ → Int × Int × σ)
  respBodyFunc : Option (HttpConnection → Piece → σ → Int × Int × σ)
  afterResp : Option (HttpConnection → σ → Int × HttpConnection × σ)

/-- How a handler ended. -/
structure Run (σ : Type) where
  stop : Except Abort Int
  conn : HttpConnection
  world : σ

section Command

variable {σ : Type}

/-- `http_internal_response`, which does not look at what its callbacks return. -/
def httpInternalResponse (cb : Callbacks σ) (conn : HttpConnection) (buffer : Bytes)
    (sock : Sock) : RespRun :=
  if conn.sockfd > 2 ∧ buffer.length > 0 then
    respLoop cb.respHeaderFunc.isSome cb.respBodyFunc.isSome (respFuel sock)
      (.start conn buffer sock)
  else { stop := .error .assertFailed, s := .start conn buffer sock }

/-- One of its calls: the code, and what is left. -/
def tellCall (cb : Callbacks σ) (cw : HttpConnection × σ) :
    RespCall → Int × HttpConnection × σ
  | .header _ =>
      match cb.respHeaderFunc with
      | none => (0, cw)
      | some f =>
          let (code, fd, w) := f cw.1 cw.2
          (code, { cw.1 with filefd := fd }, w)
  | .body piece =>
      match cb.respBodyFunc with
      | none => (0, cw)
      | some f =>
          let (code, fd, w) := f cw.1 piece cw.2
          (code, { cw.1 with filefd := fd }, w)

/-- All of its calls; the codes are dropped. -/
def tell (cb : Callbacks σ) (cw : HttpConnection × σ) : List RespCall → HttpConnection × σ
  | [] => cw
  | call :: calls => tell cb (tellCall cb cw call).2 calls

/-- The connection while the body is read. -/
def readConn (cb : Callbacks σ) (conn : HttpConnection) (buffer : Bytes) (sock : Sock) :
    HttpConnection :=
  let run := httpInternalResponse cb conn buffer sock
  { conn with resp := run.s.resp, ctx := run.s.ctx }

def receive (cb : Callbacks σ) (conn : HttpConnection) (buffer : Bytes) (sock : Sock) (w : σ) :
    HttpConnection × σ :=
  tell cb (readConn cb conn buffer sock, w) (httpInternalResponse cb conn buffer sock).s.calls

def httpResponse (cb : Callbacks σ) (conn : HttpConnection) (buffer : Bytes) (sock : Sock)
    (w : σ) : Run σ :=
  if conn.sockfd ≤ 2 ∨ buffer = [] then
    { stop := .error .assertFailed, conn := conn, world := w }
  else
    let (code, conn, w) := callIf cb.beforeResp conn w
    if code ≠ 0 then { stop := .ok 1, conn := failConn conn, world := w }
    else
      let (conn', w) := receive cb conn buffer sock w
      match (httpInternalResponse cb conn buffer sock).stop with
      | .error e => { stop := .error e, conn := conn', world := w }
      | .ok code =>
          if code ≠ 0 then { stop := .ok 1, conn := failConn conn', world := w }
          else
            let (code, conn, w) := callIf cb.afterResp conn' w
            if code ≠ 0 then { stop := .ok 1, conn := failConn conn, world := w }
            else { stop := .ok 0, conn := { conn with state := 3, sockfd := 0 }, world := w }

/-- The request is handled first; the response when the socket is readable, which
    a request that failed never is. -/
def command (cb : Callbacks σ) (conn : HttpConnection) (capacity : Nat) (results : Writes)
    (fuel : Nat) (buffer : Bytes) (sock : Sock) (w : σ) : Run σ :=
  let req := httpRequest cb.req conn capacity results fuel w
  match req.stop with
  | .error e => { stop := .error e, conn := req.conn, world := req.world }
  | .ok code =>
      if code ≠ 0 then { stop := .ok code, conn := req.conn, world := req.world }
      else httpResponse cb { req.conn with state := 2 } buffer sock req.world

end Command

/-! ## Callbacks that are watched -/

/-- The callbacks of `struct http_callback`. -/
inductive Callback where
  | beforeReq
  | reqWrite
  | afterReq
  | beforeResp
  | respHeaderFunc
  | respBodyFunc
  | afterResp
  deriving DecidableEq, Repr

/-- A callback that was invoked, and whether it returned a failure. -/
structure Invocation where
  callback : Callback
  failed : Bool
  deriving DecidableEq, Repr

section Watch

variable {σ : Type}

end Watch

section Log

/-- Nothing has failed. -/
def Calm (log : List Invocation) : Prop := ∀ x ∈ log, x.failed = false

/-- The last one has failed. -/
def Halted (log : List Invocation) : Prop :=
  ∃ pre x, Calm pre ∧ x.failed = true ∧ log = pre ++ [x]

theorem Calm.append {log more : List Invocation} (h : Calm log) (k : Calm more) :
    Calm (log ++ more) := by
  intro x hx
  rcases List.mem_append.mp hx with hl | hr
  · exact h x hl
  · exact k x hr

theorem Calm.not_failed {log pre post : List Invocation} {x : Invocation} (h : Calm log)
    (hlog : log = pre ++ x :: post) : x.failed ≠ true := by
  have hfalse := h x (by rw [hlog]; exact List.mem_append_right pre List.mem_cons_self)
  intro hx
  rw [hx] at hfalse
  exact Bool.noConfusion hfalse

/-- A failure behind calm notes is the only one if it is the last. -/
theorem Halted.last {log pre post : List Invocation} {x : Invocation} (h : Halted log)
    (hlog : log = pre ++ x :: post) (hx : x.failed = true) : post = [] := by
  obtain ⟨calm, y, hcalm, -, rfl⟩ := h
  rcases List.eq_nil_or_concat post with hnil | ⟨front, z, rfl⟩
  · exact hnil
  · rw [List.concat_eq_append, ← List.cons_append, ← List.append_assoc] at hlog
    have hfront : calm = pre ++ x :: front := (List.append_inj' hlog rfl).1
    exact absurd hx (hcalm.not_failed hfront)

/-- Nothing fails but the last one. -/
def Settled (log : List Invocation) : Prop := Calm log ∨ Halted log

end Log

/-! ## Watching changes nothing -/

section Watching

variable {σ : Type}

/-- What a callback leaves, if it is there. -/
def noted {α : Type} (k : Callback) (f : Option α) (code : Int) : List Invocation :=
  if f.isSome then [{ callback := k, failed := code ≠ 0 }] else []

/-- The notes of a handler that has come to `stop` so far: calm, unless it failed. -/
def Noting (log : List Invocation) (stop : Except Abort Int) : Prop :=
  (Calm log ∧ ∀ code, stop = .ok code → code = 0) ∨ (Halted log ∧ stop = .ok 1)

section Noting

variable {log : List Invocation} {stop : Except Abort Int}

theorem Calm.done (h : Calm log) : Noting log (.ok 0) :=
  Or.inl ⟨h, fun _ hcode => (Except.ok.inj hcode).symm⟩

theorem Halted.fails (h : Halted log) : Noting log (.ok 1) := Or.inr ⟨h, rfl⟩

theorem Noting.calm (h : Noting log stop) (hstop : stop ≠ .ok 1) : Calm log := by
  rcases h with ⟨hcalm, -⟩ | ⟨-, hone⟩
  · exact hcalm
  · exact absurd hone hstop

end Noting

/-- What a watched request has in common with the request. -/
structure SameRequest (run : RequestRun (σ × List Invocation)) (plain : RequestRun σ) : Prop where
  stop : run.stop = plain.stop
  conn : run.conn = plain.conn
  world : run.world.1 = plain.world
  log : Noting run.world.2 run.stop
  closed : run.stop = .ok 1 → run.conn.state = -1 ∧ run.conn.sockfd = 0

end Watching

/-! ## The calls of `http_internal_response` -/

section Response

variable {σ : Type}

/-- What is noted of one call. -/
def answer (cb : Callbacks σ) (cw : HttpConnection × σ) (call : RespCall) : List Invocation :=
  match call with
  | .header _ => noted .respHeaderFunc cb.respHeaderFunc (tellCall cb cw call).1
  | .body _ => noted .respBodyFunc cb.respBodyFunc (tellCall cb cw call).1

section Swallows

variable {cb : Callbacks σ} {conn : HttpConnection} {buffer : Bytes} {sock : Sock} {w : σ}
  {told : Told}

end Swallows

end Response

/-! ## A whole command -/

section Whole

variable {σ : Type} {cb : Callbacks σ} {conn : HttpConnection} {capacity : Nat} {results : Writes}
  {fuel : Nat} {buffer : Bytes} {sock : Sock} {w : σ}

/-- The callbacks of a request one after the other, and none fails: `before_req`,
    `req_write` until it has nothing more, and `after_req`. -/
inductive Sends (cb : ReqCallbacks σ) (conn : HttpConnection) (capacity fuel : Nat) (w : σ) :
    HttpConnection → σ → Prop where
  | sent {reqWrite : HttpConnection → Nat → σ → Except Abort (Option Bytes × σ)}
      {conn' conn'' : HttpConnection} {u v w' : σ} {bufs : List Bytes}
      (hready : Ready cb conn capacity w conn' u) (hwrite : cb.reqWrite = some reqWrite)
      (hproduces : Produces (reqWrite conn' capacity) u bufs true v) (hfuel : bufs.length < fuel)
      (hafter : callIf cb.afterReq conn' v = (0, conn'', w')) :
      Sends cb conn capacity fuel w { conn'' with state := 1 } w'

/-- So the request is written. -/
theorem Sends.written {req : ReqCallbacks σ} {conn' : HttpConnection} {w' : σ}
    (h : Sends req conn capacity fuel w conn' w') :
    (httpRequest req conn capacity results fuel w).stop = .ok 0 ∧
      (httpRequest req conn capacity results fuel w).conn = conn' ∧
      (httpRequest req conn capacity results fuel w).world = w' := by
  cases h with
  | sent hready hwrite hproduces hfuel hafter =>
      have hloop : httpInternalRequest req _ capacity results fuel _ = _ :=
        (internalRequest_eq hwrite hready.sockfd' hready.capacity).trans
          (requestLoop_produces (s := Sent.start _) hproduces hfuel)
      have hrun : httpRequest req conn capacity results fuel w = _ :=
        hready.written (by rw [hloop]; rfl) (by rw [hloop]; exact hafter)
      rw [hrun]
      exact ⟨rfl, rfl, rfl⟩

end Whole

/-! ## A GET -/

/-- What the callbacks of a GET work on: the results of `open` and of every
    `write` to the local file, whether it was opened, whether one of these calls failed,
    and whether `http_get_after_resp` has told of success. -/
structure GetWorld where
  chunks : MethodChunks
  file : LocalFile
  writes : Writes
  written : Nat
  opened : Bool
  failed : Bool
  succeeded : Bool

/-- Nothing has happened yet. -/
def GetWorld.start (file : LocalFile) (writes : Writes) : GetWorld :=
  { chunks := .zero, file := file, writes := writes, written := 0, opened := false,
    failed := false, succeeded := false }

section Get

variable {conn : HttpConnection} {buffer : Bytes} {sock : Sock} {file : LocalFile}
  {writes : Writes}

end Get

/-! ## When nothing is swallowed -/

/-- A local file that cannot be opened. -/
def noFile : LocalFile :=
  { fd := -1, size := none, reads := { segs := [], ending := .eof, taken := 0 } }

/-- A socket on which a 200 response with two bytes arrives. -/
def twoBytes : Sock :=
  { segs := [lit "HTTP/1.1 200 OK\r\nContent-Length: 2\r\n\r\nhi"], ending := .eof,
    taken := 0 }

/-- The slot of a GET. -/
def getConn : HttpConnection := .fresh 5 (paramSet .get 0)

end CallbackFailure
