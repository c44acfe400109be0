import Hftp.ChunkResumeProofs
import Hftp.HttpTransferProofs
import Hftp.LeftoverProofs

/-! # A slot that is used again

    `interprete_single_command` puts a command into a slot of `g_conn_workspace`
    that is free.  It writes the state, the method, the socket and the three
    names, and the method writes the callbacks; `filefd`, `resp` and `ctx` stay
    as the command before left them. -/

namespace SlotReuse

open CBytes HttpCore HttpHeader HttpChunked HttpResp HttpMethod HttpTransfer HeadSegmentation
  ChunkResume Leftover

/-! ## Commands, one after the other -/

/-- What `interprete_single_command` writes into a slot, and the worker whose
    `chunks` the callbacks are given. -/
structure NewCommand where
  method : Method
  sockfd : Int
  domain : Bytes
  remoteDir : Bytes
  localDir : Bytes
  worker : Nat
  deriving DecidableEq, Repr

/-- What the handlers of a command meet outside the slot: what `write` takes, the
    buffer of the worker that handles the response, what the server sends, and
    the files. -/
structure Exchange where
  results : Writes
  fuel : Nat
  buffer : Bytes
  size : buffer.length = httpConnDataBufferSize
  sock : Sock
  world : MethodWorld

/-- The slot with the command in it. -/
def install (slot : HttpConnection) (c : NewCommand) : HttpConnection :=
  { slot with state := 0, method := c.method, sockfd := c.sockfd, domain := c.domain,
              remoteDir := c.remoteDir, localDir := c.localDir, clb := paramSet c.method c.worker }

/-- `http_request` and then `http_response` on the command. -/
def handle (slot : HttpConnection) (c : NewCommand) (x : Exchange) : CommandRun :=
  command (install slot c) httpConnDataBufferSize x.results x.fuel x.buffer x.sock x.world

/-- What commands that were completed or have failed, one after the other, leave
    in a slot. -/
inductive History : List (NewCommand × Exchange) → HttpConnection → Prop where
  | first : History [] .zero
  | next {past : List (NewCommand × Exchange)} {slot : HttpConnection} (c : NewCommand)
      (x : Exchange) (code : Int) (h : History past slot)
      (hstop : (handle slot c x).stop = .ok code) :
      History (past ++ [(c, x)]) (handle slot c x).conn

/-- What comes of a command: the code and the state in the end, what was written
    to the socket, the response, and the bytes that `resp_body_func` was shown. -/
structure Outcome where
  stop : Except Abort Int
  state : Int
  accepted : Bytes
  resp : HttpResponse
  delivered : Bytes
  deriving DecidableEq, Repr

def outcome (slot : HttpConnection) (c : NewCommand) (x : Exchange) : Outcome :=
  { stop := (handle slot c x).stop, state := (handle slot c x).conn.state,
    accepted := (handle slot c x).accepted, resp := (handle slot c x).conn.resp,
    delivered := bodyBytes (handle slot c x).calls }

/-! ## The condition -/

/-- **NOTHING IS LEFT** in the slot that the next response would read: the
    response is zeroed, nothing of a head waits to be parsed, no size has begun,
    and no chunk. -/
structure Clean (slot : HttpConnection) : Prop where
  resp : slot.resp = .zero
  len : slot.ctx.remainDataLen = 0
  text : sizeText slot.ctx = []
  size : slot.ctx.chunkSize = 0

theorem clean_iff (slot : HttpConnection) : Clean slot ↔ SameLeft .zero slot := by
  constructor
  · intro h
    exact ⟨h.resp, h.len, h.text, ⟨fun _ => rfl, fun _ => h.size⟩⟩
  · intro h
    exact ⟨h.resp, h.len, h.text, h.zero.mpr rfl⟩

/-! ## The request -/

section Request

variable {conn : HttpConnection} {m : Method} {k : Nat}

/-- A connection with other leftovers. -/
def swapLeft (conn : HttpConnection) (filefd : Int) (resp : HttpResponse)
    (ctx : HttpResponseContext) : HttpConnection :=
  { conn with filefd := filefd, resp := resp, ctx := ctx }

theorem reqWrite_swap (hclb : conn.clb = paramSet m k) {f : Int} (resp : HttpResponse)
    (ctx : HttpResponseContext) (hput : m = .put → f = conn.filefd) (capacity : Nat)
    (w : MethodWorld) :
    methodReqWrite (swapLeft conn f resp ctx) capacity w = methodReqWrite conn capacity w := by
  cases conn
  cases hclb
  cases m with
  | put =>
      cases hput rfl
      rfl
  | get => rfl
  | propfind => rfl
  | delete => rfl

/-- What `before_req` comes to, whatever was left in the slot. -/
theorem beforeReq_swap (hclb : conn.clb = paramSet m k) (f : Int) (resp : HttpResponse)
    (ctx : HttpResponseContext) (w : MethodWorld) :
    ∃ code conn' w' f', methodBeforeReq conn w = (code, conn', w') ∧
      methodBeforeReq (swapLeft conn f resp ctx) w = (code, swapLeft conn' f' resp ctx, w') ∧
      (m = .put → f' = conn'.filefd) ∧ conn'.clb = conn.clb ∧ conn'.sockfd = conn.sockfd ∧
      conn'.resp = conn.resp ∧ conn'.ctx = conn.ctx := by
  cases conn
  cases hclb
  cases m with
  | put => exact ⟨_, _, _, w.file.fd, rfl, rfl, fun _ => rfl, rfl, rfl, rfl, rfl⟩
  | get => exact ⟨_, _, _, f, rfl, rfl, by rintro ⟨⟩, rfl, rfl, rfl, rfl⟩
  | propfind => exact ⟨_, _, _, f, rfl, rfl, by rintro ⟨⟩, rfl, rfl, rfl, rfl⟩
  | delete => exact ⟨_, _, _, f, rfl, rfl, by rintro ⟨⟩, rfl, rfl, rfl, rfl⟩

theorem internalRequest_swap {cb : ReqCallbacks MethodWorld} (hclb : conn.clb = paramSet m k)
    {f : Int} (resp : HttpResponse) (ctx : HttpResponseContext) (hput : m = .put → f = conn.filefd)
    (hcb : cb.reqWrite = some methodReqWrite) {capacity : Nat} {results : Writes} {fuel : Nat}
    {w : MethodWorld} :
    httpInternalRequest cb (swapLeft conn f resp ctx) capacity results fuel w =
      httpInternalRequest cb conn capacity results fuel w := by
  have hwrite : methodReqWrite (swapLeft conn f resp ctx) capacity =
      methodReqWrite conn capacity := by
    funext u
    exact reqWrite_swap hclb resp ctx hput capacity u
  rw [httpInternalRequest, httpInternalRequest, hcb]
  dsimp only
  rw [hwrite]
  rfl

/-- What `after_req` comes to. -/
theorem afterReq_swap (hclb : conn.clb = paramSet m k) {f : Int} (resp : HttpResponse)
    (ctx : HttpResponseContext) (hput : m = .put → f = conn.filefd) (w : MethodWorld) :
    ∃ w', methodAfterReq conn w = (0, conn, w') ∧
      methodAfterReq (swapLeft conn f resp ctx) w = (0, swapLeft conn f resp ctx, w') := by
  cases conn
  cases hclb
  cases m with
  | put =>
      cases hput rfl
      exact ⟨_, rfl, rfl⟩
  | get => exact ⟨_, rfl, rfl⟩
  | propfind => exact ⟨_, rfl, rfl⟩
  | delete => exact ⟨_, rfl, rfl⟩

/-- **THE REQUEST** is handled the same whatever was left in the slot, and leaves
    it there. -/
theorem request_swap (hclb : conn.clb = paramSet m k) (f : Int) (resp : HttpResponse)
    (ctx : HttpResponseContext) (capacity : Nat) (results : Writes) (fuel : Nat) (w : MethodWorld) :
    ∃ run f', httpRequest (methodCallbacks conn.clb) conn capacity results fuel w = run ∧
      httpRequest (methodCallbacks conn.clb) (swapLeft conn f resp ctx) capacity results fuel w =
        { run with conn := swapLeft run.conn f' resp ctx } ∧
      run.conn.clb = conn.clb ∧ run.conn.resp = conn.resp ∧ run.conn.ctx = conn.ctx := by
  have hcb : methodCallbacks conn.clb = _ := (congrArg _ hclb).trans (methodCallbacks_paramSet m k)
  obtain ⟨code, c, v, f', hbefore, hbefore', hput, hclb', hsock, hresp, hctx⟩ :=
    beforeReq_swap hclb f resp ctx w
  rw [hcb, httpRequest, httpRequest]
  by_cases hlow : conn.sockfd ≤ 2 ∨ capacity = 0
  · rw [if_pos hlow, if_pos (show (swapLeft conn f resp ctx).sockfd ≤ 2 ∨ _ from hlow)]
    exact ⟨_, f, rfl, rfl, rfl, rfl, rfl⟩
  · rw [if_neg hlow, if_neg (show ¬ ((swapLeft conn f resp ctx).sockfd ≤ 2 ∨ _) from hlow)]
    dsimp only [callIf]
    rw [hbefore, hbefore']
    dsimp only
    by_cases hcode : code ≠ 0
    · rw [if_pos hcode, if_pos hcode]
      exact ⟨_, f', rfl, rfl, hclb', hresp, hctx⟩
    · rw [if_neg hcode, if_neg hcode]
      rw [internalRequest_swap (hclb'.trans hclb) resp ctx hput rfl]
      generalize httpInternalRequest _ c capacity results fuel v = send
      cases send.stop with
      | error e => exact ⟨_, f', rfl, rfl, hclb', hresp, hctx⟩
      | ok code' =>
          dsimp only
          by_cases hcode' : code' ≠ 0
          · rw [if_pos hcode', if_pos hcode']
            exact ⟨_, f', rfl, rfl, hclb', hresp, hctx⟩
          · rw [if_neg hcode', if_neg hcode']
            obtain ⟨w', hafter, hafter'⟩ :=
              afterReq_swap (hclb'.trans hclb) resp ctx hput send.sent.world
            rw [hafter, hafter']
            exact ⟨_, f', rfl, rfl, hclb', hresp, hctx⟩

end Request

/-! ## The response -/

/-- The code of `http_response`, by that of `http_internal_response`. -/
def codeAfter : Except Abort Int → Except Abort Int
  | .error e => .error e
  | .ok code => .ok (if code = 0 then 0 else 1)

/-- The state of the connection then. -/
def stateAfter (state : Int) : Except Abort Int → Int
  | .error _ => state
  | .ok code => if code = 0 then 3 else -1

theorem respCall_state (cw : HttpConnection × MethodWorld) (call : RespCall) :
    (respCall cw call).1.state = cw.1.state := by
  cases call with
  | header resp =>
      rw [respCall, respHeaderFunc]
      dsimp only
      cases cw.1.clb.respHeaderFunc with
      | none => rfl
      | some m =>
          cases m with
          | get =>
              dsimp only [httpGetResponseHeader]
              split_ifs <;> rfl
          | put => rfl
          | propfind => rfl
          | delete => rfl
  | body piece =>
      rw [respCall]
      cases cw.1.clb.respBodyFunc with
      | none => rfl
      | some m =>
          cases m with
          | get =>
              dsimp only
              split_ifs <;> rfl
          | put => rfl
          | propfind => rfl
          | delete => rfl

theorem respCalls_state (calls : List RespCall) (cw : HttpConnection × MethodWorld) :
    (calls.foldl respCall cw).1.state = cw.1.state := by
  induction calls generalizing cw with
  | nil => rfl
  | cons call calls ih => exact (ih _).trans (respCall_state cw call)

theorem afterResp_resp (conn : HttpConnection) : (afterResp conn).resp = conn.resp := by
  rw [afterResp]
  cases conn.clb.afterResp with
  | none => rfl
  | some m =>
      cases m with
      | get =>
          dsimp only
          split_ifs <;> rfl
      | put => rfl
      | propfind => rfl
      | delete => rfl

theorem methodAfterResp_conn (conn : HttpConnection) (w : MethodWorld) :
    (methodAfterResp conn w).1 = afterResp conn := by
  rw [methodAfterResp]
  cases conn.clb.afterResp with
  | none => rfl
  | some m => cases m <;> rfl

/-- **WHAT `http_response` COMES TO**, by what `http_internal_response` does. -/
theorem httpResponse_after {conn : HttpConnection} {buffer : Bytes} (sock : Sock)
    (w : MethodWorld) (hready : ¬ (conn.sockfd ≤ 2 ∨ buffer = [])) :
    (httpResponse conn buffer sock w).stop =
        codeAfter (httpInternalResponse conn buffer sock).stop ∧
      (httpResponse conn buffer sock w).conn.state =
        stateAfter conn.state (httpInternalResponse conn buffer sock).stop ∧
      (httpResponse conn buffer sock w).conn.resp =
        (httpInternalResponse conn buffer sock).s.resp := by
  rw [httpResponse, if_neg hready]
  dsimp only
  cases hstop : (httpInternalResponse conn buffer sock).stop with
  | error e => exact ⟨rfl, respCalls_state _ _, rfl⟩
  | ok code =>
      dsimp only [codeAfter, stateAfter]
      by_cases hcode : code = 0
      · rw [if_neg (not_not.mpr hcode), if_pos hcode, if_pos hcode]
        refine ⟨rfl, rfl, ?_⟩
        dsimp only
        rw [methodAfterResp_conn, afterResp_resp]
        rfl
      · rw [if_pos hcode, if_neg hcode, if_neg hcode]
        exact ⟨rfl, rfl, rfl⟩

/-- Two responses into slots with the same left in them. -/
theorem httpResponse_alike {conn conn' : HttpConnection} (hsock : conn'.sockfd = conn.sockfd)
    (hclb : conn'.clb = conn.clb) (hstate : conn'.state = conn.state) (h : SameLeft conn conn')
    (buffer : Bytes) (sock : Sock) (w : MethodWorld) :
    (httpResponse conn' buffer sock w).stop = (httpResponse conn buffer sock w).stop ∧
      (httpResponse conn' buffer sock w).conn.state = (httpResponse conn buffer sock w).conn.state ∧
      (httpResponse conn' buffer sock w).conn.resp =
        (httpResponse conn buffer sock w).conn.resp := by
  have hsame := internalResponse_alike hsock hclb h buffer sock
  by_cases hready : conn.sockfd ≤ 2 ∨ buffer = []
  · have hready' : conn'.sockfd ≤ 2 ∨ buffer = [] := by
      rw [hsock]
      exact hready
    rw [httpResponse, httpResponse, if_pos hready, if_pos hready']
    exact ⟨rfl, hstate, h.resp⟩
  · have hready' : ¬ (conn'.sockfd ≤ 2 ∨ buffer = []) := by
      rw [hsock]
      exact hready
    obtain ⟨hcode, hend, hresp⟩ := httpResponse_after sock w hready
    obtain ⟨hcode', hend', hresp'⟩ := httpResponse_after sock w hready'
    rw [hcode, hcode', hend, hend', hresp, hresp', hsame.stop, hsame.resp, hstate]
    exact ⟨rfl, rfl, rfl⟩

/-- **A COMMAND** comes to the same in two slots with the same left in them. -/
theorem outcome_alike {slot slot' : HttpConnection} (h : SameLeft slot slot') (c : NewCommand)
    (x : Exchange) : outcome slot' c x = outcome slot c x := by
  have hclb : (install slot c).clb = paramSet c.method c.worker := rfl
  obtain ⟨run, f', hrun, hrun', hkept, hresp, hctx⟩ := request_swap hclb slot'.filefd slot'.resp
    slot'.ctx httpConnDataBufferSize x.results x.fuel x.world
  have hinstall : install slot' c = swapLeft (install slot c) slot'.filefd slot'.resp slot'.ctx :=
    rfl
  have hclb' : (install slot' c).clb = (install slot c).clb := rfl
  rw [outcome, outcome, handle, handle, command, command]
  dsimp only
  rw [hclb', hinstall, hrun, hrun']
  dsimp only
  have hsame : slot'.resp = run.conn.resp := h.resp.trans hresp.symm
  cases run.stop with
  | error e =>
      simp only [swapLeft]
      rw [hsame]
  | ok code =>
      dsimp only
      by_cases hcode : code ≠ 0
      · rw [if_pos hcode, if_pos hcode]
        simp only [swapLeft]
        rw [hsame]
      · rw [if_neg hcode, if_neg hcode]
        generalize hasked : ({ run.conn with state := 2 } : HttpConnection) = asked
        have hasked' : ({ swapLeft run.conn f' slot'.resp slot'.ctx with state := 2 } :
            HttpConnection) = swapLeft asked f' slot'.resp slot'.ctx := by
          rw [← hasked]
          rfl
        rw [hasked']
        have hleft : SameLeft asked (swapLeft asked f' slot'.resp slot'.ctx) := by
          rw [← hasked]
          refine ⟨hsame, ?_, ?_, ?_⟩
          · show slot'.ctx.remainDataLen = run.conn.ctx.remainDataLen
            rw [hctx]
            exact h.len
          · show sizeText slot'.ctx = sizeText run.conn.ctx
            rw [hctx]
            exact h.text
          · show slot'.ctx.chunkSize = 0 ↔ run.conn.ctx.chunkSize = 0
            rw [hctx]
            exact h.zero
        have hsock : (swapLeft asked f' slot'.resp slot'.ctx).sockfd = asked.sockfd := rfl
        have hclb : (swapLeft asked f' slot'.resp slot'.ctx).clb = asked.clb := rfl
        obtain ⟨hstop, hstate, hend⟩ :=
          httpResponse_alike hsock hclb rfl hleft x.buffer x.sock run.world
        have hcalls := (internalResponse_alike hsock hclb hleft x.buffer x.sock).calls
        dsimp only
        rw [hstop, hstate, hend, hcalls]

/-! ## Streams that tell what was left -/

/-- A command whose request writes nothing. -/
def probe : NewCommand :=
  { method := .delete, sockfd := 3, domain := [], remoteDir := [], localDir := [], worker := 0 }

/-- The server sends these, into a zeroed buffer. -/
def sends (segs : List Bytes) (ending : Ending) : Exchange :=
  { results := fun _ => none, fuel := 1, buffer := List.replicate httpConnDataBufferSize 0,
    size := List.length_replicate, sock := { segs := segs, ending := ending, taken := 0 },
    world :=
      { chunks := .zero
        file := { fd := -1, size := none, reads := { segs := [], ending := .eof, taken := 0 } }
        fds := []
        saved := [] } }

/-- The locals at the start of the response. -/
def probeStart (slot : HttpConnection) (segs : List Bytes) (ending : Ending) : RespLocal :=
  .start slot (List.replicate httpConnDataBufferSize 0)
    { segs := segs, ending := ending, taken := 0 }

def reply (slot : HttpConnection) (segs : List Bytes) (ending : Ending) : RespRun :=
  respLoop true true (respFuel { segs := segs, ending := ending, taken := 0 })
    (probeStart slot segs ending)

theorem probe_outcome (slot : HttpConnection) (segs : List Bytes) (ending : Ending) :
    (outcome slot probe (sends segs ending)).stop = codeAfter (reply slot segs ending).stop ∧
      (outcome slot probe (sends segs ending)).resp = (reply slot segs ending).s.resp := by
  have hrequest : httpRequest (methodCallbacks (install slot probe).clb) (install slot probe)
      httpConnDataBufferSize (sends segs ending).results (sends segs ending).fuel
      (sends segs ending).world =
        { stop := .ok 0, conn := { install slot probe with state := 1 },
          world := (sends segs ending).world,
          send := some { stop := .ok 0, sent := .start (sends segs ending).world } } := rfl
  generalize hasked : ({ install slot probe with state := 2 } : HttpConnection) = asked
  have hsock : asked.sockfd = 3 := by
    rw [← hasked]
    rfl
  have hready : ¬ (asked.sockfd ≤ 2 ∨ (sends segs ending).buffer = []) := by
    rw [hsock]
    rintro (hlow | hnil)
    · exact absurd hlow (by decide)
    · exact absurd (congrArg List.length hnil) (by rw [(sends segs ending).size]; decide)
  have hreply : httpInternalResponse asked (sends segs ending).buffer (sends segs ending).sock =
      reply slot segs ending := by
    rw [httpInternalResponse, if_pos, ← hasked]
    · rfl
    · rw [hsock, (sends segs ending).size]
      decide
  obtain ⟨hstop, -, hresp⟩ :=
    httpResponse_after (sends segs ending).sock (sends segs ending).world hready
  rw [hreply] at hstop hresp
  rw [outcome, handle, command, hrequest]
  dsimp only
  rw [if_neg (not_not.mpr rfl), hasked]
  exact ⟨hstop, hresp⟩

/-- Two slots that cannot be told apart get the same reply. -/
theorem reply_same {slot slot' : HttpConnection}
    (h : ∀ c x, outcome slot c x = outcome slot' c x) (segs : List Bytes) (ending : Ending) :
    codeAfter (reply slot segs ending).stop = codeAfter (reply slot' segs ending).stop ∧
      (reply slot segs ending).s.resp = (reply slot' segs ending).s.resp := by
  obtain ⟨hstop, hresp⟩ := probe_outcome slot segs ending
  obtain ⟨hstop', hresp'⟩ := probe_outcome slot' segs ending
  rw [← hstop, ← hresp, ← hstop', ← hresp', h probe (sends segs ending)]
  exact ⟨rfl, rfl⟩

/-- A server that closes the connection shows the response that was left. -/
theorem reply_closed (slot : HttpConnection) : (reply slot [] .eof).s.resp = slot.resp := by
  rw [reply, respFuel, respLoop_end true true _ rfl rfl]
  rfl

/-! ### A head that waits to be parsed -/

/-- The head of a response without its first letter. -/
def tailOfHead : Bytes := lit "TTP/1.1 200 OK\r\n\r\nZ"

theorem reply_zero_head :
    (reply .zero [lit "H", tailOfHead] .eof).stop = .ok 0 ∧
      (reply .zero [lit "H", tailOfHead] .eof).s.resp.code = 200 := by
  decide +kernel

theorem probeStart_length (slot : HttpConnection) (segs : List Bytes) (ending : Ending) :
    (probeStart slot segs ending).buffer.length = httpConnDataBufferSize := List.length_replicate

/-- With the buffer full of a head that waits, nothing is read. -/
theorem reply_full {slot : HttpConnection}
    (hfull : httpConnDataBufferSize ≤ slot.ctx.remainDataLen) (segs : List Bytes) :
    (reply slot segs .eof).s.resp = slot.resp := by
  rw [reply, respFuel, respLoop_full true true _ rfl]
  · rfl
  · rw [probeStart_length]
    exact hfull

/-- A line that begins with a NUL holds no version. -/
theorem parse_nul {rest : Bytes} {ctx : HttpResponseContext} {resp : HttpResponse}
    (hstate : ctx.state = .hrFirstLine) :
    httpParseResponseHeaderPerBuffer (0 :: tailOfHead ++ rest) tailOfHead.length ctx resp =
      .error .nullDeref := by
  rw [httpParseResponseHeaderPerBuffer, lineLoop]
  dsimp only
  rw [hstate]
  rfl

/-- A pass over one byte that is no line keeps it. -/
theorem pass_one (onHeader onBody : Bool) (readOff : Nat) {s : RespLocal} {t : Bytes}
    (hstate : s.ctx.state = .hrFirstLine) (hbuf : s.buffer = 0 :: t) :
    ∃ s', respPass onHeader onBody readOff 1 s = .go s' ∧ s'.buffer = 0 :: t ∧
      s'.ctx.state = .hrFirstLine ∧ s'.ctx.remainDataLen = 1 ∧ s'.sock = s.sock := by
  refine ⟨_, pass_tail onHeader onBody [] (w := [0]) (by rw [hstate]; rfl) trivial (by decide)
    hbuf rfl Nat.one_pos, ?_, hstate, rfl, rfl⟩
  dsimp only
  rw [hbuf]
  rfl

/-- Behind bytes that wait, the first arrival is stored out of the parser's sight. -/
theorem respLoop_misplaced (onHeader onBody : Bool) (fuel : Nat) {s : RespLocal} {t : Bytes}
    (hsegs : s.sock.segs = [lit "H", tailOfHead]) (hstate : s.ctx.state = .hrFirstLine)
    (hpos : 0 < s.ctx.remainDataLen) (hroom : s.ctx.remainDataLen < s.buffer.length)
    (hfits : tailOfHead.length < s.buffer.length) (hzero : s.buffer = 0 :: t) :
    (respLoop onHeader onBody (fuel + 1 + 1) s).stop = .error .nullDeref := by
  obtain ⟨n, hn⟩ : ∃ n, s.ctx.remainDataLen = n + 1 := ⟨s.ctx.remainDataLen - 1, by omega⟩
  have hlen : (store s.buffer s.ctx.remainDataLen (lit "H")).length = s.buffer.length :=
    store_length hroom
  have hstore : store s.buffer s.ctx.remainDataLen (lit "H") = 0 :: store t n (lit "H") := by
    rw [hzero, hn, store, store, Nat.add_right_comm]
    rfl
  rw [respLoop_read (Sock.read_cons hsegs (by rintro ⟨⟩) (Nat.sub_pos_of_lt hroom)) (by rintro ⟨⟩)]
  generalize hs1 : ({ s with
      buffer := store s.buffer s.ctx.remainDataLen (lit "H")
      sock := { s.sock with segs := [tailOfHead], taken := s.sock.taken + (lit "H").length } } :
        RespLocal) = s1
  have hbuf1 : s1.buffer = 0 :: store t n (lit "H") := by
    rw [← hs1]
    exact hstore
  obtain ⟨s2, hpass, hbuf2, hstate2, hrem2, hsock2⟩ :=
    pass_one onHeader onBody s.ctx.remainDataLen (by rw [← hs1]; exact hstate) hbuf1
  have hlen2 : s2.buffer.length = s.buffer.length := by
    rw [hbuf2, ← hstore, hlen]
  have hsegs2 : s2.sock.segs = [tailOfHead] := by
    rw [hsock2, ← hs1]
  have hroom2 : tailOfHead.length ≤ s2.buffer.length - s2.ctx.remainDataLen := by
    rw [hlen2, hrem2]
    exact Nat.le_sub_one_of_lt hfits
  rw [show (lit "H").length = 1 from rfl, hpass, runAfter,
    respLoop_read (Sock.read_cons hsegs2 (by rintro ⟨⟩) hroom2) (by rintro ⟨⟩)]
  have hparse : parsePass tailOfHead.length { s2 with
      buffer := store s2.buffer s2.ctx.remainDataLen tailOfHead
      sock := { s2.sock with segs := [], taken := s2.sock.taken + tailOfHead.length } } =
        .error .nullDeref := by
    rw [parsePass, if_pos (by rw [hstate2]; rfl)]
    dsimp only
    rw [hrem2, hbuf2, show store (0 :: store t n (lit "H")) 1 tailOfHead =
      0 :: tailOfHead ++ (0 :: store t n (lit "H")).drop (1 + tailOfHead.length) from rfl,
      parse_nul hstate2]
  rw [respPass, hparse]
  rfl

/-- The bytes a head was begun with are taken for the first bytes of the buffer. -/
theorem reply_misplaced {slot : HttpConnection} (hpos : 0 < slot.ctx.remainDataLen)
    (hroom : slot.ctx.remainDataLen < httpConnDataBufferSize) :
    (reply slot [lit "H", tailOfHead] .eof).stop = .error .nullDeref := by
  have hlen := probeStart_length slot [lit "H", tailOfHead] .eof
  refine respLoop_misplaced true true _ rfl rfl hpos ?_ ?_ rfl
  · rw [hlen]
    exact hroom
  · rw [hlen]
    decide

/-- **THE LENGTH** that a head left to parse is seen by the next. -/
theorem len_of_same {slot : HttpConnection} (h : ∀ c x, outcome slot c x = outcome .zero c x)
    (hresp : slot.resp = .zero) : slot.ctx.remainDataLen = 0 := by
  obtain ⟨hstop, hsame⟩ := reply_same h [lit "H", tailOfHead] .eof
  obtain ⟨hstop0, hcode0⟩ := reply_zero_head
  by_contra hne
  by_cases hroom : slot.ctx.remainDataLen < httpConnDataBufferSize
  · rw [hstop0, reply_misplaced (Nat.pos_of_ne_zero hne) hroom] at hstop
    cases hstop
  · rw [reply_full (Nat.not_lt.mp hroom), hresp] at hsame
    rw [← hsame] at hcode0
    cases hcode0

/-! ### A size that was begun -/

/-- What is made of the string that was left and the characters behind it;
    nothing if they are the terminating chunk. -/
def sizeAfter (text p : Bytes) : Option Int :=
  if (text ++ p).take 3 = [48, cr, lf] then none
  else some (toInt (strtol 16 (((text ++ p).take 4).takeWhile (· ≠ 0))))

/-- The label of the size behind a size, a separator, a chunk of no bytes and a
    separator, with nothing left to read. -/
theorem emptyChunk_waits {buffer : Bytes} (fuel : Nat) {s : ChunkLocal} (hent : s.entering = false)
    (hsize : s.ctx.chunkSize = 0) (hlen : s.len ≤ 4)
    (hlook : looksEnd buffer (s.index + 2 + 2) = .ok false) :
    ∃ t, chunkLoop true buffer (fuel + 4) .separatorMid s = { stop := .ok true, s := t } ∧
      t.ctx.chunkSize = 0 := by
  have hdeliver : ∀ t : ChunkLocal, deliver true buffer 0 t =
      .ok { t with pieces := t.pieces ++ [{ bytes := [], len := 0 }],
                   bodyLen := t.bodyLen + 0 } := by
    intro t
    rw [deliver, if_pos rfl]
    rfl
  have hnot : ¬ s.entering = true := by
    rw [hent]
    rintro ⟨⟩
  rw [chunkLoop, chunkStep, remainSeparatorMid, separator]
  dsimp only
  rw [if_neg hnot]
  by_cases hmid : s.len < 2
  · rw [if_pos hmid]
    exact ⟨_, rfl, hsize⟩
  rw [if_neg hmid]
  dsimp only
  rw [chunkLoop, ChunkState.next, chunkStep, remainChunk]
  dsimp only
  rw [if_neg hnot, hsize, if_neg (by omega), hdeliver]
  dsimp only
  rw [if_neg hnot]
  dsimp only
  rw [chunkLoop, ChunkState.next, chunkStep, remainSeparatorEnd, separator]
  dsimp only
  rw [if_neg hnot]
  by_cases hend : s.len - 2 - 0 < 2
  · rw [if_pos hend]
    exact ⟨_, rfl, rfl⟩
  rw [if_neg hend]
  have hnone : s.len - 2 - 0 - 2 = 0 := by omega
  dsimp only
  rw [chunkLoop, ChunkState.next, chunkStep, remainSizeByte]
  dsimp only
  rw [if_neg hnot, Int.add_zero, hlook, hnone]
  exact ⟨_, rfl, rfl⟩

/-- The label of the size, entered behind a string that was left. -/
theorem remainSizeByte_after {buffer p : Bytes} {s : ChunkLocal} (hent : s.entering = true)
    (hslice : slice buffer s.index (4 - strlen s.ctx.chunkSizeStr) = .ok p)
    (henough : (p.length : Int) ≤ s.len) :
    (sizeAfter (sizeText s.ctx) p = none ∧
        ∃ t, remainSizeByte buffer s = .brk false t ∧ t.ctx.chunkSize = 0) ∨
      ∃ v t, sizeAfter (sizeText s.ctx) p = some v ∧ remainSizeByte buffer s = .go t ∧
        t.entering = false ∧ t.index = s.index + p.length ∧ t.len = s.len - p.length ∧
        t.ctx.remainDataLen = s.ctx.remainDataLen ∧ t.ctx.chunkSize = v := by
  have hp := slice_length hslice
  have htext : s.ctx.chunkSizeStr.take (strlen s.ctx.chunkSizeStr) = sizeText s.ctx :=
    take_strlen _
  have hfour : 4 ≤ (sizeText s.ctx ++ p).length := by
    rw [List.length_append, hp, sizeText]
    show 4 ≤ strlen s.ctx.chunkSizeStr + _
    omega
  have hthree : ∀ rest, (sizeText s.ctx ++ p ++ rest).take 3 = (sizeText s.ctx ++ p).take 3 :=
    fun rest => List.take_append_of_le_length (Nat.le_of_succ_le hfour)
  rw [remainSizeByte]
  dsimp only
  rw [if_pos hent, hslice]
  dsimp only
  rw [if_neg (by omega), htext, hthree, sizeAfter]
  by_cases hend : (sizeText s.ctx ++ p).take 3 = [48, cr, lf]
  · rw [if_pos hend, if_pos hend]
    exact Or.inl ⟨rfl, _, rfl, rfl⟩
  · rw [if_neg hend, if_neg hend, parseSize]
    dsimp only
    rw [text_set_four _ hfour, hp]
    exact Or.inr ⟨_, _, rfl, rfl, rfl, rfl, rfl, rfl, rfl⟩

/-- The head of a response in chunks comes with the bytes behind it. -/
theorem reply_begun {slot : HttpConnection} (hresp : slot.resp = .zero)
    (hleft : slot.ctx.remainDataLen = 0) {b : Bytes}
    (hfits : 47 + b.length ≤ httpConnDataBufferSize) :
    ∃ fuel s, reply slot [bigResponse.head.text ++ b] .err =
        runAfter true true (fuel + 1) ((chunkedBody true (47 + b.length) s).andThen bodyEnd) ∧
      s.ctx = { slot.ctx with state := .hrBody, remainDataIndex := 47, remainDataLen := b.length,
                              chunkTerminateState := .sizeByte } ∧
      s.buffer = bigResponse.head.text ++
        (b ++ List.replicate (httpConnDataBufferSize - (47 + b.length)) 0) ∧
      s.sock.segs = [] ∧ s.sock.ending = .err ∧ s.resp.transferEncoding = .teChunked := by
  have htext : (bigResponse.head.text ++ b).length = 47 + b.length := by
    rw [List.length_append, bigResponse_lengths.1]
  have hne : bigResponse.head.text ++ b ≠ [] := by
    intro hnil
    rw [hnil] at htext
    exact absurd htext (by rw [List.length_nil]; omega)
  generalize hstart : probeStart slot [bigResponse.head.text ++ b] .err = s0
  have hlen0 : s0.buffer.length = httpConnDataBufferSize := by
    rw [← hstart, probeStart_length]
  have hrem0 : s0.ctx.remainDataLen = 0 := by
    rw [← hstart]
    exact hleft
  have hsegs0 : s0.sock.segs = [bigResponse.head.text ++ b] := by
    rw [← hstart]
    rfl
  -- the whole answer arrives in one read, and the slot holds nothing of an earlier one
  have hread := Sock.read_cons (n := s0.buffer.length - s0.ctx.remainDataLen) hsegs0 hne
    (by rw [hlen0, hrem0, htext]; exact hfits)
  have hbuf : store s0.buffer s0.ctx.remainDataLen (bigResponse.head.text ++ b) =
      linesText bigResponse.head.lines ++
        (crlf ++ (b ++ List.replicate (httpConnDataBufferSize - (47 + b.length)) 0)) := by
    rw [hrem0, store_zero, ← hstart, htext]
    show _ ++ (List.replicate httpConnDataBufferSize (0 : Byte)).drop _ = _
    rw [List.drop_replicate, ResponseHead.text]
    simp only [List.append_assoc]
  have hstate0 : s0.ctx.state = .hrFirstLine := by
    rw [← hstart]
    rfl
  have hresp0 : s0.resp = .zero := by
    rw [← hstart]
    exact hresp
  have hok : LinesOk s0.ctx.state bigResponse.head.lines := by
    rw [hstate0]
    exact bigResponse.head.linesOk
  have hends : (bigResponse.head.text ++ b).length =
      (linesText bigResponse.head.lines).length + 2 + b.length := htext
  obtain ⟨s, hpass, hctx, hbuffer, -, -, hsock, -, hchunked⟩ :=
    first_chunked true true s0.ctx.remainDataLen
      (s := { s0 with
        buffer := store s0.buffer s0.ctx.remainDataLen (bigResponse.head.text ++ b)
        sock := { s0.sock with segs := [],
                               taken := s0.sock.taken + (bigResponse.head.text ++ b).length } })
      (by rw [hstate0]; rfl) (by rw [← hstart]; rfl) hok (by rintro ⟨⟩) hbuf hends
      (by rw [hstate0, hresp0]; exact bigResponse.announced)
  refine ⟨[bigResponse.head.text ++ b].flatten.length + [bigResponse.head.text ++ b].length + 1,
    s, ?_, ?_, ?_, ?_, ?_, hchunked⟩
  · rw [reply, respFuel, hstart, respLoop_read hread hne, ← htext]
    exact congrArg (runAfter true true _) hpass
  · rw [hctx, ← hstart]
    rfl
  · rw [hbuffer]
    dsimp only
    rw [hbuf, ResponseHead.text, List.append_assoc]
  · rw [hsock]
  · rw [hsock, ← hstart]
    rfl

theorem slice_within {a b z : Bytes} {n : Nat} (hn : n ≤ b.length) :
    slice (a ++ (b ++ z)) a.length n = .ok (b.take n) := by
  rw [slice]
  split_ifs with hzero hfits
  · rw [hzero]
    rfl
  · rw [Int.toNat_natCast, List.drop_left, List.take_append_of_le_length hn]
  · refine absurd ⟨Int.natCast_nonneg _, ?_⟩ hfits
    rw [Int.toNat_natCast, List.length_append, List.length_append]
    omega

/-- Behind the bytes that came, the buffer is zeroed. -/
theorem looksEnd_behind {a b : Bytes} {m j : Nat} (hj : j < m) :
    looksEnd (a ++ (b ++ List.replicate m 0)) ((a.length + b.length + j : Nat) : Int) =
      .ok false := by
  have hbyte : byteAt (a ++ (b ++ List.replicate m 0)) ((a.length + b.length + j : Nat) : Int) =
      .ok 0 := by
    rw [byteAt, if_pos (Int.natCast_nonneg _), Int.toNat_natCast, ← List.append_assoc,
      List.getElem?_append_right (by rw [List.length_append]; omega), List.length_append,
      Nat.add_sub_cancel_left, List.getElem?_replicate, if_pos hj]
  rw [looksEnd, hbyte]
  rfl

/-- Some digits of a size. -/
def ones (n : Nat) : Bytes := List.replicate n 49

theorem ones_length (n : Nat) : (ones n).length = n := List.length_replicate

/-- A response in chunks, of which the head and `n` digits came. -/
def begun (n : Nat) : List Bytes := [bigResponse.head.text ++ ones n]

/-- The decoder, called in `s` on the digits, is about to run the code at its first
    label in `t`. -/
structure BegunAt (slot : HttpConnection) (n fuel steps : Nat) (s : RespLocal) (t : ChunkLocal) :
    Prop where
  reply : reply slot (begun n) .err =
    runAfter true true (fuel + 1) ((chunkedBody true (47 + n) s).andThen bodyEnd)
  chunked : s.resp.transferEncoding = .teChunked
  segs : s.sock.segs = []
  ending : s.sock.ending = .err
  buffer : s.buffer = bigResponse.head.text ++
    (ones n ++ List.replicate (httpConnDataBufferSize - (47 + n)) 0)
  call : httpChunkedResponseBody true s.buffer (47 + n) s.ctx s.bodyLen =
    chunkLoop true s.buffer (steps + 5) .sizeByte t
  entering : t.entering = true
  index : t.index = 47
  len : t.len = n
  str : t.ctx.chunkSizeStr = slot.ctx.chunkSizeStr
  size : t.ctx.chunkSize = slot.ctx.chunkSize
  rem : t.ctx.remainDataLen = 0

theorem begunAt {slot : HttpConnection} (hresp : slot.resp = .zero)
    (hleft : slot.ctx.remainDataLen = 0) {n : Nat} (hpos : 0 < n) (hn : n ≤ 4) :
    ∃ fuel steps s t, BegunAt slot n fuel steps s t := by
  obtain ⟨fuel, s, hreply, hctx, hbuf, hsegs, hending, hchunked⟩ :=
    reply_begun hresp hleft (b := ones n) (by rw [ones_length, httpConnDataBufferSize]; omega)
  rw [ones_length] at hreply hctx hbuf
  have hfuel : chunkFuel s.buffer = 4 * s.buffer.length + 11 + 5 := by
    rw [chunkFuel]
    omega
  refine ⟨fuel, 4 * s.buffer.length + 11, s,
    { ctx := { slot.ctx with state := .hrBody, remainDataIndex := 0, remainDataLen := 0,
                             chunkTerminateState := .sizeByte },
      index := 47, len := n, entering := true, bodyLen := s.bodyLen, pieces := [] },
    hreply, hchunked, hsegs, hending, hbuf, ?_, rfl, rfl, rfl, rfl, rfl, rfl⟩
  rw [httpChunkedResponseBody, if_neg (by omega), hctx, hfuel]
  dsimp only
  rw [if_pos (Nat.pos_iff_ne_zero.mp hpos)]
  rfl

section Begun

variable {slot : HttpConnection} {n fuel steps : Nat} {s : RespLocal} {t : ChunkLocal}

theorem BegunAt.length (h : BegunAt slot n fuel steps s t) (hn : n ≤ 4) :
    s.buffer.length = httpConnDataBufferSize := by
  rw [h.buffer, List.length_append, List.length_append, bigResponse_lengths.1, ones_length,
    List.length_replicate, httpConnDataBufferSize]
  omega

/-- The characters that are copied behind the string. -/
theorem BegunAt.slice (h : BegunAt slot n fuel steps s t)
    (hle : 4 - strlen slot.ctx.chunkSizeStr ≤ n) :
    slice s.buffer t.index (4 - strlen t.ctx.chunkSizeStr) =
      .ok (ones (4 - strlen slot.ctx.chunkSizeStr)) := by
  rw [h.index, h.buffer, h.str]
  refine (slice_within (a := bigResponse.head.text) ?_).trans ?_
  · rw [ones_length]
    exact hle
  · rw [ones, List.take_replicate, Nat.min_eq_left hle]
    rfl

theorem BegunAt.text (h : BegunAt slot n fuel steps s t) : sizeText t.ctx = sizeText slot.ctx :=
  congrArg (List.takeWhile _) h.str

/-- A call of the decoder that leaves the size at zero ends the response. -/
theorem BegunAt.ends (h : BegunAt slot n fuel steps s t) {c : Bool} {u : ChunkLocal}
    (hrun : chunkLoop true s.buffer (steps + 5) .sizeByte t = { stop := .ok c, s := u })
    (hsize : u.ctx.chunkSize = 0) : (SlotReuse.reply slot (begun n) .err).stop = .ok 0 := by
  rw [h.reply, chunkedBody, h.call, hrun]
  show (runAfter true true (fuel + 1) (bodyEnd _)).stop = _
  rw [bodyEnd_zero]
  · rfl
  · exact h.chunked
  · exact hsize

/-- A call that leaves another size waits for more, and there is no more. -/
theorem BegunAt.waits (h : BegunAt slot n fuel steps s t) (hn : n ≤ 4) {u : ChunkLocal}
    (hrun : chunkLoop true s.buffer (steps + 5) .sizeByte t = { stop := .ok true, s := u })
    (hsize : u.ctx.chunkSize ≠ 0) (hrem : u.ctx.remainDataLen = 0) :
    (SlotReuse.reply slot (begun n) .err).stop = .ok 1 := by
  have hroom : s.buffer.length ≠ 0 := by
    rw [h.length hn]
    decide
  rw [h.reply, chunkedBody, h.call, hrun]
  show (runAfter true true (fuel + 1) (bodyEnd _)).stop = _
  rw [bodyEnd, if_neg, if_neg]
  · rw [runAfter, respLoop]
    dsimp only
    rw [hrem, Nat.sub_zero, Sock.read_err hroom h.segs h.ending]
    rfl
  · rintro ⟨-, hzero⟩
    exact hsize hzero
  · rintro ⟨hnone, -⟩
    rw [h.chunked] at hnone
    cases hnone

end Begun

theorem reply_zero_few {n : Nat} (hpos : 0 < n) (hn : n < 4) :
    (reply .zero (begun n) .err).stop = .ok 0 := by
  interval_cases n
  all_goals decide +kernel

theorem reply_zero_four : (reply .zero (begun 4) .err).stop = .ok 1 := by
  decide +kernel

section Text

variable {slot : HttpConnection}

/-- Too few characters for a size make one behind a string that was left. -/
theorem reply_few (hresp : slot.resp = .zero) (hleft : slot.ctx.remainDataLen = 0) {n : Nat}
    {v : Int} (hn : n = max 1 (4 - strlen slot.ctx.chunkSizeStr)) (hfew : n < 4)
    (hv : sizeAfter (sizeText slot.ctx) (ones (4 - strlen slot.ctx.chunkSizeStr)) = some v)
    (hne : v ≠ 0) : (reply slot (begun n) .err).stop = .ok 1 := by
  obtain ⟨fuel, steps, s, t, h⟩ := begunAt hresp hleft (n := n) (by omega) (by omega)
  rcases remainSizeByte_after h.entering (h.slice (by omega))
    (by rw [h.len, ones_length]; omega) with
    ⟨hnone, -⟩ | ⟨v', u, hsome, hgo, hent, -, hu, hrem, hsize⟩
  · rw [h.text, hv] at hnone
    cases hnone
  · rw [h.text, hv] at hsome
    obtain rfl := Option.some.inj hsome
    rw [ones_length, h.len] at hu
    have hrun : ∃ w,
        chunkLoop true s.buffer (steps + 5) .sizeByte t = { stop := .ok true, s := w } ∧
        w.ctx.chunkSize = v ∧ w.ctx.remainDataLen = 0 := by
      rw [chunkLoop, chunkStep, hgo]
      dsimp only
      rw [chunkLoop, ChunkState.next, chunkStep, remainSeparatorMid, separator]
      dsimp only
      rw [if_neg (by rw [hent]; rintro ⟨⟩), if_pos (by omega)]
      exact ⟨_, rfl, hsize, hrem.trans h.rem⟩
    obtain ⟨w, hrun, hw, hwrem⟩ := hrun
    exact h.waits (by omega) hrun (by rw [hw]; exact hne) hwrem

/-- Enough characters for a size make none behind a string that was left. -/
theorem reply_four (hresp : slot.resp = .zero) (hleft : slot.ctx.remainDataLen = 0)
    (hv : ∀ v, sizeAfter (sizeText slot.ctx) (ones (4 - strlen slot.ctx.chunkSizeStr)) = some v →
      v = 0) : (reply slot (begun 4) .err).stop = .ok 0 := by
  obtain ⟨fuel, steps, s, t, h⟩ := begunAt hresp hleft (n := 4) (by decide) (by decide)
  rcases remainSizeByte_after h.entering (h.slice (Nat.sub_le _ _))
    (by rw [h.len, ones_length]; omega) with
    ⟨-, u, hbrk, hsize⟩ | ⟨v, u, hsome, hgo, hent, hindex, hu, -, hsize⟩
  · refine h.ends (c := false) (u := u) ?_ hsize
    rw [chunkLoop, chunkStep, hbrk]
  · rw [h.text] at hsome
    obtain rfl := hv v hsome
    rw [ones_length] at hu hindex
    have hlook : looksEnd s.buffer (u.index + 2 + 2) = .ok false := by
      have hplace : u.index + 2 + 2 = ((bigResponse.head.text.length + (ones 4).length +
          (4 - strlen slot.ctx.chunkSizeStr) : Nat) : Int) := by
        rw [hindex, h.index, ones_length, bigResponse_lengths.1]
        omega
      rw [hplace, h.buffer]
      exact looksEnd_behind (by rw [httpConnDataBufferSize]; omega)
    obtain ⟨w, hwaits, hw⟩ := emptyChunk_waits steps hent hsize
      (by rw [hu, h.len]; omega) hlook
    refine h.ends (c := true) (u := w) ?_ hw
    rw [chunkLoop, chunkStep, hgo]
    exact hwaits

/-- A size that was left keeps a response alive that has not begun a chunk. -/
theorem reply_one (hresp : slot.resp = .zero) (hleft : slot.ctx.remainDataLen = 0)
    (htext : sizeText slot.ctx = []) (hsize : slot.ctx.chunkSize ≠ 0) :
    (reply slot (begun 1) .err).stop = .ok 1 := by
  obtain ⟨fuel, steps, s, t, h⟩ := begunAt hresp hleft (n := 1) (by decide) (by decide)
  have hzero : strlen t.ctx.chunkSizeStr = 0 := by
    rw [h.str]
    exact congrArg List.length htext
  obtain ⟨d, hslice⟩ : ∃ d, slice s.buffer t.index (4 - strlen t.ctx.chunkSizeStr) = .ok d := by
    rw [hzero, h.index, HttpChunked.slice, if_neg (by decide), if_pos]
    · exact ⟨_, rfl⟩
    · rw [h.length (by decide)]
      decide
  have hrun : ∃ w, chunkLoop true s.buffer (steps + 5) .sizeByte t = { stop := .ok true, s := w } ∧
      w.ctx.chunkSize = slot.ctx.chunkSize ∧ w.ctx.remainDataLen = 0 := by
    rw [chunkLoop, chunkStep, remainSizeByte]
    dsimp only
    rw [if_pos h.entering, hslice, hzero, h.len]
    exact ⟨_, rfl, h.size, h.rem⟩
  obtain ⟨w, hrun, hw, hwrem⟩ := hrun
  exact h.waits (by decide) hrun (by rw [hw]; exact hsize) hwrem

/-- **THE STRING** that was left of a size is read by the next. -/
theorem text_of_same (h : ∀ c x, outcome slot c x = outcome .zero c x) (hresp : slot.resp = .zero)
    (hleft : slot.ctx.remainDataLen = 0) : sizeText slot.ctx = [] := by
  by_contra hne
  have hpos : 0 < strlen slot.ctx.chunkSizeStr := List.length_pos_iff.mpr hne
  by_cases hv : ∀ v, sizeAfter (sizeText slot.ctx)
      (ones (4 - strlen slot.ctx.chunkSizeStr)) = some v → v = 0
  · have hsame := (reply_same h (begun 4) .err).1
    rw [reply_four hresp hleft hv, reply_zero_four] at hsame
    cases hsame
  · obtain ⟨v, hnot⟩ := not_forall.mp hv
    obtain ⟨hv, hvne⟩ := Classical.not_imp.mp hnot
    have hfew : max 1 (4 - strlen slot.ctx.chunkSizeStr) < 4 := by omega
    have hsame := (reply_same h
      (begun (max 1 (4 - strlen slot.ctx.chunkSizeStr))) .err).1
    rw [reply_few hresp hleft rfl hfew hv hvne, reply_zero_few (by omega) hfew] at hsame
    cases hsame

/-- **THE SIZE** that was left is read by the next. -/
theorem size_of_same (h : ∀ c x, outcome slot c x = outcome .zero c x) (hresp : slot.resp = .zero)
    (hleft : slot.ctx.remainDataLen = 0) (htext : sizeText slot.ctx = []) :
    slot.ctx.chunkSize = 0 := by
  by_contra hne
  have hsame := (reply_same h (begun 1) .err).1
  rw [reply_one hresp hleft htext hne, reply_zero_few Nat.one_pos (by decide)] at hsame
  cases hsame

end Text

/-! ## Reuse -/

/-- Nothing shows of the commands before exactly if nothing is left of them. -/
theorem same_iff_clean (slot : HttpConnection) :
    (∀ c x, outcome slot c x = outcome .zero c x) ↔ Clean slot := by
  constructor
  · intro h
    have hresp : slot.resp = .zero := by
      have hsame := (reply_same h [] .eof).2
      rw [reply_closed, reply_closed] at hsame
      exact hsame
    have hleft := len_of_same h hresp
    have htext := text_of_same h hresp hleft
    exact ⟨hresp, hleft, htext, size_of_same h hresp hleft htext⟩
  · intro h c x
    exact outcome_alike ((clean_iff slot).mp h) c x

/-- **A SLOT THAT IS USED AGAIN**: a command comes to the same after two histories
    that leave the same in the slot, and a history has no influence on any command
    exactly if it leaves nothing. -/
theorem reuse_iff {past past' : List (NewCommand × Exchange)} {slot slot' : HttpConnection}
    (_ : History past slot) (_ : History past' slot') :
    (SameLeft slot slot' → ∀ c x, outcome slot' c x = outcome slot c x) ∧
      ((∀ c x, outcome slot c x = outcome .zero c x) ↔ Clean slot) := by
  constructor
  · intro h c x
    exact outcome_alike h c x
  · exact same_iff_clean slot

/-- An upload of a file that cannot be opened. -/
def refusedPut : NewCommand := { probe with method := .put }

/-- A refused upload leaves nothing that shows. -/
theorem reuse_refusedPut :
    outcome (handle .zero refusedPut (sends [] .eof)).conn probe
        (sends [smallHead.text ++ lit "ok"] .eof) =
      outcome .zero probe (sends [smallHead.text ++ lit "ok"] .eof) :=
  (reuse_iff .first (.next refusedPut (sends [] .eof) 1 .first rfl)).1 ⟨rfl, rfl, rfl, Iff.rfl⟩
    probe (sends [smallHead.text ++ lit "ok"] .eof)

/-- A download. -/
def getCommand : NewCommand :=
  { method := .get, sockfd := 3, domain := lit "example.com", remoteDir := lit "/a",
    localDir := lit "a", worker := 0 }

/-- The server sends these, and the local file is opened. -/
def download (segs : List Bytes) : Exchange :=
  { sends segs .eof with
    results := fun _ => some httpConnDataBufferSize
    fuel := 2
    world :=
      { chunks := .zero
        file := { fd := 5, size := none, reads := { segs := [], ending := .eof, taken := 0 } }
        fds := []
        saved := [] } }

/-- An empty download in chunks, completed. -/
def emptyDownload : Exchange := download [bigResponse.head.text ++ lit "0\r\n\r\n"]

/-- A download of two bytes with their length. -/
def smallDownload : Exchange := download [smallHead.text ++ lit "ok"]

/-- A slot that was used for chunks loses the body of a response without. -/
theorem reuse_afterChunks : ¬ ∀ past past' slot slot', History past slot → History past' slot' →
    ∀ c x, outcome slot' c x = outcome slot c x := by
  intro h
  have hsame := h [] ([] ++ [(getCommand, emptyDownload)]) .zero _ .first
    (.next getCommand emptyDownload 0 .first (by decide +kernel)) getCommand smallDownload
  have hfirst : (outcome .zero getCommand smallDownload).delivered = lit "ok" := by
    decide +kernel
  have hnext : (outcome (handle .zero getCommand emptyDownload).conn getCommand
      smallDownload).delivered = [] := by
    decide +kernel
  rw [← hsame, hnext] at hfirst
  cases hfirst

end SlotReuse
