import Hftp.EndOfResponseProofs
import Hftp.FileOwnerProofs
import Hftp.RequestFramingProofs
import Hftp.SlotReuseProofs

/-! # What a command brings about

    A GET and a PUT from the first byte of the request to the descriptor of the
    local file.  The request, the head of the response, its body and the
    callbacks each have their own results; here they meet in one command, handled
    in a slot in which nothing is left.

    A download does not end at the end of the stream: what arrives behind the
    response stays on the socket. -/

namespace Delivery

open CBytes HttpCore HttpHeader HttpChunked HttpResp HttpMethod HttpTransfer HeadSegmentation
  ChunkedCodec ChunkedWindow ChunkResume Completion CountedBody EndOfResponse Leftover SlotReuse
  RequestFraming

/-! ## The response that is told is that of the head -/

/-- The head that was seen is the one the connection keeps, and it was told;
    before it is seen nothing is flagged, and behind it no line is parsed. -/
def HeadKept (s : RespLocal) : Prop :=
  (s.headerEndFlag = false ∧ s.head = none) ∨
    (s.headerEndFlag = true ∧ s.ctx.state.beforeBody = false ∧ s.calls ≠ [] ∧
      ∃ seen, s.head = some seen ∧ seen.resp = s.resp)

/-- What is left of it in the end. -/
def HeadIs (s : RespLocal) : Prop :=
  ∀ seen, s.head = some seen → seen.resp = s.resp ∧ s.calls ≠ []

theorem HeadKept.is {s : RespLocal} (h : HeadKept s) : HeadIs s := by
  intro seen hseen
  rcases h with ⟨-, hnone⟩ | ⟨-, -, hcalls, seen', hseen', hresp⟩
  · rw [hnone] at hseen
    cases hseen
  · rw [hseen'] at hseen
    rw [← Option.some.inj hseen]
    exact ⟨hresp, hcalls⟩

theorem HeadIs.body {s t : RespLocal} (h : HeadIs s) (hbody : BodyOnly s t)
    (hcalls : s.calls <+: t.calls) : HeadIs t := by
  intro seen hseen
  rw [hbody.head] at hseen
  obtain ⟨hresp, htold⟩ := h seen hseen
  refine ⟨by rw [hbody.resp]; exact hresp, fun hnil => htold ?_⟩
  rw [hnil] at hcalls
  exact List.prefix_nil.mp hcalls

/-- A pass that goes on keeps the head; any other leaves it as it was seen. -/
def KeepsHead : RespFlow → Prop
  | .go s => HeadKept s
  | .ret _ s | .abort _ s => HeadIs s

theorem andThen_keepsHead {fl : RespFlow} {s : RespLocal} (hbody : BodyOnly s fl.after)
    (hcalls : s.calls <+: fl.after.calls) (hstate : fl.after.ctx.state = .hrBody)
    (hflag : s.headerEndFlag = true) (htold : s.calls ≠ [])
    (hseen : ∃ seen, s.head = some seen ∧ seen.resp = s.resp) :
    KeepsHead (fl.andThen bodyEnd) := by
  have his : HeadIs s := by
    obtain ⟨seen, hsome, hresp⟩ := hseen
    intro seen' hseen'
    rw [hsome] at hseen'
    rw [← Option.some.inj hseen']
    exact ⟨hresp, htold⟩
  cases fl with
  | go t =>
      have ht : HeadIs t := his.body hbody hcalls
      have hend := bodyEnd_bodyOnly t
      have hmore : t.calls <+: (bodyEnd t).after.calls := by
        rw [bodyEnd_calls]
      show KeepsHead (bodyEnd t)
      rw [bodyEnd] at hend hmore ⊢
      split_ifs at hend hmore ⊢
      · exact ht.body hend hmore
      · exact ht.body hend hmore
      · exact ht.body hend hmore
      · have hbodyState : t.ctx.state = .hrBody := hstate
        obtain ⟨seen, hsome, -⟩ := hseen
        have hsame : t.head = some seen := hbody.head.trans hsome
        obtain ⟨hresp, hnil⟩ := ht seen hsame
        exact Or.inr ⟨hbody.headerEndFlag.trans hflag, by rw [hbodyState]; rfl, hnil, seen, hsame,
          hresp⟩
  | ret code t => exact his.body hbody hcalls
  | abort e t => exact his.body hbody hcalls

/-- **A PASS** sees the head at most once, tells it, and keeps it. -/
theorem respPass_keepsHead (onBody : Bool) (readOff readLen : Nat) {s : RespLocal}
    (h : HeadKept s) : KeepsHead (respPass true onBody readOff readLen s) := by
  rw [respPass]
  rcases h with ⟨hflag, hnone⟩ | ⟨hflag, hstate, htold, hseen⟩
  · cases hparse : parsePass readLen s with
    | error e =>
        intro seen hseen
        rw [hnone] at hseen
        cases hseen
    | ok t =>
        obtain ⟨hhead, hsame⟩ := parsePass_head hparse
        dsimp only
        split_ifs with hbody hend
        · rw [hsame, hflag] at hend
          cases hend
        · refine andThen_keepsHead (firstBody_bodyOnly onBody readLen _)
            (firstBody_calls onBody readLen _) ?_ rfl ?_ ⟨_, rfl, rfl⟩
          · exact (firstBody_state _ _ _).trans ((headerEnd_state _ _ _ _).trans hbody)
          · exact List.append_ne_nil_of_right_ne_nil _ (List.cons_ne_nil _ _)
        · exact Or.inl ⟨hsame.trans hflag, hhead.trans hnone⟩
  · have hparse : parsePass readLen s = .ok s := by
      rw [parsePass, hstate]
      rfl
    rw [hparse]
    dsimp only
    split_ifs with hbody
    · exact andThen_keepsHead (nextBody_bodyOnly onBody readLen s)
        (nextBody_calls onBody readLen s) ((nextBody_state _ _ _).trans hbody) hflag htold hseen
    · exact Or.inr ⟨hflag, hstate, htold, hseen⟩

theorem respLoop_headIs (onBody : Bool) {fuel : Nat} : ∀ {s : RespLocal}, HeadKept s →
    HeadIs (respLoop true onBody fuel s).s := by
  induction fuel with
  | zero =>
      intro s h
      exact h.is
  | succ fuel ih =>
      intro s h
      rw [respLoop]
      cases s.sock.read (s.buffer.length - s.ctx.remainDataLen) with
      | mk got sock =>
          cases got with
          | none => exact h.is
          | some d =>
              dsimp only
              split_ifs
              · exact h.is
              · have hread : HeadKept { s with
                    buffer := store s.buffer s.ctx.remainDataLen d, sock := sock } := h
                have hpass := respPass_keepsHead onBody s.ctx.remainDataLen d.length hread
                cases hflow : respPass true onBody s.ctx.remainDataLen d.length
                    { s with buffer := store s.buffer s.ctx.remainDataLen d, sock := sock } with
                | go t =>
                    rw [hflow] at hpass
                    exact ih hpass
                | ret _ _ | abort _ _ =>
                    rw [hflow] at hpass
                    exact hpass

/-! ## A response that is received completely -/

/-- The bytes the peer means to send. -/
def content : Response → Bytes
  | .counted _ body _ _ => body
  | .chunked r => contents r.chunks

/-- The response as its head describes it. -/
def described (r : Response) : HttpResponse := linesResp .hrFirstLine r.head.lines .zero

/-- The call ended with the response: its head was told, and then all of its
    content. -/
structure Received (r : Response) (run : RespRun) : Prop where
  stop : run.stop = .ok 0
  resp : run.s.resp = described r
  told : ∃ pieces : List Piece,
    run.s.calls = .header (described r) :: pieces.map .body ∧ delivered pieces = content r

section Receipt

variable (a : Receipt)

/-- The end of the body is reached within what arrives. -/
theorem Receipt.ends (h : a.InStep) (hmarked : a.response.Marked) :
    (respLoop a.clb.respHeaderFunc.isSome true (a.reads.flatten.length + a.reads.length + 3)
        (a.start .err)).stop = .ok 0 ∧
      (respLoop a.clb.respHeaderFunc.isSome true (a.reads.flatten.length + a.reads.length + 3)
        (a.start .err)).s.ctx.state = .hrEnd ∧
      bodyBytes (respLoop a.clb.respHeaderFunc.isSome true
        (a.reads.flatten.length + a.reads.length + 3) (a.start .err)).s.calls =
          content a.response := by
  obtain ⟨s', ls, first, later, g, hfound, hbody⟩ := a.found .err h
  have hlengths := h.lengths
  cases hr : a.response with
  | counted head body declares unencoded =>
      rw [hr] at hlengths hfound hbody hmarked
      have hbehind : a.behind = [] := a.alone (by rw [hr]; rfl)
      have hends := hfound.plain (head_unencoded unencoded)
      have hlen : (linesResp (a.start .err).ctx.state (Response.counted head body declares
          unencoded).head.lines (a.start .err).resp).contentLength = (body.length : Int) := by
        refine (head_declares declares).trans ?_
        rw [clampLong]
        have hless : body.length < 2 ^ 63 := hlengths
        omega
      have htext : first ++ later.flatten = body := by
        rw [hbody, hbehind]
        exact List.append_nil _
      rw [hlen, htext] at hends
      cases hends with
      | counted pre _ hpre hcount hstop hstate hcalls =>
          -- as many bytes as there are
          have hwhole : pre = body := by
            rw [List.nil_append] at hcount
            exact hpre.eq_of_length (Int.ofNat_inj.mp hcount)
          rw [List.nil_append, hwhole] at hcalls
          exact ⟨hstop, hstate, hcalls⟩
      | overrun _ hover _ => exact absurd hover (Int.lt_irrefl _)
      | drained hshort _ _ _ =>
          have hpos : 0 < body.length := hmarked
          exact absurd (hshort (Int.natCast_pos.mpr hpos)) (Int.lt_irrefl _)
  | chunked r =>
      rw [hr] at hlengths hfound hbody
      have h4 : ∀ c ∈ r.chunks, c.FourDigits := hlengths
      have hcoded : first ++ later.flatten = codingThen a.behind r.chunks := by
        rw [hbody, codingThen_eq]
        rfl
      have hends := hfound.decoded (t := a.behind) h4 r.announced
        (by rw [hcoded]; exact List.prefix_rfl)
      have hdone : pendingAt r.chunks (first ++ later.flatten).length = .done := by
        refine pendingAt_end h4 ?_
        rw [hcoded, codingThen_eq, List.length_append]
        omega
      have hstop := hends.stop
      have hstate := hends.state
      have hcalls := hends.calls
      rw [show (Response.chunked r).chunks = r.chunks from rfl] at hstop hstate hcalls
      rw [if_pos (Or.inl hdone)] at hstop
      rw [if_pos hdone] at hstate
      rw [if_pos rfl, List.nil_append, contentsAt_done hdone] at hcalls
      exact ⟨hstop, hstate, hcalls⟩

/-- The head that is told is the one that was sent. -/
theorem Receipt.told (h : a.InStep) (hheader : a.clb.respHeaderFunc.isSome = true) :
    (respLoop a.clb.respHeaderFunc.isSome true (a.reads.flatten.length + a.reads.length + 3)
        (a.start .err)).s.resp = described a.response ∧
      ∃ pieces : List Piece, (respLoop a.clb.respHeaderFunc.isSome true
        (a.reads.flatten.length + a.reads.length + 3) (a.start .err)).s.calls =
          .header (described a.response) :: pieces.map .body := by
  have hjoin := a.joined
  rw [Response.text, ResponseHead.text, List.append_assoc, List.append_assoc] at hjoin
  have hseen := (head_iff_safe a.clb.respHeaderFunc.isSome true (a.searching .err) rfl
    a.response.head.linesOk a.results rfl hjoin
    (show a.reads.length < a.reads.flatten.length + a.reads.length + 3 by omega)).mpr h.found
  rw [hheader] at hseen ⊢
  have hkept : HeadIs (respLoop true true (a.reads.flatten.length + a.reads.length + 3)
      (a.start .err)).s := respLoop_headIs _ (Or.inl ⟨rfl, rfl⟩)
  have htold : ToldAll (respLoop true true (a.reads.flatten.length + a.reads.length + 3)
      (a.start .err)).s := respLoop_tells (Or.inl ⟨rfl, rfl⟩)
  obtain ⟨hresp, hcalls⟩ := hkept _ hseen
  refine ⟨hresp.symm, ?_⟩
  rcases htold with hnone | hpieces
  · exact absurd hnone hcalls
  · rw [← hresp] at hpieces
    exact hpieces

/-- **A COMPLETE RESPONSE IS RECEIVED**, whatever arrives behind it. -/
theorem Receipt.received (h : a.InStep) (hmarked : a.response.Marked)
    (hheader : a.clb.respHeaderFunc.isSome = true) (more : List Bytes) (ending : Ending) :
    Received a.response (a.run more ending) := by
  obtain ⟨hstop, hstate, hbody⟩ := Receipt.ends a h hmarked
  obtain ⟨hresp, pieces, hcalls⟩ := Receipt.told a h hheader
  obtain ⟨fuel, hrun, hle⟩ := a.run_longer more .err ending
  rw [hcalls] at hbody
  rw [hrun, respLoop_longer more ending a.clb.respHeaderFunc.isSome true _ hle rfl
    (show ParseState.hrFirstLine ≠ .hrEnd by decide) hstate]
  refine ⟨hstop, hresp, pieces, hcalls, ?_⟩
  rw [← bodyBytes_pieces]
  exact hbody

end Receipt

/-! ## What the callbacks make of it -/

section Callbacks

variable {conn : HttpConnection} {k : Nat}

/-- No other body is. -/
theorem bodies_dropped (h : ¬ (conn.clb.respBodyFunc = some .get ∧ conn.resp.code = sucOk))
    (pieces : List Piece) (w : MethodWorld) :
    (pieces.map RespCall.body).foldl respCall (conn, w) = (conn, w) := by
  induction pieces generalizing w with
  | nil => rfl
  | cons piece pieces ih =>
      have hcall : respCall (conn, w) (.body piece) = (conn, w) := by
        rw [respCall]
        split
        · rename_i hget
          rw [if_neg (fun hboth => h ⟨hget, hboth.1⟩)]
        all_goals rfl
      rw [List.map_cons, List.foldl_cons, hcall, ih]

/-- The slot is free again. -/
structure Released (conn : HttpConnection) (r : Response) : Prop where
  state : conn.state = 3
  sockfd : conn.sockfd = 0
  resp : conn.resp = described r

variable {buffer : Bytes} {sock : Sock} {w : MethodWorld} {r : Response}

/-- `http_response` on a response that is received. -/
theorem response_received (hsock : 2 < conn.sockfd) (hbuf : buffer ≠ [])
    (h : Received r (httpInternalResponse conn buffer sock)) :
    httpResponse conn buffer sock w =
      { stop := .ok 0,
        conn := { (methodAfterResp (receive conn buffer sock w).1
          (receive conn buffer sock w).2).1 with state := 3, sockfd := 0 },
        world := (methodAfterResp (receive conn buffer sock w).1
          (receive conn buffer sock w).2).2 } := by
  have hready : ¬ (conn.sockfd ≤ 2 ∨ buffer = []) := by
    rintro (hlow | hnil)
    · exact absurd hsock (Int.not_lt.mpr hlow)
    · exact hbuf hnil
  rw [httpResponse, if_neg hready]
  dsimp only
  rw [h.stop]
  dsimp only
  rw [if_neg (not_not.mpr rfl)]

/-- **THE ANSWER TO ANY OTHER METHOD** is told to nobody. -/
theorem other_received {m : Method} (hm : m ≠ .get) (hclb : conn.clb = paramSet m k)
    (hsock : 2 < conn.sockfd) (hbuf : buffer ≠ [])
    (h : Received r (httpInternalResponse conn buffer sock)) :
    (httpResponse conn buffer sock w).stop = .ok 0 ∧
      Released (httpResponse conn buffer sock w).conn r ∧
      (httpResponse conn buffer sock w).world = w := by
  obtain ⟨pieces, hcalls, -⟩ := h.told
  have hheader : respCall (conn, w) (.header (described r)) =
      ({ conn with resp := described r }, w) := by
    rw [respCall]
    cases m with
    | get => exact absurd rfl hm
    | put | propfind | delete => simp only [hclb, paramSet, respHeaderFunc]
  have hdropped : ¬ (({ conn with resp := described r } : HttpConnection).clb.respBodyFunc =
      some .get ∧ ({ conn with resp := described r } : HttpConnection).resp.code = sucOk) := by
    rintro ⟨hget, -⟩
    rw [hclb] at hget
    exact hm (Option.some.inj hget)
  rw [response_received hsock hbuf h, receive, hcalls, h.resp, List.foldl_cons, hheader,
    bodies_dropped hdropped, methodAfterResp]
  cases m with
  | get => exact absurd rfl hm
  | put | propfind | delete =>
      simp only [hclb, paramSet]
      refine ⟨trivial, ⟨rfl, rfl, ?_⟩, trivial⟩
      simp only [afterResp]

end Callbacks

/-! ## What is written to the socket -/

section Request

variable {conn : HttpConnection} {capacity k fuel : Nat} {results : Writes} {w : MethodWorld}

/-- The message of a PUT. -/
def putMessage (conn : HttpConnection) (c : MethodChunks) (mimeType content : Bytes) : Bytes :=
  headText (lit "PUT " ++ conn.remoteDir ++ lit " HTTP/1.1")
    (putFields conn c mimeType (decimal (toInt content.length))) ++ content

/-- No more buffers than bytes. -/
theorem bufs_length {bufs : List Bytes} (h : ∀ d ∈ bufs, d ≠ []) :
    bufs.length ≤ bufs.flatten.length := by
  induction bufs with
  | nil => exact Nat.le_refl 0
  | cons d bufs ih =>
      have hd : 0 < d.length := List.length_pos_iff.mpr (h d List.mem_cons_self)
      have hrest := ih (fun e he => h e (List.mem_cons_of_mem d he))
      rw [List.length_cons, List.flatten_cons, List.length_append]
      omega

/-- A socket that takes whatever a message has takes each of its buffers. -/
theorem accepted_whole {bufs : List Bytes} (hne : ∀ d ∈ bufs, d ≠ [])
    (hwhole : ∀ i, Whole (results i) bufs.flatten) :
    acceptedOf results 0 bufs = bufs.flatten := by
  refine (acceptedOf_eq_iff hne).mpr ?_
  intro i d hd
  obtain ⟨k, hk, hle⟩ := hwhole (0 + i)
  have hmem : d ∈ bufs := List.mem_of_getElem? hd
  exact ⟨k, hk, Nat.le_trans (List.sublist_flatten_of_mem hmem).length_le hle⟩

/-- A PUT opens its file first, whatever was done before. -/
theorem put_opens (hclb : conn.clb = paramSet .put k) (w : MethodWorld) :
    callIf (methodCallbacks conn.clb).beforeReq conn w =
      (if w.file.fd < 0 then 1 else 0, { conn with filefd := w.file.fd },
        { w with fds := w.fds ++ openEvents w.file.fd }) := by
  have hcb : methodCallbacks conn.clb = _ :=
    (congrArg _ hclb).trans (methodCallbacks_paramSet .put k)
  rw [hcb, callIf, methodBeforeReq, beforeReq, hclb]
  rfl

/-- **THE REQUEST OF A PUT** is its message, and the file is closed behind it. -/
theorem put_sent {content mimeType : Bytes} (hclb : conn.clb = paramSet .put k)
    (hsock : 2 < conn.sockfd) (hcap : 0 < capacity) (hfin : w.chunks.fin = 0)
    (hfd : 2 < w.file.fd)
    (hmime : MimeType.findMimeType (getFileExtension conn.localDir) = .ok mimeType)
    (hfile : Holds w.file content)
    (hfuel : (putMessage conn w.chunks mimeType content).length < fuel)
    (hwhole : ∀ i, Whole (results i) (putMessage conn w.chunks mimeType content)) :
    ∃ send v, httpRequest (methodCallbacks conn.clb) conn capacity results fuel w =
        { stop := .ok 0, conn := { conn with filefd := w.file.fd, state := 1 }, world := v,
          send := some send } ∧
      send.sent.accepted = putMessage conn w.chunks mimeType content ∧
      v.fds = w.fds ++ [.opened w.file.fd, .closed w.file.fd] ∧ v.saved = w.saved := by
  have hcb : methodCallbacks conn.clb = _ :=
    (congrArg _ hclb).trans (methodCallbacks_paramSet .put k)
  obtain ⟨opened, hopened⟩ : ∃ opened : HttpConnection,
      opened = { conn with filefd := w.file.fd } := ⟨_, rfl⟩
  obtain ⟨u, hu⟩ : ∃ u : MethodWorld, u = { w with fds := w.fds ++ [.opened w.file.fd] } :=
    ⟨_, rfl⟩
  have hopenedClb : opened.clb = paramSet .put k := by rw [hopened]; exact hclb
  have hopenedFd : opened.filefd = w.file.fd := by rw [hopened]
  have hnonneg : ¬ w.file.fd < 0 := by omega
  have hbefore : callIf (methodCallbacks conn.clb).beforeReq conn w = (0, opened, u) := by
    rw [put_opens hclb, hopened, hu, openEvents, if_neg hnonneg, if_neg hnonneg]
  have hready : Ready (methodCallbacks conn.clb) conn capacity w opened u :=
    ⟨hsock, hcap, hbefore, by rw [hopened]; exact hsock⟩
  have hopenedMime : MimeType.findMimeType (getFileExtension opened.localDir) = .ok mimeType := by
    rw [hopened]
    exact hmime
  have hopenedFile : Holds u.file content := by
    rw [hu]
    exact hfile
  obtain ⟨bufs, v, hproduces, hbytes⟩ := put_produces (by rw [hopenedClb]; rfl)
    (by rw [hopenedFd]; exact hfd) hcap (by rw [hu]; exact hfin) hopenedMime hopenedFile
  have hmessage : bufs.flatten = putMessage conn w.chunks mimeType content := by
    rw [hbytes, hopened, hu]
    rfl
  have hfew : bufs.length < fuel :=
    Nat.lt_of_le_of_lt (bufs_length hproduces.ne_nil) (by rw [hmessage]; exact hfuel)
  have hloop : httpInternalRequest (methodCallbacks conn.clb) opened capacity results fuel u = _ :=
    (internalRequest_eq (by rw [hcb]) hready.sockfd' hcap).trans
      (requestLoop_produces (s := Sent.start u) hproduces hfew)
  have hafter : ∀ x : MethodWorld, callIf (methodCallbacks conn.clb).afterReq opened x =
      (0, opened, { x with fds := x.fds ++ [.closed opened.filefd] }) := by
    intro x
    rw [hcb, callIf, methodAfterReq, hopenedClb]
    rfl
  have hkept : FileOwner.Keeps u v :=
    hproduces.keeps FileOwner.Keeps FileOwner.Keeps.trans (FileOwner.putWrite_keeps hopenedClb)
  have hsaved : v.saved = u.saved := by
    refine hproduces.keeps (fun x y => y.saved = x.saved) ?_ ?_
    · intro x y z hxy hyz
      exact hyz.trans hxy
    · intro x got y hcall
      rcases FileOwner.putWrite_cases hopenedClb hcall with
        ⟨-, -, -, rfl⟩ | ⟨-, -, -, rfl⟩ | ⟨-, -, rfl⟩ <;> rfl
  have hrun := hready.written (by rw [hloop]; rfl) (hafter _)
  have hconn : ({ opened with state := 1 } : HttpConnection) =
      { conn with filefd := w.file.fd, state := 1 } := by rw [hopened]
  rw [hconn] at hrun
  refine ⟨_, _, hrun, ?_, ?_, ?_⟩
  · rw [hloop]
    show [] ++ acceptedOf results 0 bufs = _
    rw [List.nil_append, ← hmessage]
    exact accepted_whole hproduces.ne_nil (by rw [hmessage]; exact hwhole)
  · rw [hloop]
    show v.fds ++ [.closed opened.filefd] = _
    rw [hkept.fds, hu, hopenedFd, List.append_assoc]
    rfl
  · rw [hloop]
    show v.saved = w.saved
    rw [hsaved, hu]

end Request

/-! ## The whole command -/

/-- A command in a slot in which nothing is left, its file open and its head not
    yet written, and a peer that answers with a complete response. -/
structure Answered (slot : HttpConnection) (c : NewCommand) (x : Exchange) (a : Receipt) :
    Prop where
  clean : Clean slot
  sockfd : c.sockfd = a.sockfd
  clb : paramSet c.method c.worker = a.clb
  buffer : x.buffer = a.buffer
  sock : ∃ more ending, x.sock = { segs := a.reads ++ more, ending := ending, taken := 0 }
  inStep : a.InStep
  marked : a.response.Marked
  file : 2 < x.world.file.fd
  fin : x.world.chunks.fin = 0

section Command

variable {slot conn : HttpConnection} {c : NewCommand} {x : Exchange} {a : Receipt}

theorem Answered.open (h : Answered slot c x a) : 2 < (install slot c).sockfd := by
  show 2 < c.sockfd
  rw [h.sockfd]
  exact a.fd

theorem Answered.room (h : Answered slot c x a) : x.buffer ≠ [] := by
  rw [h.buffer]
  exact List.length_pos_iff.mp a.room

/-- The response of the command, whatever the request did to the slot. -/
theorem Answered.received (h : Answered slot c x a) (hsock : conn.sockfd = c.sockfd)
    (hclb : conn.clb = paramSet c.method c.worker) (hresp : conn.resp = slot.resp)
    (hctx : conn.ctx = slot.ctx) :
    Received a.response (httpInternalResponse conn x.buffer x.sock) := by
  obtain ⟨more, ending, hx⟩ := h.sock
  have hleft : SameLeft .zero slot := (clean_iff slot).mp h.clean
  have hsame : SameLeft (.fresh a.sockfd a.clb) conn := by
    refine ⟨hresp.trans hleft.resp, ?_, ?_, ?_⟩
    · rw [hctx]
      exact hleft.len
    · rw [hctx]
      exact hleft.text
    · rw [hctx]
      exact hleft.zero
  have hrun := internalResponse_alike (hsock.trans h.sockfd) (hclb.trans h.clb) hsame x.buffer
    x.sock
  have hfresh := Receipt.received a h.inStep h.marked (by rw [← h.clb]; rfl) more ending
  rw [Receipt.run, ← h.buffer, ← hx] at hfresh
  exact ⟨hrun.stop.trans hfresh.stop, hrun.resp.trans hfresh.resp, by
    rw [hrun.calls]
    exact hfresh.told⟩

/-- The buffer of a worker before its first read. -/
def zeroBuffer : Bytes := List.replicate httpConnDataBufferSize 0

theorem zeroBuffer_length : zeroBuffer.length = httpConnDataBufferSize := List.length_replicate

theorem okReads_room : ∀ d ∈ twoReads.reads, d ≠ [] ∧ d.length ≤ zeroBuffer.length := by
  rw [zeroBuffer_length]
  decide

theorem firstSocket_open : (5 : Int) > 2 := by decide

/-- `ok`, in two reads, for a GET or a PUT of the first worker. -/
def okReceipt (m : Method) : Receipt :=
  { response := twoReads.response, behind := [], buffer := zeroBuffer, reads := twoReads.reads,
    sockfd := 5, clb := paramSet m 0, fd := firstSocket_open, listens := rfl,
    alone := twoReads.alone, joined := twoReads.joined, last := twoReads.last,
    results := okReads_room }

theorem okReceipt_inStep (m : Method) : (okReceipt m).InStep := by
  cases m <;> exact ⟨(by decide : (2 : Nat) < 2 ^ 63), by decide +kernel, by decide +kernel⟩

/-- The first command of the program: `get h/p f.txt`, or `put h/p f.txt`. -/
def firstCommand (m : Method) : NewCommand :=
  { method := m, sockfd := 5, domain := lit "h", remoteDir := lit "/p", localDir := lit "f.txt",
    worker := 0 }

/-- The server answers `ok` and sends one byte more. -/
def okExchange (m : Method) (file : LocalFile) : Exchange :=
  { results := fun _ => some 8184, fuel := 8184, buffer := (okReceipt m).buffer,
    size := zeroBuffer_length,
    sock := { segs := (okReceipt m).reads ++ [lit "!"], ending := .eof, taken := 0 },
    world := worldWith file }

theorem firstCommand_answered (m : Method) {file : LocalFile} (hfd : 2 < file.fd) :
    Answered .zero (firstCommand m) (okExchange m file) (okReceipt m) :=
  { clean := ⟨rfl, rfl, rfl, rfl⟩, sockfd := rfl, clb := rfl, buffer := rfl,
    sock := ⟨[lit "!"], .eof, rfl⟩, inStep := okReceipt_inStep m,
    marked := (by decide : 0 < 2), file := hfd, fin := rfl }

/-- **AN UPLOAD**: the server is sent one head that declares the size of the file,
    and the file; the file is opened and closed once; the answer is received to
    its end and told to nobody, and the slot is free again. -/
theorem upload_delivers {body mimeType : Bytes} (h : Answered slot c x a) (hput : c.method = .put)
    (hmime : MimeType.findMimeType (getFileExtension c.localDir) = .ok mimeType)
    (hfile : Holds x.world.file body) (hsize : body.length < 2 ^ 31)
    (hfuel : (putMessage (install slot c) x.world.chunks mimeType body).length < x.fuel)
    (hwhole : ∀ i, Whole (x.results i)
      (putMessage (install slot c) x.world.chunks mimeType body)) :
    (handle slot c x).stop = .ok 0 ∧
      Framed (install slot c) x.world.chunks mimeType body (handle slot c x).accepted ∧
      Released (handle slot c x).conn a.response ∧
      (handle slot c x).world.fds =
        x.world.fds ++ [.opened x.world.file.fd, .closed x.world.file.fd] ∧
      (handle slot c x).world.saved = x.world.saved := by
  have hclb : (install slot c).clb = paramSet .put c.worker := by
    rw [← hput]
    rfl
  obtain ⟨send, v, hsent, haccepted, hfds, hsaved⟩ := put_sent hclb h.open
    (show 0 < httpConnDataBufferSize by decide) h.fin h.file hmime hfile hfuel hwhole
  have hreceived : Received a.response (httpInternalResponse
      { install slot c with filefd := x.world.file.fd, state := 2 } x.buffer x.sock) :=
    h.received rfl rfl rfl rfl
  have hclb' : ({ install slot c with filefd := x.world.file.fd, state := 2 } :
      HttpConnection).clb = paramSet .put c.worker := hclb
  obtain ⟨hstop, hreleased, hworld⟩ := other_received (w := v) (by decide) hclb' h.open h.room
    hreceived
  have hlength : readDecimal (decimal (toInt body.length)) = some body.length :=
    readDecimal_decimal.mpr ((toInt_natCast_iff _).mpr hsize)
  rw [handle, command, hsent]
  dsimp only
  rw [if_neg (not_not.mpr rfl)]
  refine ⟨hstop, ⟨_, hlength, haccepted⟩, hreleased, ?_, ?_⟩
  · rw [hworld]
    exact hfds
  · rw [hworld]
    exact hsaved

end Command

theorem upload_delivers_tenBytes :
    (handle .zero (firstCommand .put)
        (okExchange .put (fileOf (lit "0123456789")))).stop = .ok 0 ∧
      Framed (install .zero (firstCommand .put)) .zero (lit "text/plain") (lit "0123456789")
        (handle .zero (firstCommand .put)
          (okExchange .put (fileOf (lit "0123456789")))).accepted ∧
      Released (handle .zero (firstCommand .put)
        (okExchange .put (fileOf (lit "0123456789")))).conn (okReceipt .put).response ∧
      (handle .zero (firstCommand .put)
        (okExchange .put (fileOf (lit "0123456789")))).world.fds = [] ++ [.opened 7, .closed 7] ∧
      (handle .zero (firstCommand .put)
        (okExchange .put (fileOf (lit "0123456789")))).world.saved = [] :=
  upload_delivers (firstCommand_answered .put (by decide)) rfl (by decide +kernel)
    (fileOf_holds (by decide)) (by decide) (by decide +kernel)
    (fun i => ⟨8184, rfl, by decide +kernel⟩)

end Delivery
