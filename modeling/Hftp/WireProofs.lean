import Hftp.CommandTextProofs
import Hftp.DeliveryProofs
import Hftp.DriversProofs
import Hftp.UrlWordsInverseProofs

/-! # From the text of a command to the wire

    A request is printed with `sprintf`, without a look at the size of the buffer,
    from the names in the slot; these came from a text through arrays of 256 bytes.
    So every head fits, whatever was entered and whatever the handlers did.

    Not every head that is printed is sent: the `req_write` of a PROPFIND and of a
    DELETE return 0.  What is sent asks for what the URL names only if the URL was
    read right. -/

namespace Wire

open CBytes HttpCore HttpResp HttpMethod HttpTransfer SingleCommand CommandText
open Threads (connEventQueueMax epollEventQueueMax epollInstanceMaxSockfd defaultWorkerCount)

/-! ## What is printed -/

/-- The head of a PROPFIND, and its body. -/
def propfindHead (conn : HttpConnection) (c : MethodChunks) : Bytes :=
  requestLines (lit "PROPFIND") conn ++ lit "Connection: " ++ connectionText c ++
    lit "\r\nDepth: 1\r\n\r\n" ++ lit "<?xml version=\"1.0\" encoding=\"utf-8\" ?>" ++
    lit "<propfind xmlns=\"DAV:\"><allprop/></propfind>"

/-- The head of a DELETE. -/
def deleteHead (conn : HttpConnection) (c : MethodChunks) : Bytes :=
  requestLines (lit "DELETE") conn ++ lit "Connection: " ++ connectionText c ++ crlf ++ crlf

/-- What a call of `req_write` prints into the buffer, if it prints. -/
def printed (m : Method) (conn : HttpConnection) (c : MethodChunks) (file : LocalFile) :
    Option Bytes :=
  match m with
  | .get => if c.fin ≠ 0 then none else some (getHead conn c)
  | .put =>
      if c.fin = 0 then
        match file.size, MimeType.findMimeType (getFileExtension conn.localDir) with
        | some size, .ok mimeType => some (putHead conn c size mimeType)
        | _, _ => none
      else none
  | .propfind => some (propfindHead conn c)
  | .delete => some (deleteHead conn c)

/-- A head that a GET or a PUT prints is what `req_write` returns; that of another
    method is left in the buffer. -/
theorem reqWrite_printed {m : Method} {conn : HttpConnection} {capacity k : Nat}
    {c : MethodChunks} {file : LocalFile} {r : ReqWrite} {d : Bytes}
    (hclb : conn.clb = paramSet m k) (hprint : printed m conn c file = some d)
    (h : reqWrite conn capacity c file = .ok r) :
    r.out = if m = .get ∨ m = .put then some d else some [] := by
  rw [reqWrite, hclb] at h
  cases m with
  | get =>
      rw [printed] at hprint
      split_ifs at hprint with hfin
      have hr : httpGetRequestWrite conn c file = r := Except.ok.inj h
      rw [← hr, httpGetRequestWrite, if_neg hfin, if_pos (Or.inl rfl)]
      exact hprint
  | put =>
      rw [printed] at hprint
      split_ifs at hprint with hfin
      have hr : httpPutRequestWrite conn capacity c file = .ok r := h
      rw [httpPutRequestWrite] at hr
      split_ifs at hr
      cases hsize : file.size with
      | none =>
          rw [hsize] at hprint
          cases hprint
      | some size =>
          cases hmime : MimeType.findMimeType (getFileExtension conn.localDir) with
          | error e =>
              rw [hsize, hmime] at hprint
              cases hprint
          | ok mimeType =>
              rw [hsize, hmime] at hprint hr
              rw [← Except.ok.inj hr, if_pos (Or.inr rfl)]
              exact hprint
  | propfind | delete =>
      have hr : httpHeadOnlyWrite c file = r := Except.ok.inj h
      rw [← hr, if_neg (by decide)]
      rfl

/-! ## How long it is -/

def setWorkspace (g : Globals) (w : Nat) (workspace : Workspace) : Globals :=
  { g with workspaces := Function.update g.workspaces w workspace }

/-- `epoll_worker` has come back from its handler: the chunks are cleared, and the
    connection is let go. -/
def letGo (g : Globals) (w : Nat) : Globals :=
  setWorkspace g w { g.workspaces w with chunks := .zero, connIndex := none }

/-- It clears its bit. -/
def released (g : Globals) (w : Nat) : Globals :=
  setWorkspace g w { g.workspaces w with busy := false }

/-- It takes the first entry of the connection queue instead. -/
def connTaken (g : Globals) (w : Nat) : Globals :=
  let cev := g.connQueue.head connEventQueueMax
  let conn := g.connWorkspace cev.connIndex
  let chunks := paramSetChunks conn.method (g.workspaces w).chunks
  let g := { g with connQueue := g.connQueue.dequeue connEventQueueMax }
  let g := g.setSlot cev.connIndex
    { conn with sockfd := cev.sockfd, state := 0, clb := paramSet conn.method w }
  setWorkspace g w { g.workspaces w with connIndex := some cev.connIndex, chunks := chunks }

/-- The first slot with the descriptor. -/
def slotOf (g : Globals) (fd : Nat) : Option Nat :=
  (List.range epollInstanceMaxSockfd).find? fun i => (g.connWorkspace i).sockfd = fd

/-- It takes the first entry of the epoll queue. -/
def epollTaken (g : Globals) (w : Nat) : Globals :=
  let fd := g.epollQueue.head epollEventQueueMax
  let g := { g with epollQueue := g.epollQueue.dequeue epollEventQueueMax }
  match slotOf g fd with
  | some i =>
      let g := g.setSlot i { g.connWorkspace i with sockfd := fd, state := 2 }
      setWorkspace g w { g.workspaces w with connIndex := some i }
  | none => g

/-- The descriptor is that of a connection with a worker, or in the queue. -/
def sameThreadSocket (g : Globals) (fd : Nat) : Bool :=
  (List.range defaultWorkerCount).any (fun th =>
      (g.workspaces th).connIndex.any fun i => (g.connWorkspace i).sockfd = fd) ||
    (g.epollQueue.contents epollEventQueueMax).contains fd

/-- `epoll_patcher` gives an event to an idle worker, or puts it into the queue. -/
def dispatched (g : Globals) (fd : Nat) : Globals :=
  if sameThreadSocket g fd then g
  else
    match idleWorker g with
    | some w =>
        let connIndex := (slotOf g fd).or (g.workspaces w).connIndex
        let httpProcess := some .httpResponse
        setWorkspace g w
          { g.workspaces w with httpProcess := httpProcess, connIndex := connIndex, busy := true }
    | none => { g with epollQueue := g.epollQueue.enqueue epollEventQueueMax fd }

/-- A command is entered, a handler is called on a slot, a worker lets it go and
    takes the next or rests, or an event is dispatched. -/
inductive Happens : Globals → Globals → Prop where
  | command {g g' : Globals} (net : Net) (str : Bytes) (stack : Stack) (code : Int)
      (h : interpreteSingleCommand net str stack g = .ok (code, g')) : Happens g g'
  | request (g : Globals) (i capacity fuel : Nat) (results : Writes) (w : MethodWorld) :
      Happens g (g.setSlot i (httpRequest (methodCallbacks (g.connWorkspace i).clb)
        (g.connWorkspace i) capacity results fuel w).conn)
  | response (g : Globals) (i : Nat) (buffer : Bytes) (sock : Sock) (w : MethodWorld) :
      Happens g (g.setSlot i (httpResponse (g.connWorkspace i) buffer sock w).conn)
  | registered (g : Globals) (i : Nat) (clb : HttpCallback) :
      Happens g (g.setSlot i { g.connWorkspace i with clb := clb })
  | letGo (g : Globals) (w : Nat) : Happens g (letGo g w)
  | released (g : Globals) (w : Nat) : Happens g (released g w)
  | connTaken (g : Globals) (w : Nat) (h : g.connQueue.count ≠ 0) : Happens g (connTaken g w)
  | epollTaken (g : Globals) (w : Nat) (h : g.epollQueue.count ≠ 0) : Happens g (epollTaken g w)
  | dispatched (g : Globals) (fd : Nat) : Happens g (dispatched g fd)

/-- What the program comes to, in any order of these. -/
inductive Session : Globals → Prop where
  | start : Session .idle
  | step {g g' : Globals} (h : Session g) (hstep : Happens g g') : Session g'

/-- A handler leaves the names alone. -/
structure SameNames (conn conn' : HttpConnection) : Prop where
  domain : conn'.domain = conn.domain
  remoteDir : conn'.remoteDir = conn.remoteDir
  localDir : conn'.localDir = conn.localDir

theorem SameNames.refl (conn : HttpConnection) : SameNames conn conn := ⟨rfl, rfl, rfl⟩

theorem SameNames.trans {a b c : HttpConnection} (h : SameNames a b) (k : SameNames b c) :
    SameNames a c :=
  ⟨k.domain.trans h.domain, k.remoteDir.trans h.remoteDir, k.localDir.trans h.localDir⟩

theorem SameNames.named {conn conn' : HttpConnection} (h : SameNames conn conn')
    (hnamed : Named conn) : Named conn' := by
  refine ⟨?_, ?_, ?_⟩
  · rw [h.domain]
    exact hnamed.domain
  · rw [h.remoteDir]
    exact hnamed.remoteDir
  · rw [h.localDir]
    exact hnamed.localDir

section Handlers

variable {conn : HttpConnection}

theorem before_names (clb : HttpCallback) (w : MethodWorld) :
    SameNames conn (callIf (methodCallbacks clb).beforeReq conn w).2.1 := by
  rw [methodCallbacks]
  cases clb.beforeReq with
  | none => exact .refl conn
  | some m =>
      show SameNames conn (methodBeforeReq conn w).2.1
      rw [methodBeforeReq, beforeReq]
      cases conn.clb.beforeReq with
      | none => exact .refl conn
      | some m => cases m <;> exact ⟨rfl, rfl, rfl⟩

theorem after_names (clb : HttpCallback) (w : MethodWorld) :
    SameNames conn (callIf (methodCallbacks clb).afterReq conn w).2.1 := by
  rw [methodCallbacks]
  cases clb.afterReq with
  | none => exact .refl conn
  | some m =>
      show SameNames conn (methodAfterReq conn w).2.1
      rw [methodAfterReq]
      split <;> exact .refl conn

theorem request_names (clb : HttpCallback) (capacity fuel : Nat) (results : Writes)
    (w : MethodWorld) :
    SameNames conn (httpRequest (methodCallbacks clb) conn capacity results fuel w).conn := by
  rw [httpRequest]
  split_ifs
  · exact .refl conn
  · have hbefore : SameNames conn _ := before_names clb w
    rcases hasked : callIf (methodCallbacks clb).beforeReq conn w with ⟨code, conn', w'⟩
    rw [hasked] at hbefore
    dsimp only at hbefore ⊢
    by_cases hrefused : code ≠ 0
    · rw [if_pos hrefused]
      exact hbefore.trans ⟨rfl, rfl, rfl⟩
    · rw [if_neg hrefused]
      generalize httpInternalRequest (methodCallbacks clb) conn' capacity results fuel w' = run
      have hafter : SameNames conn' _ := after_names clb run.sent.world
      cases run.stop with
      | error e => exact hbefore
      | ok code =>
          dsimp only at hafter ⊢
          split_ifs
          · exact hbefore.trans ⟨rfl, rfl, rfl⟩
          · exact (hbefore.trans hafter).trans ⟨rfl, rfl, rfl⟩
          · exact (hbefore.trans hafter).trans ⟨rfl, rfl, rfl⟩

theorem call_names (cw : HttpConnection × MethodWorld) (call : RespCall) :
    SameNames cw.1 (respCall cw call).1 := by
  cases call with
  | header resp =>
      rw [respCall]
      dsimp only
      rw [respHeaderFunc]
      cases cw.1.clb.respHeaderFunc with
      | none => exact ⟨rfl, rfl, rfl⟩
      | some m =>
          cases m with
          | get =>
              dsimp only
              rw [httpGetResponseHeader]
              split_ifs <;> exact ⟨rfl, rfl, rfl⟩
          | put | propfind | delete => exact ⟨rfl, rfl, rfl⟩
  | body piece =>
      rw [respCall]
      dsimp only
      split
      · split_ifs <;> exact .refl cw.1
      all_goals exact .refl cw.1

theorem calls_names (calls : List RespCall) (cw : HttpConnection × MethodWorld) :
    SameNames cw.1 (calls.foldl respCall cw).1 := by
  induction calls generalizing cw with
  | nil => exact .refl cw.1
  | cons call calls ih => exact (call_names cw call).trans (ih (respCall cw call))

theorem response_names (buffer : Bytes) (sock : Sock) (w : MethodWorld) :
    SameNames conn (httpResponse conn buffer sock w).conn := by
  have hreceive : SameNames conn (receive conn buffer sock w).1 :=
    (calls_names (httpInternalResponse conn buffer sock).s.calls (conn, w)).trans ⟨rfl, rfl, rfl⟩
  have hafter : ∀ (c : HttpConnection) (v : MethodWorld),
      SameNames c (methodAfterResp c v).1 := by
    intro c v
    rw [methodAfterResp, afterResp]
    cases c.clb.afterResp with
    | none => exact .refl c
    | some m =>
        cases m with
        | get =>
            dsimp only
            split_ifs <;> exact ⟨rfl, rfl, rfl⟩
        | put | propfind | delete => exact .refl c
  rw [httpResponse]
  split_ifs
  · exact .refl conn
  · dsimp only
    cases (httpInternalResponse conn buffer sock).stop with
    | error e => exact hreceive
    | ok code =>
        dsimp only
        split_ifs
        · exact hreceive.trans ⟨rfl, rfl, rfl⟩
        · exact (hreceive.trans (hafter _ _)).trans ⟨rfl, rfl, rfl⟩

end Handlers

/-- What a command leaves that the system agrees to. -/
def entered (str : Bytes) : Globals :=
  match interpreteSingleCommand (netOf true) str zeroStack .idle with
  | .ok r => r.2
  | .error _ => .idle

theorem entered_ok {str : Bytes}
    (h : (interpreteSingleCommand (netOf true) str zeroStack .idle).map Prod.fst = .ok 0) :
    interpreteSingleCommand (netOf true) str zeroStack .idle = .ok (0, entered str) := by
  rw [entered]
  cases hrun : interpreteSingleCommand (netOf true) str zeroStack .idle with
  | error e =>
      rw [hrun] at h
      cases h
  | ok r =>
      rw [hrun] at h
      have hcode : r.1 = 0 := Except.ok.inj h
      rw [← hcode]

open SlotReuse FileOwner RequestFraming

section Reaches

variable {slot : HttpConnection} {c : NewCommand} {x : Exchange}

/-- Nothing was written to the socket. -/
def sentNothing (run : RequestRun MethodWorld) : Prop :=
  ∀ send, run.send = some send → send.sent.accepted = []

theorem handle_accepted (slot : HttpConnection) (c : NewCommand) (x : Exchange) :
    (handle slot c x).accepted = [] ↔
      sentNothing (httpRequest (methodCallbacks (install slot c).clb) (install slot c)
        httpConnDataBufferSize x.results x.fuel x.world) := by
  rw [handle, command, sentNothing]
  dsimp only
  generalize httpRequest (methodCallbacks (install slot c).clb) (install slot c)
    httpConnDataBufferSize x.results x.fuel x.world = run
  obtain ⟨stop, conn, world, send⟩ := run
  cases send with
  | none =>
      cases stop with
      | error e => exact ⟨fun _ r h => (by cases h), fun _ => rfl⟩
      | ok code =>
          dsimp only
          split_ifs <;> exact ⟨fun _ r h => (by cases h), fun _ => rfl⟩
  | some sending =>
      have hiff : sending.sent.accepted = [] ↔
          ∀ r, some sending = some r → r.sent.accepted = [] :=
        ⟨fun h r hr => Option.some.inj hr ▸ h, fun h => h sending rfl⟩
      cases stop with
      | error e => exact hiff
      | ok code =>
          dsimp only
          split_ifs <;> exact hiff

section Loop

variable {σ : Type} {reqWrite : σ → Except Abort (Option Bytes × σ)} {results : Writes}

/-- What the socket took it keeps. -/
theorem requestLoop_keeps {fuel : Nat} : ∀ {s : Sent σ},
    s.accepted <+: (requestLoop reqWrite results fuel s).sent.accepted := by
  induction fuel with
  | zero =>
      intro s
      exact List.prefix_rfl
  | succ fuel ih =>
      intro s
      rw [requestLoop]
      cases reqWrite s.world with
      | error e => exact List.prefix_rfl
      | ok out =>
          obtain ⟨got, w⟩ := out
          cases got with
          | none => exact List.prefix_rfl
          | some d =>
              dsimp only
              split_ifs
              · exact List.prefix_rfl
              · exact (List.prefix_append s.accepted _).trans
                  (ih (s := { world := w, produced := s.produced ++ [d],
                              accepted := s.accepted ++ takes (results s.produced.length) d }))

/-- A buffer that is not empty reaches a socket that takes some of it. -/
theorem requestLoop_reaches {fuel : Nat} {s : Sent σ} {d : Bytes} {u : σ}
    (h : reqWrite s.world = .ok (some d, u)) (hd : d ≠ [])
    (htakes : ∃ k, results s.produced.length = some k ∧ 0 < k) :
    (requestLoop reqWrite results (fuel + 1) s).sent.accepted ≠ [] := by
  obtain ⟨k, hk, hpos⟩ := htakes
  have htook : takes (results s.produced.length) d ≠ [] := by
    rw [hk, takes]
    intro hnil
    rcases List.take_eq_nil_iff.mp hnil with hzero | hempty
    · omega
    · exact hd hempty
  have hmore : s.accepted ++ takes (results s.produced.length) d <+:
      (requestLoop reqWrite results (fuel + 1) s).sent.accepted := by
    rw [requestLoop, h]
    dsimp only
    rw [if_neg hd]
    exact requestLoop_keeps (s := { world := u, produced := s.produced ++ [d],
                                    accepted := s.accepted ++ takes _ d })
  intro hnil
  rw [hnil] at hmore
  exact htook (List.append_eq_nil_iff.mp (List.prefix_nil.mp hmore)).2

/-- A first call that brings nothing is the last. -/
theorem requestLoop_silent {fuel : Nat} {s : Sent σ}
    (h : ∀ d u, reqWrite s.world = .ok (some d, u) → d = []) :
    (requestLoop reqWrite results fuel s).sent.accepted = s.accepted := by
  cases fuel with
  | zero => rfl
  | succ fuel =>
      rw [requestLoop]
      cases hwrite : reqWrite s.world with
      | error e => rfl
      | ok out =>
          obtain ⟨got, w⟩ := out
          cases got with
          | none => rfl
          | some d =>
              dsimp only
              rw [if_pos (h d w hwrite)]

end Loop

/-- The first call of `req_write` brings a byte. -/
def FirstBrings (conn : HttpConnection) (w : MethodWorld) : Prop :=
  ∃ d u, methodReqWrite conn httpConnDataBufferSize w = .ok (some d, u) ∧ d ≠ []

/-- A request that is begun reaches the wire exactly if the first call brings a
    byte. -/
theorem begun_reaches {conn conn' : HttpConnection} {m : Method} {k fuel : Nat}
    {results : Writes} {w w' : MethodWorld} (hclb : conn.clb = paramSet m k)
    (hready : Ready (methodCallbacks conn.clb) conn httpConnDataBufferSize w conn' w')
    (hfuel : 0 < fuel) (htakes : ∃ k, results 0 = some k ∧ 0 < k) :
    ¬ sentNothing (httpRequest (methodCallbacks conn.clb) conn httpConnDataBufferSize results fuel
      w) ↔ FirstBrings conn' w' := by
  have hcb : methodCallbacks conn.clb = _ := (congrArg _ hclb).trans (methodCallbacks_paramSet m k)
  have hloop : httpInternalRequest (methodCallbacks conn.clb) conn' httpConnDataBufferSize results
      fuel w' = requestLoop (methodReqWrite conn' httpConnDataBufferSize) results fuel
        (.start w') :=
    internalRequest_eq (by rw [hcb]) hready.sockfd' hready.capacity
  obtain ⟨fuel, rfl⟩ : ∃ n, fuel = n + 1 := ⟨fuel - 1, by omega⟩
  rw [sentNothing, hready.send, hloop]
  constructor
  · intro h
    by_contra hnone
    refine h (fun send hsend => ?_)
    rw [← Option.some.inj hsend]
    refine requestLoop_silent (fun d u hwrite => ?_)
    by_contra hd
    exact hnone ⟨d, u, hwrite, hd⟩
  · rintro ⟨d, u, hwrite, hd⟩ h
    exact requestLoop_reaches (s := Sent.start w') hwrite hd htakes (h _ rfl)

/-- **WHICH COMMANDS REACH THE WIRE**: a GET, and a PUT whose file is open and has a
    size and a media type.  Nothing is ever sent of a PROPFIND or a DELETE. -/
theorem reaches_wire_iff (hsock : 2 < c.sockfd) (hfuel : 0 < x.fuel)
    (hfin : x.world.chunks.fin = 0) (htakes : ∃ k, x.results 0 = some k ∧ 0 < k) :
    (handle slot c x).accepted ≠ [] ↔
      c.method = .get ∨ (c.method = .put ∧ Drivers.PutSends x.world.file c.localDir) := by
  have hclb : (install slot c).clb = paramSet c.method c.worker := rfl
  rw [ne_eq, handle_accepted]
  by_cases hput : c.method = .put
  · rw [hput] at hclb
    have hbefore : callIf (methodCallbacks (install slot c).clb).beforeReq (install slot c)
        x.world = _ := Delivery.put_opens hclb x.world
    have hput' : c.method = .get ∨ (c.method = .put ∧ Drivers.PutSends x.world.file c.localDir) ↔
        Drivers.PutSends x.world.file c.localDir := by
      rw [hput]
      exact ⟨fun h => h.elim (fun h => by cases h) And.right, fun h => Or.inr ⟨rfl, h⟩⟩
    rw [hput']
    by_cases hfd : x.world.file.fd < 0
    · -- the file cannot be opened
      rw [if_pos hfd] at hbefore
      have hrefused : (httpRequest (methodCallbacks (install slot c).clb) (install slot c)
          httpConnDataBufferSize x.results x.fuel x.world).send = none :=
        request_refused (by decide) hbefore
      refine ⟨fun h => absurd ?_ h, fun hsends => absurd hsends.1 (by omega)⟩
      intro send hsend
      rw [hrefused] at hsend
      cases hsend
    · rw [if_neg hfd] at hbefore
      have hready : Ready (methodCallbacks (install slot c).clb) (install slot c)
          httpConnDataBufferSize x.world _ _ := ⟨hsock, by decide, hbefore, hsock⟩
      rw [begun_reaches hclb hready hfuel htakes]
      constructor
      · rintro ⟨d, u, hwrite, hd⟩
        rcases putWrite_cases (show ({ install slot c with filefd := x.world.file.fd } :
          HttpConnection).clb = paramSet .put c.worker from hclb) hwrite with
          ⟨-, -, hgot, -⟩ | ⟨-, hdue, -, -⟩ | ⟨hne, -, -⟩
        · cases hgot
        · exact ⟨hdue.filefd, hdue.size, hdue.mimeType⟩
        · exact absurd hfin hne
      · rintro ⟨hopen, hsize, mimeType, hmime⟩
        obtain ⟨size, hsome⟩ := Option.isSome_iff_exists.mp hsize
        exact ⟨_, _, putWrite_head (by rw [hclb]; rfl) hopen hfin hsome hmime,
          putHead_ne_nil _ _ size mimeType⟩
  · have hcb : methodCallbacks (install slot c).clb = _ :=
      (congrArg _ hclb).trans (methodCallbacks_paramSet c.method c.worker)
    have hbefore : callIf (methodCallbacks (install slot c).clb).beforeReq (install slot c)
        x.world = (0, install slot c, x.world) := by
      rw [hcb, callIf, methodBeforeReq, beforeReq, hclb, paramSet]
      cases hm : c.method with
      | put => exact absurd hm hput
      | get | propfind | delete => rfl
    have hready : Ready (methodCallbacks (install slot c).clb) (install slot c)
        httpConnDataBufferSize x.world (install slot c) x.world :=
      ⟨hsock, by decide, hbefore, hsock⟩
    rw [begun_reaches hclb hready hfuel htakes, FirstBrings]
    cases hm : c.method with
    | put => exact absurd hm hput
    | get =>
        rw [hm] at hclb
        refine ⟨fun _ => Or.inl rfl, fun _ => ?_⟩
        have hprint : printed .get (install slot c) x.world.chunks x.world.file =
            some (getHead (install slot c) x.world.chunks) := if_neg (not_not.mpr hfin)
        have hr : reqWrite (install slot c) httpConnDataBufferSize x.world.chunks x.world.file =
            .ok (httpGetRequestWrite (install slot c) x.world.chunks x.world.file) := by
          rw [reqWrite, hclb]
          rfl
        have hout := reqWrite_printed hclb hprint hr
        rw [if_pos (Or.inl rfl)] at hout
        have hwrite : methodReqWrite (install slot c) httpConnDataBufferSize x.world = _ :=
          getWrite_eq hclb x.world
        rw [hout] at hwrite
        exact ⟨_, _, hwrite, getHead_ne_nil _ _⟩
    | propfind | delete =>
        constructor
        · -- the head is left in the buffer
          rintro ⟨d, u, hwrite, hd⟩
          rw [hm] at hclb
          rw [methodReqWrite] at hwrite
          cases hr : reqWrite (install slot c) httpConnDataBufferSize x.world.chunks
              x.world.file with
          | error e =>
              rw [hr] at hwrite
              cases hwrite
          | ok r =>
              rw [hr] at hwrite
              have hout := reqWrite_printed hclb rfl hr
              rw [if_neg (by decide)] at hout
              have hgot : r.out = some d := (Prod.mk.inj (Except.ok.inj hwrite)).1
              exact absurd (Option.some.inj (hgot.symm.trans hout)) hd
        · rintro (h | ⟨h, -⟩) <;> cases h

end Reaches

/-- A DELETE: the socket would take everything, and is given nothing. -/
theorem reaches_wire_delete :
    (handle .zero { probe with sockfd := 5 }
      { sends [] .eof with results := fun _ => some 8184 }).accepted ≠ [] ↔
        Method.delete = .get ∨ (Method.delete = .put ∧
          Drivers.PutSends (sends [] .eof).world.file []) :=
  reaches_wire_iff (by decide) (by decide) rfl ⟨8184, rfl, by decide⟩

/-! ## What is asked for -/

open UrlWords UrlParts UrlWordsInverse

section Asks

variable {p : Parts} {str name : Bytes} {net : Net} {stack : Stack} {g g' : Globals}

/-- What is behind the scheme of a composed URL. -/
theorem sessionOf_url (hmark : p.scheme = none → ¬ lit "://" <:+: p.dir) :
    sessionOf p.url = some p.session := by
  rw [sessionOf]
  cases hscheme : p.scheme with
  | none =>
      have habsent : strstr (lit "://") p.url = none :=
        strstr_eq_none (by decide) (fun h => hmark hscheme ((p.mark_iff hscheme).mp h))
      rw [habsent, p.url_of_none hscheme]
  | some scheme =>
      have hshort : ¬ scheme.text.length > Url.schemeMax := Nat.not_lt.mpr scheme.short
      rw [p.scheme_some hscheme]
      dsimp only
      rw [if_neg hshort, p.drop_scheme hscheme]

/-- What a command was read to is what is behind the scheme of its second word. -/
theorem parsed_cur {url cur : Bytes} {rest : List Bytes} {text : ParsedCommand}
    (htokens : strtok str = name :: url :: rest) (hcur : sessionOf url = some cur)
    (h : parseCommand str = some text) : text.cur = cur := by
  rw [parseCommand, htokens] at h
  rcases rest with _ | ⟨file, _ | ⟨more, rest⟩⟩
  · obtain ⟨m, -, h⟩ := Option.bind_eq_some_iff.mp h
    rw [hcur] at h
    rw [← Option.some.inj h]
  · obtain ⟨m, -, h⟩ := Option.bind_eq_some_iff.mp h
    rw [hcur] at h
    rw [← Option.some.inj h]
  · cases h

/-- The slot with the host and the path of the URL. -/
def meant (p : Parts) (conn : HttpConnection) : HttpConnection :=
  { conn with domain := p.host.text, remoteDir := p.dir }

/-- **THE COMMAND ASKS FOR WHAT THE URL NAMES**: the connection goes to its host and
    its port, and whatever is printed for the slot, by whichever method, is what is
    printed for its host and its path. -/
structure AsksFor (p : Parts) (l : Locals) (conn : HttpConnection) : Prop where
  host : untilNul l.domain = some p.host.text
  port : l.port = p.portValue
  heads : ∀ m c f, printed m conn c f = printed m (meant p conn) c f

/-- The first line tells a path without blanks from one that is cut. -/
theorem deleteHead_inj {conn : HttpConnection} {path : Bytes} (hblank : (32 : Byte) ∉ path)
    (hpath : conn.remoteDir <+: path) {domain : Bytes}
    (h : deleteHead conn .zero = deleteHead { conn with domain := domain, remoteDir := path }
      .zero) : conn.remoteDir = path ∧ conn.domain = domain := by
  obtain ⟨rest, hrest⟩ := hpath
  have hnil : rest = [] := by
    cases rest with
    | nil => rfl
    | cons b rest =>
        rw [← hrest] at h
        simp only [deleteHead, requestLines, List.append_assoc, List.append_cancel_left_eq] at h
        have hb : (32 : Byte) = b := (List.cons.inj h).1
        refine absurd ?_ hblank
        rw [← hrest, ← hb]
        exact List.mem_append_right _ List.mem_cons_self
  rw [hnil, List.append_nil] at hrest
  refine ⟨hrest, ?_⟩
  rw [← hrest] at h
  simp only [deleteHead, requestLines, List.append_assoc, List.append_cancel_left_eq] at h
  exact List.append_cancel_right h

/-- No token has a blank. -/
theorem strtok_blank {str token : Bytes} (h : token ∈ strtok str) : (32 : Byte) ∉ token := by
  have hpiece : ∀ (xs : Bytes), ∀ l ∈ xs.splitOnP (· == 32), (32 : Byte) ∉ l := by
    intro xs
    induction xs with
    | nil =>
        rw [List.splitOnP_nil]
        intro l hl
        rw [List.mem_singleton.mp hl]
        exact List.not_mem_nil
    | cons x xs ih =>
        rw [List.splitOnP_cons_eq_if_modifyHead]
        intro l hl
        split_ifs at hl with hx
        · rcases List.mem_cons.mp hl with rfl | hl
          · exact List.not_mem_nil
          · exact ih l hl
        · -- the first piece has one more byte
          cases hpieces : xs.splitOnP (· == 32) with
          | nil => exact absurd hpieces (List.splitOnP_ne_nil _ _)
          | cons piece pieces =>
              rw [hpieces] at hl ih
              rcases List.mem_cons.mp hl with rfl | hl
              · rintro (_ | ⟨_, hmem⟩)
                · exact hx rfl
                · exact ih piece List.mem_cons_self hmem
              · exact ih l (List.mem_cons_of_mem _ hl)
  exact hpiece str token (List.mem_filter.mp h).1

/-- The host, the port and the path of the URL are read right: the path is no longer
    than what stands before it, to whose length it is cut; behind an account a port
    ends the host; and without one no at sign in the path is taken for the end of
    one, unless what follows names the host and the port once more, and no colon for
    that of a port. -/
structure ReadsRight (p : Parts) : Prop where
  path : p.dir.length ≤ p.authority.length
  port : p.account ≠ none → p.port ≠ none
  sign : p.account = none →
    ((64 : Byte) ∉ p.dir ∧ (p.port = none → (58 : Byte) ∉ p.dir)) ∨ Echoes p

theorem readsRight_iff (hpath : p.path ≠ none) :
    DomainRight p ∧ p.dir.length ≤ p.authority.length ↔ ReadsRight p := by
  cases haccount : p.account with
  | some a =>
      rw [domainRight_account haccount]
      constructor
      · rintro ⟨hport, hlen⟩
        exact ⟨hlen, fun _ hnone => hpath (hport hnone), fun h => (by rw [haccount] at h; cases h)⟩
      · intro h
        refine ⟨fun hnone => absurd hnone (h.port ?_), h.path⟩
        rw [haccount]
        exact Option.some_ne_none a
  | none =>
      have hfree : p.account ≠ none → p.port ≠ none := fun h => absurd haccount h
      by_cases hsign : (64 : Byte) ∈ p.dir
      · constructor
        · rintro ⟨hright, hlen⟩
          exact ⟨hlen, hfree, fun _ => Or.inr ((domainRight_echo haccount hsign hlen).mp hright)⟩
        · intro h
          refine ⟨(domainRight_echo haccount hsign h.path).mpr ?_, h.path⟩
          exact (h.sign haccount).resolve_left (fun hplain => hplain.1 hsign)
      · rw [domainRight_plain haccount hsign]
        constructor
        · rintro ⟨hright, hlen⟩
          exact ⟨hlen, hfree, fun _ => Or.inl ⟨hsign, hright⟩⟩
        · intro h
          refine ⟨?_, h.path⟩
          rcases h.sign haccount with hplain | ⟨front, rest, hdir, -⟩
          · exact hplain.2
          · -- an echo needs an at sign
            refine absurd ?_ hsign
            rw [hdir]
            exact List.mem_append_right _ List.mem_cons_self

/-- **A REQUEST ASKS FOR WHAT THE URL OF ITS COMMAND NAMES** exactly if the host, the
    port and the path are read right; the URL has a path, and if it has no scheme
    nothing in its path is taken for the end of one. -/
theorem asks_for_iff {rest : List Bytes} (htokens : strtok str = name :: p.url :: rest)
    (hpath : p.path ≠ none) (hmark : p.scheme = none → ¬ lit "://" <:+: p.dir)
    (h : interpreteSingleCommand net str stack g = .ok (0, g')) :
    ∃ i fd l, Fills net str stack g g' i fd l ∧
      (AsksFor p l (g'.connWorkspace i) ↔ ReadsRight p) := by
  obtain ⟨path, hsome⟩ := Option.ne_none_iff_exists'.mp hpath
  have hdir : p.dir = path.text := by rw [Parts.dir, hsome]
  rcases command_fills h with ⟨hcode, -⟩ | ⟨i, fd, l, hfills⟩
  · exact absurd rfl hcode
  · refine ⟨i, fd, l, hfills, ?_⟩
    rw [← readsRight_iff hpath]
    -- what the arrays hold
    have hread := hfills.read
    have hfits : Fits str := by
      by_contra hfits
      rw [readCommand_overruns hfits stack] at hread
      cases hread
    rw [readCommand_fits hfits stack] at hread
    obtain ⟨text, hparse, hl⟩ := Option.map_eq_some_iff.mp (Except.ok.inj hread)
    have hcur : text.cur = p.session := parsed_cur htokens (sessionOf_url hmark) hparse
    have hnul : (0 : Byte) ∉ behindAccount p.session :=
      fun hmem => p.session_nul ((behindAccount_suffix p.session).subset hmem)
    have hdomain : untilNul l.domain = some ((behindAccount p.session).take
        (domainLen p.authority.length (behindAccount p.session))) := by
      rw [← hl]
      show untilNul (domainAfter text.cur stack.domain) = _
      rw [hcur, domainAfter, hostLen, sessionLen_eq]
      exact untilNul_copied hnul
    have hremote : untilNul l.remoteDir = some (path.text.take p.authority.length) := by
      rw [← hl]
      show untilNul (dirAfter text.cur stack.remoteDir) = _
      have hlen : dirLen p.session = some p.authority.length := p.slash_some hsome
      have hrest : p.session.drop p.authority.length = path.text := by
        rw [Parts.session, List.drop_left, hdir]
      rw [hcur, dirAfter, hlen]
      dsimp only
      rw [hrest]
      exact untilNul_copied (fun hmem => p.dir_nul (by rw [hdir]; exact hmem))
    have hport : l.port = portOf (behindAccount p.session) := by
      rw [← hl, ← hcur]
      rfl
    -- what the slot holds
    obtain ⟨conn, clb, hfill, hupdate⟩ := hfills.filled
    obtain ⟨slot, hslot⟩ : ∃ slot, slot = g'.connWorkspace i := ⟨_, rfl⟩
    have hnames : slot.domain = (behindAccount p.session).take
          (domainLen p.authority.length (behindAccount p.session)) ∧
        slot.remoteDir = path.text.take p.authority.length := by
      rw [fillSlot, hdomain, hremote] at hfill
      rw [hslot, hupdate, Function.update_self]
      cases hlocal : untilNul l.localDir with
      | none =>
          rw [hlocal] at hfill
          cases hfill
      | some localDir =>
          rw [hlocal] at hfill
          rw [← Except.ok.inj hfill]
          exact ⟨rfl, rfl⟩
    rw [← hslot]
    constructor
    · intro hasks
      have hhost := Option.some.inj (hdomain.symm.trans hasks.host)
      have hblank : (32 : Byte) ∉ p.dir := by
        intro hmem
        have hurl : p.url ∈ strtok str := by
          rw [htokens]
          exact List.mem_cons_of_mem _ List.mem_cons_self
        refine strtok_blank hurl ?_
        rw [Parts.url, Parts.session]
        exact List.mem_append_right _ (List.mem_append_right _ hmem)
      have hpath : slot.remoteDir <+: p.dir := by
        rw [hnames.2, hdir]
        exact List.take_prefix _ _
      have hhead := Option.some.inj (hasks.heads .delete .zero RequestFraming.noFile)
      obtain ⟨hwhole, -⟩ := deleteHead_inj hblank hpath hhead
      refine ⟨⟨hhost, hport.symm.trans hasks.port⟩, ?_⟩
      rw [hnames.2, hdir] at hwhole
      rw [hdir]
      exact (List.take_eq_self_iff _).mp hwhole
    · rintro ⟨⟨hhost, hportRight⟩, hlen⟩
      refine ⟨hdomain.trans (congrArg some hhost), hport.trans hportRight, ?_⟩
      have hsame : meant p slot = slot := by
        rw [meant, ← hhost, ← hnames.1, hdir]
        rw [hdir] at hlen
        rw [← List.take_of_length_le hlen, ← hnames.2]
      intro m c f
      rw [hsame]

end Asks

/-- The URL `server/p`. -/
def longHost : Parts :=
  { scheme := none, account := none,
    host := { text := lit "server", colon := by decide, sign := by decide, slash := by decide,
              nul := by decide },
    port := none, path := some { rest := lit "p", nul := by decide } }

/-- A GET of `server/p` asks for it. -/
theorem asks_for_longHost :
    ∃ i fd l, Fills (netOf true) (lit "get server/p f") zeroStack .idle
      (entered (lit "get server/p f")) i fd l ∧
      (AsksFor longHost l ((entered (lit "get server/p f")).connWorkspace i) ↔
        ReadsRight longHost) := by
  have htokens : strtok (lit "get server/p f") = [lit "get", longHost.url, lit "f"] := by
    decide +kernel
  exact asks_for_iff htokens (by decide) (fun _ => by decide) (entered_ok (by decide +kernel))

end Wire
