import Hftp.CommandTextProofs
import Hftp.FileOwnerProofs
import Hftp.RequestFramingProofs

/-! # The two drivers

    `interprete_single_command` puts the words of a command into a slot and
    leaves the request to a worker; `http_conn_proc` connects, makes the request
    and waits for the response itself.  Both come down to the same callbacks, and
    these print what is in the connection.  `http_conn_proc` leaves `domain`,
    `remote_dir` and `local_dir` of it empty: the URL goes to `param_set`, which
    no longer takes it. -/

namespace Drivers

open CBytes HttpCore HttpResp HttpMethod MimeType HttpTransfer FileOwner RequestFraming
  Url CommandText
open SingleCommand (Net Stack Globals Fills strtok nameToMethod interpreteSingleCommand findSlot
  fillSlot readCommand command_fills)


/-! ## `http_conn_proc` -/

/-- The string that an array holds. -/
def arrayText (a : Bytes) : Except Abort Bytes :=
  match untilNul a with
  | some text => .ok text
  | none => .error .outOfBounds

/-- How it ended, with the exchange if it came to one. -/
structure ProcRun where
  stop : Except Abort Int
  exchange : Option OneRun

/-- The buffer of `process_method` has 4096 bytes. -/
def procCapacity : Nat := 4096

/-- `process_method`, with the host and the port of its address; `files` is what `open`
    makes of a path. -/
def processMethod (net : Net) (files : Bytes → LocalFile) (results : Writes) (fuel : Nat)
    (leftover : Bytes) (sock : Sock) (host : Bytes) (port : Nat) (conn : HttpConnection)
    (m : Method) : ProcRun :=
  match net.socket with
  | none => { stop := .ok 1, exchange := none }
  | some fd =>
      if net.connects host port = false then { stop := .ok 1, exchange := none }
      else
        -- the chunks are its own, and it passes the URL and the local path as well
        let conn := { conn with sockfd := fd, clb := paramSet m 0 }
        let one := httpOneReqResp conn procCapacity results fuel leftover sock
          (worldWith (files conn.localDir))
        { stop := one.stop, exchange := some one }

def httpConnProc (net : Net) (files : Bytes → LocalFile) (junk : Nat → Byte) (results : Writes)
    (fuel : Nat) (leftover : Bytes) (sock : Sock) (methodStr remoteUrl : Bytes) : ProcRun :=
  let conn := HttpConnection.zero
  match urlToData junk remoteUrl with
  | .error e => { stop := .error e, exchange := none }
  | .ok (_, dat) =>
      match dat.domain with
      | none => { stop := .error .assertFailed, exchange := none }
      | some block =>
          match arrayText block with
          | .error e => { stop := .error e, exchange := none }
          | .ok host =>
              if net.resolves host = false then { stop := .ok 1, exchange := none }
              else
                match nameToMethod methodStr with
                | none => { stop := .ok 1, exchange := none }
                | some m =>
                    -- htons takes the port as a number of 16 bits
                    let port := (dat.port % 2 ^ 16).toNat
                    processMethod net files results fuel leftover sock host port conn m

/-- The bytes that were given to `write`. -/
def sentBytes : Option (SendRun MethodWorld) → Bytes
  | none => []
  | some run => run.sent.produced.flatten

/-! ## What a command installs -/

/-- A local path as `strcpy` takes it from its token. -/
def localPath (token : Bytes) : Bytes := token.takeWhile (· ≠ 0)

/-- The connection of a slot once a worker has it: at once, or from the queue. -/
def given (conn : HttpConnection) (k : Nat) : HttpConnection :=
  { conn with clb := paramSet conn.method k }

/-- What was copied into an array is read back. -/
theorem untilNul_copied {d token : Bytes} : untilNul (store d 0 (token ++ [0])) =
    some (localPath token) := by
  have hfront : ∀ (xs rest : Bytes), untilNul (xs ++ 0 :: rest) = some (localPath xs) := by
    intro xs rest
    induction xs with
    | nil => rfl
    | cons x xs ih =>
        by_cases hx : x = 0
        · rw [hx]
          rfl
        · have hcons : localPath (x :: xs) = x :: localPath xs :=
            List.takeWhile_cons_of_pos (decide_eq_true hx)
          rw [List.cons_append, untilNul, if_neg hx, ih, hcons]
          rfl
  rw [store_zero, List.append_assoc]
  exact hfront token _

/-- **AN ACCEPTED COMMAND** of three words has a method, a name that was found, and the
    local path of its text. -/
theorem interprete_accepts {net : Net} {stack : Stack} {g g' : Globals} {str name url path : Bytes}
    {i : Nat} (htokens : strtok str = [name, url, path])
    (h : interpreteSingleCommand net str stack g = .ok (0, g')) (hslot : findSlot g = some i) :
    nameToMethod name = some (g'.connWorkspace i).method ∧
      (∃ fd, net.socket = some fd ∧ (g'.connWorkspace i).sockfd = fd) ∧
      net.resolves (g'.connWorkspace i).domain = true ∧
      (g'.connWorkspace i).localDir = localPath path := by
  rcases command_fills h with ⟨hcode, -⟩ | ⟨j, fd, l, hfills⟩
  · exact absurd rfl hcode
  obtain rfl : i = j := Option.some.inj (hslot.symm.trans hfills.slot)
  obtain ⟨conn, clb, hfill, hfilled⟩ := hfills.filled
  obtain ⟨hsocket, host, hhost, hresolves, -⟩ := hfills.dials
  have hfits : Fits str := by
    by_contra hnot
    cases (readCommand_overruns hnot stack).symm.trans hfills.read
  have hread := Except.ok.inj ((readCommand_fits hfits stack).symm.trans hfills.read)
  obtain ⟨text, htext, rfl⟩ := Option.map_eq_some_iff.mp hread
  rw [parseCommand, htokens] at htext
  obtain ⟨m, hname, htext⟩ := Option.bind_eq_some_iff.mp htext
  obtain ⟨cur, -, htext⟩ := Option.bind_eq_some_iff.mp htext
  obtain rfl := Option.some.inj htext
  have hlocal : untilNul (localAfter (some path) stack.localDir) = some (localPath path) :=
    untilNul_copied
  have hslot' : g'.connWorkspace i = { conn with clb := clb } := by
    rw [hfilled, Function.update_self]
  rw [hslot']
  rw [fillSlot, hhost] at hfill
  cases hremote : untilNul (dirAfter cur stack.remoteDir) with
  | none =>
      simp only [ParsedCommand.locals, hremote] at hfill
      cases hfill
  | some remoteDir =>
      simp only [ParsedCommand.locals, hremote, hlocal] at hfill
      obtain rfl := Except.ok.inj hfill
      exact ⟨hname, ⟨fd, hsocket, rfl⟩, hresolves, rfl⟩

/-- **AN EXCHANGE** of the other driver is that of an empty connection. -/
theorem connProc_exchange {net : Net} {files : Bytes → LocalFile} {junk : Nat → Byte}
    {results : Writes} {fuel : Nat} {leftover : Bytes} {sock : Sock} {name url : Bytes}
    {one : OneRun}
    (h : (httpConnProc net files junk results fuel leftover sock name url).exchange = some one) :
    ∃ m fd, nameToMethod name = some m ∧ net.socket = some fd ∧
      one = httpOneReqResp { HttpConnection.zero with sockfd := fd, clb := paramSet m 0 }
        procCapacity results fuel leftover sock (worldWith (files [])) := by
  rw [httpConnProc] at h
  split at h
  · cases h
  · split at h
    · cases h
    · split at h
      · cases h
      · split_ifs at h
        cases hname : nameToMethod name with
        | none =>
            rw [hname] at h
            cases h
        | some m =>
            rw [hname] at h
            dsimp only at h
            rw [processMethod] at h
            cases hsocket : net.socket with
            | none =>
                rw [hsocket] at h
                cases h
            | some fd =>
                rw [hsocket] at h
                dsimp only at h
                split_ifs at h
                exact ⟨m, fd, rfl, rfl, (Option.some.inj h).symm⟩

/-! ## What is sent -/

/-- A GET before whose request nothing happens. -/
theorem get_before {conn : HttpConnection} {k : Nat} (hclb : conn.clb = paramSet .get k)
    (w : MethodWorld) : callIf (methodCallbacks conn.clb).beforeReq conn w = (0, conn, w) := by
  have hcb : methodCallbacks conn.clb = _ := (congrArg _ hclb).trans (methodCallbacks_paramSet .get k)
  rw [hcb, callIf, methodBeforeReq, beforeReq, hclb]
  rfl

/-- **A GET SENDS ITS HEAD.** -/
theorem get_sends {conn : HttpConnection} {capacity k fuel : Nat} {results : Writes} {file : LocalFile}
    (hclb : conn.clb = paramSet .get k) (hsock : 2 < conn.sockfd) (hcap : 0 < capacity)
    (hfuel : 1 < fuel) :
    sentBytes (some (httpInternalRequest (methodCallbacks conn.clb) conn capacity results fuel
      (worldWith file))) = getHead conn .zero := by
  have hcb : methodCallbacks conn.clb = _ := (congrArg _ hclb).trans (methodCallbacks_paramSet .get k)
  have hwrite : (methodCallbacks conn.clb).reqWrite = some methodReqWrite := by rw [hcb]
  have hproduces : Produces (methodReqWrite conn capacity) (worldWith file) _ true _ :=
    get_produces hclb rfl
  rw [internalRequest_eq hwrite hsock hcap,
    requestLoop_produces (s := Sent.start (worldWith file)) hproduces hfuel]
  show [getHead conn .zero].flatten = getHead conn .zero
  rw [List.flatten_singleton]

/-- Two heads are the same only if target and host are as long together. -/
theorem getHead_length {conn conn' : HttpConnection} {c : MethodChunks}
    (h : getHead conn c = getHead conn' c) :
    conn.remoteDir.length + conn.domain.length = conn'.remoteDir.length + conn'.domain.length := by
  have hlen := congrArg List.length h
  simp only [getHead, requestLines, List.length_append] at hlen
  omega

/-- The upload comes to its head: the file is open, and its size and its media
    type are known. -/
def PutSends (file : LocalFile) (localDir : Bytes) : Prop :=
  2 < file.fd ∧ file.size.isSome = true ∧
    ∃ mimeType, findMimeType (getFileExtension localDir) = .ok mimeType

/-- Before its head an upload sends nothing. -/
theorem put_head_first {conn : HttpConnection} {capacity k fuel : Nat} {results : Writes}
    {w : MethodWorld} (hclb : conn.clb = paramSet .put k) (hsock : 2 < conn.sockfd)
    (hcap : 0 < capacity) (hfuel : 0 < fuel) (hfin : w.chunks.fin = 0)
    (hfd : conn.filefd = w.file.fd) :
    sentBytes (some (httpInternalRequest (methodCallbacks conn.clb) conn capacity results fuel w)) =
      [] ↔ ¬ PutSends w.file conn.localDir := by
  have hcb : methodCallbacks conn.clb = _ := (congrArg _ hclb).trans (methodCallbacks_paramSet .put k)
  have hwrite : (methodCallbacks conn.clb).reqWrite = some methodReqWrite := by rw [hcb]
  obtain ⟨fuel, rfl⟩ : ∃ n, fuel = n + 1 := ⟨fuel - 1, by omega⟩
  rw [internalRequest_eq hwrite hsock hcap, sentBytes]
  by_cases hsends : PutSends w.file conn.localDir
  · obtain ⟨hopen, hsize, mimeType, hmime⟩ := id hsends
    obtain ⟨size, hsome⟩ := Option.isSome_iff_exists.mp hsize
    have hhead : methodReqWrite conn capacity w = _ :=
      putWrite_head (by rw [hclb]; rfl) (by rw [hfd]; exact hopen) hfin hsome hmime
    have hne := putHead_ne_nil conn w.chunks size mimeType
    have hfirst : (Sent.start w).produced ++ [putHead conn w.chunks size mimeType] <+:
        (requestLoop (methodReqWrite conn capacity) results (fuel + 1)
          (Sent.start w)).sent.produced :=
      requestLoop_first hhead hne
    obtain ⟨rest, hrest⟩ := hfirst
    have hnothing : (Sent.start w).produced = [] := rfl
    rw [← hrest, hnothing, List.nil_append, List.singleton_append, List.flatten_cons]
    exact ⟨fun h => absurd (List.append_eq_nil_iff.mp h).1 hne, fun h => absurd hsends h⟩
  · -- the first call asserts, fails, or is given no media type
    have hnone : ∀ d u, methodReqWrite conn capacity (Sent.start w).world ≠ .ok (some d, u) := by
      intro d u h
      rcases putWrite_cases hclb h with ⟨-, -, hgot, -⟩ | ⟨-, hdue, -, -⟩ | ⟨hne, -, -⟩
      · cases hgot
      · exact hsends ⟨hfd ▸ hdue.filefd, hdue.size, hdue.mimeType⟩
      · exact hne hfin
    rw [requestLoop_none hnone]
    exact ⟨fun _ => hsends, fun _ => rfl⟩

/-- **A PUT SENDS NOTHING** unless it comes to its head. -/
theorem put_sends {conn : HttpConnection} {capacity k fuel : Nat} {results : Writes}
    {file : LocalFile} (hclb : conn.clb = paramSet .put k) (hsock : 2 < conn.sockfd)
    (hcap : 0 < capacity) (hfuel : 0 < fuel) :
    sentBytes (httpRequest (methodCallbacks conn.clb) conn capacity results fuel
      (worldWith file)).send = [] ↔ ¬ PutSends file conn.localDir := by
  have hbefore := put_before (w := worldWith file) hclb rfl
  by_cases hfd : file.fd < 0
  · rw [request_refused (by rw [if_pos (show (worldWith file).file.fd < 0 from hfd)]; decide) hbefore]
    refine ⟨fun _ hsends => ?_, fun _ => rfl⟩
    exact absurd hsends.1 (by omega)
  · rw [if_neg (show ¬ (worldWith file).file.fd < 0 from hfd)] at hbefore
    have hready : Ready (methodCallbacks conn.clb) conn capacity (worldWith file) _ _ :=
      ⟨hsock, hcap, hbefore, hsock⟩
    have hclb' : ({ conn with filefd := file.fd } : HttpConnection).clb = paramSet .put k := hclb
    rw [hready.send]
    exact put_head_first hclb' hsock hcap hfuel rfl rfl

/-! ## One request, two drivers -/

section SameRequest

variable {net : Net} {files : Bytes → LocalFile} {junk : Nat → Byte} {results results' : Writes}
  {fuel fuel' : Nat} {leftover : Bytes} {sock : Sock} {stack : Stack} {g g' : Globals}
  {capacity i k : Nat} {name url path str : Bytes} {conn : HttpConnection} {one : OneRun}
  {m : Method}

/-- **THE TWO DRIVERS SEND THE SAME REQUEST** only where neither sends anything: an
    upload whose file cannot be opened, or has no size or no media type. -/
theorem same_request_iff (hm : m = .get ∨ m = .put) (hname : nameToMethod name = some m)
    (htokens : strtok str = [name, url, path]) (hnobody : net.resolves [] = false)
    (hnopath : (files []).fd < 0) (hsock : ∀ fd, net.socket = some fd → 2 < fd)
    (hcap : 0 < capacity) (hfuel : 1 < fuel) (hfuel' : 1 < fuel')
    (hproc : (httpConnProc net files junk results fuel leftover sock name url).exchange = some one)
    (hcommand : interpreteSingleCommand net str stack g = .ok (0, g'))
    (hslot : findSlot g = some i) (hgiven : given (g'.connWorkspace i) k = conn) :
    sentBytes one.send =
        sentBytes (httpRequest (methodCallbacks conn.clb) conn capacity results' fuel'
          (worldWith (files conn.localDir))).send ↔
      m = .put ∧ ¬ PutSends (files (localPath path)) (localPath path) := by
  obtain ⟨m', fd, hname', hsocket, rfl⟩ := connProc_exchange hproc
  rw [hname] at hname'
  obtain rfl := Option.some.inj hname'
  obtain ⟨hmethod, ⟨fd', hsocket', hsockfd⟩, hresolves, hlocal⟩ :=
    interprete_accepts htokens hcommand hslot
  obtain rfl := Option.some.inj (hsocket.symm.trans hsocket')
  have hclb : conn.clb = paramSet m k := by
    rw [← hgiven, Option.some.inj (hname.symm.trans hmethod)]
    rfl
  have hopen : 2 < (fd : Int) := by
    have := hsock fd hsocket
    omega
  have hopen' : 2 < conn.sockfd := by
    rw [← hgiven]
    show 2 < (g'.connWorkspace i).sockfd
    rw [hsockfd]
    exact hopen
  have hdir : conn.localDir = localPath path := by
    rw [← hgiven]
    exact hlocal
  rw [← hdir]
  rcases hm with rfl | rfl
  · rw [one_send (by decide) (get_before rfl _), get_sends rfl hopen (by decide) hfuel]
    have hready : Ready (methodCallbacks conn.clb) conn capacity (worldWith (files conn.localDir))
        conn (worldWith (files conn.localDir)) := ⟨hopen', hcap, get_before hclb _, hopen'⟩
    rw [hready.send, get_sends hclb hopen' hcap hfuel']
    refine ⟨fun hsame => ?_, fun h => by cases h.1⟩
    -- the other head has neither a target nor a host
    have hlen : 0 + 0 = conn.remoteDir.length + conn.domain.length := getHead_length hsame
    have hdomain : (g'.connWorkspace i).domain = conn.domain := by
      rw [← hgiven]
      rfl
    have hnone : conn.domain = [] := List.length_eq_zero_iff.mp (by omega)
    rw [hdomain, hnone, hnobody] at hresolves
    cases hresolves
  · -- there is no file without a name
    have hbefore := put_before (show ({ HttpConnection.zero with
      sockfd := fd, clb := paramSet .put 0 } : HttpConnection).clb = paramSet .put 0 from rfl)
      (show (worldWith (files [])).fds = [] from rfl)
    rw [if_pos (show (worldWith (files [])).file.fd < 0 from hnopath)] at hbefore
    rw [one_refused (by decide) hbefore, ← put_sends hclb hopen' hcap (Nat.lt_of_succ_lt hfuel')]
    exact ⟨fun h => ⟨rfl, h.symm⟩, fun h => h.2.symm⟩

end SameRequest

/-- A network with one host. -/
def oneHost : Net :=
  { resolves := fun host => host = lit "h", socket := some 5, connects := fun _ _ => true,
    registers := true }

/-- A disk with no files. -/
def noFiles : Bytes → LocalFile := fun _ => noFile

/-- A server that takes everything and says nothing. -/
def silent : Sock := { segs := [], ending := .eof, taken := 0 }

/-- The exchange of the one driver. -/
def procOf (name : Bytes) : ProcRun :=
  httpConnProc oneHost noFiles (fun _ => 0) (fun _ => some 4096) 2 [] silent name (lit "http://h/p")

/-- The slot of the other. -/
def slotOf (m : Method) : HttpConnection :=
  { HttpConnection.zero with
    method := m, sockfd := 5, clb := paramSet m 0, domain := lit "h", remoteDir := lit "/",
    localDir := lit "f.txt" }

/-- The command fills the first slot. -/
def commandOf (name : Bytes) : Except Abort (Int × Globals) :=
  interpreteSingleCommand oneHost (name ++ lit " http://h/p f.txt") SingleCommand.zeroStack .idle

theorem commandOf_slot {name : Bytes} {m : Method}
    (h : (commandOf name).map (fun r => (r.1, r.2.connWorkspace 0)) = .ok (0, slotOf m)) :
    ∃ g', commandOf name = .ok (0, g') ∧ given (g'.connWorkspace 0) 0 = slotOf m := by
  cases hrun : commandOf name with
  | error e =>
      rw [hrun] at h
      cases h
  | ok r =>
      rw [hrun] at h
      obtain ⟨hcode, hconn⟩ := Prod.mk.inj (Except.ok.inj h)
      refine ⟨r.2, congrArg Except.ok (Prod.ext hcode rfl), ?_⟩
      rw [hconn]
      rfl

theorem same_request_noFile :
    ∃ one, (procOf (lit "put")).exchange = some one ∧
      sentBytes one.send = sentBytes (httpRequest (methodCallbacks (slotOf .put).clb) (slotOf .put)
        8184 (fun _ => some 8184) 2 (worldWith (noFiles (slotOf .put).localDir))).send := by
  have hproc : (procOf (lit "put")).exchange.isSome = true := by decide +kernel
  obtain ⟨one, hone⟩ := Option.isSome_iff_exists.mp hproc
  obtain ⟨g', hcommand, hgiven⟩ : ∃ g', commandOf (lit "put") = .ok (0, g') ∧
      given (g'.connWorkspace 0) 0 = slotOf .put := commandOf_slot (by decide +kernel)
  have htokens : strtok (lit "put http://h/p f.txt") =
      [lit "put", lit "http://h/p", lit "f.txt"] := by
    decide +kernel
  have hopen : ∀ fd, oneHost.socket = some fd → 2 < fd := by
    rintro fd ⟨⟩
    decide
  refine ⟨one, hone, ?_⟩
  refine (same_request_iff (Or.inr rfl) (by decide) htokens (by decide) (by decide)
    hopen (by decide) (by decide) (by decide) hone hcommand (by decide +kernel) hgiven).mpr
    ⟨rfl, fun hsends => ?_⟩
  exact absurd hsends.1 (by decide)

/-- `get http://h/p f.txt`: the one driver asks for nothing at no host. -/
theorem get_notSame :
    ∃ one g', (procOf (lit "get")).exchange = some one ∧
      commandOf (lit "get") = .ok (0, g') ∧ given (g'.connWorkspace 0) 0 = slotOf .get ∧
      sentBytes one.send ≠ sentBytes (httpRequest (methodCallbacks (slotOf .get).clb) (slotOf .get)
        8184 (fun _ => some 8184) 2 (worldWith (noFiles (slotOf .get).localDir))).send := by
  have hsent : (procOf (lit "get")).exchange.map (fun one => sentBytes one.send) =
      some (getHead .zero .zero) := by
    decide +kernel
  obtain ⟨one, hone, hbytes⟩ := Option.map_eq_some_iff.mp hsent
  obtain ⟨g', hcommand, hgiven⟩ : ∃ g', commandOf (lit "get") = .ok (0, g') ∧
      given (g'.connWorkspace 0) 0 = slotOf .get := commandOf_slot (by decide +kernel)
  refine ⟨one, g', hone, hcommand, hgiven, ?_⟩
  rw [hbytes]
  decide +kernel

end Drivers
