import Hftp.HttpTransferProofs

/-! # Requests on the wire

    What the server gets of a request.  The loop does not look at what `write`
    returns, so the buffers arrive as they were produced only if every `write`
    takes all of its buffer.  The head of an upload prints the size of the file
    as an `int`, so the length it declares is that of the body only for sizes an
    `int` can hold. -/

namespace RequestFraming

open CBytes HttpCore HttpResp HttpMethod MimeType HttpTransfer

/-! ## Every byte in its place -/

section Intact

variable {σ : Type} {cb : ReqCallbacks σ} {conn conn' : HttpConnection} {capacity : Nat}
  {results : Writes} {fuel : Nat} {w w' u : σ}

/-- A request that was written arrived as it was produced; any other failed, and
    the connection is given up. -/
def Intact (cb : ReqCallbacks σ) (conn : HttpConnection) (capacity : Nat) (results : Writes)
    (fuel : Nat) (w : σ) : Prop :=
  ∃ run, (httpRequest cb conn capacity results fuel w).send = some run ∧
    ((run.stop = .ok 0 ∧ run.sent.accepted = run.sent.produced.flatten) ∨
      (run.stop = .ok 1 ∧ (httpRequest cb conn capacity results fuel w).stop = .ok 1 ∧
        (httpRequest cb conn capacity results fuel w).conn.state = -1 ∧
        (httpRequest cb conn capacity results fuel w).conn.sockfd = 0))

/-- **REQUEST BYTES ARE NEITHER LOST NOR REORDERED** exactly if `req_write` fails
    in the end, or every `write` takes its whole buffer. -/
theorem intact_iff {reqWrite : HttpConnection → Nat → σ → Except Abort (Option Bytes × σ)}
    {bufs : List Bytes} {ok : Bool} (hready : Ready cb conn capacity w conn' w')
    (hwrite : cb.reqWrite = some reqWrite)
    (hproduces : Produces (reqWrite conn' capacity) w' bufs ok u) (hfuel : bufs.length < fuel) :
    Intact cb conn capacity results fuel w ↔
      (ok = true → ∀ i d, bufs[i]? = some d → Whole (results i) d) := by
  have hloop : httpInternalRequest cb conn' capacity results fuel w' =
      { stop := .ok (if ok then 0 else 1),
        sent := { world := u, produced := bufs, accepted := acceptedOf results 0 bufs } } := by
    rw [internalRequest_eq hwrite hready.sockfd' hready.capacity]
    exact requestLoop_produces (s := Sent.start w') hproduces hfuel
  have hwhole : acceptedOf results 0 bufs = bufs.flatten ↔
      ∀ i d, bufs[i]? = some d → Whole (results i) d := by
    rw [acceptedOf_eq_iff hproduces.ne_nil]
    simp only [Nat.zero_add]
  rw [Intact, hready.send, hloop]
  cases ok with
  | true =>
      constructor
      · rintro ⟨run, hrun, hend⟩
        obtain rfl := Option.some.inj hrun
        rcases hend with ⟨-, haccepted⟩ | ⟨hstop, -⟩
        · exact fun _ => hwhole.mp haccepted
        · exact absurd (Except.ok.inj hstop) (by decide)
      · intro h
        exact ⟨_, rfl, Or.inl ⟨rfl, hwhole.mpr (h rfl)⟩⟩
  | false =>
      refine ⟨fun _ h => (by cases h), fun _ => ⟨_, rfl, Or.inr ⟨rfl, ?_⟩⟩⟩
      have hstop : (httpInternalRequest cb conn' capacity results fuel w').stop = .ok 1 := by
        rw [hloop]
        rfl
      rw [hready.fails (by decide) hstop]
      exact ⟨rfl, rfl, rfl⟩

end Intact

/-- **A GET** puts its head into the buffer, and then nothing. -/
theorem get_produces {conn : HttpConnection} {capacity k : Nat} {w : MethodWorld}
    (hclb : conn.clb = paramSet .get k) (hfin : w.chunks.fin = 0) :
    Produces (methodReqWrite conn capacity) w [getHead conn w.chunks] true
      { w with chunks := { w.chunks with fin := 1 } } := by
  have hfirst : methodReqWrite conn capacity w =
      .ok (some (getHead conn w.chunks), { w with chunks := { w.chunks with fin := 1 } }) := by
    rw [methodReqWrite, reqWrite, hclb]
    dsimp only [paramSet]
    rw [httpGetRequestWrite, if_neg (not_not.mpr hfin)]
  have hsecond : methodReqWrite conn capacity { w with chunks := { w.chunks with fin := 1 } } =
      .ok (some [], { w with chunks := { w.chunks with fin := 1 } }) := by
    rw [methodReqWrite, reqWrite, hclb]
    dsimp only [paramSet]
    rw [httpGetRequestWrite, if_pos (show (1 : Int) ≠ 0 by decide)]
  exact .cons hfirst (getHead_ne_nil conn w.chunks) (.stops hsecond)

/-- A connection for a method, its callbacks set to the first worker. -/
def connFor (m : Method) (domain remoteDir localDir : Bytes) : HttpConnection :=
  { HttpConnection.fresh 5 (paramSet m 0) with
    method := m, domain := domain, remoteDir := remoteDir, localDir := localDir }

/-- Nothing was done yet, and this is the local file. -/
def worldWith (file : LocalFile) : MethodWorld :=
  { chunks := .zero, file := file, fds := [], saved := [] }

/-- `get h/p` -/
def getConn : HttpConnection := connFor .get (lit "h") (lit "/p") (lit "f.txt")

def noFile : LocalFile :=
  { fd := -1, size := none, reads := { segs := [], ending := .eof, taken := 0 } }

theorem getConn_ready :
    Ready (methodCallbacks getConn.clb) getConn 8184 (worldWith noFile) getConn (worldWith noFile) :=
  ⟨by decide, by decide, rfl, by decide⟩

theorem getConn_produces :
    Produces (methodReqWrite getConn 8184) (worldWith noFile) [getHead getConn .zero] true
      { worldWith noFile with chunks := { close := 0, fin := 1 } } :=
  get_produces rfl rfl

/-- The head of a GET that is taken as a whole. -/
theorem intact_get :
    Intact (methodCallbacks getConn.clb) getConn 8184 (fun _ => some 8184) 2 (worldWith noFile) := by
  refine (intact_iff getConn_ready rfl getConn_produces (by decide)).mpr (fun _ i d hd => ?_)
  cases i with
  | zero =>
      obtain rfl := Option.some.inj hd
      exact ⟨8184, rfl, by decide⟩
  | succ i => cases hd

/-- The first `write` fails, and the request counts as written. -/
theorem failedWrite_not_intact :
    ¬ Intact (methodCallbacks getConn.clb) getConn 8184 (fun _ => none) 2 (worldWith noFile) := by
  rintro ⟨run, hrun, hend⟩
  rw [getConn_ready.send, internalRequest_eq rfl (by decide) (by decide),
    requestLoop_produces (s := Sent.start (worldWith noFile)) getConn_produces (by decide)] at hrun
  obtain rfl := Option.some.inj hrun
  rcases hend with ⟨-, haccepted⟩ | ⟨hstop, -⟩
  · exact absurd haccepted (by decide)
  · exact absurd (Except.ok.inj hstop) (by decide)

/-! ## The head of an upload

    A head is a start line and fields, a line each, and an empty line. -/

def headText (start : Bytes) (fields : List (Bytes × Bytes)) : Bytes :=
  start ++ crlf ++ (fields.map fun f => f.1 ++ lit ": " ++ f.2 ++ crlf).flatten ++ crlf

/-- The fields of the head of an upload, with a value for the length. -/
def putFields (conn : HttpConnection) (c : MethodChunks) (mimeType length : Bytes) :
    List (Bytes × Bytes) :=
  [(lit "Host", conn.domain), (lit "User-Agent", hftpAppName ++ lit "/" ++ hftpAppVersion),
    (lit "Accept", lit "*/*"), (lit "Connection", connectionText c),
    (lit "Content-Length", length), (lit "Content-Type", mimeType)]

/-- One head whose `Content-Length` is that of the content, and the content. -/
def Framed (conn : HttpConnection) (c : MethodChunks) (mimeType content : Bytes) (out : Bytes) :
    Prop :=
  ∃ length, readDecimal length = some content.length ∧
    out = headText (lit "PUT " ++ conn.remoteDir ++ lit " HTTP/1.1")
      (putFields conn c mimeType length) ++ content

/-- What is printed has this form. -/
theorem putHead_eq (conn : HttpConnection) (c : MethodChunks) (size : Int) (mimeType : Bytes) :
    putHead conn c size mimeType =
      headText (lit "PUT " ++ conn.remoteDir ++ lit " HTTP/1.1")
        (putFields conn c mimeType (decimal (toInt size))) := by
  simp [putHead, requestLines, headText, putFields, lit, crlf, cr, lf]

/-- The length is the only thing in the head that the head leaves open. -/
theorem headText_inj {conn : HttpConnection} {c : MethodChunks}
    {mimeType start length length' : Bytes}
    (h : headText start (putFields conn c mimeType length) =
      headText start (putFields conn c mimeType length')) :
    length = length' := by
  simp only [headText, putFields, List.map_cons, List.map_nil, List.flatten_cons, List.flatten_nil,
    List.append_assoc, List.append_cancel_left_eq] at h
  exact List.append_cancel_right h

/-! ## The body of an upload -/

section Put

variable {conn : HttpConnection} {capacity : Nat}

/-- A call that reads. -/
theorem putWrite_read {w : MethodWorld} (hclb : conn.clb.reqWrite = some .put)
    (hfd : 2 < conn.filefd) (hfin : w.chunks.fin ≠ 0) :
    methodReqWrite conn capacity w =
      .ok ((w.file.reads.read capacity).1,
        { w with file := { w.file with reads := (w.file.reads.read capacity).2 } }) := by
  rw [methodReqWrite, reqWrite, hclb]
  dsimp only
  rw [httpPutRequestWrite, if_neg (Int.not_le.mpr hfd), if_neg hfin]

/-- A `read` takes the first bytes that are there. -/
theorem read_split {sock : Sock} {n : Nat} (hn : n ≠ 0) (hsome : sock.segs ≠ [])
    (hsegs : ∀ e ∈ sock.segs, e ≠ []) :
    ∃ got left, sock.read n =
        (some got, { sock with segs := left, taken := sock.taken + got.length }) ∧
      got ≠ [] ∧ (∀ e ∈ left, e ≠ []) ∧ got ++ left.flatten = sock.segs.flatten := by
  cases hcons : sock.segs with
  | nil => exact absurd hcons hsome
  | cons d ds =>
      rw [hcons] at hsegs
      have hd : d ≠ [] := hsegs d List.mem_cons_self
      have hds : ∀ e ∈ ds, e ≠ [] := fun e he => hsegs e (List.mem_cons_of_mem d he)
      have hpos : 0 < d.length := List.length_pos_iff.mpr hd
      refine ⟨d.take n, if d.length ≤ n then ds else d.drop n :: ds, ?_, ?_, ?_, ?_⟩
      · rw [Sock.read, if_neg hn, hcons]
      · intro h
        have hzero := congrArg List.length h
        rw [List.length_take, List.length_nil] at hzero
        omega
      · split_ifs with hfits
        · exact hds
        · intro e he
          rcases List.mem_cons.mp he with rfl | hmem
          · intro h
            have hzero := congrArg List.length h
            rw [List.length_drop, List.length_nil] at hzero
            omega
          · exact hds e hmem
      · split_ifs with hfits
        · rw [List.take_of_length_le hfits, List.flatten_cons]
        · rw [List.flatten_cons, List.flatten_cons, ← List.append_assoc, List.take_append_drop]

/-- **HOWEVER `read` SPLITS THE FILE**, the calls that follow the head put its
    bytes into the buffer, in order. -/
theorem reads_produce (hclb : conn.clb.reqWrite = some .put) (hfd : 2 < conn.filefd)
    (hcap : 0 < capacity) {n : Nat} :
    ∀ {w : MethodWorld}, w.chunks.fin ≠ 0 → w.file.reads.ending = .eof →
      (∀ d ∈ w.file.reads.segs, d ≠ []) → w.file.reads.segs.flatten.length = n →
      ∃ bufs u, Produces (methodReqWrite conn capacity) w bufs true u ∧
        bufs.flatten = w.file.reads.segs.flatten := by
  induction n using Nat.strong_induction_on with
  | _ n ih =>
      intro w hfin hend hsegs hlen
      have hcall : methodReqWrite conn capacity w = _ := putWrite_read hclb hfd hfin
      have hcap' : capacity ≠ 0 := Nat.pos_iff_ne_zero.mp hcap
      by_cases hnil : w.file.reads.segs = []
      · have hread : w.file.reads.read capacity = (some [], w.file.reads) := by
          rw [Sock.read, if_neg hcap', hnil, hend]
        rw [hread] at hcall
        exact ⟨[], _, .stops hcall, by rw [hnil]⟩
      · obtain ⟨got, left, hread, hgot, hleft, hflat⟩ := read_split hcap' hnil hsegs
        rw [hread] at hcall
        have hpos : 0 < got.length := List.length_pos_iff.mpr hgot
        have hfewer : left.flatten.length < n := by
          rw [← hlen, ← hflat, List.length_append]
          omega
        obtain ⟨bufs, u, hproduces, hrest⟩ := ih left.flatten.length hfewer
          (w := { w with file := { w.file with
            reads := { w.file.reads with
              segs := left, taken := w.file.reads.taken + got.length } } })
          hfin hend hleft rfl
        refine ⟨got :: bufs, u, .cons hcall hgot hproduces, ?_⟩
        rw [List.flatten_cons, hrest, ← hflat]

/-- A call that prints the head. -/
theorem putWrite_head {w : MethodWorld} {size : Int} {mimeType : Bytes}
    (hclb : conn.clb.reqWrite = some .put) (hfd : 2 < conn.filefd) (hfin : w.chunks.fin = 0)
    (hsize : w.file.size = some size)
    (hmime : findMimeType (getFileExtension conn.localDir) = .ok mimeType) :
    methodReqWrite conn capacity w =
      .ok (some (putHead conn w.chunks size mimeType),
        { w with chunks := { w.chunks with fin := 1 } }) := by
  rw [methodReqWrite, reqWrite, hclb]
  dsimp only
  rw [httpPutRequestWrite, if_neg (Int.not_le.mpr hfd), if_pos hfin, hsize, hmime]

/-- A local file that does not change: what `fstat` says is what `read` gives,
    in whatever pieces. -/
structure Holds (file : LocalFile) (content : Bytes) : Prop where
  size : file.size = some (content.length : Int)
  ending : file.reads.ending = .eof
  segs : ∀ d ∈ file.reads.segs, d ≠ []
  content : file.reads.segs.flatten = content

/-- What the calls put into the buffer, until one puts nothing. -/
theorem put_produces {w : MethodWorld} {content mimeType : Bytes}
    (hclb : conn.clb.reqWrite = some .put) (hfd : 2 < conn.filefd) (hcap : 0 < capacity)
    (hfin : w.chunks.fin = 0)
    (hmime : findMimeType (getFileExtension conn.localDir) = .ok mimeType)
    (hfile : Holds w.file content) :
    ∃ bufs u, Produces (methodReqWrite conn capacity) w bufs true u ∧
      bufs.flatten = headText (lit "PUT " ++ conn.remoteDir ++ lit " HTTP/1.1")
        (putFields conn w.chunks mimeType (decimal (toInt content.length))) ++ content := by
  have hhead : methodReqWrite conn capacity w = _ :=
    putWrite_head hclb hfd hfin hfile.size hmime
  have hwritten : ({ w.chunks with fin := 1 } : MethodChunks).fin ≠ 0 := by
    show (1 : Int) ≠ 0
    decide
  have hreads : ∃ rest u, Produces (methodReqWrite conn capacity)
      { w with chunks := { w.chunks with fin := 1 } } rest true u ∧
      rest.flatten = w.file.reads.segs.flatten :=
    reads_produce hclb hfd hcap hwritten hfile.ending hfile.segs rfl
  obtain ⟨rest, u, hrest, hflat⟩ := hreads
  have hne := putHead_ne_nil conn w.chunks content.length mimeType
  refine ⟨_, u, .cons hhead hne hrest, ?_⟩
  rw [List.flatten_cons, hflat, putHead_eq]
  rw [hfile.content]

/-- The length in the head is all that can be wrong with it. -/
theorem framed_unique {w u : MethodWorld} {content mimeType : Bytes} {bufs : List Bytes}
    (hproduces : Produces (methodReqWrite conn capacity) w bufs true u)
    (hbytes : bufs.flatten = headText (lit "PUT " ++ conn.remoteDir ++ lit " HTTP/1.1")
      (putFields conn w.chunks mimeType (decimal (toInt content.length))) ++ content) :
    (∃ bufs u, Produces (methodReqWrite conn capacity) w bufs true u ∧
        Framed conn w.chunks mimeType content bufs.flatten) ↔
      content.length < 2 ^ 31 := by
  rw [← toInt_natCast_iff, ← readDecimal_decimal]
  constructor
  · rintro ⟨bufs', u', hproduces', length, hlength, hout⟩
    obtain ⟨rfl, -, -⟩ := hproduces.unique hproduces'
    rw [hbytes] at hout
    rw [headText_inj (List.append_cancel_right hout)]
    exact hlength
  · intro hread
    exact ⟨bufs, u, hproduces, _, hread, hbytes⟩

/-- **A PUT MESSAGE IS CORRECTLY FRAMED** exactly if an `int` can hold the size of
    the file. -/
theorem put_framed_iff {w : MethodWorld} {content mimeType : Bytes}
    (hclb : conn.clb.reqWrite = some .put) (hfd : 2 < conn.filefd) (hcap : 0 < capacity)
    (hfin : w.chunks.fin = 0)
    (hmime : findMimeType (getFileExtension conn.localDir) = .ok mimeType)
    (hfile : Holds w.file content) :
    (∃ bufs u, Produces (methodReqWrite conn capacity) w bufs true u ∧
        Framed conn w.chunks mimeType content bufs.flatten) ↔
      content.length < 2 ^ 31 := by
  obtain ⟨bufs, u, hproduces, hbytes⟩ := put_produces hclb hfd hcap hfin hmime hfile
  exact framed_unique hproduces hbytes

end Put

/-- `put h/p f.txt`, the file open. -/
def putConn : HttpConnection := { connFor .put (lit "h") (lit "/p") (lit "f.txt") with filefd := 7 }

/-- A file with the content in one piece. -/
def fileOf (content : Bytes) : LocalFile :=
  { fd := 7, size := some content.length, reads := { segs := [content], ending := .eof, taken := 0 } }

theorem fileOf_holds {content : Bytes} (h : content ≠ []) : Holds (fileOf content) content := by
  refine ⟨rfl, rfl, fun d hd => ?_, ?_⟩
  · rw [List.mem_singleton.mp hd]
    exact h
  · rw [fileOf, List.flatten_singleton]

theorem putConn_type :
    findMimeType (getFileExtension putConn.localDir) = .ok (lit "text/plain") := by
  decide +kernel

/-- Ten bytes that come in two reads. -/
theorem put_framed_tenBytes :
    ∃ bufs u,
      Produces (methodReqWrite putConn 8184) (worldWith (fileOf (lit "0123456789"))) bufs true u ∧
      Framed putConn .zero (lit "text/plain") (lit "0123456789") bufs.flatten :=
  (put_framed_iff rfl (by decide) (by decide) rfl putConn_type (fileOf_holds (by decide))).mpr
    (by decide)

/-- Two gibibytes of zeros. -/
def twoGib : Bytes := List.replicate (2 ^ 31) 0

theorem twoGib_length : twoGib.length = 2 ^ 31 := List.length_replicate

theorem twoGib_ne_nil : twoGib ≠ [] := by
  intro h
  have hlen := twoGib_length
  rw [h] at hlen
  cases hlen

/-- The head declares -2147483648 bytes. -/
theorem twoGib_not_framed :
    Holds (worldWith (fileOf twoGib)).file twoGib ∧
      ¬ ∃ bufs u, Produces (methodReqWrite putConn 8184) (worldWith (fileOf twoGib)) bufs true u ∧
        Framed putConn .zero (lit "text/plain") twoGib bufs.flatten := by
  have hholds := fileOf_holds twoGib_ne_nil
  refine ⟨hholds, fun hframed => ?_⟩
  have hput : ∃ bufs u,
      Produces (methodReqWrite putConn 8184) (worldWith (fileOf twoGib)) bufs true u ∧ _ :=
    put_produces rfl (by decide) (by decide) rfl putConn_type hholds
  obtain ⟨bufs, u, hproduces, hbytes⟩ := hput
  have hlen := (framed_unique hproduces hbytes).mp hframed
  rw [twoGib_length] at hlen
  exact absurd hlen (Nat.lt_irrefl _)

end RequestFraming
