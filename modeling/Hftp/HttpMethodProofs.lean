import Hftp.HttpResponseProofs

/-! # The methods

    `http_method.c`: what each method's callbacks do with a connection, and with
    the `chunks` of the worker that was given the command.  A callback a method
    leaves empty is not defined for it.

    The head of an upload names the size of the file and the media type of its
    extension; a file without a known extension takes the program down. -/

namespace HttpMethod

open CBytes HttpCore HttpResp MimeType

/-- `HFTP_APP_NAME` -/
def hftpAppName : Bytes := lit "hftp"

/-- `HFTP_APP_VERSION` -/
def hftpAppVersion : Bytes := lit "0.1a"

/-- `HTTP_RESPONSE_CODE(SUC_OK)` -/
def sucOk : Int := 200

/-- `union method_chunks`, as far as it is used: `req_write_once` of a GET and
    `req_header_write_fin` of a PUT are one word. -/
structure MethodChunks where
  close : Int
  fin : Int
  deriving DecidableEq, Repr

/-- `memset(&workspace->chunks, 0, sizeof(union method_chunks))` -/
def MethodChunks.zero : MethodChunks := { close := 0, fin := 0 }

/-- The file named by `local_dir`: what `open` returns, the size `fstat` tells,
    unless it fails, and what there is to read. -/
structure LocalFile where
  fd : Int
  size : Option Int
  reads : Sock
  deriving DecidableEq, Repr

/-- What `req_write` leaves behind: the bytes it put into the buffer, or nothing
    for a negative length. -/
structure ReqWrite where
  out : Option Bytes
  chunks : MethodChunks
  file : LocalFile
  deriving DecidableEq, Repr

/-! ## The heads -/

/-- `c->close? "close": "keep-alive"` -/
def connectionText (c : MethodChunks) : Bytes :=
  if c.close ≠ 0 then lit "close" else lit "keep-alive"

/-- `get_file_extension` -/
def getFileExtension (name : Bytes) : Option Bytes :=
  match strrchr 46 name with
  | none => none
  | some dot => if (strrchr 47 name).any (dot < ·) then none else some (name.drop (dot + 1))

/-- The lines all heads begin with. -/
def requestLines (name : Bytes) (conn : HttpConnection) : Bytes :=
  name ++ lit " " ++ conn.remoteDir ++ lit " HTTP/1.1\r\nHost: " ++ conn.domain ++
    lit "\r\nUser-Agent: " ++ hftpAppName ++ lit "/" ++ hftpAppVersion ++ crlf

/-- The head of a GET. -/
def getHead (conn : HttpConnection) (c : MethodChunks) : Bytes :=
  requestLines (lit "GET") conn ++ lit "Connection: " ++ connectionText c ++ crlf ++ crlf

/-- The head of a PUT of `size` bytes of a media type; the size is printed as an
    `int`. -/
def putHead (conn : HttpConnection) (c : MethodChunks) (size : Int) (mimeType : Bytes) : Bytes :=
  requestLines (lit "PUT") conn ++ lit "Accept: */*\r\nConnection: " ++ connectionText c ++
    lit "\r\nContent-Length: " ++ decimal (toInt size) ++ lit "\r\nContent-Type: " ++ mimeType ++
    crlf ++ crlf

/-- Both heads end in a blank line. -/
theorem getHead_ne_nil (conn : HttpConnection) (c : MethodChunks) : getHead conn c ≠ [] := by
  rw [getHead]
  exact List.append_ne_nil_of_right_ne_nil _ (by decide)

theorem putHead_ne_nil (conn : HttpConnection) (c : MethodChunks) (size : Int)
    (mimeType : Bytes) : putHead conn c size mimeType ≠ [] := by
  rw [putHead]
  exact List.append_ne_nil_of_right_ne_nil _ (by decide)

/-! ## Callbacks of the request -/

/-- `http_get_request_write` -/
def httpGetRequestWrite (conn : HttpConnection) (c : MethodChunks) (file : LocalFile) : ReqWrite :=
  if c.fin ≠ 0 then { out := some [], chunks := c, file := file }
  else { out := some (getHead conn c), chunks := { c with fin := 1 }, file := file }

/-- `http_put_request_write` -/
def httpPutRequestWrite (conn : HttpConnection) (capacity : Nat) (c : MethodChunks)
    (file : LocalFile) : Except Abort ReqWrite :=
  if conn.filefd ≤ 2 then .error .assertFailed
  else if c.fin = 0 then
    match file.size with
    | none => .ok { out := none, chunks := c, file := file }
    | some size =>
        match findMimeType (getFileExtension conn.localDir) with
        | .error e => .error e
        | .ok mimeType =>
            .ok { out := some (putHead conn c size mimeType), chunks := { c with fin := 1 },
                  file := file }
  else
    let (got, reads) := file.reads.read capacity
    .ok { out := got, chunks := c, file := { file with reads := reads } }

/-- `http_propfind_request_write` and `http_delete_request_write` print a head
    into the buffer and return 0. -/
def httpHeadOnlyWrite (c : MethodChunks) (file : LocalFile) : ReqWrite :=
  { out := some [], chunks := c, file := file }

/-- A call of `conn->clb.req_write`. -/
def reqWrite (conn : HttpConnection) (capacity : Nat) (c : MethodChunks) (file : LocalFile) :
    Except Abort ReqWrite :=
  match conn.clb.reqWrite with
  | none => .error .assertFailed
  | some .get => .ok (httpGetRequestWrite conn c file)
  | some .put => httpPutRequestWrite conn capacity c file
  | some .propfind | some .delete => .ok (httpHeadOnlyWrite c file)

/-- A call of `conn->clb.before_req`: the code, and the connection. -/
def beforeReq (conn : HttpConnection) (file : LocalFile) : Int × HttpConnection :=
  match conn.clb.beforeReq with
  | some .put => (if file.fd < 0 then 1 else 0, { conn with filefd := file.fd })
  | none | some .get | some .propfind | some .delete => (0, conn)

/-! ## Callbacks of the response -/

/-- `http_get_response_header`; `fd` is what `open` returns.  The flag is cleared
    in the `chunks` the callback was given. -/
def httpGetResponseHeader (conn : HttpConnection) (fd : Int) (c : MethodChunks) :
    HttpConnection × MethodChunks :=
  if conn.resp.code = sucOk then
    if fd < 0 then ({ conn with filefd := fd }, c)
    else ({ conn with filefd := fd }, { c with fin := 0 })
  else (conn, { c with fin := 0 })

/-- A call of `conn->clb.resp_header_func`. -/
def respHeaderFunc (conn : HttpConnection) (fd : Int) (c : MethodChunks) :
    HttpConnection × MethodChunks :=
  match conn.clb.respHeaderFunc with
  | some .get => httpGetResponseHeader conn fd c
  | none | some .put | some .propfind | some .delete => (conn, c)

/-- A call of `conn->clb.after_resp`, which always returns 0. -/
def afterResp (conn : HttpConnection) : HttpConnection :=
  match conn.clb.afterResp with
  | some .get => if conn.resp.code = sucOk then { conn with filefd := 0 } else conn
  | none | some .put | some .propfind | some .delete => conn

/-! ## Registration -/

/-- `http_get_param_set` and the like: every callback is the method's, and every
    parameter points to the `chunks` of the worker. -/
def paramSet (m : Method) (worker : Nat) : HttpCallback :=
  { beforeReq := some m, reqWrite := some m, afterReq := some m, beforeResp := some m,
    respHeaderFunc := some m, respBodyFunc := some m, afterResp := some m, param := some worker }

/-- What it does to the `chunks`: a DELETE clears those it knows of. -/
def paramSetChunks (m : Method) (c : MethodChunks) : MethodChunks :=
  match m with
  | .delete => { c with close := 0 }
  | .get | .put | .propfind => c

end HttpMethod
