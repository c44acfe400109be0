import Hftp.CBytesProofs

/-! # The records of a connection

    `http_core.h`: what is kept of a response, where the parser of a response
    stands, which callbacks a method has registered, and the connection slot
    that holds all three.  Enumerations are inductive types; an `int` that is
    counted or compared is an `Int`; an index into a buffer is a `Nat`.

    Fields no function reads (`charset`, `progress`) are left out. -/

namespace HttpCore

open CBytes

/-- Why a function of the program does not come back: the next thing the C
    code does is undefined, fails an assertion, or goes on for ever. -/
inductive Abort where
  | nullDeref
  | outOfBounds
  | assertFailed
  | diverges
  deriving DecidableEq, Repr

inductive TransferEncoding where
  | teNone
  | teChunked
  | teNotSupported
  deriving DecidableEq, Repr

inductive AcceptRange where
  | arBytes
  | arNotSupported
  deriving DecidableEq, Repr

/-- `RESPONSE_CODE_DESC_MAX`. -/
def responseCodeDescMax : Nat := 63

/-- `HTTP_CONN_DATA_BUFFER_SIZE` -/
def httpConnDataBufferSize : Nat := 8184

/-- `struct http_response`. -/
structure HttpResponse where
  versionMajor : Int
  versionMinor : Int
  code : Int
  desc : Bytes
  /-- close = 0, keep-alive = 1 -/
  connection : Int
  contentTypeIndex : Int
  contentLength : Int
  transferEncoding : TransferEncoding
  acceptRange : AcceptRange
  deriving DecidableEq, Repr

/-- `enum http_response_parse_state`. -/
inductive ParseState where
  | hrFirstLine
  | hrHeaderLine
  | hrBody
  | hrEnd
  deriving DecidableEq, Repr

/-- `state < HR_BODY`. -/
def ParseState.beforeBody : ParseState → Bool
  | .hrFirstLine | .hrHeaderLine => true
  | .hrBody | .hrEnd => false

/-- The resume points that `chunk_terminate_state` numbers 0 to 3. -/
inductive ChunkState where
  | sizeByte
  | separatorMid
  | chunk
  | separatorEnd
  deriving DecidableEq, Repr

/-- `struct http_response_context`. -/
structure HttpResponseContext where
  state : ParseState
  remainDataIndex : Nat
  remainDataLen : Nat
  chunkSize : Int
  chunkTerminateState : ChunkState
  chunkStateRemainByte : Int
  /-- `char chunk_size_str[5]` -/
  chunkSizeStr : Bytes
  deriving DecidableEq, Repr

/-- The methods in the order of `g_param_set_func_arr`. -/
inductive Method where
  | get
  | put
  | propfind
  | delete
  deriving DecidableEq, Repr

/-- `struct http_callback`: which method's function each pointer names
    (nothing for `NULL`), and the worker whose `chunks` all the parameters
    point to. -/
structure HttpCallback where
  beforeReq : Option Method
  reqWrite : Option Method
  afterReq : Option Method
  beforeResp : Option Method
  respHeaderFunc : Option Method
  respBodyFunc : Option Method
  afterResp : Option Method
  param : Option Nat
  deriving DecidableEq, Repr

/-- `struct http_connection`. -/
structure HttpConnection where
  method : Method
  state : Int
  sockfd : Int
  filefd : Int
  resp : HttpResponse
  ctx : HttpResponseContext
  clb : HttpCallback
  domain : Bytes
  remoteDir : Bytes
  localDir : Bytes
  deriving DecidableEq, Repr

/-! ## Zeroed records -/

def HttpResponse.zero : HttpResponse :=
  { versionMajor := 0, versionMinor := 0, code := 0, desc := [], connection := 0,
    contentTypeIndex := 0, contentLength := 0, transferEncoding := .teNone,
    acceptRange := .arBytes }

def HttpResponseContext.zero : HttpResponseContext :=
  { state := .hrFirstLine, remainDataIndex := 0, remainDataLen := 0, chunkSize := 0,
    chunkTerminateState := .sizeByte, chunkStateRemainByte := 0,
    chunkSizeStr := [0, 0, 0, 0, 0] }

def HttpCallback.zero : HttpCallback :=
  { beforeReq := none, reqWrite := none, afterReq := none, beforeResp := none,
    respHeaderFunc := none, respBodyFunc := none, afterResp := none, param := none }

/-- A slot of `g_conn_workspace` before its first use (`http_connection_init`). -/
def HttpConnection.zero : HttpConnection :=
  { method := .get, state := 0, sockfd := 0, filefd := 0, resp := .zero, ctx := .zero,
    clb := .zero, domain := [], remoteDir := [], localDir := [] }

/-- A zeroed connection once a socket and callbacks have been put into it. -/
def HttpConnection.fresh (sockfd : Int) (clb : HttpCallback) : HttpConnection :=
  { HttpConnection.zero with sockfd := sockfd, clb := clb }

end HttpCore
