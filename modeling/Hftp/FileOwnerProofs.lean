import Hftp.ArrivalsProofs
import Hftp.HttpTransferProofs

/-! # Who closes the local file

    A PUT opens its file in `before_req` and closes it in `after_req`; a GET
    opens its file in `resp_header_func` and closes it in `after_resp`.  Every
    way out of a handler that fails passes the closing callback by, and
    `after_resp` of a GET goes by the response code that is in the slot, whether
    or not this response ever got a head. -/

namespace FileOwner

open CBytes HttpCore HttpChunked HttpResp HttpMethod HttpTransfer Arrivals

/-! ## What an owner does -/

/-- `read` comes to an end of the file, and does not fail before it. -/
def EndsWell (sock : Sock) : Prop := [] ∈ sock.segs ∨ sock.ending = .eof

theorem read_some {sock sock' : Sock} {n : Nat} {d : Bytes} (hn : n ≠ 0) (hd : d ≠ [])
    (h : sock.read n = (some d, sock')) : EndsWell sock ↔ EndsWell sock' := by
  rw [Sock.read, if_neg hn] at h
  cases hsegs : sock.segs with
  | nil =>
      cases hend : sock.ending with
      | eof =>
          rw [hsegs, hend] at h
          exact absurd (Option.some.inj (Prod.mk.inj h).1).symm hd
      | err =>
          rw [hsegs, hend] at h
          cases (Prod.mk.inj h).1
  | cons p ps =>
      rw [hsegs] at h
      obtain ⟨hp, rfl⟩ := Prod.mk.inj h
      have hne : p ≠ [] := by
        rintro rfl
        rw [List.take_nil] at hp
        exact hd (Option.some.inj hp).symm
      rw [EndsWell, EndsWell, hsegs]
      dsimp only
      split_ifs with hfits
      · simp [hne.symm]
      · have hrest : p.drop n ≠ [] := by
          intro hnil
          exact hfits (List.drop_eq_nil_iff.mp hnil)
        simp [hne.symm, hrest.symm]

/-! ## The request -/

section Request

variable {conn : HttpConnection} {capacity : Nat} {k : Nat}

/-- `req_write` opens and closes nothing. -/
structure Keeps (w u : MethodWorld) : Prop where
  fds : u.fds = w.fds
  fd : u.file.fd = w.file.fd

theorem Keeps.trans {w u v : MethodWorld} (h : Keeps w u) (h' : Keeps u v) : Keeps w v :=
  ⟨h'.fds.trans h.fds, h'.fd.trans h.fd⟩

theorem getWrite_eq (hclb : conn.clb = paramSet .get k) (w : MethodWorld) :
    methodReqWrite conn capacity w =
      .ok ((httpGetRequestWrite conn w.chunks w.file).out,
        { w with chunks := (httpGetRequestWrite conn w.chunks w.file).chunks,
                 file := (httpGetRequestWrite conn w.chunks w.file).file }) := by
  rw [methodReqWrite, reqWrite, hclb]
  rfl

/-- The head of an upload can be printed: the file is open, and its size and its
    media type are known. -/
structure HeadDue (conn : HttpConnection) (file : LocalFile) : Prop where
  filefd : 2 < conn.filefd
  size : file.size.isSome = true
  mimeType : ∃ mimeType, MimeType.findMimeType (getFileExtension conn.localDir) = .ok mimeType

/-- How a call of `req_write` of a PUT goes on. -/
theorem putWrite_cases (hclb : conn.clb = paramSet .put k) {w u : MethodWorld} {got : Option Bytes}
    (h : methodReqWrite conn capacity w = .ok (got, u)) :
    (w.chunks.fin = 0 ∧ w.file.size = none ∧ got = none ∧ u = w) ∨
      (w.chunks.fin = 0 ∧ HeadDue conn w.file ∧ (∃ d, d ≠ [] ∧ got = some d) ∧
        u = { w with chunks := { w.chunks with fin := 1 } }) ∨
      (w.chunks.fin ≠ 0 ∧ got = (w.file.reads.read capacity).1 ∧
        u = { w with file := { w.file with reads := (w.file.reads.read capacity).2 } }) := by
  rw [methodReqWrite, reqWrite, hclb] at h
  dsimp only [paramSet] at h
  rw [httpPutRequestWrite] at h
  split_ifs at h with hlow hfin
  · cases hsize : w.file.size with
    | none =>
        rw [hsize] at h
        obtain ⟨rfl, rfl⟩ := Prod.mk.inj (Except.ok.inj h)
        exact Or.inl ⟨hfin, rfl, rfl, rfl⟩
    | some size =>
        rw [hsize] at h
        dsimp only at h
        cases hmime : MimeType.findMimeType (getFileExtension conn.localDir) with
        | error e =>
            rw [hmime] at h
            cases h
        | ok mimeType =>
            rw [hmime] at h
            obtain ⟨rfl, rfl⟩ := Prod.mk.inj (Except.ok.inj h)
            have hdue : HeadDue conn w.file :=
              ⟨Int.not_le.mp hlow, by rw [hsize]; rfl, mimeType, hmime⟩
            exact Or.inr (Or.inl ⟨hfin, hdue, ⟨_, putHead_ne_nil _ _ _ _, rfl⟩, rfl⟩)
  · obtain ⟨rfl, rfl⟩ := Prod.mk.inj (Except.ok.inj h)
    exact Or.inr (Or.inr ⟨hfin, rfl, rfl⟩)

theorem putWrite_keeps (hclb : conn.clb = paramSet .put k) {w u : MethodWorld} {got : Option Bytes}
    (h : methodReqWrite conn capacity w = .ok (got, u)) : Keeps w u := by
  rcases putWrite_cases hclb h with ⟨-, -, -, rfl⟩ | ⟨-, -, -, rfl⟩ | ⟨-, -, rfl⟩ <;> exact ⟨rfl, rfl⟩

end Request

/-! ## The response -/

section Response

variable {conn : HttpConnection} {k : Nat}

end Response

/-! ## A command -/

section Command

variable {conn : HttpConnection} {capacity : Nat} {results : Writes} {fuel : Nat} {buffer : Bytes}
  {sock : Sock} {w : MethodWorld} {k : Nat} {code : Int}

/-- A PUT opens its file before the request. -/
theorem put_before (hclb : conn.clb = paramSet .put k) (hfds : w.fds = []) :
    callIf (methodCallbacks conn.clb).beforeReq conn w =
      (if w.file.fd < 0 then 1 else 0, { conn with filefd := w.file.fd },
        { w with fds := openEvents w.file.fd }) := by
  have hcb : methodCallbacks conn.clb = _ := (congrArg _ hclb).trans (methodCallbacks_paramSet .put k)
  rw [hcb, callIf, methodBeforeReq, beforeReq, hclb, hfds]
  rfl

end Command

/-- `get h/p f` in a slot that was not used before. -/
def download : HttpConnection :=
  { HttpConnection.fresh 5 (paramSet .get 0) with
    domain := lit "h", remoteDir := lit "/p", localDir := lit "f" }

/-- A response of two bytes that declares `n`. -/
def twoBytes (n : Bytes) : Sock :=
  { segs := [lit "HTTP/1.1 200 OK\r\nContent-Length: " ++ n ++ crlf ++ crlf ++ lit "hi"],
    ending := .eof, taken := 0 }

end FileOwner
