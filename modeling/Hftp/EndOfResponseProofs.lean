import Hftp.CountedBodyProofs

/-! # Where a response ends

    Requests ask for the connection to be kept, so the peer does not close it
    behind a response, and a `read` too many waits for the peer's timeout.
    Whether `http_internal_response` stops in time is a matter of what is still
    on the socket when it returns. -/

namespace EndOfResponse

open CBytes HttpCore HttpHeader HttpChunked HttpResp HeadSegmentation ChunkedCodec ChunkedWindow
  ChunkResume Completion CountedBody

/-! ## A pass and the socket -/

/-- The parser does not read the socket. -/
theorem parsePass_sock {readLen : Nat} {s t : RespLocal} (h : parsePass readLen s = .ok t) :
    t.sock = s.sock := by
  rw [parsePass] at h
  split at h
  · split at h
    · cases h
    · rw [← Except.ok.inj h]
  · rw [← Except.ok.inj h]

/-- The parser does not end the response. -/
theorem parsePass_state {readLen : Nat} {s t : RespLocal} (h : parsePass readLen s = .ok t)
    (hstate : s.ctx.state ≠ .hrEnd) : t.ctx.state ≠ .hrEnd := by
  rw [parsePass] at h
  split at h
  · split at h
    · cases h
    · rename_i hparse
      rw [← Except.ok.inj h]
      exact lineLoop_state hparse hstate
  · rw [← Except.ok.inj h]
    exact hstate

/-- The body of a pass after the head. -/
def passBody (onHeader onBody : Bool) (readOff readLen : Nat) (s : RespLocal) : RespFlow :=
  if s.headerEndFlag then nextBody onBody readLen s
  else firstBody onBody readLen (headerEnd onHeader readOff readLen s)

/-- Handing over the body does not read the socket. -/
theorem passBody_sock (onHeader onBody : Bool) (readOff readLen : Nat) (s : RespLocal) :
    (passBody onHeader onBody readOff readLen s).after.sock = s.sock := by
  rw [passBody]
  split
  · exact (nextBody_bodyOnly onBody readLen s).sock
  · exact (firstBody_bodyOnly onBody readLen _).sock

/-- Nor does it end the response: that is left to the test behind it. -/
theorem passBody_state (onHeader onBody : Bool) (readOff readLen : Nat) (s : RespLocal) :
    (passBody onHeader onBody readOff readLen s).after.ctx.state = s.ctx.state := by
  rw [passBody]
  split
  · exact nextBody_state onBody readLen s
  · exact (firstBody_state onBody readLen _).trans (headerEnd_state _ _ _ _)

/-- A pass takes nothing from the socket. -/
theorem respPass_sock (onHeader onBody : Bool) (readOff readLen : Nat) (s : RespLocal) :
    (respPass onHeader onBody readOff readLen s).after.sock = s.sock := by
  rw [respPass]
  cases hparse : parsePass readLen s with
  | error e => rfl
  | ok t =>
      have ht := parsePass_sock hparse
      dsimp only
      split
      · have hbody := passBody_sock onHeader onBody readOff readLen t
        show ((passBody onHeader onBody readOff readLen t).andThen bodyEnd).after.sock = _
        rw [← ht, ← hbody]
        cases passBody onHeader onBody readOff readLen t with
        | go u => exact (bodyEnd_bodyOnly u).sock
        | ret code u => rfl
        | abort e u => rfl
      · exact ht

/-- The loop only goes on with a response that has not ended. -/
theorem respPass_going {onHeader onBody : Bool} {readOff readLen : Nat} {s t : RespLocal}
    (h : respPass onHeader onBody readOff readLen s = .go t) (hstate : s.ctx.state ≠ .hrEnd) :
    t.ctx.state ≠ .hrEnd := by
  rw [respPass] at h
  cases hparse : parsePass readLen s with
  | error e =>
      rw [hparse] at h
      cases h
  | ok u =>
      have hu := parsePass_state hparse hstate
      rw [hparse] at h
      dsimp only at h
      split at h
      · have hbody := passBody_state onHeader onBody readOff readLen u
        change (passBody onHeader onBody readOff readLen u).andThen bodyEnd = .go t at h
        cases hflow : passBody onHeader onBody readOff readLen u with
        | go v =>
            rw [hflow] at h hbody
            have hend : bodyEnd v = .go t := h
            rw [bodyEnd] at hend
            split at hend
            · split at hend
              · cases hend
              · cases hend
            · split at hend
              · cases hend
              · rw [← RespFlow.go.inj hend]
                show v.ctx.state ≠ .hrEnd
                have hv : v.ctx.state = u.ctx.state := hbody
                rw [hv]
                exact hu
        | ret _ _ | abort _ _ =>
            rw [hflow] at h
            cases h
      · rw [← RespFlow.go.inj h]
        exact hu

/-! ## What the loop takes -/

/-- The bytes that are still to be read. -/
def left (sock : Sock) : Nat := sock.segs.flatten.length

/-- What is read is no longer left. -/
theorem read_takes (sock : Sock) (n : Nat) :
    (sock.read n).2.taken + left (sock.read n).2 = sock.taken + left sock ∧
      sock.taken ≤ (sock.read n).2.taken := by
  rw [Sock.read]
  split
  · exact ⟨rfl, Nat.le_refl _⟩
  · cases hsegs : sock.segs with
    | nil =>
        cases sock.ending with
        | eof => exact ⟨rfl, Nat.le_refl _⟩
        | err => exact ⟨rfl, Nat.le_refl _⟩
    | cons d ds =>
        dsimp only
        refine ⟨?_, Nat.le_add_right _ _⟩
        rw [left, left, hsegs]
        have hsplit := congrArg List.length (List.take_append_drop n d)
        rw [List.length_append] at hsplit
        by_cases hle : d.length ≤ n
        · rw [if_pos hle, List.flatten_cons, List.length_append, List.take_of_length_le hle]
          show sock.taken + d.length + ds.flatten.length = _
          omega
        · rw [if_neg hle, List.flatten_cons, List.flatten_cons, List.length_append,
            List.length_append]
          omega

/-- Every byte is taken or still there. -/
theorem respLoop_takes (onHeader onBody : Bool) : ∀ (fuel : Nat) (s : RespLocal),
    (respLoop onHeader onBody fuel s).s.sock.taken + left (respLoop onHeader onBody fuel s).s.sock
        = s.sock.taken + left s.sock ∧
      s.sock.taken ≤ (respLoop onHeader onBody fuel s).s.sock.taken := by
  intro fuel
  induction fuel with
  | zero => intro s; exact ⟨rfl, Nat.le_refl _⟩
  | succ fuel ih =>
      intro s
      have hread := read_takes s.sock (s.buffer.length - s.ctx.remainDataLen)
      rw [respLoop]
      cases hres : s.sock.read (s.buffer.length - s.ctx.remainDataLen) with
      | mk got sock =>
          rw [hres] at hread
          cases got with
          | none => exact hread
          | some d =>
              dsimp only at hread ⊢
              split
              · exact hread
              · have hpass := respPass_sock onHeader onBody s.ctx.remainDataLen d.length
                  { s with buffer := store s.buffer s.ctx.remainDataLen d, sock := sock }
                cases hflow : respPass onHeader onBody s.ctx.remainDataLen d.length
                    { s with buffer := store s.buffer s.ctx.remainDataLen d, sock := sock } with
                | go t =>
                    rw [hflow] at hpass
                    have ht : t.sock = sock := hpass
                    obtain ⟨hall, hgrow⟩ := ih t
                    rw [ht] at hall hgrow
                    dsimp only
                    exact ⟨hall.trans hread.1, Nat.le_trans hread.2 hgrow⟩
                | ret _ t | abort _ t =>
                    rw [hflow] at hpass
                    have ht : t.sock = sock := hpass
                    dsimp only
                    rw [ht]
                    exact hread

/-! ## More on the socket than was looked at -/

/-- The socket with more arrivals behind its own, and another end. -/
def longer (more : List Bytes) (ending : Ending) (s : RespLocal) : RespLocal :=
  { s with sock := { s.sock with segs := s.sock.segs ++ more, ending := ending } }

def RespFlow.map (f : RespLocal → RespLocal) : RespFlow → RespFlow
  | .go s => .go (f s)
  | .ret code s => .ret code (f s)
  | .abort e s => .abort e (f s)

section Frame

variable (more : List Bytes) (ending : Ending)

/-- What may arrive later is not in the buffer of the loop. -/
theorem longer_buffer (s : RespLocal) : (longer more ending s).buffer = s.buffer := rfl

/-- It is not in its context. -/
theorem longer_ctx (s : RespLocal) : (longer more ending s).ctx = s.ctx := rfl

/-- It is not in the response. -/
theorem longer_resp (s : RespLocal) : (longer more ending s).resp = s.resp := rfl

/-- It does not count for the length so far. -/
theorem longer_bodyLen (s : RespLocal) : (longer more ending s).bodyLen = s.bodyLen := rfl

/-- The parser does not depend on what arrives later. -/
theorem parsePass_longer (readLen : Nat) (s : RespLocal) :
    parsePass readLen (longer more ending s) = (parsePass readLen s).map (longer more ending) := by
  rw [parsePass, parsePass, longer_ctx, longer_resp, longer_buffer]
  by_cases hstate : s.ctx.state.beforeBody = true
  · rw [if_pos hstate, if_pos hstate]
    cases httpParseResponseHeaderPerBuffer s.buffer readLen s.ctx s.resp with
    | error e => rfl
    | ok hp => rfl
  · rw [if_neg hstate, if_neg hstate]
    rfl

/-- Nor does the decoder. -/
theorem chunkedBody_longer (onBody : Bool) (readLen : Nat) (s : RespLocal) :
    chunkedBody onBody readLen (longer more ending s)
      = RespFlow.map (longer more ending) (chunkedBody onBody readLen s) := by
  rw [chunkedBody, chunkedBody, longer_buffer, longer_ctx, longer_bodyLen]
  cases (httpChunkedResponseBody onBody s.buffer readLen s.ctx s.bodyLen).stop with
  | error e => rfl
  | ok continued => rfl

/-- Nor does a call of `resp_body_func`. -/
theorem callBody_longer (onBody : Bool) (index n : Nat) (s : RespLocal) :
    callBody onBody index n (longer more ending s)
      = (callBody onBody index n s).map (longer more ending) := by
  cases onBody with
  | false => rfl
  | true =>
      rw [callBody, callBody, if_pos rfl, if_pos rfl, longer_buffer]
      cases slice s.buffer index n with
      | error e => rfl
      | ok d => rfl

/-- The same where the length has grown before the call. -/
theorem callBody_grown (onBody : Bool) {s t : RespLocal} (ht : t = longer more ending s)
    (index n : Nat) (k : Int) :
    callBody onBody index n { t with bodyLen := t.bodyLen + k }
      = (callBody onBody index n { s with bodyLen := s.bodyLen + k }).map (longer more ending) := by
  subst ht
  exact callBody_longer more ending onBody index n { s with bodyLen := s.bodyLen + k }

/-- The bytes behind a head do not depend on it. -/
theorem firstBody_longer (onBody : Bool) (readLen : Nat) (s : RespLocal) :
    firstBody onBody readLen (longer more ending s)
      = RespFlow.map (longer more ending) (firstBody onBody readLen s) := by
  have hte : (longer more ending s).resp.transferEncoding = s.resp.transferEncoding := rfl
  rw [firstBody, firstBody, hte]
  cases s.resp.transferEncoding with
  | teChunked => exact chunkedBody_longer more ending onBody readLen s
  | teNone =>
      dsimp only
      rw [callBody_grown more ending onBody rfl, longer_ctx]
      by_cases hlen : s.ctx.remainDataLen > 0
      · rw [if_pos hlen, if_pos hlen]
        cases callBody onBody s.ctx.remainDataIndex s.ctx.remainDataLen
            { s with bodyLen := s.bodyLen + s.ctx.remainDataLen } with
        | error e => rfl
        | ok t => rfl
      · rw [if_neg hlen, if_neg hlen]
        rfl
  | teNotSupported => rfl

/-- Those of a further read do not. -/
theorem nextBody_longer (onBody : Bool) (readLen : Nat) (s : RespLocal) :
    nextBody onBody readLen (longer more ending s)
      = RespFlow.map (longer more ending) (nextBody onBody readLen s) := by
  have hte : (longer more ending s).resp.transferEncoding = s.resp.transferEncoding := rfl
  rw [nextBody, nextBody, hte]
  cases s.resp.transferEncoding with
  | teChunked => exact chunkedBody_longer more ending onBody readLen s
  | teNone =>
      dsimp only
      rw [callBody_grown more ending onBody rfl]
      cases callBody onBody 0 readLen { s with bodyLen := s.bodyLen + readLen } with
      | error e => rfl
      | ok t => rfl
  | teNotSupported => rfl

/-- The test for the end does not. -/
theorem bodyEnd_longer (s : RespLocal) :
    bodyEnd (longer more ending s) = RespFlow.map (longer more ending) (bodyEnd s) := by
  rw [bodyEnd, bodyEnd, longer_resp, longer_bodyLen, longer_ctx]
  split
  · split <;> rfl
  · split <;> rfl

/-- **A PASS DOES NOT LOOK AT THE SOCKET**. -/
theorem respPass_longer (onHeader onBody : Bool) (readOff readLen : Nat) (s : RespLocal) :
    respPass onHeader onBody readOff readLen (longer more ending s)
      = RespFlow.map (longer more ending) (respPass onHeader onBody readOff readLen s) := by
  rw [respPass, respPass, parsePass_longer]
  cases parsePass readLen s with
  | error e => rfl
  | ok t =>
      show (if t.ctx.state = .hrBody then
          (if t.headerEndFlag then nextBody onBody readLen (longer more ending t)
            else firstBody onBody readLen
              (longer more ending (headerEnd onHeader readOff readLen t))).andThen bodyEnd
        else _) = _
      rw [nextBody_longer, firstBody_longer]
      by_cases hstate : t.ctx.state = .hrBody
      · rw [if_pos hstate]
        dsimp only
        rw [if_pos hstate]
        have hthen : ∀ fl : RespFlow, (RespFlow.map (longer more ending) fl).andThen bodyEnd
            = RespFlow.map (longer more ending) (fl.andThen bodyEnd) := by
          intro fl
          cases fl with
          | go u => exact bodyEnd_longer more ending u
          | ret code u => rfl
          | abort e u => rfl
        split
        · exact hthen _
        · exact hthen _
      · rw [if_neg hstate]
        dsimp only
        rw [if_neg hstate]
        rfl

/-- What is read from arrivals does not depend on what comes behind them. -/
theorem read_longer {sock sock' : Sock} {n : Nat} {d : Bytes} (hending : sock.ending = .err)
    (h : sock.read n = (some d, sock')) :
    Sock.read { sock with segs := sock.segs ++ more, ending := ending } n
        = (some d, { sock' with segs := sock'.segs ++ more, ending := ending }) ∧
      sock'.ending = .err := by
  rw [Sock.read] at h ⊢
  by_cases hn : n = 0
  · rw [if_pos hn] at h ⊢
    obtain ⟨hd, rfl⟩ := Prod.mk.inj h
    rw [hd]
    exact ⟨rfl, hending⟩
  · rw [if_neg hn] at h ⊢
    cases hsegs : sock.segs with
    | nil =>
        rw [hsegs, hending] at h
        cases (Prod.mk.inj h).1
    | cons e es =>
        rw [hsegs] at h
        obtain ⟨hd, rfl⟩ := Prod.mk.inj h
        rw [List.cons_append]
        dsimp only
        rw [hd]
        refine ⟨?_, hending⟩
        split <;> rfl

/-- A pass on the same bytes does the same, whatever arrives later. -/
theorem respPass_received (onHeader onBody : Bool) {s t : RespLocal}
    (ht : t = longer more ending s) (readOff : Nat) (d : Bytes) (sock : Sock) :
    respPass onHeader onBody readOff d.length
        { t with
          buffer := store t.buffer readOff d,
          sock := { sock with segs := sock.segs ++ more, ending := ending } }
      = RespFlow.map (longer more ending) (respPass onHeader onBody readOff d.length
          { s with buffer := store s.buffer readOff d, sock := sock }) := by
  subst ht
  exact respPass_longer more ending onHeader onBody readOff d.length
    { s with buffer := store s.buffer readOff d, sock := sock }

/-- **A CALL THAT ENDED BEFORE THE END OF ITS SOCKET** ends the same way if more is
    on it, and leaves that alone. -/
theorem respLoop_longer (onHeader onBody : Bool) : ∀ (fuel : Nat) {fuel' : Nat} {s : RespLocal},
    fuel ≤ fuel' → s.sock.ending = .err → s.ctx.state ≠ .hrEnd →
    (respLoop onHeader onBody fuel s).s.ctx.state = .hrEnd →
    respLoop onHeader onBody fuel' (longer more ending s)
      = { stop := (respLoop onHeader onBody fuel s).stop,
          s := longer more ending (respLoop onHeader onBody fuel s).s } := by
  intro fuel
  induction fuel with
  | zero => intro fuel' s _ _ hstate hend; exact absurd hend hstate
  | succ fuel ih =>
      intro fuel' s hle hending hstate hend
      obtain ⟨f, rfl⟩ : ∃ f, fuel' = f + 1 := ⟨fuel' - 1, by omega⟩
      rw [respLoop] at hend
      rw [respLoop, respLoop]
      cases hread : s.sock.read (s.buffer.length - s.ctx.remainDataLen) with
      | mk got sock =>
          rw [hread] at hend
          cases got with
          | none => exact absurd hend hstate
          | some d =>
              obtain ⟨hmore, hending'⟩ := read_longer more ending hending hread
              have hread' : (longer more ending s).sock.read
                  ((longer more ending s).buffer.length - (longer more ending s).ctx.remainDataLen)
                  = _ := hmore
              rw [hread']
              dsimp only at hend ⊢
              by_cases hstop : d = [] ∧ s.forcedContinue = false
              · rw [if_pos hstop] at hend
                exact absurd hend hstate
              · rw [if_neg hstop] at hend ⊢
                rw [if_neg (show ¬ (d = [] ∧ (longer more ending s).forcedContinue = false)
                  from hstop)]
                have hsock := respPass_sock onHeader onBody s.ctx.remainDataLen
                  d.length { s with buffer := store s.buffer s.ctx.remainDataLen d, sock := sock }
                rw [respPass_received more ending onHeader onBody rfl, longer_ctx]
                cases hflow : respPass onHeader onBody s.ctx.remainDataLen d.length
                    { s with buffer := store s.buffer s.ctx.remainDataLen d, sock := sock } with
                | go t =>
                    rw [hflow] at hend hsock
                    have ht : t.sock = sock := hsock
                    exact ih (Nat.le_of_succ_le_succ hle) (by rw [ht]; exact hending')
                      (respPass_going hflow hstate) hend
                | ret code t => rfl
                | abort e t => rfl

end Frame

/-! ## Responses received completely -/

/-- A response: its head, and a body of the declared length or in chunks. -/
inductive Response where
  | counted (head : ResponseHead) (body : Bytes) (declares : Declares head body.length)
      (unencoded : Unencoded head)
  | chunked (r : ChunkedResponse)

def Response.head : Response → ResponseHead
  | .counted head _ _ _ => head
  | .chunked r => r.head

def Response.chunks : Response → List Chunk
  | .counted _ _ _ _ => []
  | .chunked r => r.chunks

def Response.body : Response → Bytes
  | .counted _ body _ _ => body
  | .chunked r => encode r.chunks

def Response.isChunked : Response → Bool
  | .counted _ _ _ _ => false
  | .chunked _ => true

/-- The complete message. -/
def Response.text (r : Response) : Bytes := r.head.text ++ r.body

/-- The reads that bring a response, the last of which completes it.  Behind
    chunks the last may bring more. -/
structure Receipt where
  response : Response
  behind : Bytes
  buffer : Bytes
  reads : List Bytes
  sockfd : Int
  clb : HttpCallback
  fd : sockfd > 2
  listens : clb.respBodyFunc.isSome = true
  alone : response.isChunked = false → behind = []
  joined : reads.flatten = response.text ++ behind
  last : reads.dropLast.flatten.length < response.text.length
  results : ∀ d ∈ reads, d ≠ [] ∧ d.length ≤ buffer.length

variable (a : Receipt)

/-- The call, with `more` arriving after the reads. -/
def Receipt.run (more : List Bytes) (ending : Ending) : RespRun :=
  httpInternalResponse (.fresh a.sockfd a.clb) a.buffer
    { segs := a.reads ++ more, ending := ending, taken := 0 }

/-- **NO READ PAST THE END**: whatever arrives later, once the call has received the
    complete message it leaves that alone, and it ends with `HR_END`. -/
def Receipt.StopsThere : Prop :=
  ∀ more ending, a.response.text.length ≤ (a.run more ending).s.sock.taken →
    more <:+ (a.run more ending).s.sock.segs ∧ (a.run more ending).s.ctx.state = .hrEnd

/-- The reads reach none of the places where a cut is put together wrong, and the
    numbers of the response are such that they are read right. -/
structure Receipt.InStep : Prop where
  lengths : match a.response with
    | .counted _ body _ _ => body.length < 2 ^ 63
    | .chunked r => ∀ c ∈ r.chunks, c.FourDigits
  reads : inStep a.response.isChunked a.response.chunks a.buffer a.response.head.lines a.reads
    = true
  found : safe a.buffer.length a.response.head.lines a.reads = true

/-- Something tells the loop where the body ends. -/
def Response.Marked : Response → Prop
  | .counted _ body _ _ => 0 < body.length
  | .chunked _ => True

/-- The locals at the start of the call. -/
def Receipt.start (ending : Ending) : RespLocal :=
  .start (.fresh a.sockfd a.clb) a.buffer { segs := a.reads, ending := ending, taken := 0 }

/-- A buffer that takes a read is not empty. -/
theorem Receipt.room : 0 < a.buffer.length := by
  cases hreads : a.reads with
  | nil =>
      have hlast := a.last
      have hjoin := a.joined
      rw [hreads, List.flatten_nil] at hjoin
      rw [(List.append_eq_nil_iff.mp hjoin.symm).1] at hlast
      exact absurd hlast (Nat.not_lt_zero _)
  | cons d ds =>
      obtain ⟨hd, hlen⟩ := a.results d (by rw [hreads]; exact List.mem_cons_self)
      have := List.length_pos_iff.mpr hd
      omega

/-- The call is the loop with what arrives later behind its reads. -/
theorem Receipt.run_longer (more : List Bytes) (ending ending' : Ending) : ∃ fuel,
    a.run more ending' = respLoop a.clb.respHeaderFunc.isSome true fuel
      (longer more ending' (a.start ending)) ∧ a.reads.flatten.length + a.reads.length + 3 ≤ fuel := by
  refine ⟨(a.reads ++ more).flatten.length + (a.reads ++ more).length + 3, ?_, ?_⟩
  · rw [← a.listens]
    exact if_pos ⟨a.fd, a.room⟩
  · rw [List.flatten_append, List.length_append, List.length_append]
    omega

/-- A call that ends the response with what was read ends it whatever follows. -/
theorem Receipt.stops {fuel : Nat} (hfuel : fuel ≤ a.reads.flatten.length + a.reads.length + 3)
    (hend : (respLoop a.clb.respHeaderFunc.isSome true fuel (a.start .err)).s.ctx.state = .hrEnd) :
    a.StopsThere := by
  intro more ending _
  obtain ⟨fuel', hrun, hle⟩ := a.run_longer more .err ending
  rw [hrun, respLoop_longer more ending a.clb.respHeaderFunc.isSome true fuel
    (Nat.le_trans hfuel hle) rfl (show ParseState.hrFirstLine ≠ .hrEnd by decide) hend]
  exact ⟨List.suffix_append _ _, hend⟩

/-- At the start of the call the head is looked for. -/
theorem Receipt.searching (ending : Ending) : Searching (a.start ending) :=
  ⟨rfl, rfl, rfl, rfl, Nat.zero_le _⟩

/-- The head is found. -/
theorem Receipt.found (ending : Ending) (h : a.InStep) : ∃ s' ls first later fuel',
    Found a.clb.respHeaderFunc.isSome a.response.isChunked a.response.chunks
      a.response.head.lines a.reads (a.start ending)
      (a.reads.flatten.length + a.reads.length + 3) s' ls first later fuel' ∧
    first ++ later.flatten = a.response.body ++ a.behind := by
  have hjoin := a.joined
  rw [Response.text, List.append_assoc] at hjoin
  have hloc := locate a.clb.respHeaderFunc.isSome a.response.isChunked a.response.chunks
    (a.searching ending) rfl a.response.head.linesOk rfl rfl rfl a.results
    (show (a.start ending).sock.segs = a.reads from rfl)
    (show a.reads.flatten <+: (linesText a.response.head.lines ++ crlf)
      ++ (a.response.body ++ a.behind) by rw [hjoin, ResponseHead.text]) h.reads
    (show a.reads.flatten.length + a.reads.length + 2
      < a.reads.flatten.length + a.reads.length + 3 by omega)
  rcases hloc with ⟨hlost, -, -⟩ | ⟨-, -, s', ls, first, later, g, hfound⟩
  · have hsafe := h.found
    change safe a.buffer.length _ _ = false at hlost
    rw [hlost] at hsafe
    cases hsafe
  · refine ⟨s', ls, first, later, g, hfound, ?_⟩
    have hbody := hfound.body
    rw [hjoin, show headLeft a.response.head.lines = a.response.head.text.length
      from a.response.head.text_length.symm, List.drop_left] at hbody
    exact hbody.symm

/-- With nothing to count, all that was read is taken and the response goes on. -/
theorem Receipt.unmarked (h : a.InStep) {head : ResponseHead} {declares : Declares head 0}
    {unencoded : Unencoded head} (hr : a.response = .counted head [] declares unencoded) :
    ¬ a.StopsThere := by
  intro hstops
  obtain ⟨s', ls, first, later, g, hfound, hbody⟩ := a.found .eof h
  have hnil : a.behind = [] := a.alone (by rw [hr]; rfl)
  have hlines : a.response.head.lines = head.lines := by rw [hr]; rfl
  have hempty : first ++ later.flatten = [] := by
    rw [hbody, hnil, hr]
    rfl
  obtain ⟨hfirst, hlater⟩ := List.append_eq_nil_iff.mp hempty
  have hrest : later = [] := by
    cases later with
    | nil => rfl
    | cons d ds =>
        have hd := (hfound.reads d List.mem_cons_self).1
        rw [List.flatten_cons] at hlater
        exact absurd (List.append_eq_nil_iff.mp hlater).1 hd
  -- the whole is one run without a length, which drains the socket
  have hresp : linesResp .hrFirstLine a.response.head.lines .zero
      = linesResp .hrFirstLine head.lines .zero := by rw [hlines]
  have hends := hfound.plain (by
    show (linesResp .hrFirstLine a.response.head.lines .zero).transferEncoding = .teNone
    rw [hresp]
    exact head_unencoded unencoded)
  have hzero : (linesResp (a.start .eof).ctx.state a.response.head.lines
      (a.start .eof).resp).contentLength = 0 := by
    show (linesResp .hrFirstLine a.response.head.lines .zero).contentLength = 0
    rw [hresp, head_declares declares]
    rfl
  rw [hzero] at hends
  have hstate : (respLoop a.clb.respHeaderFunc.isSome true
      (a.reads.flatten.length + a.reads.length + 3) (a.start .eof)).s.ctx.state = .hrBody := by
    cases hends with
    | counted pre hn _ _ _ _ _ => exact absurd hn (Int.lt_irrefl 0)
    | overrun hn _ _ => exact absurd hn (Int.lt_irrefl 0)
    | drained _ _ hstate _ => exact hstate
  have htaken : (respLoop a.clb.respHeaderFunc.isSome true
      (a.reads.flatten.length + a.reads.length + 3) (a.start .eof)).s.sock.taken
      = a.reads.flatten.length := by
    obtain ⟨hall, -⟩ := respLoop_takes a.clb.respHeaderFunc.isSome true
      (a.reads.flatten.length + a.reads.length + 3) (a.start .eof)
    have htotal : (a.start .eof).sock.taken + left (a.start .eof).sock
        = a.reads.flatten.length := Nat.zero_add _
    obtain ⟨f, s1, rfl, -, -, -, -, -, hsegs, -, -, hrun⟩ := hfound.pass
    have hnone : left (respLoop a.clb.respHeaderFunc.isSome true
        (a.reads.flatten.length + a.reads.length + 3) (a.start .eof)).s.sock = 0 := by
      rw [hrun]
      have hsock := respPass_sock a.clb.respHeaderFunc.isSome true 0
        (linesText ls ++ crlf ++ first).length s1
      have hleft : left s1.sock = 0 := by
        rw [left, hsegs, hrest]
        rfl
      cases hflow : respPass a.clb.respHeaderFunc.isSome true 0
          (linesText ls ++ crlf ++ first).length s1 with
      | go t =>
          rw [hflow] at hsock
          have ht : t.sock = s1.sock := hsock
          obtain ⟨hmore, hgrow⟩ := respLoop_takes a.clb.respHeaderFunc.isSome true f t
          rw [ht, hleft] at hmore
          rw [ht] at hgrow
          show left (respLoop _ true f t).s.sock = 0
          omega
      | ret _ t | abort _ t =>
          rw [hflow] at hsock
          have ht : t.sock = s1.sock := hsock
          show left t.sock = 0
          rw [ht, hleft]
    omega
  have hrun : a.run [] .eof = respLoop a.clb.respHeaderFunc.isSome true
      (a.reads.flatten.length + a.reads.length + 3) (a.start .eof) := by
    rw [Receipt.run, List.append_nil, ← a.listens]
    exact if_pos ⟨a.fd, a.room⟩
  have hend := (hstops [] .eof (by
    rw [hrun, htaken, a.joined, List.length_append]
    omega)).2
  rw [hrun, hstate] at hend
  cases hend

/-- **THE CALL STOPS AT THE END OF THE RESPONSE EXACTLY WHEN** the end is marked, by
    a positive length or by a terminating chunk. -/
theorem stops_iff (h : a.InStep) : a.StopsThere ↔ a.response.Marked := by
  obtain ⟨s', ls, first, later, g, hfound, hbody⟩ := a.found .err h
  have hlengths := h.lengths
  cases hr : a.response with
  | counted head body declares unencoded =>
      rw [hr] at hlengths hfound hbody
      constructor
      · intro hstops
        by_contra hzero
        have hnil : body = [] := List.eq_nil_of_length_eq_zero (Nat.eq_zero_of_not_pos hzero)
        subst hnil
        exact a.unmarked h hr hstops
      · intro hpos
        have hbehind : a.behind = [] := a.alone (by rw [hr]; rfl)
        have hends := hfound.plain (head_unencoded unencoded)
        have hlen : (linesResp (a.start .err).ctx.state (Response.counted head body declares
            unencoded).head.lines (a.start .err).resp).contentLength = (body.length : Int) := by
          refine (head_declares declares).trans ?_
          rw [clampLong]
          have hless : body.length < 2 ^ 63 := hlengths
          omega
        have htext : first ++ later.flatten = body := by
          rw [hbody, hbehind]
          exact List.append_nil _
        rw [hlen, htext] at hends
        refine a.stops (Nat.le_refl _) ?_
        cases hends with
        | counted pre _ _ _ _ hstate _ => exact hstate
        | overrun _ hover _ => exact absurd hover (Int.lt_irrefl _)
        | drained hshort _ _ _ =>
            exact absurd (hshort (Int.natCast_pos.mpr hpos)) (Int.lt_irrefl _)
  | chunked r =>
      rw [hr] at hlengths hfound hbody
      refine ⟨fun _ => trivial, fun _ => a.stops (Nat.le_refl _) ?_⟩
      have h4 : ∀ c ∈ r.chunks, c.FourDigits := hlengths
      have hcoded : first ++ later.flatten = codingThen a.behind r.chunks := by
        rw [hbody, codingThen_eq]
        rfl
      have hends := hfound.decoded (t := a.behind) h4 r.announced
        (by rw [hcoded]; exact List.prefix_rfl)
      have hdone : pendingAt r.chunks (first ++ later.flatten).length = .done := by
        refine pendingAt_end h4 ?_
        rw [hcoded, codingThen_eq, List.length_append]
        omega
      have hstate := hends.state
      rw [show (Response.chunked r).chunks = r.chunks from rfl, hdone, if_pos rfl] at hstate
      exact hstate

/-- Two bytes in two reads, the first of which ends in the body. -/
def twoReads : Receipt :=
  { response := .counted smallHead (lit "ok") smallHead_declares smallHead_unencoded, behind := [],
    buffer := List.replicate 64 0,
    reads := [lit "HTTP/1.1 200 OK\r\nContent-Length: 2\r\n\r\no", lit "k"],
    sockfd := 3, clb := smallPeer.clb, fd := smallPeer.fd, listens := rfl, alone := fun _ => rfl,
    joined := by decide, last := by decide, results := by decide }

/-- A head and its two bytes in a read each. -/
theorem twoReads_stops : twoReads.StopsThere :=
  (stops_iff twoReads ⟨(by decide : (2 : Nat) < 2 ^ 63), by decide +kernel, by decide +kernel⟩).mpr
    (by decide : 0 < 2)

/-- The head of a response without a body. -/
def emptyHead : ResponseHead :=
  { status := lit "HTTP/1.1 200 OK", fields := [lit "Content-Length: 0"],
    statusOk := smallHead.statusOk,
    fieldsOk := by
      intro l hl
      rw [List.mem_singleton.mp hl]
      exact ⟨by decide, by decide, by decide⟩ }

/-- The head declares a length of 0. -/
theorem emptyHead_declares : Declares emptyHead 0 := by
  refine ⟨by decide +kernel, fun l hl _ => ?_⟩
  rw [List.mem_singleton.mp hl]
  exact ⟨[], lit "0", [], by decide +kernel, by decide +kernel, by decide +kernel,
    by decide +kernel⟩

/-- The head names no coding. -/
theorem emptyHead_unencoded : Unencoded emptyHead := by
  intro l hl
  rw [List.mem_singleton.mp hl]
  decide +kernel

/-- It arrives in one read. -/
def noBody : Receipt :=
  { response := .counted emptyHead [] emptyHead_declares emptyHead_unencoded,
    behind := [], buffer := List.replicate 64 0,
    reads := [lit "HTTP/1.1 200 OK\r\nContent-Length: 0\r\n\r\n"],
    sockfd := 3, clb := smallPeer.clb, fd := smallPeer.fd, listens := rfl, alone := fun _ => rfl,
    joined := by decide, last := by decide, results := by decide }

/-- A response without a body is read past its end. -/
theorem noBody_not_stops : ¬ noBody.StopsThere := by
  intro hstops
  have htaken : noBody.response.text.length ≤ (noBody.run [] .eof).s.sock.taken := by
    decide +kernel
  have hstate : (noBody.run [] .eof).s.ctx.state = .hrBody := by decide +kernel
  have hend := (hstops [] .eof htaken).2
  rw [hstate] at hend
  cases hend

end EndOfResponse
