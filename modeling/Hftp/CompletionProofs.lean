import Hftp.ChunkResumeProofs

/-! # What a successful response is worth

    The loop of `http_internal_response` leaves with 0 for several reasons: the
    declared length was reached, the terminating chunk was seen, or the socket
    had no more.  The last says nothing about the head and the body being
    complete, and a `read` that failed looks the same. -/

namespace Completion

open CBytes HttpCore HttpHeader HttpChunked HttpResp HeadSegmentation ChunkedCodec ChunkedWindow
  ChunkResume

/-! ## Bodies that are not in chunks -/

/-- How a call ends whose body is handed over as it comes: the declared length
    `n` was reached, or overrun within one read, or the socket had no more. -/
inductive PlainEnds (n : Int) (prior more : Bytes) (run : RespRun) : Prop where
  | counted (pre : Bytes) (hn : 0 < n) (hpre : pre <+: more)
      (hlen : ((prior ++ pre).length : Int) = n) (hstop : run.stop = .ok 0)
      (hstate : run.s.ctx.state = .hrEnd) (hcalls : bodyBytes run.s.calls = prior ++ pre)
  | overrun (hn : 0 < n) (hlen : n < (prior ++ more).length) (hstop : run.stop = .ok 1)
  | drained (hshort : 0 < n → ((prior ++ more).length : Int) < n) (hstop : run.stop = .ok 0)
      (hstate : run.s.ctx.state = .hrBody) (hcalls : bodyBytes run.s.calls = prior ++ more)

theorem PlainEnds.later {n : Int} {prior d more : Bytes} {run : RespRun}
    (h : PlainEnds n (prior ++ d) more run) : PlainEnds n prior (d ++ more) run := by
  cases h with
  | counted pre hn hpre hlen hstop hstate hcalls =>
      obtain ⟨rest, hrest⟩ := hpre
      refine .counted (d ++ pre) hn ⟨rest, ?_⟩ ?_ hstop hstate ?_
      · rw [List.append_assoc, hrest]
      · rw [← List.append_assoc]
        exact hlen
      · rw [hcalls, List.append_assoc]
  | overrun hn hlen hstop =>
      rw [List.append_assoc] at hlen
      exact .overrun hn hlen hstop
  | drained hshort hstop hstate hcalls =>
      rw [List.append_assoc] at hshort hcalls
      exact .drained hshort hstop hstate hcalls

/-- The state of a call whose head is behind it and whose body has no encoding. -/
structure Plain (n : Int) (prior : Bytes) (s : RespLocal) : Prop where
  state : s.ctx.state = .hrBody
  flag : s.headerEndFlag = true
  encoding : s.resp.transferEncoding = .teNone
  length : s.resp.contentLength = n
  forced : s.forcedContinue = false
  remain : s.ctx.remainDataLen = 0
  calls : bodyBytes s.calls = prior
  bodyLen : s.bodyLen = prior.length

/-- The test of the declared length at the end of a pass. -/
theorem bodyEnd_plain {n : Int} {prior : Bytes} {s : RespLocal} (hs : Plain n prior s) :
    (0 < n ∧ n = prior.length ∧
      bodyEnd s = .ret 0 { s with ctx := { s.ctx with state := .hrEnd } }) ∨
    (0 < n ∧ n < prior.length ∧ bodyEnd s = .ret 1 s) ∨
    ((0 < n → (prior.length : Int) < n) ∧ bodyEnd s = .go s) := by
  rw [bodyEnd, hs.encoding, hs.length, hs.bodyLen]
  by_cases hreached : 0 < n ∧ n ≤ prior.length
  · obtain ⟨hn, hle⟩ := hreached
    by_cases heq : (prior.length : Int) = n
    · refine Or.inl ⟨hn, heq.symm, ?_⟩
      rw [if_pos ⟨rfl, hn, hle⟩, if_neg (fun h => h heq)]
    · refine Or.inr (Or.inl ⟨hn, by omega, ?_⟩)
      rw [if_pos ⟨rfl, hn, hle⟩, if_pos heq]
  · refine Or.inr (Or.inr ⟨by omega, ?_⟩)
    rw [if_neg (fun h => hreached h.2), if_neg (fun h => by cases h.1)]

/-- A read is handed over whole, and then the length is tested. -/
theorem plain_pass (onHeader : Bool) {n : Int} {prior d stale : Bytes} {s : RespLocal}
    (hs : Plain n prior s) (hbuf : s.buffer = d ++ stale) (hd : d ≠ []) :
    ∃ s', respPass onHeader true 0 d.length s = bodyEnd s' ∧ Plain n (prior ++ d) s' ∧
      s'.buffer = s.buffer ∧ s'.sock = s.sock := by
  have hparse : parsePass d.length s = .ok s := by
    rw [parsePass, hs.state]
    rfl
  have hslice : slice s.buffer 0 d.length = .ok d := by
    have hle : 0 ≤ (0 : Int) ∧ (0 : Int).toNat + d.length ≤ s.buffer.length := by
      rw [hbuf, List.length_append]
      simp
    rw [slice, if_neg (fun h => hd (List.eq_nil_of_length_eq_zero h)), if_pos hle, hbuf]
    exact congrArg Except.ok List.take_left
  refine ⟨{ s with bodyLen := s.bodyLen + d.length,
                   calls := s.calls ++ [.body { bytes := d, len := d.length }] }, ?_, ?_, rfl, rfl⟩
  · rw [respPass, hparse]
    simp only [hs.state, hs.flag, if_true]
    rw [nextBody, hs.encoding]
    dsimp only
    rw [callBody, if_pos rfl, Nat.cast_zero, hslice]
    simp only [RespFlow.andThen, hs.flag]
  · refine ⟨hs.state, hs.flag, hs.encoding, hs.length, hs.forced, hs.remain, ?_, ?_⟩
    · rw [bodyBytes_append, hs.calls]
      show prior ++ (d ++ []) = _
      rw [List.append_nil]
    · show s.bodyLen + (d.length : Int) = _
      rw [hs.bodyLen, List.length_append]
      push_cast
      rfl

/-- **THE BODY AS IT COMES**, from any point of it on. -/
theorem plain_run (onHeader : Bool) {n : Int} : ∀ {ds : List Bytes} {fuel : Nat} {prior : Bytes}
    {s : RespLocal}, Plain n prior s → s.sock.segs = ds →
    (0 < n → (prior.length : Int) < n) →
    (∀ d ∈ ds, d ≠ [] ∧ d.length ≤ s.buffer.length) → ds.length < fuel →
    PlainEnds n prior ds.flatten (respLoop onHeader true fuel s) ∧
      (respLoop onHeader true fuel s).s.head = s.head := by
  intro ds
  induction ds with
  | nil =>
      intro fuel prior s hs hsegs hshort _ hfuel
      obtain ⟨f, rfl⟩ : ∃ f, fuel = f + 1 := ⟨fuel - 1, by omega⟩
      rw [respLoop_end onHeader true f hs.forced hsegs]
      refine ⟨.drained ?_ rfl hs.state ?_, rfl⟩
      · rw [List.flatten_nil, List.append_nil]
        exact hshort
      · rw [List.flatten_nil, List.append_nil]
        exact hs.calls
  | cons d ds ih =>
      intro fuel prior s hs hsegs hshort hreads hfuel
      obtain ⟨f, rfl⟩ : ∃ f, fuel = f + 1 := ⟨fuel - 1, by omega⟩
      obtain ⟨hd, hdlen⟩ := hreads d List.mem_cons_self
      refine ⟨?_, respLoop_head hs.flag⟩
      have hread := Sock.read_cons (n := s.buffer.length - s.ctx.remainDataLen) hsegs hd
        (by rw [hs.remain]; omega)
      have hstore : (store s.buffer 0 d).length = s.buffer.length := store_length (by omega)
      obtain ⟨s', hpass, hs', hbuf', hsock'⟩ := plain_pass onHeader (n := n)
        (s := { s with buffer := store s.buffer 0 d,
                       sock := { s.sock with segs := ds, taken := s.sock.taken + d.length } })
        ⟨hs.state, hs.flag, hs.encoding, hs.length, hs.forced, hs.remain, hs.calls, hs.bodyLen⟩
        (store_zero _ _) hd
      rw [respLoop_read hread hd, hs.remain, hpass, List.flatten_cons]
      rcases bodyEnd_plain hs' with ⟨hn, heq, hend⟩ | ⟨hn, hlt, hend⟩ | ⟨hmore, hend⟩
      · rw [hend]
        exact .counted d hn (List.prefix_append _ _) heq.symm rfl rfl hs'.calls
      · rw [hend]
        refine .overrun hn ?_ rfl
        rw [← List.append_assoc, List.length_append]
        omega
      · rw [hend]
        refine PlainEnds.later (ih hs' (by rw [hsock']) hmore ?_
          (by rw [List.length_cons] at hfuel; omega)).1
        intro e he
        rw [hbuf']
        show e ≠ [] ∧ e.length ≤ (store s.buffer 0 d).length
        rw [hstore]
        exact hreads e (List.mem_cons_of_mem _ he)

/-- The pass that finds the end of the head hands over the bytes behind it. -/
theorem first_plain (onHeader : Bool) (readOff : Nat) {readLen : Nat} {s : RespLocal}
    {ls : List Bytes} {first stale : Bytes} (hs : Searching s) (hok : LinesOk s.ctx.state ls)
    (hne : ls ≠ []) (hbuf : s.buffer = linesText ls ++ (crlf ++ (first ++ stale)))
    (hlen : readLen = (linesText ls).length + 2 + first.length)
    (hcalls : s.calls = []) (hbody : s.bodyLen = 0)
    (hplain : (linesResp s.ctx.state ls s.resp).transferEncoding = .teNone) :
    ∃ s', respPass onHeader true readOff readLen s = bodyEnd s' ∧
      Plain (linesResp s.ctx.state ls s.resp).contentLength first s' ∧
      s'.buffer = s.buffer ∧ s'.sock = s.sock := by
  have hparse : parsePass readLen s = .ok { s with
      ctx := { s.ctx with state := .hrBody,
                          remainDataIndex := (linesText ls).length + 2,
                          remainDataLen := first.length },
      resp := linesResp s.ctx.state ls s.resp,
      lines := s.lines ++ ls } := by
    rw [parsePass, if_pos hs.state, hbuf, parse_body hok hne hlen, ← hbuf]
  generalize hs1 : ({ s with
      ctx := { s.ctx with state := .hrBody,
                          remainDataIndex := (linesText ls).length + 2,
                          remainDataLen := first.length },
      resp := linesResp s.ctx.state ls s.resp,
      lines := s.lines ++ ls } : RespLocal) = s1 at hparse
  have hresp : s1.resp = linesResp s.ctx.state ls s.resp := by rw [← hs1]
  have hstate : s1.ctx.state = .hrBody := by rw [← hs1]
  have hflag : s1.headerEndFlag = false := by rw [← hs1]; exact hs.flag
  have hpass : respPass onHeader true readOff readLen s
      = (firstBody true readLen (headerEnd onHeader readOff readLen s1)).andThen bodyEnd := by
    rw [respPass, hparse]
    simp only [hstate, hflag, if_true, Bool.false_eq_true, if_false]
  generalize hs2 : headerEnd onHeader readOff readLen s1 = s2 at hpass
  have hplain1 : s1.resp.transferEncoding = .teNone := by rw [hresp]; exact hplain
  have hctx2 : s2.ctx = s1.ctx := by rw [← hs2, headerEnd, hplain1]; rfl
  have hresp2 : s2.resp = s1.resp := by rw [← hs2]; rfl
  have hforced2 : s2.forcedContinue = false := by
    rw [← hs2, headerEnd, hplain1, ← hs1]
    exact hs.forced
  have hcalls2 : bodyBytes s2.calls = [] := by
    rw [← hs2, headerEnd, ← hs1]
    cases onHeader with
    | true =>
        show bodyBytes (s.calls ++ [_]) = []
        rw [hcalls]
        rfl
    | false =>
        show bodyBytes s.calls = []
        rw [hcalls]
        rfl
  have hbody2 : s2.bodyLen = 0 := by rw [← hs2, ← hs1]; exact hbody
  have hflag2 : s2.headerEndFlag = true := by rw [← hs2]; rfl
  have hbuf2 : s2.buffer = s.buffer := by rw [← hs2, ← hs1]; rfl
  have hsock2 : s2.sock = s.sock := by rw [← hs2, ← hs1]; rfl
  have hidx2 : s2.ctx.remainDataIndex = (linesText ls).length + 2 := by rw [hctx2, ← hs1]
  have hrem2 : s2.ctx.remainDataLen = first.length := by rw [hctx2, ← hs1]
  have hstate2 : s2.ctx.state = .hrBody := by rw [hctx2, hstate]
  have hplain2 : s2.resp.transferEncoding = .teNone := by rw [hresp2, hplain1]
  have hlength2 : s2.resp.contentLength = (linesResp s.ctx.state ls s.resp).contentLength := by
    rw [hresp2, hresp]
  rw [hpass, firstBody, hplain2]
  by_cases hfirst : first.length > 0
  · have hslice : slice s2.buffer (s2.ctx.remainDataIndex : Int) first.length = .ok first := by
      have hb : s2.buffer = (linesText ls ++ crlf) ++ (first ++ stale) := by
        rw [hbuf2, hbuf, List.append_assoc]
      have hpre : (linesText ls ++ crlf).length = (linesText ls).length + 2 := by
        rw [List.length_append]
        rfl
      have hle : 0 ≤ (s2.ctx.remainDataIndex : Int) ∧
          (s2.ctx.remainDataIndex : Int).toNat + first.length ≤ s2.buffer.length := by
        rw [hidx2, hb]
        simp only [List.length_append, Int.toNat_natCast] at hpre ⊢
        omega
      rw [slice, if_neg (by omega), if_pos hle, Int.toNat_natCast, hidx2, ← hpre, hb,
        List.drop_left, List.take_left]
    refine ⟨{ s2 with
      bodyLen := s2.bodyLen + first.length,
      calls := s2.calls ++ [.body { bytes := first, len := first.length }],
      ctx := { s2.ctx with remainDataIndex := 0, remainDataLen := 0 } }, ?_, ?_, hbuf2, hsock2⟩
    · simp only [hrem2, if_pos hfirst, callBody, if_true, hslice, RespFlow.andThen]
    · refine ⟨hstate2, hflag2, hplain2, hlength2, hforced2, rfl, ?_, ?_⟩
      · rw [bodyBytes_append, hcalls2]
        exact List.append_nil _
      · show s2.bodyLen + (first.length : Int) = _
        rw [hbody2]
        exact Int.zero_add _
  · have hnil : first = [] := List.eq_nil_of_length_eq_zero (by omega)
    refine ⟨s2, ?_, ?_, hbuf2, hsock2⟩
    · simp only [hrem2, if_neg hfirst, RespFlow.andThen]
    · refine ⟨hstate2, hflag2, hplain2, hlength2, hforced2, ?_, ?_, ?_⟩
      · rw [hrem2, hnil]
        rfl
      · rw [hcalls2, hnil]
      · rw [hbody2, hnil]
        rfl

/-! ## Bodies nobody can decode -/

/-- The state of a call whose body has an encoding the loop has no case for. -/
structure Skipping (s : RespLocal) : Prop where
  state : s.ctx.state = .hrBody
  flag : s.headerEndFlag = true
  encoding : s.resp.transferEncoding = .teNotSupported
  forced : s.forcedContinue = false
  room : s.ctx.remainDataLen < s.buffer.length

theorem bodyEnd_skipping {s : RespLocal} (h : s.resp.transferEncoding = .teNotSupported) :
    bodyEnd s = .go s := by
  rw [bodyEnd, h, if_neg (fun h => by cases h.1), if_neg (fun h => by cases h.1)]

theorem skipping_pass (onHeader : Bool) (readOff readLen : Nat) {s : RespLocal}
    (hs : Skipping s) : respPass onHeader true readOff readLen s = .go s := by
  have hparse : parsePass readLen s = .ok s := by
    rw [parsePass, hs.state]
    rfl
  rw [respPass, hparse]
  simp only [hs.state, hs.flag, if_true]
  rw [nextBody, hs.encoding]
  exact bodyEnd_skipping hs.encoding

/-- **AN UNSUPPORTED ENCODING IS READ TO THE END** of the socket and reported as a
    success, with nothing handed over. -/
theorem skipping_run (onHeader : Bool) : ∀ {fuel : Nat} {s : RespLocal}, Skipping s →
    s.sock.segs.flatten.length + s.sock.segs.length < fuel → (∀ d ∈ s.sock.segs, d ≠ []) →
    (respLoop onHeader true fuel s).stop = .ok 0 := by
  intro fuel
  induction fuel with
  | zero => intro s _ hfuel _; exact absurd hfuel (Nat.not_lt_zero _)
  | succ fuel ih =>
      intro s hs hfuel hreads
      have hroom := hs.room
      cases hsegs : s.sock.segs with
      | nil => rw [respLoop_end onHeader true fuel hs.forced hsegs]
      | cons d ds =>
          rw [hsegs] at hfuel hreads
          have hdpos : 0 < d.length := List.length_pos_iff.mpr (hreads d List.mem_cons_self)
          obtain ⟨n, hn⟩ : ∃ n, n = s.buffer.length - s.ctx.remainDataLen := ⟨_, rfl⟩
          obtain ⟨sock, hsock⟩ : ∃ sock : Sock, sock = { s.sock with
              segs := if d.length ≤ n then ds else d.drop n :: ds,
              taken := s.sock.taken + (d.take n).length } := ⟨_, rfl⟩
          have hread : s.sock.read (s.buffer.length - s.ctx.remainDataLen)
              = (some (d.take n), sock) := by
            rw [← hn, Sock.read, if_neg (by omega), hsegs, hsock]
          have hlen : (d.take n).length = min n d.length := List.length_take
          have hstore : (store s.buffer s.ctx.remainDataLen (d.take n)).length
              = s.buffer.length := store_length (by omega)
          have hs1 : Skipping { s with
              buffer := store s.buffer s.ctx.remainDataLen (d.take n), sock := sock } :=
            ⟨hs.state, hs.flag, hs.encoding, hs.forced, by
              show s.ctx.remainDataLen < (store s.buffer s.ctx.remainDataLen (d.take n)).length
              omega⟩
          rw [respLoop_read hread (List.length_pos_iff.mp (by omega)),
            skipping_pass onHeader _ _ hs1, runAfter]
          have hsegs' : sock.segs = if d.length ≤ n then ds else d.drop n :: ds := by rw [hsock]
          rw [List.flatten_cons, List.length_append, List.length_cons] at hfuel
          by_cases hfit : d.length ≤ n
          · rw [if_pos hfit] at hsegs'
            refine ih hs1 ?_ ?_
            · show sock.segs.flatten.length + sock.segs.length < fuel
              rw [hsegs']
              omega
            · intro e he
              have he' : e ∈ sock.segs := he
              rw [hsegs'] at he'
              exact hreads e (List.mem_cons_of_mem _ he')
          · rw [if_neg hfit] at hsegs'
            refine ih hs1 ?_ ?_
            · show sock.segs.flatten.length + sock.segs.length < fuel
              rw [hsegs', List.flatten_cons, List.length_append, List.length_cons,
                List.length_drop]
              omega
            · intro e he
              have he' : e ∈ sock.segs := he
              rw [hsegs'] at he'
              rcases List.mem_cons.mp he' with rfl | hm
              · intro hnil
                have := congrArg List.length hnil
                rw [List.length_drop, List.length_nil] at this
                omega
              · exact hreads e (List.mem_cons_of_mem _ hm)

/-- The first pass over such a response leaves the body in the buffer. -/
theorem first_skipping (onHeader : Bool) (readOff : Nat) {readLen : Nat} {s : RespLocal}
    {ls : List Bytes} {first stale : Bytes} (hs : Searching s) (hok : LinesOk s.ctx.state ls)
    (hne : ls ≠ []) (hbuf : s.buffer = linesText ls ++ (crlf ++ (first ++ stale)))
    (hlen : readLen = (linesText ls).length + 2 + first.length)
    (hunsupported : (linesResp s.ctx.state ls s.resp).transferEncoding = .teNotSupported) :
    ∃ s', respPass onHeader true readOff readLen s = .go s' ∧ Skipping s' ∧
      s'.sock = s.sock := by
  obtain ⟨s1, hs1⟩ : ∃ s1 : RespLocal, s1 = { s with
      ctx := { s.ctx with state := .hrBody,
                          remainDataIndex := (linesText ls).length + 2,
                          remainDataLen := first.length },
      resp := linesResp s.ctx.state ls s.resp,
      lines := s.lines ++ ls } := ⟨_, rfl⟩
  have hparse : parsePass readLen s = .ok s1 := by
    rw [parsePass, if_pos hs.state, hbuf, parse_body hok hne hlen, ← hbuf, hs1]
  have hstate : s1.ctx.state = .hrBody := by rw [hs1]
  have hflag : s1.headerEndFlag = false := by rw [hs1]; exact hs.flag
  have henc : s1.resp.transferEncoding = .teNotSupported := by rw [hs1]; exact hunsupported
  refine ⟨headerEnd onHeader readOff readLen s1, ?_, ⟨?_, rfl, henc, ?_, ?_⟩, ?_⟩
  · rw [respPass, hparse]
    simp only [hstate, hflag, if_true, Bool.false_eq_true, if_false]
    have henc' : (headerEnd onHeader readOff readLen s1).resp.transferEncoding
        = .teNotSupported := henc
    rw [firstBody, henc']
    exact bodyEnd_skipping henc'
  · rw [headerEnd, henc]
    exact hstate
  · rw [headerEnd, henc, hs1]
    exact hs.forced
  · rw [headerEnd, henc, hs1]
    show first.length < s.buffer.length
    rw [hbuf]
    simp only [List.length_append]
    show _ < _ + (2 + _)
    omega
  · rw [hs1]
    rfl

/-! ## Where the head ends -/

/-- **READS IN STEP WITH THE RESPONSE**: inside the head a read ends at the end of
    a line, and the one that holds the end of the head holds a line of it; if it
    ends within a line, the socket has no more or the line is too long for the
    buffer.  Chunks are cut so that they are resumed. -/
def inStep (chunked : Bool) (chunks : List Chunk) : Bytes → List Bytes → List Bytes → Bool
  | _, _, [] => true
  | buffer, rest, p :: ps =>
      if headLeft rest ≤ p.length then
        decide (rest ≠ []) &&
          (!chunked || (decide (4 ≤ p.length - headLeft rest) &&
            resumes chunks (p.length - headLeft rest) p.length (store buffer 0 p) ps))
      else if (advance rest p.length).2 = 0 then
        inStep chunked chunks (store buffer 0 p) (advance rest p.length).1 ps
      else decide (ps = [] ∨ (advance rest p.length).2 = buffer.length)

/-- The call stands before the read that brings the end of the head. -/
structure Found (onHeader chunked : Bool) (chunks : List Chunk) (rest ps : List Bytes)
    (s : RespLocal) (fuel : Nat) (s' : RespLocal) (ls : List Bytes) (first : Bytes)
    (later : List Bytes) (fuel' : Nat) : Prop where
  searching : Searching s'
  remain : s'.ctx.remainDataLen = 0
  linesOk : LinesOk s'.ctx.state ls
  lines : ls ≠ []
  segs : s'.sock.segs = (linesText ls ++ crlf ++ first) :: later
  fits : (linesText ls ++ crlf ++ first).length ≤ s'.buffer.length
  calls : s'.calls = []
  bodyLen : s'.bodyLen = 0
  sizeStr : s'.ctx.chunkSizeStr = [0, 0, 0, 0, 0]
  resp : linesResp s'.ctx.state ls s'.resp = linesResp s.ctx.state rest s.resp
  ending : s'.sock.ending = s.sock.ending
  reads : ∀ d ∈ later, d ≠ [] ∧ d.length ≤ s'.buffer.length
  body : ps.flatten.drop (headLeft rest) = first ++ later.flatten
  cut : chunked = true → 4 ≤ first.length ∧
    resumes chunks first.length (linesText ls ++ crlf ++ first).length
      (store s'.buffer 0 (linesText ls ++ crlf ++ first)) later = true
  enough : later.flatten.length + later.length + 2 < fuel'
  run : respLoop onHeader true fuel s = respLoop onHeader true fuel' s'

/-- **THE HEAD IS FOUND OR THE CALL LEAVES WITH 0**. -/
theorem locate (onHeader chunked : Bool) (chunks : List Chunk) {body : Bytes} :
    ∀ {ps rest : List Bytes} {s : RespLocal} {fuel : Nat}, Searching s →
      s.ctx.remainDataLen = 0 → LinesOk s.ctx.state rest → s.calls = [] → s.bodyLen = 0 →
      s.ctx.chunkSizeStr = [0, 0, 0, 0, 0] → (∀ p ∈ ps, p ≠ [] ∧ p.length ≤ s.buffer.length) →
      s.sock.segs = ps → ps.flatten <+: (linesText rest ++ crlf) ++ body →
      inStep chunked chunks s.buffer rest ps = true →
      ps.flatten.length + ps.length + 2 < fuel →
      (safe s.buffer.length rest ps = false ∧ (respLoop onHeader true fuel s).stop = .ok 0 ∧
        (respLoop onHeader true fuel s).s.head = none) ∨
      (safe s.buffer.length rest ps = true ∧ headLeft rest ≤ ps.flatten.length ∧
        ∃ s' ls first later fuel',
          Found onHeader chunked chunks rest ps s fuel s' ls first later fuel') := by
  intro ps
  induction ps with
  | nil =>
      intro rest s fuel hs _ _ _ _ _ _ hsegs _ _ hfuel
      obtain ⟨f, rfl⟩ : ∃ f, fuel = f + 1 := ⟨fuel - 1, by omega⟩
      refine Or.inl ⟨rfl, ?_, ?_⟩
      · rw [respLoop_end onHeader true f hs.forced hsegs]
      · exact respLoop_empty hs hsegs
  | cons p ps ih =>
      intro rest s fuel hs hrem hok hcalls hbody hstr hreads hsegs hjoin hstep hfuel
      obtain ⟨f, rfl⟩ : ∃ f, fuel = f + 1 := ⟨fuel - 1, by omega⟩
      obtain ⟨hp, hplen⟩ := hreads p List.mem_cons_self
      have hppos : 0 < p.length := List.length_pos_iff.mpr hp
      have htext : (linesText rest ++ crlf).length = headLeft rest := by
        rw [List.length_append]
        rfl
      rw [List.flatten_cons] at hjoin
      rw [List.flatten_cons, List.length_append, List.length_cons] at hfuel
      have hppre : p <+: (linesText rest ++ crlf) ++ body :=
        (List.prefix_append _ _).trans hjoin
      rw [inStep] at hstep
      rw [safe]
      by_cases hwhole : headLeft rest ≤ p.length
      · -- the end of the head is in this read
        rw [if_pos hwhole, Bool.and_eq_true, decide_eq_true_eq] at hstep
        obtain ⟨hne, hcut⟩ := hstep
        rw [if_pos hwhole]
        obtain ⟨first, rfl, -⟩ := prefix_split hppre (by omega)
        have hfirst : (linesText rest ++ crlf ++ first).length - headLeft rest
            = first.length := by
          rw [List.length_append, htext]
          omega
        rw [hfirst] at hcut
        refine Or.inr ⟨decide_eq_true hne, ?_, s, rest, first, ps, f + 1, ?_⟩
        · rw [List.flatten_cons, List.length_append]
          omega
        · constructor
          · exact hs
          · exact hrem
          · exact hok
          · exact hne
          · exact hsegs
          · exact hplen
          · exact hcalls
          · exact hbody
          · exact hstr
          · rfl
          · rfl
          · exact fun d hd => hreads d (List.mem_cons_of_mem _ hd)
          · rw [List.flatten_cons, ← htext, List.append_assoc _ first, List.drop_left]
          · intro hc
            rw [hc, Bool.not_true, Bool.false_or, Bool.and_eq_true, decide_eq_true_eq] at hcut
            exact hcut
          · omega
          · rfl
      · -- complete lines and a tail
        rw [if_neg hwhole] at hstep
        rw [if_neg hwhole]
        have hpin : p <+: linesText rest ++ crlf :=
          List.prefix_of_prefix_length_le hppre (List.prefix_append _ _) (by omega)
        obtain ⟨done, rest', w, hsplit, hpw, hadv, hokr, hpass, hsearch, hcap⟩ :=
          inside_read onHeader true ps hs hok hp hplen hpin (by omega)
        have hplen' : p.length = (linesText done).length + w.length := by
          rw [hpw, List.length_append]
        have hread := Sock.read_cons (n := s.buffer.length - s.ctx.remainDataLen) hsegs hp
          (by omega)
        have hloop : respLoop onHeader true (f + 1) s =
            respLoop onHeader true f (keeping (reading s p ps) done w) := by
          rw [respLoop_read hread hp, hrem]
          exact congrArg (runAfter onHeader true f) hpass
        rw [hadv] at hstep ⊢
        dsimp only at hstep ⊢
        by_cases hw0 : w.length = 0
        · -- at the end of a line
          have hwnil : w = [] := List.eq_nil_of_length_eq_zero hw0
          have hbuf : (keeping (reading s p ps) done w).buffer = store s.buffer 0 p := by
            rw [hwnil]
            show store (store s.buffer 0 p) 0 [] = _
            rw [store_zero]
            rfl
          have hjoin' : ps.flatten <+: (linesText rest' ++ crlf) ++ body := by
            rw [hpw, hwnil, hsplit, linesText_append, List.append_nil, List.append_assoc,
              List.append_assoc, List.prefix_append_right_inj] at hjoin
            rw [List.append_assoc]
            exact hjoin
          rw [if_pos hw0] at hstep ⊢
          have hnext := ih (s := keeping (reading s p ps) done w) hsearch hw0 hokr hcalls hbody hstr
            (by
              intro d hd
              rw [hcap]
              exact hreads d (List.mem_cons_of_mem _ hd)) rfl hjoin'
            (by rw [hbuf]; exact hstep)
            (show ps.flatten.length + ps.length + 2 < f by omega)
          rw [hcap] at hnext
          have hhead : headLeft rest = p.length + headLeft rest' := by
            rw [hsplit, headLeft, headLeft, linesLength_append, hplen', hw0, linesLength]
            omega
          rcases hnext with ⟨hun, hstop, hnone⟩ | ⟨hsafe, hlong, s', ls, first, later, g, hfound⟩
          · refine Or.inl ⟨hun, ?_, ?_⟩
            · rw [hloop]; exact hstop
            · rw [hloop]; exact hnone
          · refine Or.inr ⟨hsafe, ?_, s', ls, first, later, g, ?_⟩
            · rw [List.flatten_cons, List.length_append]
              omega
            · refine ⟨hfound.searching, hfound.remain, hfound.linesOk, hfound.lines, hfound.segs,
                hfound.fits, hfound.calls, hfound.bodyLen, hfound.sizeStr, ?_, hfound.ending,
                hfound.reads, ?_, hfound.cut, hfound.enough, ?_⟩
              · rw [hfound.resp, hsplit, linesResp_append]
                rfl
              · rw [List.flatten_cons, hhead, ← List.drop_drop, List.drop_left]
                exact hfound.body
              · rw [hloop]
                exact hfound.run
        · -- within a line
          rw [if_neg hw0, decide_eq_true_eq] at hstep
          rw [if_neg hw0]
          obtain ⟨g, rfl⟩ : ∃ g, f = g + 1 := ⟨f - 1, by omega⟩
          have hend : respLoop onHeader true (g + 1) (keeping (reading s p ps) done w) =
              { stop := .ok 0, s := keeping (reading s p ps) done w } := by
            rcases hstep with hnil | hfull
            · exact respLoop_end onHeader true g hsearch.forced hnil
            · refine respLoop_full onHeader true g hsearch.forced (Nat.le_of_eq ?_)
              rw [hcap]
              exact hfull.symm
          refine Or.inl ⟨decide_eq_false ?_, ?_, ?_⟩
          · rintro ⟨-, hlt⟩
            rcases hstep with hnil | hfull
            · rw [hnil, List.headD_nil, List.length_nil, Nat.zero_min] at hlt
              exact Nat.not_lt_zero _ hlt
            · rw [hfull, Nat.sub_self, Nat.min_zero] at hlt
              exact Nat.not_lt_zero _ hlt
          · rw [hloop, hend]
          · rw [hloop, hend]
            exact hsearch.head

/-! ## The three kinds of bodies -/

section Kinds

variable {onHeader chunked : Bool} {chunks : List Chunk} {rest ps ls later : List Bytes}
  {s s' : RespLocal} {fuel fuel' : Nat} {first : Bytes}

/-- The pass over the read that brings the end of the head. -/
theorem Found.pass (h : Found onHeader chunked chunks rest ps s fuel s' ls first later fuel') :
    ∃ f s1, fuel' = f + 1 ∧ Searching s1 ∧ s1.ctx = s'.ctx ∧ s1.resp = s'.resp ∧
      s1.calls = [] ∧ s1.bodyLen = 0 ∧ s1.sock.segs = later ∧
      s1.buffer.length = s'.buffer.length ∧
      s1.buffer = linesText ls ++ (crlf ++ (first ++
        s'.buffer.drop (linesText ls ++ crlf ++ first).length)) ∧
      respLoop onHeader true fuel s = runAfter onHeader true f
        (respPass onHeader true 0 (linesText ls ++ crlf ++ first).length s1) := by
  have henough := h.enough
  obtain ⟨f, rfl⟩ : ∃ f, fuel' = f + 1 := ⟨fuel' - 1, by omega⟩
  have hfits := h.fits
  have hpos : linesText ls ++ crlf ++ first ≠ [] := by
    intro hnil
    have hlen := congrArg List.length hnil
    rw [List.length_append, List.length_append] at hlen
    have h2 : crlf.length = 2 := rfl
    rw [List.length_nil] at hlen
    omega
  have hread := Sock.read_cons (n := s'.buffer.length - s'.ctx.remainDataLen) h.segs hpos
    (by rw [h.remain]; omega)
  have hstore : (store s'.buffer 0 (linesText ls ++ crlf ++ first)).length = s'.buffer.length :=
    store_length (by omega)
  obtain ⟨s1, hs1⟩ : ∃ s1 : RespLocal, s1 = { s' with
      buffer := store s'.buffer 0 (linesText ls ++ crlf ++ first),
      sock := { s'.sock with segs := later, taken := s'.sock.taken
        + (linesText ls ++ crlf ++ first).length } } := ⟨_, rfl⟩
  refine ⟨f, s1, rfl, ?_, ?_, ?_, ?_, ?_, ?_, ?_, ?_, ?_⟩
  · rw [hs1]
    refine ⟨h.searching.state, h.searching.flag, h.searching.forced, h.searching.head, ?_⟩
    show s'.ctx.remainDataLen ≤ (store s'.buffer 0 (linesText ls ++ crlf ++ first)).length
    rw [h.remain]
    exact Nat.zero_le _
  · rw [hs1]
  · rw [hs1]
  · rw [hs1]; exact h.calls
  · rw [hs1]; exact h.bodyLen
  · rw [hs1]
  · rw [hs1]; exact hstore
  · rw [hs1]
    show store s'.buffer 0 (linesText ls ++ crlf ++ first) = _
    rw [store_zero, List.append_assoc, List.append_assoc]
  · rw [h.run, respLoop_read hread hpos, h.remain, hs1]

theorem read_length (ls : List Bytes) (first : Bytes) :
    (linesText ls ++ crlf ++ first).length = (linesText ls).length + 2 + first.length := by
  rw [List.length_append, List.length_append]
  rfl

theorem Found.plain (h : Found onHeader chunked chunks rest ps s fuel s' ls first later fuel')
    (hplain : (linesResp s.ctx.state rest s.resp).transferEncoding = .teNone) :
    PlainEnds (linesResp s.ctx.state rest s.resp).contentLength [] (first ++ later.flatten)
      (respLoop onHeader true fuel s) := by
  have henough := h.enough
  obtain ⟨f, s1, rfl, hs1, hctx, hresp, hcalls, hbody, hsegs, hlen, hbuf, hrun⟩ := h.pass
  have hsame : linesResp s1.ctx.state ls s1.resp = linesResp s.ctx.state rest s.resp := by
    rw [hctx, hresp, h.resp]
  obtain ⟨s2, hpass, hs2, hbuf2, hsock2⟩ := first_plain onHeader 0 hs1
    (by rw [hctx]; exact h.linesOk) h.lines hbuf (read_length ls first) hcalls hbody
    (by rw [hsame]; exact hplain)
  rw [hsame] at hs2
  rw [hrun, hpass]
  refine PlainEnds.later ?_
  rw [List.nil_append]
  rcases bodyEnd_plain hs2 with ⟨hn, heq, hend⟩ | ⟨hn, hlt, hend⟩ | ⟨hmore, hend⟩
  · rw [hend]
    refine .counted [] hn List.nil_prefix ?_ rfl rfl ?_
    · rw [List.append_nil]
      exact heq.symm
    · rw [List.append_nil]
      exact hs2.calls
  · rw [hend]
    refine .overrun hn ?_ rfl
    rw [List.length_append]
    omega
  · rw [hend]
    refine (plain_run onHeader hs2 (by rw [hsock2, hsegs]) hmore ?_ (by omega)).1
    intro d hd
    rw [hbuf2, hlen]
    exact h.reads d hd

theorem Found.skipping (h : Found onHeader chunked chunks rest ps s fuel s' ls first later fuel')
    (henc : (linesResp s.ctx.state rest s.resp).transferEncoding = .teNotSupported) :
    (respLoop onHeader true fuel s).stop = .ok 0 := by
  have henough := h.enough
  obtain ⟨f, s1, rfl, hs1, hctx, hresp, -, -, hsegs, -, hbuf, hrun⟩ := h.pass
  have hsame : linesResp s1.ctx.state ls s1.resp = linesResp s.ctx.state rest s.resp := by
    rw [hctx, hresp, h.resp]
  obtain ⟨s2, hpass, hs2, hsock2⟩ := first_skipping onHeader 0 hs1
    (by rw [hctx]; exact h.linesOk) h.lines hbuf (read_length ls first)
    (by rw [hsame]; exact henc)
  have hsegs2 : s2.sock.segs = later := by rw [hsock2, hsegs]
  rw [hrun, hpass]
  refine skipping_run onHeader hs2 ?_ ?_
  · rw [hsegs2]
    omega
  · intro d hd
    rw [hsegs2] at hd
    exact (h.reads d hd).1

theorem Found.decoded {t : Bytes}
    (h : Found onHeader true chunks rest ps s fuel s' ls first later fuel')
    (h4 : ∀ c ∈ chunks, c.FourDigits)
    (hchunked : (linesResp s.ctx.state rest s.resp).transferEncoding = .teChunked)
    (hpre : first ++ later.flatten <+: codingThen t chunks) :
    Finishes true chunks (first ++ later.flatten).length [] 0 s.sock.ending
      (respLoop onHeader true fuel s) := by
  have henough := h.enough
  obtain ⟨hfour, hsafe⟩ := h.cut rfl
  have hfinish := first_run onHeader true fuel' h4 h.searching.state h.searching.flag h.remain
    h.linesOk h.lines h.segs h.fits (by rw [h.resp]; exact hchunked)
    ⟨[0, 0, 0, 0], h.sizeStr⟩ hpre hfour hsafe h.reads (by omega)
  rw [h.calls, h.bodyLen, h.ending, ← h.run] at hfinish
  exact hfinish

end Kinds

/-! ## What the peer may count on -/

/-- The name of a field line. -/
def fieldName (l : Bytes) : Bytes :=
  match strstr (lit ": ") l with
  | some k => l.take k
  | none => []

/-- A Content-Length is declared. -/
def declaresLength (h : ResponseHead) : Bool :=
  h.fields.any fun l => strcaseeq (lit "Content-Length") (fieldName l)

/-- The status line reader does not touch the length. -/
theorem scanStatus_length {t : Bytes} {resp r : HttpResponse} (h : scanStatus t resp = .ok r) :
    r.contentLength = resp.contentLength := by
  unfold scanStatus at h
  repeat' split at h
  all_goals
    first
      | rw [← Except.ok.inj h]
      | cases h

theorem statusResp_length (l : Bytes) (resp : HttpResponse) :
    (statusResp l resp).contentLength = resp.contentLength := by
  rw [statusResp]
  cases hscan : scanStatus (l.drop 5) resp with
  | error e => rfl
  | ok r => exact scanStatus_length hscan

/-- No other field sets the length. -/
theorem fieldResp_length {n : Bytes} (d : Bytes) (resp : HttpResponse)
    (h : strcaseeq (lit "Content-Length") n = false) :
    (fieldResp n d resp).contentLength = resp.contentLength := by
  rw [fieldResp, h]
  simp only [Bool.false_eq_true, if_false]
  repeat' split
  all_goals rfl

theorem linesResp_length : ∀ {ls : List Bytes} (resp : HttpResponse),
    (ls.any fun l => strcaseeq (lit "Content-Length") (fieldName l)) = false →
    (linesResp .hrHeaderLine ls resp).contentLength = resp.contentLength := by
  intro ls
  induction ls with
  | nil => intro resp _; rfl
  | cons l ls ih =>
      intro resp h
      rw [List.any_cons, Bool.or_eq_false_iff] at h
      obtain ⟨hl, hls⟩ := h
      rw [linesResp, ih _ hls, lineResp]
      cases hk : strstr (lit ": ") l with
      | none => rfl
      | some k =>
          refine fieldResp_length _ resp ?_
          rw [fieldName, hk] at hl
          exact hl

/-- A response, as much of it as arrives, and the connection it arrives on.  If
    chunks are announced, `body` is the coding of `chunks` with `behind` behind. -/
structure Arrival where
  head : ResponseHead
  body : Bytes
  chunks : List Chunk
  behind : Bytes
  buffer : Bytes
  reads : List Bytes
  peer : Peer
  room : 0 < buffer.length
  coded : (linesResp .hrFirstLine head.lines .zero).transferEncoding = .teChunked →
    body = codingThen behind chunks
  joined : reads.flatten <+: head.text ++ body
  results : ∀ d ∈ reads, d ≠ [] ∧ d.length ≤ buffer.length

variable (a : Arrival)

/-- The response as its head describes it. -/
def Arrival.resp : HttpResponse := linesResp .hrFirstLine a.head.lines .zero

/-- The bytes that arrive behind the head. -/
def Arrival.received : Bytes := a.reads.flatten.drop a.head.text.length

/-- The socket with the arrivals. -/
def Arrival.sock : Sock := { segs := a.reads, ending := a.peer.ending, taken := 0 }

def Arrival.run : RespRun :=
  httpInternalResponse (.fresh a.peer.sockfd a.peer.clb) a.buffer a.sock

/-- The body was handed over whole. -/
def Arrival.BodyWhole : Prop :=
  match a.resp.transferEncoding with
  | .teNone =>
      if declaresLength a.head then
        ((bodyBytes a.run.s.calls).length : Int) = a.resp.contentLength ∧
          bodyBytes a.run.s.calls <+: a.received
      else bodyBytes a.run.s.calls = a.received
  | .teChunked =>
      pendingAt a.chunks a.received.length = .done ∧
        bodyBytes a.run.s.calls = contents a.chunks
  | .teNotSupported => False

/-- **WHAT 0 PROMISES**: the head was parsed up to its empty line, the body was
    handed over whole, and no `read` failed before the call had all it wanted. -/
def Arrival.Sound : Prop :=
  a.run.stop = .ok 0 →
    a.run.s.head = some { lines := a.head.lines, resp := a.resp,
                          bodyPos := (a.head.text.length : Int) } ∧
    a.BodyWhole ∧ (a.run.s.ctx.state = .hrEnd ∨ a.peer.ending = .eof)

/-- The reads reach none of the places where a cut is put together wrong. -/
structure Arrival.InStep : Prop where
  sizes : a.resp.transferEncoding = .teChunked → ∀ c ∈ a.chunks, c.FourDigits
  reads : inStep (decide (a.resp.transferEncoding = .teChunked)) a.chunks a.buffer a.head.lines
    a.reads = true

/-- **WHEN THE PROMISE IS KEPT**: the head is there, and the socket does not end
    early in a way the loop cannot see. -/
def Arrival.Kept : Prop :=
  safe a.buffer.length a.head.lines a.reads = true ∧
    match a.resp.transferEncoding with
    | .teNone =>
        if 0 < a.resp.contentLength then a.resp.contentLength ≤ a.received.length
        else a.peer.ending = .eof ∧
          (declaresLength a.head = true → (a.received.length : Int) = a.resp.contentLength)
    | .teChunked =>
        pendingAt a.chunks a.received.length = .done ∨ a.peer.ending = .err
    | .teNotSupported => False

theorem Arrival.text_length : a.head.text.length = headLeft a.head.lines := a.head.text_length

theorem Arrival.run_loop : ∃ fuel, a.reads.flatten.length + a.reads.length + 2 < fuel ∧
    a.run = respLoop a.peer.clb.respHeaderFunc.isSome true fuel
      (.start (.fresh a.peer.sockfd a.peer.clb) a.buffer a.sock) := by
  refine ⟨a.reads.flatten.length + a.reads.length + 3, by omega, ?_⟩
  rw [← a.peer.listens]
  exact if_pos ⟨a.peer.fd, a.room⟩

/-- Only a declared length is there to be counted. -/
theorem Arrival.declared (h : 0 < a.resp.contentLength) : declaresLength a.head = true := by
  by_contra hnot
  rw [Bool.not_eq_true, declaresLength] at hnot
  have hzero : a.resp.contentLength = 0 := by
    rw [Arrival.resp, ResponseHead.lines, linesResp, linesResp_length _ hnot]
    exact statusResp_length a.head.status .zero
  omega

/-- A body without encoding. -/
theorem Arrival.plain_kept (hends : PlainEnds a.resp.contentLength [] a.received a.run) :
    (a.run.stop = .ok 0 →
      (if declaresLength a.head then
        ((bodyBytes a.run.s.calls).length : Int) = a.resp.contentLength ∧
          bodyBytes a.run.s.calls <+: a.received
      else bodyBytes a.run.s.calls = a.received) ∧
      (a.run.s.ctx.state = .hrEnd ∨ a.peer.ending = .eof)) ↔
    (if 0 < a.resp.contentLength then a.resp.contentLength ≤ a.received.length
      else a.peer.ending = .eof ∧
        (declaresLength a.head = true → (a.received.length : Int) = a.resp.contentLength)) := by
  cases hends with
  | counted pre hn hpre hlen hstop hstate hcalls =>
      rw [List.nil_append] at hlen hcalls
      rw [if_pos hn, if_pos (a.declared hn), hcalls]
      refine ⟨fun _ => ?_, fun _ _ => ⟨⟨hlen, hpre⟩, Or.inl hstate⟩⟩
      have := hpre.length_le
      omega
  | overrun hn hlen hstop =>
      rw [List.nil_append] at hlen
      rw [if_pos hn]
      refine ⟨fun _ => by omega, fun _ hzero => ?_⟩
      rw [hstop] at hzero
      exact absurd (Except.ok.inj hzero) (by decide)
  | drained hshort hstop hstate hcalls =>
      rw [List.nil_append] at hshort hcalls
      rw [hcalls]
      by_cases hn : 0 < a.resp.contentLength
      · have hless := hshort hn
        rw [if_pos hn, if_pos (a.declared hn)]
        refine ⟨fun h => ?_, fun hle => by omega⟩
        have hlen := (h hstop).1.1
        omega
      · rw [if_neg hn]
        constructor
        · intro h
          obtain ⟨hwhole, hend⟩ := h hstop
          refine ⟨?_, fun hdeclared => ?_⟩
          · rcases hend with hdone | heof
            · rw [hstate] at hdone
              cases hdone
            · exact heof
          · rw [if_pos hdeclared] at hwhole
            exact hwhole.1
        · rintro ⟨heof, hlen⟩ -
          refine ⟨?_, Or.inr heof⟩
          by_cases hdeclared : declaresLength a.head = true
          · rw [if_pos hdeclared]
            exact ⟨hlen hdeclared, List.prefix_rfl⟩
          · rw [if_neg hdeclared]

/-- A body in chunks. -/
theorem Arrival.chunks_kept
    (hends : Finishes true a.chunks a.received.length [] 0 a.peer.ending a.run) :
    (a.run.stop = .ok 0 →
      (pendingAt a.chunks a.received.length = .done ∧
        bodyBytes a.run.s.calls = contents a.chunks) ∧
      (a.run.s.ctx.state = .hrEnd ∨ a.peer.ending = .eof)) ↔
    (pendingAt a.chunks a.received.length = .done ∨ a.peer.ending = .err) := by
  have hstop := hends.stop
  have hstate := hends.state
  have hcalls := hends.calls
  by_cases hdone : pendingAt a.chunks a.received.length = .done
  · rw [if_pos hdone] at hstate
    rw [if_pos rfl, List.nil_append, contentsAt_done hdone] at hcalls
    exact ⟨fun _ => Or.inl hdone, fun _ _ => ⟨⟨hdone, hcalls⟩, Or.inl hstate⟩⟩
  · constructor
    · intro h
      cases hending : a.peer.ending with
      | err => exact Or.inr rfl
      | eof =>
          rw [if_pos (Or.inr hending)] at hstop
          exact absurd (h hstop).1.1 hdone
    · rintro (hd | herr) hzero
      · exact absurd hd hdone
      · rw [hstop, herr, if_neg (fun h => h.elim hdone (fun h => by cases h))] at hzero
        exact absurd (Except.ok.inj hzero) (by decide)

/-- **A RESPONSE REPORTED AS SUCCESSFUL WAS RECEIVED COMPLETELY EXACTLY WHEN** the
    socket brings what the head announces, or fails while a chunk is awaited. -/
theorem completion (hstep : a.InStep) : a.Sound ↔ a.Kept := by
  obtain ⟨fuel, hfuel, hrun⟩ := a.run_loop
  obtain ⟨s, hs⟩ : ∃ s, s = RespLocal.start (.fresh a.peer.sockfd a.peer.clb) a.buffer a.sock :=
    ⟨_, rfl⟩
  have hsearch : Searching s := by
    rw [hs]
    exact ⟨rfl, rfl, rfl, rfl, Nat.zero_le _⟩
  have hstate : s.ctx.state = .hrFirstLine := by rw [hs]; rfl
  have hresp : linesResp s.ctx.state a.head.lines s.resp = a.resp := by rw [hs]; rfl
  have hbuf : s.buffer = a.buffer := by rw [hs]; rfl
  have hsegs : s.sock.segs = a.reads := by rw [hs]; rfl
  have hok : LinesOk s.ctx.state a.head.lines := by rw [hstate]; exact a.head.linesOk
  have hloc := locate a.peer.clb.respHeaderFunc.isSome
    (decide (a.resp.transferEncoding = .teChunked)) a.chunks hsearch
    (by rw [hs]; rfl) hok (by rw [hs]; rfl) (by rw [hs]; rfl) (by rw [hs]; rfl)
    (by rw [hbuf]; exact a.results) hsegs a.joined (by rw [hbuf]; exact hstep.reads) hfuel
  rw [hbuf] at hloc
  rw [← hs] at hrun
  rcases hloc with ⟨hlost, hstop, hnone⟩ | ⟨hsafe, hlong, s', ls, first, later, g, hfound⟩
  · rw [← hrun] at hstop hnone
    constructor
    · intro hsound
      have hhead := (hsound hstop).1
      rw [hnone] at hhead
      cases hhead
    · intro hkept
      have hcut := hkept.1
      rw [hlost] at hcut
      cases hcut
  · have hbody := hfound.body
    rw [← a.text_length] at hbody
    have hreceived : a.received = first ++ later.flatten := hbody
    have hjoin : a.reads.flatten = linesText a.head.lines ++ (crlf ++ a.received) := by
      obtain ⟨v, hv, -⟩ := prefix_split a.joined (by rw [a.text_length]; exact hlong)
      have hv' : a.received = v := by
        rw [Arrival.received, hv, List.drop_left]
      rw [hv, hv', ResponseHead.text, List.append_assoc]
    have hhead : a.run.s.head = some { lines := a.head.lines, resp := a.resp,
                                       bodyPos := (a.head.text.length : Int) } := by
      have hseen := (head_iff_safe a.peer.clb.respHeaderFunc.isSome true hsearch
        (by rw [hs]; rfl) hok (by rw [hbuf]; exact a.results) hsegs hjoin
        (show a.reads.length < fuel by omega)).mpr
        (by rw [hbuf]; exact hsafe)
      have hpos : ((s.sock.taken : Int) - (0 : Nat) + (linesLength a.head.lines + 2 : Nat))
          = (a.head.text.length : Int) := by
        rw [a.text_length, hs]
        show (0 : Int) - 0 + _ = _
        rw [Int.sub_zero, Int.zero_add]
        rfl
      rw [hrun, hseen, rightHead, hresp, hpos, hs]
      rfl
    -- what is left is the body, in each of the three encodings
    have hreduce : a.Sound ↔
        (a.run.stop = .ok 0 → a.BodyWhole ∧ (a.run.s.ctx.state = .hrEnd ∨ a.peer.ending = .eof)) :=
      ⟨fun h hz => (h hz).2, fun h hz => ⟨hhead, h hz⟩⟩
    rw [hreduce, Arrival.Kept, Arrival.BodyWhole]
    simp only [hsafe, true_and]
    cases henc : a.resp.transferEncoding with
    | teNone =>
        have hends := hfound.plain (by rw [hresp]; exact henc)
        rw [hresp, ← hreceived, ← hrun] at hends
        exact a.plain_kept hends
    | teChunked =>
        have hflag : decide (a.resp.transferEncoding = .teChunked) = true := decide_eq_true henc
        rw [hflag] at hfound
        have hends := hfound.decoded (t := a.behind)
          (hstep.sizes henc)
          (by rw [hresp]; exact henc)
          (by
            have hpre := a.joined
            rw [hjoin, ResponseHead.text, List.append_assoc, List.prefix_append_right_inj,
              List.prefix_append_right_inj, a.coded henc, hreceived] at hpre
            exact hpre)
        rw [← hreceived, ← hrun] at hends
        have hending : s.sock.ending = a.peer.ending := by rw [hs]; rfl
        rw [hending] at hends
        exact a.chunks_kept hends
    | teNotSupported =>
        have hstop := hfound.skipping (by rw [hresp]; exact henc)
        rw [← hrun] at hstop
        exact ⟨fun h => (h hstop).1, fun hfalse => hfalse.elim⟩

/-- The small response of two bytes, of which so much arrives before the peer
    closes. -/
def smallArrival (reads : List Bytes) (joined : reads.flatten <+: smallHead.text ++ lit "ok")
    (results : ∀ d ∈ reads, d ≠ [] ∧ d.length ≤ 64) : Arrival :=
  { head := smallHead, body := lit "ok", chunks := [], behind := [],
    buffer := List.replicate 64 0, reads := reads, peer := smallPeer, room := by decide,
    coded := fun h => absurd h (by decide +kernel), joined := joined,
    results := by rw [List.length_replicate]; exact results }

/-- One byte of the two is missing when the peer closes. -/
def cutShort : Arrival :=
  smallArrival [lit "HTTP/1.1 200 OK\r\nContent-Length: 2\r\n\r\no"] (by decide) (by decide)

/-- Both bytes arrive. -/
def complete : Arrival :=
  smallArrival [lit "HTTP/1.1 200 OK\r\n", lit "Content-Length: 2\r\n\r\no", lit "k"] (by decide)
    (by decide)

theorem complete_sound : complete.Sound := by
  have henc : complete.resp.transferEncoding = .teNone := by decide +kernel
  refine (completion complete ⟨fun h => ?_, by decide +kernel⟩).mpr ⟨by decide +kernel, ?_⟩
  · rw [henc] at h
    cases h
  · rw [henc]
    show if 0 < complete.resp.contentLength then _ else _
    rw [if_pos (by decide +kernel)]
    decide +kernel

/-- A response that is cut short is reported as a success. -/
theorem cutShort_not_sound : ¬ cutShort.Sound := by
  intro hsound
  have hstop : cutShort.run.stop = .ok 0 := by decide +kernel
  obtain ⟨-, hbody, -⟩ := hsound hstop
  have henc : cutShort.resp.transferEncoding = .teNone := by decide +kernel
  have hdeclared : declaresLength cutShort.head = true := by decide +kernel
  have hlength : cutShort.resp.contentLength = 2 := by decide +kernel
  have hgot : bodyBytes cutShort.run.s.calls = lit "o" := by decide +kernel
  rw [Arrival.BodyWhole, henc] at hbody
  dsimp only at hbody
  rw [if_pos hdeclared, hlength, hgot] at hbody
  exact absurd hbody.1 (by decide)

end Completion
