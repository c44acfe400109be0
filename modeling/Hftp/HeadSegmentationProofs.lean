import Hftp.HttpResponseProofs

/-! # Heads cut by the network

    The parser is called with the length of the last read, although the bytes it
    kept from the read before lie in front of it.  A head is therefore put
    together right only from reads that end at the ends of lines, except that
    the last of them may overrun. -/

namespace HeadSegmentation

open CBytes HttpCore HttpHeader HttpChunked HttpResp

/-! ## Well-formed heads -/

/-- A status line and fields. -/
structure ResponseHead where
  status : Bytes
  fields : List Bytes
  statusOk : StatusLine status
  fieldsOk : ∀ l ∈ fields, FieldLine l

def ResponseHead.lines (h : ResponseHead) : List Bytes := h.status :: h.fields

/-- The lines and the empty line. -/
def ResponseHead.text (h : ResponseHead) : Bytes := linesText h.lines ++ crlf

/-- Header lines in a row are well formed. -/
theorem linesOk_fields : ∀ {ls : List Bytes}, (∀ l ∈ ls, FieldLine l) →
    LinesOk .hrHeaderLine ls := by
  intro ls
  induction ls with
  | nil => intro _; exact trivial
  | cons l ls ih =>
      intro h
      exact ⟨h l List.mem_cons_self, ih (fun k hk => h k (List.mem_cons_of_mem _ hk))⟩

/-- So are the lines of a head. -/
theorem ResponseHead.linesOk (h : ResponseHead) : LinesOk .hrFirstLine h.lines :=
  ⟨h.statusOk, linesOk_fields h.fieldsOk⟩

/-- A head is its lines and an empty one. -/
theorem ResponseHead.text_length (h : ResponseHead) :
    h.text.length = linesLength h.lines + 2 := by
  rw [ResponseHead.text, List.length_append]
  rfl

/-! ## Lines split in two -/

/-- Of well-formed lines the first ones are, and those behind them. -/
theorem LinesOk.split : ∀ {ls ms : List Bytes} {state : ParseState}, LinesOk state (ls ++ ms) →
    LinesOk state ls ∧ LinesOk (linesState state ls) ms := by
  intro ls
  induction ls with
  | nil => intro ms state h; exact ⟨trivial, h⟩
  | cons l ls ih =>
      intro ms state h
      obtain ⟨hl, hrest⟩ := h
      obtain ⟨hls, hms⟩ := ih hrest
      have hstate : linesState .hrHeaderLine ls = linesState state (l :: ls) := by
        cases ls <;> rfl
      exact ⟨⟨hl, hls⟩, hstate ▸ hms⟩

/-- Lines are read one after the other. -/
theorem linesResp_append : ∀ (ls ms : List Bytes) (state : ParseState) (resp : HttpResponse),
    linesResp state (ls ++ ms) resp = linesResp (linesState state ls) ms (linesResp state ls resp) := by
  intro ls
  induction ls with
  | nil => intro ms state resp; rfl
  | cons l ls ih =>
      intro ms state resp
      have hstate : linesState .hrHeaderLine ls = linesState state (l :: ls) := by
        cases ls <;> rfl
      rw [List.cons_append, linesResp, ih, hstate]
      rfl

/-- No line has a line end in it. -/
theorem LinesOk.noCrlf : ∀ {ls : List Bytes} {state : ParseState}, LinesOk state ls →
    ∀ l ∈ ls, ¬ crlf <:+: l := by
  intro ls
  induction ls with
  | nil => intro state _ l hl; cases hl
  | cons k ls ih =>
      rintro state ⟨hk, hls⟩ l hl
      rcases List.mem_cons.mp hl with rfl | hl'
      · exact LineOk.noCrlf hk
      · exact ih hls l hl'

/-! ## Where a read that ends inside the head ends -/

/-- Bytes of a head still to come at the start of a line. -/
def headLeft (rest : List Bytes) : Nat := linesLength rest + 2

/-- After `n` more bytes: the lines that are not complete yet, and how many bytes
    of the first of them, or of the empty line, are there. -/
def advance : List Bytes → Nat → List Bytes × Nat
  | [], n => ([], n)
  | l :: ls, n => if l.length + 2 ≤ n then advance ls (n - (l.length + 2)) else (l :: ls, n)

/-- What is left of a head is its next line, and the rest. -/
theorem headLeft_cons (l : Bytes) (ls : List Bytes) :
    headLeft (l :: ls) = l.length + 2 + headLeft ls := by
  rw [headLeft, headLeft, show l :: ls = [l] ++ ls from rfl, linesLength_append,
    linesLength_one]
  omega

/-- A line without CR LF and a CR: still no CR LF. -/
theorem noCrlf_cr {l : Bytes} (h : ¬ crlf <:+: l) : ¬ crlf <:+: l ++ [cr] := by
  rintro ⟨a, b, hab⟩
  rcases List.eq_nil_or_concat b with rfl | ⟨b', x, rfl⟩
  · have hlast := congrArg List.getLast? hab
    rw [List.append_nil, List.getLast?_concat,
      show a ++ crlf = (a ++ [cr]) ++ [lf] by simp [crlf], List.getLast?_concat] at hlast
    exact absurd (Option.some.inj hlast) (by decide)
  · rw [List.concat_eq_append, ← List.append_assoc] at hab
    exact h ⟨a, b', (List.append_inj' hab rfl).1⟩

/-- The front of a string without a line end has none. -/
theorem noCrlf_prefix {w v : Bytes} (h : ¬ crlf <:+: v) (hw : w <+: v) : ¬ crlf <:+: w :=
  fun hi => h (hi.trans hw.isInfix)

/-- A proper prefix of a head is complete lines and a part of the next line. -/
theorem prefix_lines : ∀ {rest : List Bytes} {p : Bytes}, (∀ l ∈ rest, ¬ crlf <:+: l) →
    p <+: linesText rest ++ crlf → p.length < headLeft rest →
    ∃ done rest' w, rest = done ++ rest' ∧ p = linesText done ++ w ∧ ¬ crlf <:+: w ∧
      w <+: linesText rest' ++ crlf ∧ advance rest p.length = (rest', w.length) := by
  intro rest
  induction rest with
  | nil =>
      intro p _ hp hlen
      refine ⟨[], [], p, rfl, rfl, ?_, hp, rfl⟩
      intro hi
      have : crlf.length ≤ p.length := hi.length_le
      have h2 : headLeft [] = 2 := rfl
      have h2' : crlf.length = 2 := rfl
      omega
  | cons l ls ih =>
      intro p hno hp hlen
      have hl := hno l List.mem_cons_self
      have hls : ∀ k ∈ ls, ¬ crlf <:+: k := fun k hk => hno k (List.mem_cons_of_mem _ hk)
      have htext : linesText (l :: ls) ++ crlf = (l ++ crlf) ++ (linesText ls ++ crlf) := by
        simp [crlf]
      have hlc : (l ++ crlf).length = l.length + 2 := by rw [List.length_append]; rfl
      rw [headLeft_cons] at hlen
      rw [advance]
      by_cases hge : l.length + 2 ≤ p.length
      · rw [if_pos hge]
        rw [htext] at hp
        obtain ⟨q, rfl, hq⟩ := prefix_split hp (by omega)
        rw [List.length_append, hlc] at hlen
        obtain ⟨done, rest', w, hsplit, hqw, hw, hpre, hadv⟩ := ih hls hq (by omega)
        refine ⟨l :: done, rest', w, by rw [hsplit]; rfl, ?_, hw, hpre, ?_⟩
        · rw [hqw]
          simp [crlf]
        · rw [List.length_append, hlc, Nat.add_sub_cancel_left]
          exact hadv
      · rw [if_neg hge]
        refine ⟨[], l :: ls, p, rfl, rfl, ?_, hp, rfl⟩
        refine noCrlf_prefix (noCrlf_cr hl) ?_
        have hp' : p <+: (l ++ [cr]) ++ (lf :: (linesText ls ++ crlf)) := by
          have : linesText (l :: ls) ++ crlf = (l ++ [cr]) ++ (lf :: (linesText ls ++ crlf)) := by
            simp
          rw [← this]
          exact hp
        refine List.prefix_of_prefix_length_le hp' (List.prefix_append _ _) ?_
        rw [List.length_append]
        show p.length ≤ l.length + 1
        omega

/-! ## One pass over a part of the head -/

/-- A pass over complete lines and a tail goes on to the next read. -/
theorem pass_tail (onHeader onBody : Bool) (ls : List Bytes) {readOff readLen : Nat}
    {s : RespLocal} {w stale : Bytes} (hstate : s.ctx.state.beforeBody = true)
    (hok : LinesOk s.ctx.state ls) (hw : ¬ crlf <:+: w)
    (hbuf : s.buffer = linesText ls ++ (w ++ stale))
    (hlen : readLen = (linesText ls).length + w.length) (hpos : 0 < readLen) :
    respPass onHeader onBody readOff readLen s = .go { s with
      buffer := store s.buffer 0 w,
      ctx := { s.ctx with state := linesState s.ctx.state ls,
                          remainDataIndex := (linesText ls).length,
                          remainDataLen := w.length },
      resp := linesResp s.ctx.state ls s.resp,
      lines := s.lines ++ ls } := by
  have hparse : parsePass readLen s = .ok { s with
      buffer := store s.buffer 0 w,
      ctx := { s.ctx with state := linesState s.ctx.state ls,
                          remainDataIndex := (linesText ls).length,
                          remainDataLen := w.length },
      resp := linesResp s.ctx.state ls s.resp,
      lines := s.lines ++ ls } := by
    rw [parsePass, if_pos hstate, hbuf, parse_tail hok hw hlen hpos]
  have hnb : ¬ linesState s.ctx.state ls = .hrBody := by
    cases ls with
    | nil =>
        intro h
        rw [linesState] at h
        rw [h] at hstate
        cases hstate
    | cons l ls => intro h; cases h
  rw [respPass, hparse]
  exact if_neg hnb

/-- A pass whose parser finds the end of the head sees the head. -/
theorem respPass_seen (onHeader onBody : Bool) (readOff : Nat) {readLen : Nat}
    {s s1 : RespLocal}
    (hparse : parsePass readLen s = .ok s1) (hb : s1.ctx.state = .hrBody)
    (hflag : s1.headerEndFlag = false) :
    (respPass onHeader onBody readOff readLen s).after.headerEndFlag = true ∧
    (respPass onHeader onBody readOff readLen s).after.head = some {
      lines := s1.lines, resp := s1.resp, bodyPos := bodyPos readOff readLen s1 } := by
  have hbody := andThen_bodyOnly
    (firstBody_bodyOnly onBody readLen (headerEnd onHeader readOff readLen s1)) bodyEnd_bodyOnly
  have hpass : respPass onHeader onBody readOff readLen s
      = (firstBody onBody readLen (headerEnd onHeader readOff readLen s1)).andThen bodyEnd := by
    rw [respPass, hparse]
    dsimp only
    rw [if_pos hb, if_neg (by rw [hflag]; exact Bool.false_ne_true)]
  rw [hpass, hbody.headerEndFlag, hbody.head]
  exact ⟨rfl, rfl⟩

/-- A pass over the end of the head. -/
theorem pass_body (onHeader onBody : Bool) (ls : List Bytes) (readOff : Nat) {readLen : Nat}
    {s : RespLocal} {b stale : Bytes} (hstate : s.ctx.state.beforeBody = true)
    (hflag : s.headerEndFlag = false) (hok : LinesOk s.ctx.state ls) (hne : ls ≠ [])
    (hbuf : s.buffer = linesText ls ++ (crlf ++ (b ++ stale)))
    (hlen : readLen = (linesText ls).length + 2 + b.length) :
    (respPass onHeader onBody readOff readLen s).after.headerEndFlag = true ∧
    (respPass onHeader onBody readOff readLen s).after.head = some {
      lines := s.lines ++ ls,
      resp := linesResp s.ctx.state ls s.resp,
      bodyPos :=
        if b.length > 0 then
          (s.sock.taken : Int) - (readOff + readLen : Nat) + ((linesText ls).length + 2 : Nat)
        else s.sock.taken } := by
  have hparse : parsePass readLen s = .ok { s with
      ctx := { s.ctx with state := .hrBody,
                          remainDataIndex := (linesText ls).length + 2,
                          remainDataLen := b.length },
      resp := linesResp s.ctx.state ls s.resp,
      lines := s.lines ++ ls } := by
    rw [parsePass, if_pos hstate, hbuf, parse_body hok hne hlen, ← hbuf]
  exact respPass_seen onHeader onBody readOff hparse rfl hflag

/-! ## The head stays as it was seen -/

/-- The parser completes no head by itself. -/
theorem parsePass_head {readLen : Nat} {s s' : RespLocal} (h : parsePass readLen s = .ok s') :
    s'.head = s.head ∧ s'.headerEndFlag = s.headerEndFlag := by
  rw [parsePass] at h
  split at h
  · split at h
    · cases h
    · rw [← Except.ok.inj h]
      exact ⟨rfl, rfl⟩
  · rw [← Except.ok.inj h]
    exact ⟨rfl, rfl⟩

/-- A head that is complete stays as it is. -/
theorem respPass_head (onHeader onBody : Bool) (readOff readLen : Nat) {s : RespLocal}
    (hflag : s.headerEndFlag = true) :
    (respPass onHeader onBody readOff readLen s).after.head = s.head ∧
      (respPass onHeader onBody readOff readLen s).after.headerEndFlag = true := by
  rw [respPass]
  cases hparse : parsePass readLen s with
  | error e => exact ⟨rfl, hflag⟩
  | ok s1 =>
      obtain ⟨hhead, hflag1⟩ := parsePass_head hparse
      rw [hflag] at hflag1
      dsimp only
      by_cases hb : s1.ctx.state = .hrBody
      · rw [if_pos hb, if_pos hflag1]
        have hbody := andThen_bodyOnly (nextBody_bodyOnly onBody readLen s1) bodyEnd_bodyOnly
        exact ⟨hbody.head.trans hhead, hbody.headerEndFlag.trans hflag1⟩
      · rw [if_neg hb]
        exact ⟨hhead, hflag1⟩

/-- The run after a pass. -/
def runAfter (onHeader onBody : Bool) (fuel : Nat) : RespFlow → RespRun
  | .go s => respLoop onHeader onBody fuel s
  | .ret code s => { stop := .ok code, s := s }
  | .abort e s => { stop := .error e, s := s }

/-- A read that brings bytes is followed by a pass on them. -/
theorem respLoop_read {onHeader onBody : Bool} {fuel : Nat} {s : RespLocal} {d : Bytes}
    {sock : Sock} (hread : s.sock.read (s.buffer.length - s.ctx.remainDataLen) = (some d, sock))
    (hd : d ≠ []) :
    respLoop onHeader onBody (fuel + 1) s
      = runAfter onHeader onBody fuel (respPass onHeader onBody s.ctx.remainDataLen d.length
          { s with buffer := store s.buffer s.ctx.remainDataLen d, sock := sock }) := by
  rw [respLoop]
  simp only [hread, hd, false_and, if_false]
  rfl

/-- Once a head is complete the loop makes no other. -/
theorem respLoop_head {onHeader onBody : Bool} : ∀ {fuel : Nat} {s : RespLocal},
    s.headerEndFlag = true → (respLoop onHeader onBody fuel s).s.head = s.head := by
  intro fuel
  induction fuel with
  | zero => intro s _; rfl
  | succ fuel ih =>
      intro s hflag
      rw [respLoop]
      cases hread : s.sock.read (s.buffer.length - s.ctx.remainDataLen) with
      | mk got sock =>
          cases got with
          | none => rfl
          | some d =>
              dsimp only
              split
              · rfl
              · have hhead := respPass_head onHeader onBody s.ctx.remainDataLen d.length
                  (s := { s with buffer := store s.buffer s.ctx.remainDataLen d, sock := sock })
                  hflag
                cases hpass : respPass onHeader onBody s.ctx.remainDataLen d.length
                    { s with buffer := store s.buffer s.ctx.remainDataLen d, sock := sock } with
                | go s' =>
                    rw [hpass] at hhead
                    exact (ih hhead.2).trans hhead.1
                | ret code s' => rw [hpass] at hhead; exact hhead.1
                | abort e s' => rw [hpass] at hhead; exact hhead.1

/-- Nor does what follows a pass. -/
theorem runAfter_head {onHeader onBody : Bool} {fuel : Nat} {fl : RespFlow}
    (h : fl.after.headerEndFlag = true) :
    (runAfter onHeader onBody fuel fl).s.head = fl.after.head := by
  cases fl with
  | go s => exact respLoop_head h
  | ret code s => rfl
  | abort e s => rfl

/-! ## No head is seen too early -/

/-- The loop before the end of the head: nothing seen, nothing forced. -/
structure Searching (s : RespLocal) : Prop where
  state : s.ctx.state.beforeBody = true
  flag : s.headerEndFlag = false
  forced : s.forcedContinue = false
  head : s.head = none
  room : s.ctx.remainDataLen ≤ s.buffer.length

/-- A read brings no more than there is room for. -/
theorem Sock.read_some {sock sock' : Sock} {n : Nat} {d : Bytes}
    (h : sock.read n = (some d, sock')) :
    d.length ≤ n ∧ sock'.taken = sock.taken + d.length := by
  rw [Sock.read] at h
  split at h
  · obtain ⟨hd, hsock⟩ := Prod.mk.inj h
    rw [← Option.some.inj hd, ← hsock]
    exact ⟨Nat.zero_le _, rfl⟩
  · split at h
    · split at h
      · obtain ⟨hd, hsock⟩ := Prod.mk.inj h
        rw [← Option.some.inj hd, ← hsock]
        exact ⟨Nat.zero_le _, rfl⟩
      · cases (Prod.mk.inj h).1
    · obtain ⟨hd, hsock⟩ := Prod.mk.inj h
      rw [← Option.some.inj hd, ← hsock]
      exact ⟨by rw [List.length_take]; omega, rfl⟩

/-- What a pass that searches for the end of the head can come to. -/
inductive Searched (readOff readLen : Nat) (s : RespLocal) : RespFlow → Prop where
  | crashed (e : Abort) (s' : RespLocal) (h : s'.head = none) :
      Searched readOff readLen s (.abort e s')
  | going (s' : RespLocal) (ls : List Bytes) (h : Searching s') (hsock : s'.sock = s.sock)
      (hlines : s'.lines = s.lines ++ ls)
      (hlen : linesLength ls + s'.ctx.remainDataLen = readLen) :
      Searched readOff readLen s (.go s')
  | seen (fl : RespFlow) (ls : List Bytes) (resp : HttpResponse) (pos : Int)
      (hflag : fl.after.headerEndFlag = true) (hne : ls ≠ [])
      (hhead : fl.after.head = some { lines := s.lines ++ ls, resp := resp, bodyPos := pos })
      (hpos : (s.sock.taken : Int) - (readOff + readLen : Nat) + linesLength ls + 2 ≤ pos) :
      Searched readOff readLen s fl

/-- A pass goes on looking for the end of a line, or comes behind it. -/
theorem respPass_searched (onHeader onBody : Bool) (readOff readLen : Nat) {s : RespLocal}
    (hs : Searching s) (hlen : readLen ≤ s.buffer.length) :
    Searched readOff readLen s (respPass onHeader onBody readOff readLen s) := by
  cases hparse : httpParseResponseHeaderPerBuffer s.buffer readLen s.ctx s.resp with
  | error e =>
      have hpass : respPass onHeader onBody readOff readLen s = .abort e s := by
        rw [respPass, parsePass, if_pos hs.state, hparse]
      rw [hpass]
      exact .crashed e s hs.head
  | ok hp =>
      obtain ⟨hbuf, hne, hcount⟩ := parse_counted hs.state hlen hparse
      have hok : parsePass readLen s = .ok { s with
          buffer := hp.buffer, ctx := hp.ctx, resp := hp.resp, lines := s.lines ++ hp.lines } := by
        rw [parsePass, if_pos hs.state, hparse]
      by_cases hb : hp.ctx.state = .hrBody
      · obtain ⟨hidx, hrem⟩ := hcount.body hb
        obtain ⟨hflag, hhead⟩ := respPass_seen onHeader onBody readOff hok hb hs.flag
        refine .seen _ hp.lines hp.resp _ hflag (hne hb) hhead ?_
        rw [bodyPos]
        dsimp only
        split <;> omega
      · obtain ⟨hstate, hrem⟩ := hcount.tail hb
        have hpass : respPass onHeader onBody readOff readLen s = .go { s with
            buffer := hp.buffer, ctx := hp.ctx, resp := hp.resp,
            lines := s.lines ++ hp.lines } := by
          rw [respPass, hok]
          exact if_neg hb
        rw [hpass]
        refine .going _ hp.lines ⟨hstate, hs.flag, hs.forced, hs.head, ?_⟩ rfl rfl (by
          show linesLength hp.lines + hp.ctx.remainDataLen = readLen; omega)
        show hp.ctx.remainDataLen ≤ hp.buffer.length
        omega

/-- **THE BODY NEVER STARTS TOO EARLY**: what is seen as the head holds at least
    one more line, and everything read but not kept lies before the body. -/
theorem head_counted {onHeader onBody : Bool} : ∀ {fuel : Nat} {s : RespLocal} {seen : HeadSeen},
    Searching s → (respLoop onHeader onBody fuel s).s.head = some seen →
    ∃ more, more ≠ [] ∧ seen.lines = s.lines ++ more ∧
      (s.sock.taken : Int) - s.ctx.remainDataLen + linesLength more + 2 ≤ seen.bodyPos := by
  intro fuel
  induction fuel with
  | zero =>
      intro s seen hs hhead
      rw [respLoop, hs.head] at hhead
      cases hhead
  | succ fuel ih =>
      intro s seen hs hhead
      cases hread : s.sock.read (s.buffer.length - s.ctx.remainDataLen) with
      | mk got sock =>
          cases got with
          | none =>
              rw [respLoop] at hhead
              simp only [hread, hs.head] at hhead
              cases hhead
          | some d =>
              by_cases hd : d = []
              · rw [respLoop] at hhead
                simp only [hread, hd, hs.forced, and_self, if_true, hs.head] at hhead
                cases hhead
              rw [respLoop_read hread hd] at hhead
              obtain ⟨hdlen, htaken⟩ := Sock.read_some hread
              have hroom := hs.room
              have hstore : (store s.buffer s.ctx.remainDataLen d).length = s.buffer.length :=
                store_length (by omega)
              have hs1 : Searching { s with
                  buffer := store s.buffer s.ctx.remainDataLen d, sock := sock } :=
                ⟨hs.state, hs.flag, hs.forced, hs.head, by
                  show s.ctx.remainDataLen ≤ (store s.buffer s.ctx.remainDataLen d).length
                  omega⟩
              have hpass := respPass_searched onHeader onBody s.ctx.remainDataLen d.length hs1 (by
                  show d.length ≤ (store s.buffer s.ctx.remainDataLen d).length
                  omega)
              generalize respPass onHeader onBody s.ctx.remainDataLen d.length
                { s with buffer := store s.buffer s.ctx.remainDataLen d, sock := sock } = fl
                at hhead hpass
              cases hpass with
              | crashed e s' h =>
                  rw [runAfter, h] at hhead
                  cases hhead
              | going s' ls h hsock hlines hlen =>
                  obtain ⟨more, hne, hmore, hpos⟩ := ih h hhead
                  refine ⟨ls ++ more, by simp [hne], ?_, ?_⟩
                  · rw [hmore, hlines, List.append_assoc]
                  · rw [hsock] at hpos
                    rw [linesLength_append]
                    dsimp only at hpos
                    omega
              | seen _ ls resp pos hflag hne hsome hpos =>
                  rw [runAfter_head hflag, hsome] at hhead
                  rw [← Option.some.inj hhead]
                  refine ⟨ls, hne, rfl, ?_⟩
                  dsimp only at hpos ⊢
                  omega

/-! ## Cuts that are put together right -/

/-- **THE CUTS THAT ARE SAFE**, for the lines still to come at the start of a
    line.  A read may hold the rest of the head if a line of it is among that; a
    read that ends at the end of a line is followed by a safe cut of the rest;
    and a read that ends within a line must be followed by one that holds the
    rest of the head and more bytes of the body than were kept. -/
def safe (cap : Nat) : List Bytes → List Bytes → Bool
  | _, [] => false
  | rest, p :: ps =>
      if headLeft rest ≤ p.length then decide (rest ≠ [])
      else if (advance rest p.length).2 = 0 then safe cap (advance rest p.length).1 ps
      else
        decide ((advance rest p.length).1 ≠ [] ∧
          headLeft (advance rest p.length).1
            < min (ps.headD []).length (cap - (advance rest p.length).2))

/-- An arrival that fits is read whole. -/
theorem Sock.read_cons {sock : Sock} {n : Nat} {p : Bytes} {ps : List Bytes}
    (hsegs : sock.segs = p :: ps) (hp : p ≠ []) (hlen : p.length ≤ n) :
    sock.read n = (some p, { sock with segs := ps, taken := sock.taken + p.length }) := by
  have hpos : 0 < p.length := List.length_pos_iff.mpr hp
  rw [Sock.read, if_neg (by omega), hsegs]
  simp only [List.take_of_length_le hlen, if_pos hlen]

/-- Behind the last arrival a closed socket gives nothing. -/
theorem Sock.read_eof {sock : Sock} (n : Nat) (hsegs : sock.segs = [])
    (hending : sock.ending = .eof) : sock.read n = (some [], sock) := by
  rw [Sock.read, hsegs, hending]
  split <;> rfl

/-- A broken one fails. -/
theorem Sock.read_err {sock : Sock} {n : Nat} (hn : n ≠ 0) (hsegs : sock.segs = [])
    (hending : sock.ending = .err) : sock.read n = (none, sock) := by
  rw [Sock.read, if_neg hn, hsegs, hending]

/-- Where nothing forces the loop on, it leaves with 0 however the socket ends. -/
theorem respLoop_end (onHeader onBody : Bool) (fuel : Nat) {s : RespLocal}
    (hforced : s.forcedContinue = false) (hsegs : s.sock.segs = []) :
    respLoop onHeader onBody (fuel + 1) s = { stop := .ok 0, s := s } := by
  have hread : s.sock.read (s.buffer.length - s.ctx.remainDataLen) = (some [], s.sock) ∨
      s.sock.read (s.buffer.length - s.ctx.remainDataLen) = (none, s.sock) := by
    rw [Sock.read, hsegs]
    split
    · exact Or.inl rfl
    · cases s.sock.ending with
      | eof => exact Or.inl rfl
      | err => exact Or.inr rfl
  rw [respLoop]
  rcases hread with h | h
  · rw [h]
    exact if_pos ⟨rfl, hforced⟩
  · rw [h]
    dsimp only
    rw [if_neg (by rw [hforced]; exact Bool.false_ne_true)]

/-- A buffer that is full of a part of a line looks like the end of the socket. -/
theorem respLoop_full (onHeader onBody : Bool) (fuel : Nat) {s : RespLocal}
    (hforced : s.forcedContinue = false) (hfull : s.buffer.length ≤ s.ctx.remainDataLen) :
    respLoop onHeader onBody (fuel + 1) s = { stop := .ok 0, s := s } := by
  have hread : s.sock.read (s.buffer.length - s.ctx.remainDataLen) = (some [], s.sock) := by
    rw [Sock.read, if_pos (by omega)]
  rw [respLoop, hread]
  exact if_pos ⟨rfl, hforced⟩

/-- If nothing arrives no head is completed. -/
theorem respLoop_empty {onHeader onBody : Bool} {fuel : Nat} {s : RespLocal}
    (hs : Searching s) (hsegs : s.sock.segs = []) :
    (respLoop onHeader onBody fuel s).s.head = none := by
  cases fuel with
  | zero => rw [respLoop]; exact hs.head
  | succ fuel =>
      rw [respLoop_end onHeader onBody fuel hs.forced hsegs]
      exact hs.head

/-- An empty line with no line before it in the buffer is never the end of a head. -/
theorem lone_end {onHeader onBody : Bool} {fuel : Nat} {s : RespLocal} {seen : HeadSeen}
    (hs : Searching s) (hlines : seen.lines = s.lines) :
    (respLoop onHeader onBody fuel s).s.head ≠ some seen := by
  intro hhead
  obtain ⟨more, hne, hmore, -⟩ := head_counted hs hhead
  rw [hlines] at hmore
  exact hne (List.append_cancel_left ((List.append_nil _).trans hmore)).symm

/-- What is seen when the lines `rest` are all that is missing of a head whose
    next byte lies `kept` bytes before the place in the stream. -/
def rightHead (s : RespLocal) (kept : Nat) (rest : List Bytes) : HeadSeen :=
  { lines := s.lines ++ rest, resp := linesResp s.ctx.state rest s.resp,
    bodyPos := (s.sock.taken : Int) - kept + (linesLength rest + 2 : Nat) }

/-- Of an arrival that does not fit as much is read as does. -/
theorem Sock.read_take {sock : Sock} {q : Bytes} {qs : List Bytes} (n : Nat)
    (hsegs : sock.segs = q :: qs) : ∃ sock', sock.read n = (some (q.take n), sock') := by
  rw [Sock.read]
  by_cases hn : n = 0
  · rw [if_pos hn, hn]
    exact ⟨sock, rfl⟩
  · rw [if_neg hn, hsegs]
    exact ⟨_, rfl⟩

/-- No line takes the parser into the body. -/
theorem linesState_beforeBody {state : ParseState} (h : state.beforeBody = true)
    (ls : List Bytes) : (linesState state ls).beforeBody = true := by
  cases ls with
  | nil => exact h
  | cons l ls => rfl

/-- After a pass over complete lines and a tail the search goes on. -/
theorem searching_tail {s : RespLocal} (hs : Searching s) (ls : List Bytes) {w : Bytes}
    (hw : w.length ≤ s.buffer.length) : Searching { s with
      buffer := store s.buffer 0 w,
      ctx := { s.ctx with state := linesState s.ctx.state ls,
                          remainDataIndex := (linesText ls).length,
                          remainDataLen := w.length },
      resp := linesResp s.ctx.state ls s.resp,
      lines := s.lines ++ ls } := by
  refine ⟨linesState_beforeBody hs.state ls, hs.flag, hs.forced, hs.head, ?_⟩
  show w.length ≤ (store s.buffer 0 w).length
  rw [store_length (by omega)]
  exact hw

/-- Bytes that were read and not kept are never part of a line. -/
theorem lost_bytes {onHeader onBody : Bool} {fuel kept : Nat} {s t : RespLocal}
    {done rest : List Bytes} (ht : Searching t) (hlines : t.lines = s.lines ++ done)
    (htaken : (s.sock.taken : Int) + linesLength done + t.ctx.remainDataLen ≤ t.sock.taken)
    (hkept : 0 < kept) :
    (respLoop onHeader onBody fuel t).s.head ≠ some (rightHead s kept (done ++ rest)) := by
  intro hhead
  obtain ⟨more, -, hmore, hpos⟩ := head_counted ht hhead
  have hall : done ++ rest = done ++ more := by
    have hsum : s.lines ++ (done ++ rest) = s.lines ++ (done ++ more) := by
      rw [← List.append_assoc s.lines done more, ← hlines]
      exact hmore
    exact List.append_cancel_left hsum
  have hlen := congrArg linesLength hall
  rw [linesLength_append, linesLength_append] at hlen
  have hright : (rightHead s kept (done ++ rest)).bodyPos
      = (s.sock.taken : Int) - kept + (linesLength (done ++ rest) + 2 : Nat) := rfl
  rw [hright, linesLength_append] at hpos
  omega

/-- The read after one that ended within a line. -/
theorem second_read (onHeader onBody : Bool) (fuel : Nat) {s : RespLocal} {w q body : Bytes}
    {qs rest : List Bytes} (hs : Searching s) (hok : LinesOk s.ctx.state rest) (hne : rest ≠ [])
    (hkept : s.buffer.take w.length = w) (hrem : s.ctx.remainDataLen = w.length)
    (hw : w ≠ []) (hsegs : s.sock.segs = q :: qs)
    (hjoin : w ++ (q ++ qs.flatten) = linesText rest ++ (crlf ++ body)) :
    (respLoop onHeader onBody (fuel + 1) s).s.head = some (rightHead s w.length rest) ↔
      headLeft rest < min q.length (s.buffer.length - w.length) := by
  have hwpos : 0 < w.length := List.length_pos_iff.mpr hw
  have hroom := hs.room
  obtain ⟨sock, hread⟩ := Sock.read_take (s.buffer.length - s.ctx.remainDataLen) hsegs
  obtain ⟨-, htaken⟩ := Sock.read_some hread
  have hdlen : (q.take (s.buffer.length - s.ctx.remainDataLen)).length
      = min q.length (s.buffer.length - w.length) := by
    rw [List.length_take, hrem, Nat.min_comm]
  have hdpre : w ++ q.take (s.buffer.length - s.ctx.remainDataLen)
      <+: linesText rest ++ (crlf ++ body) := by
    rw [← hjoin]
    refine ⟨q.drop (s.buffer.length - s.ctx.remainDataLen) ++ qs.flatten, ?_⟩
    rw [List.append_assoc, ← List.append_assoc (q.take _), List.take_append_drop]
  generalize hd : q.take (s.buffer.length - s.ctx.remainDataLen) = d at hread hdlen hdpre htaken
  rw [← hdlen]
  by_cases hdne : d = []
  · -- the buffer is full, or nothing came
    rw [respLoop]
    simp only [hread, hdne, hs.forced, and_self, if_true, hs.head, List.length_nil]
    constructor
    · intro h; cases h
    · intro h; omega
  have hdpos : 0 < d.length := List.length_pos_iff.mpr hdne
  have hfit : s.ctx.remainDataLen + d.length ≤ s.buffer.length := by omega
  have hstore : (store s.buffer s.ctx.remainDataLen d).length = s.buffer.length :=
    store_length hfit
  have hs1 : Searching { s with
      buffer := store s.buffer s.ctx.remainDataLen d, sock := sock } :=
    ⟨hs.state, hs.flag, hs.forced, hs.head, by
      show s.ctx.remainDataLen ≤ (store s.buffer s.ctx.remainDataLen d).length
      omega⟩
  -- the window is as long as the last read, and starts with what was kept
  have hfront : (store s.buffer s.ctx.remainDataLen d).take (s.ctx.remainDataLen + d.length)
      = w ++ d := by rw [take_store hs.room, hrem, hkept]
  obtain ⟨t, v, htv, htlen⟩ : ∃ t v, w ++ d = t ++ v ∧ t.length = d.length :=
    ⟨(w ++ d).take d.length, (w ++ d).drop d.length, (List.take_append_drop _ _).symm, by
      rw [List.length_take, List.length_append]; omega⟩
  have hbuf : store s.buffer s.ctx.remainDataLen d
      = t ++ (v ++ (store s.buffer s.ctx.remainDataLen d).drop
          (s.ctx.remainDataLen + d.length)) := by
    rw [← List.append_assoc, ← htv, ← hfront, List.take_append_drop]
  generalize (store s.buffer s.ctx.remainDataLen d).drop (s.ctx.remainDataLen + d.length)
    = stale at hbuf
  have htpre : t <+: linesText rest ++ (crlf ++ body) := by
    rw [htv] at hdpre
    exact (List.prefix_append t v).trans hdpre
  have htext : (linesText rest ++ crlf).length = headLeft rest := by
    rw [List.length_append]
    rfl
  rw [respLoop_read hread hdne]
  by_cases hshort : d.length < headLeft rest
  · -- the head goes on: what was kept pushed as many bytes out of the window
    have htin : t <+: linesText rest ++ crlf := by
      rw [← List.append_assoc] at htpre
      refine List.prefix_of_prefix_length_le htpre (List.prefix_append _ _) ?_
      omega
    obtain ⟨done, rest', w', hsplit, htw, hw', -, -⟩ :=
      prefix_lines (LinesOk.noCrlf hok) htin (by omega)
    have hokd : LinesOk s.ctx.state done := (LinesOk.split (hsplit ▸ hok)).1
    have htlen' : t.length = (linesText done).length + w'.length := by
      rw [htw, List.length_append]
    rw [pass_tail onHeader onBody done (s := { s with
        buffer := store s.buffer s.ctx.remainDataLen d, sock := sock }) (w := w')
      hs.state hokd hw' (by
        show store s.buffer s.ctx.remainDataLen d = _
        rw [hbuf, htw, List.append_assoc]) (by omega) hdpos]
    constructor
    · intro hhead
      refine absurd hhead ?_
      rw [hsplit]
      refine lost_bytes (searching_tail hs1 done ?_) rfl ?_ hwpos
      · show w'.length ≤ (store s.buffer s.ctx.remainDataLen d).length
        omega
      · show (s.sock.taken : Int) + linesLength done + w'.length ≤ sock.taken
        rw [linesLength]
        omega
    · intro h; omega
  · -- the window holds the rest of the head
    rw [← List.append_assoc] at htpre
    obtain ⟨b, htb, -⟩ := prefix_split htpre (by omega)
    have hblen : d.length = (linesText rest).length + 2 + b.length := by
      rw [← htlen, htb, List.length_append, List.length_append]
      rfl
    obtain ⟨hflag, hhead⟩ := pass_body onHeader onBody rest s.ctx.remainDataLen
      (s := { s with
        buffer := store s.buffer s.ctx.remainDataLen d, sock := sock })
      (b := b) hs.state hs.flag hok hne (by
        show store s.buffer s.ctx.remainDataLen d = _
        rw [hbuf, htb, List.append_assoc, List.append_assoc]) hblen
    rw [runAfter_head hflag, hhead, rightHead]
    have hH : headLeft rest = (linesText rest).length + 2 := rfl
    by_cases hb : b.length > 0
    · rw [if_pos hb]
      refine ⟨fun _ => by omega, fun _ => ?_⟩
      have hpos : (sock.taken : Int) - (s.ctx.remainDataLen + d.length : Nat)
            + ((linesText rest).length + 2 : Nat)
          = (s.sock.taken : Int) - w.length + (linesLength rest + 2 : Nat) := by
        rw [linesLength]
        omega
      dsimp only
      rw [hpos]
    · rw [if_neg hb]
      constructor
      · intro heq
        have hpos := congrArg HeadSeen.bodyPos (Option.some.inj heq)
        dsimp only at hpos
        rw [linesLength] at hpos
        omega
      · intro h; omega

/-- The locals after a read of `p` at the start of the buffer, with `ps` to come. -/
def reading (s : RespLocal) (p : Bytes) (ps : List Bytes) : RespLocal :=
  { s with
    buffer := store s.buffer 0 p,
    sock := { s.sock with segs := ps, taken := s.sock.taken + p.length } }

/-- The locals after a pass over complete lines and a tail. -/
def keeping (s : RespLocal) (ls : List Bytes) (w : Bytes) : RespLocal :=
  { s with
    buffer := store s.buffer 0 w,
    ctx := { s.ctx with state := linesState s.ctx.state ls,
                        remainDataIndex := (linesText ls).length,
                        remainDataLen := w.length },
    resp := linesResp s.ctx.state ls s.resp,
    lines := s.lines ++ ls }

/-- **A READ INSIDE THE HEAD**, from the start of a line: the lines it completed are
    processed and what is behind them is kept. -/
theorem inside_read (onHeader onBody : Bool) {s : RespLocal} {p : Bytes} (ps : List Bytes)
    {rest : List Bytes} (hs : Searching s) (hok : LinesOk s.ctx.state rest) (hp : p ≠ [])
    (hplen : p.length ≤ s.buffer.length) (hpin : p <+: linesText rest ++ crlf)
    (hshort : p.length < headLeft rest) :
    ∃ done rest' w, rest = done ++ rest' ∧ p = linesText done ++ w ∧
      advance rest p.length = (rest', w.length) ∧ LinesOk (linesState s.ctx.state done) rest' ∧
      respPass onHeader onBody 0 p.length (reading s p ps) = .go (keeping (reading s p ps) done w) ∧
      Searching (keeping (reading s p ps) done w) ∧
      (keeping (reading s p ps) done w).buffer.length = s.buffer.length := by
  have hppos : 0 < p.length := List.length_pos_iff.mpr hp
  have htext : (linesText rest ++ crlf).length = headLeft rest := by
    rw [List.length_append]
    rfl
  obtain ⟨done, rest', w, hsplit, hpw, hw, -, hadv⟩ :=
    prefix_lines (LinesOk.noCrlf hok) hpin (by omega)
  obtain ⟨hokd, hokr⟩ := LinesOk.split (hsplit ▸ hok)
  have hplen' : p.length = (linesText done).length + w.length := by
    rw [hpw, List.length_append]
  have hbufw : store s.buffer 0 p = linesText done ++ (w ++ s.buffer.drop p.length) := by
    rw [store_zero, hpw, List.append_assoc]
  have hstore : (store s.buffer 0 p).length = s.buffer.length := store_length (by omega)
  have hroom := hs.room
  have hs1 : Searching (reading s p ps) :=
    ⟨hs.state, hs.flag, hs.forced, hs.head, by
      show s.ctx.remainDataLen ≤ (store s.buffer 0 p).length
      omega⟩
  refine ⟨done, rest', w, hsplit, hpw, hadv, hokr,
    pass_tail onHeader onBody done hs1.state hokd hw hbufw hplen' hppos,
    searching_tail hs1 done (by show w.length ≤ (store s.buffer 0 p).length; omega), ?_⟩
  show (store (store s.buffer 0 p) 0 w).length = s.buffer.length
  rw [store_length (by omega), hstore]

/-- A read from the start of a line that ends inside the head leaves the lines
    it completed behind and keeps a part of the next. -/
theorem line_read (onHeader onBody : Bool) {s : RespLocal} {p body : Bytes} {ps rest : List Bytes}
    (hs : Searching s) (hok : LinesOk s.ctx.state rest)
    (hp : p ≠ []) (hplen : p.length ≤ s.buffer.length)
    (hjoin : p ++ ps.flatten = linesText rest ++ (crlf ++ body))
    (hshort : p.length < headLeft rest) :
    ∃ s' rest' w, respPass onHeader onBody 0 p.length { s with
          buffer := store s.buffer 0 p,
          sock := { s.sock with segs := ps, taken := s.sock.taken + p.length } } = .go s' ∧
      advance rest p.length = (rest', w.length) ∧ Searching s' ∧ s'.ctx.remainDataLen = w.length ∧
      LinesOk s'.ctx.state rest' ∧ s'.buffer.length = s.buffer.length ∧
      s'.buffer.take w.length = w ∧ s'.sock.segs = ps ∧
      w ++ ps.flatten = linesText rest' ++ (crlf ++ body) ∧
      rightHead s 0 rest = rightHead s' w.length rest' := by
  have hppre : p <+: (linesText rest ++ crlf) ++ body := by
    rw [List.append_assoc, ← hjoin]
    exact ⟨ps.flatten, rfl⟩
  have htext : (linesText rest ++ crlf).length = headLeft rest := by
    rw [List.length_append]
    rfl
  have hpin : p <+: linesText rest ++ crlf :=
    List.prefix_of_prefix_length_le hppre (List.prefix_append _ _) (by omega)
  obtain ⟨done, rest', w, hsplit, hpw, hadv, hokr, hpass, hsearch, hcap⟩ :=
    inside_read onHeader onBody ps hs hok hp hplen hpin hshort
  have hplen' : p.length = (linesText done).length + w.length := by
    rw [hpw, List.length_append]
  refine ⟨_, rest', w, hpass, hadv, hsearch, rfl, hokr, hcap, ?_, rfl, ?_, ?_⟩
  · show (store (store s.buffer 0 p) 0 w).take w.length = w
    rw [store_zero, List.take_left]
  · rw [hpw, hsplit, linesText_append, List.append_assoc, List.append_assoc] at hjoin
    exact List.append_cancel_left hjoin
  · have hpos : (s.sock.taken : Int) - (0 : Nat) + (linesLength rest + 2 : Nat)
        = ((s.sock.taken + p.length : Nat) : Int) - w.length
          + (linesLength rest' + 2 : Nat) := by
      rw [hsplit, linesLength_append, linesLength]
      omega
    rw [rightHead, rightHead, hpos, hsplit, linesResp_append]
    dsimp only [keeping, reading]
    rw [List.append_assoc]

/-- A read from the start of a line that holds the rest of the head, and a line
    of it, shows the head as it is. -/
theorem whole_read (onHeader onBody : Bool) (fuel : Nat) {s : RespLocal} {q body : Bytes}
    {qs rest : List Bytes} (hs : Searching s) (hrem : s.ctx.remainDataLen = 0)
    (hok : LinesOk s.ctx.state rest) (hne : rest ≠ []) (hsegs : s.sock.segs = q :: qs)
    (hjoin : q ++ qs.flatten = linesText rest ++ (crlf ++ body))
    (hq : headLeft rest ≤ q.length) (hcap : headLeft rest ≤ s.buffer.length) :
    (respLoop onHeader onBody (fuel + 1) s).s.head = some (rightHead s 0 rest) := by
  obtain ⟨sock, hread⟩ := Sock.read_take (s.buffer.length - s.ctx.remainDataLen) hsegs
  obtain ⟨-, htaken⟩ := Sock.read_some hread
  have htext : (linesText rest ++ crlf).length = headLeft rest := by
    rw [List.length_append]
    rfl
  have hH : headLeft rest = (linesText rest).length + 2 := rfl
  have hdpre : q.take (s.buffer.length - s.ctx.remainDataLen)
      <+: (linesText rest ++ crlf) ++ body := by
    rw [List.append_assoc, ← hjoin]
    exact (List.take_prefix _ _).trans (List.prefix_append _ _)
  obtain ⟨b, hb, -⟩ := prefix_split hdpre (by rw [List.length_take]; omega)
  rw [hb] at hread htaken
  have hlen : (linesText rest ++ crlf ++ b).length = (linesText rest).length + 2 + b.length := by
    rw [List.length_append, List.length_append]
    rfl
  have hd : linesText rest ++ crlf ++ b ≠ [] := by
    intro h
    rw [h, List.length_nil] at hlen
    omega
  obtain ⟨hflag, hhead⟩ := pass_body onHeader onBody rest 0 (s := { s with
      buffer := store s.buffer 0 (linesText rest ++ crlf ++ b), sock := sock })
    (b := b) hs.state hs.flag hok hne (by
      show store s.buffer 0 (linesText rest ++ crlf ++ b) = _
      rw [store_zero, List.append_assoc, List.append_assoc, List.append_assoc]) hlen
  have hpos : (if b.length > 0 then
        (sock.taken : Int) - (0 + (linesText rest ++ crlf ++ b).length : Nat)
          + ((linesText rest).length + 2 : Nat)
      else (sock.taken : Int))
      = (s.sock.taken : Int) - (0 : Nat) + (linesLength rest + 2 : Nat) := by
    rw [linesLength]
    split <;> omega
  rw [respLoop_read hread hd, hrem, runAfter_head hflag, hhead, rightHead]
  dsimp only
  rw [hpos]

/-- **EXACTLY THE SAFE CUTS**: from the start of a line, the rest of the head is
    seen as it is if and only if the cut is safe. -/
theorem head_iff_safe (onHeader onBody : Bool) {body : Bytes} :
    ∀ {ps rest : List Bytes} {s : RespLocal} {fuel : Nat}, Searching s →
      s.ctx.remainDataLen = 0 → LinesOk s.ctx.state rest →
      (∀ p ∈ ps, p ≠ [] ∧ p.length ≤ s.buffer.length) → s.sock.segs = ps →
      ps.flatten = linesText rest ++ (crlf ++ body) → ps.length < fuel →
      ((respLoop onHeader onBody fuel s).s.head = some (rightHead s 0 rest) ↔
        safe s.buffer.length rest ps = true) := by
  intro ps
  induction ps with
  | nil =>
      intro rest s fuel hs _ _ _ hsegs hjoin _
      rw [respLoop_empty hs hsegs]
      constructor
      · intro h; cases h
      · intro h; cases h
  | cons p ps ih =>
      intro rest s fuel hs hrem hok hreads hsegs hjoin hfuel
      obtain ⟨f, rfl⟩ : ∃ f, fuel = f + 1 := ⟨fuel - 1, by omega⟩
      obtain ⟨hp, hplen⟩ := hreads p List.mem_cons_self
      have hppos : 0 < p.length := List.length_pos_iff.mpr hp
      have hread := Sock.read_cons (n := s.buffer.length - s.ctx.remainDataLen) hsegs hp
        (by omega)
      have hppre : p <+: (linesText rest ++ crlf) ++ body := by
        rw [List.append_assoc, ← hjoin]
        exact ⟨ps.flatten, rfl⟩
      have htext : (linesText rest ++ crlf).length = headLeft rest := by
        rw [List.length_append]
        rfl
      rw [safe]
      by_cases hwhole : headLeft rest ≤ p.length
      · -- the rest of the head in one read
        rw [if_pos hwhole]
        by_cases hne : rest = []
        · -- the empty line alone is taken for a field
          obtain ⟨b, hpb, -⟩ := prefix_split hppre (by omega)
          have hlead : store s.buffer 0 p = cr :: lf :: (b ++ s.buffer.drop p.length) := by
            rw [store_zero, hpb, hne]
            rfl
          have hcrash : respPass onHeader onBody 0 p.length { s with
              buffer := store s.buffer 0 p,
              sock := { s.sock with segs := ps, taken := s.sock.taken + p.length } }
              = .abort .nullDeref { s with
                buffer := store s.buffer 0 p,
                sock := { s.sock with segs := ps, taken := s.sock.taken + p.length } } := by
            have hH : 2 ≤ headLeft rest := Nat.le_add_left _ _
            rw [respPass, parsePass, if_pos hs.state, hlead,
              parse_leading_empty hs.state (by omega)]
          rw [respLoop_read hread hp, hrem, hcrash, runAfter]
          refine ⟨fun h => ?_, fun h => ?_⟩
          · rw [hs.head] at h
            cases h
          · rw [hne] at h
            cases h
        · rw [whole_read onHeader onBody f hs hrem hok hne hsegs hjoin hwhole (by omega)]
          exact ⟨fun _ => decide_eq_true hne, fun _ => rfl⟩
      · -- complete lines and a tail
        rw [if_neg hwhole]
        rw [List.flatten_cons] at hjoin
        obtain ⟨s', rest', w, hpass, hadv, hs', hrem', hok', hlen', hkept', hsegs', hjoin', hright⟩ :=
          line_read onHeader onBody hs hok hp hplen hjoin (by omega)
        rw [respLoop_read hread hp, hrem, hpass, runAfter, hadv, hright]
        by_cases hw0 : w.length = 0
        · -- at the end of a line
          have hwnil : w = [] := List.eq_nil_of_length_eq_zero hw0
          rw [if_pos hw0, hw0, ← hlen']
          refine ih hs' (by rw [hrem', hw0]) hok' ?_ hsegs' (by rw [hwnil] at hjoin'; exact hjoin')
            (by rw [List.length_cons] at hfuel; omega)
          intro q hq
          rw [hlen']
          exact hreads q (List.mem_cons_of_mem _ hq)
        · -- within a line
          rw [if_neg hw0, decide_eq_true_eq]
          by_cases hne : rest' = []
          · refine ⟨fun h => absurd h ?_, fun h => absurd hne h.1⟩
            refine lone_end hs' ?_
            rw [rightHead, hne, List.append_nil]
          · cases ps with
            | nil =>
                rw [respLoop_empty hs' hsegs']
                refine ⟨(fun h => by cases h), fun h => ?_⟩
                have hlt := h.2
                rw [List.headD_nil, List.length_nil, Nat.zero_min] at hlt
                exact absurd hlt (Nat.not_lt_zero _)
            | cons q qs =>
                obtain ⟨g, rfl⟩ : ∃ g, f = g + 1 := ⟨f - 1, by
                  simp only [List.length_cons] at hfuel
                  omega⟩
                rw [second_read onHeader onBody g hs' hok' hne hkept' hrem'
                  (fun e => hw0 (by rw [e]; rfl)) hsegs' hjoin', hlen']
                exact ⟨fun h => ⟨hne, h⟩, fun h => h.2⟩

/-! ## Any cut against one read -/

/-- A head, some of the body, and a cut of both into the results of `read`, for a
    call of `http_internal_response` on a zeroed connection. -/
structure HeadCut where
  head : ResponseHead
  body : Bytes
  buffer : Bytes
  reads : List Bytes
  sockfd : Int
  clb : HttpCallback
  ending : Ending
  fd : sockfd > 2
  fits : head.text.length ≤ buffer.length
  joined : reads.flatten = head.text ++ body
  results : ∀ r ∈ reads, r ≠ [] ∧ r.length ≤ buffer.length

/-- The call with the bytes arriving as given. -/
def HeadCut.run (c : HeadCut) (arrivals : List Bytes) : RespRun :=
  httpInternalResponse (.fresh c.sockfd c.clb) c.buffer
    { segs := arrivals, ending := c.ending, taken := 0 }

/-- The call is the loop on what arrives. -/
theorem HeadCut.run_eq (c : HeadCut) (arrivals : List Bytes) :
    c.run arrivals = respLoop c.clb.respHeaderFunc.isSome c.clb.respBodyFunc.isSome
      (respFuel { segs := arrivals, ending := c.ending, taken := 0 })
      (.start (.fresh c.sockfd c.clb) c.buffer
        { segs := arrivals, ending := c.ending, taken := 0 }) := by
  have hfits := c.fits
  rw [ResponseHead.text_length] at hfits
  exact if_pos ⟨c.fd, by omega⟩

/-- The head of a small response. -/
def smallHead : ResponseHead :=
  { status := lit "HTTP/1.1 200 OK", fields := [lit "Content-Length: 2"],
    statusOk := ⟨by decide, by decide, by decide, by decide +kernel⟩,
    fieldsOk := by
      intro l hl
      rw [List.mem_singleton.mp hl]
      exact ⟨by decide, by decide, by decide⟩ }

/-- The small response cut within its second line. -/
def smallCut : HeadCut :=
  { head := smallHead, body := lit "ok", buffer := List.replicate 64 0,
    reads := [lit "HTTP/1.1 200 OK\r\nContent-Le", lit "ngth: 2\r\n\r\nok"],
    sockfd := 3, clb := .zero, ending := .eof, fd := by decide,
    fits := by decide, joined := by decide, results := by decide }

end HeadSegmentation
