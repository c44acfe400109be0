import Hftp.HttpHeaderProofs

/-! # A head from anywhere

    The head parser on a buffer that holds whatever was sent.  It walks line after
    line and trusts each: the results of `strstr` are used as they are, so a status
    line without `HTTP`, a field without `: `, and an empty line at the start of a
    buffer take the program down; a status line that ends in `HTTP` is read behind
    its end; and the reason is stored without a look at its length. -/

namespace HeadSafety

open CBytes HttpCore HttpHeader

/-! ## Safe calls -/

/-- **A SAFE CALL**: with no memory but the buffer the call comes back; what it leaves
    to do lies in the buffer; what it stored in `desc` fits; and memory behind the
    buffer is neither looked at nor changed. -/
def Safe (buffer : Bytes) (ctx : HttpResponseContext) (resp : HttpResponse) : Prop :=
  ∃ hp, httpParseResponseHeaderPerBuffer buffer buffer.length ctx resp = .ok hp ∧
    hp.ctx.remainDataIndex + hp.ctx.remainDataLen ≤ buffer.length ∧
    (hp.resp.desc = resp.desc ∨ hp.resp.desc.length ≤ responseCodeDescMax) ∧
    hp.buffer.length = buffer.length ∧
    ∀ stale, httpParseResponseHeaderPerBuffer (buffer ++ stale) buffer.length ctx resp =
      .ok { hp with buffer := hp.buffer ++ stale }

/-- The word behind `number.number number` fits in `desc`, where there is one. -/
def WordFits (text : Bytes) : Prop :=
  ∀ major minor code s1 s2 s3 word, scanInt text = some (major, 46 :: s1) →
    scanInt s1 = some (minor, s2) → scanInt s2 = some (code, s3) →
    scanWord s3 = some word → word.length ≤ responseCodeDescMax

/-- A line that can be processed, before what follows its CR: as a status line it
    has `HTTP`, a string follows one byte further on, and the word stored from it is
    not too long; as a field it has `: `. -/
def LineSafe : ParseState → Bytes → Bytes → Prop
  | .hrFirstLine, l, rest =>
      ∃ k text, strstr (lit "HTTP") (l.takeWhile (· ≠ 0)) = some k ∧
        untilNul ((l ++ 0 :: rest).drop (k + 5)) = some text ∧ WordFits text
  | .hrHeaderLine, l, _ => (strstr (lit ": ") (l.takeWhile (· ≠ 0))).isSome
  | _, _, _ => False

/-- **WHAT A SAFE BUFFER LOOKS LIKE**: lines that can be processed, then either the
    empty line, if there was one before, or something that is not a line yet. -/
inductive Walkable : Bool → ParseState → Bytes → Prop where
  | tail {inner : Bool} {state : ParseState} {w : Bytes} (h : ¬ crlf <:+: w) :
      Walkable inner state w
  | body {state : ParseState} {rest : Bytes} : Walkable true state (cr :: lf :: rest)
  | line {inner : Bool} {state : ParseState} {l rest : Bytes} (hl : ¬ crlf <:+: l)
      (hne : inner = true → l ≠ []) (hsafe : LineSafe state l (lf :: rest))
      (h : Walkable true .hrHeaderLine rest) : Walkable inner state (l ++ cr :: lf :: rest)

/-! ## One line -/

/-- The string in a line ends at its first NUL, at the latest at its end. -/
theorem line_string (l rest : Bytes) :
    ∃ rest', l ++ 0 :: rest = l.takeWhile (· ≠ 0) ++ 0 :: rest' ∧
      (0 : Byte) ∉ l.takeWhile (· ≠ 0) ∧ (l.takeWhile (· ≠ 0)).length ≤ l.length := by
  cases hfind : strchr 0 l with
  | none =>
      have hnul := strchr_none hfind
      rw [takeWhile_ne_self hnul]
      exact ⟨rest, rfl, hnul, Nat.le_refl _⟩
  | some k =>
      obtain ⟨pre, post, rfl, -, hnul⟩ := strchr_split hfind
      rw [takeWhile_ne_append hnul]
      refine ⟨post ++ 0 :: rest, by simp, hnul, ?_⟩
      rw [List.length_append]
      exact Nat.le_add_right _ _

/-- A string is the same string if more memory follows. -/
theorem untilNul_more {m t : Bytes} (h : untilNul m = some t) (stale : Bytes) :
    untilNul (m ++ stale) = some t := by
  obtain ⟨rest, rfl, hnul⟩ := untilNul_split h
  rw [List.append_assoc, List.cons_append]
  exact untilNul_append hnul _

theorem scanStatus_desc {s : Bytes} {resp r : HttpResponse} (h : scanStatus s resp = .ok r) :
    r.desc = resp.desc ∨ r.desc.length ≤ responseCodeDescMax := by
  rw [scanStatus] at h
  cases h1 : scanInt s with
  | none =>
      rw [h1] at h
      rw [← Except.ok.inj h]
      exact Or.inl rfl
  | some p1 =>
      obtain ⟨major, s1⟩ := p1
      rw [h1] at h
      dsimp only at h
      split at h
      · rename_i s2
        cases h2 : scanInt s2 with
        | none =>
            rw [h2] at h
            rw [← Except.ok.inj h]
            exact Or.inl rfl
        | some p2 =>
            obtain ⟨minor, s3⟩ := p2
            rw [h2] at h
            dsimp only at h
            cases h3 : scanInt s3 with
            | none =>
                rw [h3] at h
                rw [← Except.ok.inj h]
                exact Or.inl rfl
            | some p3 =>
                obtain ⟨code, s4⟩ := p3
                rw [h3] at h
                dsimp only at h
                cases h4 : scanWord s4 with
                | none =>
                    rw [h4] at h
                    rw [← Except.ok.inj h]
                    exact Or.inl rfl
                | some word =>
                    rw [h4] at h
                    dsimp only at h
                    split_ifs at h with hfits
                    rw [← Except.ok.inj h]
                    exact Or.inr hfits
      · rw [← Except.ok.inj h]
        exact Or.inl rfl

/-- **THE STATUS LINE IS READ** exactly when its word fits. -/
theorem scanStatus_fits (text : Bytes) (resp : HttpResponse) :
    (∃ r, scanStatus text resp = .ok r) ↔ WordFits text := by
  constructor
  · rintro ⟨r, hr⟩ major minor code s1 s2 s3 word h1 h2 h3 h4
    simp only [scanStatus, h1, h2, h3, h4] at hr
    by_contra hlong
    rw [if_neg hlong] at hr
    cases hr
  · intro hfits
    rw [scanStatus]
    cases h1 : scanInt text with
    | none => exact ⟨_, rfl⟩
    | some p1 =>
        obtain ⟨major, s1⟩ := p1
        dsimp only
        split
        · rename_i s1
          cases h2 : scanInt s1 with
          | none => exact ⟨_, rfl⟩
          | some p2 =>
              obtain ⟨minor, s2⟩ := p2
              dsimp only
              cases h3 : scanInt s2 with
              | none => exact ⟨_, rfl⟩
              | some p3 =>
                  obtain ⟨code, s3⟩ := p3
                  dsimp only
                  cases h4 : scanWord s3 with
                  | none => exact ⟨_, rfl⟩
                  | some word =>
                      dsimp only
                      rw [if_pos (hfits major minor code s1 s2 s3 word h1 h2 h3 h4)]
                      exact ⟨_, rfl⟩
        · exact ⟨_, rfl⟩

/-- What is written to a byte inside. -/
theorem set_inside (pre l rest : Bytes) (b c : Byte) :
    (pre ++ (l ++ b :: rest)).set (pre.length + l.length) c = pre ++ (l ++ c :: rest) := by
  simp

/-- The line as a string, once its CR is a NUL. -/
theorem readStr_line (pre l rest : Bytes) :
    readStr (pre ++ (l ++ 0 :: rest)) pre.length = .ok (l.takeWhile (· ≠ 0)) := by
  obtain ⟨rest', heq, hnul, -⟩ := line_string l rest
  rw [readStr, heq, cstr_append hnul pre rest']

/-- A field cut in two at its colon: the name ends there, and the value is behind the
    blank. -/
theorem cstr_field {mem : Bytes} {p : Nat} {n d : Bytes}
    (h : cstr mem p = some (n ++ 58 :: 32 :: d)) :
    cstr (mem.set (p + n.length) 0) p = some n ∧
      cstr (mem.set (p + n.length) 0) (p + n.length + 2) = some d := by
  refine ⟨cstr_set_nul h, ?_⟩
  obtain ⟨rest, hdrop, hnul⟩ := untilNul_split h
  have hd : (0 : Byte) ∉ d := fun hm => hnul (by simp [hm])
  have hbehind : (mem.set (p + n.length) 0).drop (p + n.length + 2) = d ++ 0 :: rest := by
    rw [List.drop_set_of_lt (by omega), Nat.add_assoc, ← List.drop_drop, hdrop, ← List.drop_drop,
      List.append_assoc, List.drop_left]
    rfl
  rw [cstr, hbehind]
  exact untilNul_append hd rest

theorem fieldResp_desc (n d : Bytes) (resp : HttpResponse) :
    (fieldResp n d resp).desc = resp.desc := by
  rw [fieldResp]
  split_ifs
  · rfl
  · rfl
  · rfl
  · rfl
  · cases scanInt d with
    | none => rfl
    | some v => rfl
  · rfl
  · rfl
  · rfl
  · rfl
  · rfl

/-- **A LINE THAT CAN BE PROCESSED** is, with the same result wherever it lies and
    whatever follows. -/
theorem processLine_safe {state : ParseState} {l rest : Bytes} (hsafe : LineSafe state l rest)
    (resp : HttpResponse) :
    ∃ r : HttpResponse, (r.desc = resp.desc ∨ r.desc.length ≤ responseCodeDescMax) ∧
      ∀ pre stale, processLine (pre ++ (l ++ cr :: (rest ++ stale))) pre.length
        (pre.length + l.length) state resp =
          .ok (pre ++ (l ++ cr :: (rest ++ stale)), .hrHeaderLine, r) := by
  cases state with
  | hrFirstLine =>
      obtain ⟨k, text, hfind, htext, hfits⟩ := hsafe
      obtain ⟨r, hr⟩ := (scanStatus_fits text resp).mpr hfits
      refine ⟨r, scanStatus_desc hr, fun pre stale => ?_⟩
      have hpos : k + 5 ≤ (l ++ 0 :: rest).length := by
        by_contra hlong
        rw [List.drop_eq_nil_of_le (by omega)] at htext
        cases htext
      have hstring : readStr (pre ++ (l ++ 0 :: (rest ++ stale))) (pre.length + k + 4 + 1) =
          .ok text := by
        have hdrop : (pre ++ (l ++ 0 :: (rest ++ stale))).drop (pre.length + k + 4 + 1) =
            (l ++ 0 :: rest).drop (k + 5) ++ stale := by
          rw [Nat.add_assoc, Nat.add_assoc, List.drop_append, List.drop_eq_nil_of_le (by omega),
            List.nil_append, Nat.add_sub_cancel_left, ← List.drop_append_of_le_length hpos]
          simp
        rw [readStr, cstr, hdrop, untilNul_more htext]
      rw [processLine, set_inside]
      simp only [readStr_line, hfind, bind, Except.bind, hstring, hr, pure, Except.pure]
      rw [set_inside]
  | hrHeaderLine =>
      obtain ⟨k, hfind⟩ := Option.isSome_iff_exists.mp hsafe
      obtain ⟨n, d, hnd, hlen⟩ := strstr_split (by decide) hfind
      refine ⟨fieldResp n d resp, ?_, fun pre stale => ?_⟩
      · rw [fieldResp_desc]
        exact Or.inl rfl
      · have hstring : cstr (pre ++ (l ++ 0 :: (rest ++ stale))) pre.length =
            some (n ++ 58 :: 32 :: d) := by
          have hread := readStr_line pre l (rest ++ stale)
          rw [readStr] at hread
          cases hc : cstr (pre ++ (l ++ 0 :: (rest ++ stale))) pre.length with
          | none =>
              rw [hc] at hread
              cases hread
          | some t =>
              rw [hc] at hread
              rw [Except.ok.inj hread, hnd]
              rfl
        obtain ⟨hname, hvalue⟩ := cstr_field hstring
        obtain ⟨code, hcode⟩ := httpParseResponseHeaderLine_spec resp hname hvalue
        rw [processLine, set_inside]
        simp only [readStr_line, hfind, bind, Except.bind, ← hlen, hcode, pure, Except.pure,
          set_set_self (cstr_getElem? hstring)]
        rw [set_inside]
  | hrBody => exact hsafe.elim
  | hrEnd => exact hsafe.elim

/-- **A LINE THAT WAS PROCESSED** could be. -/
theorem processLine_inv {state : ParseState} {pre l rest : Bytes} {resp : HttpResponse}
    {out : Bytes × ParseState × HttpResponse} (hstate : state.beforeBody = true)
    (h : processLine (pre ++ (l ++ cr :: rest)) pre.length (pre.length + l.length) state resp =
      .ok out) : LineSafe state l rest := by
  cases state with
  | hrFirstLine =>
      rw [processLine, set_inside] at h
      simp only [readStr_line, bind, Except.bind] at h
      cases hfind : strstr (lit "HTTP") (l.takeWhile (· ≠ 0)) with
      | none =>
          rw [hfind] at h
          cases h
      | some k =>
          rw [hfind] at h
          dsimp only at h
          have hdrop : (pre ++ (l ++ 0 :: rest)).drop (pre.length + k + 4 + 1) =
              (l ++ 0 :: rest).drop (k + 5) := by
            rw [Nat.add_assoc, Nat.add_assoc, List.drop_append, List.drop_eq_nil_of_le (by omega),
              List.nil_append, Nat.add_sub_cancel_left]
          rw [readStr, cstr, hdrop] at h
          cases htext : untilNul ((l ++ 0 :: rest).drop (k + 5)) with
          | none =>
              rw [htext] at h
              cases h
          | some text =>
              rw [htext] at h
              dsimp only at h
              refine ⟨k, text, hfind, htext, (scanStatus_fits text resp).mp ?_⟩
              cases hr : scanStatus text resp with
              | error e =>
                  rw [hr] at h
                  cases h
              | ok r => exact ⟨r, rfl⟩
  | hrHeaderLine =>
      rw [processLine, set_inside] at h
      simp only [readStr_line, bind, Except.bind] at h
      cases hfind : strstr (lit ": ") (l.takeWhile (· ≠ 0)) with
      | none =>
          rw [hfind] at h
          cases h
      | some k =>
          rw [LineSafe, hfind]
          rfl
  | hrBody => cases hstate
  | hrEnd => cases hstate

/-! ## The whole walk -/

/-- The end of a call does not look behind the buffer. -/
theorem finishBuffer_stale {buffer : Bytes} (stale : Bytes) (dataLen prev : Nat)
    {ctx : HttpResponseContext} (resp : HttpResponse) (lines : List Bytes)
    (h : ctx.remainDataIndex + ctx.remainDataLen ≤ buffer.length) :
    finishBuffer (buffer ++ stale) dataLen prev ctx resp lines =
      { finishBuffer buffer dataLen prev ctx resp lines with
        buffer := (finishBuffer buffer dataLen prev ctx resp lines).buffer ++ stale } := by
  rw [finishBuffer, finishBuffer]
  by_cases hrem : 0 < ctx.remainDataLen
  · rw [if_pos hrem, if_pos hrem]
    have hslice : ((buffer ++ stale).drop ctx.remainDataIndex).take ctx.remainDataLen =
        (buffer.drop ctx.remainDataIndex).take ctx.remainDataLen := by
      rw [List.drop_append_of_le_length (by omega), List.take_append_of_le_length]
      rw [List.length_drop]
      omega
    have hlen : ((buffer.drop ctx.remainDataIndex).take ctx.remainDataLen).length ≤
        buffer.length := by
      rw [List.length_take, List.length_drop]
      omega
    rw [hslice, store_zero, store_zero, List.drop_append_of_le_length hlen]
    simp
  · rw [if_neg hrem, if_neg hrem]
    by_cases hbody : ctx.state = .hrBody
    · rw [if_pos hbody, if_pos hbody]
    · rw [if_neg hbody, if_neg hbody]

theorem finishBuffer_resp (buffer : Bytes) (dataLen prev : Nat) (ctx : HttpResponseContext)
    (resp : HttpResponse) (lines : List Bytes) :
    (finishBuffer buffer dataLen prev ctx resp lines).resp = resp := by
  rw [finishBuffer]
  split_ifs
  · rfl
  · rfl
  · rfl

/-- What the loop has in front of it. -/
theorem window_all (pre w stale : Bytes) :
    ((pre ++ w ++ stale).drop pre.length).take ((pre ++ w).length - pre.length) = w := by
  rw [List.append_assoc, List.drop_left, List.length_append, Nat.add_sub_cancel_left,
    List.take_left]

/-- How a walk ends: within the buffer, and without a look behind it. -/
structure Ends (dataLen : Nat) (resp : HttpResponse) (buffer : Bytes) (hp : HeadParse)
    (run : Bytes → Except Abort HeadParse) : Prop where
  within : hp.ctx.remainDataIndex + hp.ctx.remainDataLen ≤ dataLen
  desc : hp.resp.desc = resp.desc ∨ hp.resp.desc.length ≤ responseCodeDescMax
  length : hp.buffer.length = buffer.length
  run : ∀ stale, run stale = .ok { hp with buffer := hp.buffer ++ stale }

/-- **A SAFE BUFFER IS WALKED TO ITS END**, by induction on what it looks like. -/
theorem walkable_ends {inner : Bool} {state : ParseState} {w : Bytes}
    (h : Walkable inner state w) :
    ∀ {pre : Bytes} {next : Option Nat} {fuel : Nat} {ctx : HttpResponseContext}
      {resp : HttpResponse} {lines : List Bytes}, 0 < (pre ++ w).length →
      NextAt next pre.length → inner = next.isSome → ctx.state = state →
      state.beforeBody = true → ctx.remainDataIndex = 0 → ctx.remainDataLen = 0 →
      w.length < fuel →
      ∃ hp, Ends (pre ++ w).length resp (pre ++ w) hp fun stale =>
        lineLoop (pre ++ w).length fuel next pre.length (pre ++ w ++ stale) ctx resp lines := by
  induction h with
  | tail hno =>
      -- no line ends here: what there is waits for the next call
      rename_i w
      intro pre next fuel ctx resp lines hpos hnext hinner hstate hbefore hidx hrem hfuel
      obtain ⟨fuel, rfl⟩ : ∃ n, fuel = n + 1 := ⟨fuel - 1, by omega⟩
      have hdata : (pre ++ w).length = pre.length + w.length := List.length_append
      have hnb : ctx.state ≠ .hrBody := by
        rw [hstate]
        rintro rfl
        cases hbefore
      have hin : (HttpResponseContext.remainDataIndex { ctx with
          remainDataIndex := pre.length, remainDataLen := w.length }) + w.length ≤
            (pre ++ w).length := by
        rw [hdata]
      refine ⟨finishBuffer (pre ++ w) (pre ++ w).length pre.length
        { ctx with remainDataIndex := pre.length, remainDataLen := w.length } resp lines,
        ?_, ?_, ?_, fun stale => ?_⟩
      · have hctx : (finishBuffer (pre ++ w) (pre ++ w).length pre.length
            { ctx with remainDataIndex := pre.length, remainDataLen := w.length } resp lines).ctx
              = { ctx with remainDataIndex := pre.length, remainDataLen := w.length } :=
          finishBuffer_ctx hnb
        rw [hctx]
        exact hin
      · rw [finishBuffer_resp]
        exact Or.inl rfl
      · exact finishBuffer_length _ _ _ _ hin
      · have hsome : 0 < pre.length ∨ 0 < w.length := by omega
        have hleft : (pre ++ w).length - pre.length = w.length := by omega
        rw [lineLoop, if_neg (by omega), window_all, findSeparator_none w false _ hno, hleft]
        dsimp only
        rw [if_pos hsome, finishBuffer_stale stale _ _ resp lines hin]
  | body =>
      -- the empty line behind another one: the rest of the buffer is not looked at
      rename_i rest
      intro pre next fuel ctx resp lines hpos hnext hinner hstate hbefore hidx hrem hfuel
      obtain ⟨fuel, rfl⟩ : ∃ n, fuel = n + 1 := ⟨fuel - 1, by omega⟩
      obtain ⟨n, rfl⟩ := Option.isSome_iff_exists.mp hinner.symm
      have hdata : (pre ++ cr :: lf :: rest).length = pre.length + (rest.length + 2) :=
        List.length_append
      refine ⟨finishBuffer (pre ++ cr :: lf :: rest) (pre ++ cr :: lf :: rest).length pre.length
        { ctx with state := .hrBody } resp lines, ?_, ?_, ?_, fun stale => ?_⟩
      · rw [finishBuffer]
        simp only [hrem, Nat.lt_irrefl, if_false, if_true]
        omega
      · rw [finishBuffer_resp]
        exact Or.inl rfl
      · refine finishBuffer_length _ _ _ _ ?_
        show ctx.remainDataIndex + ctx.remainDataLen ≤ _
        omega
      · have hsep : findSeparator false pre.length (cr :: lf :: rest) = some (pre.length + 0) :=
          findSeparator_line [] false pre.length rest (fun hi => by cases List.infix_nil.mp hi)
        have hempty : Option.map (· + 2) (some n) = some (pre.length + 0) := by
          rw [Option.map_some, hnext n rfl, Nat.add_zero]
        rw [lineLoop, if_neg (by omega), window_all, hsep]
        dsimp only
        rw [if_pos hempty, finishBuffer_stale]
        show ctx.remainDataIndex + ctx.remainDataLen ≤ _
        omega
  | line hl hne hsafe hrest ih =>
      -- a line is read, and the walk goes on behind its CR LF
      rename_i inner state l rest
      intro pre next fuel ctx resp lines hpos hnext hinner hstate hbefore hidx hrem hfuel
      obtain ⟨fuel, rfl⟩ : ∃ n, fuel = n + 1 := ⟨fuel - 1, by omega⟩
      have hpre := line_split pre l rest
      obtain ⟨r, hdesc, hline⟩ := processLine_safe hsafe resp
      have hless : rest.length < fuel := by
        rw [List.length_append, List.length_cons, List.length_cons] at hfuel
        omega
      have hwalk : ∃ hp, Ends (pre ++ l ++ crlf ++ rest).length r (pre ++ l ++ crlf ++ rest) hp
          fun stale => lineLoop (pre ++ l ++ crlf ++ rest).length fuel
            (some (pre.length + l.length)) (pre ++ l ++ crlf).length
            (pre ++ l ++ crlf ++ rest ++ stale) { ctx with state := .hrHeaderLine } r
            (lines ++ [l]) :=
        ih (by rw [← hpre]; exact hpos) nextAt_line rfl rfl rfl hidx hrem hless
      obtain ⟨hp, hends⟩ := hwalk
      rw [← hpre] at hends
      refine ⟨hp, hends.within, ?_, hends.length, fun stale => ?_⟩
      · rcases hends.desc with hsame | hfits
        · rw [hsame]
          exact hdesc
        · exact Or.inr hfits
      · have hnotEmpty : ¬ next.map (· + 2) = some (pre.length + l.length) := by
          rw [emptyLine_iff hnext]
          rintro ⟨hsome, hnil⟩
          exact hne (hinner.trans hsome) hnil
        have hmem : pre ++ (l ++ cr :: lf :: rest) ++ stale =
            pre ++ (l ++ cr :: ((lf :: rest) ++ stale)) := by simp
        have hslice : ((pre ++ (l ++ cr :: lf :: rest) ++ stale).drop pre.length).take
            (pre.length + l.length - pre.length) = l := by
          rw [List.append_assoc, List.drop_left, Nat.add_sub_cancel_left, List.append_assoc,
            List.take_left]
        have hrun := hends.run stale
        rw [lineLoop, if_neg (by rw [List.length_append]; omega), window_all,
          findSeparator_line l false _ rest hl]
        dsimp only
        rw [if_neg hnotEmpty, hstate, hmem, hline pre stale, ← hmem]
        dsimp only
        rw [hslice, ← line_length]
        exact hrun

/-- **A WALK THAT ENDED** was over a buffer that can be walked, by induction on the
    passes. -/
theorem walk_inv : ∀ {fuel : Nat} {pre w : Bytes} {next : Option Nat}
    (ctx : HttpResponseContext) {resp : HttpResponse} {lines : List Bytes} {hp : HeadParse},
    NextAt next pre.length → ctx.state.beforeBody = true →
    lineLoop (pre ++ w).length fuel next pre.length (pre ++ w) ctx resp lines = .ok hp →
    Walkable next.isSome ctx.state w := by
  intro fuel
  induction fuel with
  | zero =>
      intro pre w next ctx resp lines hp _ _ h
      cases h
  | succ fuel ih =>
      intro pre w next ctx resp lines hp hnext hstate h
      have hwin := window_all pre w []
      rw [List.append_nil] at hwin
      rw [lineLoop, if_neg (by rw [List.length_append]; omega), hwin] at h
      rcases line_or_tail w with hno | ⟨l, rest, rfl, hl⟩
      · exact .tail hno
      · rw [findSeparator_line l false _ rest hl] at h
        dsimp only at h
        by_cases hempty : next.map (· + 2) = some (pre.length + l.length)
        · obtain ⟨hsome, rfl⟩ := (emptyLine_iff hnext).mp hempty
          rw [hsome]
          exact .body
        · rw [if_neg hempty] at h
          have hcr : (pre ++ (l ++ cr :: lf :: rest))[pre.length + l.length]? = some cr := by
            simp
          have hne : next.isSome = true → l ≠ [] :=
            fun hsome hnil => hempty ((emptyLine_iff hnext).mpr ⟨hsome, hnil⟩)
          cases hproc : processLine (pre ++ (l ++ cr :: lf :: rest)) pre.length
              (pre.length + l.length) ctx.state resp with
          | error e =>
              rw [hproc] at h
              cases h
          | ok out =>
              obtain ⟨b', st', r'⟩ := out
              obtain ⟨rfl, rfl⟩ := processLine_ok hcr hstate hproc
              have hsafe : LineSafe ctx.state l (lf :: rest) := processLine_inv hstate hproc
              rw [hproc] at h
              dsimp only at h
              rw [← line_length, line_split] at h
              exact .line hl hne hsafe (ih _ nextAt_line rfl h)

/-! ## Exactly the safe buffers -/

/-- **SAFE EXACTLY WHEN IT CAN BE WALKED.** -/
theorem safe_iff {buffer : Bytes} {ctx : HttpResponseContext} (resp : HttpResponse)
    (hne : buffer ≠ []) (hstate : ctx.state.beforeBody = true) :
    Safe buffer ctx resp ↔ Walkable false ctx.state buffer := by
  constructor
  · rintro ⟨hp, hrun, -⟩
    rw [httpParseResponseHeaderPerBuffer] at hrun
    have hnext : NextAt none ([] : Bytes).length := by rintro _ ⟨⟩
    have hloop : lineLoop ([] ++ buffer).length (buffer.length + 1) none ([] : Bytes).length
        ([] ++ buffer) { ctx with remainDataIndex := 0, remainDataLen := 0 } resp [] = .ok hp :=
      hrun
    exact walk_inv { ctx with remainDataIndex := 0, remainDataLen := 0 } hnext hstate hloop
  · intro hwalk
    have hends : ∃ hp, Ends ([] ++ buffer).length resp ([] ++ buffer) hp fun stale =>
        lineLoop ([] ++ buffer).length (buffer.length + 1) none ([] : Bytes).length
          ([] ++ buffer ++ stale) { ctx with remainDataIndex := 0, remainDataLen := 0 } resp [] :=
      walkable_ends hwalk (List.length_pos_iff.mpr hne) (by rintro _ ⟨⟩) rfl rfl hstate rfl rfl
        (Nat.lt_succ_self _)
    obtain ⟨hp, hends⟩ := hends
    refine ⟨hp, ?_, hends.within, hends.desc, hends.length, hends.run⟩
    have hrun := hends.run []
    rw [List.append_nil, List.append_nil] at hrun
    exact hrun

/-- A reply that is no HTTP: the search for `HTTP` fails, and its result is used. -/
theorem not_safe : ¬ Safe (lit "GARBAGE\r\n") .zero .zero := by
  rintro ⟨hp, hrun, -⟩
  have hcrash : httpParseResponseHeaderPerBuffer (lit "GARBAGE\r\n") 9 .zero .zero =
      .error .nullDeref := by decide +kernel
  cases hcrash.symm.trans hrun

/-- A head with one field, and the first byte of its body. -/
theorem safe_okHead :
    Safe (lit "HTTP/1.1 200 OK" ++ cr :: lf :: (lit "A: b" ++ cr :: lf :: (cr :: lf :: [120])))
      .zero .zero := by
  refine (safe_iff .zero (by decide +kernel) rfl).mpr ?_
  have hok : WordFits (lit "1.1 200 OK") := by
    refine (scanStatus_fits _ .zero).mp ⟨_, rfl⟩
  have hcolon : (strstr (lit ": ") ((lit "A: b").takeWhile (· ≠ 0))).isSome := by decide +kernel
  refine .line (by decide +kernel) (by decide)
    ⟨0, lit "1.1 200 OK", by decide +kernel, by decide +kernel, hok⟩ ?_
  exact .line (by decide +kernel) (fun _ => by decide +kernel) hcolon .body

end HeadSafety
