import Hftp.ChunkConfinementProofs
import Hftp.EndOfResponseProofs
import Hftp.HttpMethodProofs

/-! # How a response comes to its end

    `http_internal_response` reads until a read brings nothing, or until the body is
    complete.  A pass without a byte is made behind the end of a chunked body that is
    not complete, and it is made once: it clears `forced_continue`.  Every other pass
    takes a byte from the socket or passes over an arrival, so there are not many of
    them.

    What is left is one call that does not come back.  The head parser always does:
    each of its lines begins behind the last.  So it is the chunked decoder, on a
    window of which a pass does not get shorter. -/

namespace Reading

open CBytes HttpCore HttpHeader HttpChunked HttpResp HeadSegmentation ChunkedWindow
open ChunkConfinement EndOfResponse HttpMethod

/-! ## The head parser comes back -/

/-- The line that is found lies in the window, behind its start. -/
theorem findSeparator_within {w : Bytes} : ∀ {flag : Bool} {p q : Nat}, (flag = true → 0 < p) →
    findSeparator flag p w = some q →
      q + 2 ≤ p + w.length ∧ p ≤ q + 1 ∧ (flag = false → p ≤ q) := by
  induction w with
  | nil =>
      intro flag p q _ h
      cases h
  | cons b w ih =>
      intro flag p q hp h
      rw [findSeparator] at h
      rw [List.length_cons]
      split_ifs at h with hcr hlf hflag
      · obtain ⟨hend, hstart, -⟩ := ih (fun _ => Nat.succ_pos p) h
        exact ⟨by omega, by omega, fun _ => by omega⟩
      · have hpos := hp hflag
        have hq : p - 1 = q := Option.some.inj h
        refine ⟨by omega, by omega, fun hno => ?_⟩
        rw [hflag] at hno
        cases hno
      · obtain ⟨hend, hstart, hfalse⟩ := ih (fun hyes => absurd hyes hflag) h
        exact ⟨by omega, by omega, fun hno => by have := hfalse hno; omega⟩
      · obtain ⟨hend, hstart, hfalse⟩ := ih (fun hyes => by cases hyes) h
        have := hfalse rfl
        exact ⟨by omega, by omega, fun _ => by omega⟩

/-- Reading a string comes to an end. -/
theorem readStr_comes (mem : Bytes) (p : Nat) : readStr mem p ≠ .error .diverges := by
  rw [readStr]
  cases cstr mem p with
  | some s => rintro ⟨⟩
  | none => rintro ⟨⟩

/-- A sequence comes back if its parts do. -/
theorem bind_comes {α β : Type} {x : Except Abort α} {f : α → Except Abort β}
    (hx : x ≠ .error .diverges) (hf : ∀ a, f a ≠ .error .diverges) :
    (x >>= f) ≠ .error .diverges := by
  cases x with
  | error e => exact fun h => hx (congrArg Except.error (Except.error.inj h))
  | ok a => exact hf a

/-- So does reading a status line. -/
theorem scanStatus_comes (s : Bytes) (resp : HttpResponse) :
    scanStatus s resp ≠ .error .diverges := by
  rw [scanStatus]
  repeat' split
  all_goals rintro ⟨⟩

/-- So does reading a header line. -/
theorem headerLine_comes (mem : Bytes) (name data : Nat) (resp : HttpResponse) :
    httpParseResponseHeaderLine mem name data resp ≠ .error .diverges := by
  rw [httpParseResponseHeaderLine]
  refine bind_comes (readStr_comes mem name) (fun n => bind_comes (readStr_comes mem data) ?_)
  intro d
  repeat' split
  all_goals first
    | exact bind_comes (readStr_comes _ _) (fun _ => by rintro ⟨⟩)
    | rintro ⟨⟩

/-- So does a line, whichever it is. -/
theorem processLine_comes (mem : Bytes) (prev next : Nat) (state : ParseState)
    (resp : HttpResponse) : processLine mem prev next state resp ≠ .error .diverges := by
  cases state with
  | hrFirstLine =>
      rw [processLine]
      refine bind_comes (readStr_comes _ _) (fun line => ?_)
      cases strstr (lit "HTTP") line with
      | none => rintro ⟨⟩
      | some k =>
          refine bind_comes (readStr_comes _ _) (fun str => ?_)
          exact bind_comes (scanStatus_comes str resp) (fun _ => by rintro ⟨⟩)
  | hrHeaderLine =>
      rw [processLine]
      refine bind_comes (readStr_comes _ _) (fun line => ?_)
      dsimp only
      cases strstr (lit ": ") line with
      | none => rintro ⟨⟩
      | some k => exact bind_comes (headerLine_comes _ _ _ resp) (fun _ => by rintro ⟨⟩)
  | hrBody | hrEnd =>
      rw [processLine]
      · rintro ⟨⟩
      all_goals rintro ⟨⟩

/-- **EVERY LINE BEGINS BEHIND THE LAST**, so there are fewer of them than bytes. -/
theorem lineLoop_comes {dataLen : Nat} {fuel : Nat} : ∀ {next : Option Nat} {prev : Nat}
    {buffer : Bytes} {ctx : HttpResponseContext} {resp : HttpResponse} {lines : List Bytes},
    dataLen - prev < fuel →
      lineLoop dataLen fuel next prev buffer ctx resp lines ≠ .error .diverges := by
  induction fuel with
  | zero =>
      intro next prev buffer ctx resp lines h
      exact absurd h (Nat.not_lt_zero _)
  | succ fuel ih =>
      intro next prev buffer ctx resp lines h
      rw [lineLoop]
      by_cases hbehind : dataLen < prev
      · rw [if_pos hbehind]
        rintro ⟨⟩
      · rw [if_neg hbehind]
        cases hfind : findSeparator false prev ((buffer.drop prev).take (dataLen - prev)) with
        | none =>
            dsimp only
            split
            · rintro ⟨⟩
            · rintro ⟨⟩
        | some findnext =>
            obtain ⟨hend, -, hstart⟩ :=
              findSeparator_within (fun hno => by cases hno) hfind
            have hlen : ((buffer.drop prev).take (dataLen - prev)).length ≤ dataLen - prev :=
              List.length_take_le _ _
            have hle := hstart rfl
            dsimp only
            by_cases hempty : next.map (· + 2) = some findnext
            · rw [if_pos hempty]
              rintro ⟨⟩
            · rw [if_neg hempty]
              cases hline : processLine buffer prev findnext ctx.state resp with
              | error e =>
                  intro hdiverges
                  refine processLine_comes buffer prev findnext ctx.state resp ?_
                  rw [hline, Except.error.inj hdiverges]
              | ok out =>
                  obtain ⟨buffer', state', resp'⟩ := out
                  exact ih (by omega)

/-- The parser comes to an end on every read. -/
theorem parsePass_comes (readLen : Nat) (s : RespLocal) :
    parsePass readLen s ≠ .error .diverges := by
  rw [parsePass]
  split
  · cases hparse : httpParseResponseHeaderPerBuffer s.buffer readLen s.ctx s.resp with
    | error e =>
        intro hdiverges
        have hcomes : httpParseResponseHeaderPerBuffer s.buffer readLen s.ctx s.resp ≠ _ :=
          lineLoop_comes (by omega)
        rw [hparse] at hcomes
        exact hcomes (congrArg Except.error (Except.error.inj hdiverges))
    | ok hp => rintro ⟨⟩
  · rintro ⟨⟩

/-! ## The rounds -/

/-- The body of the loop, with its read. -/
def round (onHeader onBody : Bool) (s : RespLocal) : RespFlow :=
  match s.sock.read (s.buffer.length - s.ctx.remainDataLen) with
  | (none, sock) => .ret (if s.forcedContinue then 1 else 0) { s with sock := sock }
  | (some d, sock) =>
      if d = [] ∧ s.forcedContinue = false then .ret 0 { s with sock := sock }
      else
        respPass onHeader onBody s.ctx.remainDataLen d.length
          { s with buffer := store s.buffer s.ctx.remainDataLen d, sock := sock }

/-- What becomes of the loop behind a round. -/
def settle (onHeader onBody : Bool) (fuel : Nat) : RespFlow → RespRun
  | .go s => respLoop onHeader onBody fuel s
  | .ret code s => { stop := .ok code, s := s }
  | .abort e s => { stop := .error e, s := s }

/-- The loop is a round, and what that leaves to do. -/
theorem respLoop_succ (onHeader onBody : Bool) (fuel : Nat) (s : RespLocal) :
    respLoop onHeader onBody (fuel + 1) s =
      settle onHeader onBody fuel (round onHeader onBody s) := by
  rw [respLoop, round]
  rcases s.sock.read (s.buffer.length - s.ctx.remainDataLen) with ⟨_ | d, sock⟩
  · rfl
  · dsimp only
    split_ifs
    · rfl
    · cases respPass onHeader onBody s.ctx.remainDataLen d.length
        { s with buffer := store s.buffer s.ctx.remainDataLen d, sock := sock } with
      | go u => rfl
      | ret code u => rfl
      | abort e u => rfl

/-- The locals with which a pass calls the chunked decoder, if it does. -/
def handed (onHeader : Bool) (readOff readLen : Nat) (s : RespLocal) : Option RespLocal :=
  match parsePass readLen s with
  | .error _ => none
  | .ok s =>
      if s.ctx.state = .hrBody ∧ s.resp.transferEncoding = .teChunked then
        some (if s.headerEndFlag then s else headerEnd onHeader readOff readLen s)
      else none

section Passes

variable {onHeader onBody : Bool} {readOff readLen : Nat} {s t u : RespLocal}

/-- A call of `resp_body_func` comes to an end. -/
theorem callBody_comes {index n : Nat} : callBody onBody index n s ≠ .error .diverges := by
  rw [callBody, slice]
  split_ifs <;> rintro ⟨⟩

/-- The test for the end adds no divergence. -/
theorem andThen_diverges {fl : RespFlow} :
    (∃ v, fl.andThen bodyEnd = .abort .diverges v) ↔ ∃ v, fl = .abort .diverges v := by
  cases fl with
  | go u =>
      have hend : ∀ v, bodyEnd u ≠ .abort .diverges v := by
        intro v
        rw [bodyEnd]
        split_ifs <;> rintro ⟨⟩
      constructor
      · rintro ⟨v, h⟩
        exact absurd h (hend v)
      · rintro ⟨v, ⟨⟩⟩
  | ret code u => exact Iff.rfl
  | abort e u => exact Iff.rfl

/-- The bytes of a chunked body diverge exactly if the decoder does. -/
theorem chunkedBody_diverges :
    (∃ v, chunkedBody onBody readLen s = .abort .diverges v) ↔
      (httpChunkedResponseBody onBody s.buffer readLen s.ctx s.bodyLen).stop =
        .error .diverges := by
  rw [chunkedBody]
  dsimp only
  cases (httpChunkedResponseBody onBody s.buffer readLen s.ctx s.bodyLen).stop with
  | error e =>
      constructor
      · rintro ⟨v, h⟩
        rw [(RespFlow.abort.inj h).1]
      · intro h
        rw [Except.error.inj h]
        exact ⟨_, rfl⟩
  | ok continued =>
      constructor
      · rintro ⟨v, ⟨⟩⟩
      · rintro ⟨⟩

/-- Of a body, only a chunked one may not come back. -/
theorem nextBody_diverges :
    (∃ v, nextBody onBody readLen s = .abort .diverges v) ↔
      s.resp.transferEncoding = .teChunked ∧
        (httpChunkedResponseBody onBody s.buffer readLen s.ctx s.bodyLen).stop =
          .error .diverges := by
  rw [nextBody]
  cases s.resp.transferEncoding with
  | teChunked =>
      dsimp only
      rw [chunkedBody_diverges]
      exact ⟨fun h => ⟨rfl, h⟩, And.right⟩
  | teNone =>
      constructor
      · rintro ⟨v, h⟩
        dsimp only at h
        cases hcall : callBody onBody 0 readLen { s with bodyLen := s.bodyLen + readLen } with
        | error e =>
            rw [hcall] at h
            rw [(RespFlow.abort.inj h).1] at hcall
            exact absurd hcall callBody_comes
        | ok u =>
            rw [hcall] at h
            cases h
      · rintro ⟨⟨⟩, -⟩
  | teNotSupported =>
      constructor
      · rintro ⟨v, ⟨⟩⟩
      · rintro ⟨⟨⟩, -⟩

/-- The bytes behind a head diverge only in chunks. -/
theorem firstBody_diverges :
    (∃ v, firstBody onBody readLen s = .abort .diverges v) ↔
      s.resp.transferEncoding = .teChunked ∧
        (httpChunkedResponseBody onBody s.buffer readLen s.ctx s.bodyLen).stop =
          .error .diverges := by
  rw [firstBody]
  cases s.resp.transferEncoding with
  | teChunked =>
      dsimp only
      rw [chunkedBody_diverges]
      exact ⟨fun h => ⟨rfl, h⟩, And.right⟩
  | teNone =>
      constructor
      · rintro ⟨v, h⟩
        dsimp only at h
        split_ifs at h
        cases hcall : callBody onBody s.ctx.remainDataIndex s.ctx.remainDataLen
            { s with bodyLen := s.bodyLen + s.ctx.remainDataLen } with
        | error e =>
            rw [hcall] at h
            rw [(RespFlow.abort.inj h).1] at hcall
            exact absurd hcall callBody_comes
        | ok u =>
            rw [hcall] at h
            cases h
      · rintro ⟨⟨⟩, -⟩
  | teNotSupported =>
      constructor
      · rintro ⟨v, ⟨⟩⟩
      · rintro ⟨⟨⟩, -⟩

/-- **A PASS DOES NOT COME BACK** exactly if it calls the decoder and that does not. -/
theorem respPass_diverges :
    (∃ v, respPass onHeader onBody readOff readLen s = .abort .diverges v) ↔
      ∃ v, handed onHeader readOff readLen s = some v ∧
        (httpChunkedResponseBody onBody v.buffer readLen v.ctx v.bodyLen).stop =
          .error .diverges := by
  rw [respPass, handed]
  cases hparse : parsePass readLen s with
  | error e =>
      constructor
      · rintro ⟨v, h⟩
        rw [(RespFlow.abort.inj h).1] at hparse
        exact absurd hparse (parsePass_comes readLen s)
      · rintro ⟨v, ⟨⟩, -⟩
  | ok t =>
      dsimp only
      by_cases hstate : t.ctx.state = .hrBody
      · rw [if_pos hstate]
        by_cases hflag : t.headerEndFlag = true
        · rw [if_pos hflag, andThen_diverges, nextBody_diverges, if_pos hflag]
          constructor
          · rintro ⟨hcoding, h⟩
            exact ⟨t, if_pos ⟨hstate, hcoding⟩, h⟩
          · rintro ⟨v, hv, h⟩
            split_ifs at hv with hboth
            rw [← Option.some.inj hv] at h
            exact ⟨hboth.2, h⟩
        · rw [if_neg hflag, andThen_diverges, firstBody_diverges, if_neg hflag]
          constructor
          · rintro ⟨hcoding, h⟩
            exact ⟨_, if_pos ⟨hstate, hcoding⟩, h⟩
          · rintro ⟨v, hv, h⟩
            split_ifs at hv with hboth
            rw [← Option.some.inj hv] at h
            exact ⟨hboth.2, h⟩
      · rw [if_neg hstate]
        constructor
        · rintro ⟨v, ⟨⟩⟩
        · rintro ⟨v, hv, -⟩
          rw [if_neg (fun hboth => hstate hboth.1)] at hv
          cases hv

/-! ## What carries the count -/

/-- `forced_continue` is set only in a chunked body, with nothing left over. -/
structure Waits (s : RespLocal) : Prop where
  state : s.forcedContinue = true → s.ctx.state = .hrBody
  flag : s.forcedContinue = true → s.headerEndFlag = true
  coding : s.forcedContinue = true → s.resp.transferEncoding = .teChunked
  remain : s.forcedContinue = true → s.ctx.remainDataLen = 0

/-- Without the flag the loop waits for nothing. -/
theorem Waits.of_clear (h : s.forcedContinue = false) : Waits s := by
  have hnot : ∀ {p : Prop}, s.forcedContinue = true → p := by
    intro p hset
    rw [h] at hset
    cases hset
  exact ⟨hnot, hnot, hnot, hnot⟩

/-- What a call of the decoder leaves of the locals. -/
theorem chunkedBody_go (h : chunkedBody onBody readLen s = .go u) :
    u.ctx.state = s.ctx.state ∧ u.headerEndFlag = s.headerEndFlag ∧ u.resp = s.resp ∧
      (readLen ≠ 0 → u.ctx.remainDataLen = 0) ∧ (readLen = 0 → u.forcedContinue = false) := by
  have hbody := chunkedBody_bodyOnly onBody readLen s
  have hstate := chunkedBody_state onBody readLen s
  rw [h] at hbody hstate
  refine ⟨hstate, hbody.headerEndFlag, hbody.resp, fun hread => ?_, fun hread => ?_⟩
  · have hkept : (httpChunkedResponseBody onBody s.buffer readLen s.ctx
        s.bodyLen).s.ctx.remainDataLen = 0 := by
      rw [body_call hread]
      refine chunkLoop_keeps (fun ctx => ctx.remainDataLen = 0) ?_ _ _ _ rfl
      intro label v hv
      exact (chunkStep_bare onBody s.buffer label v).2.trans hv
    rw [chunkedBody] at h
    dsimp only at h
    split at h
    · cases h
    · rw [← RespFlow.go.inj h]
      exact hkept
  · rw [chunkedBody, httpChunkedResponseBody, if_pos hread] at h
    rw [← RespFlow.go.inj h]

/-- A call of `resp_body_func` leaves the flag alone. -/
theorem callBody_forced {index n : Nat} (h : callBody onBody index n s = .ok u) :
    u.forcedContinue = s.forcedContinue := by
  rw [callBody] at h
  split at h
  · split at h
    · cases h
    · rw [← Except.ok.inj h]
  · rw [← Except.ok.inj h]

/-- A body that is not chunked leaves `forced_continue` alone. -/
theorem nextBody_plain (hcoding : s.resp.transferEncoding ≠ .teChunked)
    (h : nextBody onBody readLen s = .go u) : u.forcedContinue = s.forcedContinue := by
  rw [nextBody] at h
  cases hkind : s.resp.transferEncoding with
  | teChunked => exact absurd hkind hcoding
  | teNone =>
      rw [hkind] at h
      dsimp only at h
      split at h
      · cases h
      · rename_i v hcall
        have hforced := callBody_forced hcall
        rw [← RespFlow.go.inj h]
        exact hforced
  | teNotSupported =>
      rw [hkind] at h
      rw [← RespFlow.go.inj h]

/-- So do the bytes behind a head that are not in chunks. -/
theorem firstBody_plain (hcoding : s.resp.transferEncoding ≠ .teChunked)
    (h : firstBody onBody readLen s = .go u) : u.forcedContinue = s.forcedContinue := by
  rw [firstBody] at h
  cases hkind : s.resp.transferEncoding with
  | teChunked => exact absurd hkind hcoding
  | teNone =>
      rw [hkind] at h
      dsimp only at h
      split at h
      · split at h
        · cases h
        · rename_i v hcall
          have hforced := callBody_forced hcall
          rw [← RespFlow.go.inj h]
          exact hforced
      · rw [← RespFlow.go.inj h]
  | teNotSupported =>
      rw [hkind] at h
      rw [← RespFlow.go.inj h]

/-- The test for the end changes nothing if the loop goes on. -/
theorem bodyEnd_go (h : bodyEnd s = .go u) : u = s := by
  rw [bodyEnd] at h
  split_ifs at h
  exact (RespFlow.go.inj h).symm

/-- The parser leaves the flag alone. -/
theorem parsePass_forced (h : parsePass readLen s = .ok u) :
    u.forcedContinue = s.forcedContinue := by
  rw [parsePass] at h
  split at h
  · split at h
    · cases h
    · rw [← Except.ok.inj h]
  · rw [← Except.ok.inj h]

/-- A pass goes on with its body, if it has one. -/
theorem respPass_go (h : respPass onHeader onBody readOff readLen s = .go u) :
    ∃ t, parsePass readLen s = .ok t ∧
      ((t.ctx.state = .hrBody ∧ passBody onHeader onBody readOff readLen t = .go u) ∨
        (t.ctx.state ≠ .hrBody ∧ u = t)) := by
  rw [respPass] at h
  cases hparse : parsePass readLen s with
  | error e =>
      rw [hparse] at h
      cases h
  | ok t =>
      rw [hparse] at h
      dsimp only at h
      refine ⟨t, rfl, ?_⟩
      split_ifs at h with hstate hflag
      · refine Or.inl ⟨hstate, ?_⟩
        rw [passBody, if_pos hflag]
        cases hbody : nextBody onBody readLen t with
        | go v =>
            rw [hbody] at h
            rw [bodyEnd_go h]
        | ret _ _ | abort _ _ =>
            rw [hbody] at h
            cases h
      · refine Or.inl ⟨hstate, ?_⟩
        rw [passBody, if_neg hflag]
        cases hbody : firstBody onBody readLen (headerEnd onHeader readOff readLen t) with
        | go v =>
            rw [hbody] at h
            rw [bodyEnd_go h]
        | ret _ _ | abort _ _ =>
            rw [hbody] at h
            cases h
      · exact Or.inr ⟨hstate, (RespFlow.go.inj h).symm⟩

/-- **A PASS** keeps to that, and a pass without a byte clears the flag. -/
theorem Waits.pass (h : Waits s)
    (hpass : respPass onHeader onBody readOff readLen s = .go u) :
    Waits u ∧ (readLen = 0 → u.forcedContinue = false) := by
  obtain ⟨t, hparse, ⟨hstate, hbody⟩ | ⟨hstate, rfl⟩⟩ := respPass_go hpass
  · have hforced := parsePass_forced hparse
    have hflag := (parsePass_head hparse).2
    -- a flag that is set was set before the head was complete
    have hsame : s.forcedContinue = true → t = s := by
      intro hset
      rw [parsePass, h.state hset] at hparse
      exact (Except.ok.inj hparse).symm
    by_cases hcoding : t.resp.transferEncoding = .teChunked
    · have hafter : ∀ v : RespLocal, v.ctx.state = .hrBody → v.headerEndFlag = true →
          v.resp = t.resp → chunkedBody onBody readLen v = .go u →
            Waits u ∧ (readLen = 0 → u.forcedContinue = false) := by
        intro v hv hvflag hvresp hgo
        obtain ⟨hustate, huflag, huresp, hurem, hufalse⟩ := chunkedBody_go hgo
        refine ⟨⟨fun _ => hustate.trans hv, fun _ => huflag.trans hvflag, fun _ => ?_,
          fun hset => hurem (fun hzero => ?_)⟩, hufalse⟩
        · rw [huresp, hvresp]
          exact hcoding
        · rw [hufalse hzero] at hset
          cases hset
      rw [passBody] at hbody
      split_ifs at hbody with hend
      · rw [nextBody, hcoding] at hbody
        exact hafter t hstate hend rfl hbody
      · rw [firstBody, show (headerEnd onHeader readOff readLen t).resp = t.resp from rfl,
          hcoding] at hbody
        exact hafter _ ((headerEnd_state _ _ _ _).trans hstate) rfl rfl hbody
    · have hclear : t.forcedContinue = false := by
        rw [← Bool.not_eq_true, hforced]
        intro hset
        rw [hsame hset] at hcoding
        exact hcoding (h.coding hset)
      have hnone : u.forcedContinue = false := by
        rw [passBody] at hbody
        split_ifs at hbody with hend
        · rw [nextBody_plain hcoding hbody]
          exact hclear
        · have hplain := firstBody_plain (s := headerEnd onHeader readOff readLen t) hcoding hbody
          rw [hplain, headerEnd]
          simp [hcoding, hclear]
      exact ⟨.of_clear hnone, fun _ => hnone⟩
  · have hclear : u.forcedContinue = false := by
      rw [← Bool.not_eq_true, parsePass_forced hparse]
      intro hset
      rw [parsePass, h.state hset] at hparse
      have hsame : s = u := Except.ok.inj hparse
      exact hstate (hsame ▸ h.state hset)
    exact ⟨.of_clear hclear, fun _ => hclear⟩

end Passes

/-! ## The count -/

section Count

variable {onHeader onBody : Bool} {s u : RespLocal}

/-- The bytes that a read asks for. -/
def room (s : RespLocal) : Nat := s.buffer.length - s.ctx.remainDataLen

/-- The rounds that are left, at most. -/
def needs (s : RespLocal) : Nat :=
  if room s = 0 ∨ s.sock.segs = [] then if s.forcedContinue then 2 else 1
  else left s.sock + s.sock.segs.length + 2

/-- A loop that goes on needs a round. -/
theorem needs_pos (s : RespLocal) : 0 < needs s := by
  rw [needs]
  split_ifs <;> omega

/-- It needs at most two more than there are bytes and arrivals. -/
theorem needs_le (s : RespLocal) : needs s ≤ left s.sock + s.sock.segs.length + 2 := by
  rw [needs]
  split_ifs <;> omega

/-- A read of at least a byte takes a byte, or passes over an arrival. -/
theorem read_falls {sock : Sock} {n : Nat} (hn : n ≠ 0) (hsegs : sock.segs ≠ []) :
    left (sock.read n).2 + (sock.read n).2.segs.length < left sock + sock.segs.length := by
  rw [Sock.read, if_neg hn, left, left]
  cases hcase : sock.segs with
  | nil => exact absurd hcase hsegs
  | cons d ds =>
      dsimp only
      split_ifs with hlen
      · simp only [List.flatten_cons, List.length_append, List.length_cons]
        omega
      · simp only [List.flatten_cons, List.length_append, List.length_cons, List.length_drop]
        omega

/-- A read of nothing, or behind the last arrival, brings nothing. -/
theorem read_nothing {sock sock' : Sock} {n : Nat} {d : Bytes} (h : n = 0 ∨ sock.segs = [])
    (hread : sock.read n = (some d, sock')) : d = [] ∧ sock' = sock := by
  rw [Sock.read] at hread
  split_ifs at hread with hn
  · obtain ⟨hd, hsock⟩ := Prod.mk.inj hread
    exact ⟨(Option.some.inj hd).symm, hsock.symm⟩
  · rw [h.resolve_left hn] at hread
    cases hend : sock.ending with
    | eof =>
        rw [hend] at hread
        obtain ⟨hd, hsock⟩ := Prod.mk.inj hread
        exact ⟨(Option.some.inj hd).symm, hsock.symm⟩
    | err =>
        rw [hend] at hread
        cases hread

/-- **A ROUND** that goes on leaves fewer. -/
theorem Waits.round (h : Waits s) (hgo : round onHeader onBody s = .go u) :
    Waits u ∧ needs u < needs s := by
  rw [Reading.round] at hgo
  rcases hread : s.sock.read (s.buffer.length - s.ctx.remainDataLen) with ⟨_ | d, sock⟩
  · rw [hread] at hgo
    cases hgo
  · rw [hread] at hgo
    dsimp only at hgo
    split_ifs at hgo with hstop
    obtain ⟨t, ht⟩ : ∃ t : RespLocal, t = { s with buffer := store s.buffer s.ctx.remainDataLen d,
                                                   sock := sock } := ⟨_, rfl⟩
    rw [← ht] at hgo
    have hwaits : Waits t := by
      rw [ht]
      exact ⟨h.state, h.flag, h.coding, h.remain⟩
    obtain ⟨hu, hzero⟩ := hwaits.pass hgo
    have hsock : u.sock = sock := by
      have hafter := respPass_sock onHeader onBody s.ctx.remainDataLen d.length t
      rw [hgo, ht] at hafter
      exact hafter
    refine ⟨hu, ?_⟩
    by_cases hend : room s = 0 ∨ s.sock.segs = []
    · -- nothing was read: the flag was set, and is cleared
      obtain ⟨rfl, rfl⟩ := read_nothing hend hread
      have hforced : s.forcedContinue = true := by
        rw [← Bool.not_eq_false]
        exact fun hclear => hstop ⟨rfl, hclear⟩
      have hstill : room u = 0 ∨ u.sock.segs = [] := by
        rcases hend with hroom | hsegs
        · left
          have hstate : t.ctx.state = .hrBody := hwaits.state (by rw [ht]; exact hforced)
          have hflag : t.headerEndFlag = true := hwaits.flag (by rw [ht]; exact hforced)
          have hpass : respPass onHeader onBody s.ctx.remainDataLen 0 t = .go u := hgo
          have hbody : (respPass onHeader onBody s.ctx.remainDataLen 0 t).after.buffer = t.buffer :=
            (respPass_bodyOnly hstate hflag).buffer
          rw [hpass, ht, h.remain hforced] at hbody
          have hbuffer : u.buffer = s.buffer := hbody.trans (store_zero _ _)
          rw [room, h.remain hforced] at hroom
          rw [room, hbuffer]
          omega
        · right
          rw [hsock]
          exact hsegs
      rw [needs, if_pos hstill, hzero rfl, needs, if_pos hend, hforced]
      decide
    · obtain ⟨hroom, hsegs⟩ := not_or.mp hend
      have hfalls := read_falls hroom hsegs
      rw [room, hread, ← hsock] at hfalls
      have hle := needs_le u
      have hneeds : needs s = left s.sock + s.sock.segs.length + 2 := if_neg hend
      dsimp only at hfalls
      omega

/-- The state at the start of a round. -/
inductive Rounds (onHeader onBody : Bool) (s₀ : RespLocal) : Nat → RespLocal → Prop where
  | start : Rounds onHeader onBody s₀ 0 s₀
  | round {n : Nat} {s u : RespLocal} (h : Rounds onHeader onBody s₀ n s)
      (hgo : round onHeader onBody s = .go u) : Rounds onHeader onBody s₀ (n + 1) u

variable {s₀ : RespLocal} {n : Nat}

/-- What the rounds so far took the loop no longer needs. -/
theorem Rounds.few (h : Rounds onHeader onBody s₀ n s) (hw : Waits s₀) :
    Waits s ∧ n + needs s ≤ needs s₀ := by
  induction h with
  | start => exact ⟨hw, by omega⟩
  | round h hgo ih =>
      obtain ⟨hu, hless⟩ := ih.1.round hgo
      exact ⟨hu, by omega⟩

/-- The loop goes on from where its first rounds have come to. -/
theorem Rounds.respLoop (h : Rounds onHeader onBody s₀ n s) : ∀ fuel,
    respLoop onHeader onBody (n + fuel) s₀ = respLoop onHeader onBody fuel s := by
  induction h with
  | start =>
      intro fuel
      rw [Nat.zero_add]
  | @round n s u h hgo ih =>
      intro fuel
      rw [Nat.add_assoc, Nat.add_comm 1 fuel, ih, respLoop_succ, hgo]
      rfl

/-- **MORE FUEL MAKES NO DIFFERENCE.** -/
theorem respLoop_enough {fuel : Nat} : ∀ {s : RespLocal}, Waits s → needs s ≤ fuel → ∀ more,
    HttpResp.respLoop onHeader onBody (fuel + more) s =
      HttpResp.respLoop onHeader onBody fuel s := by
  induction fuel with
  | zero =>
      intro s _ hneeds
      exact absurd (needs_pos s) (by omega)
  | succ fuel ih =>
      intro s hw hneeds more
      rw [Nat.succ_add, respLoop_succ, respLoop_succ]
      cases hflow : round onHeader onBody s with
      | go u =>
          obtain ⟨hu, hless⟩ := hw.round hflow
          exact ih hu (by omega) more
      | ret code u => rfl
      | abort e u => rfl

/-- The loop does not come back exactly if one of its rounds does not. -/
theorem respLoop_diverges {fuel : Nat} (hw : Waits s₀) (hneeds : needs s₀ ≤ fuel) :
    (HttpResp.respLoop onHeader onBody fuel s₀).stop = .error .diverges ↔
      ∃ n s, Rounds onHeader onBody s₀ n s ∧
        ∃ v, round onHeader onBody s = .abort .diverges v := by
  constructor
  · have hfrom : ∀ fuel n s, Rounds onHeader onBody s₀ n s → needs s ≤ fuel →
        (HttpResp.respLoop onHeader onBody fuel s).stop = .error .diverges →
        ∃ n s, Rounds onHeader onBody s₀ n s ∧
          ∃ v, round onHeader onBody s = .abort .diverges v := by
      intro fuel
      induction fuel with
      | zero =>
          intro n s _ hneeds
          exact absurd (needs_pos s) (by omega)
      | succ fuel ih =>
          intro n s hrounds hneeds hstop
          rw [respLoop_succ] at hstop
          cases hflow : round onHeader onBody s with
          | go u =>
              rw [hflow] at hstop
              obtain ⟨-, hless⟩ := (hrounds.few hw).1.round hflow
              exact ih (n + 1) u (hrounds.round hflow) (by omega) hstop
          | ret code u =>
              rw [hflow] at hstop
              cases hstop
          | abort e u =>
              rw [hflow] at hstop
              have he : e = .diverges := Except.error.inj hstop
              rw [he] at hflow
              exact ⟨n, s, hrounds, u, hflow⟩
    exact hfrom fuel 0 s₀ .start hneeds
  · rintro ⟨n, s, hrounds, v, hflow⟩
    have hfew := (hrounds.few hw).2
    have hpos := needs_pos s
    obtain ⟨m, rfl⟩ : ∃ m, fuel = n + (m + 1) := ⟨fuel - n - 1, by omega⟩
    rw [hrounds.respLoop, respLoop_succ, hflow]
    rfl

end Count

/-! ## The call -/

/-- The window and the locals with which a round calls the chunked decoder, if it
    does. -/
def calls (onHeader : Bool) (s : RespLocal) : Option (Nat × RespLocal) :=
  match s.sock.read (s.buffer.length - s.ctx.remainDataLen) with
  | (none, _) => none
  | (some d, sock) =>
      if d = [] ∧ s.forcedContinue = false then none
      else
        (handed onHeader s.ctx.remainDataLen d.length
          { s with buffer := store s.buffer s.ctx.remainDataLen d, sock := sock }).map
            fun v => (d.length, v)

/-- A round diverges exactly if it calls the decoder on a window on which that does. -/
theorem round_diverges {onHeader onBody : Bool} {s : RespLocal} :
    (∃ v, round onHeader onBody s = .abort .diverges v) ↔
      ∃ readLen v, calls onHeader s = some (readLen, v) ∧
        (httpChunkedResponseBody onBody v.buffer readLen v.ctx v.bodyLen).stop =
          .error .diverges := by
  rw [round, calls]
  rcases s.sock.read (s.buffer.length - s.ctx.remainDataLen) with ⟨_ | d, sock⟩
  · constructor
    · rintro ⟨v, ⟨⟩⟩
    · rintro ⟨k, v, ⟨⟩, -⟩
  · dsimp only
    split_ifs with hstop
    · constructor
      · rintro ⟨v, ⟨⟩⟩
      · rintro ⟨k, v, ⟨⟩, -⟩
    · rw [respPass_diverges]
      constructor
      · rintro ⟨v, hv, h⟩
        exact ⟨d.length, v, by rw [hv]; rfl, h⟩
      · rintro ⟨k, v, hv, h⟩
        obtain ⟨v', hv', heq⟩ := Option.map_eq_some_iff.mp hv
        obtain ⟨rfl, rfl⟩ := Prod.mk.inj heq
        exact ⟨v', hv', h⟩

/-- **A RESPONSE COMES TO ITS END**: whatever is left in the connection, and whatever
    arrives, there are at most two reads more than bytes and arrivals, and the call does
    not come back exactly if it calls the chunked decoder on a window on which that
    does not. -/
theorem response_ends (conn : HttpConnection) {buffer : Bytes} (sock : Sock)
    (hopen : conn.sockfd > 2) (hroom : 0 < buffer.length) :
    (∀ n s, Rounds conn.clb.respHeaderFunc.isSome conn.clb.respBodyFunc.isSome
        (.start conn buffer sock) n s → n < sock.segs.flatten.length + sock.segs.length + 2) ∧
    (∀ more, respLoop conn.clb.respHeaderFunc.isSome conn.clb.respBodyFunc.isSome
        (respFuel sock + more) (.start conn buffer sock) = httpInternalResponse conn buffer sock) ∧
    ((httpInternalResponse conn buffer sock).stop = .error .diverges ↔
      ∃ n s readLen v, Rounds conn.clb.respHeaderFunc.isSome conn.clb.respBodyFunc.isSome
          (.start conn buffer sock) n s ∧
        calls conn.clb.respHeaderFunc.isSome s = some (readLen, v) ∧
        (httpChunkedResponseBody conn.clb.respBodyFunc.isSome v.buffer readLen v.ctx
          v.bodyLen).stop = .error .diverges) := by
  have hwaits : Waits (.start conn buffer sock) := .of_clear rfl
  have hle : needs (.start conn buffer sock) ≤
      sock.segs.flatten.length + sock.segs.length + 2 := needs_le _
  have hfuel : needs (.start conn buffer sock) ≤ respFuel sock := by
    rw [respFuel]
    omega
  have hcall : httpInternalResponse conn buffer sock =
      respLoop conn.clb.respHeaderFunc.isSome conn.clb.respBodyFunc.isSome (respFuel sock)
        (.start conn buffer sock) := if_pos ⟨hopen, hroom⟩
  refine ⟨fun n s hrounds => ?_, fun more => ?_, ?_⟩
  · have hfew := (hrounds.few hwaits).2
    have hpos := needs_pos s
    omega
  · rw [hcall]
    exact respLoop_enough hwaits hfuel more
  · rw [hcall, respLoop_diverges hwaits hfuel]
    constructor
    · rintro ⟨n, s, hrounds, hflow⟩
      obtain ⟨readLen, v, hcalls, hstop⟩ := round_diverges.mp hflow
      exact ⟨n, s, readLen, v, hrounds, hcalls, hstop⟩
    · rintro ⟨n, s, readLen, v, hrounds, hcalls, hstop⟩
      exact ⟨n, s, hrounds, round_diverges.mpr ⟨readLen, v, hcalls, hstop⟩⟩

/-- A GET in a fresh slot, and a server that sends two bytes and closes. -/
def shortAnswer : Sock := { segs := [lit "HT"], ending := .eof, taken := 0 }

/-- The socket with a buffer of eight bytes. -/
theorem response_ends_shortAnswer :
    (∀ n s, Rounds true true (.start (.fresh 5 (paramSet .get 0)) (List.replicate 8 0) shortAnswer)
        n s → n < 2 + 1 + 2) ∧
    (∀ more, respLoop true true (respFuel shortAnswer + more)
        (.start (.fresh 5 (paramSet .get 0)) (List.replicate 8 0) shortAnswer) =
      httpInternalResponse (.fresh 5 (paramSet .get 0)) (List.replicate 8 0) shortAnswer) ∧
    ((httpInternalResponse (.fresh 5 (paramSet .get 0)) (List.replicate 8 0) shortAnswer).stop =
        .error .diverges ↔
      ∃ n s readLen v, Rounds true true
          (.start (.fresh 5 (paramSet .get 0)) (List.replicate 8 0) shortAnswer) n s ∧
        calls true s = some (readLen, v) ∧
        (httpChunkedResponseBody true v.buffer readLen v.ctx v.bodyLen).stop =
          .error .diverges) :=
  response_ends (.fresh 5 (paramSet .get 0)) shortAnswer (by decide) (by decide)


end Reading
