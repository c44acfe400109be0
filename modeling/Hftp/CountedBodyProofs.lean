import Hftp.CompletionProofs

/-! # Bodies of a declared length

    Without a transfer encoding `http_internal_response` counts what it hands to
    `resp_body_func` against the Content-Length of the head.  The count is made
    once for each read, so it is the ends of the reads that decide how the call
    comes back.

    The count is first written down for arrivals of any kind; the loop is then
    shown to make it. -/

namespace CountedBody

open CBytes HttpCore HttpHeader HttpChunked HttpResp HeadSegmentation ChunkResume Completion

/-! ## Counting arrivals -/

section Count

variable {α : Type}

/-- How a count ends: the number was met, passed, or not reached. -/
inductive Verdict where
  | reached
  | overrun
  | drained
  deriving DecidableEq, Repr

/-- Arrivals are taken whole until there are `n` items or more. -/
def count (n : Nat) (got : List α) : List (List α) → List α × Verdict
  | [] =>
      if got.length = n then (got, .reached)
      else if n < got.length then (got, .overrun)
      else (got, .drained)
  | d :: ds =>
      if got.length = n then (got, .reached)
      else if n < got.length then (got, .overrun)
      else count n (got ++ d) ds

/-- What is there after `i` arrivals. -/
def after (got : List α) (ds : List (List α)) (i : Nat) : List α := got ++ (ds.take i).flatten

/-- Before the first arrival there is what there was. -/
@[simp] theorem after_zero (got : List α) (ds : List (List α)) : after got ds 0 = got := by
  rw [after, List.take_zero, List.flatten_nil, List.append_nil]

/-- Each arrival comes behind the ones before it. -/
@[simp] theorem after_cons (got d : List α) (ds : List (List α)) (i : Nat) :
    after got (d :: ds) (i + 1) = after (got ++ d) ds i := by
  rw [after, after, List.take_succ_cons, List.flatten_cons, List.append_assoc]

/-- What has come only grows. -/
theorem after_grows (got : List α) (ds : List (List α)) (i : Nat) :
    got.length ≤ (after got ds i).length := by
  rw [after, List.length_append]
  omega

/-- It never exceeds what comes in all. -/
theorem after_le_all (got : List α) (ds : List (List α)) (i : Nat) :
    (after got ds i).length ≤ (after got ds ds.length).length := by
  rw [after, after, List.take_length, List.length_append, List.length_append]
  have hsub : (ds.take i).flatten <+: ds.flatten := by
    refine ⟨(ds.drop i).flatten, ?_⟩
    rw [← List.flatten_append, List.take_append_drop]
  have := hsub.length_le
  omega

/-- The count ends where the length is met. -/
theorem count_reached {n : Nat} {got : List α} (h : got.length = n) (ds : List (List α)) :
    count n got ds = (got, .reached) := by
  cases ds with
  | nil => exact if_pos h
  | cons d ds => exact if_pos h

/-- It ends where the length is passed. -/
theorem count_overrun {n : Nat} {got : List α} (h : n < got.length) (ds : List (List α)) :
    count n got ds = (got, .overrun) := by
  cases ds with
  | nil => rw [count, if_neg (by omega), if_pos h]
  | cons d ds => rw [count, if_neg (by omega), if_pos h]

/-- It ends where nothing more comes. -/
theorem count_short {n : Nat} {got : List α} (h : got.length < n) :
    count n got [] = (got, .drained) := by
  rw [count, if_neg (by omega), if_neg (by omega)]

/-- Otherwise it goes on with the next read. -/
theorem count_more {n : Nat} {got : List α} (h : got.length < n) (d : List α)
    (ds : List (List α)) : count n got (d :: ds) = count n (got ++ d) ds := by
  rw [count, if_neg (by omega), if_neg (by omega)]

/-- What was counted are whole arrivals from the first one on. -/
theorem count_after (n : Nat) : ∀ (ds : List (List α)) (got : List α),
    ∃ i ≤ ds.length, (count n got ds).1 = after got ds i := by
  intro ds
  induction ds with
  | nil =>
      intro got
      refine ⟨0, Nat.le_refl 0, ?_⟩
      rw [after_zero, count]
      split
      · rfl
      · split <;> rfl
  | cons d ds ih =>
      intro got
      rcases Nat.lt_trichotomy got.length n with hlt | heq | hgt
      · obtain ⟨i, hi, hcount⟩ := ih (got ++ d)
        refine ⟨i + 1, Nat.succ_le_succ hi, ?_⟩
        rw [count_more hlt, hcount, after_cons]
      · refine ⟨0, Nat.zero_le _, ?_⟩
        rw [count_reached heq, after_zero]
      · refine ⟨0, Nat.zero_le _, ?_⟩
        rw [count_overrun hgt, after_zero]

/-- A number that is never reached is counted to the last arrival. -/
theorem count_all {n : Nat} : ∀ {ds : List (List α)} {got : List α},
    (∀ i ≤ ds.length, (after got ds i).length < n) →
    (count n got ds).1 = after got ds ds.length := by
  intro ds
  induction ds with
  | nil =>
      intro got h
      have hshort := h 0 (Nat.le_refl 0)
      rw [after_zero] at hshort
      rw [count_short hshort, List.length_nil, after_zero]
  | cons d ds ih =>
      intro got h
      have hshort := h 0 (Nat.zero_le _)
      rw [after_zero] at hshort
      rw [count_more hshort, List.length_cons, after_cons]
      refine ih fun i hi => ?_
      have hnext := h (i + 1) (Nat.succ_le_succ hi)
      rw [after_cons] at hnext
      exact hnext

/-- **THE NUMBER IS MET EXACTLY WHEN** it is what some arrivals make. -/
theorem count_reached_iff {n : Nat} : ∀ {ds : List (List α)} {got : List α},
    (count n got ds).2 = .reached ↔ ∃ i ≤ ds.length, (after got ds i).length = n := by
  intro ds
  induction ds with
  | nil =>
      intro got
      rcases Nat.lt_trichotomy got.length n with hlt | heq | hgt
      · rw [count_short hlt]
        constructor
        · intro h
          cases h
        · rintro ⟨i, hi, h⟩
          rw [Nat.le_zero.mp hi, after_zero] at h
          omega
      · rw [count_reached heq]
        exact ⟨fun _ => ⟨0, Nat.le_refl 0, by rw [after_zero]; exact heq⟩, fun _ => rfl⟩
      · rw [count_overrun hgt]
        constructor
        · intro h
          cases h
        · rintro ⟨i, hi, h⟩
          rw [Nat.le_zero.mp hi, after_zero] at h
          omega
  | cons d ds ih =>
      intro got
      rcases Nat.lt_trichotomy got.length n with hlt | heq | hgt
      · rw [count_more hlt, ih]
        constructor
        · rintro ⟨i, hi, h⟩
          refine ⟨i + 1, Nat.succ_le_succ hi, ?_⟩
          rw [after_cons]
          exact h
        · rintro ⟨i, hi, h⟩
          cases i with
          | zero =>
              rw [after_zero] at h
              omega
          | succ i =>
              rw [after_cons] at h
              exact ⟨i, Nat.le_of_succ_le_succ hi, h⟩
      · rw [count_reached heq]
        exact ⟨fun _ => ⟨0, Nat.zero_le _, by rw [after_zero]; exact heq⟩, fun _ => rfl⟩
      · rw [count_overrun hgt]
        constructor
        · intro h
          cases h
        · rintro ⟨i, -, h⟩
          have := after_grows got (d :: ds) i
          omega

/-- **THE NUMBER IS PASSED EXACTLY WHEN** one arrival leads from below it to above
    it. -/
theorem count_overrun_iff {n : Nat} : ∀ {ds : List (List α)} {got : List α},
    (count n got ds).2 = .overrun ↔ n < got.length ∨
      ∃ i < ds.length, (after got ds i).length < n ∧ n < (after got ds (i + 1)).length := by
  intro ds
  -- the induction is on the deliveries still to come
  induction ds with
  | nil =>
      intro got
      rcases Nat.lt_trichotomy got.length n with hlt | heq | hgt
      · rw [count_short hlt]
        constructor
        · intro h
          cases h
        · rintro (h | ⟨i, hi, -⟩)
          · omega
          · exact absurd hi (Nat.not_lt_zero i)
      · rw [count_reached heq]
        constructor
        · intro h
          cases h
        · rintro (h | ⟨i, hi, -⟩)
          · omega
          · exact absurd hi (Nat.not_lt_zero i)
      · rw [count_overrun hgt]
        exact ⟨fun _ => Or.inl hgt, fun _ => rfl⟩
  | cons d ds ih =>
      intro got
      rcases Nat.lt_trichotomy got.length n with hlt | heq | hgt
      · rw [count_more hlt, ih]
        constructor
        · rintro (h | ⟨i, hi, hbelow, habove⟩)
          -- the first delivery overran, or a later one of the rest did
          · refine Or.inr ⟨0, Nat.succ_pos _, ?_, ?_⟩
            · rw [after_zero]
              exact hlt
            · rw [after_cons, after_zero]
              exact h
          · refine Or.inr ⟨i + 1, Nat.succ_lt_succ hi, ?_, ?_⟩
            · rw [after_cons]
              exact hbelow
            · rw [after_cons]
              exact habove
        · rintro (h | ⟨i, hi, hbelow, habove⟩)
          · omega
          · rw [after_cons] at habove
            cases i with
            | zero =>
                rw [after_zero] at habove
                exact Or.inl habove
            | succ i =>
                rw [after_cons] at hbelow
                exact Or.inr ⟨i, Nat.lt_of_succ_lt_succ hi, hbelow, habove⟩
      · rw [count_reached heq]
        constructor
        · intro h
          cases h
        · rintro (h | ⟨i, -, h, -⟩)
          · omega
          · have := after_grows got (d :: ds) i
            omega
      · rw [count_overrun hgt]
        exact ⟨fun _ => Or.inl hgt, fun _ => rfl⟩

end Count

/-! ## The loop counts -/

/-- A call came to what the count came to, with `base` bytes of the socket in
    front of what was counted. -/
structure Counted (base : Nat) (c : Bytes × Verdict) (run : RespRun) : Prop where
  calls : bodyBytes run.s.calls = c.1
  taken : run.s.sock.taken = base + c.1.length
  stop : run.stop = .ok (if c.2 = .overrun then 1 else 0)
  state : run.s.ctx.state = if c.2 = .reached then .hrEnd else .hrBody

/-- **THE LOOP MAKES THE COUNT**, from the end of any pass over the body on. -/
theorem loop_counts (onHeader : Bool) {n base : Nat} (hn : 0 < n) :
    ∀ {ds : List Bytes} {fuel : Nat} {prior : Bytes} {s : RespLocal}, Plain n prior s →
      s.sock.segs = ds → s.sock.taken = base + prior.length →
      (∀ d ∈ ds, d ≠ [] ∧ d.length ≤ s.buffer.length) → ds.length < fuel →
      Counted base (count n prior ds) (runAfter onHeader true fuel (bodyEnd s)) := by
  intro ds
  induction ds with
  | nil =>
      intro fuel prior s hs hsegs htaken _ hfuel
      obtain ⟨f, rfl⟩ : ∃ f, fuel = f + 1 := ⟨fuel - 1, by omega⟩
      rcases bodyEnd_plain hs with ⟨-, heq, hend⟩ | ⟨-, hlt, hend⟩ | ⟨hmore, hend⟩
      · rw [hend, count_reached (Int.ofNat_inj.mp heq).symm]
        exact ⟨hs.calls, htaken, rfl, rfl⟩
      · rw [hend, count_overrun (Int.ofNat_lt.mp hlt)]
        exact ⟨hs.calls, htaken, rfl, hs.state⟩
      · have hshort : prior.length < n := Int.ofNat_lt.mp (hmore (Int.natCast_pos.mpr hn))
        rw [hend, count_short hshort, runAfter, respLoop_end onHeader true f hs.forced hsegs]
        exact ⟨hs.calls, htaken, rfl, hs.state⟩
  | cons d ds ih =>
      intro fuel prior s hs hsegs htaken hreads hfuel
      obtain ⟨f, rfl⟩ : ∃ f, fuel = f + 1 := ⟨fuel - 1, by omega⟩
      rcases bodyEnd_plain hs with ⟨-, heq, hend⟩ | ⟨-, hlt, hend⟩ | ⟨hmore, hend⟩
      · rw [hend, count_reached (Int.ofNat_inj.mp heq).symm]
        exact ⟨hs.calls, htaken, rfl, rfl⟩
      · rw [hend, count_overrun (Int.ofNat_lt.mp hlt)]
        exact ⟨hs.calls, htaken, rfl, hs.state⟩
      · -- the next read is handed over whole
        have hshort : prior.length < n := Int.ofNat_lt.mp (hmore (Int.natCast_pos.mpr hn))
        obtain ⟨hd, hdlen⟩ := hreads d List.mem_cons_self
        have hread := Sock.read_cons (n := s.buffer.length - s.ctx.remainDataLen) hsegs hd
          (by rw [hs.remain]; omega)
        have hstore : (store s.buffer 0 d).length = s.buffer.length := store_length (by omega)
        obtain ⟨s', hpass, hs', hbuf', hsock'⟩ := plain_pass onHeader (n := n)
          (s := { s with buffer := store s.buffer 0 d,
                         sock := { s.sock with segs := ds, taken := s.sock.taken + d.length } })
          ⟨hs.state, hs.flag, hs.encoding, hs.length, hs.forced, hs.remain, hs.calls, hs.bodyLen⟩
          (store_zero _ _) hd
        rw [hend, runAfter, respLoop_read hread hd, hs.remain, hpass, count_more hshort]
        refine ih hs' (by rw [hsock']) ?_ ?_ (by rw [List.length_cons] at hfuel; omega)
        · rw [hsock', List.length_append]
          show s.sock.taken + d.length = _
          omega
        · intro e he
          rw [hbuf']
          show e ≠ [] ∧ e.length ≤ (store s.buffer 0 d).length
          rw [hstore]
          exact hreads e (List.mem_cons_of_mem _ he)

/-! ## Heads that declare a length -/

/-- The value of a field line. -/
def fieldValue (l : Bytes) : Bytes :=
  match strstr (lit ": ") l with
  | some k => l.drop (k + 2)
  | none => []

/-- A field value that is a decimal number, between blanks. -/
def IsNumber (v : Bytes) (n : Nat) : Prop :=
  ∃ before text behind, v = before ++ (text ++ behind) ∧ readDecimal text = some n ∧
    (∀ b ∈ before, b = 32 ∨ b = 9) ∧ (∀ b ∈ behind, b = 32 ∨ b = 9)

/-- `Content-Length: n`, as often as it stands there. -/
structure Declares (h : ResponseHead) (n : Nat) : Prop where
  present : declaresLength h = true
  value : ∀ l ∈ h.fields, strcaseeq (lit "Content-Length") (fieldName l) = true →
    IsNumber (fieldValue l) n

/-- There is no Transfer-Encoding. -/
def Unencoded (h : ResponseHead) : Prop :=
  ∀ l ∈ h.fields, strcaseeq (lit "Transfer-Encoding") (fieldName l) = false

/-- The status line reader does not touch the encoding. -/
theorem scanStatus_encoding {t : Bytes} {resp r : HttpResponse} (h : scanStatus t resp = .ok r) :
    r.transferEncoding = resp.transferEncoding := by
  unfold scanStatus at h
  repeat' split at h
  all_goals
    first
      | rw [← Except.ok.inj h]
      | cases h

/-- A status line says nothing of a coding. -/
theorem statusResp_encoding (l : Bytes) (resp : HttpResponse) :
    (statusResp l resp).transferEncoding = resp.transferEncoding := by
  rw [statusResp]
  cases hscan : scanStatus (l.drop 5) resp with
  | error e => rfl
  | ok r => exact scanStatus_encoding hscan

/-- No other field sets the encoding. -/
theorem fieldResp_encoding {n : Bytes} (d : Bytes) (resp : HttpResponse)
    (h : strcaseeq (lit "Transfer-Encoding") n = false) :
    (fieldResp n d resp).transferEncoding = resp.transferEncoding := by
  rw [fieldResp, h]
  simp only [Bool.false_eq_true, if_false]
  repeat' split
  all_goals rfl

/-- Header lines of other names say nothing of one either. -/
theorem linesResp_encoding : ∀ {ls : List Bytes} (resp : HttpResponse),
    (∀ l ∈ ls, strcaseeq (lit "Transfer-Encoding") (fieldName l) = false) →
    (linesResp .hrHeaderLine ls resp).transferEncoding = resp.transferEncoding := by
  intro ls
  induction ls with
  | nil => intro resp _; rfl
  | cons l ls ih =>
      intro resp h
      have hl := h l List.mem_cons_self
      rw [linesResp, ih _ (fun k hk => h k (List.mem_cons_of_mem _ hk)), lineResp]
      cases hk : strstr (lit ": ") l with
      | none => rfl
      | some k =>
          refine fieldResp_encoding _ resp ?_
          rw [fieldName, hk] at hl
          exact hl

/-- A head that names no coding is read as one without. -/
theorem head_unencoded {h : ResponseHead} (hun : Unencoded h) :
    (linesResp .hrFirstLine h.lines .zero).transferEncoding = .teNone := by
  rw [ResponseHead.lines, linesResp, linesResp_encoding _ hun]
  exact statusResp_encoding h.status .zero

/-- Two spellings of one name are spellings of each other. -/
theorem strcaseeq_trans {a b n : Bytes} (ha : strcaseeq a n = true) (hb : strcaseeq b n = true) :
    strcaseeq a b = true := by
  rw [strcaseeq, beq_iff_eq] at ha hb ⊢
  rw [ha, hb]

/-- What a field with the number sets. -/
theorem fieldResp_number {name v : Bytes} {n : Nat} (resp : HttpResponse)
    (hname : strcaseeq (lit "Content-Length") name = true) (hv : IsNumber v n) :
    (fieldResp name v resp).contentLength = clampLong n := by
  obtain ⟨before, text, behind, rfl, htext, hbefore, hbehind⟩ := hv
  have hconn : strcaseeq (lit "Connection") name ≠ true := fun h =>
    absurd (strcaseeq_trans h hname) (by decide)
  have htype : strcaseeq (lit "Content-Type") name ≠ true := fun h =>
    absurd (strcaseeq_trans h hname) (by decide)
  rw [fieldResp, if_neg hconn, if_neg htype, if_pos hname,
    scanInt_decimal hbefore hbehind htext]

/-- Header lines that agree on a length set it, saturated. -/
theorem linesResp_number {n : Nat} : ∀ {ls : List Bytes} (resp : HttpResponse),
    (∀ l ∈ ls, strcaseeq (lit "Content-Length") (fieldName l) = true →
      IsNumber (fieldValue l) n) →
    (linesResp .hrHeaderLine ls resp).contentLength
      = if ls.any (fun l => strcaseeq (lit "Content-Length") (fieldName l)) then clampLong n
        else resp.contentLength := by
  intro ls
  induction ls with
  | nil => intro resp _; rfl
  | cons l ls ih =>
      intro resp h
      rw [linesResp, ih _ (fun k hk => h k (List.mem_cons_of_mem _ hk)), List.any_cons]
      by_cases hlater : ls.any (fun l => strcaseeq (lit "Content-Length") (fieldName l)) = true
      · rw [if_pos hlater, hlater, Bool.or_true, if_pos rfl]
      · rw [if_neg hlater]
        rw [Bool.not_eq_true] at hlater
        rw [hlater, Bool.or_false, lineResp]
        have hvalue := h l List.mem_cons_self
        cases hk : strstr (lit ": ") l with
        | none =>
            have hname : strcaseeq (lit "Content-Length") (fieldName l) = false := by
              rw [fieldName, hk]
              rfl
            rw [hname]
            rfl
        | some k =>
            have hfield : fieldName l = l.take k := by rw [fieldName, hk]
            have hval : fieldValue l = l.drop (k + 2) := by rw [fieldValue, hk]
            rw [hfield, hval] at hvalue
            rw [hfield]
            by_cases hname : strcaseeq (lit "Content-Length") (l.take k) = true
            · rw [if_pos hname]
              exact fieldResp_number resp hname (hvalue hname)
            · rw [if_neg hname]
              exact fieldResp_length _ resp (Bool.not_eq_true _ ▸ hname)

/-- The length that a head declares is the one that is read, saturated. -/
theorem head_declares {h : ResponseHead} {n : Nat} (hdecl : Declares h n) :
    (linesResp .hrFirstLine h.lines .zero).contentLength = clampLong n := by
  rw [ResponseHead.lines, linesResp, linesResp_number _ hdecl.value, if_pos]
  exact hdecl.present

/-! ## Exact delivery -/

/-- A response with a declared length and no encoding, its head in the first read
    and the body cut anyhow. -/
structure CountedArrival where
  head : ResponseHead
  length : Nat
  first : Bytes
  later : List Bytes
  buffer : Bytes
  peer : Peer
  pos : 0 < length
  declares : Declares head length
  unencoded : Unencoded head
  results : ∀ d ∈ (head.text ++ first) :: later, d ≠ [] ∧ d.length ≤ buffer.length

variable (a : CountedArrival)

def CountedArrival.reads : List Bytes := (a.head.text ++ a.first) :: a.later

def CountedArrival.run : RespRun :=
  httpInternalResponse (.fresh a.peer.sockfd a.peer.clb) a.buffer
    { segs := a.reads, ending := a.peer.ending, taken := 0 }

/-- The bytes behind the empty line in the first read and `i` later ones. -/
def CountedArrival.body (i : Nat) : Bytes := after a.first a.later i

/-- **EXACT DELIVERY** of a body of `n` bytes: `resp_body_func` is given the bytes
    that were read behind the empty line, all of them as long as there are less
    than `n`; the call ends with 0 and `HR_END` exactly when a read ends there, and
    with 1 exactly when one leads past it. -/
structure CountedArrival.Exact (n : Nat) : Prop where
  delivered : ∃ i ≤ a.later.length, bodyBytes a.run.s.calls = a.body i ∧
    a.run.s.sock.taken = a.head.text.length + (a.body i).length
  all : (∀ i ≤ a.later.length, (a.body i).length < n) →
    bodyBytes a.run.s.calls = a.body a.later.length
  ends : (a.run.stop = .ok 0 ∧ a.run.s.ctx.state = .hrEnd) ↔
    ∃ i ≤ a.later.length, (a.body i).length = n
  fails : a.run.stop = .ok 1 ↔ n < a.first.length ∨
    ∃ i < a.later.length, (a.body i).length < n ∧ n < (a.body (i + 1)).length

/-- The length as the connection keeps it. -/
def CountedArrival.kept : Nat := min a.length (2 ^ 63 - 1)

/-- The length that is kept is the one that is read. -/
theorem CountedArrival.kept_eq : clampLong a.length = (a.kept : Int) := by
  rw [clampLong, CountedArrival.kept]
  omega

/-- The call counts as the counter does. -/
theorem CountedArrival.counts :
    Counted a.head.text.length (count a.kept a.first a.later) a.run := by
  have hpos := a.pos
  obtain ⟨hne, hlen⟩ := a.results _ List.mem_cons_self
  obtain ⟨sock, hsock⟩ : ∃ sock : Sock, sock
      = { segs := a.reads, ending := a.peer.ending, taken := 0 } := ⟨_, rfl⟩
  obtain ⟨s, hs⟩ : ∃ s, s = RespLocal.start (.fresh a.peer.sockfd a.peer.clb) a.buffer sock :=
    ⟨_, rfl⟩
  have hroom : 0 < a.buffer.length := by
    have := List.length_pos_iff.mpr hne
    omega
  obtain ⟨fuel, hfuel, hrun⟩ : ∃ fuel, a.later.length < fuel ∧
      a.run = respLoop a.peer.clb.respHeaderFunc.isSome true (fuel + 1) s := by
    refine ⟨a.reads.flatten.length + a.reads.length + 2, ?_, ?_⟩
    · rw [CountedArrival.reads, List.length_cons]
      omega
    · rw [hs, hsock, ← a.peer.listens]
      exact if_pos ⟨a.peer.fd, hroom⟩
  have hread := Sock.read_cons (n := s.buffer.length - s.ctx.remainDataLen)
    (show s.sock.segs = (a.head.text ++ a.first) :: a.later by rw [hs, hsock]; rfl) hne
    (by rw [hs]; exact hlen)
  have hrem : s.ctx.remainDataLen = 0 := by rw [hs]; rfl
  obtain ⟨t, ht⟩ : ∃ t : RespLocal, t = { s with
      buffer := store s.buffer 0 (a.head.text ++ a.first),
      sock := { s.sock with segs := a.later, taken := s.sock.taken
        + (a.head.text ++ a.first).length } } := ⟨_, rfl⟩
  have hsearch : Searching t := by
    rw [ht, hs]
    exact ⟨rfl, rfl, rfl, rfl, Nat.zero_le _⟩
  have hresp : linesResp t.ctx.state a.head.lines t.resp
      = linesResp .hrFirstLine a.head.lines .zero := by
    rw [ht, hs]
    rfl
  have hbuf : t.buffer.length = a.buffer.length := by
    rw [ht, hs]
    exact store_length (by rw [Nat.zero_add]; exact hlen)
  have hview : t.buffer = linesText a.head.lines ++ (crlf ++ (a.first ++
      s.buffer.drop (a.head.text ++ a.first).length)) := by
    rw [ht]
    show store s.buffer 0 _ = _
    rw [store_zero, ResponseHead.text, List.append_assoc, List.append_assoc]
  obtain ⟨s', hpass, hplain, hbuf', hsock'⟩ := first_plain a.peer.clb.respHeaderFunc.isSome 0
    hsearch (show LinesOk t.ctx.state a.head.lines by rw [ht, hs]; exact a.head.linesOk)
    (List.cons_ne_nil _ _) hview
    (show (a.head.text ++ a.first).length = _ by rw [ResponseHead.text, read_length])
    (by rw [ht, hs]; rfl) (by rw [ht, hs]; rfl)
    (by rw [hresp]; exact head_unencoded a.unencoded)
  rw [hresp, head_declares a.declares, a.kept_eq] at hplain
  rw [hrun, respLoop_read hread hne, hrem, ← ht, hpass]
  refine loop_counts _ ?_ hplain ?_ ?_ ?_ hfuel
  · rw [CountedArrival.kept]
    omega
  · rw [hsock', ht]
  · rw [hsock', ht, hs, hsock, List.length_append]
    show 0 + _ = _
    omega
  · intro d hd
    rw [hbuf', hbuf]
    exact a.results d (List.mem_cons_of_mem _ hd)

/-- The delivery is exact for the length as it is kept. -/
theorem CountedArrival.exact_kept : a.Exact a.kept := by
  obtain ⟨hcalls, htaken, hstop, hstate⟩ := a.counts
  constructor
  · obtain ⟨i, hi, hgot⟩ := count_after a.kept a.later a.first
    refine ⟨i, hi, ?_, ?_⟩
    · rw [hcalls, hgot]
      rfl
    · rw [htaken, hgot]
      rfl
  · intro h
    rw [hcalls]
    exact count_all h
  · rw [hstop, hstate]
    refine Iff.trans ?_ count_reached_iff
    cases (count a.kept a.first a.later).2 with
    | reached => decide
    | overrun => decide
    | drained => decide
  · rw [hstop]
    refine Iff.trans ?_ count_overrun_iff
    cases (count a.kept a.first a.later).2 with
    | reached => decide
    | overrun => decide
    | drained => decide

/-- **A BODY OF DECLARED LENGTH IS DELIVERED EXACTLY**, if the length is a
    `long long` or less arrives than a `long long` counts. -/
theorem delivered_exactly
    (h : a.length < 2 ^ 63 ∨ (a.body a.later.length).length < 2 ^ 63 - 1) :
    a.Exact a.length := by
  have hkept := a.exact_kept
  by_cases hfits : a.length < 2 ^ 63
  · have heq : a.kept = a.length := by
      rw [CountedArrival.kept]
      omega
    rw [heq] at hkept
    exact hkept
  · -- neither the length nor the greatest `long long` is reached
    have hless := h.resolve_left hfits
    have hk : a.kept = 2 ^ 63 - 1 := by
      rw [CountedArrival.kept]
      omega
    have hbelow : ∀ i, (a.body i).length < 2 ^ 63 - 1 := fun i =>
      Nat.lt_of_le_of_lt (after_le_all a.first a.later i) hless
    refine ⟨hkept.delivered, fun _ => hkept.all fun i _ => ?_, hkept.ends.trans ?_,
      hkept.fails.trans ?_⟩
    · rw [hk]
      exact hbelow i
    · rw [hk]
      constructor
      · rintro ⟨i, -, heq⟩
        have := hbelow i
        omega
      · rintro ⟨i, -, heq⟩
        have := hbelow i
        omega
    · have hfirst := hbelow 0
      rw [CountedArrival.body, after_zero] at hfirst
      rw [hk]
      constructor
      · rintro (hlt | ⟨i, -, -, hlt⟩)
        · omega
        · have := hbelow (i + 1)
          omega
      · rintro (hlt | ⟨i, -, -, hlt⟩)
        · omega
        · have := hbelow (i + 1)
          omega

/-- The head that declares two bytes. -/
theorem smallHead_declares : Declares smallHead 2 := by
  refine ⟨by decide +kernel, fun l hl _ => ?_⟩
  rw [List.mem_singleton.mp hl]
  exact ⟨[], lit "2", [], by decide +kernel, by decide +kernel, by decide +kernel,
    by decide +kernel⟩

/-- The head names no coding. -/
theorem smallHead_unencoded : Unencoded smallHead := by
  intro l hl
  rw [List.mem_singleton.mp hl]
  decide +kernel

/-- Two bytes, one with the head and one behind it. -/
def twoBytes : CountedArrival :=
  { head := smallHead, length := 2, first := lit "o", later := [lit "k"],
    buffer := List.replicate 64 0, peer := smallPeer, pos := by decide,
    declares := smallHead_declares, unencoded := smallHead_unencoded, results := by decide }

/-- Two bytes that were declared are told, and no other. -/
theorem twoBytes_exact : twoBytes.Exact 2 :=
  delivered_exactly twoBytes (Or.inl (by decide))

/-- A head that declares one byte more than a `long long` counts. -/
def longHead : ResponseHead :=
  { status := lit "HTTP/1.1 200 OK", fields := [lit "Content-Length: 9223372036854775808"],
    statusOk := smallHead.statusOk,
    fieldsOk := by
      intro l hl
      rw [List.mem_singleton.mp hl]
      exact ⟨by decide, by decide, by decide⟩ }

/-- The declared bytes but the last, one in each read. -/
def longArrival (k : Nat) : CountedArrival :=
  { head := longHead, length := 2 ^ 63, first := [], later := List.replicate k [0],
    buffer := List.replicate 64 0, peer := smallPeer, pos := by decide,
    declares := by
      refine ⟨by decide +kernel, fun l hl _ => ?_⟩
      rw [List.mem_singleton.mp hl]
      exact ⟨[], lit "9223372036854775808", [], by decide +kernel, by decide +kernel,
        by decide +kernel, by decide +kernel⟩
    unencoded := by
      intro l hl
      rw [List.mem_singleton.mp hl]
      decide +kernel
    results := by
      intro d hd
      rcases List.mem_cons.mp hd with rfl | hlater
      · decide +kernel
      · rw [List.eq_of_mem_replicate hlater]
        decide }

/-- Of a long arrival any length may have come. -/
theorem longArrival_body (k : Nat) {i : Nat} (hi : i ≤ k) :
    ((longArrival k).body i).length = i := by
  show ([] ++ ((List.replicate k [(0 : Byte)]).take i).flatten).length = i
  rw [List.nil_append, List.take_replicate, List.flatten_replicate_singleton,
    List.length_replicate, Nat.min_eq_left hi]

/-- One byte before its declared length the longest body is taken as complete. -/
theorem longArrival_not_exact :
    ¬ (longArrival (2 ^ 63 - 1)).Exact (longArrival (2 ^ 63 - 1)).length := by
  generalize hk : 2 ^ 63 - 1 = k
  intro hexact
  have hlater : (longArrival k).later.length = k := List.length_replicate
  have hkept : (longArrival k).kept = k := by
    show min (2 ^ 63) (2 ^ 63 - 1) = k
    omega
  have hends := (longArrival k).exact_kept.ends.mpr
    ⟨k, by rw [hlater], by rw [longArrival_body k (Nat.le_refl k), hkept]⟩
  obtain ⟨i, hi, hlen⟩ := hexact.ends.mp hends
  rw [hlater] at hi
  rw [longArrival_body k hi] at hlen
  have : i = 2 ^ 63 := hlen
  omega

end CountedBody
