import Hftp.UrlWordsInverseProofs

/-! # Taking a URL apart into data

    `url_to_data` searches as `url_to_words` does, but the path is copied whole and
    so is the scheme.  The other parts go through `cstrndup`, whose block has a last
    byte nobody writes: such a part is a string of the right length only if the heap
    happens to hold a NUL there, or if fewer bytes were left to copy than asked
    for. -/

namespace UrlDataInverse

open CBytes HttpCore Url UrlWords UrlParts UrlWordsInverse

/-! ## One copy -/

/-- The block that `cstrndup` fills. -/
def block (junk : Byte) (src : Bytes) (n : Nat) : Bytes :=
  src.take n ++ List.replicate (n - src.length) 0 ++ [junk]

theorem cstrndup_eq (junk : Byte) (src : Bytes) (n : Nat) :
    cstrndup junk src n = .ok (block junk src n) := by
  rw [cstrndup, if_pos (Int.natCast_nonneg n), Int.toNat_natCast]
  rfl

theorem cstrndup_negative (junk : Byte) (src : Bytes) {n : Int} (hn : n < 0) :
    cstrndup junk src n = .error .outOfBounds := by
  rw [cstrndup, if_neg (Int.not_le.mpr hn)]

/-- **A COPY IS A STRING** if the heap ends it, or the source did. -/
theorem untilNul_block {junk : Byte} {src s : Bytes} {n : Nat} (hnul : (0 : Byte) ∉ src) :
    untilNul (block junk src n) = some s ↔ src.take n = s ∧ (src.length < n ∨ junk = 0) := by
  have htake : (0 : Byte) ∉ src.take n := fun h => hnul (List.mem_of_mem_take h)
  by_cases hlt : src.length < n
  · obtain ⟨k, hk⟩ : ∃ k, n - src.length = k + 1 := ⟨n - src.length - 1, by omega⟩
    have hread : untilNul (block junk src n) = some (src.take n) := by
      rw [block, hk, List.append_assoc, List.replicate_succ, List.cons_append]
      exact untilNul_append htake _
    rw [hread]
    constructor
    · intro h
      exact ⟨Option.some.inj h, Or.inl hlt⟩
    · rintro ⟨h, -⟩
      rw [h]
  · have hblock : block junk src n = src.take n ++ [junk] := by
      rw [block, Nat.sub_eq_zero_of_le (Nat.not_lt.mp hlt), List.replicate_zero, List.append_nil]
    rw [hblock]
    by_cases hjunk : junk = 0
    · rw [hjunk, untilNul_append htake []]
      constructor
      · intro h
        exact ⟨Option.some.inj h, Or.inr rfl⟩
      · rintro ⟨h, -⟩
        rw [h]
    · constructor
      · intro h
        obtain ⟨rest, hsplit, -⟩ := untilNul_split h
        have hmem : (0 : Byte) ∈ src.take n ++ [junk] := by
          rw [hsplit]
          exact List.mem_append_right _ List.mem_cons_self
        rcases List.mem_append.mp hmem with hin | hone
        · exact absurd hin htake
        · exact absurd (List.mem_singleton.mp hone).symm hjunk
      · rintro ⟨-, hlt' | hzero⟩
        · exact absurd hlt' hlt
        · exact absurd hzero hjunk

/-! ## The three steps -/

def dirData (cur : Bytes) (data : UrlData) : UrlData :=
  match strstr (lit "/") cur with
  | some slash => { data with dir := some (cstrdup (cur.drop slash)) }
  | none => data

def accountData (junk : Nat → Byte) (cur : Bytes) (data : UrlData) : Except Abort UrlData :=
  match strstr (lit "@") cur with
  | some account =>
      match strstr (lit ":") cur with
      | some colon => do
          let username ← cstrndup (junk 0) cur colon
          let password ← cstrndup (junk 1) (cur.drop (colon + 1)) (account - colon - 1)
          return { data with username := some username, password := some password }
      | none => do
          let username ← cstrndup (junk 0) cur account
          return { data with username := some username }
  | none => return data

/-- The steps one after the other. -/
theorem sessionData_eq (junk : Nat → Byte) (cur : Bytes) (data : UrlData) :
    sessionData junk cur data = (do
      let data ← accountData junk cur (dirData cur data)
      domainData junk (sessionLen cur) (behindAccount cur) data) := by
  rw [sessionData, dirData, sessionLen, accountData, behindAccount]
  cases strstr (lit "/") cur with
  | none | some _ =>
      cases strstr (lit "@") cur with
      | none => rfl
      | some account =>
          cases strstr (lit ":") cur with
          | none => rfl
          | some colon =>
              dsimp only
              cases cstrndup (junk 1) (cur.drop (colon + 1)) (account - colon - 1) with
              | error e => rfl
              | ok password => rfl

/-- The port that is read. -/
def dataPort (cur : Bytes) : Int :=
  match strstr (lit ":") cur with
  | some colon => toInt (strtol 10 (cur.drop (colon + 1)))
  | none => 80

theorem domainData_eq (junk : Nat → Byte) (s : Nat) (cur : Bytes) (data : UrlData) :
    domainData junk s cur data =
      .ok { data with domain := some (block (junk 2) cur (domainLen s cur)),
                      port := dataPort cur } := by
  rw [domainData, domainLen, dataPort]
  cases strstr (lit ":") cur with
  | none | some _ =>
      dsimp only [Option.getD]
      rw [cstrndup_eq]
      rfl

/-! ## The record of a composed URL -/

/-- A component as the record should have it: a string, or NULL. -/
def Holds (cell part : Option Bytes) : Prop :=
  match part with
  | none => cell = none
  | some s => cell.bind untilNul = some s

/-- **THE PARTS ARE BACK** in the record. -/
structure DataRight (p : Parts) (data : UrlData) : Prop where
  scheme : Holds data.scheme (p.scheme.map Scheme.text)
  username : Holds data.username (p.account.map fun a => a.user.text)
  password : Holds data.password (p.account.bind fun a => a.password.map Word.text)
  domain : Holds data.domain (some p.host.text)
  port : data.port = p.portValue
  dir : Holds data.dir (p.path.map Path.text)

/-- `url_to_data` returns 0 and gives the parts back. -/
def Gives (junk : Nat → Byte) (p : Parts) : Prop :=
  ∃ data, urlToData junk p.url = .ok (0, data) ∧ DataRight p data

/-- No search is misled, and the heap ends every copy that needs it. -/
structure Clear (junk : Nat → Byte) (p : Parts) : Prop where
  mark : p.scheme = none → ¬ lit "://" <:+: p.dir
  sign : p.account = none → (64 : Byte) ∉ p.dir ∧ (p.port = none → (58 : Byte) ∉ p.dir)
  path : p.account ≠ none → p.port = none → p.path = none
  bare : ∀ a, p.account = some a → a.password = none → p.port = none
  userEnd : p.account ≠ none → junk 0 = 0
  passwordEnd : ∀ a, p.account = some a → a.password ≠ none → junk 1 = 0
  domainEnd : p.account = none ∨ p.port ≠ none → junk 2 = 0

section Session

variable {junk : Nat → Byte} {p : Parts}

theorem accountData_keeps {cur : Bytes} {data data' : UrlData}
    (h : accountData junk cur data = .ok data') :
    data'.scheme = data.scheme ∧ data'.dir = data.dir := by
  rw [accountData] at h
  cases hsign : strstr (lit "@") cur with
  | none =>
      rw [hsign] at h
      obtain rfl := Except.ok.inj h
      exact ⟨rfl, rfl⟩
  | some account =>
      rw [hsign] at h
      cases hcolon : strstr (lit ":") cur with
      | none =>
          rw [hcolon] at h
          dsimp only at h
          rw [cstrndup_eq] at h
          obtain rfl := Except.ok.inj h
          exact ⟨rfl, rfl⟩
      | some colon =>
          rw [hcolon] at h
          dsimp only at h
          rw [cstrndup_eq] at h
          cases hword : cstrndup (junk 1) (cur.drop (colon + 1)) (account - colon - 1) with
          | error e =>
              simp only [hword, bind, Except.bind] at h
              cases h
          | ok password =>
              simp only [hword, bind, Except.bind] at h
              obtain rfl := Except.ok.inj h
              exact ⟨rfl, rfl⟩

/-- What the record has before the account is looked for. -/
def started (p : Parts) : UrlData :=
  { UrlData.zero with scheme := p.scheme.map fun scheme => cstrdup scheme.text,
                      dir := p.path.map fun path => cstrdup path.text }

/-- The path is copied whole. -/
theorem dirData_session {data : UrlData} (hdir : data.dir = none) :
    dirData p.session data = { data with dir := p.path.map fun path => cstrdup path.text } := by
  rw [dirData]
  cases hpath : p.path with
  | none =>
      rw [p.slash_none hpath, Option.map_none, ← hdir]
  | some path =>
      rw [p.slash_some hpath]
      dsimp only
      rw [Parts.session, List.drop_left, Parts.dir, hpath]
      rfl

/-- **A URL** is parsed whatever it is, but for its account. -/
theorem urlToData_eq (hmark : p.scheme = none → ¬ lit "://" <:+: p.dir) :
    urlToData junk p.url = (do
      let data ← accountData junk p.session (started p)
      return (0, { data with
        domain := some (block (junk 2) (behindAccount p.session)
          (domainLen p.authority.length (behindAccount p.session))),
        port := dataPort (behindAccount p.session) })) := by
  have hsession : ∀ data : UrlData, data.dir = none → (do
      let data ← sessionData junk p.session data
      return ((0 : Int), data)) = (do
        let data ← accountData junk p.session
          { data with dir := p.path.map fun path => cstrdup path.text }
        return (0, { data with
          domain := some (block (junk 2) (behindAccount p.session)
            (domainLen p.authority.length (behindAccount p.session))),
          port := dataPort (behindAccount p.session) })) := by
    intro data hdir
    rw [sessionData_eq, dirData_session hdir, sessionLen_eq]
    cases accountData junk p.session
        { data with dir := p.path.map fun path => cstrdup path.text } with
    | error e => rfl
    | ok data' =>
        show (do
          let data ← domainData junk p.authority.length (behindAccount p.session) data'
          return ((0 : Int), data)) = _
        rw [domainData_eq]
        rfl
  cases hscheme : p.scheme with
  | none =>
      have habsent : strstr (lit "://") p.url = none :=
        strstr_eq_none (by decide) (fun h => hmark hscheme ((p.mark_iff hscheme).mp h))
      rw [urlToData, habsent]
      dsimp only
      rw [p.url_of_none hscheme, started, hscheme]
      exact hsession .zero rfl
  | some scheme =>
      have hshort : ¬ scheme.text.length > schemeMax := Nat.not_lt.mpr scheme.short
      have htake : p.url.take scheme.text.length = scheme.text := by
        rw [Parts.url, Parts.schemeText, hscheme, List.append_assoc, List.take_left]
      rw [urlToData, p.scheme_some hscheme]
      dsimp only
      rw [if_neg hshort, p.drop_scheme hscheme, htake, started, hscheme]
      exact hsession { UrlData.zero with scheme := some (cstrdup scheme.text) } rfl

/-- A `://` of the path makes a scheme out of what is before it. -/
theorem not_gives_mark (hscheme : p.scheme = none) (hmark : lit "://" <:+: p.dir) :
    ¬ Gives junk p := by
  rintro ⟨data, hrun, hright⟩
  obtain ⟨k, hk⟩ := strstr_of_infix ((p.mark_iff hscheme).mpr hmark)
  have hnone : data.scheme = none := by
    have h := hright.scheme
    rw [hscheme] at h
    exact h
  rw [urlToData, hk] at hrun
  dsimp only at hrun
  split at hrun
  · exact absurd (Prod.mk.inj (Except.ok.inj hrun)).1 (by decide)
  · rw [sessionData_eq] at hrun
    generalize p.url.drop (k + 3) = cur at hrun
    have hdir : (dirData cur { UrlData.zero with
        scheme := some (cstrdup (p.url.take k)) }).scheme = some (cstrdup (p.url.take k)) := by
      rw [dirData]
      cases strstr (lit "/") cur with
      | none => rfl
      | some slash => rfl
    generalize dirData cur _ = first at hrun hdir
    cases haccount : accountData junk cur first with
    | error e =>
        rw [haccount] at hrun
        cases hrun
    | ok second =>
        rw [haccount] at hrun
        replace hrun : (do
          let data ← domainData junk (sessionLen cur) (behindAccount cur) second
          return ((0 : Int), data)) = .ok (0, data) := hrun
        rw [domainData_eq] at hrun
        obtain rfl := (Prod.mk.inj (Except.ok.inj hrun)).2
        replace hnone : second.scheme = none := hnone
        rw [(accountData_keeps haccount).1, hdir] at hnone
        cases hnone

/-- What is left to get right behind the scheme. -/
structure RestRight (junk : Nat → Byte) (p : Parts) (data : UrlData) : Prop where
  username : Holds data.username (p.account.map fun a => a.user.text)
  password : Holds data.password (p.account.bind fun a => a.password.map Word.text)
  domain : untilNul (block (junk 2) (behindAccount p.session)
    (domainLen p.authority.length (behindAccount p.session))) = some p.host.text
  port : dataPort (behindAccount p.session) = p.portValue

/-- The scheme and the path are always right. -/
theorem gives_of_mark (hmark : p.scheme = none → ¬ lit "://" <:+: p.dir) :
    Gives junk p ↔ ∃ data, accountData junk p.session (started p) = .ok data ∧
      RestRight junk p data := by
  have hread : ∀ s, (0 : Byte) ∉ s → untilNul (cstrdup s) = some s :=
    fun s h => untilNul_append h []
  rw [Gives, urlToData_eq hmark]
  constructor
  · rintro ⟨data, hrun, hright⟩
    cases haccount : accountData junk p.session (started p) with
    | error e =>
        rw [haccount] at hrun
        cases hrun
    | ok data' =>
        rw [haccount] at hrun
        obtain rfl := (Prod.mk.inj (Except.ok.inj hrun)).2
        exact ⟨data', rfl, hright.username, hright.password, hright.domain, hright.port⟩
  · rintro ⟨data, hrun, hright⟩
    obtain ⟨hscheme, hdir⟩ := accountData_keeps hrun
    rw [hrun]
    refine ⟨_, rfl, ?_, hright.username, hright.password, hright.domain, hright.port, ?_⟩
    · show Holds data.scheme _
      rw [hscheme, started]
      cases p.scheme with
      | none => rfl
      | some scheme => exact hread scheme.text scheme.nul
    · show Holds data.dir _
      rw [hdir, started]
      cases hpath : p.path with
      | none => rfl
      | some path =>
          refine hread path.text ?_
          have hnul := p.dir_nul
          rw [Parts.dir, hpath] at hnul
          exact hnul

/-! ## The domain -/

theorem dataPort_behind (h : p.port = none → (58 : Byte) ∉ p.dir) :
    dataPort p.behind = p.portValue := by
  rw [dataPort, Parts.portValue]
  cases hport : p.port with
  | none => rw [colon_absent hport (h hport)]; rfl
  | some port =>
      rw [p.colon_some hport]
      dsimp only
      rw [p.drop_colon hport, p.strtol_port port]
      have hshort := port.short
      exact (toInt_natCast_iff port.value).mpr (by omega)

/-- The domain behind an account, or without one. -/
theorem domain_block (hbehind : behindAccount p.session = p.behind) :
    (untilNul (block (junk 2) (behindAccount p.session)
        (domainLen p.authority.length (behindAccount p.session))) = some p.host.text ∧
      dataPort (behindAccount p.session) = p.portValue) ↔
      (p.port = none → (58 : Byte) ∉ p.dir ∧
        p.dir.take (p.authority.length - p.host.text.length) = []) ∧
      (p.behind.length < domainLen p.authority.length p.behind ∨ junk 2 = 0) := by
  rw [hbehind, untilNul_block p.behind_nul]
  cases hport : p.port with
  | some port =>
      have hvalue := dataPort_behind (p := p) (by rw [hport]; rintro ⟨⟩)
      constructor
      · rintro ⟨⟨-, hend⟩, -⟩
        exact ⟨fun h => (by cases h), hend⟩
      · rintro ⟨-, hend⟩
        exact ⟨⟨(domain_port hport).1, hend⟩, hvalue⟩
  | none =>
      rw [domain_take hport]
      constructor
      · rintro ⟨⟨htake, hend⟩, -⟩
        exact ⟨fun _ => htake, hend⟩
      · rintro ⟨htake, hend⟩
        exact ⟨⟨htake rfl, hend⟩, dataPort_behind (fun _ => (htake rfl).1)⟩

/-- With a port, more is left of the URL than the domain. -/
theorem domainLen_port {port : Port} (hport : p.port = some port) :
    ¬ p.behind.length < domainLen p.authority.length p.behind := by
  rw [domainLen, p.colon_some hport, Option.getD_some, Parts.behind, List.length_append]
  omega

theorem domain_account (junk : Nat → Byte) {a : Account} (haccount : p.account = some a) :
    (untilNul (block (junk 2) (behindAccount p.session)
        (domainLen p.authority.length (behindAccount p.session))) = some p.host.text ∧
      dataPort (behindAccount p.session) = p.portValue) ↔
      (p.port = none → p.path = none) ∧ (p.port ≠ none → junk 2 = 0) := by
  rw [domain_block (behindAccount_some haccount)]
  have hlonger := host_lt haccount
  cases hport : p.port with
  | some port =>
      constructor
      · rintro ⟨-, hlt | hzero⟩
        · exact absurd hlt (domainLen_port hport)
        · exact ⟨fun h => (by cases h), fun _ => hzero⟩
      · rintro ⟨-, hzero⟩
        exact ⟨fun h => (by cases h), Or.inr (hzero (by rintro ⟨⟩))⟩
  | none =>
      constructor
      · rintro ⟨htake, -⟩
        refine ⟨fun _ => ?_, fun h => absurd rfl h⟩
        rcases List.take_eq_nil_iff.mp (htake rfl).2 with hzero | hdir
        · omega
        · exact dir_eq_nil.mp hdir
      · rintro ⟨hpath, -⟩
        have hdir := dir_eq_nil.mpr (hpath rfl)
        rw [hdir]
        refine ⟨fun _ => ⟨List.not_mem_nil, List.take_nil⟩, Or.inl ?_⟩
        -- the copy asks for more bytes than the host has
        rw [domainLen, colon_absent hport (by rw [hdir]; exact List.not_mem_nil),
          Option.getD_none, Parts.behind, Parts.portText, hport, hdir, List.append_nil,
          List.append_nil]
        exact hlonger

theorem domain_no_account (junk : Nat → Byte) (haccount : p.account = none)
    (hsign : (64 : Byte) ∉ p.dir) :
    (untilNul (block (junk 2) (behindAccount p.session)
        (domainLen p.authority.length (behindAccount p.session))) = some p.host.text ∧
      dataPort (behindAccount p.session) = p.portValue) ↔
      (p.port = none → (58 : Byte) ∉ p.dir) ∧ junk 2 = 0 := by
  rw [domain_block (behindAccount_none haccount hsign)]
  cases hport : p.port with
  | some port =>
      constructor
      · rintro ⟨-, hlt | hzero⟩
        · exact absurd hlt (domainLen_port hport)
        · exact ⟨fun h => (by cases h), hzero⟩
      · rintro ⟨-, hzero⟩
        exact ⟨fun h => (by cases h), Or.inr hzero⟩
  | none =>
      have hlen : p.authority.length = p.host.text.length := by
        rw [Parts.authority, Parts.accountText, Parts.portText, haccount, hport, List.nil_append,
          List.append_nil]
      have hbehind : p.behind.length = p.host.text.length + p.dir.length := by
        rw [Parts.behind, Parts.portText, hport, List.nil_append, List.length_append]
      constructor
      · rintro ⟨htake, hend⟩
        have hcolon := (htake rfl).1
        rw [domainLen, colon_absent hport hcolon, Option.getD_none] at hend
        rcases hend with hlt | hzero
        · omega
        · exact ⟨fun _ => hcolon, hzero⟩
      · rintro ⟨hcolon, hzero⟩
        refine ⟨fun _ => ⟨hcolon rfl, ?_⟩, Or.inr hzero⟩
        rw [hlen, Nat.sub_self]
        rfl

/-! ## The account -/

/-- An at sign of the path is taken for the end of an account. -/
theorem accountData_sign {data : UrlData} {k : Nat} (hsign : strstr (lit "@") p.session = some k)
    (hrun : accountData junk p.session (started p) = .ok data) : data.username ≠ none := by
  rw [accountData, hsign] at hrun
  dsimp only at hrun
  cases hcolon : strstr (lit ":") p.session with
  | none =>
      rw [hcolon] at hrun
      dsimp only at hrun
      rw [cstrndup_eq] at hrun
      obtain rfl := Except.ok.inj hrun
      rintro ⟨⟩
  | some colon =>
      rw [hcolon] at hrun
      dsimp only at hrun
      rw [cstrndup_eq] at hrun
      cases hword : cstrndup (junk 1) (p.session.drop (colon + 1)) (k - colon - 1) with
      | error e =>
          simp only [hword, bind, Except.bind] at hrun
          cases hrun
      | ok password =>
          simp only [hword, bind, Except.bind] at hrun
          obtain rfl := Except.ok.inj hrun
          rintro ⟨⟩

theorem rest_no_account (haccount : p.account = none) :
    (∃ data, accountData junk p.session (started p) = .ok data ∧ RestRight junk p data) ↔
      ((64 : Byte) ∉ p.dir ∧ (p.port = none → (58 : Byte) ∉ p.dir)) ∧ junk 2 = 0 := by
  by_cases hsign : (64 : Byte) ∈ p.dir
  · constructor
    · rintro ⟨data, hrun, hright⟩
      obtain ⟨front, rest, -, -, hfound⟩ := strstr_byte hsign
      have hnone := hright.username
      rw [haccount] at hnone
      exact absurd hnone (accountData_sign (p.sign_path haccount hfound) hrun)
    · rintro ⟨⟨habsent, -⟩, -⟩
      exact absurd hsign habsent
  · have habsent : strstr (lit "@") p.dir = none := strstr_absent hsign
    have hrun : accountData junk p.session (started p) = .ok (started p) := by
      rw [accountData, p.sign_none haccount, habsent]
      rfl
    have hdomain := domain_no_account junk haccount hsign
    constructor
    · rintro ⟨data, -, hright⟩
      obtain ⟨hcolon, hzero⟩ := hdomain.mp ⟨hright.domain, hright.port⟩
      exact ⟨⟨hsign, hcolon⟩, hzero⟩
    · rintro ⟨⟨-, hcolon⟩, hzero⟩
      obtain ⟨hread, hport⟩ := hdomain.mpr ⟨hcolon, hzero⟩
      refine ⟨started p, hrun, ?_, ?_, hread, hport⟩
      · rw [haccount]
        rfl
      · rw [haccount]
        rfl

theorem rest_password {a : Account} {password : Word} (haccount : p.account = some a)
    (hpassword : a.password = some password) :
    (∃ data, accountData junk p.session (started p) = .ok data ∧ RestRight junk p data) ↔
      ((p.port = none → p.path = none) ∧ (p.port ≠ none → junk 2 = 0)) ∧
        junk 0 = 0 ∧ junk 1 = 0 := by
  have hsession := p.session_password haccount hpassword
  have hrun : accountData junk p.session (started p) = .ok { started p with
      username := some (block (junk 0) p.session a.user.text.length),
      password := some (block (junk 1) (password.text ++ (64 :: p.behind))
        password.text.length) } := by
    rw [accountData, p.sign_some haccount, p.colon_password haccount hpassword]
    dsimp only
    rw [p.drop_password haccount hpassword, Parts.password_count hpassword, cstrndup_eq,
      cstrndup_eq]
    rfl
  -- there is more of the URL behind either of them, so only the heap can end them
  have husername : untilNul (block (junk 0) p.session a.user.text.length) = some a.user.text ↔
      junk 0 = 0 := by
    have htake : p.session.take a.user.text.length = a.user.text := by
      rw [hsession, List.take_left]
    have hmore : ¬ p.session.length < a.user.text.length := by
      rw [hsession, List.length_append]
      omega
    rw [untilNul_block p.session_nul]
    exact ⟨fun h => h.2.resolve_left hmore, fun h => ⟨htake, Or.inr h⟩⟩
  have hword : untilNul (block (junk 1) (password.text ++ (64 :: p.behind))
      password.text.length) = some password.text ↔ junk 1 = 0 := by
    have hmore : ¬ (password.text ++ (64 :: p.behind)).length < password.text.length := by
      rw [List.length_append]
      omega
    rw [untilNul_block (p.password_nul haccount hpassword)]
    exact ⟨fun h => h.2.resolve_left hmore, fun h => ⟨List.take_left, Or.inr h⟩⟩
  have hdomain := domain_account junk haccount
  constructor
  · rintro ⟨data, hdata, hright⟩
    obtain rfl := Except.ok.inj (hrun.symm.trans hdata)
    have hname := hright.username
    have hpass := hright.password
    rw [haccount] at hname hpass
    rw [Option.bind_some, hpassword] at hpass
    exact ⟨hdomain.mp ⟨hright.domain, hright.port⟩, husername.mp hname, hword.mp hpass⟩
  · rintro ⟨hrest, hzero, hone⟩
    obtain ⟨hread, hport⟩ := hdomain.mpr hrest
    refine ⟨_, hrun, ?_, ?_, hread, hport⟩
    · rw [haccount]
      exact husername.mpr hzero
    · rw [haccount, Option.bind_some, hpassword]
      exact hword.mpr hone

theorem rest_bare {a : Account} (haccount : p.account = some a) (hpassword : a.password = none) :
    (∃ data, accountData junk p.session (started p) = .ok data ∧ RestRight junk p data) ↔
      (p.port = none ∧ p.path = none) ∧ junk 0 = 0 := by
  have htext : a.text = a.user.text := by rw [Account.text, hpassword]
  have hdomain := domain_account junk haccount
  have husername : untilNul (block (junk 0) p.session a.user.text.length) = some a.user.text ↔
      junk 0 = 0 := by
    have htake : p.session.take a.user.text.length = a.user.text := by
      rw [p.session_account haccount, htext, List.take_left]
    have hmore : ¬ p.session.length < a.user.text.length := by
      rw [p.session_account haccount, htext, List.length_append]
      omega
    rw [untilNul_block p.session_nul]
    exact ⟨fun h => h.2.resolve_left hmore, fun h => ⟨htake, Or.inr h⟩⟩
  constructor
  · rintro ⟨data, hrun, hright⟩
    rw [accountData, p.sign_some haccount, htext] at hrun
    dsimp only at hrun
    cases hcolon : strstr (lit ":") p.session with
    | some colon =>
        -- the colon lies behind the at sign
        have hbehind : a.user.text.length < colon := by
          rw [colon_bare haccount hpassword, htext] at hcolon
          obtain ⟨k, -, rfl⟩ := Option.map_eq_some_iff.mp hcolon
          omega
        rw [hcolon] at hrun
        dsimp only at hrun
        rw [cstrndup_eq, cstrndup_negative _ _ (by omega)] at hrun
        cases hrun
    | none =>
        rw [hcolon] at hrun
        dsimp only at hrun
        rw [cstrndup_eq] at hrun
        obtain rfl := Except.ok.inj hrun
        have hname := hright.username
        rw [haccount] at hname
        have hport : p.port = none := by
          cases hport : p.port with
          | none => rfl
          | some port =>
              rw [colon_bare haccount hpassword, p.colon_some hport] at hcolon
              cases hcolon
        exact ⟨⟨hport, (hdomain.mp ⟨hright.domain, hright.port⟩).1 hport⟩, husername.mp hname⟩
  · rintro ⟨⟨hport, hpath⟩, hzero⟩
    have hdir : (58 : Byte) ∉ p.dir := by
      rw [dir_eq_nil.mpr hpath]
      exact List.not_mem_nil
    obtain ⟨hread, hvalue⟩ := hdomain.mpr ⟨fun _ => hpath, fun h => absurd hport h⟩
    have hrun : accountData junk p.session (started p) = .ok { started p with
        username := some (block (junk 0) p.session a.user.text.length) } := by
      rw [accountData, p.sign_some haccount, colon_bare haccount hpassword,
        colon_absent hport hdir, htext]
      dsimp only [Option.map_none]
      rw [cstrndup_eq]
      rfl
    refine ⟨_, hrun, ?_, ?_, hread, hvalue⟩
    · rw [haccount]
      exact husername.mpr hzero
    · rw [haccount, Option.bind_some, hpassword]
      rfl

end Session

/-! ## When the function is the inverse of composition -/

/-- **THE INVERSE OF COMPOSITION**: `url_to_data` gives the parts of a URL back exactly
    if no search is misled and the heap ends every copy that needs it. -/
theorem gives_iff (junk : Nat → Byte) (p : Parts) : Gives junk p ↔ Clear junk p := by
  by_cases hmark : p.scheme = none → ¬ lit "://" <:+: p.dir
  swap
  · obtain ⟨hscheme, hin⟩ := Classical.not_imp.mp hmark
    constructor
    · intro h
      exact absurd h (not_gives_mark hscheme (not_not.mp hin))
    · intro h
      exact absurd h.mark hmark
  rw [gives_of_mark hmark]
  cases haccount : p.account with
  | none =>
      rw [rest_no_account haccount]
      constructor
      · rintro ⟨hsign, hzero⟩
        exact ⟨hmark, fun _ => hsign, fun h => absurd haccount h,
          fun a h => (by cases haccount.symm.trans h), fun h => absurd haccount h,
          fun a h => (by cases haccount.symm.trans h), fun _ => hzero⟩
      · intro h
        exact ⟨h.sign haccount, h.domainEnd (Or.inl haccount)⟩
  | some a =>
      have hsome : p.account ≠ none := by rw [haccount]; rintro ⟨⟩
      have hsame : ∀ {b}, p.account = some b → b = a :=
        fun h => (Option.some.inj (haccount.symm.trans h)).symm
      cases hpassword : a.password with
      | some password =>
          rw [rest_password haccount hpassword]
          constructor
          · rintro ⟨⟨hpath, htwo⟩, hzero, hone⟩
            refine ⟨hmark, fun h => absurd h hsome, fun _ => hpath, fun b hb hnone => ?_,
              fun _ => hzero, fun _ _ _ => hone, fun h => htwo (h.resolve_left hsome)⟩
            rw [hsame hb, hpassword] at hnone
            cases hnone
          · intro h
            exact ⟨⟨h.path hsome, fun hport => h.domainEnd (Or.inr hport)⟩, h.userEnd hsome,
              h.passwordEnd a haccount (by rw [hpassword]; rintro ⟨⟩)⟩
      | none =>
          rw [rest_bare haccount hpassword]
          constructor
          · rintro ⟨⟨hport, hpath⟩, hzero⟩
            refine ⟨hmark, fun h => absurd h hsome, fun _ _ => hpath, fun _ _ _ => hport,
              fun _ => hzero, fun b hb hsome' => ?_, ?_⟩
            · rw [hsame hb] at hsome'
              exact absurd hpassword hsome'
            · rintro (hnone | hport')
              · exact absurd hnone hsome
              · exact absurd hport hport'
          · intro h
            have hport := h.bare a haccount hpassword
            exact ⟨⟨hport, h.path hsome hport⟩, h.userEnd hsome⟩

/-- The URL `h`. -/
def hostAlone : Parts :=
  { scheme := none, account := none, host := hostH, port := none, path := none }

/-- **A COPY WITHOUT AN END**: on a heap full of ones the domain is no string. -/
theorem hostAlone_not_given : ¬ Gives (fun _ => 1) hostAlone := by
  intro h
  have hmark : hostAlone.scheme = none → ¬ lit "://" <:+: hostAlone.dir := by
    intro _ hin
    exact absurd (List.infix_nil.mp hin) (by decide)
  have hrest := (rest_no_account rfl).mp ((gives_of_mark hmark).mp h)
  exact absurd hrest.2 (by decide)

end UrlDataInverse
