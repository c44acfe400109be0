import Hftp.UrlPartsProofs
import Hftp.UrlWordsProofs

/-! # Taking a URL apart into words

    A caller who hands `url_to_words` arrays that are larger than the whole URL gets
    the parts back that the URL was composed of, unless a search finds a separator
    that was not put there for it: one of the path, or one of another part.  Besides,
    the scheme is copied with a negative length, the path is cut to the length of
    what stands before it, and a user without a password is not terminated. -/

namespace UrlWordsInverse

open CBytes HttpCore Url UrlWords UrlParts

/-! ## The arrays of the caller -/

/-- An array with room for `n` bytes and a NUL. -/
structure Room (n : Nat) where
  bytes : Bytes
  room : n < bytes.length

/-- What the caller hands over; nothing stands for a NULL pointer. -/
structure Arrays (n : Nat) where
  scheme : Option (Room n)
  username : Option (Room n)
  password : Option (Room n)
  domain : Room n
  port : Nat
  dir : Room n

/-- Which of the optional outputs are requested. -/
structure Wanted where
  scheme : Bool
  username : Bool
  password : Bool
  deriving DecidableEq, Repr

def Arrays.wanted {n : Nat} (arrays : Arrays n) : Wanted :=
  { scheme := arrays.scheme.isSome, username := arrays.username.isSome,
    password := arrays.password.isSome }

def Arrays.words {n : Nat} (arrays : Arrays n) : Words :=
  { scheme := arrays.scheme.map Room.bytes, username := arrays.username.map Room.bytes,
    password := arrays.password.map Room.bytes, domain := some arrays.domain.bytes,
    port := some arrays.port, dir := some arrays.dir.bytes }

/-- The array, if there is one, holds the string. -/
def ReadsAs (cell : Option Bytes) (s : Bytes) : Prop :=
  ∀ d, cell = some d → untilNul d = some s

/-- **THE PARTS ARE BACK**, as NUL-terminated strings. -/
structure Recovered (p : Parts) (words : Words) : Prop where
  domain : words.domain.bind untilNul = some p.host.text
  port : words.port = some p.portValue
  dir : ∀ path, p.path = some path → words.dir.bind untilNul = some path.text
  scheme : ∀ scheme, p.scheme = some scheme → ReadsAs words.scheme scheme.text
  username : ∀ a, p.account = some a → ReadsAs words.username a.user.text
  password : ∀ a password, p.account = some a → a.password = some password →
    ReadsAs words.password password.text

/-- `url_to_words` returns 0 and gives the parts back. -/
def Recovers (p : Parts) {n : Nat} (arrays : Arrays n) : Prop :=
  ∃ words, urlToWords p.url arrays.words = .ok (0, words) ∧ Recovered p words

/-! ## The parts that come back -/

/-- Behind its first at sign the path spells the host and the port once more. -/
def Echoes (p : Parts) : Prop :=
  ∃ front rest, p.dir = front ++ 64 :: rest ∧ (64 : Byte) ∉ front ∧
    ((rest = p.host.text ∧ p.portValue = 80) ∨
      ∃ number, rest = p.host.text ++ 58 :: number ∧
        (strtol 10 number % 2 ^ 16).toNat = p.portValue)

/-- No search is misled, and no copy goes wrong. -/
structure Unambiguous (p : Parts) (wanted : Wanted) : Prop where
  scheme : ∀ scheme, p.scheme = some scheme → wanted.scheme = true → scheme.text = []
  mark : p.scheme = none → ¬ lit "://" <:+: p.dir
  dir : p.dir.length ≤ p.authority.length
  username : ∀ a, p.account = some a → a.password = none →
    wanted.username = false ∧ (p.port ≠ none → wanted.password = false)
  path : p.account ≠ none → p.port = none → p.path = none
  sign : p.account = none →
    ((64 : Byte) ∉ p.dir ∧ (p.port = none → (58 : Byte) ∉ p.dir)) ∨ Echoes p

/-! ## The domain of a composed URL -/

section Domain

variable {p : Parts}

/-- The domain and the port are read right. -/
def DomainRight (p : Parts) : Prop :=
  (behindAccount p.session).take (domainLen p.authority.length (behindAccount p.session)) =
      p.host.text ∧
    portOf (behindAccount p.session) = p.portValue

theorem sessionLen_eq : sessionLen p.session = p.authority.length := by
  rw [sessionLen]
  cases hpath : p.path with
  | none =>
      rw [p.slash_none hpath, Parts.session, Parts.dir, hpath, List.append_nil]
      rfl
  | some path =>
      rw [p.slash_some hpath]
      rfl

/-- With a port in place, its colon is the first one. -/
theorem domain_port {port : Port} (hport : p.port = some port) :
    p.behind.take (domainLen p.authority.length p.behind) = p.host.text ∧
      portOf p.behind = p.portValue := by
  rw [domainLen, portOf, p.colon_some hport]
  dsimp only [Option.getD]
  rw [p.drop_colon hport, p.strtol_port port, Parts.portValue, hport]
  constructor
  · exact List.take_left
  · have hshort := port.short
    show ((port.value : Int) % 2 ^ 16).toNat = port.value
    omega

/-- Without a port and without a colon in the path, no port is read. -/
theorem colon_absent (hport : p.port = none) (hcolon : (58 : Byte) ∉ p.dir) :
    strstr (lit ":") p.behind = none := by
  rw [p.colon_none hport]
  exact congrArg (Option.map (· + p.host.text.length)) (strstr_absent hcolon)

/-- Without one, the first colon of the path ends the domain. -/
theorem domain_take (hport : p.port = none) :
    p.behind.take (domainLen p.authority.length p.behind) = p.host.text ↔
      (58 : Byte) ∉ p.dir ∧ p.dir.take (p.authority.length - p.host.text.length) = [] := by
  have hbehind : p.behind = p.host.text ++ p.dir := by
    rw [Parts.behind, Parts.portText, hport, List.nil_append]
  have hlen : p.host.text.length ≤ p.authority.length := by
    rw [Parts.authority, List.length_append, List.length_append]
    omega
  by_cases hcolon : (58 : Byte) ∈ p.dir
  · obtain ⟨pre, post, hsplit, hpre, hk⟩ := strstr_byte hcolon
    have hfound : strstr (lit ":") p.behind = some (pre.length + p.host.text.length) := by
      rw [p.colon_none hport]
      exact congrArg (Option.map (· + p.host.text.length)) hk
    constructor
    · intro htake
      -- at least the slash has come with the host
      have hpos : pre ≠ [] := by
        rintro rfl
        rw [Parts.dir] at hsplit
        cases hpath : p.path with
        | none =>
            rw [hpath] at hsplit
            cases hsplit
        | some path =>
            rw [hpath] at hsplit
            exact absurd (List.cons.inj hsplit).1 (by decide)
      rw [domainLen, hfound, Option.getD_some, hbehind] at htake
      have hlonger := congrArg List.length htake
      rw [List.length_take, List.length_append, hsplit, List.length_append] at hlonger
      have hone := List.length_pos_iff.mpr hpos
      omega
    · rintro ⟨habsent, -⟩
      exact absurd hcolon habsent
  · rw [domainLen, colon_absent hport hcolon, Option.getD_none, hbehind, List.take_append,
      List.take_of_length_le hlen]
    constructor
    · intro htake
      exact ⟨hcolon, List.append_right_eq_self.mp htake⟩
    · rintro ⟨-, hnone⟩
      rw [hnone, List.append_nil]

theorem domain_plain (hport : p.port = none) :
    (p.behind.take (domainLen p.authority.length p.behind) = p.host.text ∧
        portOf p.behind = p.portValue) ↔
      (58 : Byte) ∉ p.dir ∧ p.dir.take (p.authority.length - p.host.text.length) = [] := by
  rw [domain_take hport]
  constructor
  · exact And.left
  · intro h
    refine ⟨h, ?_⟩
    rw [portOf, colon_absent hport h.1, Parts.portValue, hport]

theorem dir_eq_nil : p.dir = [] ↔ p.path = none := by
  rw [Parts.dir]
  cases p.path with
  | none => exact ⟨fun _ => rfl, fun _ => rfl⟩
  | some path => exact ⟨fun h => (by cases h), fun h => by cases h⟩

theorem behindAccount_some {a : Account} (haccount : p.account = some a) :
    behindAccount p.session = p.behind := by
  rw [behindAccount, p.sign_some haccount]
  exact p.drop_account haccount

theorem behindAccount_none (haccount : p.account = none) (hsign : (64 : Byte) ∉ p.dir) :
    behindAccount p.session = p.behind := by
  have habsent : strstr (lit "@") p.dir = none := strstr_absent hsign
  rw [behindAccount, p.sign_none haccount, habsent]
  exact p.session_of_none haccount

/-- Behind an account the session is measured too long for a domain. -/
theorem host_lt {a : Account} (haccount : p.account = some a) :
    p.host.text.length < p.authority.length := by
  rw [Parts.authority, Parts.accountText, haccount, List.length_append, List.length_append,
    List.length_append]
  have hone : ([64] : Bytes).length = 1 := rfl
  omega

/-- There it would take a port, or the end of the URL, to stop the copy. -/
theorem domainRight_account {a : Account} (haccount : p.account = some a) :
    DomainRight p ↔ (p.port = none → p.path = none) := by
  rw [DomainRight, behindAccount_some haccount]
  cases hport : p.port with
  | some port => exact ⟨fun _ h => (by cases h), fun _ => domain_port hport⟩
  | none =>
      rw [domain_plain hport]
      have hlonger := host_lt haccount
      constructor
      · rintro ⟨-, hnone⟩ -
        rcases List.take_eq_nil_iff.mp hnone with hzero | hdir
        · omega
        · exact dir_eq_nil.mp hdir
      · intro h
        rw [dir_eq_nil.mpr (h rfl)]
        exact ⟨List.not_mem_nil, List.take_nil⟩

/-- Without an account and without an at sign in the path. -/
theorem domainRight_plain (haccount : p.account = none) (hsign : (64 : Byte) ∉ p.dir) :
    DomainRight p ↔ (p.port = none → (58 : Byte) ∉ p.dir) := by
  rw [DomainRight, behindAccount_none haccount hsign]
  cases hport : p.port with
  | some port => exact ⟨fun _ h => (by cases h), fun _ => domain_port hport⟩
  | none =>
      have hlen : p.authority.length = p.host.text.length := by
        rw [Parts.authority, Parts.accountText, Parts.portText, haccount, hport, List.nil_append,
          List.append_nil]
      rw [domain_plain hport, hlen, Nat.sub_self]
      constructor
      · rintro ⟨hcolon, -⟩ -
        exact hcolon
      · intro h
        exact ⟨h rfl, rfl⟩

/-- Without an account, an at sign of the path is taken for the end of one; what is
    behind it would have to be the same host and port. -/
theorem domainRight_echo (haccount : p.account = none) (hsign : (64 : Byte) ∈ p.dir)
    (hdir : p.dir.length ≤ p.authority.length) : DomainRight p ↔ Echoes p := by
  obtain ⟨front, rest, hsplit, hfront, hfound⟩ := strstr_byte hsign
  -- the sign in the path is taken for the one of an account, so the domain is read behind it
  have hbehind : behindAccount p.session = rest := by
    have hsession : p.session = (p.authority ++ front) ++ ([64] ++ rest) := by
      rw [Parts.session, hsplit, List.append_assoc]
      rfl
    have hlen : front.length + p.authority.length = (p.authority ++ front).length := by
      rw [List.length_append, Nat.add_comm]
    rw [behindAccount, p.sign_path haccount hfound]
    dsimp only
    rw [hsession, hlen]
    exact drop_behind _ [64] rest
  have hshort : rest.length ≤ p.authority.length := by
    rw [hsplit, List.length_append, List.length_cons] at hdir
    omega
  have hechoes : Echoes p ↔ (rest = p.host.text ∧ p.portValue = 80) ∨
      ∃ number, rest = p.host.text ++ 58 :: number ∧
        (strtol 10 number % 2 ^ 16).toNat = p.portValue := by
    constructor
    · rintro ⟨front', rest', hsplit', hfront', h⟩
      -- both splits are at the first sign
      have hfirst : front = front' ∧ 64 :: rest = 64 :: rest' := by
        have hlen : front.length = front'.length := by
          have hfound' : strstr [64] p.dir = some front'.length := by
            rw [hsplit']
            exact strstr_front hfront' rest'
          exact Option.some.inj (hfound.symm.trans hfound')
        exact List.append_inj (hsplit.symm.trans hsplit') hlen
      obtain rfl := (List.cons.inj hfirst.2).2
      exact h
    · intro h
      exact ⟨front, rest, hsplit, hfront, h⟩
  rw [hechoes, DomainRight, hbehind]
  by_cases hcolon : (58 : Byte) ∈ rest
  · obtain ⟨pre, post, rfl, hpre, hk⟩ := strstr_byte hcolon
    have hlen : domainLen p.authority.length (pre ++ 58 :: post) = pre.length := by
      rw [domainLen]
      exact congrArg (Option.getD · _) hk
    have hport : portOf (pre ++ 58 :: post) = (strtol 10 post % 2 ^ 16).toNat := by
      have hdrop : (pre ++ 58 :: post).drop (pre.length + 1) = post := drop_behind pre [58] post
      rw [portOf, show strstr (lit ":") (pre ++ 58 :: post) = some pre.length from hk]
      dsimp only
      rw [hdrop]
    rw [hlen, hport, List.take_left]
    constructor
    · rintro ⟨rfl, hvalue⟩
      exact Or.inr ⟨post, rfl, hvalue⟩
    · rintro (⟨hhost, -⟩ | ⟨number, hhost, hvalue⟩)
      · exact absurd (by rw [← hhost]; exact hcolon) p.host.colon
      · have hsame : pre.length = p.host.text.length := by
          have hk' : strstr [58] (p.host.text ++ 58 :: number) = some p.host.text.length :=
            strstr_front p.host.colon number
          rw [← hhost, hk] at hk'
          exact Option.some.inj hk'
        obtain ⟨hpre', hpost⟩ := List.append_inj hhost hsame
        rw [(List.cons.inj hpost).2]
        exact ⟨hpre', hvalue⟩
  · have habsent : strstr (lit ":") rest = none := strstr_absent hcolon
    rw [domainLen, portOf, habsent, Option.getD_none, List.take_of_length_le hshort]
    constructor
    · rintro ⟨hhost, hvalue⟩
      exact Or.inl ⟨hhost, hvalue.symm⟩
    · rintro (⟨hhost, hvalue⟩ | ⟨number, hhost, -⟩)
      · exact ⟨hhost, hvalue.symm⟩
      · refine absurd ?_ hcolon
        rw [hhost]
        exact List.mem_append_right _ List.mem_cons_self

end Domain

/-! ## What a session comes to -/

section Session

variable {p : Parts}

/-- The array of the path afterwards. -/
def dirCell (p : Parts) (d : Bytes) : Bytes :=
  match p.path with
  | none => d
  | some path => copied d path.text p.authority.length

theorem dirWords_session {out : Words} {d : Bytes} (hdir : out.dir = some d)
    (hroom : p.session.length < d.length) :
    dirWords p.session out = .ok { out with dir := some (dirCell p d) } := by
  rw [dirWords, dirCell]
  cases hpath : p.path with
  | none =>
      rw [p.slash_none hpath]
      dsimp only
      rw [← hdir]
      rfl
  | some path =>
      have htext : p.session.drop p.authority.length = path.text := by
        rw [Parts.session, List.drop_left, Parts.dir, hpath]
      have hfits : p.authority.length < d.length := by
        rw [Parts.session, List.length_append] at hroom
        omega
      rw [p.slash_some hpath]
      dsimp only
      rw [htext, hdir, copyWord_eq, if_pos hfits]
      rfl

/-- The array of the domain afterwards. -/
def domainCell (p : Parts) (d : Bytes) : Bytes :=
  copied d (behindAccount p.session) (domainLen p.authority.length (behindAccount p.session))

theorem behindAccount_suffix (cur : Bytes) : behindAccount cur <:+ cur := by
  rw [behindAccount]
  cases strstr (lit "@") cur with
  | none => exact List.suffix_rfl
  | some account => exact List.drop_suffix _ _

/-- No domain is longer than the session. -/
theorem domainLen_le : domainLen p.authority.length (behindAccount p.session) ≤
    p.session.length := by
  rw [domainLen]
  cases hcolon : strstr (lit ":") (behindAccount p.session) with
  | none =>
      rw [Option.getD_none, Parts.session, List.length_append]
      exact Nat.le_add_right _ _
  | some colon =>
      obtain ⟨pre, post, hsplit, hpre⟩ := strstr_split (by decide) hcolon
      have hlen := (behindAccount_suffix p.session).length_le
      rw [hsplit, List.length_append, hpre] at hlen
      rw [Option.getD_some]
      omega

/-- **A SESSION** is parsed whatever it is, but for its account. -/
theorem sessionWords_session (p : Parts) (out : Words) {d r : Bytes} {q : Nat}
    (hdomain : out.domain = some d) (hport : out.port = some q) (hdir : out.dir = some r)
    (hd : p.session.length < d.length) (hr : p.session.length < r.length) :
    sessionWords p.session out = (do
      let out ← accountWords p.session { out with dir := some (dirCell p r) }
      return (0, { out with domain := some (domainCell p d),
                            port := some (portOf (behindAccount p.session)) })) := by
  rw [sessionWords_eq, dirWords_session hdir hr]
  show (do
    let out ← accountWords p.session { out with dir := some (dirCell p r) }
    domainWords _ _ out) = _
  cases haccount : accountWords p.session { out with dir := some (dirCell p r) } with
  | error e => rfl
  | ok out' =>
      obtain ⟨-, hdomain', hport', -⟩ := accountWords_keeps haccount
      show domainWords _ _ out' = _
      rw [domainWords_eq _ _ (hdomain'.trans hdomain) (hport'.trans hport), sessionLen_eq,
        if_pos (Nat.lt_of_le_of_lt domainLen_le hd)]
      rfl

/-- The account is read right. -/
structure AccountRight (p : Parts) (words : Words) : Prop where
  username : ∀ a, p.account = some a → ReadsAs words.username a.user.text
  password : ∀ a password, p.account = some a → a.password = some password →
    ReadsAs words.password password.text

/-- What it takes to get the parts back. -/
theorem recovered_iff (words : Words) {d r : Bytes} (hdomain : words.domain = some (domainCell p d))
    (hport : words.port = some (portOf (behindAccount p.session)))
    (hdir : words.dir = some (dirCell p r)) :
    Recovered p words ↔ DomainRight p ∧ p.dir.length ≤ p.authority.length ∧
      (∀ scheme, p.scheme = some scheme → ReadsAs words.scheme scheme.text) ∧
      AccountRight p words := by
  have hnul : (0 : Byte) ∉ behindAccount p.session :=
    fun h => p.session_nul ((behindAccount_suffix p.session).subset h)
  have hreadDomain : words.domain.bind untilNul = some ((behindAccount p.session).take
      (domainLen p.authority.length (behindAccount p.session))) := by
    rw [hdomain]
    exact untilNul_copied hnul
  have hreadDir : (∀ path, p.path = some path → words.dir.bind untilNul = some path.text) ↔
      p.dir.length ≤ p.authority.length := by
    rw [hdir, dirCell, Parts.dir]
    cases hpath : p.path with
    | none => exact ⟨fun _ => Nat.zero_le _, fun _ _ h => by cases h⟩
    | some path =>
        have hread : untilNul (copied r path.text p.authority.length) =
            some (path.text.take p.authority.length) := by
          refine untilNul_copied (fun h => p.dir_nul ?_)
          rw [Parts.dir, hpath]
          exact h
        constructor
        · intro h
          have htake := (hread.symm.trans (h path rfl))
          exact (List.take_eq_self_iff _).mp (Option.some.inj htake)
        · intro h path' heq
          rw [← Option.some.inj heq]
          exact hread.trans (congrArg some (List.take_of_length_le h))
  constructor
  · rintro ⟨hd, hp, hr, hscheme, husername, hpassword⟩
    refine ⟨⟨?_, ?_⟩, hreadDir.mp hr, hscheme, husername, hpassword⟩
    · exact Option.some.inj (hreadDomain.symm.trans hd)
    · exact Option.some.inj (hport.symm.trans hp)
  · rintro ⟨⟨hd, hp⟩, hr, hscheme, husername, hpassword⟩
    exact ⟨by rw [hreadDomain, hd], by rw [hport, hp], hreadDir.mpr hr, hscheme, husername,
      hpassword⟩

end Session

/-! ## The account -/

section Account

variable {p : Parts} {a : Account}

/-- The arrays for a user and a password are large enough. -/
structure AccountFits (n : Nat) (out : Words) : Prop where
  username : ∀ d, out.username = some d → n < d.length
  password : ∀ d, out.password = some d → n < d.length

theorem account_password {password : Word} (haccount : p.account = some a)
    (hpassword : a.password = some password) {out : Words}
    (hfits : AccountFits p.session.length out) :
    ∃ out', accountWords p.session out = .ok out' ∧ AccountRight p out' := by
  have hsession := p.session_password haccount hpassword
  have hshort : a.user.text.length ≤ p.session.length ∧
      password.text.length ≤ p.session.length := by
    rw [hsession, List.length_append, List.length_append, List.length_append]
    omega
  have husername : copyWord out.username p.session a.user.text.length =
      .ok (out.username.map fun d => copied d p.session a.user.text.length) :=
    copyWord_fits (fun d hd => Nat.lt_of_le_of_lt hshort.1 (hfits.username d hd))
  have hword : copyWord out.password (password.text ++ (64 :: p.behind)) password.text.length =
      .ok (out.password.map fun d => copied d (password.text ++ (64 :: p.behind))
        password.text.length) :=
    copyWord_fits (fun d hd => Nat.lt_of_le_of_lt hshort.2 (hfits.password d hd))
  rw [accountWords, p.sign_some haccount, p.colon_password haccount hpassword]
  dsimp only
  rw [p.drop_password haccount hpassword, Parts.password_count hpassword, husername]
  simp only [hword, bind, Except.bind]
  refine ⟨_, rfl, ?_, ?_⟩
  · intro b hb d hd
    obtain ⟨c, -, rfl⟩ := Option.map_eq_some_iff.mp hd
    rw [untilNul_copied p.session_nul, hsession, List.take_left,
      Option.some.inj (haccount.symm.trans hb)]
  · intro b password' hb hpassword' d hd
    obtain ⟨c, -, rfl⟩ := Option.map_eq_some_iff.mp hd
    rw [untilNul_copied (p.password_nul haccount hpassword), List.take_left]
    obtain rfl := Option.some.inj (haccount.symm.trans hb)
    rw [Option.some.inj (hpassword.symm.trans hpassword')]

/-- A user alone ends at the at sign; a colon behind it is taken for his. -/
theorem colon_bare (haccount : p.account = some a) (hpassword : a.password = none) :
    strstr (lit ":") p.session =
      (strstr (lit ":") p.behind).map (· + (a.text.length + 1)) := by
  have hfront : (58 : Byte) ∉ a.text ++ [64] := by
    rw [Account.text, hpassword]
    intro h
    rcases List.mem_append.mp h with huser | hone
    · exact a.user.colon huser
    · exact absurd (List.mem_singleton.mp hone) (by decide)
  have hlen : a.text.length + 1 = (a.text ++ [64]).length := by
    rw [List.length_append]
    rfl
  rw [p.session_account haccount, hlen, ← List.append_assoc]
  exact strstr_skip hfront p.behind

theorem account_bare (haccount : p.account = some a) (hpassword : a.password = none)
    (hpath : p.port = none → p.path = none) {out : Words} (husername : out.username = none)
    (hword : p.port ≠ none → out.password = none) :
    ∃ out', accountWords p.session out = .ok out' ∧ AccountRight p out' := by
  rw [accountWords, p.sign_some haccount, colon_bare haccount hpassword]
  have hright : ∀ words : Words, words.username = none → AccountRight p words := by
    intro words hnone
    constructor
    · intro b hb d hd
      rw [hnone] at hd
      cases hd
    · intro b password hb hsome
      rw [← Option.some.inj (haccount.symm.trans hb), hpassword] at hsome
      cases hsome
  cases hport : p.port with
  | some port =>
      have hnone : out.password = none := hword (by rw [hport]; rintro ⟨⟩)
      rw [p.colon_some hport, Option.map_some, husername, hnone]
      exact ⟨_, rfl, hright _ rfl⟩
  | none =>
      have habsent : strstr (lit ":") p.behind = none := by
        rw [p.colon_none hport, Parts.dir, hpath hport]
        rfl
      rw [habsent, husername]
      exact ⟨_, rfl, hright _ rfl⟩

/-- Without an account there is nothing to read. -/
theorem account_none (haccount : p.account = none) (words : Words) : AccountRight p words := by
  constructor
  · intro b hb
    rw [haccount] at hb
    cases hb
  · intro b password hb
    rw [haccount] at hb
    cases hb

theorem account_plain (haccount : p.account = none) (hsign : (64 : Byte) ∉ p.dir) (out : Words) :
    ∃ out', accountWords p.session out = .ok out' ∧ AccountRight p out' := by
  have habsent : strstr (lit "@") p.dir = none := strstr_absent hsign
  rw [accountWords, p.sign_none haccount, habsent]
  exact ⟨out, rfl, account_none haccount out⟩

/-- A path that echoes the host does no harm to a URL with a port. -/
theorem account_echo (haccount : p.account = none) (hsign : (64 : Byte) ∈ p.dir)
    (hdir : p.dir.length ≤ p.authority.length) (hecho : Echoes p) {out : Words}
    (hfits : AccountFits p.session.length out) :
    ∃ out', accountWords p.session out = .ok out' ∧ AccountRight p out' := by
  obtain ⟨front, rest, hsplit, -, hfound⟩ := strstr_byte hsign
  have hsome := p.sign_path haccount hfound
  have hauthority : p.authority = p.host.text ++ p.portText := by
    rw [Parts.authority, Parts.accountText, haccount, List.nil_append]
  cases hport : p.port with
  | none =>
      -- there is no room for the host in the path
      obtain ⟨front', rest', hsplit', -, hrest⟩ := hecho
      have hhost : p.host.text.length ≤ rest'.length := by
        rcases hrest with ⟨rfl, -⟩ | ⟨number, rfl, -⟩
        · exact Nat.le_refl _
        · rw [List.length_append]
          exact Nat.le_add_right _ _
      rw [hsplit', hauthority, Parts.portText, hport, List.append_nil, List.length_append,
        List.length_cons] at hdir
      omega
  | some port =>
      have hcolon : strstr (lit ":") p.session = some p.host.text.length := by
        rw [p.session_of_none haccount]
        exact p.colon_some hport
      have hlonger : p.host.text.length < p.authority.length := by
        rw [hauthority, Parts.portText, hport, List.length_append, List.length_cons]
        omega
      have htotal : p.session.length = p.authority.length + (front.length + (rest.length + 1)) := by
        rw [Parts.session, List.length_append, hsplit, List.length_append, List.length_cons]
      have hcount : ((front.length + p.authority.length : Nat) : Int) - p.host.text.length - 1 =
          (front.length + p.authority.length - p.host.text.length - 1 : Nat) := by
        omega
      have husername : copyWord out.username p.session p.host.text.length =
          .ok (out.username.map fun d => copied d p.session p.host.text.length) := by
        refine copyWord_fits (fun d hd => ?_)
        have hd' := hfits.username d hd
        omega
      have hword : ∀ src, copyWord out.password src
          (front.length + p.authority.length - p.host.text.length - 1 : Nat) =
            .ok (out.password.map fun d => copied d src
              (front.length + p.authority.length - p.host.text.length - 1)) := by
        intro src
        refine copyWord_fits (fun d hd => ?_)
        have hd' := hfits.password d hd
        omega
      rw [accountWords, hsome, hcolon]
      dsimp only
      rw [hcount, husername]
      simp only [hword, bind, Except.bind]
      exact ⟨_, rfl, account_none haccount _⟩

end Account

/-! ## The scheme -/

section SchemeWords

variable {p : Parts}

/-- A scheme that is not empty is copied with a negative length. -/
theorem urlToWords_scheme {scheme : Scheme} (hscheme : p.scheme = some scheme) (out : Words) :
    urlToWords p.url out = (do
      let cell ← copyWord out.scheme p.url (-(scheme.text.length : Int))
      sessionWords p.session { out with scheme := cell }) := by
  have hshort : ¬ scheme.text.length > schemeMax := Nat.not_lt.mpr scheme.short
  rw [urlToWords, p.scheme_some hscheme]
  dsimp only
  rw [if_neg hshort, p.drop_scheme hscheme]

theorem urlToWords_plain (hscheme : p.scheme = none) (hmark : ¬ lit "://" <:+: p.dir)
    (out : Words) : urlToWords p.url out = sessionWords p.session out := by
  have habsent : strstr (lit "://") p.url = none :=
    strstr_eq_none (by decide) (fun h => hmark ((p.mark_iff hscheme).mp h))
  rw [urlToWords, habsent]
  dsimp only
  rw [p.url_of_none hscheme]

theorem session_le : p.session.length ≤ p.url.length := by
  rw [Parts.url, List.length_append]
  exact Nat.le_add_left _ _

end SchemeWords

/-! ## When the parts come back -/

section Recovers

variable {p : Parts}

/-- **THE HOST AND THE ACCOUNT** of an unambiguous URL come out right. -/
theorem account_right {wanted : Wanted} (h : Unambiguous p wanted) {out : Words}
    (hfits : AccountFits p.session.length out)
    (husername : wanted.username = false → out.username = none)
    (hword : wanted.password = false → out.password = none) :
    DomainRight p ∧ ∃ out', accountWords p.session out = .ok out' ∧ AccountRight p out' := by
  cases hacc : p.account with
  | some a =>
      have hpath : p.port = none → p.path = none := h.path (by rw [hacc]; rintro ⟨⟩)
      refine ⟨(domainRight_account hacc).mpr hpath, ?_⟩
      cases hpassword : a.password with
      | some password => exact account_password hacc hpassword hfits
      | none =>
          obtain ⟨huser, hport⟩ := h.username a hacc hpassword
          exact account_bare hacc hpassword hpath (husername huser) (fun h => hword (hport h))
  | none =>
      by_cases hsign : (64 : Byte) ∈ p.dir
      · -- only an echo of the host gets past the at sign
        have hecho : Echoes p := by
          rcases h.sign hacc with ⟨habsent, -⟩ | hecho
          · exact absurd hsign habsent
          · exact hecho
        exact ⟨(domainRight_echo hacc hsign h.dir).mpr hecho,
          account_echo hacc hsign h.dir hecho hfits⟩
      · have hcolon : p.port = none → (58 : Byte) ∉ p.dir := by
          rcases h.sign hacc with ⟨-, hcolon⟩ | ⟨front, rest, hsplit, -⟩
          · exact hcolon
          · refine absurd ?_ hsign
            rw [hsplit]
            exact List.mem_append_right _ List.mem_cons_self
        exact ⟨(domainRight_plain hacc hsign).mpr hcolon, account_plain hacc hsign out⟩

/-- What is left to show once the scheme is dealt with. -/
theorem recovers_of_session {wanted : Wanted} (h : Unambiguous p wanted)
    {arrays : Arrays p.url.length} (hwanted : arrays.wanted = wanted) (cell : Option Bytes)
    (hcell : ∀ scheme, p.scheme = some scheme → ReadsAs cell scheme.text) :
    ∃ words, sessionWords p.session { arrays.words with scheme := cell } = .ok (0, words) ∧
      Recovered p words := by
  have hfits : ∀ {room : Option (Room p.url.length)} {d : Bytes},
      room.map Room.bytes = some d → p.session.length < d.length := by
    intro room d hd
    obtain ⟨r, -, rfl⟩ := Option.map_eq_some_iff.mp hd
    exact Nat.lt_of_le_of_lt session_le r.room
  have hroom : AccountFits p.session.length
      { arrays.words with scheme := cell, dir := some (dirCell p arrays.dir.bytes) } :=
    ⟨fun d hd => hfits hd, fun d hd => hfits hd⟩
  have hnone : ∀ {room : Option (Room p.url.length)}, room.isSome = false →
      room.map Room.bytes = none := by
    intro room hroom
    cases room with
    | none => rfl
    | some r => cases hroom
  obtain ⟨hdomain, out', haccount, hright⟩ := account_right h hroom
    (fun husername => hnone ((congrArg Wanted.username hwanted).trans husername))
    (fun hword => hnone ((congrArg Wanted.password hwanted).trans hword))
  obtain ⟨hscheme, -, -, hdir⟩ := accountWords_keeps haccount
  have hrun := sessionWords_session p { arrays.words with scheme := cell } rfl rfl rfl
    (Nat.lt_of_le_of_lt session_le arrays.domain.room)
    (Nat.lt_of_le_of_lt session_le arrays.dir.room)
  rw [haccount] at hrun
  have hrecovered := recovered_iff
    { out' with domain := some (domainCell p arrays.domain.bytes),
                port := some (portOf (behindAccount p.session)) } rfl rfl hdir
  refine ⟨_, hrun, hrecovered.mpr ⟨hdomain, h.dir, ?_, hright.1, hright.2⟩⟩
  intro scheme hsome
  show ReadsAs out'.scheme scheme.text
  rw [hscheme]
  exact hcell scheme hsome

/-- **AN UNAMBIGUOUS URL** gives its parts back. -/
theorem recovers_of_unambiguous {wanted : Wanted} (h : Unambiguous p wanted)
    {arrays : Arrays p.url.length} (hwanted : arrays.wanted = wanted) : Recovers p arrays := by
  cases hscheme : p.scheme with
  | none =>
      obtain ⟨words, hrun, hright⟩ := recovers_of_session h hwanted
        arrays.words.scheme (by rw [hscheme]; rintro _ ⟨⟩)
      refine ⟨words, ?_, hright⟩
      rw [urlToWords_plain hscheme (h.mark hscheme)]
      exact hrun
  | some scheme =>
      have hcopy : ∃ cell, copyWord arrays.words.scheme p.url (-(scheme.text.length : Int)) =
          .ok cell ∧ ReadsAs cell scheme.text := by
        cases harray : arrays.scheme with
        | none =>
            refine ⟨none, ?_, fun d hd => by cases hd⟩
            rw [Arrays.words, harray]
            rfl
        | some room =>
            have hempty : scheme.text = [] := by
              refine h.scheme scheme hscheme ?_
              rw [← hwanted, Arrays.wanted, harray]
              rfl
            have hzero : copyWord (some room.bytes) p.url ((0 : Nat) : Int) =
                .ok (some (copied room.bytes p.url 0)) := by
              rw [copyWord_eq, if_pos (Nat.lt_of_le_of_lt (Nat.zero_le _) room.room)]
            refine ⟨some (copied room.bytes p.url 0), ?_, ?_⟩
            · rw [Arrays.words, harray, hempty]
              exact hzero
            · intro d hd
              rw [← Option.some.inj hd, hempty, copied, Nat.zero_sub]
              rfl
      obtain ⟨cell, hcell, hreads⟩ := hcopy
      obtain ⟨words, hrun, hright⟩ := recovers_of_session h hwanted cell (by
        intro scheme' hsome
        rw [← Option.some.inj (hscheme.symm.trans hsome)]
        exact hreads)
      refine ⟨words, ?_, hright⟩
      rw [urlToWords_scheme hscheme, hcell]
      exact hrun

end Recovers

/-! ## When they do not -/

section Arrays

/-- An array without a NUL. -/
def filled (n : Nat) : Room n :=
  { bytes := List.replicate (n + 1) 1, room := by rw [List.length_replicate]; exact n.lt_succ_self }

/-- Arrays full of ones, as far as they are wanted. -/
def Wanted.arrays (wanted : Wanted) (n : Nat) : Arrays n :=
  { scheme := if wanted.scheme then some (filled n) else none,
    username := if wanted.username then some (filled n) else none,
    password := if wanted.password then some (filled n) else none,
    domain := filled n, port := 0, dir := filled n }

theorem Wanted.arrays_wanted (wanted : Wanted) (n : Nat) : (wanted.arrays n).wanted = wanted := by
  obtain ⟨scheme, username, password⟩ := wanted
  cases scheme <;> cases username <;> cases password <;> rfl

theorem wanted_filled {b : Bool} {n : Nat} {room : Room n}
    (h : (if b then some (filled n) else none) = some room) : room = filled n := by
  cases b with
  | true => exact (Option.some.inj h).symm
  | false => cases h

theorem wanted_none {b : Bool} {n : Nat}
    (h : (if b then some (filled n) else none).map Room.bytes = none) : b = false := by
  cases b with
  | true => cases h
  | false => rfl

/-- A string that was not terminated in such an array runs out of it. -/
theorem untilNul_ones {s : Bytes} (hnul : (0 : Byte) ∉ s) (n : Nat) :
    untilNul (s ++ List.replicate n 1) = none := by
  cases hread : untilNul (s ++ List.replicate n 1) with
  | none => rfl
  | some t =>
      obtain ⟨rest, hsplit, -⟩ := untilNul_split hread
      have hmem : (0 : Byte) ∈ s ++ List.replicate n 1 := by
        rw [hsplit]
        exact List.mem_append_right _ List.mem_cons_self
      rcases List.mem_append.mp hmem with hs | hones
      · exact absurd hs hnul
      · exact absurd (List.eq_of_mem_replicate hones) (by decide)

end Arrays

section Ambiguous

variable {p : Parts}

/-- A path that is read is not longer than what was searched for it. -/
theorem session_dir_short {cur : Bytes} (hnul : (0 : Byte) ∉ cur) {out words : Words} {code : Int}
    {d : Bytes} {q n : Nat} (hdomain : out.domain = some d) (hport : out.port = some q)
    (hdir : out.dir = some (List.replicate n 1)) (hrun : sessionWords cur out = .ok (code, words))
    {s : Bytes} (hread : words.dir.bind untilNul = some s) : s.length ≤ cur.length := by
  rw [sessionWords_eq] at hrun
  cases hfirst : dirWords cur out with
  | error e =>
      rw [hfirst] at hrun
      cases hrun
  | ok out₁ =>
      rw [hfirst] at hrun
      replace hrun : (do
        let out ← accountWords cur out₁
        domainWords (sessionLen cur) (behindAccount cur) out) = .ok (code, words) := hrun
      cases hsecond : accountWords cur out₁ with
      | error e =>
          rw [hsecond] at hrun
          cases hrun
      | ok out₂ =>
          rw [hsecond] at hrun
          replace hrun : domainWords (sessionLen cur) (behindAccount cur) out₂ =
            .ok (code, words) := hrun
          obtain ⟨-, hdomain₂, hport₂, hdir₂⟩ := accountWords_keeps hsecond
          -- the path was put there by the first step, or by nobody
          have hcell : (out₁.domain = out.domain ∧ out₁.port = out.port) ∧
              ∀ t, out₁.dir.bind untilNul = some t → t.length ≤ cur.length := by
            rw [dirWords] at hfirst
            cases hslash : strstr (lit "/") cur with
            | none =>
                rw [hslash] at hfirst
                obtain rfl := Except.ok.inj hfirst
                refine ⟨⟨rfl, rfl⟩, fun t ht => ?_⟩
                rw [hdir] at ht
                have hnone : untilNul (List.replicate n 1) = none :=
                  untilNul_ones List.not_mem_nil n
                cases hnone.symm.trans ht
            | some slash =>
                rw [hslash, hdir] at hfirst
                dsimp only at hfirst
                rw [copyWord_eq] at hfirst
                split at hfirst
                · obtain rfl := Except.ok.inj hfirst
                  refine ⟨⟨rfl, rfl⟩, fun t ht => ?_⟩
                  have hcopied : untilNul (copied (List.replicate n 1) (cur.drop slash) slash) =
                      some ((cur.drop slash).take slash) :=
                    untilNul_copied (fun h => hnul (List.mem_of_mem_drop h))
                  rw [← Option.some.inj (hcopied.symm.trans ht), List.length_take,
                    List.length_drop]
                  omega
                · cases hfirst
          rw [domainWords_eq _ _ ((hdomain₂.trans hcell.1.1).trans hdomain)
            ((hport₂.trans hcell.1.2).trans hport)] at hrun
          split at hrun
          · have hwords := (Prod.mk.inj (Except.ok.inj hrun)).2
            rw [← hwords] at hread
            replace hread : out₂.dir.bind untilNul = some s := hread
            rw [hdir₂] at hread
            exact hcell.2 s hread
          · cases hrun

/-- A `://` of the path is taken for the end of a scheme, and the path that is left
    is too short. -/
theorem not_recovers_mark (hscheme : p.scheme = none) (hmark : lit "://" <:+: p.dir)
    (wanted : Wanted) : ¬ Recovers p (wanted.arrays p.url.length) := by
  rintro ⟨words, hrun, hright⟩
  obtain ⟨k, hk⟩ := strstr_of_infix ((p.mark_iff hscheme).mpr hmark)
  obtain ⟨pre, post, hsplit, hpre⟩ := strstr_split (by decide) hk
  have hsession := p.url_of_none hscheme
  have hpath : ∃ path, p.path = some path := by
    cases hpath : p.path with
    | some path => exact ⟨path, rfl⟩
    | none =>
        rw [Parts.dir, hpath] at hmark
        exact absurd (List.infix_nil.mp hmark) (by decide)
  obtain ⟨path, hpath⟩ := hpath
  have hdir : p.dir = path.text := by rw [Parts.dir, hpath]
  -- the first slash of the URL is the path's
  have hauthority : p.authority.length ≤ k + 1 := by
    by_contra hlong
    have hget : p.authority[k + 1]? = some 47 := by
      have hurl : (p.authority ++ p.dir)[k + 1]? = some 47 := by
        have hsame : p.authority ++ p.dir = pre ++ (lit "://" ++ post) := hsession.symm.trans hsplit
        rw [hsame, List.getElem?_append_right (by omega), hpre, Nat.add_sub_cancel_left]
        rfl
      rw [List.getElem?_append_left (by omega)] at hurl
      exact hurl
    exact p.authority_slash (List.mem_of_getElem? hget)
  have hshort : post.length < path.text.length := by
    have hlen : p.authority.length + path.text.length = k + (3 + post.length) := by
      have htotal := congrArg List.length (hsession.symm.trans hsplit)
      rw [Parts.session, List.length_append, List.length_append, List.length_append, hpre,
        hdir] at htotal
      exact htotal
    omega
  have hdrop : p.url.drop (k + 3) = post := by
    rw [hsplit, ← hpre]
    exact drop_behind pre (lit "://") post
  have hnul : (0 : Byte) ∉ post := by
    intro h
    refine p.session_nul ?_
    rw [← hsession, hsplit]
    exact List.mem_append_right _ (List.mem_append_right _ h)
  rw [urlToWords, hk] at hrun
  dsimp only at hrun
  split at hrun
  · exact absurd (Prod.mk.inj (Except.ok.inj hrun)).1 (by decide)
  · rw [hdrop] at hrun
    cases hcell : copyWord (wanted.arrays p.url.length).words.scheme p.url (-(k : Int)) with
    | error e =>
        rw [hcell] at hrun
        cases hrun
    | ok cell =>
        rw [hcell] at hrun
        have hlong := session_dir_short hnul rfl rfl rfl hrun (hright.dir path hpath)
        omega

/-- A user alone whose array is wanted is not terminated, or ends at the wrong
    colon; with a colon behind him there is no room for a password either. -/
theorem account_bare_only {a : Account} (haccount : p.account = some a)
    (hpassword : a.password = none) {out out' : Words}
    (hrun : accountWords p.session out = .ok out') (hright : AccountRight p out')
    (hones : ∀ d, out.username = some d → d = List.replicate d.length 1) :
    out.username = none ∧ (p.port ≠ none → out.password = none) := by
  have htext : a.text = a.user.text := by rw [Account.text, hpassword]
  have hlen : a.user.text.length + 1 + p.behind.length = p.session.length := by
    have hsum := congrArg List.length (p.session_account haccount)
    rw [htext, List.length_append, List.length_append, List.length_singleton] at hsum
    omega
  have hread := hright.username a haccount
  rw [accountWords, p.sign_some haccount, htext] at hrun
  dsimp only at hrun
  cases hcolon : strstr (lit ":") p.session with
  | none =>
      rw [hcolon] at hrun
      constructor
      · cases hcell : out.username with
        | none => rfl
        | some d =>
            rw [hcell] at hrun
            -- the ones behind the user are still there
            have htake : p.session.take a.user.text.length = a.user.text := by
              rw [p.session_account haccount, htext, List.take_left]
            have hcount : a.user.text.length - p.session.length = 0 := by omega
            have hcopy : strncpy d p.session (a.user.text.length : Int) =
                if a.user.text.length ≤ d.length then
                  .ok (a.user.text ++ List.replicate (d.length - a.user.text.length) 1)
                else .error .outOfBounds := by
              rw [strncpy, Int.toNat_natCast, htake, hcount, List.replicate_zero, List.append_nil]
              by_cases hle : a.user.text.length ≤ d.length
              · rw [if_pos ⟨Int.natCast_nonneg _, hle⟩, if_pos hle]
                have hdrop := congrArg (List.drop a.user.text.length) (hones d hcell)
                rw [List.drop_replicate] at hdrop
                rw [hdrop]
              · rw [if_neg (fun h => hle h.2), if_neg hle]
            simp only [Option.mapM_some, hcopy] at hrun
            split at hrun
            · obtain rfl := Except.ok.inj hrun
              have hnone := untilNul_ones a.user.nul (d.length - a.user.text.length)
              cases hnone.symm.trans (hread _ rfl)
            · cases hrun
      · intro hport
        obtain ⟨port, hsome⟩ := Option.ne_none_iff_exists'.mp hport
        rw [colon_bare haccount hpassword, p.colon_some hsome] at hcolon
        cases hcolon
  | some colon =>
      have hbehind : a.user.text.length < colon := by
        rw [colon_bare haccount hpassword, htext] at hcolon
        obtain ⟨k, -, rfl⟩ := Option.map_eq_some_iff.mp hcolon
        omega
      rw [hcolon] at hrun
      dsimp only at hrun
      cases hname : copyWord out.username p.session colon with
      | error e =>
          rw [hname] at hrun
          cases hrun
      | ok username =>
          rw [hname] at hrun
          cases hword : copyWord out.password (p.session.drop (colon + 1))
              (a.user.text.length - colon - 1) with
          | error e =>
              simp only [hword, bind, Except.bind] at hrun
              cases hrun
          | ok password =>
              simp only [hword, bind, Except.bind] at hrun
              obtain rfl := Except.ok.inj hrun
              constructor
              · cases hcell : out.username with
                | none => rfl
                | some d =>
                    rw [hcell, copyWord_eq] at hname
                    split at hname
                    · have hlonger := (untilNul_copied p.session_nul).symm.trans
                        (hread _ (Except.ok.inj hname).symm)
                      replace hlonger := congrArg List.length (Option.some.inj hlonger)
                      rw [List.length_take] at hlonger
                      omega
                    · cases hname
              · intro _
                cases hcell : out.password with
                | none => rfl
                | some d =>
                    rw [hcell, copyWord_negative _ _ (by omega)] at hword
                    cases hword

/-- **ONLY AN UNAMBIGUOUS URL** gives its parts back, whatever the arrays hold. -/
theorem unambiguous_of_recovers {wanted : Wanted}
    (h : Recovers p (wanted.arrays p.url.length)) : Unambiguous p wanted := by
  have hmark : p.scheme = none → ¬ lit "://" <:+: p.dir :=
    fun hscheme hmark => not_recovers_mark hscheme hmark wanted h
  obtain ⟨words, hrun, hright⟩ := h
  have hsession : (∀ scheme, p.scheme = some scheme → wanted.scheme = true → scheme.text = []) ∧
      ∃ cell, sessionWords p.session { (wanted.arrays p.url.length).words with scheme := cell } =
        .ok (0, words) := by
    cases hscheme : p.scheme with
    | none =>
        rw [urlToWords_plain hscheme (hmark hscheme)] at hrun
        exact ⟨fun scheme hsome => (by cases hsome), _, hrun⟩
    | some scheme =>
        rw [urlToWords_scheme hscheme] at hrun
        cases hcell : copyWord (wanted.arrays p.url.length).words.scheme p.url
            (-(scheme.text.length : Int)) with
        | error e =>
            rw [hcell] at hrun
            cases hrun
        | ok cell =>
            rw [hcell] at hrun
            refine ⟨fun scheme' hsome hwanted => ?_, cell, hrun⟩
            obtain rfl := Option.some.inj hsome
            by_contra hne
            have hpos := List.length_pos_iff.mpr hne
            have hthere : (wanted.arrays p.url.length).words.scheme =
                some (filled p.url.length).bytes := by
              rw [Arrays.words, Wanted.arrays, hwanted]
              rfl
            rw [hthere, copyWord_negative _ _ (by omega)] at hcell
            cases hcell
  obtain ⟨hscheme, cell, hrun⟩ := hsession
  have hroom := Nat.lt_of_le_of_lt session_le (filled p.url.length).room
  rw [sessionWords_session p _ rfl rfl rfl hroom hroom] at hrun
  cases haccount : accountWords p.session
      { (wanted.arrays p.url.length).words with
          scheme := cell, dir := some (dirCell p (filled p.url.length).bytes) } with
  | error e =>
      rw [haccount] at hrun
      cases hrun
  | ok out' =>
      rw [haccount] at hrun
      have hwords := (Prod.mk.inj (Except.ok.inj hrun)).2
      obtain ⟨-, -, -, hdir⟩ := accountWords_keeps haccount
      have hiff := recovered_iff
        { out' with domain := some (domainCell p (filled p.url.length).bytes),
                    port := some (portOf (behindAccount p.session)) } rfl rfl hdir
      rw [hwords] at hiff
      obtain ⟨hdomain, hlen, -, hread⟩ := hiff.mp hright
      rw [← hwords] at hread
      have hright' : AccountRight p out' := ⟨hread.username, hread.password⟩
      refine ⟨hscheme, hmark, hlen, ?_, ?_, ?_⟩
      · intro a hacc hpassword
        have hones : ∀ d, (wanted.arrays p.url.length).words.username = some d →
            d = List.replicate d.length 1 := by
          intro d hd
          obtain ⟨room, hroom, rfl⟩ := Option.map_eq_some_iff.mp hd
          obtain rfl := wanted_filled hroom
          show List.replicate _ 1 = List.replicate (List.replicate _ (1 : Byte)).length 1
          rw [List.length_replicate]
        obtain ⟨husername, hword⟩ := account_bare_only hacc hpassword haccount hright' hones
        exact ⟨wanted_none husername, fun hport => wanted_none (hword hport)⟩
      · intro hacc
        obtain ⟨a, hacc⟩ := Option.ne_none_iff_exists'.mp hacc
        exact (domainRight_account hacc).mp hdomain
      · intro hacc
        by_cases hsign : (64 : Byte) ∈ p.dir
        · exact Or.inr ((domainRight_echo hacc hsign hlen).mp hdomain)
        · exact Or.inl ⟨hsign, (domainRight_plain hacc hsign).mp hdomain⟩

end Ambiguous

/-! ## When the function is the inverse of composition -/

/-- **THE INVERSE OF COMPOSITION**: `url_to_words` gives the parts of a URL back in any
    arrays that are large enough exactly if the URL is unambiguous. -/
theorem inverts_iff (p : Parts) (wanted : Wanted) :
    (∀ arrays : Arrays p.url.length, arrays.wanted = wanted → Recovers p arrays) ↔
      Unambiguous p wanted := by
  constructor
  · intro h
    exact unambiguous_of_recovers (h (wanted.arrays p.url.length) (wanted.arrays_wanted _))
  · intro h arrays hwanted
    exact recovers_of_unambiguous h hwanted

/-- The host `h`. -/
def hostH : Word := { text := lit "h", colon := by decide, sign := by decide, slash := by decide,
                      nul := by decide }

/-- The URL `h/ab`. -/
def shortHost : Parts :=
  { scheme := none, account := none, host := hostH, port := none,
    path := some { rest := lit "ab", nul := by decide } }

/-- **A PATH IS CUT** to the length of the host before it. -/
theorem shortHost_not_recovered :
    ¬ Recovers shortHost (Wanted.arrays { scheme := false, username := false, password := false }
      shortHost.url.length) := by
  intro h
  have hlen := (unambiguous_of_recovers h).dir
  exact absurd hlen (by decide)

end UrlWordsInverse
