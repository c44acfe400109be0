import Hftp.UrlProofs

/-! # The parts of a URL

    `[scheme://][user[:password]@]host[:port][path]`.  A user, a password and a host
    have no separator in them; a path begins with `/` and may have any.  What the
    parsers can find in a URL that is composed of parts is where the separators were
    put, and those that the path brings along. -/

namespace UrlParts

open CBytes HttpCore Url

/-! ## Parts -/

/-- `A` to `Z` and `a` to `z`. -/
def isLetter (b : Byte) : Bool := (65 ≤ b ∧ b ≤ 90) ∨ (97 ≤ b ∧ b ≤ 122)

structure Scheme where
  text : Bytes
  letters : ∀ b ∈ text, isLetter b = true
  short : text.length ≤ schemeMax

/-- A user, a password or a host: no colon, no at sign, no slash. -/
structure Word where
  text : Bytes
  colon : (58 : Byte) ∉ text
  sign : (64 : Byte) ∉ text
  slash : (47 : Byte) ∉ text
  nul : (0 : Byte) ∉ text

structure Account where
  user : Word
  password : Option Word

structure Port where
  value : Nat
  pos : 1 ≤ value
  short : value ≤ 65535

structure Path where
  rest : Bytes
  nul : (0 : Byte) ∉ rest

structure Parts where
  scheme : Option Scheme
  account : Option Account
  host : Word
  port : Option Port
  path : Option Path

/-- A path begins with a slash. -/
def Path.text (path : Path) : Bytes := 47 :: path.rest

/-! ## Composition -/

def Account.text (a : Account) : Bytes :=
  match a.password with
  | none => a.user.text
  | some password => a.user.text ++ 58 :: password.text

namespace Parts

variable (p : Parts)

def schemeText : Bytes :=
  match p.scheme with
  | none => []
  | some scheme => scheme.text ++ lit "://"

def accountText : Bytes :=
  match p.account with
  | none => []
  | some a => a.text ++ [64]

def portText : Bytes :=
  match p.port with
  | none => []
  | some port => 58 :: natDigits port.value

def dir : Bytes :=
  match p.path with
  | none => []
  | some path => path.text

/-- All between the scheme and the path. -/
def authority : Bytes := p.accountText ++ (p.host.text ++ p.portText)

/-- All behind the scheme. -/
def session : Bytes := p.authority ++ p.dir

/-- All behind the account. -/
def behind : Bytes := p.host.text ++ (p.portText ++ p.dir)

def url : Bytes := p.schemeText ++ p.session

/-- The port, or the one that is used if there is none. -/
def portValue : Nat :=
  match p.port with
  | none => 80
  | some port => port.value

end Parts

/-! ## Separators that are not there -/

/-- The text of a number has nothing but digits. -/
theorem natDigits_not_mem {n : Nat} {b : Byte} (hb : digitOf 10 b = none) : b ∉ natDigits n := by
  have hread : readDecimal (natDigits n) = some n := by
    rw [← decimal_natCast]
    exact readDecimal_decimal.mpr rfl
  exact decimal_not_mem hread hb

/-- A scheme is of letters, so no colon ends it early. -/
theorem Scheme.colon (scheme : Scheme) : (58 : Byte) ∉ scheme.text :=
  fun h => absurd (scheme.letters 58 h) (by decide)

/-- A scheme does not end the string. -/
theorem Scheme.nul (scheme : Scheme) : (0 : Byte) ∉ scheme.text :=
  fun h => absurd (scheme.letters 0 h) (by decide)

/-- A byte that is in no word and not the colon is not in an account. -/
theorem Account.not_mem {a : Account} {b : Byte} (hcolon : b ≠ 58)
    (hword : ∀ w : Word, b ∉ w.text) : b ∉ a.text := by
  rw [Account.text]
  cases a.password with
  | none => exact hword a.user
  | some password =>
      intro h
      rcases List.mem_append.mp h with huser | hrest
      · exact hword a.user huser
      · rcases List.mem_cons.mp hrest with heq | hpassword
        · exact hcolon heq
        · exact hword password hpassword

/-- The at sign of an account is behind it, not in it. -/
theorem Account.sign (a : Account) : (64 : Byte) ∉ a.text :=
  Account.not_mem (by decide) Word.sign

namespace Parts

variable (p : Parts)

/-- A port is a colon and digits. -/
theorem portText_not_mem {b : Byte} (hcolon : b ≠ 58) (hdigit : digitOf 10 b = none) :
    b ∉ p.portText := by
  rw [portText]
  cases p.port with
  | none => exact List.not_mem_nil
  | some port =>
      intro h
      rcases List.mem_cons.mp h with heq | hmem
      · exact hcolon heq
      · exact natDigits_not_mem hdigit hmem

/-- A byte that no word has, and that is neither a separator of the authority nor a
    digit. -/
theorem authority_not_mem {b : Byte} (hcolon : b ≠ 58) (hsign : b ≠ 64)
    (hdigit : digitOf 10 b = none) (hword : ∀ w : Word, b ∉ w.text) : b ∉ p.authority := by
  intro h
  rcases List.mem_append.mp h with haccount | hrest
  · rw [accountText] at haccount
    cases hacc : p.account with
    | none =>
        rw [hacc] at haccount
        exact List.not_mem_nil haccount
    | some a =>
        rw [hacc] at haccount
        rcases List.mem_append.mp haccount with htext | hone
        · exact Account.not_mem hcolon hword htext
        · exact hsign (List.mem_singleton.mp hone)
  · rcases List.mem_append.mp hrest with hhost | hport
    · exact hword p.host hhost
    · exact p.portText_not_mem hcolon hdigit hport

/-- The first slash of a session is that of its path. -/
theorem authority_slash : (47 : Byte) ∉ p.authority :=
  p.authority_not_mem (by decide) (by decide) (by decide) Word.slash

/-- A path does not end the string. -/
theorem dir_nul : (0 : Byte) ∉ p.dir := by
  rw [dir]
  cases p.path with
  | none => exact List.not_mem_nil
  | some path =>
      intro h
      rcases List.mem_cons.mp h with heq | hmem
      · exact absurd heq (by decide)
      · exact path.nul hmem

/-- Nothing behind the scheme ends the string. -/
theorem session_nul : (0 : Byte) ∉ p.session := by
  intro h
  rcases List.mem_append.mp h with hauthority | hdir
  · exact p.authority_not_mem (by decide) (by decide) (by decide) Word.nul hauthority
  · exact p.dir_nul hdir

/-- Nothing behind the account does. -/
theorem behind_nul : (0 : Byte) ∉ p.behind := by
  intro h
  refine p.session_nul ?_
  rw [session, authority, List.append_assoc, List.append_assoc]
  exact List.mem_append_right _ h

/-! ## The path -/

/-- The search for the path finds it behind the authority. -/
theorem slash_some {path : Path} (hpath : p.path = some path) :
    strstr (lit "/") p.session = some p.authority.length := by
  have hdir : p.dir = lit "/" ++ path.rest := by
    rw [dir, hpath]
    rfl
  rw [session, hdir]
  exact strstr_front p.authority_slash path.rest

/-- Without a path the search finds nothing. -/
theorem slash_none (hpath : p.path = none) : strstr (lit "/") p.session = none := by
  have hdir : p.dir = [] := by rw [dir, hpath]
  rw [session, hdir, List.append_nil]
  exact strstr_absent p.authority_slash

/-! ## The account -/

/-- An account stands before its at sign. -/
theorem session_account {a : Account} (haccount : p.account = some a) :
    p.session = a.text ++ ([64] ++ p.behind) := by
  rw [session, authority, accountText, haccount, behind]
  simp only [List.append_assoc]

/-- The search for the account finds its end. -/
theorem sign_some {a : Account} (haccount : p.account = some a) :
    strstr (lit "@") p.session = some a.text.length := by
  rw [p.session_account haccount]
  exact strstr_front a.sign p.behind

/-- Behind an account are the host, the port and the path. -/
theorem drop_account {a : Account} (haccount : p.account = some a) :
    p.session.drop (a.text.length + 1) = p.behind := by
  rw [p.session_account haccount]
  exact drop_behind a.text [64] p.behind

/-- Without an account the host, the port and the path are all there is. -/
theorem session_of_none (haccount : p.account = none) : p.session = p.behind := by
  rw [session, authority, accountText, haccount, List.nil_append, behind, List.append_assoc]

/-- Without an account, an at sign is one of the path. -/
theorem sign_none (haccount : p.account = none) :
    strstr (lit "@") p.session = (strstr (lit "@") p.dir).map (· + p.authority.length) := by
  have hauthority : (64 : Byte) ∉ p.authority := by
    rw [authority, accountText, haccount, List.nil_append]
    intro h
    rcases List.mem_append.mp h with hhost | hport
    · exact p.host.sign hhost
    · exact p.portText_not_mem (by decide) (by decide) hport
  exact strstr_skip hauthority p.dir

/-- Without an account the search for one goes on into the path. -/
theorem sign_path {k : Nat} (haccount : p.account = none)
    (hfound : strstr (lit "@") p.dir = some k) :
    strstr (lit "@") p.session = some (k + p.authority.length) := by
  rw [p.sign_none haccount, hfound]
  rfl

section Password

variable {a : Account} {password : Word}

/-- A user and a password with what is behind them. -/
theorem session_password (haccount : p.account = some a) (hpassword : a.password = some password) :
    p.session = a.user.text ++ (lit ":" ++ (password.text ++ (64 :: p.behind))) := by
  rw [p.session_account haccount, Account.text, hpassword]
  dsimp only
  rw [List.append_assoc]
  rfl

/-- With a password in place, its colon is the first one. -/
theorem colon_password (haccount : p.account = some a) (hpassword : a.password = some password) :
    strstr (lit ":") p.session = some a.user.text.length := by
  rw [p.session_password haccount hpassword]
  exact strstr_front a.user.colon _

/-- The password begins behind the first colon. -/
theorem drop_password (haccount : p.account = some a) (hpassword : a.password = some password) :
    p.session.drop (a.user.text.length + 1) = password.text ++ (64 :: p.behind) := by
  rw [p.session_password haccount hpassword]
  exact drop_behind a.user.text (lit ":") _

/-- The length the source computes for the password. -/
theorem password_count (hpassword : a.password = some password) :
    (a.text.length : Int) - a.user.text.length - 1 = (password.text.length : Nat) := by
  rw [Account.text, hpassword]
  dsimp only
  rw [List.length_append, List.length_cons]
  omega

/-- A password, with what is behind it, can be read as a string. -/
theorem password_nul (haccount : p.account = some a) (hpassword : a.password = some password) :
    (0 : Byte) ∉ password.text ++ (64 :: p.behind) := by
  intro h
  refine p.session_nul ?_
  rw [← p.drop_password haccount hpassword] at h
  exact List.mem_of_mem_drop h

end Password

/-! ## The port -/

/-- A host and a port with the path behind them. -/
theorem behind_port {port : Port} (hport : p.port = some port) :
    p.behind = p.host.text ++ (lit ":" ++ (natDigits port.value ++ p.dir)) := by
  rw [behind, portText, hport]
  rfl

/-- The search for the port finds the end of the host. -/
theorem colon_some {port : Port} (hport : p.port = some port) :
    strstr (lit ":") p.behind = some p.host.text.length := by
  rw [p.behind_port hport]
  exact strstr_front p.host.colon _

/-- Behind the colon are the digits, which the path ends. -/
theorem drop_colon {port : Port} (hport : p.port = some port) :
    p.behind.drop (p.host.text.length + 1) = natDigits port.value ++ p.dir := by
  rw [p.behind_port hport]
  exact drop_behind p.host.text (lit ":") _

/-- Without a port, a colon behind the account is one of the path. -/
theorem colon_none (hport : p.port = none) :
    strstr (lit ":") p.behind = (strstr (lit ":") p.dir).map (· + p.host.text.length) := by
  rw [behind, portText, hport, List.nil_append]
  exact strstr_skip p.host.colon p.dir

/-- The number is read up to the path. -/
theorem strtol_port (port : Port) :
    strtol 10 (natDigits port.value ++ p.dir) = port.value := by
  have hread : readDecimal (natDigits port.value) = some port.value := by
    rw [← decimal_natCast]
    exact readDecimal_decimal.mpr rfl
  have hrest : NoDecimal p.dir := by
    intro b hb
    rw [dir] at hb
    cases hpath : p.path with
    | none =>
        rw [hpath] at hb
        cases hb
    | some path =>
        rw [hpath] at hb
        obtain rfl := Option.some.inj hb
        decide
  rw [strtol_digits hrest hread, clampLong]
  have hshort := port.short
  omega

/-! ## The scheme -/

end Parts

/-- A text without a slash that does not end in a colon adds no `://` to what
    follows. -/
theorem mark_infix {front s : Bytes} (hslash : (47 : Byte) ∉ front)
    (hlast : front.getLast? ≠ some 58) : lit "://" <:+: front ++ s ↔ lit "://" <:+: s := by
  constructor
  · induction front with
    | nil => exact fun h => h
    | cons b front ih =>
        intro h
        have hslash' : (47 : Byte) ∉ front := fun hm => hslash (List.mem_cons_of_mem b hm)
        rcases List.infix_cons_iff.mp h with ⟨t, ht⟩ | hrest
        · -- the colon would be the last byte in front of the slashes
          injection ht with hb ht
          cases front with
          | nil => exact absurd (by rw [← hb]; rfl) hlast
          | cons c front =>
              injection ht with hc ht
              exact absurd (List.mem_cons.mpr (Or.inl hc)) hslash'
        · refine ih hslash' (fun hl => hlast ?_) hrest
          cases front with
          | nil => cases hl
          | cons c front => exact hl
  · intro h
    obtain ⟨u, v, huv⟩ := h
    exact ⟨front ++ u, v, by rw [← huv, List.append_assoc, List.append_assoc,
      List.append_assoc]⟩

namespace Parts

variable (p : Parts)

/-- The search for the scheme finds its end. -/
theorem scheme_some {scheme : Scheme} (hscheme : p.scheme = some scheme) :
    strstr (lit "://") p.url = some scheme.text.length := by
  rw [url, schemeText, hscheme, List.append_assoc]
  exact strstr_front scheme.colon p.session

/-- Behind a scheme is the session. -/
theorem drop_scheme {scheme : Scheme} (hscheme : p.scheme = some scheme) :
    p.url.drop (scheme.text.length + 3) = p.session := by
  rw [url, schemeText, hscheme, List.append_assoc]
  exact drop_behind scheme.text (lit "://") p.session

/-- Without a scheme the session is all there is. -/
theorem url_of_none (hscheme : p.scheme = none) : p.url = p.session := by
  rw [url, schemeText, hscheme, List.nil_append]

/-- No part before the path ends in a colon. -/
theorem authority_last : p.authority.getLast? ≠ some 58 := by
  rw [authority, List.getLast?_append, List.getLast?_append]
  cases hport : p.portText.getLast? with
  | some b =>
      intro h
      obtain rfl := Option.some.inj h
      rw [portText] at hport
      cases hsome : p.port with
      | none =>
          rw [hsome] at hport
          cases hport
      | some port =>
          rw [hsome] at hport
          dsimp only at hport
          rw [List.getLast?_cons_of_ne_nil (natDigits_ne_nil port.value)] at hport
          exact natDigits_not_mem (by decide) (List.mem_of_getLast? hport)
  | none =>
      cases hhost : p.host.text.getLast? with
      | some b =>
          intro h
          obtain rfl := Option.some.inj h
          exact p.host.colon (List.mem_of_getLast? hhost)
      | none =>
          intro h
          rw [accountText] at h
          cases haccount : p.account with
          | none =>
              rw [haccount] at h
              cases h
          | some a =>
              rw [haccount] at h
              dsimp only at h
              rw [List.getLast?_concat] at h
              exact absurd (Option.some.inj h) (by decide)

/-- Without a scheme, a `://` is one of the path. -/
theorem mark_iff (hscheme : p.scheme = none) : lit "://" <:+: p.url ↔ lit "://" <:+: p.dir := by
  rw [p.url_of_none hscheme, session]
  exact mark_infix p.authority_slash p.authority_last

end Parts

end UrlParts
