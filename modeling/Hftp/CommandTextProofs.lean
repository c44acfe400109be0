import Hftp.SingleCommandProofs
import Hftp.UrlWordsProofs

/-! # What a command says

    `interprete_single_command` reads its tokens into arrays that nobody has written
    to, and copies all of them into the slot.  Reading never checks a length, so a
    command either fits or is written behind the end of an array; one that fits is
    read as its text says, but for the arrays the text does not mention. -/

namespace CommandText

open CBytes HttpCore HttpMethod Url UrlWords SingleCommand

/-! ## The URL of a command -/

/-- What is behind the scheme; nothing if the scheme is too long. -/
def sessionOf (url : Bytes) : Option Bytes :=
  match strstr (lit "://") url with
  | some schemeLen => if schemeLen > schemeMax then none else some (url.drop (schemeLen + 3))
  | none => some url

/-- How many bytes of the path are copied, if there is one. -/
def dirLen (cur : Bytes) : Option Nat := strstr (lit "/") cur

/-- How many bytes of the host are copied. -/
def hostLen (cur : Bytes) : Nat := domainLen (sessionLen cur) (behindAccount cur)

/-- The path and the host fit arrays of `n` and `m` bytes. -/
def UrlFits (n m : Nat) (cur : Bytes) : Prop :=
  (∀ len ∈ dirLen cur, len < n) ∧ hostLen cur < m

instance (n m : Nat) (cur : Bytes) : Decidable (UrlFits n m cur) :=
  inferInstanceAs (Decidable (_ ∧ _))

def dirAfter (cur r : Bytes) : Bytes :=
  match dirLen cur with
  | some len => copied r (cur.drop len) len
  | none => r

def domainAfter (cur d : Bytes) : Bytes := copied d (behindAccount cur) (hostLen cur)

/-- Without arrays for a user and a password the account is passed over. -/
theorem accountWords_bare (cur : Bytes) {out : Words} (husername : out.username = none)
    (hpassword : out.password = none) : accountWords cur out = .ok out := by
  obtain ⟨scheme, username, password, domain, port, dir⟩ := out
  obtain rfl : username = none := husername
  obtain rfl : password = none := hpassword
  rw [accountWords]
  cases strstr (lit "@") cur with
  | none => rfl
  | some account =>
      cases strstr (lit ":") cur with
      | none => rfl
      | some colon => rfl

/-- The arrays of a caller who does not ask for a scheme and an account. -/
def bareWords (d r : Bytes) (q : Nat) : Words :=
  { scheme := none, username := none, password := none, domain := some d, port := some q,
    dir := some r }

theorem sessionWords_bare (cur d r : Bytes) (q : Nat) :
    sessionWords cur (bareWords d r q) =
      if UrlFits r.length d.length cur then
        .ok (0, bareWords (domainAfter cur d) (dirAfter cur r) (portOf (behindAccount cur)))
      else .error .outOfBounds := by
  have hrest : ∀ r', (do
      let out ← accountWords cur (bareWords d r' q)
      domainWords (sessionLen cur) (behindAccount cur) out) =
        if hostLen cur < d.length then
          .ok (0, bareWords (domainAfter cur d) r' (portOf (behindAccount cur)))
        else .error .outOfBounds := by
    intro r'
    rw [accountWords_bare cur rfl rfl]
    exact domainWords_eq _ _ rfl rfl
  rw [sessionWords_eq, dirWords, dirAfter]
  cases hslash : strstr (lit "/") cur with
  | none =>
      have hnone : dirLen cur = none := hslash
      rw [hnone]
      refine (hrest r).trans (if_congr ?_ rfl rfl)
      rw [UrlFits, hnone]
      exact ⟨fun h => ⟨fun len hlen => (by cases hlen), h⟩, And.right⟩
  | some len =>
      have hsome : dirLen cur = some len := hslash
      rw [hsome]
      dsimp only
      have hdir : copyWord (bareWords d r q).dir (cur.drop len) len =
          if len < r.length then .ok (some (copied r (cur.drop len) len))
          else .error .outOfBounds := copyWord_eq r (cur.drop len) len
      rw [hdir]
      by_cases hlen : len < r.length
      · rw [if_pos hlen]
        refine (hrest (copied r (cur.drop len) len)).trans (if_congr ?_ rfl rfl)
        rw [UrlFits, hsome]
        constructor
        · intro h
          refine ⟨fun len' hlen' => ?_, h⟩
          rw [← Option.some.inj hlen']
          exact hlen
        · exact And.right
      · rw [if_neg hlen, if_neg (fun h => hlen (h.1 len hsome))]
        rfl

/-- **A URL** is accepted if its scheme is short, and then it has to fit. -/
theorem urlToWords_bare (url d r : Bytes) (q : Nat) :
    urlToWords url (bareWords d r q) =
      match sessionOf url with
      | none => .ok (1, bareWords d r q)
      | some cur =>
          if UrlFits r.length d.length cur then
            .ok (0, bareWords (domainAfter cur d) (dirAfter cur r) (portOf (behindAccount cur)))
          else .error .outOfBounds := by
  rw [urlToWords, sessionOf]
  cases strstr (lit "://") url with
  | none => exact sessionWords_bare url d r q
  | some len =>
      dsimp only
      by_cases hlong : len > schemeMax
      · rw [if_pos hlong, if_pos hlong]
      · rw [if_neg hlong, if_neg hlong]
        exact sessionWords_bare (url.drop (len + 3)) d r q

/-! ## The tokens of a command -/

/-- A command as its text has it. -/
structure ParsedCommand where
  method : Method
  cur : Bytes
  localDir : Option Bytes
  deriving DecidableEq, Repr

/-- Two or three tokens, a known method, and a scheme that is not too long. -/
def parseCommand (str : Bytes) : Option ParsedCommand :=
  match strtok str with
  | [name, url] => do
      let method ← nameToMethod name
      let cur ← sessionOf url
      return { method := method, cur := cur, localDir := none }
  | [name, url, localDir] => do
      let method ← nameToMethod name
      let cur ← sessionOf url
      return { method := method, cur := cur, localDir := some localDir }
  | _ => none

/-- An array of the stack after a token was copied into it. -/
def localAfter (token : Option Bytes) (d : Bytes) : Bytes :=
  match token with
  | some token => store d 0 (token ++ [0])
  | none => d

/-- What is in the arrays once the command is read. -/
def ParsedCommand.locals (text : ParsedCommand) (stack : Stack) : Locals :=
  { domain := domainAfter text.cur stack.domain, remoteDir := dirAfter text.cur stack.remoteDir,
    localDir := localAfter text.localDir stack.localDir, port := portOf (behindAccount text.cur),
    method := text.method, fail := false }

/-- What the tokens say fits the arrays: the path and the host of the second token,
    and the third one. -/
structure Fits (str : Bytes) : Prop where
  url : ∀ url cur, (strtok str)[1]? = some url → sessionOf url = some cur →
    UrlFits remoteDirMaxLen domainMaxLen cur
  localDir : ∀ token, (strtok str)[2]? = some token → token.length < localDirMaxLen

section Read

variable {str : Bytes} {stack : Stack}

/-- The first token. -/
def named (name : Bytes) (l : Locals) : Locals :=
  match nameToMethod name with
  | some method => { l with method := method }
  | none => { l with fail := true }

theorem tokenStep_name (name : Bytes) (l : Locals) : tokenStep 0 name l = .ok (named name l) := by
  rw [tokenStep, named]
  cases nameToMethod name with
  | none => rfl
  | some method => rfl

theorem named_arrays (name : Bytes) (l : Locals) :
    (named name l).domain = l.domain ∧ (named name l).remoteDir = l.remoteDir ∧
      (named name l).localDir = l.localDir := by
  rw [named]
  cases nameToMethod name with
  | none => exact ⟨rfl, rfl, rfl⟩
  | some method => exact ⟨rfl, rfl, rfl⟩

/-- The second token, if it fits. -/
def addressed (cur : Bytes) (l : Locals) : Locals :=
  { l with domain := domainAfter cur l.domain, remoteDir := dirAfter cur l.remoteDir,
           port := portOf (behindAccount cur) }

theorem tokenStep_url (url : Bytes) (l : Locals) :
    tokenStep 1 url l =
      match sessionOf url with
      | none => .ok { l with fail := true }
      | some cur =>
          if UrlFits l.remoteDir.length l.domain.length cur then .ok (addressed cur l)
          else .error .outOfBounds := by
  have hwords : l.words = bareWords l.domain l.remoteDir l.port := rfl
  rw [tokenStep, hwords, urlToWords_bare]
  cases sessionOf url with
  | none =>
      show Except.ok { l with fail := l.fail || true } = _
      rw [Bool.or_true]
  | some cur =>
      dsimp only
      by_cases hfits : UrlFits l.remoteDir.length l.domain.length cur
      · rw [if_pos hfits, if_pos hfits]
        show Except.ok { addressed cur l with fail := l.fail || false } = _
        rw [Bool.or_false]
        rfl
      · rw [if_neg hfits, if_neg hfits]
        rfl

/-- Tokens behind the third are passed over. -/
theorem tokenLoop_more (tokens : List Bytes) : ∀ (n : Nat) (l : Locals),
    tokenLoop (n + 3) tokens l = .ok l := by
  induction tokens with
  | nil => exact fun _ _ => rfl
  | cons token tokens ih =>
      intro n l
      exact ih (n + 1) l

/-- The third token and those behind it. -/
theorem tokenLoop_third (tokens : List Bytes) (l : Locals) :
    tokenLoop 2 tokens l =
      if ∀ token ∈ tokens.head?, token.length < l.localDir.length then
        .ok { l with localDir := localAfter tokens.head? l.localDir }
      else .error .outOfBounds := by
  cases tokens with
  | nil =>
      rw [if_pos (fun token h => by cases h)]
      rfl
  | cons token tokens =>
      rw [tokenLoop, tokenStep, strcpy]
      by_cases hlt : token.length < l.localDir.length
      · rw [if_pos hlt, if_pos (fun t ht => by rw [← Option.some.inj ht]; exact hlt)]
        exact tokenLoop_more tokens 0 _
      · rw [if_neg hlt, if_neg (fun h => hlt (h token rfl))]
        rfl

theorem named_fail (name : Bytes) (l : Locals) (hfail : l.fail = false) :
    (named name l).fail = (nameToMethod name).isNone := by
  rw [named]
  cases nameToMethod name with
  | none => rfl
  | some method => exact hfail

/-- What fits is read to the end. -/
theorem tokenLoop_fits (stack : Stack) {name url : Bytes} {rest : List Bytes}
    (htokens : strtok str = name :: url :: rest) (hfits : Fits str) :
    ∃ l, tokenLoop 0 (strtok str) stack.locals = .ok l ∧
      (l.fail = true ↔ nameToMethod name = none ∨ sessionOf url = none) ∧
      ∀ method cur, nameToMethod name = some method → sessionOf url = some cur →
        l = ParsedCommand.locals
          { method := method, cur := cur, localDir := rest.head? } stack := by
  obtain ⟨hdomain, hremote, hlocal⟩ := named_arrays name stack.locals
  have hnamed := named_fail name stack.locals rfl
  -- the third token is the one bounded by `Fits`, later ones are not copied
  have hthird : ∀ token ∈ rest.head?, token.length < localDirMaxLen := by
    intro token htoken
    refine hfits.localDir token ?_
    rw [htokens]
    cases rest with
    | nil => cases htoken
    | cons t rest => exact htoken
  have hroom : (named name stack.locals).localDir.length = localDirMaxLen := by
    rw [hlocal]
    exact stack.localDir_length
  rw [htokens, tokenLoop, tokenStep_name]
  show ∃ l, tokenLoop 1 (url :: rest) (named name stack.locals) = .ok l ∧ _
  rw [tokenLoop, tokenStep_url]
  -- a URL whose scheme is too long sets the flag, and the third token is read all the same
  cases hsession : sessionOf url with
  | none =>
      show ∃ l, tokenLoop 2 rest { named name stack.locals with fail := true } = .ok l ∧ _
      have hfront : ∀ token ∈ rest.head?,
          token.length < ({ named name stack.locals with fail := true } : Locals).localDir.length :=
        fun token htoken => hroom ▸ hthird token htoken
      rw [tokenLoop_third, if_pos hfront]
      exact ⟨_, rfl, ⟨fun _ => Or.inr rfl, fun _ => rfl⟩, fun _ _ _ h => by cases h⟩
  | some cur =>
      have hurl : UrlFits (named name stack.locals).remoteDir.length
          (named name stack.locals).domain.length cur := by
        rw [hremote, hdomain]
        show UrlFits stack.remoteDir.length stack.domain.length cur
        rw [stack.remoteDir_length, stack.domain_length]
        exact hfits.url url cur (by rw [htokens]; rfl) hsession
      dsimp only
      rw [if_pos hurl]
      show ∃ l, tokenLoop 2 rest (addressed cur (named name stack.locals)) = .ok l ∧ _
      have hfront : ∀ token ∈ rest.head?,
          token.length < (addressed cur (named name stack.locals)).localDir.length :=
        fun token htoken => hroom ▸ hthird token htoken
      rw [tokenLoop_third, if_pos hfront]
      refine ⟨_, rfl, ?_, ?_⟩
      · show (named name stack.locals).fail = true ↔ _
        rw [hnamed, Option.isNone_iff_eq_none]
        exact ⟨Or.inl, fun h => h.resolve_right (by rintro ⟨⟩)⟩
      · intro method cur' hmethod hcur
        obtain rfl := Option.some.inj hcur
        rw [named, hmethod]
        rfl

theorem readCommand_of_loop {l : Locals} (h : tokenLoop 0 (strtok str) stack.locals = .ok l) :
    readCommand str stack =
      .ok (if (strtok str).length < 2 ∨ (strtok str).length > 3 ∨ l.fail then none
        else some l) := by
  rw [readCommand, h]
  simp only [bind, Except.bind]
  split_ifs
  · rfl
  · rfl

/-- **A COMMAND THAT FITS** is read as its text says. -/
theorem readCommand_fits (hfits : Fits str) (stack : Stack) :
    readCommand str stack = .ok ((parseCommand str).map fun text => text.locals stack) := by
  rw [parseCommand]
  rcases htokens : strtok str with _ | ⟨name, _ | ⟨url, rest⟩⟩
  · rw [readCommand, htokens]
    rfl
  · rw [readCommand, htokens, tokenLoop, tokenStep_name]
    rfl
  · obtain ⟨l, hloop, hfail, hlocals⟩ := tokenLoop_fits stack htokens hfits
    rw [readCommand_of_loop hloop, htokens]
    have hthree : ∀ {n : Nat}, n = 2 ∨ n = 3 →
        (if n < 2 ∨ n > 3 ∨ l.fail = true then none else some l) =
          (do
            let method ← nameToMethod name
            let cur ← sessionOf url
            return ({ method := method, cur := cur, localDir := rest.head? } : ParsedCommand)).map
              fun text : ParsedCommand => text.locals stack := by
      intro n hn
      cases hname : nameToMethod name with
      | none => exact if_pos (Or.inr (Or.inr (hfail.mpr (Or.inl hname))))
      | some method =>
          cases hsession : sessionOf url with
          | none => exact if_pos (Or.inr (Or.inr (hfail.mpr (Or.inr hsession))))
          | some cur =>
              have hgood : ¬ (n < 2 ∨ n > 3 ∨ l.fail = true) := by
                rintro (hlow | hhigh | hbad)
                · omega
                · omega
                · rcases hfail.mp hbad with hno | hno
                  · cases hname.symm.trans hno
                  · cases hsession.symm.trans hno
              rw [if_neg hgood, hlocals method cur hname hsession]
              rfl
    rcases rest with _ | ⟨token, _ | ⟨more, rest⟩⟩
    · exact congrArg Except.ok (hthree (Or.inl rfl))
    · exact congrArg Except.ok (hthree (Or.inr rfl))
    · rw [if_pos]
      · rfl
      · exact Or.inr (Or.inl (by show rest.length + 1 + 1 + 1 + 1 > 3; omega))

/-- **A COMMAND THAT DOES NOT FIT** is written behind the end of an array. -/
theorem readCommand_overruns (hfits : ¬ Fits str) (stack : Stack) :
    readCommand str stack = .error .outOfBounds := by
  have hloop : tokenLoop 0 (strtok str) stack.locals = .error .outOfBounds := by
    -- fewer than two tokens copy nothing, so they always fit
    rcases htokens : strtok str with _ | ⟨name, _ | ⟨url, rest⟩⟩
    · exact absurd ⟨fun _ _ h => (by rw [htokens] at h; cases h),
        fun _ h => (by rw [htokens] at h; cases h)⟩ hfits
    · exact absurd ⟨fun _ _ h => (by rw [htokens] at h; cases h),
        fun _ h => (by rw [htokens] at h; cases h)⟩ hfits
    · obtain ⟨hdomain, hremote, hlocal⟩ := named_arrays name stack.locals
      have hlength : (named name stack.locals).localDir.length = localDirMaxLen := by
        rw [hlocal]
        exact stack.localDir_length
      -- past a URL that fits it is the third token that does not
      have hgoes : ∀ l : Locals, l.localDir.length = localDirMaxLen →
          (∀ cur, sessionOf url = some cur → UrlFits remoteDirMaxLen domainMaxLen cur) →
          tokenLoop 2 rest l = .error .outOfBounds := by
        intro l hl hurl
        rw [tokenLoop_third, if_neg]
        intro hfront
        refine hfits ⟨fun url' cur hget hcur => ?_, fun token hget => ?_⟩
        · rw [htokens] at hget
          obtain rfl := Option.some.inj hget
          exact hurl cur hcur
        · rw [htokens] at hget
          rw [← hl]
          refine hfront token ?_
          cases rest with
          | nil => cases hget
          | cons t rest => exact hget
      rw [tokenLoop, tokenStep_name]
      show tokenLoop 1 (url :: rest) (named name stack.locals) = .error .outOfBounds
      rw [tokenLoop, tokenStep_url]
      cases hsession : sessionOf url with
      | none => exact hgoes _ hlength (fun cur h => by cases hsession.symm.trans h)
      | some cur =>
          dsimp only
          split
          · rename_i hurl
            refine hgoes (addressed cur (named name stack.locals)) hlength (fun cur' h => ?_)
            obtain rfl := Option.some.inj (hsession.symm.trans h)
            rw [hremote, hdomain] at hurl
            change UrlFits stack.remoteDir.length stack.domain.length cur at hurl
            rw [stack.remoteDir_length, stack.domain_length] at hurl
            exact hurl
          · rfl
  rw [readCommand, hloop]
  rfl

end Read

/-! ## The fields of a command -/

section Fields

/-- The names in a slot are strings of arrays of 256 bytes. -/
structure Named (conn : HttpConnection) : Prop where
  domain : conn.domain.length ≤ 255
  remoteDir : conn.remoteDir.length ≤ 255
  localDir : conn.localDir.length ≤ 255

/-- **THE FIELDS FIT**: every write of the command stays in its array, those into the
    slot included, and what it stores is a string of at most 255 bytes. -/
structure FieldsFit (net : Net) (str : Bytes) (stack : Stack) (g : Globals) : Prop where
  returns : ∃ code g', interpreteSingleCommand net str stack g = .ok (code, g')
  arrays : ∀ l, readCommand str stack = .ok (some l) → ∀ s,
    (untilNul l.domain = some s → s.length ≤ 255) ∧
      (untilNul l.remoteDir = some s → s.length ≤ 255) ∧
      (untilNul l.localDir = some s → s.length ≤ 255)
  slots : ∀ code g', interpreteSingleCommand net str stack g = .ok (code, g') → ∀ i,
    g'.connWorkspace i = g.connWorkspace i ∨ Named (g'.connWorkspace i)

/-- The command is copied into a slot: it is accepted and connected, and a slot is
    free. -/
structure Reaches (net : Net) (str : Bytes) (stack : Stack) (g : Globals) (text : ParsedCommand) :
    Prop where
  parsed : parseCommand str = some text
  dials : ∃ fd, Dials net (text.locals stack) fd
  slot : (findSlot g).isSome = true

/-- What the text leaves out is a string on the stack: the path behind the host, and
    the local path. -/
structure Ended (text : ParsedCommand) (stack : Stack) : Prop where
  remoteDir : (47 : Byte) ∈ text.cur ∨ (0 : Byte) ∈ stack.remoteDir
  localDir : text.localDir ≠ none ∨ (0 : Byte) ∈ stack.localDir

theorem copied_length {d src : Bytes} {n : Nat} (h : n < d.length) :
    (copied d src n).length = d.length := by
  rw [copied, List.length_append, List.length_append, List.length_take, List.length_replicate,
    List.length_cons, List.length_drop]
  omega

/-- A string is shorter than its array. -/
theorem untilNul_lt {d s : Bytes} {n : Nat} (hlen : d.length = n + 1) (h : untilNul d = some s) :
    s.length ≤ n := by
  obtain ⟨rest, rfl, -⟩ := untilNul_split h
  rw [List.length_append, List.length_cons] at hlen
  omega

/-- What is parsed of a command that fits, fits. -/
theorem parseCommand_fits {str : Bytes} (hfits : Fits str) {text : ParsedCommand}
    (htext : parseCommand str = some text) :
    UrlFits remoteDirMaxLen domainMaxLen text.cur ∧
      ∀ token ∈ text.localDir, token.length < localDirMaxLen := by
  rw [parseCommand] at htext
  rcases htokens : strtok str with _ | ⟨name, _ | ⟨url, _ | ⟨token, _ | ⟨more, rest⟩⟩⟩⟩
  · rw [htokens] at htext
    cases htext
  · rw [htokens] at htext
    cases htext
  · rw [htokens] at htext
    obtain ⟨method, -, htext⟩ := Option.bind_eq_some_iff.mp htext
    obtain ⟨cur, hcur, htext⟩ := Option.bind_eq_some_iff.mp htext
    obtain rfl := Option.some.inj htext
    exact ⟨hfits.url url cur (by rw [htokens]; rfl) hcur, fun token h => by cases h⟩
  · rw [htokens] at htext
    obtain ⟨method, -, htext⟩ := Option.bind_eq_some_iff.mp htext
    obtain ⟨cur, hcur, htext⟩ := Option.bind_eq_some_iff.mp htext
    obtain rfl := Option.some.inj htext
    refine ⟨hfits.url url cur (by rw [htokens]; rfl) hcur, fun token' h => ?_⟩
    rw [← Option.some.inj h]
    exact hfits.localDir token (by rw [htokens]; rfl)
  · rw [htokens] at htext
    cases htext

/-- The arrays keep their lengths. -/
theorem locals_length {text : ParsedCommand} (stack : Stack)
    (hurl : UrlFits remoteDirMaxLen domainMaxLen text.cur)
    (htoken : ∀ token ∈ text.localDir, token.length < localDirMaxLen) :
    (text.locals stack).domain.length = 256 ∧ (text.locals stack).remoteDir.length = 256 ∧
      (text.locals stack).localDir.length = 256 := by
  refine ⟨?_, ?_, ?_⟩
  · show (domainAfter text.cur stack.domain).length = 256
    rw [domainAfter, copied_length (by rw [stack.domain_length]; exact hurl.2),
      stack.domain_length]
    rfl
  · show (dirAfter text.cur stack.remoteDir).length = 256
    rw [dirAfter]
    cases hlen : dirLen text.cur with
    | none => exact stack.remoteDir_length
    | some len =>
        dsimp only
        rw [copied_length (by rw [stack.remoteDir_length]; exact hurl.1 len hlen),
          stack.remoteDir_length]
        rfl
  · show (localAfter text.localDir stack.localDir).length = 256
    cases hsome : text.localDir with
    | none => exact stack.localDir_length
    | some token =>
        have hlt := htoken token hsome
        have hstore : (store stack.localDir 0 (token ++ [0])).length = stack.localDir.length := by
          refine store_length ?_
          rw [List.length_append, stack.localDir_length, Nat.zero_add]
          exact hlt
        exact hstore.trans stack.localDir_length

/-- A NUL ends a string. -/
theorem untilNul_isSome_iff (m : Bytes) : (untilNul m).isSome = true ↔ (0 : Byte) ∈ m := by
  induction m with
  | nil => exact ⟨by rintro ⟨⟩, by rintro ⟨⟩⟩
  | cons b m ih =>
      rw [untilNul, List.mem_cons]
      by_cases hb : b = 0
      · rw [if_pos hb]
        exact ⟨fun _ => Or.inl hb.symm, fun _ => rfl⟩
      · rw [if_neg hb, Option.isSome_map, ih]
        exact ⟨Or.inr, fun h => h.resolve_left fun heq => hb heq.symm⟩

/-- What is copied is ended. -/
theorem copied_isSome (d src : Bytes) (n : Nat) : (untilNul (copied d src n)).isSome = true := by
  rw [untilNul_isSome_iff, copied]
  simp

/-- The arrays of a command hold strings exactly if the stack ends what the text leaves
    out. -/
theorem locals_readable (text : ParsedCommand) (stack : Stack) :
    Readable (text.locals stack) ↔ Ended text stack := by
  have hdomain : (untilNul (text.locals stack).domain).isSome = true := copied_isSome _ _ _
  have hremote : (untilNul (text.locals stack).remoteDir).isSome = true ↔
      (47 : Byte) ∈ text.cur ∨ (0 : Byte) ∈ stack.remoteDir := by
    show (untilNul (dirAfter text.cur stack.remoteDir)).isSome = true ↔ _
    rw [dirAfter]
    by_cases hslash : (47 : Byte) ∈ text.cur
    · obtain ⟨pre, -, -, -, hlen⟩ := strstr_byte hslash
      have hdir : dirLen text.cur = some pre.length := hlen
      rw [hdir]
      exact iff_of_true (copied_isSome _ _ _) (Or.inl hslash)
    · have hdir : dirLen text.cur = none := strstr_absent hslash
      rw [hdir]
      exact (untilNul_isSome_iff _).trans ⟨Or.inr, fun h => h.resolve_left hslash⟩
  have hlocal : (untilNul (text.locals stack).localDir).isSome = true ↔
      text.localDir ≠ none ∨ (0 : Byte) ∈ stack.localDir := by
    show (untilNul (localAfter text.localDir stack.localDir)).isSome = true ↔ _
    cases text.localDir with
    | none =>
        exact (untilNul_isSome_iff _).trans ⟨Or.inr, fun h => h.resolve_left (by simp)⟩
    | some token =>
        refine iff_of_true ?_ (Or.inl (by rintro ⟨⟩))
        rw [untilNul_isSome_iff, localAfter, store_zero]
        simp
  rw [Readable]
  constructor
  · rintro ⟨-, hr, hl⟩
    exact ⟨hremote.mp hr, hlocal.mp hl⟩
  · rintro ⟨hr, hl⟩
    exact ⟨hdomain, hremote.mpr hr, hlocal.mpr hl⟩

/-- **A COMMAND THAT FITS RETURNS** unless it copies an array without a NUL. -/
theorem interprete_returns {net : Net} {str : Bytes} {stack : Stack} {g : Globals}
    (hfits : Fits str) :
    (∃ code g', interpreteSingleCommand net str stack g = .ok (code, g')) ↔
      ∀ text, Reaches net str stack g text → Ended text stack := by
  have hread := readCommand_fits hfits stack
  cases htext : parseCommand str with
  | none =>
      rw [htext] at hread
      refine iff_of_true ⟨1, g, ?_⟩ fun text hreaches => ?_
      · rw [interpreteSingleCommand, hread]
        rfl
      · cases htext.symm.trans hreaches.parsed
  | some text =>
      rw [htext] at hread
      replace hread : readCommand str stack = .ok (some (text.locals stack)) := hread
      have hreadable := locals_readable text stack
      -- a command that does not reach a slot copies nothing into one
      by_cases hdials : ∃ fd, Dials net (text.locals stack) fd
      · obtain ⟨fd, hd⟩ := hdials
        have hdial := (dial_eq (text.locals stack) g).1 fd hd
        cases hslot : findSlot g with
        | none =>
            refine iff_of_true ⟨1, { g with openFds := fd :: g.openFds }, ?_⟩ fun text' hreaches => ?_
            · rw [interpreteSingleCommand, hread]
              simp only [bind, Except.bind, hdial, findSlot_openFds, hslot]
              rfl
            · have hsome := hreaches.slot
              rw [hslot] at hsome
              cases hsome
        | some i =>
            have hreaches : Reaches net str stack g text :=
              ⟨htext, ⟨fd, hd⟩, by rw [hslot]; rfl⟩
            -- the text that reaches the slot is the one the command is parsed to
            have hall : (∀ text', Reaches net str stack g text' → Ended text' stack) ↔
                Ended text stack := by
              constructor
              · exact fun h => h text hreaches
              · intro h text' hreaches'
                obtain rfl := Option.some.inj (htext.symm.trans hreaches'.parsed)
                exact h
            have hfills : (∃ conn, fillSlot (g.connWorkspace i) fd (text.locals stack) = .ok conn) ↔
                Readable (text.locals stack) := fillSlot_readable
            rw [hall, ← hreadable, ← hfills, interpreteSingleCommand, hread]
            simp only [bind, Except.bind, hdial, findSlot_openFds, hslot]
            cases hfill : fillSlot (g.connWorkspace i) fd (text.locals stack) with
            | error e => exact ⟨by rintro ⟨_, _, ⟨⟩⟩, by rintro ⟨_, ⟨⟩⟩⟩
            | ok conn =>
                refine iff_of_true ?_ ⟨conn, rfl⟩
                dsimp only
                split_ifs
                · exact ⟨_, _, rfl⟩
                · exact ⟨_, _, rfl⟩
      · have hnot : ∀ fd, ¬ Dials net (text.locals stack) fd := fun fd hd => hdials ⟨fd, hd⟩
        refine iff_of_true ?_ fun text' hreaches => ?_
        · obtain ⟨host, hhost⟩ := Option.isSome_iff_exists.mp
            (show (untilNul (text.locals stack).domain).isSome = true from copied_isSome _ _ _)
          have hdialed : ∃ r, dial net (text.locals stack) g = .ok r := by
            rw [dial, hhost]
            dsimp only
            split
            · split
              · exact ⟨_, rfl⟩
              · split <;> exact ⟨_, rfl⟩
            · exact ⟨_, rfl⟩
          obtain ⟨r, hdial⟩ := hdialed
          obtain rfl := (dial_eq (text.locals stack) g).2 r hnot hdial
          refine ⟨1, g, ?_⟩
          rw [interpreteSingleCommand, hread]
          simp only [bind, Except.bind, hdial]
          rfl
        · obtain rfl := Option.some.inj (htext.symm.trans hreaches.parsed)
          exact absurd hreaches.dials hdials

/-- The names of a command that was read fit into the slot. -/
theorem readCommand_named {str : Bytes} {stack : Stack} {l : Locals}
    (h : readCommand str stack = .ok (some l)) {conn conn' : HttpConnection} {fd : Nat}
    (hfill : fillSlot conn fd l = .ok conn') : Named conn' := by
  have hfits : Fits str := by
    by_contra hfits
    rw [readCommand_overruns hfits stack] at h
    cases h
  rw [readCommand_fits hfits stack] at h
  obtain ⟨text, htext, rfl⟩ := Option.map_eq_some_iff.mp (Except.ok.inj h)
  obtain ⟨hurl, htoken⟩ := parseCommand_fits hfits htext
  obtain ⟨hdomain, hremote, hlocal⟩ := locals_length stack hurl htoken
  rw [fillSlot] at hfill
  cases hd : untilNul (text.locals stack).domain with
  | none =>
      rw [hd] at hfill
      cases hfill
  | some domain =>
      cases hr : untilNul (text.locals stack).remoteDir with
      | none =>
          rw [hd, hr] at hfill
          cases hfill
      | some remoteDir =>
          cases hl : untilNul (text.locals stack).localDir with
          | none =>
              rw [hd, hr, hl] at hfill
              cases hfill
          | some localDir =>
              rw [hd, hr, hl] at hfill
              rw [← Except.ok.inj hfill]
              exact ⟨untilNul_lt hdomain hd, untilNul_lt hremote hr, untilNul_lt hlocal hl⟩

/-- What a command that returns stores in slots, fits. -/
theorem command_named {net : Net} {str : Bytes} {stack : Stack} {g g' : Globals} {code : Int}
    (h : interpreteSingleCommand net str stack g = .ok (code, g')) (i : Nat) :
    g'.connWorkspace i = g.connWorkspace i ∨ Named (g'.connWorkspace i) := by
  rcases command_fills h with ⟨-, hsame⟩ | ⟨j, fd, l, hfills⟩
  · exact Or.inl (congrFun hsame i)
  · obtain ⟨conn, clb, hfill, hupdate⟩ := hfills.filled
    rw [hupdate]
    by_cases hi : i = j
    · rw [hi, Function.update_self]
      have hnamed := readCommand_named hfills.read hfill
      exact Or.inr ⟨hnamed.domain, hnamed.remoteDir, hnamed.localDir⟩
    · exact Or.inl (Function.update_of_ne hi _ _)

/-- **THE FIELDS OF A COMMAND FIT** exactly if its path, its host and its local path
    are shorter than their arrays, and what it leaves out is ended on the stack if it is
    copied into a slot: nothing else would stop a longer one. -/
theorem fieldsFit_iff (net : Net) (str : Bytes) (stack : Stack) (g : Globals) :
    FieldsFit net str stack g ↔
      Fits str ∧ ∀ text, Reaches net str stack g text → Ended text stack := by
  constructor
  · rintro ⟨⟨code, g', hrun⟩, -, -⟩
    have hfits : Fits str := by
      by_contra hfits
      rw [interpreteSingleCommand, readCommand_overruns hfits stack] at hrun
      cases hrun
    exact ⟨hfits, (interprete_returns hfits).mp ⟨code, g', hrun⟩⟩
  · rintro ⟨hfits, hended⟩
    refine ⟨(interprete_returns hfits).mpr hended, fun l hl s => ?_,
      fun code g' hrun => command_named hrun⟩
    rw [readCommand_fits hfits stack] at hl
    obtain ⟨text, htext, rfl⟩ := Option.map_eq_some_iff.mp (Except.ok.inj hl)
    obtain ⟨hurl, htoken⟩ := parseCommand_fits hfits htext
    obtain ⟨hdomain, hremote, hlocal⟩ := locals_length stack hurl htoken
    exact ⟨fun h => untilNul_lt hdomain h, fun h => untilNul_lt hremote h,
      fun h => untilNul_lt hlocal h⟩

/-- A stack whose arrays hold one byte and a NUL. -/
def Stack.marked (b : Byte) : Stack :=
  { domain := b :: List.replicate 255 0, remoteDir := b :: List.replicate 255 0,
    localDir := b :: List.replicate 255 0, port := 0, method := .get,
    domain_length := by rw [List.length_cons, List.length_replicate]; rfl,
    remoteDir_length := by rw [List.length_cons, List.length_replicate]; rfl,
    localDir_length := by rw [List.length_cons, List.length_replicate]; rfl }

/-- A GET from a host with a name of 256 bytes. -/
def longHost : Bytes := lit "get " ++ List.replicate 256 97

/-- **THE NAME OVERRUNS** the array for the domain by its terminator. -/
theorem longHost_not_fit :
    longHost.length < 4096 ∧ ¬ FieldsFit (netOf true) longHost zeroStack .idle := by
  constructor
  · decide +kernel
  · rintro ⟨⟨code, g', hrun⟩, -, -⟩
    have hfits : ¬ Fits longHost := by
      intro hfits
      have hurl := hfits.url (List.replicate 256 97) (List.replicate 256 97) (by decide +kernel)
        (by decide +kernel)
      exact absurd hurl.2 (by decide +kernel)
    rw [interpreteSingleCommand, readCommand_overruns hfits] at hrun
    cases hrun

/-- `get h/a` where no NUL lies in the array for the local path: the copy into the slot
    runs past both. -/
theorem noLocalPath_not_fit (stack : Stack) (hstack : (0 : Byte) ∉ stack.localDir) :
    ¬ FieldsFit (netOf true) (lit "get h/a") stack .idle := by
  have hfits : Fits (lit "get h/a") := by
    constructor
    · intro url cur hurl hcur
      obtain rfl : lit "h/a" = url := Option.some.inj hurl
      obtain rfl : lit "h/a" = cur := Option.some.inj hcur
      decide
    · rintro token ⟨⟩
  have hparsed : parseCommand (lit "get h/a") =
      some { method := .get, cur := lit "h/a", localDir := none } := by decide +kernel
  have hdials : Dials (netOf true)
      (ParsedCommand.locals { method := .get, cur := lit "h/a", localDir := none } stack) 5 := by
    refine ⟨rfl, ?_⟩
    obtain ⟨host, hhost⟩ := Option.isSome_iff_exists.mp (copied_isSome stack.domain
      (behindAccount (lit "h/a")) (hostLen (lit "h/a")))
    exact ⟨host, hhost, rfl, rfl⟩
  rintro ⟨hreturns, -, -⟩
  have hended := (interprete_returns hfits).mp hreturns _ ⟨hparsed, ⟨5, hdials⟩, by decide +kernel⟩
  rcases hended.localDir with hthird | hzero
  · exact hthird rfl
  · exact hstack hzero

end Fields

/-! ## Two runs of a command -/

section TwoRuns

variable {str : Bytes}

/-- The command is read, whatever becomes of it then. -/
def Accepted (str : Bytes) : Prop := ∃ stack l, readCommand str stack = .ok (some l)

/-- **DETERMINED BY THE TEXT**: whatever the network answers and the globals are, two
    stacks lead to the same code and the same globals, with the same slot. -/
def Determined (str : Bytes) : Prop :=
  ∀ (net : Net) (g : Globals) (stack stack' : Stack),
    interpreteSingleCommand net str stack g = interpreteSingleCommand net str stack' g

/-- The text names a local path, and its URL a path. -/
def Complete (str : Bytes) : Prop :=
  ∃ text, parseCommand str = some text ∧ text.localDir ≠ none ∧ (47 : Byte) ∈ text.cur

/-- An accepted command fits, and is read as its text says on any stack. -/
theorem accepted_text (h : Accepted str) :
    ∃ text, parseCommand str = some text ∧
      ∀ stack, readCommand str stack = .ok (some (text.locals stack)) := by
  obtain ⟨stack, l, hread⟩ := h
  have hfits : Fits str := by
    by_contra hfits
    rw [readCommand_overruns hfits stack] at hread
    cases hread
  rw [readCommand_fits hfits stack] at hread
  obtain ⟨text, htext, -⟩ := Option.map_eq_some_iff.mp (Except.ok.inj hread)
  refine ⟨text, htext, fun stack' => ?_⟩
  rw [readCommand_fits hfits stack', htext]
  rfl

/-- Behind a NUL nothing is read. -/
theorem untilNul_behind (s rest rest' : Bytes) :
    untilNul (s ++ 0 :: rest) = untilNul (s ++ 0 :: rest') := by
  induction s with
  | nil => rfl
  | cons b s ih => rw [List.cons_append, List.cons_append, untilNul, untilNul, ih]

theorem untilNul_isSome (s rest : Bytes) : (untilNul (s ++ 0 :: rest)).isSome = true := by
  induction s with
  | nil => rfl
  | cons b s ih =>
      rw [List.cons_append, untilNul]
      split
      · rfl
      · rw [Option.isSome_map]
        exact ih

/-- What is copied hides what was there. -/
theorem copied_hides (d d' src : Bytes) (n : Nat) :
    untilNul (copied d src n) = untilNul (copied d' src n) := untilNul_behind _ _ _

theorem store_hides (d d' token : Bytes) :
    untilNul (store d 0 (token ++ [0])) = untilNul (store d' 0 (token ++ [0])) := by
  rw [store_zero, store_zero, List.append_assoc, List.append_assoc]
  exact untilNul_behind _ _ _

/-- What two readings have in common when the slot is filled alike. -/
structure SameCommand (l l' : Locals) : Prop where
  method : l.method = l'.method
  domain : untilNul l.domain = untilNul l'.domain
  port : l.port = l'.port
  remoteDir : untilNul l.remoteDir = untilNul l'.remoteDir
  localDir : untilNul l.localDir = untilNul l'.localDir

/-- Nothing else of the arrays is looked at. -/
theorem interprete_same {net : Net} {g : Globals} {stack stack' : Stack} {l l' : Locals}
    (hread : readCommand str stack = .ok (some l)) (hread' : readCommand str stack' = .ok (some l'))
    (hsame : SameCommand l l') :
    interpreteSingleCommand net str stack g = interpreteSingleCommand net str stack' g := by
  have hdial : dial net l g = dial net l' g := by
    rw [dial, dial, hsame.domain, hsame.port]
  have hfill : ∀ conn fd, fillSlot conn fd l = fillSlot conn fd l' := by
    intro conn fd
    rw [fillSlot, fillSlot, hsame.domain, hsame.remoteDir, hsame.localDir, hsame.method]
  simp only [interpreteSingleCommand, hread, hread', bind, Except.bind, hdial, hfill]

/-- A complete text leaves nothing to the stack. -/
theorem locals_same {text : ParsedCommand} (htoken : text.localDir ≠ none)
    (hslash : (47 : Byte) ∈ text.cur) (stack stack' : Stack) :
    SameCommand (text.locals stack) (text.locals stack') := by
  obtain ⟨token, htoken⟩ := Option.ne_none_iff_exists'.mp htoken
  obtain ⟨pre, -, -, -, hlen⟩ := strstr_byte hslash
  have hdir : dirLen text.cur = some pre.length := hlen
  constructor
  · rfl
  · exact copied_hides _ _ _ _
  · rfl
  · show untilNul (dirAfter text.cur _) = untilNul (dirAfter text.cur _)
    rw [dirAfter, dirAfter, hdir]
    exact copied_hides _ _ _ _
  · show untilNul (localAfter text.localDir _) = untilNul (localAfter text.localDir _)
    rw [htoken]
    exact store_hides _ _ token

/-! ## What the stack can tell -/

/-- A network where everything succeeds. -/
def openNet : Net :=
  { resolves := fun _ => true, socket := some 5, connects := fun _ _ => true, registers := true }

/-- The slot that a command fills when nothing is in its way. -/
theorem installs {stack : Stack} {l : Locals} {domain remoteDir localDir : Bytes}
    (hread : readCommand str stack = .ok (some l)) (hdomain : untilNul l.domain = some domain)
    (hremote : untilNul l.remoteDir = some remoteDir)
    (hlocal : untilNul l.localDir = some localDir) :
    ∃ g', interpreteSingleCommand openNet str stack Globals.idle = .ok (0, g') ∧
      (g'.connWorkspace 0).remoteDir = remoteDir ∧ (g'.connWorkspace 0).localDir = localDir := by
  have hslot : findSlot { Globals.idle with openFds := [5] } = some 0 := by decide +kernel
  have hdial : dial openNet l Globals.idle =
      .ok (some 5, { Globals.idle with openFds := [5] }) := by
    rw [dial, hdomain]
    rfl
  have hfill : ∀ conn, fillSlot conn 5 l = .ok { conn with
      state := 0, method := l.method, sockfd := 5, domain := domain, remoteDir := remoteDir,
      localDir := localDir } := by
    intro conn
    rw [fillSlot, hdomain, hremote, hlocal]
    rfl
  simp only [interpreteSingleCommand, hread, bind, Except.bind, hdial, hslot, hfill]
  exact ⟨_, rfl, rfl, rfl⟩

/-- On a marked stack everything can be read, and what the text does not mention is
    the mark. -/
theorem marked_reads (text : ParsedCommand) {b : Byte} (hb : b ≠ 0) :
    ∃ domain remoteDir localDir,
      untilNul (text.locals (Stack.marked b)).domain = some domain ∧
        untilNul (text.locals (Stack.marked b)).remoteDir = some remoteDir ∧
        untilNul (text.locals (Stack.marked b)).localDir = some localDir ∧
        ((47 : Byte) ∉ text.cur → remoteDir = [b]) ∧ (text.localDir = none → localDir = [b]) := by
  have hmark : untilNul (b :: List.replicate 255 0) = some [b] := by
    rw [untilNul, if_neg hb]
    rfl
  obtain ⟨domain, hdomain⟩ := Option.isSome_iff_exists.mp
    (show (untilNul (text.locals (Stack.marked b)).domain).isSome = true from untilNul_isSome _ _)
  have hremote : ∃ remoteDir, untilNul (text.locals (Stack.marked b)).remoteDir = some remoteDir ∧
      ((47 : Byte) ∉ text.cur → remoteDir = [b]) := by
    show ∃ remoteDir, untilNul (dirAfter text.cur _) = some remoteDir ∧ _
    rw [dirAfter]
    cases hlen : dirLen text.cur with
    | none => exact ⟨[b], hmark, fun _ => rfl⟩
    | some len =>
        obtain ⟨remoteDir, hread⟩ := Option.isSome_iff_exists.mp
          (untilNul_isSome ((text.cur.drop len).take len ++
            List.replicate (len - (text.cur.drop len).length) 0)
              ((Stack.marked b).remoteDir.drop (len + 1)))
        refine ⟨remoteDir, hread, fun habsent => ?_⟩
        have hnone : dirLen text.cur = none := strstr_absent habsent
        cases hnone.symm.trans hlen
  have hlocal : ∃ localDir, untilNul (text.locals (Stack.marked b)).localDir = some localDir ∧
      (text.localDir = none → localDir = [b]) := by
    show ∃ localDir, untilNul (localAfter text.localDir _) = some localDir ∧ _
    cases htoken : text.localDir with
    | none => exact ⟨[b], hmark, fun _ => rfl⟩
    | some token =>
        have hstored : (untilNul (localAfter (some token) (Stack.marked b).localDir)).isSome =
            true := by
          show (untilNul (store _ 0 (token ++ [0]))).isSome = true
          rw [store_zero, List.append_assoc]
          exact untilNul_isSome _ _
        obtain ⟨localDir, hread⟩ := Option.isSome_iff_exists.mp hstored
        exact ⟨localDir, hread, fun h => by cases h⟩
  obtain ⟨remoteDir, hremote, habsent⟩ := hremote
  obtain ⟨localDir, hlocal, hnone⟩ := hlocal
  exact ⟨domain, remoteDir, localDir, hdomain, hremote, hlocal, habsent, hnone⟩

/-- What the text leaves out is left to the stack. -/
theorem complete_of_determined (haccepted : Accepted str) (h : Determined str) : Complete str := by
  obtain ⟨text, htext, hread⟩ := accepted_text haccepted
  obtain ⟨domain, remoteDir, localDir, hdomain, hremote, hlocal, hr, hl⟩ :=
    marked_reads text (show (1 : Byte) ≠ 0 by decide)
  obtain ⟨domain', remoteDir', localDir', hdomain', hremote', hlocal', hr', hl'⟩ :=
    marked_reads text (show (2 : Byte) ≠ 0 by decide)
  obtain ⟨g, hrun, hslot, hfile⟩ := installs (hread _) hdomain hremote hlocal
  obtain ⟨g', hrun', hslot', hfile'⟩ := installs (hread _) hdomain' hremote' hlocal'
  have hsame : g = g' := by
    have hboth := h openNet Globals.idle (Stack.marked 1) (Stack.marked 2)
    rw [hrun, hrun'] at hboth
    exact (Prod.mk.inj (Except.ok.inj hboth)).2
  rw [hsame] at hslot hfile
  refine ⟨text, htext, fun hnone => ?_, ?_⟩
  · rw [hl hnone] at hfile
    rw [hl' hnone] at hfile'
    exact absurd (hfile.symm.trans hfile') (by decide)
  · by_contra habsent
    rw [hr habsent] at hslot
    rw [hr' habsent] at hslot'
    exact absurd (hslot.symm.trans hslot') (by decide)

/-- **AN ACCEPTED COMMAND IS DETERMINED BY ITS TEXT** exactly if the text is
    complete. -/
theorem determined_iff (haccepted : Accepted str) : Determined str ↔ Complete str := by
  constructor
  · exact complete_of_determined haccepted
  · rintro ⟨text, htext, htoken, hslash⟩ net g stack stack'
    obtain ⟨text', htext', hread⟩ := accepted_text haccepted
    obtain rfl := Option.some.inj (htext.symm.trans htext')
    exact interprete_same (hread stack) (hread stack') (locals_same htoken hslash stack stack')

/-- `get http://h/a f` -/
def completeText : Bytes := lit "get http://h/a f"

/-- `get h/a`: the local path is left out. -/
def noLocalPath : Bytes := lit "get h/a"

theorem accepted_of_isSome (h : (readCommand str (Stack.marked 0)).toOption.join.isSome = true) :
    Accepted str := by
  cases hread : readCommand str (Stack.marked 0) with
  | error e =>
      rw [hread] at h
      cases h
  | ok r =>
      cases r with
      | none =>
          rw [hread] at h
          cases h
      | some l => exact ⟨Stack.marked 0, l, hread⟩

theorem determined_completeText : Determined completeText ↔ Complete completeText :=
  determined_iff (accepted_of_isSome (by decide +kernel))

/-- **THE STACK IS SENT ALONG**: the slot gets whatever the array for the local path
    held. -/
theorem noLocalPath_not_determined : Accepted noLocalPath ∧ ¬ Determined noLocalPath := by
  have haccepted : Accepted noLocalPath := accepted_of_isSome (by decide +kernel)
  refine ⟨haccepted, fun h => ?_⟩
  obtain ⟨text, htext, htoken, -⟩ := complete_of_determined haccepted h
  have hparse : parseCommand noLocalPath =
      some { method := .get, cur := lit "h/a", localDir := none } := by decide +kernel
  rw [hparse] at htext
  rw [← Option.some.inj htext] at htoken
  exact htoken rfl

end TwoRuns

end CommandText
