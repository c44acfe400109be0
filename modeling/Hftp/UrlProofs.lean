import Hftp.HttpCoreProofs

/-! # The two URL parsers

    `url_to_words` copies the parts of a URL into arrays of its caller, where a
    length that is negative, or longer than the array, is a write out of bounds.
    `url_to_data` puts them into blocks of the heap; a block that `cstrndup`
    fills has a last byte nobody wrote. -/

namespace Url

open CBytes HttpCore

/-- `SCHEMEMAX` -/
def schemeMax : Nat := 32

/-! ## Copies -/

/-- `strncpy(dst, src, n)`: up to `n` bytes of the string, and zeros for the rest
    of the `n`. -/
def strncpy (dst src : Bytes) (n : Int) : Except Abort Bytes :=
  if 0 ≤ n ∧ n.toNat ≤ dst.length then
    .ok (src.take n.toNat ++ List.replicate (n.toNat - src.length) 0 ++ dst.drop n.toNat)
  else .error .outOfBounds

/-- `dst[i] = b` -/
def setByte (dst : Bytes) (i : Int) (b : Byte) : Except Abort Bytes :=
  if 0 ≤ i ∧ i.toNat < dst.length then .ok (dst.set i.toNat b) else .error .outOfBounds

/-- `if (dst != NULL) { strncpy(dst, src, n); dst[n] = '\0'; }` -/
def copyWord (dst : Option Bytes) (src : Bytes) (n : Int) : Except Abort (Option Bytes) :=
  match dst with
  | none => .ok none
  | some d => do
      let d ← strncpy d src n
      let d ← setByte d n 0
      return some d

/-! ## `url_to_words` -/

/-- The arrays of the caller; nothing stands for a NULL pointer.  `param`, `query`
    and `frag` are never written. -/
structure Words where
  scheme : Option Bytes
  username : Option Bytes
  password : Option Bytes
  domain : Option Bytes
  port : Option Nat
  dir : Option Bytes
  deriving DecidableEq, Repr

/-- The part behind the account. -/
def domainWords (sessionLen : Nat) (cur : Bytes) (out : Words) : Except Abort (Int × Words) :=
  match strstr (lit ":") cur with
  | some colon => do
      let domain ← copyWord out.domain cur colon
      -- the number is stored in an unsigned short
      let port := (strtol 10 (cur.drop (colon + 1)) % 2 ^ 16).toNat
      return (0, { out with domain := domain, port := out.port.map fun _ => port })
  | none => do
      let domain ← copyWord out.domain cur sessionLen
      return (0, { out with domain := domain, port := out.port.map fun _ => 80 })

/-- The part behind the scheme.  All searches start at its first byte, so a colon
    or an at sign of the path counts. -/
def sessionWords (cur : Bytes) (out : Words) : Except Abort (Int × Words) := do
  let (sessionLen, out) ←
    match strstr (lit "/") cur with
    | some slash => do
        -- as many bytes of the path as there are before it
        let dir ← copyWord out.dir (cur.drop slash) slash
        Except.ok (slash, { out with dir := dir })
    | none => Except.ok (cur.length, out)
  match strstr (lit "@") cur with
  | some account =>
      match strstr (lit ":") cur with
      | some colon => do
          let username ← copyWord out.username cur colon
          let password ← copyWord out.password (cur.drop (colon + 1)) (account - colon - 1)
          domainWords sessionLen (cur.drop (account + 1))
            { out with username := username, password := password }
      | none => do
          -- without a terminator
          let username ← out.username.mapM fun d => strncpy d cur account
          domainWords sessionLen (cur.drop (account + 1)) { out with username := username }
  | none => domainWords sessionLen cur out

/-- The code it returns, and the arrays. -/
def urlToWords (url : Bytes) (out : Words) : Except Abort (Int × Words) :=
  match strstr (lit "://") url with
  | some schemeLen =>
      if schemeLen > schemeMax then .ok (1, out)
      else do
        -- cur_url - next_separator
        let scheme ← copyWord out.scheme url (-(schemeLen : Int))
        sessionWords (url.drop (schemeLen + 3)) { out with scheme := scheme }
  | none => sessionWords url out

/-! ## `url_to_data` -/

/-- `cstrdup` -/
def cstrdup (str : Bytes) : Bytes := str ++ [0]

/-- `cstrndup`: a block of `len + 1` bytes, the last of them as `malloc` left it. -/
def cstrndup (junk : Byte) (str : Bytes) (len : Int) : Except Abort Bytes :=
  if 0 ≤ len then
    .ok (str.take len.toNat ++ List.replicate (len.toNat - str.length) 0 ++ [junk])
  else .error .outOfBounds

/-- `struct url_data`; a block of the heap, or a NULL pointer. -/
structure UrlData where
  scheme : Option Bytes
  username : Option Bytes
  password : Option Bytes
  domain : Option Bytes
  port : Int
  dir : Option Bytes
  deriving DecidableEq, Repr

def UrlData.zero : UrlData :=
  { scheme := none, username := none, password := none, domain := none, port := 0, dir := none }

/-- The part behind the account. -/
def domainData (junk : Nat → Byte) (sessionLen : Nat) (cur : Bytes) (data : UrlData) :
    Except Abort UrlData :=
  match strstr (lit ":") cur with
  | some colon => do
      let domain ← cstrndup (junk 2) cur colon
      return { data with domain := some domain, port := toInt (strtol 10 (cur.drop (colon + 1))) }
  | none => do
      let domain ← cstrndup (junk 2) cur sessionLen
      return { data with domain := some domain, port := 80 }

/-- The part behind the scheme. -/
def sessionData (junk : Nat → Byte) (cur : Bytes) (data : UrlData) : Except Abort UrlData := do
  let (sessionLen, data) :=
    match strstr (lit "/") cur with
    | some slash => (slash, { data with dir := some (cstrdup (cur.drop slash)) })
    | none => (cur.length, data)
  match strstr (lit "@") cur with
  | some account =>
      match strstr (lit ":") cur with
      | some colon => do
          let username ← cstrndup (junk 0) cur colon
          let password ← cstrndup (junk 1) (cur.drop (colon + 1)) (account - colon - 1)
          domainData junk sessionLen (cur.drop (account + 1))
            { data with username := some username, password := some password }
      | none => do
          let username ← cstrndup (junk 0) cur account
          domainData junk sessionLen (cur.drop (account + 1)) { data with username := some username }
  | none => domainData junk sessionLen cur data

/-- `url_to_data(url, out)` on a zeroed record; `junk` is what the heap holds
    behind the copies.  On a failure the record stays as it was. -/
def urlToData (junk : Nat → Byte) (url : Bytes) : Except Abort (Int × UrlData) :=
  match strstr (lit "://") url with
  | some schemeLen =>
      if schemeLen > schemeMax then .ok (1, .zero)
      else do
        let data ← sessionData junk (url.drop (schemeLen + 3))
          { UrlData.zero with scheme := some (cstrdup (url.take schemeLen)) }
        return (0, data)
  | none => do
      let data ← sessionData junk url .zero
      return (0, data)

end Url
