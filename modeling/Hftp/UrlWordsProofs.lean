import Hftp.UrlProofs

/-! # What `url_to_words` writes

    The function is three steps on what follows the scheme: the path is copied,
    then the account, then the domain.  Each copy takes a number of bytes found by
    a search of its own, and fits its array exactly if that number is smaller than
    the array.  What is left in the array is then known, whatever was there. -/

namespace UrlWords

open CBytes HttpCore Url

/-! ## One copy -/

/-- An array after `n` bytes of a string and a NUL were put into it. -/
def copied (d src : Bytes) (n : Nat) : Bytes :=
  src.take n ++ List.replicate (n - src.length) 0 ++ 0 :: d.drop (n + 1)

/-- **A COPY** fits exactly if its terminator does. -/
theorem copyWord_eq (d src : Bytes) (n : Nat) :
    copyWord (some d) src n =
      if n < d.length then .ok (some (copied d src n)) else .error .outOfBounds := by
  rw [copyWord, strncpy, Int.toNat_natCast]
  by_cases hle : n ≤ d.length
  · rw [if_pos ⟨Int.natCast_nonneg n, hle⟩]
    have hfront : (src.take n ++ List.replicate (n - src.length) (0 : Byte)).length = n := by
      rw [List.length_append, List.length_take, List.length_replicate]
      omega
    have hlen : (src.take n ++ List.replicate (n - src.length) 0 ++ d.drop n).length =
        d.length := by
      rw [List.length_append, hfront, List.length_drop]
      omega
    show (do let d ← setByte _ (n : Int) 0; return some d) = _
    rw [setByte, Int.toNat_natCast, hlen]
    by_cases hlt : n < d.length
    · rw [if_pos ⟨Int.natCast_nonneg n, hlt⟩, if_pos hlt]
      show Except.ok (some _) = _
      rw [List.set_append_right n (0 : Byte) (by rw [hfront]), hfront, Nat.sub_self,
        List.drop_eq_getElem_cons hlt]
      rfl
    · rw [if_neg (fun h => hlt h.2), if_neg hlt]
      rfl
  · rw [if_neg (fun h => hle h.2), if_neg (fun h => hle (Nat.le_of_lt h))]
    rfl

/-- A copy into an array that is large enough, if there is one. -/
theorem copyWord_fits {cell : Option Bytes} {src : Bytes} {n : Nat}
    (h : ∀ d, cell = some d → n < d.length) :
    copyWord cell src n = .ok (cell.map fun d => copied d src n) := by
  cases cell with
  | none => rfl
  | some d =>
      rw [copyWord_eq, if_pos (h d rfl)]
      rfl

/-- A negative number of bytes is a very large one. -/
theorem copyWord_negative (d src : Bytes) {n : Int} (hn : n < 0) :
    copyWord (some d) src n = .error .outOfBounds := by
  rw [copyWord, strncpy, if_neg (fun h => absurd hn (Int.not_lt.mpr h.1))]
  rfl

/-- The array reads as the bytes that were copied, or as the whole string if it was
    shorter. -/
theorem untilNul_copied {d src : Bytes} {n : Nat} (hnul : (0 : Byte) ∉ src) :
    untilNul (copied d src n) = some (src.take n) := by
  have htake : (0 : Byte) ∉ src.take n := fun h => hnul (List.mem_of_mem_take h)
  rw [copied, List.append_assoc]
  cases n - src.length with
  | zero => exact untilNul_append htake _
  | succ k =>
      rw [List.replicate_succ, List.cons_append]
      exact untilNul_append htake _

/-! ## The three steps -/

/-- `if (next_separator)`: the path is copied. -/
def dirWords (cur : Bytes) (out : Words) : Except Abort Words :=
  match strstr (lit "/") cur with
  | some slash => do
      let dir ← copyWord out.dir (cur.drop slash) slash
      return { out with dir := dir }
  | none => return out

/-- `if (account_separator)`, without what follows it. -/
def accountWords (cur : Bytes) (out : Words) : Except Abort Words :=
  match strstr (lit "@") cur with
  | some account =>
      match strstr (lit ":") cur with
      | some colon => do
          let username ← copyWord out.username cur colon
          let password ← copyWord out.password (cur.drop (colon + 1)) (account - colon - 1)
          return { out with username := username, password := password }
      | none => do
          let username ← out.username.mapM fun d => strncpy d cur account
          return { out with username := username }
  | none => return out

/-- `session_len` -/
def sessionLen (cur : Bytes) : Nat := (strstr (lit "/") cur).getD cur.length

/-- `cur_url = account_separator + 1` -/
def behindAccount (cur : Bytes) : Bytes :=
  match strstr (lit "@") cur with
  | some account => cur.drop (account + 1)
  | none => cur

/-- The account and then the domain. -/
theorem account_domain (s : Nat) (cur : Bytes) (out : Words) :
    (match strstr (lit "@") cur with
      | some account =>
          match strstr (lit ":") cur with
          | some colon => do
              let username ← copyWord out.username cur colon
              let password ← copyWord out.password (cur.drop (colon + 1)) (account - colon - 1)
              domainWords s (cur.drop (account + 1))
                { out with username := username, password := password }
          | none => do
              let username ← out.username.mapM fun d => strncpy d cur account
              domainWords s (cur.drop (account + 1)) { out with username := username }
      | none => domainWords s cur out) =
      (do
        let out ← accountWords cur out
        domainWords s (behindAccount cur) out) := by
  rw [accountWords, behindAccount]
  cases strstr (lit "@") cur with
  | none => rfl
  | some account =>
      cases strstr (lit ":") cur with
      | none =>
          dsimp only
          cases out.username.mapM fun d => strncpy d cur account with
          | error e => rfl
          | ok username => rfl
      | some colon =>
          dsimp only
          cases copyWord out.username cur colon with
          | error e => rfl
          | ok username =>
              cases copyWord out.password (cur.drop (colon + 1)) (account - colon - 1) with
              | error e => rfl
              | ok password => rfl

/-- The steps one after the other. -/
theorem sessionWords_eq (cur : Bytes) (out : Words) :
    sessionWords cur out = (do
      let out ← dirWords cur out
      let out ← accountWords cur out
      domainWords (sessionLen cur) (behindAccount cur) out) := by
  rw [sessionWords, dirWords, sessionLen]
  cases strstr (lit "/") cur with
  | none => exact account_domain cur.length cur out
  | some slash =>
      dsimp only
      cases copyWord out.dir (cur.drop slash) slash with
      | error e => rfl
      | ok dir => exact account_domain slash cur { out with dir := dir }

/-- The account is copied into arrays of its own. -/
theorem accountWords_keeps {cur : Bytes} {out out' : Words} (h : accountWords cur out = .ok out') :
    out'.scheme = out.scheme ∧ out'.domain = out.domain ∧ out'.port = out.port ∧
      out'.dir = out.dir := by
  rw [accountWords] at h
  cases hsign : strstr (lit "@") cur with
  | none =>
      rw [hsign] at h
      obtain rfl := Except.ok.inj h
      exact ⟨rfl, rfl, rfl, rfl⟩
  | some account =>
      rw [hsign] at h
      cases hcolon : strstr (lit ":") cur with
      | none =>
          rw [hcolon] at h
          dsimp only at h
          cases hname : out.username.mapM fun d => strncpy d cur account with
          | error e =>
              rw [hname] at h
              cases h
          | ok username =>
              rw [hname] at h
              obtain rfl := Except.ok.inj h
              exact ⟨rfl, rfl, rfl, rfl⟩
      | some colon =>
          rw [hcolon] at h
          dsimp only at h
          cases hname : copyWord out.username cur colon with
          | error e =>
              rw [hname] at h
              cases h
          | ok username =>
              rw [hname] at h
              cases hword : copyWord out.password (cur.drop (colon + 1))
                  (account - colon - 1) with
              | error e =>
                  simp only [hword, bind, Except.bind] at h
                  cases h
              | ok password =>
                  simp only [hword, bind, Except.bind] at h
                  obtain rfl := Except.ok.inj h
                  exact ⟨rfl, rfl, rfl, rfl⟩

/-! ## The domain -/

/-- How many bytes the domain has. -/
def domainLen (s : Nat) (cur : Bytes) : Nat := (strstr (lit ":") cur).getD s

/-- The port that is read. -/
def portOf (cur : Bytes) : Nat :=
  match strstr (lit ":") cur with
  | some colon => (strtol 10 (cur.drop (colon + 1)) % 2 ^ 16).toNat
  | none => 80

/-- **THE DOMAIN** fits exactly if it is shorter than its array. -/
theorem domainWords_eq (s : Nat) (cur : Bytes) {out : Words} {d : Bytes} {q : Nat}
    (hdomain : out.domain = some d) (hport : out.port = some q) :
    domainWords s cur out =
      if domainLen s cur < d.length then
        .ok (0, { out with domain := some (copied d cur (domainLen s cur)),
                           port := some (portOf cur) })
      else .error .outOfBounds := by
  rw [domainWords, domainLen, portOf, hdomain, hport]
  cases strstr (lit ":") cur with
  | none =>
      dsimp only [Option.getD]
      rw [copyWord_eq]
      by_cases hlt : s < d.length
      · rw [if_pos hlt, if_pos hlt]
        rfl
      · rw [if_neg hlt, if_neg hlt]
        rfl
  | some colon =>
      dsimp only [Option.getD]
      rw [copyWord_eq]
      by_cases hlt : colon < d.length
      · rw [if_pos hlt, if_pos hlt]
        rfl
      · rw [if_neg hlt, if_neg hlt]
        rfl

end UrlWords
