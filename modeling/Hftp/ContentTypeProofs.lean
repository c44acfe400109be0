import Hftp.HttpMethodProofs

/-! # The content type of an upload

    The head of an upload names the media type that belongs to the extension of the local
    path.  `get_file_extension` compares the last dot with the last slash, so it finds the
    text behind the last dot of the last component, or nothing.

    `find_mime_type` does not take nothing for an answer, and its loop ends where an
    array of two pointers is NULL, which none is: an extension that is not in the table is
    compared with the NULL that closes it. -/

namespace ContentType

open CBytes HttpCore HttpMethod MimeType

/-! ## What the type should be -/

/-- The text behind the last occurrence of a byte; all of it without one. -/
def behindLast (c : Byte) (s : Bytes) : Bytes := (s.reverse.takeWhile (· ≠ c)).reverse

def lastComponent (path : Bytes) : Bytes := behindLast 47 path

/-- The extension of a name without a slash. -/
def extension (name : Bytes) : Option Bytes :=
  if 46 ∈ name then some (behindLast 46 name) else none

/-- The type of the first row with the extension; any type if there is none. -/
def typeOf (ext : Bytes) : Bytes :=
  match gMimeTypes.find? fun row => lit row.1 == ext with
  | some row => lit row.2
  | none => lit "*/*"

def contentType (path : Bytes) : Bytes :=
  match extension (lastComponent path) with
  | some ext => typeOf ext
  | none => lit "*/*"

/-- The code computes the type, and neither its assertion fails nor does it read a row
    that is not there. -/
def Typed (path : Bytes) : Prop := findMimeType (getFileExtension path) = .ok (contentType path)

/-- The last component has an extension, and it is in the table. -/
def InTable (path : Bytes) : Prop :=
  ∃ ext, extension (lastComponent path) = some ext ∧ ∃ row ∈ gMimeTypes, lit row.1 = ext

/-! ## Last occurrences -/

section Last

variable {c : Byte} {pre post s : Bytes}

/-- A string with the byte has a last one. -/
theorem last_split (h : c ∈ s) : ∃ pre post, s = pre ++ c :: post ∧ c ∉ post := by
  obtain ⟨pre, post, hrev, hpre⟩ := List.eq_append_cons_of_mem (List.mem_reverse.mpr h)
  refine ⟨post.reverse, pre.reverse, ?_, fun hm => hpre (List.mem_reverse.mp hm)⟩
  rw [← List.reverse_reverse s, hrev, List.reverse_append, List.reverse_cons, List.append_assoc]
  rfl

/-- `strrchr` finds the last one. -/
theorem strrchr_last (h : c ∉ post) : strrchr c (pre ++ c :: post) = some pre.length := by
  have hrev : (pre ++ c :: post).reverse = post.reverse ++ c :: pre.reverse := by
    rw [List.reverse_append, List.reverse_cons, List.append_assoc]
    rfl
  rw [strrchr, hrev, strchr_front (fun hm => h (List.mem_reverse.mp hm)), Option.map_some,
    List.length_append, List.length_cons, List.length_reverse]
  exact congrArg some (by omega)

/-- Without one it finds nothing. -/
theorem strrchr_absent (h : c ∉ s) : strrchr c s = none := by
  rw [strrchr, strchr_absent (fun hm => h (List.mem_reverse.mp hm))]
  rfl

/-- Behind the last one is what has none. -/
theorem behindLast_split (h : c ∉ post) : behindLast c (pre ++ c :: post) = post := by
  rw [behindLast, List.reverse_append, List.reverse_cons, List.append_assoc]
  show (List.takeWhile (· ≠ c) (post.reverse ++ c :: pre.reverse)).reverse = post
  rw [takeWhile_ne_append (fun hm => h (List.mem_reverse.mp hm)), List.reverse_reverse]

/-- Without one that is the whole string. -/
theorem behindLast_absent (h : c ∉ s) : behindLast c s = s := by
  rw [behindLast, takeWhile_ne_self (fun hm => h (List.mem_reverse.mp hm)), List.reverse_reverse]

end Last

/-! ## The extension -/

/-- A name without a dot has no extension. -/
theorem extension_absent {name : Bytes} (h : (46 : Byte) ∉ name) : extension name = none :=
  if_neg h

/-- The extension is what is behind the last dot. -/
theorem extension_split {pre post : Bytes} (h : (46 : Byte) ∉ post) :
    extension (pre ++ 46 :: post) = some post := by
  rw [extension, if_pos (List.mem_append_right pre List.mem_cons_self), behindLast_split h]

/-- What is behind the last one was in the string. -/
theorem mem_of_behindLast {b c : Byte} {s : Bytes} (h : b ∈ behindLast c s) : b ∈ s :=
  List.mem_reverse.mp ((List.takeWhile_sublist _).mem (List.mem_reverse.mp h))

/-- The code at the last dot. -/
theorem getFileExtension_split {pre post : Bytes} (h : (46 : Byte) ∉ post) :
    getFileExtension (pre ++ 46 :: post) =
      if (strrchr 47 (pre ++ 46 :: post)).any (pre.length < ·) then none else some post := by
  have hdrop : (pre ++ 46 :: post).drop (pre.length + 1) = post := drop_behind pre [46] post
  rw [getFileExtension, strrchr_last h]
  show (if _ then none else some ((pre ++ 46 :: post).drop (pre.length + 1))) = _
  rw [hdrop]

/-- **THE EXTENSION IS FOUND**, in every path: dots in directories, no dot and no slash
    included. -/
theorem getFileExtension_eq (path : Bytes) :
    getFileExtension path = extension (lastComponent path) := by
  by_cases hdot : (46 : Byte) ∈ path
  · obtain ⟨pre, post, rfl, hpost⟩ := last_split hdot
    rw [getFileExtension_split hpost, lastComponent]
    by_cases hbehind : (47 : Byte) ∈ post
    · -- the last slash is behind the last dot
      obtain ⟨dir, name, rfl, hname⟩ := last_split hbehind
      have hpath : pre ++ 46 :: (dir ++ 47 :: name) = (pre ++ 46 :: dir) ++ 47 :: name := by
        rw [List.append_assoc]
        rfl
      have hlater : pre.length < (pre ++ 46 :: dir).length := by
        rw [List.length_append, List.length_cons]
        omega
      have hnone : (46 : Byte) ∉ name := fun hm =>
        hpost (List.mem_append_right dir (List.mem_cons_of_mem 47 hm))
      rw [hpath, strrchr_last hname, behindLast_split hname, extension_absent hnone]
      exact if_pos (decide_eq_true hlater)
    · have hfree : ∀ {s : Bytes}, (47 : Byte) ∉ s → (47 : Byte) ∉ s ++ 46 :: post := by
        intro s hs hm
        rcases List.mem_append.mp hm with hm | hm
        · exact hs hm
        · exact hbehind ((List.mem_cons.mp hm).resolve_left (by decide))
      by_cases hbefore : (47 : Byte) ∈ pre
      · obtain ⟨dir, name, rfl, hname⟩ := last_split hbefore
        have hslash := hfree hname
        have hearlier : ¬ (dir ++ 47 :: name).length < dir.length := by
          rw [List.length_append]
          omega
        have hpath : dir ++ 47 :: name ++ 46 :: post = dir ++ 47 :: (name ++ 46 :: post) :=
          List.append_assoc ..
        rw [hpath, behindLast_split hslash, extension_split hpost, strrchr_last hslash]
        exact if_neg (fun h => hearlier (of_decide_eq_true h))
      · have hslash := hfree hbefore
        rw [behindLast_absent hslash, extension_split hpost, strrchr_absent hslash]
        rfl
  · rw [getFileExtension, strrchr_absent hdot, lastComponent,
      extension_absent (fun hm => hdot (mem_of_behindLast hm))]

/-! ## The type -/

/-- The type of an extension that is in the table is found. -/
theorem found_of_inTable {path : Bytes} (h : InTable path) :
    findMimeType (getFileExtension path) = .ok (contentType path) := by
  obtain ⟨ext, hext, row, hrow, hname⟩ := h
  rw [getFileExtension_eq, contentType, hext]
  show findMimeType (some ext) = .ok (typeOf ext)
  rw [findMimeType, typeOf]
  cases hfind : gMimeTypes.find? fun row => lit row.1 == ext with
  | none => exact absurd (beq_iff_eq.mpr hname) (List.find?_eq_none.mp hfind row hrow)
  | some first => rfl

/-- Only such a type is found. -/
theorem inTable_of_found {path mimeType : Bytes}
    (h : findMimeType (getFileExtension path) = .ok mimeType) : InTable path := by
  rw [getFileExtension_eq] at h
  cases hext : extension (lastComponent path) with
  | none =>
      rw [hext] at h
      cases h
  | some ext =>
      rw [hext, findMimeType] at h
      cases hfind : gMimeTypes.find? fun row => lit row.1 == ext with
      | none =>
          rw [hfind] at h
          cases h
      | some row =>
          have hname := List.find?_some hfind
          exact ⟨ext, hext, row, List.mem_of_find?_eq_some hfind, beq_iff_eq.mp hname⟩

/-- **A PATH GETS ITS CONTENT TYPE** exactly if its last component has an extension that
    is in the table. -/
theorem typed_iff (path : Bytes) : Typed path ↔ InTable path := by
  constructor
  · intro h
    exact inTable_of_found h
  · intro h
    exact found_of_inTable h

/-- `put h/a README`: the assertion fails. -/
theorem not_typed_noExtension : ¬ Typed (lit "README") := by
  intro h
  have hnone : getFileExtension (lit "README") = none := by decide
  rw [Typed, hnone] at h
  cases h

end ContentType
