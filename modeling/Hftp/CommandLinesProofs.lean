import Hftp.SingleCommandProofs

/-! # Command lines

    `interprete_multiple_commands` walks over a text with a cursor.  Each round looks
    for both separators, a semicolon and a newline, overwrites the nearer one with a NUL
    and hands what lies before it to `interprete_single_command`, which writes into the
    same text: `strtok` ends its tokens there.

    The rounds are an induction over the text.  What carries it is that the callee
    stays within the string it was given, so what the cursor has not reached is still
    what it was. -/

namespace CommandLines

open CBytes HttpCore SingleCommand

/-! ## The code -/

/-- `is_empty_string` -/
def isEmptyString (str : Bytes) : Bool :=
  str.foldl (fun empty b => if b ≠ 32 ∧ b ≠ 10 ∧ b ≠ 13 then false else empty) true

/-- The string at a pointer; there may be none. -/
def readStr (mem : Bytes) (p : Nat) : Except Abort Bytes :=
  match cstr mem p with
  | some str => .ok str
  | none => .error .outOfBounds

/-- A function that is given a string, as its caller knows it: it returns a code and
    may write whatever it likes over the bytes of the string, but nowhere else. -/
structure Single (σ : Type) where
  run : Bytes → Nat → σ → Int × Bytes × σ
  confined : ∀ {mem : Bytes} {p : Nat} {str : Bytes} (world : σ), cstr mem p = some str →
    ∃ str', str'.length = str.length ∧ (run mem p world).2.1 = store mem p str'

/-- The strings that were handed over, and what is left. -/
structure Outcome (σ : Type) where
  calls : List Bytes
  mem : Bytes
  world : σ

/-- The nearer separator is overwritten; the other one is forgotten. -/
def cut (mem : Bytes) (cursor : Nat) (str : Bytes) : Bytes × Option Nat × Option Nat :=
  let semi := (strchr 59 str).map (cursor + ·)
  let lineend := (strchr 10 str).map (cursor + ·)
  match semi, lineend with
  | some semi, none => (mem.set semi 0, some semi, none)
  | none, some lineend => (mem.set lineend 0, none, some lineend)
  | some semi, some lineend =>
      if semi < lineend then (mem.set semi 0, some semi, none)
      else (mem.set lineend 0, none, some lineend)
  | none, none => (mem, none, none)

/-- Where the next round starts; there may be none. -/
def nextCursor : Option Nat → Option Nat → Option Nat
  | some semi, _ => some (semi + 1)
  | none, some lineend => some (lineend + 1)
  | none, none => none

variable {σ : Type}

/-- What the callee does besides writing depends on the string alone. -/
def Effect (single : Single σ) (effect : Bytes → σ → σ) : Prop :=
  ∀ (mem : Bytes) (p : Nat) (str : Bytes) (world : σ), cstr mem p = some str →
    (single.run mem p world).2.2 = effect str world

/-- `if (!is_empty_string(cursor)) interprete_single_command(cursor);` -/
def handOver (single : Single σ) (mem : Bytes) (cursor : Nat) (segment : Bytes) (world : σ) :
    Outcome σ :=
  if isEmptyString segment then { calls := [], mem := mem, world := world }
  else
    let (_, mem, world) := single.run mem cursor world
    { calls := [segment], mem := mem, world := world }

/-- `interprete_multiple_commands`, round after round -/
def interpreteMultipleCommands (single : Single σ) :
    Nat → Bytes → Nat → σ → Except Abort (Outcome σ)
  | 0, _, _, _ => .error .diverges
  | rounds + 1, mem, cursor, world => do
      let str ← readStr mem cursor
      let (mem, semi, lineend) := cut mem cursor str
      let segment ← readStr mem cursor
      let this := handOver single mem cursor segment world
      match nextCursor semi lineend with
      | none => return this
      | some cursor =>
          let rest ← interpreteMultipleCommands single rounds this.mem cursor this.world
          return { rest with calls := this.calls ++ rest.calls }

/-! ## The commands of a text -/

/-- What separates two commands. -/
def isSeparator (b : Byte) : Bool := b = 59 ∨ b = 10

/-- A segment that is worth a command. -/
def isCommand (segment : Bytes) : Bool := segment.any fun b => b ≠ 32 ∧ b ≠ 13 ∧ b ≠ 10

/-- The segments between the separators that are worth a command. -/
def commandsOf (s : Bytes) : List Bytes := (s.splitOnP isSeparator).filter isCommand

/-- A string is empty exactly if it is no command. -/
theorem isEmptyString_eq (str : Bytes) : isEmptyString str = !isCommand str := by
  have hgo : ∀ (s : Bytes) (empty : Bool),
      s.foldl (fun empty b => if b ≠ 32 ∧ b ≠ 10 ∧ b ≠ 13 then false else empty) empty =
        (empty && !isCommand s) := by
    intro s
    induction s with
    | nil =>
        intro empty
        exact (Bool.and_true empty).symm
    | cons b bs ih =>
        intro empty
        rw [List.foldl_cons, ih]
        show _ = (empty && !(decide (b ≠ 32 ∧ b ≠ 13 ∧ b ≠ 10) || isCommand bs))
        by_cases hb : b ≠ 32 ∧ b ≠ 10 ∧ b ≠ 13
        · have hb' : b ≠ 32 ∧ b ≠ 13 ∧ b ≠ 10 := ⟨hb.1, hb.2.2, hb.2.1⟩
          rw [if_pos hb, decide_eq_true hb', Bool.true_or, Bool.not_true, Bool.and_false,
            Bool.false_and]
        · have hb' : ¬ (b ≠ 32 ∧ b ≠ 13 ∧ b ≠ 10) := fun h => hb ⟨h.1, h.2.2, h.2.1⟩
          rw [if_neg hb, decide_eq_false hb', Bool.false_or]
  exact (hgo str true).trans (Bool.true_and _)

/-- A text has no separator, or a first one. -/
theorem first_separator (s : Bytes) :
    (∀ b ∈ s, isSeparator b = false) ∨
      ∃ segment sep rest, s = segment ++ sep :: rest ∧ isSeparator sep = true ∧
        ∀ b ∈ segment, isSeparator b = false := by
  induction s with
  | nil => exact Or.inl (by rintro _ ⟨⟩)
  | cons b bs ih =>
      cases hb : isSeparator b with
      | true => exact Or.inr ⟨[], b, bs, rfl, hb, by rintro _ ⟨⟩⟩
      | false =>
          rcases ih with hnone | ⟨segment, sep, rest, rfl, hsep, hsegment⟩
          · exact Or.inl (List.forall_mem_cons.mpr ⟨hb, hnone⟩)
          · exact Or.inr ⟨b :: segment, sep, rest, rfl, hsep,
              List.forall_mem_cons.mpr ⟨hb, hsegment⟩⟩

/-- Without a separator there is one segment. -/
theorem commandsOf_last {s : Bytes} (h : ∀ b ∈ s, isSeparator b = false) :
    commandsOf s = [s].filter isCommand := by
  rw [commandsOf, List.splitOnP_eq_singleton h]

/-- The first separator ends the first segment. -/
theorem commandsOf_first {segment rest : Bytes} {sep : Byte} (hsep : isSeparator sep = true)
    (h : ∀ b ∈ segment, isSeparator b = false) :
    commandsOf (segment ++ sep :: rest) = [segment].filter isCommand ++ commandsOf rest := by
  rw [commandsOf, List.splitOnP_append_cons_of_forall_mem h sep hsep, ← List.singleton_append,
    List.filter_append, commandsOf]

/-! ## One round -/

section Round

variable {mem : Bytes} {cursor : Nat}

/-- A segment has neither a semicolon nor a newline. -/
theorem separator_absent {s : Bytes} (h : ∀ b ∈ s, isSeparator b = false) :
    (59 : Byte) ∉ s ∧ (10 : Byte) ∉ s :=
  ⟨fun hm => Bool.noConfusion (h _ hm), fun hm => Bool.noConfusion (h _ hm)⟩

/-- Without a separator nothing is cut. -/
theorem cut_last {s : Bytes} (h : ∀ b ∈ s, isSeparator b = false) :
    cut mem cursor s = (mem, none, none) := by
  obtain ⟨hsemi, hlineend⟩ := separator_absent h
  rw [cut, strchr_absent hsemi, strchr_absent hlineend]
  rfl

/-- The text is cut at its first separator, whichever it is and whatever follows. -/
theorem cut_first (mem : Bytes) (cursor : Nat) {segment : Bytes} {sep : Byte} (rest : Bytes)
    (hsep : isSeparator sep = true) (h : ∀ b ∈ segment, isSeparator b = false) :
    ∃ semi lineend, cut mem cursor (segment ++ sep :: rest) =
        (mem.set (cursor + segment.length) 0, semi, lineend) ∧
      nextCursor semi lineend = some (cursor + segment.length + 1) := by
  obtain ⟨hsemi, hlineend⟩ := separator_absent h
  have hbyte : sep = 59 ∨ sep = 10 := of_decide_eq_true hsep
  rcases hbyte with rfl | rfl
  · have hother : strchr 10 (segment ++ 59 :: rest) =
        (strchr 10 (59 :: rest)).map (segment.length + ·) := strchr_skip hlineend _
    rw [cut, strchr_front hsemi, hother, strchr, if_neg (by decide)]
    cases strchr 10 rest with
    | none => exact ⟨_, _, rfl, rfl⟩
    | some k =>
        -- the newline lies behind the semicolon
        have hlt : cursor + segment.length < cursor + (segment.length + (k + 1)) := by omega
        exact ⟨_, _, if_pos hlt, rfl⟩
  · have hother : strchr 59 (segment ++ 10 :: rest) =
        (strchr 59 (10 :: rest)).map (segment.length + ·) := strchr_skip hsemi _
    rw [cut, strchr_front hlineend, hother, strchr, if_neg (by decide)]
    cases strchr 59 rest with
    | none => exact ⟨_, _, rfl, rfl⟩
    | some k =>
        have hnot : ¬ cursor + (segment.length + (k + 1)) < cursor + segment.length := by omega
        exact ⟨_, _, if_neg hnot, rfl⟩

/-- What follows a byte of a string. -/
theorem cstr_behind {pre post : Bytes} {b : Byte} (h : cstr mem cursor = some (pre ++ b :: post)) :
    cstr mem (cursor + pre.length + 1) = some post := by
  obtain ⟨rest, hdrop, hnul⟩ := untilNul_split h
  have hpost : (0 : Byte) ∉ post := fun hm =>
    hnul (List.mem_append_right pre (List.mem_cons_of_mem b hm))
  have hbehind : mem.drop (cursor + pre.length + 1) = post ++ 0 :: rest := by
    rw [Nat.add_assoc, ← List.drop_drop, hdrop, List.append_assoc, List.cons_append]
    exact drop_behind pre [b] _
  rw [cstr, hbehind]
  exact untilNul_append hpost rest

variable {σ : Type} (single : Single σ)

/-- A string that is there can be read. -/
theorem readStr_ok {s : Bytes} (h : cstr mem cursor = some s) : readStr mem cursor = .ok s := by
  rw [readStr, h]

/-- What a call leaves alone. -/
theorem store_frame {s str' : Bytes} (h : cstr mem cursor = some s)
    (hlen : str'.length = s.length) :
    (store mem cursor str').take cursor = mem.take cursor ∧
      (store mem cursor str').drop (cursor + s.length) = mem.drop (cursor + s.length) := by
  obtain ⟨rest, hdrop, -⟩ := untilNul_split h
  have hlt : cursor ≤ mem.length := by
    have hl := congrArg List.length hdrop
    rw [List.length_drop, List.length_append, List.length_cons] at hl
    omega
  have htake : (mem.take cursor).length = cursor := List.length_take_of_le hlt
  have hboth : (mem.take cursor ++ str').length = cursor + s.length := by
    rw [List.length_append, htake, hlen]
  constructor
  · rw [store, List.append_assoc]
    exact List.take_left' htake
  · rw [store, hlen]
    exact List.drop_left' hboth

/-- The segment is handed over if it is worth it, and whatever the callee does, the
    text before and behind the segment stays as it is. -/
theorem handOver_spec {segment : Bytes} (h : cstr mem cursor = some segment) (world : σ) :
    (handOver single mem cursor segment world).calls = [segment].filter isCommand ∧
      (handOver single mem cursor segment world).mem.take cursor = mem.take cursor ∧
      (handOver single mem cursor segment world).mem.drop (cursor + segment.length) =
        mem.drop (cursor + segment.length) := by
  rw [handOver, isEmptyString_eq]
  cases hcommand : isCommand segment with
  | false =>
      refine ⟨?_, rfl, rfl⟩
      rw [List.filter_cons, hcommand]
      rfl
  | true =>
      obtain ⟨str', hlen, hmem⟩ := single.confined world h
      obtain ⟨htake, hdrop⟩ := store_frame h hlen
      refine ⟨?_, ?_, ?_⟩
      · rw [List.filter_cons, hcommand]
        rfl
      · show (single.run mem cursor world).2.1.take cursor = _
        rw [hmem, htake]
      · show (single.run mem cursor world).2.1.drop (cursor + segment.length) = _
        rw [hmem, hdrop]

/-- Handing a segment over has the effect of the command, if it is one. -/
theorem handOver_world {effect : Bytes → σ → σ} (heffect : Effect single effect)
    {segment : Bytes} (h : cstr mem cursor = some segment) (world : σ) :
    (handOver single mem cursor segment world).world =
      ([segment].filter isCommand).foldl (fun w command => effect command w) world := by
  rw [handOver, isEmptyString_eq, List.filter_cons]
  cases hcommand : isCommand segment with
  | false => rfl
  | true => exact heffect mem cursor segment world h

end Round

/-! ## The callee of the program -/

section Tokens

/-- What `strtok(str, " ")`, called until it returns NULL, leaves of a string: the blank
    behind each token is overwritten. -/
def endTokens : Bool → Bytes → Bytes
  | _, [] => []
  | inToken, b :: bs =>
      if b = 32 then (if inToken then 0 else 32) :: endTokens false bs
      else b :: endTokens true bs

/-- The tokens are ended in place. -/
theorem endTokens_length (inToken : Bool) (str : Bytes) :
    (endTokens inToken str).length = str.length := by
  induction str generalizing inToken with
  | nil => rfl
  | cons b bs ih =>
      rw [endTokens]
      split
      · rw [List.length_cons, ih, List.length_cons]
      · rw [List.length_cons, ih, List.length_cons]

variable {σ : Type}

/-- A function that takes its string apart with `strtok`, whatever else it does. -/
def tokenizing (act : Bytes → σ → Int × σ) : Single σ where
  run mem p world :=
    match cstr mem p with
    | some str => ((act str world).1, store mem p (endTokens false str), (act str world).2)
    | none => (0, mem, world)
  confined := by
    intro mem p str world h
    refine ⟨endTokens false str, endTokens_length false str, ?_⟩
    rw [h]

/-- A callee that ends tokens and acts on the string has that act for its effect. -/
theorem tokenizing_effect (act : Bytes → σ → Int × σ) :
    Effect (tokenizing act) fun str world => (act str world).2 := by
  intro mem p str world h
  simp only [tokenizing, h]

/-- `interprete_single_command`, call after call: the system answers and the stack holds
    something else each time.  Behind a call that aborts there is no other. -/
def execute (net : Nat → Net) (stack : Nat → Stack) (str : Bytes) :
    Nat × Except Abort Globals → Int × Nat × Except Abort Globals
  | (n, .error abort) => (0, n, .error abort)
  | (n, .ok g) =>
      match interpreteSingleCommand (net n) str (stack n) g with
      | .ok (code, g) => (code, n + 1, .ok g)
      | .error abort => (0, n, .error abort)

end Tokens

/-! ## All rounds -/

section Rounds

variable {σ : Type} (single : Single σ)

/-- What agrees from one place on agrees from any later one. -/
theorem drop_of_drop {mem mem' : Bytes} {i j : Nat} (h : mem'.drop i = mem.drop i) (hij : i ≤ j) :
    mem'.drop j = mem.drop j := by
  obtain ⟨k, rfl⟩ := Nat.exists_eq_add_of_le hij
  rw [← List.drop_drop, h, List.drop_drop]

/-- What agrees up to one place agrees up to any earlier one. -/
theorem take_of_take {mem mem' : Bytes} {i j : Nat} (h : mem'.take j = mem.take j) (hij : i ≤ j) :
    mem'.take i = mem.take i := by
  have htake := congrArg (List.take i) h
  rwa [List.take_take, List.take_take, Nat.min_eq_left hij] at htake

/-- One round more than the text has bytes is enough for all of them. -/
theorem rounds_calls : ∀ {rounds : Nat} {s mem : Bytes} {cursor : Nat} (world : σ),
    s.length < rounds → cstr mem cursor = some s →
      ∃ out, interpreteMultipleCommands single rounds mem cursor world = .ok out ∧
        out.calls = commandsOf s ∧ out.mem.take cursor = mem.take cursor ∧
        out.mem.drop (cursor + s.length) = mem.drop (cursor + s.length) ∧
        ∀ effect, Effect single effect →
          out.world = (commandsOf s).foldl (fun w command => effect command w) world := by
  intro rounds
  induction rounds with
  | zero =>
      intro s mem cursor world hlt _
      exact absurd hlt (Nat.not_lt_zero _)
  | succ rounds ih =>
      intro s mem cursor world hlt hs
      rcases first_separator s with hnone | ⟨segment, sep, rest, rfl, hsep, hsegment⟩
      · obtain ⟨hcalls, htake, hdrop⟩ := handOver_spec single hs world
        refine ⟨handOver single mem cursor s world, ?_, ?_, htake, hdrop, ?_⟩
        · rw [interpreteMultipleCommands, readStr_ok hs]
          simp only [bind, Except.bind, cut_last hnone, readStr_ok hs, nextCursor]
          rfl
        · rw [hcalls, commandsOf_last hnone]
        · intro effect heffect
          rw [handOver_world single heffect hs, commandsOf_last hnone]
      · obtain ⟨semi, lineend, hcut, hnext⟩ := cut_first mem cursor rest hsep hsegment
        have hread := cstr_set_nul hs
        obtain ⟨hcalls, htake, hdrop⟩ := handOver_spec single hread world
        have hworld := fun (effect : Bytes → σ → σ) (heffect : Effect single effect) =>
          handOver_world single heffect hread world
        generalize hthis : handOver single (mem.set (cursor + segment.length) 0) cursor segment
          world = this at hcalls htake hdrop hworld
        -- the bytes behind the separator are still what they were
        have hbehind : this.mem.drop (cursor + segment.length + 1) =
            mem.drop (cursor + segment.length + 1) := by
          rw [drop_of_drop hdrop (Nat.le_succ _), List.drop_set, if_pos (Nat.lt_succ_self _)]
        have hrest : cstr this.mem (cursor + segment.length + 1) = some rest := by
          rw [cstr, hbehind]
          exact cstr_behind hs
        have hshort : rest.length < rounds := by
          rw [List.length_append, List.length_cons] at hlt
          omega
        obtain ⟨out, hrun, houts, houttake, houtdrop, houtworld⟩ := ih this.world hshort hrest
        refine ⟨{ out with calls := this.calls ++ out.calls }, ?_, ?_, ?_, ?_, ?_⟩
        · rw [interpreteMultipleCommands, readStr_ok hs]
          simp only [bind, Except.bind, hcut, readStr_ok hread, hnext, hthis, hrun]
          rfl
        · show this.calls ++ out.calls = _
          rw [hcalls, houts, commandsOf_first hsep hsegment]
        · show out.mem.take cursor = mem.take cursor
          rw [take_of_take houttake (by omega), htake, List.take_set_of_le (by omega)]
        · show out.mem.drop (cursor + (segment ++ sep :: rest).length) = _
          have hend : cursor + (segment ++ sep :: rest).length =
              cursor + segment.length + 1 + rest.length := by
            rw [List.length_append, List.length_cons]
            omega
          rw [hend, houtdrop, drop_of_drop hbehind (Nat.le_add_right _ _)]
        · intro effect heffect
          show out.world = _
          rw [houtworld effect heffect, hworld effect heffect, commandsOf_first hsep hsegment,
            List.foldl_append]

/-- **COMMAND LINES ARE SPLIT EXACTLY**: of every text the segments between the
    separators are handed over, each one once and in order, unless there is nothing
    but blanks in them; whatever the callee does to them and whatever it returns.  What
    is done in all is what the callee does with one after the other. -/
theorem calls_commandsOf {mem s : Bytes} {p : Nat} (hs : cstr mem p = some s) (world : σ)
    {rounds : Nat} (hrounds : s.length < rounds) :
    ∃ out, interpreteMultipleCommands single rounds mem p world = .ok out ∧
      out.calls = commandsOf s ∧ out.mem.take p = mem.take p ∧
      out.mem.drop (p + s.length) = mem.drop (p + s.length) ∧
      ∀ effect, Effect single effect →
        out.world = (commandsOf s).foldl (fun w command => effect command w) world := by
  exact rounds_calls single world hrounds hs

end Rounds

/-- The first line of the two holds an empty command; the callee takes each string apart
    and rejects it. -/
theorem calls_commandsOf_twoLines :
    ∃ out, interpreteMultipleCommands (tokenizing fun _ (seen : Nat) => (1, seen + 1)) 24
        (lit "get h/a f; ;\nput h/b" ++ [0]) 0 0 = .ok out ∧
      out.calls = [lit "get h/a f", lit "put h/b"] ∧ out.world = 2 := by
  have htext : cstr (lit "get h/a f; ;\nput h/b" ++ [0]) 0 =
      some (lit "get h/a f; ;\nput h/b") := by decide
  have hrounds : (lit "get h/a f; ;\nput h/b").length < 24 := by decide
  obtain ⟨out, hrun, hcalls, -, -, hworld⟩ :=
    calls_commandsOf (tokenizing fun _ (seen : Nat) => (1, seen + 1)) htext 0 hrounds
  refine ⟨out, hrun, hcalls.trans (by decide), ?_⟩
  exact (hworld _ (tokenizing_effect fun _ (seen : Nat) => (1, seen + 1))).trans (by decide)

end CommandLines
