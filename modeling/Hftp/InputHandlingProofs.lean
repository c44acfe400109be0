import Hftp.CommandLinesProofs

/-! # Lines of input

    `input_handling` takes bytes of the standard input into `g_input_buffer` up to a
    newline or the end of the file, ends the line with a NUL and hands it over.  An empty
    line is passed over.

    The end of the file is stored like a byte, and the NUL goes one place further to the
    front then: over the last byte of the line.  Behind the end of the file there is
    nothing but the end of the file, so a call that finds no line is in its loop for
    ever.  And nothing asks how long a line is. -/

namespace InputHandling

open CBytes HttpCore CommandLines

/-! ## The code -/

/-- `INPUT_BUFFER_COUNT` -/
def inputBufferCount : Nat := 4096

def eof : Int := -1

/-- `g_input_buffer` and what lies around it, by index, with the indices that were
    written to. -/
structure Buffer where
  bytes : Int → Byte
  written : List Int

def Buffer.put (buf : Buffer) (i : Int) (b : Byte) : Buffer :=
  { bytes := Function.update buf.bytes i b, written := i :: buf.written }

/-- The first bytes of the buffer. -/
def Buffer.window (buf : Buffer) (n : Nat) : Bytes := (List.range n).map fun i : Nat => buf.bytes i

/-- What another function leaves of the first bytes. -/
def Buffer.overwrite (buf : Buffer) (mem : Bytes) : Buffer :=
  { buf with bytes := fun i => if 0 ≤ i then mem.getD i.toNat (buf.bytes i) else buf.bytes i }

/-- `strcmp(g_input_buffer, "quit") == 0` -/
def Buffer.isQuit (buf : Buffer) : Bool := buf.window 5 = lit "quit" ++ [0]

/-- What the inner loop leaves: the last result of `fgetc`, `input_count`, the buffer
    and the rest of the standard input. -/
structure Line where
  last : Int
  inputCount : Nat
  buffer : Buffer
  stdin : Bytes

/-- `do .. while (in != '\n' && in != EOF)`: at the end of the file `fgetc` returns EOF,
    which is the byte 255 when it is stored. -/
def takeLine : Bytes → Nat → Buffer → Line
  | [], inputCount, buf =>
      { last := eof, inputCount := inputCount + 1, buffer := buf.put inputCount 255, stdin := [] }
  | b :: stdin, inputCount, buf =>
      let buf := buf.put inputCount b
      if b = 10 then { last := 10, inputCount := inputCount + 1, buffer := buf, stdin := stdin }
      else takeLine stdin (inputCount + 1) buf

/-- The NUL behind the line. -/
def Line.terminated (line : Line) : Buffer :=
  if line.last = 10 then line.buffer.put ((line.inputCount : Int) - 1) 0
  else if line.last = eof then line.buffer.put ((line.inputCount : Int) - 2) 0
  else line.buffer

/-- What a call has come to. -/
structure Run (σ : Type) where
  returned : Bool
  quit : Bool
  handed : List Bytes
  calls : List Bytes
  stdin : Bytes
  buffer : Buffer
  world : σ

variable {σ : Type}

/-- `input_handling`, as far as it gets in that many rounds of its outer loop. -/
def inputHandling (single : Single σ) : Nat → Bytes → Buffer → σ → Except Abort (Run σ)
  | 0, stdin, buf, world =>
      .ok { returned := false, quit := false, handed := [], calls := [], stdin := stdin,
            buffer := buf, world := world }
  | rounds + 1, stdin, buf, world => do
      let line := takeLine stdin 0 buf
      let buf := line.terminated
      if buf.isQuit then
        return { returned := true, quit := true, handed := [], calls := [], stdin := line.stdin,
                 buffer := buf, world := world }
      else if (line.inputCount : Int) - 1 ≤ 0 then
        inputHandling single rounds line.stdin buf world
      else
        let mem := buf.window line.inputCount
        let str ← readStr mem 0
        let out ← interpreteMultipleCommands single (line.inputCount + 1) mem 0 world
        let buf := buf.overwrite out.mem
        if line.last = eof ∨ line.last = 10 ∨ line.last = 0 then
          return { returned := true, quit := false, handed := [str], calls := out.calls,
                   stdin := line.stdin, buffer := buf, world := out.world }
        else
          let rest ← inputHandling single rounds line.stdin buf out.world
          return { rest with handed := str :: rest.handed, calls := out.calls ++ rest.calls }

/-! ## The lines of a text -/

/-- The next line that is not empty, whatever ends it, unless it is `quit`. -/
def nextLine (stdin : Bytes) : List Bytes :=
  (((stdin.splitOn 10).filter (· ≠ [])).take 1).filter (· ≠ lit "quit")

/-- An index of the buffer. -/
def InBuffer (i : Int) : Prop := 0 ≤ i ∧ i < inputBufferCount

/-- A call that hands over the next line, and writes nothing but the buffer as long as
    it runs. -/
structure TakesOver (single : Single σ) (stdin : Bytes) (buf : Buffer) (world : σ) : Prop where
  within : ∀ rounds run, inputHandling single rounds stdin buf world = .ok run →
    ∀ i ∈ run.buffer.written, InBuffer i
  handed : ∃ rounds run, inputHandling single rounds stdin buf world = .ok run ∧
    run.returned = true ∧ run.handed = nextLine stdin

/-- A call that comes to an end. -/
def Returns (single : Single σ) (stdin : Bytes) (buf : Buffer) (world : σ) : Prop :=
  ∃ rounds run, inputHandling single rounds stdin buf world = .ok run ∧ run.returned = true

/-- Empty lines, and then a line that ends with a newline, has no NUL in it and fits into
    the buffer. -/
def LineFits (stdin : Bytes) : Prop :=
  ∃ blanks line rest, stdin = List.replicate blanks 10 ++ (line ++ 10 :: rest) ∧ line ≠ [] ∧
    (10 : Byte) ∉ line ∧ (0 : Byte) ∉ line ∧ line.length < inputBufferCount

/-! ## The buffer -/

section Buffers

variable (buf : Buffer)

/-- A byte that is written can be read. -/
theorem put_bytes (i : Int) (b : Byte) : (buf.put i b).bytes i = b := by
  show Function.update buf.bytes i b i = b
  exact Function.update_self ..

/-- The bytes beside it are as they were. -/
theorem put_bytes_ne {i j : Int} (h : j ≠ i) (b : Byte) : (buf.put i b).bytes j = buf.bytes j := by
  show Function.update buf.bytes i b j = buf.bytes j
  exact Function.update_of_ne h ..

/-- Bytes put one behind the other. -/
def Buffer.puts : Buffer → Nat → Bytes → Buffer
  | buf, _, [] => buf
  | buf, i, b :: d => (buf.put i b).puts (i + 1) d

/-- A line is taken with its newline, and the rest stays on the input. -/
theorem takeLine_newline {line : Bytes} (h : (10 : Byte) ∉ line) (rest : Bytes) :
    ∀ (n : Nat) (buf : Buffer), takeLine (line ++ 10 :: rest) n buf =
      { last := 10, inputCount := n + line.length + 1, buffer := buf.puts n (line ++ [10]),
        stdin := rest } := by
  induction line with
  | nil =>
      intro n buf
      rfl
  | cons b line ih =>
      intro n buf
      have hb : b ≠ 10 := fun e => h (e ▸ List.mem_cons_self)
      rw [List.cons_append, takeLine]
      simp only [if_neg hb]
      rw [ih (fun hm => h (List.mem_cons_of_mem b hm)), List.length_cons,
        Nat.add_right_comm n 1 line.length, ← Nat.add_assoc n line.length 1]
      rfl

/-- At the end of the input the line ends with the byte of `EOF`. -/
theorem takeLine_eof {line : Bytes} (h : (10 : Byte) ∉ line) :
    ∀ (n : Nat) (buf : Buffer), takeLine line n buf =
      { last := eof, inputCount := n + line.length + 1, buffer := buf.puts n (line ++ [255]),
        stdin := [] } := by
  induction line with
  | nil =>
      intro n buf
      rfl
  | cons b line ih =>
      intro n buf
      have hb : b ≠ 10 := fun e => h (e ▸ List.mem_cons_self)
      rw [takeLine]
      simp only [if_neg hb]
      rw [ih (fun hm => h (List.mem_cons_of_mem b hm)), List.length_cons,
        Nat.add_right_comm n 1 line.length, ← Nat.add_assoc n line.length 1]
      rfl

/-- Bytes in a row are written where they stand. -/
theorem puts_written (d : Bytes) : ∀ (n : Nat) (buf : Buffer) (i : Int),
    i ∈ (buf.puts n d).written ↔ i ∈ buf.written ∨ ((n : Int) ≤ i ∧ i < n + d.length) := by
  induction d with
  | nil =>
      intro n buf i
      show i ∈ buf.written ↔ _
      rw [List.length_nil]
      constructor
      · exact Or.inl
      · rintro (h | h)
        · exact h
        · omega
  | cons b d ih =>
      intro n buf i
      rw [Buffer.puts, ih]
      show i ∈ (n : Int) :: buf.written ∨ _ ↔ _
      rw [List.mem_cons, List.length_cons]
      constructor
      · rintro ((rfl | h) | h)
        · exact Or.inr (by omega)
        · exact Or.inl h
        · exact Or.inr (by omega)
      · rintro (h | h)
        · exact Or.inl (Or.inr h)
        · rcases Int.lt_or_eq_of_le h.1 with hlt | heq
          · exact Or.inr (by omega)
          · exact Or.inl (Or.inl heq.symm)

/-- A window of one byte more has that byte at its end. -/
theorem window_succ (n : Nat) : buf.window (n + 1) = buf.window n ++ [buf.bytes n] := by
  rw [Buffer.window, List.range_succ, List.map_append]
  rfl

/-- A window has as many bytes as are asked for. -/
theorem window_length (n : Nat) : (buf.window n).length = n := by
  rw [Buffer.window, List.length_map, List.length_range]

/-- The front of a window is the smaller window. -/
theorem window_take {m n : Nat} (h : m ≤ n) : (buf.window n).take m = buf.window m := by
  rw [Buffer.window, ← List.map_take, List.take_range, Nat.min_eq_left h]
  rfl

/-- A byte put behind a window leaves it as it is. -/
theorem window_put_behind {n : Nat} {i : Int} (h : (n : Int) ≤ i) (b : Byte) :
    (buf.put i b).window n = buf.window n := by
  refine List.map_congr_left fun j hj => ?_
  have hlt := List.mem_range.mp hj
  exact put_bytes_ne buf (show (j : Int) ≠ i by omega) b

/-- A place of a window is that of the buffer. -/
theorem window_getElem {n j : Nat} (h : j < n) : (buf.window n)[j]? = some (buf.bytes j) := by
  rw [Buffer.window, List.getElem?_map, List.getElem?_range h]
  rfl

/-- A byte written inside a window changes that place of it. -/
theorem window_put {n k : Nat} (h : k < n) (b : Byte) :
    (buf.put k b).window n = (buf.window n).set k b := by
  refine List.ext_getElem? fun j => ?_
  rw [List.getElem?_set, window_length]
  by_cases hj : j < n
  · rw [window_getElem _ hj]
    by_cases hkj : k = j
    · subst hkj
      rw [if_pos rfl, if_pos h]
      rw [put_bytes]
    · rw [if_neg hkj, window_getElem _ hj]
      rw [put_bytes_ne buf (show (j : Int) ≠ k by omega)]
  · have hkj : k ≠ j := by omega
    have hput : ((buf.put k b).window n)[j]? = none :=
      List.getElem?_eq_none (by rw [window_length]; omega)
    rw [if_neg hkj, hput]
    exact (List.getElem?_eq_none (by rw [window_length]; omega)).symm

/-- A window that bytes are written behind ends with them. -/
theorem window_puts (d : Bytes) : ∀ (n : Nat) (buf : Buffer),
    (buf.puts n d).window (n + d.length) = buf.window n ++ d := by
  induction d with
  | nil =>
      intro n buf
      exact (List.append_nil _).symm
  | cons b d ih =>
      intro n buf
      rw [Buffer.puts, List.length_cons, Nat.add_comm d.length 1, ← Nat.add_assoc, ih,
        window_succ, window_put_behind buf (Int.le_refl _)]
      rw [put_bytes, List.append_assoc]
      rfl

/-- The comparison with `quit` reads the string at the front of the buffer. -/
theorem isQuit_iff {n : Nat} {str t : Bytes} (h : buf.window n = str ++ 0 :: t)
    (hnul : (0 : Byte) ∉ str) : buf.isQuit = true ↔ str = lit "quit" := by
  have hread : ∀ m s t, buf.window m = s ++ 0 :: t → (0 : Byte) ∉ s → ∀ k, m ≤ k →
      untilNul (buf.window k) = some s := by
    intro m s t hm hs k hk
    have htake := List.take_append_drop m (buf.window k)
    rw [window_take buf hk, hm, List.append_assoc] at htake
    rw [← htake]
    exact untilNul_append hs _
  constructor
  · intro hquit
    have hwin : buf.window 5 = lit "quit" ++ 0 :: [] := of_decide_eq_true hquit
    have hone := hread n str t h hnul (max n 5) (Nat.le_max_left n 5)
    have htwo := hread 5 (lit "quit") [] hwin (by decide) (max n 5) (Nat.le_max_right n 5)
    exact Option.some.inj (hone.symm.trans htwo)
  · rintro rfl
    have hlen := congrArg List.length h
    rw [window_length, List.length_append, List.length_cons] at hlen
    have hfive : 5 ≤ n := by
      rw [hlen]
      exact Nat.add_le_add (show 4 ≤ _ from Nat.le_refl 4) (Nat.le_add_left 1 _)
    refine decide_eq_true ?_
    rw [← window_take buf hfive, h]
    rfl

end Buffers

/-! ## One round -/

section Round

variable (single : Single σ)

/-- What a call with a string in its buffer comes to: the string is handed over and its
    commands are carried out, unless it is `quit`. -/
structure Took (run : Run σ) (line : Line) (str : Bytes) : Prop where
  returned : run.returned = true
  written : run.buffer.written = line.terminated.written
  handed : run.handed = [str].filter (· ≠ lit "quit")
  calls : run.calls = run.handed.flatMap commandsOf
  stdin : run.stdin = line.stdin

/-- A round with a string in the buffer hands it over and returns. -/
theorem round_took {stdin : Bytes} {buf : Buffer} {str t : Bytes}
    (hwin : (takeLine stdin 0 buf).terminated.window (takeLine stdin 0 buf).inputCount =
      str ++ 0 :: t) (hnul : (0 : Byte) ∉ str)
    (hlast : (takeLine stdin 0 buf).last = 10 ∨ (takeLine stdin 0 buf).last = eof)
    (hcount : 2 ≤ (takeLine stdin 0 buf).inputCount) (rounds : Nat) (world : σ) :
    ∃ run, inputHandling single (rounds + 1) stdin buf world = .ok run ∧
      Took run (takeLine stdin 0 buf) str := by
  generalize hline : takeLine stdin 0 buf = line at hwin hlast hcount
  rw [inputHandling]
  simp only [hline]
  by_cases hquit : line.terminated.isQuit = true
  · have hstr := (isQuit_iff _ hwin hnul).mp hquit
    rw [if_pos hquit]
    refine ⟨_, rfl, rfl, rfl, ?_, rfl, rfl⟩
    rw [hstr]
    rfl
  · have hstr : str ≠ lit "quit" := fun h => hquit ((isQuit_iff _ hwin hnul).mpr h)
    have hmore : ¬ (line.inputCount : Int) - 1 ≤ 0 := by omega
    have hread : cstr (line.terminated.window line.inputCount) 0 = some str := by
      rw [hwin]
      exact untilNul_append hnul t
    have hshort : str.length < line.inputCount + 1 := by
      have hlen := congrArg List.length hwin
      rw [window_length, List.length_append] at hlen
      omega
    obtain ⟨out, hout, hcalls, -⟩ := rounds_calls single world hshort hread
    have hends : line.last = eof ∨ line.last = 10 ∨ line.last = 0 :=
      hlast.elim (fun h => Or.inr (Or.inl h)) Or.inl
    rw [if_neg hquit, if_neg hmore, readStr_ok hread]
    simp only [bind, Except.bind, hout, if_pos hends]
    have hhanded : [str] = [str].filter (· ≠ lit "quit") :=
      (List.filter_eq_self.mpr (by simpa using hstr)).symm
    refine ⟨_, rfl, rfl, rfl, hhanded, ?_, rfl⟩
    rw [hcalls]
    exact (List.append_nil _).symm

/-- The buffer behind an empty line. -/
def blank (buf : Buffer) : Buffer := (buf.put 0 10).put 0 0

/-- The buffer behind an end of the file with nothing before it. -/
def spun (buf : Buffer) : Buffer := (buf.put 0 255).put (-1) 0

/-- A newline by itself makes the loop go round once more. -/
theorem round_blank (rounds : Nat) (stdin : Bytes) (buf : Buffer) (world : σ) :
    inputHandling single (rounds + 1) (10 :: stdin) buf world =
      inputHandling single rounds stdin (blank buf) world := by
  have hwin : (blank buf).window 1 = [] ++ 0 :: [] := by
    show [(blank buf).bytes 0] = [0]
    rw [blank, put_bytes]
  have hquit : (blank buf).isQuit = false := by
    rw [Bool.eq_false_iff]
    exact fun h => by cases (isQuit_iff _ hwin List.not_mem_nil).mp h
  rw [inputHandling]
  show (if (blank buf).isQuit = true then _ else if ((1 : Nat) : Int) - 1 ≤ 0 then _ else _) = _
  rw [hquit]
  rfl

/-- So does the end of the input with nothing before it. -/
theorem round_spun (rounds : Nat) (buf : Buffer) (world : σ) :
    inputHandling single (rounds + 1) [] buf world =
      inputHandling single rounds [] (spun buf) world := by
  have hquit : (spun buf).isQuit = false := by
    refine decide_eq_false fun h => ?_
    have hbyte := (window_getElem (spun buf) (show 0 < 5 by omega)).symm.trans
      (congrArg (fun s => s[0]?) h)
    have hfirst : (spun buf).bytes (0 : Nat) = 255 := by
      rw [spun, put_bytes_ne _ (by decide)]
      exact put_bytes buf 0 255
    rw [hfirst] at hbyte
    exact absurd hbyte (by decide)
  rw [inputHandling]
  show (if (spun buf).isQuit = true then _ else if ((1 : Nat) : Int) - 1 ≤ 0 then _ else _) = _
  rw [hquit]
  rfl

end Round

/-! ## A line that is not empty -/

section Lines

variable {line : Bytes} (hline : (10 : Byte) ∉ line)

include hline

/-- The NUL takes the place of the newline. -/
theorem newline_window (rest : Bytes) (buf : Buffer) :
    (takeLine (line ++ 10 :: rest) 0 buf).terminated.window (line.length + 1) = line ++ [0] := by
  rw [takeLine_newline hline, Line.terminated, if_pos rfl]
  have hindex : ((0 + line.length + 1 : Nat) : Int) - 1 = (line.length : Nat) := by omega
  have hputs := window_puts (line ++ [10]) 0 buf
  rw [List.length_append, Nat.zero_add] at hputs
  show ((buf.puts 0 (line ++ [10])).put (((0 + line.length + 1 : Nat) : Int) - 1) 0).window _ = _
  rw [hindex, window_put _ (Nat.lt_succ_self _)]
  show ((buf.puts 0 (line ++ [10])).window (line.length + [(10 : Byte)].length)).set _ 0 = _
  rw [hputs]
  show (line ++ [10]).set line.length 0 = _
  rw [List.set_append_right _ _ (Nat.le_refl _), Nat.sub_self]
  rfl

/-- A line is written to the front of the buffer, its NUL with it. -/
theorem newline_written (rest : Bytes) (buf : Buffer) (i : Int) :
    i ∈ (takeLine (line ++ 10 :: rest) 0 buf).terminated.written ↔
      i ∈ buf.written ∨ (0 ≤ i ∧ i ≤ line.length) := by
  rw [takeLine_newline hline, Line.terminated, if_pos rfl]
  show i ∈ (((0 + line.length + 1 : Nat) : Int) - 1) :: (buf.puts 0 (line ++ [10])).written ↔ _
  rw [List.mem_cons, puts_written, List.length_append, List.length_singleton]
  constructor
  · rintro (h | h | h)
    · exact Or.inr (by omega)
    · exact Or.inl h
    · exact Or.inr (by omega)
  · rintro (h | h)
    · exact Or.inr (Or.inl h)
    · exact Or.inr (Or.inr (by omega))

/-- Behind a line that the end of the file ends, the NUL takes the place of its last
    byte. -/
theorem eof_window (hne : line ≠ []) (buf : Buffer) :
    (takeLine line 0 buf).terminated.window (line.length + 1) = line.dropLast ++ [0, 255] := by
  obtain ⟨front, b, rfl⟩ : ∃ front b, line = front ++ [b] :=
    ⟨line.dropLast, line.getLast hne, (List.dropLast_append_getLast hne).symm⟩
  have hindex : ((0 + (front ++ [b]).length + 1 : Nat) : Int) - 2 = (front.length : Nat) := by
    rw [List.length_append, List.length_singleton]
    omega
  have hputs := window_puts (front ++ [b] ++ [255]) 0 buf
  rw [takeLine_eof hline, Line.terminated, if_neg (show eof ≠ 10 by decide), if_pos rfl]
  show ((buf.puts 0 (front ++ [b] ++ [255])).put
    (((0 + (front ++ [b]).length + 1 : Nat) : Int) - 2) 0).window _ = _
  have hlt : front.length < (front ++ [b]).length + 1 := by
    rw [List.length_append]
    omega
  rw [hindex, window_put _ hlt]
  have hlen : (front ++ [b] ++ [255]).length = (front ++ [b]).length + [(255 : Byte)].length :=
    List.length_append
  rw [Nat.zero_add, hlen] at hputs
  show ((buf.puts 0 (front ++ [b] ++ [255])).window
    ((front ++ [b]).length + [(255 : Byte)].length)).set _ 0 = _
  rw [hputs, List.dropLast_concat]
  show ((front ++ [b]) ++ [255]).set front.length 0 = _
  rw [List.append_assoc, List.set_append_right _ _ (Nat.le_refl _), Nat.sub_self]
  rfl

/-- The line that is due is the first one. -/
theorem nextLine_newline (hne : line ≠ []) (rest : Bytes) :
    nextLine (line ++ 10 :: rest) = [line].filter (· ≠ lit "quit") := by
  have hsplit : (line ++ 10 :: rest).splitOn 10 = line :: rest.splitOn 10 :=
    List.splitOnP_append_cons_of_forall_mem (by
      intro b hb
      exact beq_eq_false_iff_ne.mpr fun e => hline (e ▸ hb)) 10 (by rfl) rest
  rw [nextLine, hsplit, List.filter_cons, if_pos (decide_eq_true hne)]
  rfl

/-- It is also due if the file ends with it. -/
theorem nextLine_eof (hne : line ≠ []) : nextLine line = [line].filter (· ≠ lit "quit") := by
  have hsplit : line.splitOn 10 = [line] :=
    List.splitOnP_eq_singleton (by
      intro b hb
      exact beq_eq_false_iff_ne.mpr fun e => hline (e ▸ hb))
  rw [nextLine, hsplit, List.filter_cons, if_pos (decide_eq_true hne)]
  rfl

end Lines

/-- An empty line is never due. -/
theorem nextLine_blank (stdin : Bytes) : nextLine (10 :: stdin) = nextLine stdin := by
  have hsplit : ([] ++ (10 : Byte) :: stdin).splitOn 10 = [] :: stdin.splitOn 10 :=
    List.splitOnP_append_cons_of_forall_mem (by rintro _ ⟨⟩) 10 (by rfl) stdin
  rw [List.nil_append] at hsplit
  rw [nextLine, hsplit, List.filter_cons]
  rfl

/-- Two lines that are both handed over, or both not, are the same. -/
theorem kept_eq {str line : Bytes}
    (h : [str].filter (· ≠ lit "quit") = [line].filter (· ≠ lit "quit")) : str = line := by
  by_cases hline : line = lit "quit"
  · have hnone : [line].filter (· ≠ lit "quit") = [] := by rw [hline]; rfl
    rw [hnone, List.filter_eq_nil_iff] at h
    have hstr : str = lit "quit" := by simpa using h str (List.mem_singleton_self str)
    rw [hstr, hline]
  · have hkept : [line].filter (· ≠ lit "quit") = [line] :=
      List.filter_eq_self.mpr (by simpa using hline)
    have hmem : line ∈ [str].filter (· ≠ lit "quit") := by
      rw [h, hkept]
      exact List.mem_singleton_self line
    exact (List.mem_singleton.mp (List.mem_filter.mp hmem).1).symm

/-- The string in front of a NUL. -/
theorem first_nul (l rest : Bytes) : ∃ str t, l ++ 0 :: rest = str ++ 0 :: t ∧ (0 : Byte) ∉ str ∧
    str.length ≤ l.length ∧ ((0 : Byte) ∉ l → str = l) := by
  by_cases hmem : (0 : Byte) ∈ l
  · obtain ⟨pre, post, rfl, hpre⟩ := List.eq_append_cons_of_mem hmem
    refine ⟨pre, post ++ 0 :: rest, ?_, hpre, ?_, fun h => absurd hmem h⟩
    · rw [List.append_assoc]
      rfl
    · rw [List.length_append]
      exact Nat.le_add_right _ _
  · exact ⟨l, rest, rfl, hmem, Nat.le_refl _, fun _ => rfl⟩

/-! ## A whole call -/

section Call

variable (single : Single σ)

/-- A call that finds a line ended by a newline. -/
theorem took_newline {line : Bytes} (hline : (10 : Byte) ∉ line) (hne : line ≠ []) (rest : Bytes) :
    ∃ str, (0 : Byte) ∉ str ∧ ((0 : Byte) ∉ line → str = line) ∧
      ∀ (buf : Buffer) (rounds : Nat) (world : σ), ∃ run,
        inputHandling single (rounds + 1) (line ++ 10 :: rest) buf world = .ok run ∧
          Took run (takeLine (line ++ 10 :: rest) 0 buf) str := by
  obtain ⟨str, t, hstr, hnul, -, hself⟩ := first_nul line []
  refine ⟨str, hnul, hself, fun buf rounds world => ?_⟩
  have hcount : (takeLine (line ++ 10 :: rest) 0 buf).inputCount = line.length + 1 := by
    rw [takeLine_newline hline]
    exact congrArg (· + 1) (Nat.zero_add _)
  refine round_took single (t := t) ?_ hnul ?_ ?_ rounds world
  · rw [hcount, newline_window hline, hstr]
  · rw [takeLine_newline hline]
    exact Or.inl rfl
  · rw [hcount]
    exact Nat.succ_le_succ (List.length_pos_iff.mpr hne)

/-- A call that finds a line ended by the end of the file: the string lacks a byte. -/
theorem took_eof {line : Bytes} (hline : (10 : Byte) ∉ line) (hne : line ≠ []) :
    ∃ str, str.length < line.length ∧
      ∀ (buf : Buffer) (rounds : Nat) (world : σ), ∃ run,
        inputHandling single (rounds + 1) line buf world = .ok run ∧
          Took run (takeLine line 0 buf) str := by
  obtain ⟨str, t, hstr, hnul, hlen, -⟩ := first_nul line.dropLast [255]
  have hpos := List.length_pos_iff.mpr hne
  rw [List.length_dropLast] at hlen
  refine ⟨str, by omega, fun buf rounds world => ?_⟩
  have hcount : (takeLine line 0 buf).inputCount = line.length + 1 := by
    rw [takeLine_eof hline]
    exact congrArg (· + 1) (Nat.zero_add _)
  refine round_took single (t := t) ?_ hnul ?_ ?_ rounds world
  · rw [hcount, eof_window hline hne, hstr]
  · rw [takeLine_eof hline]
    exact Or.inr rfl
  · rw [hcount]
    exact Nat.succ_le_succ hpos

/-- A call that returns has gone round at least once. -/
theorem returned_round {rounds : Nat} {stdin : Bytes} {buf : Buffer} {world : σ} {run : Run σ}
    (h : inputHandling single rounds stdin buf world = .ok run) (hreturned : run.returned = true) :
    ∃ r, rounds = r + 1 := by
  cases rounds with
  | zero =>
      obtain rfl := Except.ok.inj h
      cases hreturned
  | succ r => exact ⟨r, rfl⟩

/-- Behind the end of the file the call goes round and round. -/
theorem spins (rounds : Nat) : ∀ (buf : Buffer) (world : σ), ∃ run,
    inputHandling single rounds [] buf world = .ok run ∧ run.returned = false ∧
      ∀ i ∈ buf.written, i ∈ run.buffer.written := by
  induction rounds with
  | zero =>
      intro buf world
      exact ⟨_, rfl, rfl, fun i hi => hi⟩
  | succ rounds ih =>
      intro buf world
      obtain ⟨run, hrun, hreturned, hwritten⟩ := ih (spun buf) world
      refine ⟨run, (round_spun single rounds buf world).trans hrun, hreturned, fun i hi => ?_⟩
      exact hwritten i (List.mem_cons_of_mem _ (List.mem_cons_of_mem _ hi))

/-! ## What is handed over -/

/-- An empty line does not change whether the next is taken over. -/
theorem takesOver_blank {stdin : Bytes} {buf : Buffer} (hbuf : ∀ i ∈ buf.written, InBuffer i)
    (world : σ) :
    TakesOver single (10 :: stdin) buf world ↔ TakesOver single stdin (blank buf) world := by
  constructor
  · rintro ⟨hwithin, rounds, run, hrun, hreturned, hhanded⟩
    refine ⟨fun r run' hrun' => ?_, ?_⟩
    · exact hwithin (r + 1) run' ((round_blank single r stdin buf world).trans hrun')
    · obtain ⟨r, rfl⟩ := returned_round single hrun hreturned
      rw [round_blank] at hrun
      exact ⟨r, run, hrun, hreturned, hhanded.trans (nextLine_blank stdin)⟩
  · rintro ⟨hwithin, rounds, run, hrun, hreturned, hhanded⟩
    refine ⟨fun r run' hrun' => ?_, rounds + 1, run, ?_, hreturned, ?_⟩
    · cases r with
      | zero =>
          obtain rfl := Except.ok.inj hrun'
          exact hbuf
      | succ r =>
          rw [round_blank] at hrun'
          exact hwithin r run' hrun'
    · rw [round_blank, hrun]
    · rw [hhanded, nextLine_blank]

/-- A line that ends in a newline is taken over if it fits and has no NUL. -/
theorem takesOver_newline {line : Bytes} (hline : (10 : Byte) ∉ line) (hne : line ≠ [])
    (rest : Bytes) {buf : Buffer} (hbuf : ∀ i ∈ buf.written, InBuffer i) (world : σ) :
    TakesOver single (line ++ 10 :: rest) buf world ↔
      (0 : Byte) ∉ line ∧ line.length < inputBufferCount := by
  obtain ⟨str, hnul, hself, hrounds⟩ := took_newline single hline hne rest
  have hnext := nextLine_newline hline hne rest
  constructor
  · rintro ⟨hwithin, rounds, run, hrun, hreturned, hhanded⟩
    obtain ⟨r, rfl⟩ := returned_round single hrun hreturned
    obtain ⟨run', hrun', htook⟩ := hrounds buf r world
    obtain rfl := Except.ok.inj (hrun.symm.trans hrun')
    constructor
    · rw [htook.handed, hnext] at hhanded
      obtain rfl := kept_eq hhanded
      exact hnul
    · have hlast := hwithin (r + 1) run hrun line.length (by
        rw [htook.written, newline_written hline]
        exact Or.inr ⟨Int.natCast_nonneg _, Int.le_refl _⟩)
      exact Int.ofNat_lt.mp hlast.2
  · rintro ⟨hzero, hlen⟩
    obtain rfl := hself hzero
    refine ⟨fun rounds run hrun => ?_, ?_⟩
    · cases rounds with
      | zero =>
          obtain rfl := Except.ok.inj hrun
          exact hbuf
      | succ rounds =>
          obtain ⟨run', hrun', htook⟩ := hrounds buf rounds world
          obtain rfl := Except.ok.inj (hrun.symm.trans hrun')
          intro i hi
          rw [htook.written, newline_written hline] at hi
          rcases hi with hi | hi
          · exact hbuf i hi
          · exact ⟨hi.1, by omega⟩
    · obtain ⟨run, hrun, htook⟩ := hrounds buf 0 world
      exact ⟨1, run, hrun, htook.returned, htook.handed.trans hnext.symm⟩

/-- A line that ends with the file never is: its last byte is cut off. -/
theorem not_takesOver_eof {line : Bytes} (hline : (10 : Byte) ∉ line) (hne : line ≠ [])
    (buf : Buffer) (world : σ) : ¬ TakesOver single line buf world := by
  rintro ⟨-, rounds, run, hrun, hreturned, hhanded⟩
  obtain ⟨str, hlen, hrounds⟩ := took_eof single hline hne
  obtain ⟨r, rfl⟩ := returned_round single hrun hreturned
  obtain ⟨run', hrun', htook⟩ := hrounds buf r world
  obtain rfl := Except.ok.inj (hrun.symm.trans hrun')
  rw [htook.handed, nextLine_eof hline hne] at hhanded
  obtain rfl := kept_eq hhanded
  exact absurd hlen (Nat.lt_irrefl _)

/-- Without a line the call writes in front of the buffer. -/
theorem not_takesOver_nil (buf : Buffer) (world : σ) : ¬ TakesOver single [] buf world := by
  intro h
  obtain ⟨run, hrun, -, hwritten⟩ := spins single 0 (spun buf) world
  have hfront := h.within 1 run ((round_spun single 0 buf world).trans hrun) (-1)
    (hwritten (-1) List.mem_cons_self)
  exact absurd hfront.1 (by decide)

/-- The condition on the input passes over empty lines. -/
theorem lineFits_blank (stdin : Bytes) : LineFits (10 :: stdin) ↔ LineFits stdin := by
  constructor
  · rintro ⟨blanks, line, rest, hstdin, hne, hline, hfits⟩
    cases blanks with
    | zero =>
        obtain ⟨b, line, rfl⟩ := List.exists_cons_of_ne_nil hne
        have hb : 10 = b := (List.cons.inj hstdin).1
        exact absurd (hb ▸ List.mem_cons_self) hline
    | succ blanks => exact ⟨blanks, line, rest, (List.cons.inj hstdin).2, hne, hline, hfits⟩
  · rintro ⟨blanks, line, rest, rfl, hfits⟩
    exact ⟨blanks + 1, line, rest, rfl, hfits⟩

/-- It looks at the first line that is not empty. -/
theorem lineFits_newline {line : Bytes} (hline : (10 : Byte) ∉ line) (hne : line ≠ [])
    (rest : Bytes) :
    LineFits (line ++ 10 :: rest) ↔ (0 : Byte) ∉ line ∧ line.length < inputBufferCount := by
  constructor
  · rintro ⟨blanks, line', rest', hstdin, -, hline', hfits⟩
    cases blanks with
    | zero =>
        have hsame := congrArg (List.takeWhile (· ≠ 10)) hstdin
        rw [takeWhile_ne_append hline] at hsame
        obtain rfl : line = line' := hsame.trans (takeWhile_ne_append hline')
        exact hfits
    | succ blanks =>
        obtain ⟨b, line, rfl⟩ := List.exists_cons_of_ne_nil hne
        have hb : b = 10 := (List.cons.inj hstdin).1
        exact absurd (hb ▸ List.mem_cons_self) hline
  · rintro ⟨hzero, hlen⟩
    exact ⟨0, line, rest, rfl, hne, hline, hzero, hlen⟩

/-- It asks for a newline behind that line. -/
theorem not_lineFits {stdin : Bytes} (h : (10 : Byte) ∉ stdin) : ¬ LineFits stdin := by
  rintro ⟨blanks, line, rest, rfl, -⟩
  exact h (List.mem_append_right _ (List.mem_append_right line List.mem_cons_self))

/-- The empty lines go first, whatever was written to the buffer so far. -/
theorem takesOver_lineFits (stdin : Bytes) : ∀ {buf : Buffer}, (∀ i ∈ buf.written, InBuffer i) →
    ∀ world, TakesOver single stdin buf world ↔ LineFits stdin := by
  induction stdin with
  | nil =>
      intro buf hbuf world
      exact iff_of_false (not_takesOver_nil single buf world) (not_lineFits (by rintro ⟨⟩))
  | cons b stdin ih =>
      intro buf hbuf world
      by_cases hb : b = 10
      · subst hb
        have hblank : ∀ i ∈ (blank buf).written, InBuffer i := by
          have hzero : InBuffer 0 := ⟨Int.le_refl 0, by decide⟩
          exact List.forall_mem_cons.mpr ⟨hzero, List.forall_mem_cons.mpr ⟨hzero, hbuf⟩⟩
        rw [takesOver_blank single hbuf, lineFits_blank, ih hblank]
      · by_cases hmem : (10 : Byte) ∈ b :: stdin
        · obtain ⟨line, rest, hstdin, hline⟩ := List.eq_append_cons_of_mem hmem
          have hne : line ≠ [] := by
            rintro rfl
            exact hb (List.cons.inj hstdin).1
          rw [hstdin, takesOver_newline single hline hne rest hbuf,
            lineFits_newline hline hne]
        · exact iff_of_false (not_takesOver_eof single hmem (List.cons_ne_nil b stdin) buf world)
            (not_lineFits hmem)

/-- **A LINE IS TAKEN OVER BYTE FOR BYTE** exactly if a newline ends it, it has no NUL in
    it and it is shorter than the buffer; whatever was in the buffer before. -/
theorem takesOver_iff (stdin : Bytes) (bytes : Int → Byte) (world : σ) :
    TakesOver single stdin ⟨bytes, []⟩ world ↔ LineFits stdin :=
  takesOver_lineFits single stdin (List.forall_mem_nil _) world

end Call

/-- The last line of a file, without a newline: the command is another one. -/
theorem not_takesOver_lastLine :
    ¬ TakesOver (tokenizing fun _ (seen : Nat) => (0, seen)) (lit "get h/a") ⟨fun _ => 0, []⟩ 0 :=
  not_takesOver_eof _ (by decide) (by decide) _ _

/-! ## Whether a call ends -/

section Ends

variable (single : Single σ)

/-- An empty line does not make the call return. -/
theorem returns_blank (stdin : Bytes) (buf : Buffer) (world : σ) :
    Returns single (10 :: stdin) buf world ↔ Returns single stdin (blank buf) world := by
  constructor
  · rintro ⟨rounds, run, hrun, hreturned⟩
    obtain ⟨r, rfl⟩ := returned_round single hrun hreturned
    exact ⟨r, run, (round_blank single r stdin buf world).symm.trans hrun, hreturned⟩
  · rintro ⟨rounds, run, hrun, hreturned⟩
    exact ⟨rounds + 1, run, (round_blank single rounds stdin buf world).trans hrun, hreturned⟩

/-- At the end of the input the loop never ends. -/
theorem not_returns_nil (buf : Buffer) (world : σ) : ¬ Returns single [] buf world := by
  rintro ⟨rounds, run, hrun, hreturned⟩
  obtain ⟨run', hrun', hspins, -⟩ := spins single rounds buf world
  obtain rfl := Except.ok.inj (hrun.symm.trans hrun')
  rw [hspins] at hreturned
  cases hreturned

/-- Any byte but a newline makes the call return. -/
theorem returns_line {stdin : Bytes} {b : Byte} (hb : b ≠ 10) (buf : Buffer) (world : σ) :
    Returns single (b :: stdin) buf world := by
  by_cases hmem : (10 : Byte) ∈ b :: stdin
  · obtain ⟨line, rest, hstdin, hline⟩ := List.eq_append_cons_of_mem hmem
    have hne : line ≠ [] := by
      rintro rfl
      exact hb (List.cons.inj hstdin).1
    obtain ⟨str, -, -, hrounds⟩ := took_newline single hline hne rest
    obtain ⟨run, hrun, htook⟩ := hrounds buf 0 world
    exact ⟨1, run, hstdin ▸ hrun, htook.returned⟩
  · obtain ⟨str, -, hrounds⟩ := took_eof single hmem (List.cons_ne_nil b stdin)
    obtain ⟨run, hrun, htook⟩ := hrounds buf 0 world
    exact ⟨1, run, hrun, htook.returned⟩

/-- **A CALL RETURNS** exactly if there is a byte left that is not a newline. -/
theorem returns_iff (stdin : Bytes) (buf : Buffer) (world : σ) :
    Returns single stdin buf world ↔ ∃ b ∈ stdin, b ≠ 10 := by
  induction stdin generalizing buf with
  | nil => exact iff_of_false (not_returns_nil single buf world) (by rintro ⟨b, ⟨⟩, -⟩)
  | cons b stdin ih =>
      by_cases hb : b = 10
      · subst hb
        rw [returns_blank, ih]
        constructor
        · rintro ⟨b, hmem, hb⟩
          exact ⟨b, List.mem_cons_of_mem 10 hmem, hb⟩
        · rintro ⟨b, hmem, hb⟩
          exact ⟨b, (List.mem_cons.mp hmem).resolve_left hb, hb⟩
      · exact iff_of_true (returns_line single hb buf world) ⟨b, List.mem_cons_self, hb⟩

end Ends

/-- A call that finds the end of the file at once. -/
theorem not_returns_empty :
    ¬ Returns (tokenizing fun _ (seen : Nat) => (0, seen)) [] ⟨fun _ => 0, []⟩ 0 :=
  not_returns_nil _ _ _

/-! ## Call after call -/

section Session

variable (single : Single σ)

/-- What a number of calls comes to: whether each of them returned, the commands they
    carried out, and the rest of the input. -/
structure Session where
  returned : Bool
  calls : List Bytes
  stdin : Bytes
  deriving DecidableEq, Repr

/-- A number of calls, each on what the last one left. -/
def session (single : Single σ) : Nat → Bytes → Buffer → σ → Except Abort Session
  | 0, stdin, _, _ => .ok { returned := true, calls := [], stdin := stdin }
  | n + 1, stdin, buf, world => do
      let run ← inputHandling single (stdin.length + 1) stdin buf world
      let later ← session single n run.stdin run.buffer run.world
      return { returned := run.returned && later.returned, calls := run.calls ++ later.calls,
               stdin := later.stdin }

/-- **NO COMMAND IS LOST AND NONE IS DOUBLED**: as many calls as there are lines all
    return, carry out the commands of all lines in their order, and leave nothing
    behind. -/
theorem session_lines {lines : List Bytes} (hlines : ∀ line ∈ lines, line ≠ [] ∧
    (10 : Byte) ∉ line ∧ (0 : Byte) ∉ line ∧ line.length < inputBufferCount) :
    ∀ (buf : Buffer) (world : σ),
      session single lines.length (lines.flatMap (· ++ [10])) buf world =
        .ok { returned := true, calls := (lines.filter (· ≠ lit "quit")).flatMap commandsOf,
              stdin := [] } := by
  induction lines with
  | nil =>
      intro buf world
      rfl
  | cons line lines ih =>
      intro buf world
      obtain ⟨⟨hne, hline, hnul, -⟩, hrest⟩ := List.forall_mem_cons.mp hlines
      obtain ⟨str, -, hself, hrounds⟩ :=
        took_newline single hline hne (lines.flatMap (· ++ [10]))
      obtain rfl := hself hnul
      have htext : (str :: lines).flatMap (· ++ [10]) = str ++ 10 :: lines.flatMap (· ++ [10]) := by
        rw [List.flatMap_cons, List.append_assoc]
        rfl
      rw [htext]
      obtain ⟨run, hrun, htook⟩ :=
        hrounds buf (str ++ 10 :: lines.flatMap (· ++ [10])).length world
      have hstdin : run.stdin = lines.flatMap (· ++ [10]) := by
        rw [htook.stdin, takeLine_newline hline]
      rw [List.length_cons, session, hrun]
      simp only [bind, Except.bind, hstdin, ih hrest, htook.returned]
      have hcalls : ((str :: lines).filter (· ≠ lit "quit")).flatMap commandsOf =
          run.calls ++ (lines.filter (· ≠ lit "quit")).flatMap commandsOf := by
        rw [htook.calls, htook.handed, ← List.flatMap_append, ← List.filter_append]
        rfl
      rw [hcalls]
      rfl

end Session

/-- Two commands, the end, and a command that comes too late for it. -/
def threeLines : List Bytes := [lit "get h/a f;get h/b g", lit "quit", lit "put h/c k"]

/-- The `quit` in the middle is not handed over, and the line behind it is. -/
theorem session_lines_threeLines :
    session (tokenizing fun _ (seen : Nat) => (0, seen + 1)) threeLines.length
        (threeLines.flatMap (· ++ [10])) ⟨fun _ => 0, []⟩ 0 =
      .ok { returned := true, calls := [lit "get h/a f", lit "get h/b g", lit "put h/c k"],
            stdin := [] } := by
  have hlines : ∀ line ∈ threeLines, line ≠ [] ∧ (10 : Byte) ∉ line ∧ (0 : Byte) ∉ line ∧
      line.length < inputBufferCount := by decide
  have hcommands : (threeLines.filter (· ≠ lit "quit")).flatMap commandsOf =
      [lit "get h/a f", lit "get h/b g", lit "put h/c k"] := by decide +kernel
  rw [session_lines (tokenizing fun _ (seen : Nat) => (0, seen + 1)) hlines, hcommands]

end InputHandling
