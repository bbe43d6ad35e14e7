import ArtdaqDatabase.BoundedMemory
import ArtdaqDatabase.SplitLines

/-!
# Trimming the lines of a buffer

`buffer_rtrim_lines` compacts a buffer in place.  A line is read behind the place where
it is written, so what was not read yet is never overwritten.
-/

namespace ArtdaqDatabase

open BoundedMemory SplitLines

/-- `WsTable`. -/
def isWs (c : Char) : Bool :=
  c = ' ' || c = '\t' || c = '\r'

/-- The end of a line goes back over the blanks, but not in front of its start. -/
def trimmedEnd (buffer : Memory Char) (read : ℕ) : ℕ → Option ℕ
  | 0 => some 0
  | lineEnd + 1 =>
      if read < lineEnd + 1 then do
        let c ← load buffer lineEnd
        if isWs c then trimmedEnd buffer read lineEnd else some (lineEnd + 1)
      else some (lineEnd + 1)

/-- A line that is in its place already is not moved. -/
def moveLine (buffer : Memory Char) (write read len : ℕ) : Option (Memory Char) :=
  if write ≠ read then move buffer write read len else some buffer

/-- The loop over the lines, with its pointers as positions; it ends with the buffer and
the position that was written last.  Each round reads at least one character. -/
def rtrimLoop : ℕ → Memory Char → ℕ → ℕ → Option (Memory Char × ℕ)
  | 0, buffer, write, read => if read < buffer.length then none else some (buffer, write)
  | rounds + 1, buffer, write, read =>
      if read < buffer.length then do
        let nl ← find buffer '\n' read buffer.length
        let lineEnd ← trimmedEnd buffer read (nl.getD buffer.length)
        let len := lineEnd - read
        let buffer ← moveLine buffer write read len
        let write := write + len
        match nl with
        | some nl => do
            let buffer ← store buffer write '\n'
            rtrimLoop rounds buffer (write + 1) (nl + 1)
        | none => some (buffer, write)
      else some (buffer, write)

/-- The first `newSize` characters end with a newline. -/
def endsLine (buffer : Memory Char) (newSize : ℕ) : Option Bool :=
  if newSize = 0 then some false
  else (load buffer (newSize - 1)).map fun c => decide (c = '\n')

def bufferRtrimLines (buffer : Memory Char) : Option (Memory Char) :=
  if buffer = [] then some buffer
  else do
    let (buffer, newSize) ← rtrimLoop buffer.length buffer 0 0
    let ended ← endsLine buffer newSize
    if ended then some (resize '\x00' buffer newSize)
    else store (resize '\x00' buffer (newSize + 1)) newSize '\n'

/-! ## The reference -/

/-- A line without the blanks at its end. -/
def rtrim (line : List Char) : List Char :=
  line.rdropWhile fun c => isWs c

/-- The lines of a text, each trimmed. -/
def trimmedLines (text : List Char) : List (List Char) :=
  (split '\n' text).map rtrim

/-- A final newline, if there is none. -/
def terminated (text : List Char) : List Char :=
  if text.getLast? = some '\n' then text else text ++ ['\n']

def rtrimmedText (text : List Char) : List Char :=
  terminated (join '\n' (trimmedLines text))

/-! ## One round of the loop -/

theorem trimmedEnd_line (pre line post : List Char) :
    trimmedEnd (pre ++ line ++ post) pre.length (pre.length + line.length) =
      some (pre.length + (rtrim line).length) := by
  induction line using List.reverseRecOn generalizing post with
  | nil =>
      unfold trimmedEnd
      cases h : pre.length <;> simp [rtrim]
  | append_singleton line c ih =>
      have hload : load (pre ++ (line ++ [c]) ++ post) (pre.length + line.length) = some c := by
        have h := load_append (pre ++ line) c post
        simpa using h
      have hbuffer : pre ++ (line ++ [c]) ++ post = pre ++ line ++ (c :: post) := by simp
      have hend : pre.length + (line ++ [c]).length = pre.length + line.length + 1 := by
        rw [List.length_append, List.length_singleton, Nat.add_assoc]
      rw [hend, trimmedEnd, if_pos (by omega), hload]
      by_cases hws : isWs c = true
      · rw [rtrim, List.rdropWhile_concat_pos _ _ _ hws, hbuffer]
        simpa [hws, rtrim] using ih (c :: post)
      · rw [rtrim, List.rdropWhile_concat_neg _ _ _ hws]
        simp [hws]
        omega

theorem moveLine_append (pre gap word post : List Char) :
    moveLine (pre ++ gap ++ word ++ post) pre.length (pre ++ gap).length word.length =
      some (pre ++ word ++ (gap ++ word ++ post).drop word.length) := by
  by_cases hgap : gap = []
  · subst hgap
    simp [moveLine]
  · have hmoved : pre.length ≠ (pre ++ gap).length := by
      have hlength := List.length_pos_of_ne_nil hgap
      rw [List.length_append]
      omega
    rw [moveLine, if_pos hmoved, move_append]

/-- A line is its trimmed part and the blanks behind it. -/
theorem exists_blanks (line : List Char) : ∃ blanks, line = rtrim line ++ blanks := by
  have hprefix : List.IsPrefix (rtrim line) line := List.rdropWhile_prefix _ _
  obtain ⟨blanks, hblanks⟩ := hprefix
  exact ⟨blanks, hblanks.symm⟩

/-- A round over a line with a newline writes the trimmed line behind what was written,
and leaves the rest of the buffer as it is. -/
theorem rtrimLoop_line (rounds : ℕ) (pre gap : List Char) {line : List Char}
    (hline : '\n' ∉ line) (rest : List Char) :
    ∃ gap', rtrimLoop (rounds + 1) (pre ++ gap ++ (line ++ '\n' :: rest)) pre.length
        (pre ++ gap).length =
      rtrimLoop rounds (pre ++ rtrim line ++ ['\n'] ++ gap' ++ rest)
        (pre ++ rtrim line ++ ['\n']).length (pre ++ rtrim line ++ ['\n'] ++ gap').length := by
  obtain ⟨blanks, hblanks⟩ := exists_blanks line
  have hread : (pre ++ gap).length < (pre ++ gap ++ (line ++ '\n' :: rest)).length := by
    simp
  have hnl := find_append (pre ++ gap) hline rest
  have hend : trimmedEnd (pre ++ gap ++ (line ++ '\n' :: rest)) (pre ++ gap).length
      ((pre ++ gap).length + line.length) =
        some ((pre ++ gap).length + (rtrim line).length) := by
    rw [← List.append_assoc]
    exact trimmedEnd_line (pre ++ gap) line ('\n' :: rest)
  have hmove := moveLine_append pre gap (rtrim line) (blanks ++ '\n' :: rest)
  -- behind the moved line stands what was left of the gap, then the rest
  have hdrop : (gap ++ rtrim line ++ (blanks ++ '\n' :: rest)).drop (rtrim line).length =
      (gap ++ line).drop (rtrim line).length ++ ['\n'] ++ rest := by
    have hsplit : gap ++ rtrim line ++ (blanks ++ '\n' :: rest) =
        (gap ++ line) ++ ('\n' :: rest) := by
      nth_rewrite 2 [hblanks]
      simp
    have hlength : (rtrim line).length ≤ (gap ++ line).length := by
      have hlength := congrArg List.length hblanks
      simp only [List.length_append] at hlength ⊢
      omega
    rw [hsplit, List.drop_append_of_le_length hlength, List.append_assoc, List.singleton_append]
  obtain ⟨c, gap', hgap⟩ :=
    List.exists_cons_of_ne_nil (show (gap ++ line).drop (rtrim line).length ++ ['\n'] ≠ [] by simp)
  have hstore := store_append (pre ++ rtrim line) c '\n' (gap' ++ rest)
  have hgap' : gap'.length = (gap ++ line).length - (rtrim line).length := by
    have hlength := congrArg List.length hgap
    simpa using hlength.symm
  have hmoved : moveLine (pre ++ gap ++ (line ++ '\n' :: rest)) pre.length (pre ++ gap).length
      (rtrim line).length =
      some (pre ++ rtrim line ++ c :: (gap' ++ rest)) := by
    have hbuffer : pre ++ gap ++ (line ++ '\n' :: rest) =
        pre ++ gap ++ rtrim line ++ (blanks ++ '\n' :: rest) := by
      nth_rewrite 1 [hblanks]
      simp
    rw [hbuffer, hmove, hdrop, hgap, List.cons_append]
  have hwritten : (pre ++ rtrim line).length + 1 = (pre ++ rtrim line ++ ['\n']).length := by
    simp [Nat.add_assoc]
  have hread' : (pre ++ gap).length + line.length + 1 =
      (pre ++ rtrim line ++ ['\n'] ++ gap').length := by
    have hlength := congrArg List.length hblanks
    simp only [List.length_append, List.length_singleton] at hgap' hlength ⊢
    omega
  refine ⟨gap', ?_⟩
  rw [rtrimLoop, if_pos hread, hnl]
  simp only [Option.bind_eq_bind, Option.bind_some, Option.getD_some, hend,
    Nat.add_sub_cancel_left, hmoved]
  rw [← List.length_append, hstore, Option.bind_some, hwritten, hread']
  simp

/-- The last line, which no newline ends. -/
theorem rtrimLoop_last (rounds : ℕ) (pre gap : List Char) {line : List Char}
    (hline : '\n' ∉ line) (hne : line ≠ []) :
    ∃ left, rtrimLoop (rounds + 1) (pre ++ gap ++ line) pre.length (pre ++ gap).length =
      some (pre ++ rtrim line ++ left, (pre ++ rtrim line).length) := by
  obtain ⟨blanks, hblanks⟩ := exists_blanks line
  have hread : (pre ++ gap).length < (pre ++ gap ++ line).length := by
    have hpos := List.length_pos_of_ne_nil hne
    simp only [List.length_append]
    omega
  have hnl := find_none (pre ++ gap) hline
  have hend : trimmedEnd (pre ++ gap ++ line) (pre ++ gap).length (pre ++ gap ++ line).length =
      some ((pre ++ gap).length + (rtrim line).length) := by
    have htrimmed := trimmedEnd_line (pre ++ gap) line []
    rwa [List.append_nil, ← List.length_append] at htrimmed
  have hmoved : moveLine (pre ++ gap ++ line) pre.length (pre ++ gap).length (rtrim line).length =
      some (pre ++ rtrim line ++ (gap ++ rtrim line ++ blanks).drop (rtrim line).length) := by
    have hbuffer : pre ++ gap ++ line = pre ++ gap ++ rtrim line ++ blanks := by
      nth_rewrite 1 [hblanks]
      simp
    rw [hbuffer, moveLine_append]
  refine ⟨(gap ++ rtrim line ++ blanks).drop (rtrim line).length, ?_⟩
  rw [rtrimLoop, if_pos hread, hnl]
  simp only [Option.bind_eq_bind, Option.bind_some, Option.getD_none, hend,
    Nat.add_sub_cancel_left, hmoved]
  rw [← List.length_append]

/-! ## The whole loop -/

theorem trimmedLines_line {line : List Char} (hline : '\n' ∉ line) (rest : List Char) :
    join '\n' (trimmedLines (line ++ '\n' :: rest)) =
      rtrim line ++ '\n' :: join '\n' (trimmedLines rest) := by
  have hne : (split '\n' rest).map rtrim ≠ [] := by
    simpa using split_ne_nil '\n' rest
  rw [trimmedLines, split_append hline, List.map_cons, join_cons _ hne]
  rfl

theorem trimmedLines_last {line : List Char} (hline : '\n' ∉ line) :
    join '\n' (trimmedLines line) = rtrim line := by
  rw [trimmedLines, split_part hline]
  rfl

/-- What stands between what was written and what is still to be read is lost. -/
theorem rtrimLoop_run {rounds : ℕ} (pre gap text : List Char) (hrounds : text.length ≤ rounds) :
    ∃ left, rtrimLoop rounds (pre ++ gap ++ text) pre.length (pre ++ gap).length =
      some (pre ++ join '\n' (trimmedLines text) ++ left,
        (pre ++ join '\n' (trimmedLines text)).length) := by
  induction rounds generalizing pre gap text with
  | zero =>
      have hempty : text = [] := List.eq_nil_of_length_eq_zero (by omega)
      subst hempty
      refine ⟨gap, ?_⟩
      simp [rtrimLoop, trimmedLines, rtrim, join]
  | succ rounds ih =>
      by_cases hempty : text = []
      · subst hempty
        refine ⟨gap, ?_⟩
        simp [rtrimLoop, trimmedLines, rtrim, join]
      · by_cases hnl : '\n' ∈ text
        · -- the text goes on behind its first line
          obtain ⟨line, rest, htext, hline⟩ := List.eq_append_cons_of_mem hnl
          subst htext
          obtain ⟨gap', hround⟩ := rtrimLoop_line rounds pre gap hline rest
          have hrest : rest.length ≤ rounds := by
            simp only [List.length_append, List.length_cons] at hrounds
            omega
          obtain ⟨left, hleft⟩ := ih (pre ++ rtrim line ++ ['\n']) gap' rest hrest
          refine ⟨left, ?_⟩
          rw [hround, hleft, trimmedLines_line hline]
          simp
        · obtain ⟨left, hlast⟩ := rtrimLoop_last rounds pre gap hnl hempty
          exact ⟨left, by rw [hlast, trimmedLines_last hnl]⟩

theorem resize_append (filler : Char) (out left : List Char) :
    ∃ c, resize filler (out ++ left) (out.length + 1) = out ++ [c] := by
  cases left with
  | nil => exact ⟨filler, by simp [resize]⟩
  | cons c left => exact ⟨c, by simp [resize, List.take_append]⟩

/-- The compaction stays inside of the buffer and leaves the reference text. -/
theorem bufferRtrimLines_eq {buffer : List Char} (hbuffer : buffer ≠ []) :
    bufferRtrimLines buffer = some (rtrimmedText buffer) := by
  obtain ⟨left, hloop⟩ := rtrimLoop_run [] [] buffer le_rfl
  rw [List.nil_append, List.nil_append, List.length_nil] at hloop
  rw [bufferRtrimLines, if_neg hbuffer, hloop, Option.bind_eq_bind, Option.bind_some, rtrimmedText]
  generalize join '\n' (trimmedLines buffer) = out
  rcases List.eq_nil_or_concat' out with rfl | ⟨init, c, rfl⟩
  · obtain ⟨d, hresize⟩ := resize_append '\x00' [] left
    have hstore := store_append [] d '\n' []
    simp only [List.nil_append, List.length_nil, Nat.zero_add] at hresize hstore
    simp [endsLine, terminated, hresize, hstore]
  · have hload : endsLine (init ++ [c] ++ left) (init ++ [c]).length = some (decide (c = '\n')) := by
      have hload := load_append init c left
      simp [endsLine, hload]
    simp only [List.nil_append, Option.bind_eq_bind, hload, Option.bind_some]
    by_cases hc : c = '\n'
    · subst hc
      have htake : (init ++ ['\n'] ++ left).take (init ++ ['\n']).length = init ++ ['\n'] :=
        List.take_left
      simpa [resize, terminated] using htake
    · obtain ⟨d, hresize⟩ := resize_append '\x00' (init ++ [c]) left
      have hstore := store_append (init ++ [c]) d '\n' []
      rw [hresize]
      simpa [hc, terminated] using hstore

/-! ## Trimming twice -/

theorem rtrim_rtrim (line : List Char) : rtrim (rtrim line) = rtrim line :=
  List.rdropWhile_idempotent _ _

theorem notMem_rtrim {line : List Char} (hline : '\n' ∉ line) : '\n' ∉ rtrim line := by
  have hshorter : List.IsPrefix (rtrim line) line := List.rdropWhile_prefix _ _
  exact fun h => hline (hshorter.subset h)

/-- The lines of a text that was trimmed are its trimmed lines, with an empty one at the end
where the last newline was put. -/
theorem exists_rtrimmedText_eq (text : List Char) :
    ∃ lines, lines ≠ [] ∧ (∀ line ∈ lines, '\n' ∉ line ∧ rtrim line = line) ∧
      rtrimmedText text = join '\n' lines := by
  have hne : trimmedLines text ≠ [] := by
    simpa [trimmedLines] using split_ne_nil '\n' text
  have hlines : ∀ line ∈ trimmedLines text, '\n' ∉ line ∧ rtrim line = line := by
    intro line hline
    obtain ⟨part, hpart, rfl⟩ := List.mem_map.1 hline
    exact ⟨notMem_rtrim (notMem_of_mem_split hpart), rtrim_rtrim part⟩
  unfold rtrimmedText terminated
  split
  · exact ⟨trimmedLines text, hne, hlines, rfl⟩
  · refine ⟨trimmedLines text ++ [[]], by simp, ?_, (join_concat_nil hne).symm⟩
    intro line hline
    rcases List.mem_append.1 hline with hline | hline
    · exact hlines line hline
    · rw [List.mem_singleton.1 hline]
      simp [rtrim]

theorem terminated_terminated (text : List Char) :
    terminated (terminated text) = terminated text := by
  have hlast : (terminated text).getLast? = some '\n' := by
    unfold terminated
    split
    · assumption
    · simp
  rw [terminated, if_pos hlast]

theorem rtrimmedText_rtrimmedText (text : List Char) :
    rtrimmedText (rtrimmedText text) = rtrimmedText text := by
  obtain ⟨lines, hne, hlines, htext⟩ := exists_rtrimmedText_eq text
  have htrimmed : trimmedLines (rtrimmedText text) = lines := by
    rw [htext, trimmedLines, split_join hne fun line hline => (hlines line hline).1]
    exact (List.map_congr_left fun line hline => (hlines line hline).2).trans (List.map_id lines)
  calc rtrimmedText (rtrimmedText text)
      = terminated (join '\n' lines) := by rw [rtrimmedText, htrimmed]
    _ = terminated (rtrimmedText text) := by rw [htext]
    _ = rtrimmedText text := terminated_terminated _

theorem rtrimmedText_ne_nil (text : List Char) : rtrimmedText text ≠ [] := by
  unfold rtrimmedText terminated
  split
  · rename_i hlast
    intro hnil
    rw [hnil] at hlast
    cases hlast
  · simp

/-- The in-place trim is its reference, and a second trim changes nothing. -/
theorem bufferRtrimLines_eq_rtrimmedText {buffer : List Char} (hbuffer : buffer ≠ []) :
    bufferRtrimLines buffer = some (rtrimmedText buffer) ∧
      (bufferRtrimLines buffer).bind bufferRtrimLines = bufferRtrimLines buffer := by
  have honce := bufferRtrimLines_eq hbuffer
  have htwice := bufferRtrimLines_eq (rtrimmedText_ne_nil buffer)
  constructor
  · exact honce
  · rw [honce, Option.bind_some, htwice, rtrimmedText_rtrimmedText]

theorem bufferRtrimLines_eq_rtrimmedText_blanks :
    bufferRtrimLines ['a', ' ', '\n', '\t', '\r'] =
        some (rtrimmedText ['a', ' ', '\n', '\t', '\r']) ∧
      (bufferRtrimLines ['a', ' ', '\n', '\t', '\r']).bind bufferRtrimLines =
        bufferRtrimLines ['a', ' ', '\n', '\t', '\r'] :=
  bufferRtrimLines_eq_rtrimmedText (by decide)

end ArtdaqDatabase
