import EvmInspect.Proofs.Basic
import EvmInspect.Proofs.Digits
import EvmInspect.Source.Excerpt
/-!
# What excerpts show

An excerpt is made of a heading and rows.  There is a row for each line from the one before the node
to the one behind it, as far as the source has them, and behind the row of the node's first line
there is one with a caret.  All numbers end in one column, so that the texts start in one column,
and the caret stands below the letter that its line has at the node's column.
-/

namespace EvmInspect.Excerpt

variable {n : SourceNode} {lines : List (List Char)} {text row : List Char}
  {width number first last position : Nat}

/-! ## Rows -/

def field (width number : Nat) : List Char :=
  List.replicate (width - (Nat.toDigits 10 number).length) ' ' ++ Nat.toDigits 10 number

def mark (n : SourceNode) (number : Nat) : List Char :=
  if n.line ≤ number ∧ number ≤ max n.line n.endLine then ['-', '-', '-', '>']
  else [' ', ' ', ' ', ' ']

def margin (n : SourceNode) (width number : Nat) : List Char :=
  ' ' :: ' ' :: (mark n number ++ ' ' :: (field width number ++ [' ']))

def ShowsLine (lines : List (List Char)) (n : SourceNode) (width number : Nat)
    (row : List Char) : Prop :=
  ∃ text, lines[number - 1]? = some text ∧ row = margin n width number ++ text

def caretRow (position : Nat) : List Char :=
  ' ' :: ' ' :: (List.replicate (position - 2) '-' ++ ['^'])

def unlines (rows : List (List Char)) : List Char := rows.flatMap fun row => row ++ ['\n']

theorem unlines_append (rows rows' : List (List Char)) :
    unlines (rows ++ rows') = unlines rows ++ unlines rows' := List.flatMap_append

theorem length_field (h : (Nat.toDigits 10 number).length ≤ width) :
    (field width number).length = width := by
  rw [field, List.length_append, List.length_replicate]
  omega

theorem length_mark (n : SourceNode) (number : Nat) : (mark n number).length = 4 := by
  rw [mark]
  split <;> rfl

theorem length_margin (h : (field width number).length = width) :
    (margin n width number).length = 8 + width := by
  simp only [margin, List.length_cons, List.length_append, length_mark, h, List.length_nil]
  omega

theorem getElem?_caretRow (h : 2 ≤ position) : (caretRow position)[position]? = some '^' := by
  obtain ⟨k, rfl⟩ : ∃ k, position = k + 2 := ⟨position - 2, by omega⟩
  simp [caretRow]

/-! ## Lines as rows -/

theorem toList_mark (n : SourceNode) (number : Nat) :
    (if inNode n number then "--->" else "    ").toList = mark n number := by
  have hnode : inNode n number = true ↔ n.line ≤ number ∧ number ≤ max n.line n.endLine := by
    rw [inNode, lastLine, Nat.max_comm, Bool.and_eq_true, decide_eq_true_eq, decide_eq_true_eq]
  simp only [mark, ← hnode]
  split <;> rfl

theorem toList_padLeft (width number : Nat) :
    (padLeft width (toString number)).toList = field width number := by
  rw [padLeft, String.toList_append, String.toList_ofList, length_nat, toList_nat, field]

theorem toList_textLine (n : SourceNode) (width number : Nat) (text : List Char) :
    (textLine n width number text).toList = margin n width number ++ text ++ ['\n'] := by
  have hmark := toList_mark n number
  have hnumber := toList_padLeft width number
  rw [textLine]
  generalize (if inNode n number then "--->" else "    ") = arrow at hmark
  generalize padLeft width (toString number) = padded at hnumber
  simp [toString, margin, hmark, hnumber]

theorem toList_caretLine (n : SourceNode) (width : Nat) :
    (caretLine n width).toList = caretRow (8 + width + n.column) ++ ['\n'] := by
  have hcount : 8 + width + n.column - 2 = 4 + width + 2 + n.column := by omega
  rw [caretLine, caretRow, hcount, String.toList_append, String.toList_append,
    String.toList_ofList]
  simp

theorem toList_shown (h : lines[number - 1]? = some text) (hne : number ≠ n.line) :
    (shown n width lines number).toList = unlines [margin n width number ++ text] := by
  simp [shown, h, hne, toList_textLine, unlines]

theorem toList_shown_line (h : lines[n.line - 1]? = some text) :
    (shown n width lines n.line).toList =
      unlines [margin n width n.line ++ text, caretRow (8 + width + n.column)] := by
  simp [shown, h, toList_textLine, toList_caretLine, unlines]

theorem toList_join_shown {numbers : List Nat} {rows : List (List Char)}
    (h : List.Forall₂ (ShowsLine lines n width) numbers rows) (hne : n.line ∉ numbers) :
    (String.join (numbers.map (shown n width lines))).toList = unlines rows := by
  induction h with
  | nil => rfl
  | @cons number row numbers rows hrow _ ih =>
    obtain ⟨text, htext, rfl⟩ := hrow
    rw [List.mem_cons, not_or] at hne
    rw [List.map_cons, String.join_cons, String.toList_append, ih hne.2,
      toList_shown htext (Ne.symm hne.1), ← unlines_append]
    rfl

theorem numbers_eq (first last : Nat) :
    numbers first last = List.range' first (last + 1 - first) :=
  List.range'_eq_map_range.symm

theorem range'_around (hfirst : first ≤ number) (hlast : number ≤ last) :
    List.range' first (last + 1 - first) =
      List.range' first (number - first) ++ number :: List.range' (number + 1) (last - number) := by
  have hcount : last + 1 - first = (number - first) + ((last - number) + 1) := by omega
  have hnext : first + (number - first) = number := by omega
  rw [hcount, ← List.range'_append_1, hnext, List.range'_succ]

theorem exists_showsLine (n : SourceNode) (width : Nat) (hpos : 1 ≤ number)
    (hle : number ≤ lines.length) : ∃ row, ShowsLine lines n width number row :=
  ⟨_, _, List.getElem?_eq_getElem (show number - 1 < lines.length by omega), rfl⟩

theorem exists_showsLines (n : SourceNode) (width : Nat) {count : Nat} (hpos : 1 ≤ first)
    (hle : first + count ≤ lines.length + 1) :
    ∃ rows, List.Forall₂ (ShowsLine lines n width) (List.range' first count) rows := by
  refine exists_forall₂ fun number hnumber => ?_
  rw [List.mem_range'_1] at hnumber
  exact exists_showsLine n width (by omega) (by omega)

/-! ## Letters of rows -/

theorem newline_notMem_dropReturn {line : List Char} (h : '\n' ∉ line) :
    '\n' ∉ Text.dropReturn line := by
  rw [Text.dropReturn]
  split
  · exact fun hmem => h (List.dropLast_subset line hmem)
  · exact h

theorem newline_notMem_linesFrom {s line : List Char} (h : '\n' ∉ line) :
    ∀ l ∈ Text.linesFrom line s, '\n' ∉ l := by
  induction s generalizing line with
  | nil =>
    intro l hl
    rw [Text.linesFrom] at hl
    split at hl
    · simp at hl
    · rwa [List.mem_singleton.1 hl]
  | cons c rest ih =>
    rw [Text.linesFrom]
    split
    · exact List.forall_mem_cons.2 ⟨newline_notMem_dropReturn h, ih List.not_mem_nil⟩
    · rename_i hc
      refine ih ?_
      rw [List.mem_append, List.mem_singleton, not_or]
      exact ⟨h, Ne.symm hc⟩

theorem newline_notMem_margin (n : SourceNode) (width number : Nat) :
    '\n' ∉ margin n width number := by
  have hmark : '\n' ∉ mark n number := by
    rw [mark]
    split <;> decide
  have hdigits : '\n' ∉ Nat.toDigits 10 number := fun h =>
    absurd (isDigit_toDigits number _ h) (by decide)
  simp [margin, field, hmark, hdigits]

theorem newline_notMem_caretRow (position : Nat) : '\n' ∉ caretRow position := by
  simp [caretRow]

theorem ShowsLine.newline_notMem {s : List Char}
    (h : ShowsLine (Text.lines s) n width number row) : '\n' ∉ row := by
  obtain ⟨text, htext, rfl⟩ := h
  rw [List.mem_append, not_or]
  exact ⟨newline_notMem_margin n width number,
    newline_notMem_linesFrom List.not_mem_nil text (List.mem_of_getElem? htext)⟩

theorem lastShown_eq {count : Nat} (h : count ≤ Size.limit) :
    lastShown n count = min (max n.line n.endLine + 1) count := by
  rw [lastShown, lastLine, Size.add]
  omega

/-- The text of the rows of consecutive lines, with the caret behind the row of the node's first
line. -/
theorem toList_join_around {before after : List (List Char)} (hfirst : first ≤ n.line)
    (hlast : n.line ≤ last) (htext : lines[n.line - 1]? = some text)
    (hbefore : List.Forall₂ (ShowsLine lines n width)
      (List.range' first (n.line - first)) before)
    (hafter : List.Forall₂ (ShowsLine lines n width)
      (List.range' (n.line + 1) (last - n.line)) after) :
    (String.join ((numbers first last).map (shown n width lines))).toList =
      unlines (before ++ (margin n width n.line ++ text) ::
        caretRow (8 + width + n.column) :: after) := by
  have hnot : n.line ∉ List.range' first (n.line - first) := by
    rw [List.mem_range'_1]
    omega
  have hnot' : n.line ∉ List.range' (n.line + 1) (last - n.line) := by
    rw [List.mem_range'_1]
    omega
  rw [numbers_eq, range'_around hfirst hlast, List.map_append, List.map_cons, String.join_append,
    String.join_cons, String.toList_append, String.toList_append, toList_join_shown hbefore hnot,
    toList_join_shown hafter hnot', toList_shown_line htext, ← unlines_append, ← unlines_append]
  rfl

theorem render_eq (source : String) (n : SourceNode) (function : Option String)
    (h : (Text.lines source.toList).length ≤ Size.limit) :
    let lines := Text.lines source.toList
    let last := min (max n.line n.endLine + 1) lines.length
    render source n function = String.ofList (Text.trimEnd ((heading n function).toList ++
      (String.join ((numbers (max 1 (n.line - 1)) last).map
        (shown n (Nat.toDigits 10 last).length lines))).toList)) := by
  simp only [render, lastShown_eq h, firstShown, length_nat, String.toList_append,
    Nat.max_comm (n.line - 1) 1]

/-- An excerpt shows every line that the source has from the one before the node to the one behind
it, once and in order, each with its number at the right end of a field as wide as the last number.
The arrows mark the node's lines, and the caret below the first of them stands where the row of that
line has the letter at the node's column. -/
theorem render_shows (source : String) (n : SourceNode) (function : Option String)
    (hpos : 1 ≤ n.line) (hline : n.line ≤ (Text.lines source.toList).length)
    (hlimit : (Text.lines source.toList).length ≤ Size.limit) :
    let lines := Text.lines source.toList
    let first := max 1 (n.line - 1)
    let last := min (max n.line n.endLine + 1) lines.length
    let width := (Nat.toDigits 10 last).length
    let position := (margin n width n.line).length + n.column
    ∃ (before after : List (List Char)) (text : List Char),
      let row := margin n width n.line ++ text
      render source n function = String.ofList (Text.trimEnd ((heading n function).toList ++
          unlines (before ++ row :: caretRow position :: after))) ∧
        lines[n.line - 1]? = some text ∧ before.length = n.line - first ∧
        List.Forall₂ (ShowsLine lines n width) (List.range' first (last + 1 - first))
          (before ++ row :: after) ∧
        (∀ number ≤ last, (field width number).length = width) ∧
        (∀ r ∈ before ++ row :: caretRow position :: after, '\n' ∉ r) ∧
        (caretRow position)[position]? = some '^' ∧ row[position]? = text[n.column]? := by
  intro lines first last width position
  have hbound : n.line ≤ lines.length := hline
  have hfirst : first ≤ n.line := by omega
  have hlast : n.line ≤ last := by omega
  have hfield : ∀ number ≤ last, (field width number).length = width := fun number h =>
    length_field (length_toDigits_mono h)
  have hmargin : (margin n width n.line).length = 8 + width := length_margin (hfield _ hlast)
  -- the rows in front of the one that the caret belongs to, that row, and the rows behind it
  obtain ⟨before, hbefore⟩ : ∃ rows, List.Forall₂ (ShowsLine lines n width)
      (List.range' first (n.line - first)) rows := exists_showsLines n width (by omega) (by omega)
  obtain ⟨_, text, htext, rfl⟩ : ∃ row, ShowsLine lines n width n.line row :=
    exists_showsLine n width hpos hbound
  obtain ⟨after, hafter⟩ : ∃ rows, List.Forall₂ (ShowsLine lines n width)
      (List.range' (n.line + 1) (last - n.line)) rows :=
    exists_showsLines n width (by omega) (by omega)
  have hrows : List.Forall₂ (ShowsLine lines n width) (List.range' first (last + 1 - first))
      (before ++ (margin n width n.line ++ text) :: after) := by
    rw [range'_around hfirst hlast]
    exact List.rel_append hbefore (.cons ⟨text, htext, rfl⟩ hafter)
  refine ⟨before, after, text, ?_, htext, ?_, hrows, hfield, ?_, ?_, ?_⟩
  · rw [render_eq source n function hlimit,
      toList_join_around hfirst hlast htext hbefore hafter, ← hmargin]
  · rw [← hbefore.length_eq, List.length_range']
  · have hclean := forall_right_of_forall₂ hrows fun _ _ _ h => h.newline_notMem
    intro r hr
    by_cases hcaret : r = caretRow position
    · rw [hcaret]
      exact newline_notMem_caretRow position
    · exact hclean r (by simpa [hcaret] using hr)
  · exact getElem?_caretRow (by omega)
  · rw [List.getElem?_append_right (Nat.le_add_right _ _), Nat.add_sub_cancel_left]

/-- Lines with numbers of one digit and of two. -/
theorem render_shows_tenLines :
    let source := "a\nb\nc\nd\ne\nf\ng\nh:\n    assert y < 10\n    z = y"
    let n : SourceNode :=
      { id := 3, kind := "Compare", line := 9, column := 11, endLine := 9, endColumn := 17 }
    ∃ before after,
      render source n none = String.ofList (Text.trimEnd ("  line 9:11\n".toList ++ unlines
        (before ++ "  --->  9     assert y < 10".toList ::
          "  -------------------^".toList :: after))) ∧
      List.Forall₂ (ShowsLine (Text.lines source.toList) n 2) [8, 9, 10]
        (before ++ "  --->  9     assert y < 10".toList :: after) := by
  intro source n
  obtain ⟨before, after, text, hrender, htext, -, hrows, -⟩ :=
    render_shows source n none (by decide) (by decide +kernel) (by decide +kernel)
  have hline : (Text.lines source.toList)[n.line - 1]? = some "    assert y < 10".toList := by
    decide +kernel
  have hlast : min (max n.line n.endLine + 1) (Text.lines source.toList).length = 10 := by
    decide +kernel
  have hwidth : (Nat.toDigits 10 10).length = 2 := by decide
  have hcaret : caretRow ((margin n 2 n.line).length + n.column) =
      "  -------------------^".toList := by decide +kernel
  have hrow : margin n 2 n.line ++ "    assert y < 10".toList =
      "  --->  9     assert y < 10".toList := by decide +kernel
  have hheading : (heading n none).toList = "  line 9:11\n".toList := by decide +kernel
  rw [hline, Option.some_inj] at htext
  simp only [hlast, hwidth, hcaret, ← htext, hrow, hheading] at hrender hrows
  exact ⟨before, after, hrender, hrows⟩

end EvmInspect.Excerpt
