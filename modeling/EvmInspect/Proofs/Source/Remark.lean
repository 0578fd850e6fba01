import EvmInspect.Proofs.Basic
import EvmInspect.Source.Remark
import Mathlib.Data.List.TakeWhile
/-!
# Remarks are read as they are written

A remark stands behind the first `#` of its line that no string literal holds: blanks, a word,
blanks, a colon, and the text between blanks.  Neither a blank nor the colon is a letter of words,
so that the parts can be told apart, whatever colons and marks the text has in it.
-/

namespace EvmInspect

namespace Text

variable {c : Char} {s t v w rest : List Char}

def Blank (w : List Char) : Prop := ∀ c ∈ w, isBlank c = true

def IsWord (w : List Char) : Prop := w ≠ [] ∧ ∀ c ∈ w, isWordLetter c = true

/-- There is something, and neither its first letter nor its last one is a blank. -/
def Trimmed (t : List Char) : Prop :=
  t ≠ [] ∧ (∀ c ∈ t.head?, isBlank c = false) ∧ ∀ c ∈ t.getLast?, isBlank c = false

/-! ## Blanks and letters of words -/

theorem inRanges_eq_true {ranges : List (Nat × Nat)} {n : Nat} :
    inRanges ranges n = true ↔ ∃ r ∈ ranges, r.1 ≤ n ∧ n ≤ r.2 := by
  simp [inRanges]

/-- No range of blanks meets a range of letters. -/
theorem blankRanges_apart : ∀ r ∈ blankRanges, ∀ s ∈ wordRanges, r.2 < s.1 ∨ s.2 < r.1 := by
  decide +kernel

theorem isWordLetter_of_isBlank (h : isBlank c = true) : isWordLetter c = false := by
  obtain ⟨r, hr, hlow, hhigh⟩ := inRanges_eq_true.1 h
  by_contra hword
  rw [Bool.not_eq_false] at hword
  obtain ⟨s, hs, hlow', hhigh'⟩ := inRanges_eq_true.1 hword
  have hapart := blankRanges_apart r hr s hs
  omega

theorem isBlank_of_isWordLetter (h : isWordLetter c = true) : isBlank c = false := by
  by_contra hblank
  rw [Bool.not_eq_false] at hblank
  exact Bool.false_ne_true ((isWordLetter_of_isBlank hblank).symm.trans h)

/-! ## Trimming -/

theorem blank_takeWhile (s : List Char) : Blank (s.takeWhile isBlank) :=
  fun _ => List.mem_takeWhile_imp

theorem Blank.reverse (h : Blank w) : Blank w.reverse := fun c hc => h c (List.mem_reverse.1 hc)

theorem takeWhile_append_trimStart (s : List Char) : s.takeWhile isBlank ++ trimStart s = s :=
  List.takeWhile_append_dropWhile

theorem isBlank_head?_trimStart (s : List Char) :
    ∀ c ∈ (trimStart s).head?, isBlank c = false := by
  intro c hc
  have hhead := List.head?_dropWhile_not isBlank s
  rw [trimStart, Option.mem_def] at hc
  simpa [hc] using hhead

theorem trimStart_run (hw : Blank w) (hrest : ∀ c ∈ rest.head?, isBlank c = false) :
    trimStart (w ++ rest) = rest :=
  dropWhile_run hw hrest

theorem trimEnd_run (hw : Blank w) (ht : ∀ c ∈ t.getLast?, isBlank c = false) :
    trimEnd (t ++ w) = t := by
  have hlast : ∀ c ∈ t.reverse.head?, isBlank c = false := by
    rw [List.head?_reverse]
    exact ht
  rw [trimEnd, List.reverse_append, dropWhile_run hw.reverse hlast, List.reverse_reverse]

theorem exists_trimEnd (s : List Char) : ∃ w, Blank w ∧ trimEnd s ++ w = s := by
  refine ⟨(s.reverse.takeWhile isBlank).reverse, (blank_takeWhile _).reverse, ?_⟩
  rw [trimEnd, ← List.reverse_append, List.takeWhile_append_dropWhile, List.reverse_reverse]

theorem isBlank_getLast?_trimEnd (s : List Char) :
    ∀ c ∈ (trimEnd s).getLast?, isBlank c = false := by
  rw [trimEnd, List.getLast?_reverse]
  exact isBlank_head?_trimStart s.reverse

theorem trim_run (hv : Blank v) (ht : Trimmed t) (hw : Blank w) : trim (v ++ (t ++ w)) = t := by
  obtain ⟨hne, hfirst, hlast⟩ := ht
  have hhead : ∀ c ∈ (t ++ w).head?, isBlank c = false := by
    rwa [List.head?_append_of_ne_nil t hne]
  rw [trim, trimStart_run hv hhead, trimEnd_run hw hlast]

/-- What trimming leaves of a text is the text between two runs of blanks. -/
theorem exists_trim (h : trim s ≠ []) :
    Trimmed (trim s) ∧ ∃ v w, Blank v ∧ Blank w ∧ v ++ (trim s ++ w) = s := by
  obtain ⟨w, hw, hend⟩ := exists_trimEnd (trimStart s)
  refine ⟨⟨h, ?_, isBlank_getLast?_trimEnd _⟩, s.takeWhile isBlank, w, blank_takeWhile s, hw, ?_⟩
  · intro c hc
    refine isBlank_head?_trimStart s c ?_
    rw [← hend]
    exact (List.head?_append_of_ne_nil (trim s) h).symm ▸ hc
  · rw [trim, hend, takeWhile_append_trimStart]

end Text

namespace Remark

variable {a : Remark} {q : Char} {escaped : Bool} {s front body rest comment line : List Char}

open Text

/-! ## Comments -/

/-- What stands between the quotes of a literal: a backslash goes with the character behind it, and
the quote stands nowhere else. -/
inductive LiteralBody (q : Char) : List Char → Prop
  | nil : LiteralBody q []
  | letter {c : Char} {rest : List Char} (hquote : c ≠ q) (hslash : c ≠ '\\')
    (hrest : LiteralBody q rest) : LiteralBody q (c :: rest)
  | escape {c : Char} {rest : List Char} (hrest : LiteralBody q rest) :
    LiteralBody q ('\\' :: c :: rest)

/-- Every literal is closed, and no `#` stands outside of literals. -/
inductive Uncommented : List Char → Prop
  | nil : Uncommented []
  | letter {c : Char} {rest : List Char} (hdouble : c ≠ '"') (hsingle : c ≠ '\x27')
    (hmark : c ≠ '#') (hrest : Uncommented rest) : Uncommented (c :: rest)
  | literal {q : Char} {body rest : List Char} (hq : q = '"' ∨ q = '\x27')
    (hbody : LiteralBody q body) (hrest : Uncommented rest) :
    Uncommented (q :: (body ++ q :: rest))

theorem commentFrom_literal (hq : q = '"' ∨ q = '\x27') (h : LiteralBody q body) :
    commentFrom (some q) false (body ++ q :: rest) = commentFrom none false rest := by
  have hslash : q ≠ '\\' := by
    obtain rfl | rfl := hq
    · decide
    · decide
  induction h with
  | nil => simp [commentFrom, hslash]
  | letter hquote hslash _ ih => simp [commentFrom, hquote, hslash, ih]
  | escape _ ih => simp [commentFrom, ih]

theorem comment?_of_uncommented (h : Uncommented front) :
    comment? (front ++ '#' :: rest) = some rest := by
  rw [comment?]
  induction h with
  | nil => simp [commentFrom]
  | letter hdouble hsingle hmark _ ih => simp [commentFrom, hdouble, hsingle, hmark, ih]
  | literal hq hbody _ ih =>
    rw [List.cons_append, List.append_assoc, List.cons_append, commentFrom, if_pos hq,
      commentFrom_literal hq hbody, ih]

/-- Behind the rest of an open literal the comment is the first one outside of literals. -/
def Closes (q : Char) (s comment : List Char) : Prop :=
  ∃ body front, LiteralBody q body ∧ Uncommented front ∧ s = body ++ q :: (front ++ '#' :: comment)

/-- What is left to read before a comment: of the literal that is open, if one is, and behind it. -/
def Leads : (quote : Option Char) → (escaped : Bool) → (s comment : List Char) → Prop
  | none, _, s, comment => ∃ front, Uncommented front ∧ s = front ++ '#' :: comment
  | some q, false, s, comment => Closes q s comment
  | some q, true, s, comment => ∃ c rest, s = c :: rest ∧ Closes q rest comment

theorem leads_of_commentFrom {quote : Option Char} (h : commentFrom quote escaped s = some comment)
    (hopen : quote = none → escaped = false) : Leads quote escaped s comment := by
  induction s generalizing quote escaped with
  | nil => simp [commentFrom] at h
  | cons c s ih =>
    cases quote with
    | none =>
      obtain rfl := hopen rfl
      rw [commentFrom] at h
      by_cases hquote : c = '"' ∨ c = '\x27'
      · rw [if_pos hquote] at h
        obtain ⟨body, front, hbody, hfront, rfl⟩ := ih h nofun
        refine ⟨c :: (body ++ c :: front), .literal hquote hbody hfront, ?_⟩
        simp
      · rw [if_neg hquote] at h
        rw [not_or] at hquote
        by_cases hmark : c = '#'
        · rw [if_pos hmark, Option.some.injEq] at h
          exact ⟨[], .nil, by rw [hmark, h, List.nil_append]⟩
        · rw [if_neg hmark] at h
          obtain ⟨front, hfront, rfl⟩ := ih h fun _ => rfl
          exact ⟨c :: front, .letter hquote.1 hquote.2 hmark hfront, rfl⟩
    | some q =>
      rw [commentFrom] at h
      cases escaped with
      | true => exact ⟨c, s, rfl, ih h nofun⟩
      | false =>
        rw [if_neg Bool.false_ne_true] at h
        by_cases hslash : c = '\\'
        · rw [if_pos hslash] at h
          obtain ⟨d, rest, rfl, body, front, hbody, hfront, rfl⟩ := ih h nofun
          exact ⟨'\\' :: d :: body, front, .escape hbody, hfront, by rw [hslash]; rfl⟩
        · rw [if_neg hslash] at h
          by_cases hquote : c = q
          · rw [if_pos hquote] at h
            obtain ⟨front, hfront, rfl⟩ := ih h fun _ => rfl
            exact ⟨[], front, .nil, hfront, by rw [hquote, List.nil_append]⟩
          · rw [if_neg hquote] at h
            obtain ⟨body, front, hbody, hfront, rfl⟩ := ih h nofun
            exact ⟨c :: body, front, .letter hquote hslash hbody, hfront, rfl⟩

theorem comment?_eq_some : comment? line = some comment ↔
    ∃ front, Uncommented front ∧ line = front ++ '#' :: comment := by
  constructor
  · intro h
    exact leads_of_commentFrom h fun _ => rfl
  · rintro ⟨front, hfront, rfl⟩
    exact comment?_of_uncommented hfront

/-! ## Remarks in comments -/

/-- The parts of a comment that is a remark. -/
def Written (comment : List Char) (a : Remark) : Prop :=
  ∃ w₁ w₂ w₃ w₄, comment =
      w₁ ++ (a.kind.toList ++ (w₂ ++ ':' :: (w₃ ++ (a.text.toList ++ w₄)))) ∧
    IsWord a.kind.toList ∧ Trimmed a.text.toList ∧ Blank w₁ ∧ Blank w₂ ∧ Blank w₃ ∧ Blank w₄

theorem ofComment?_of_written (h : Written comment a) : ofComment? comment = some a := by
  obtain ⟨w₁, w₂, w₃, w₄, rfl, ⟨hne, hword⟩, htext, h₁, h₂, h₃, h₄⟩ := h
  have hfirst : ∀ c ∈ (a.kind.toList ++ (w₂ ++ ':' :: (w₃ ++ (a.text.toList ++ w₄)))).head?,
      isBlank c = false := by
    rw [List.head?_append_of_ne_nil _ hne]
    exact fun c hc => isBlank_of_isWordLetter (hword c (List.mem_of_mem_head? hc))
  have hbehind : ∀ c ∈ (w₂ ++ ':' :: (w₃ ++ (a.text.toList ++ w₄))).head?,
      isWordLetter c = false := by
    cases w₂ with
    | nil => simp; decide +kernel
    | cons c w₂ => simpa using isWordLetter_of_isBlank (h₂ c List.mem_cons_self)
  have hcolon : ∀ c ∈ (':' :: (w₃ ++ (a.text.toList ++ w₄))).head?, isBlank c = false := by
    simp; decide +kernel
  rw [ofComment?, trimStart_run h₁ hfirst]
  simp only [takeWhile_run hword hbehind, dropWhile_run hword hbehind, trimStart_run h₂ hcolon,
    trim_run h₃ htext h₄]
  simp [hne, htext.1, String.ofList_toList]

theorem written_of_ofComment? (h : ofComment? comment = some a) : Written comment a := by
  rw [ofComment?] at h
  simp only at h
  split at h
  · rename_i rest hrest
    rw [Option.ite_none_left_eq_some, Option.some.injEq, not_or, List.isEmpty_iff,
      List.isEmpty_iff] at h
    obtain ⟨⟨hkind, htext⟩, rfl⟩ := h
    obtain ⟨htrimmed, w₃, w₄, h₃, h₄, hbehind⟩ := exists_trim htext
    refine ⟨comment.takeWhile isBlank,
      ((trimStart comment).dropWhile isWordLetter).takeWhile isBlank, w₃, w₄, ?_, ?_, ?_,
      blank_takeWhile _, blank_takeWhile _, h₃, h₄⟩
    · rw [String.toList_ofList, String.toList_ofList, hbehind, ← hrest,
        takeWhile_append_trimStart, List.takeWhile_append_dropWhile, takeWhile_append_trimStart]
    · rw [String.toList_ofList]
      exact ⟨hkind, fun _ => List.mem_takeWhile_imp⟩
    · rw [String.toList_ofList]
      exact htrimmed
  · exact nomatch h

theorem ofComment?_eq_some : ofComment? comment = some a ↔ Written comment a :=
  ⟨written_of_ofComment?, ofComment?_of_written⟩

def Annotates (a : Remark) (line : List Char) : Prop :=
  ∃ front comment, line = front ++ '#' :: comment ∧ Uncommented front ∧ Written comment a

theorem ofLine?_eq_some : ofLine? line = some a ↔ a.Annotates line := by
  simp only [ofLine?, Option.bind_eq_some_iff, comment?_eq_some, ofComment?_eq_some]
  constructor
  · rintro ⟨comment, ⟨front, hfront, rfl⟩, hwritten⟩
    exact ⟨front, comment, rfl, hfront, hwritten⟩
  · rintro ⟨front, comment, rfl, hfront, hwritten⟩
    exact ⟨comment, ⟨front, hfront, rfl⟩, hwritten⟩

/-! ## Remarks of a source -/

def lineAt? (source : String) : Nat → Option (List Char)
  | 0 => none
  | i + 1 => (Text.lines source.toList)[i]?

theorem findSome?_eq_some_getElem? {α β : Type} {f : α → Option β} {as : List α} {b : β} :
    as.findSome? f = some b ↔ ∃ (k : Nat) (a : α), as[k]? = some a ∧ f a = some b ∧
      ∀ j < k, ∀ a', as[j]? = some a' → f a' = none := by
  rw [List.findSome?_eq_some_iff]
  constructor
  · rintro ⟨before, a, after, rfl, ha, hbefore⟩
    refine ⟨before.length, a, by simp, ha, fun j hj a' ha' => hbefore a' ?_⟩
    rw [List.getElem?_append_left hj] at ha'
    exact List.mem_of_getElem? ha'
  · rintro ⟨k, a, hk, ha, hbefore⟩
    obtain ⟨hlt, rfl⟩ := List.getElem?_eq_some_iff.1 hk
    refine ⟨as.take k, as[k], as.drop (k + 1), ?_, ha, fun a' ha' => ?_⟩
    · rw [← List.drop_eq_getElem_cons hlt, List.take_append_drop]
    · obtain ⟨j, hj, rfl⟩ := List.getElem_of_mem ha'
      rw [List.length_take] at hj
      refine hbefore j (by omega) _ ?_
      rw [List.getElem_take, List.getElem?_eq_getElem]

theorem lineAt?_pos {source : String} {i : Nat} (h : lineAt? source i = some line) : 0 < i := by
  cases i with
  | zero => exact nomatch h
  | succ i => exact Nat.succ_pos i

/-- The lines that are searched are those from the first number on up to the last, counted from 1,
as far as the source has them; the first one is among them even if the last number is less. -/
theorem getElem?_lines (source : String) (first last k : Nat) :
    (((Text.lines source.toList).drop (max first 1 - 1)).take
      (max last first - (max first 1 - 1)))[k]? =
    if max first 1 + k ≤ max first last then lineAt? source (max first 1 + k) else none := by
  obtain ⟨m, hm⟩ : ∃ m, max first 1 + k = m + 1 := ⟨max first 1 - 1 + k, by omega⟩
  rw [List.getElem?_take, List.getElem?_drop, hm, lineAt?]
  by_cases hk : m + 1 ≤ max first last
  · rw [if_pos hk, if_pos (by omega), show max first 1 - 1 + k = m by omega]
  · rw [if_neg hk, if_neg (by omega)]

/-- What is found on some lines of a source is the remark of the first of them that has one,
whatever stands on the lines behind it; what the lines hold is read with all its parts as they are
written. -/
theorem find?_eq_some_iff_annotates (source : String) (first last : Nat) (a : Remark) :
    find? source first last = some a ↔
      ∃ i line, lineAt? source i = some line ∧ first ≤ i ∧ i ≤ max first last ∧
        a.Annotates line ∧
        ∀ j line', lineAt? source j = some line' → first ≤ j → j < i →
          ∀ b : Remark, ¬ b.Annotates line' := by
  rw [find?]
  simp only [findSome?_eq_some_getElem?, getElem?_lines]
  constructor
  · rintro ⟨k, line, hline, ha, hbefore⟩
    rw [Option.ite_none_right_eq_some] at hline
    refine ⟨max first 1 + k, line, hline.2, by omega, hline.1, ofLine?_eq_some.1 ha,
      fun j line' hline' hj hjk b hb => ?_⟩
    have hpos := lineAt?_pos hline'
    obtain ⟨m, rfl⟩ : ∃ m, j = max first 1 + m := ⟨j - max first 1, by omega⟩
    have hnone := hbefore m (by omega) line' (by rw [if_pos (by omega), hline'])
    rw [ofLine?_eq_some.2 hb] at hnone
    exact nomatch hnone
  · rintro ⟨i, line, hline, hfirst, hlast, ha, hbefore⟩
    have hpos := lineAt?_pos hline
    obtain ⟨k, rfl⟩ : ∃ k, i = max first 1 + k := ⟨i - max first 1, by omega⟩
    refine ⟨k, line, by rw [if_pos hlast, hline], ofLine?_eq_some.2 ha, fun j hj line' hline' => ?_⟩
    rw [if_pos (by omega)] at hline'
    rw [Option.eq_none_iff_forall_ne_some]
    intro b hb
    exact hbefore _ line' hline' (by omega) (by omega) b (ofLine?_eq_some.1 hb)

/-- A mark in a literal, behind a quote that does not close it; colons and a mark in the text. -/
example :
    find? "x: uint256 = 1\nraise \"no \\\"# here\"  # user : one: two # three \r\n" 1 40 =
      some ⟨"user", "one: two # three"⟩ := by
  decide +kernel

end Remark

end EvmInspect
