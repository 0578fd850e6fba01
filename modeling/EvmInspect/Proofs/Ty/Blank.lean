import EvmInspect.Proofs.Ty.Read
import EvmInspect.Proofs.Ty.Token
/-!
# Blanks in type text

Type text means the same however it is laid out.  Blanks may be put in and taken out at any place of
any text, whether or not it is the text of a type, except between two letters of words: there they
would cut a word in two, or make one word of two.
-/

namespace EvmInspect.Ty

variable {c : Char} {w cs : List Char}

theorem isWordChar_of_isBlank (h : Text.isBlank c = true) : isWordChar c = false := by
  have hblank : ∃ r ∈ Text.blankRanges, r.1 ≤ c.toNat ∧ c.toNat ≤ r.2 := by
    simpa [Text.isBlank, Text.inRanges] using h
  -- a word character lies in one of four ranges, and no range of blanks meets these
  by_contra hword
  have hletter : (48 ≤ c.toNat ∧ c.toNat ≤ 57) ∨ (65 ≤ c.toNat ∧ c.toNat ≤ 90) ∨
      (97 ≤ c.toNat ∧ c.toNat ≤ 122) ∨ c.toNat = 95 := by
    have hranges : isWordChar c = (decide (65 ≤ c.val ∧ c.val ≤ 90) ||
        decide (97 ≤ c.val) && decide (c.val ≤ 122) ||
        decide (48 ≤ c.val) && decide (c.val ≤ 57) || c == '_') := rfl
    simp only [hranges, Bool.not_eq_false, Bool.or_eq_true, Bool.and_eq_true, decide_eq_true_eq,
      beq_iff_eq, UInt32.le_iff_toNat_le] at hword
    obtain ((hupper | hlower) | hdigit) | rfl := hword
    · exact .inr (.inl hupper)
    · exact .inr (.inr (.inl hlower))
    · exact .inl hdigit
    · exact .inr (.inr (.inr rfl))
  obtain ⟨r, hr, hlow, hhigh⟩ := hblank
  simp only [Text.blankRanges, List.mem_cons, List.not_mem_nil, or_false] at hr
  obtain rfl | rfl | rfl | rfl | rfl | rfl | rfl | rfl | rfl | rfl := hr
  all_goals simp only at * ; omega

/-! ## Texts in two parts -/

/-- The front of a text gives its lexemes, up to a word that may go on behind it; such a word ends
the front. -/
theorem exists_scan_append (a front : List Char) (hfront : ∀ c ∈ front, isWordChar c = true) :
    ∃ out word, (word = [] ∨ ∃ c ∈ (front ++ a).getLast?, isWordChar c = true) ∧
      ∀ n cs, lexemes (scan n front (a ++ cs)) = out ++ lexemes (scan 0 word cs) := by
  induction a generalizing front with
  | nil =>
    refine ⟨[], front, ?_, fun n cs => lexemes_scan n 0⟩
    by_cases hempty : front = []
    · exact .inl hempty
    · refine .inr ⟨front.getLast hempty, ?_, hfront _ (List.getLast_mem hempty)⟩
      simp [List.getLast?_eq_some_getLast hempty]
  | cons c a ih =>
    by_cases hword : isWordChar c = true
    · obtain ⟨out, word, hlast, hscan⟩ := ih (front ++ [c])
        (List.forall_mem_append.2 ⟨hfront, by simpa using hword⟩)
      rw [List.append_assoc, List.singleton_append] at hlast
      refine ⟨out, word, hlast, fun n cs => ?_⟩
      rw [List.cons_append, scan, if_pos hword, hscan]
    · -- here the word so far ends, and what follows starts afresh
      obtain ⟨out, word, hlast, hscan⟩ := ih [] (by simp)
      have hends : word = [] ∨ ∃ d ∈ (front ++ c :: a).getLast?, isWordChar d = true := by
        obtain hempty | ⟨d, hd, hword⟩ := hlast
        · exact .inl hempty
        · refine .inr ⟨d, ?_, hword⟩
          rw [List.nil_append, Option.mem_def] at hd
          simp [List.getLast?_append, List.getLast?_cons, hd]
      by_cases hblank : Text.isBlank c = true
      · refine ⟨lexemes (Token.ofWord front 0) ++ out, word, hends, fun n cs => ?_⟩
        rw [List.cons_append, scan, if_neg hword, if_pos hblank, lexemes_append,
          lexemes_ofWord front n 0, hscan, List.append_assoc]
      · refine ⟨lexemes (Token.ofWord front 0) ++ .mark c :: out, word, hends, fun n cs => ?_⟩
        rw [List.cons_append, scan, if_neg hword, if_neg hblank, lexemes_append,
          lexemes_ofWord front n 0, lexemes_cons, hscan, List.append_assoc, List.cons_append]

theorem spelled_blanks (hw : ∀ c ∈ w, Text.isBlank c = true) : spelled (w ++ cs) = spelled cs := by
  induction w with
  | nil => rfl
  | cons c w ih =>
    rw [List.forall_mem_cons] at hw
    rw [List.cons_append, spelled_blank (isWordChar_of_isBlank hw.1) hw.1, ih hw.2]

theorem lexemes_scan_blanks {word : List Char} (hw : ∀ c ∈ w, Text.isBlank c = true)
    (hends : word = [] ∨ Ends cs) :
    lexemes (scan 0 word (w ++ cs)) = lexemes (scan 0 word cs) := by
  by_cases hempty : word = []
  · rw [hempty]
    exact spelled_blanks hw
  · cases w with
    | nil => rfl
    | cons c w =>
      have hc := isWordChar_of_isBlank (hw c List.mem_cons_self)
      rw [lexemes_scan_ends 0 hempty (hends.resolve_left hempty), List.cons_append,
        lexemes_scan_ends 0 hempty (ends_cons hc), ← List.cons_append, spelled_blanks hw]

/-- No word goes on from one text to the next. -/
def Apart (a b : List Char) : Prop :=
  ∀ c ∈ a.getLast?, ∀ d ∈ b.head?, ¬ (isWordChar c = true ∧ isWordChar d = true)

theorem spelled_insert_blanks {a b : List Char} (hw : ∀ c ∈ w, Text.isBlank c = true)
    (hapart : Apart a b) : spelled (a ++ (w ++ b)) = spelled (a ++ b) := by
  obtain ⟨out, word, hlast, hscan⟩ := exists_scan_append a [] (by simp)
  have hends : word = [] ∨ Ends b := by
    obtain hempty | ⟨c, hc, hword⟩ := hlast
    · exact .inl hempty
    · refine .inr fun d hd => ?_
      have hboth := hapart c hc d hd
      simpa [hword] using hboth
  rw [spelled, hscan, lexemes_scan_blanks hw hends, ← hscan 0 b, spelled]

/-! ## The parser -/

/-- A text with blanks put in between two parts of it that no word joins stands for the same type as
without them, or for none if that stands for none. -/
theorem parse_insert_blanks (a w b : String) (hw : ∀ c ∈ w.toList, Text.isBlank c = true)
    (hapart : Apart a.toList b.toList) :
    (parse (a ++ w ++ b)).toOption = (parse (a ++ b)).toOption := by
  have hspelled : lexemes (tokens (a ++ w ++ b)) = lexemes (tokens (a ++ b)) := by
    have hinsert := spelled_insert_blanks hw hapart
    simpa [tokens, spelled, String.toList_append] using hinsert
  have hsome : ∀ s t, (parse s).toOption = some t ↔ Derives (.type t) (lexemes (tokens s)) [] := by
    intro s t
    rw [← parse_eq_ok_iff]
    cases parse s <;> simp [Except.toOption]
  ext t
  rw [hsome, hsome, hspelled]

/-- A line end, a tab and a blank of another script in front of the brace of a struct. -/
theorem parse_insert_blanks_point :
    (∀ c ∈ "\n\t\u3000".toList, Text.isBlank c = true) ∧
      Apart "Point".toList "\x7bx: int8\x7d".toList ∧
      (parse ("Point" ++ "\n\t\u3000" ++ "\x7bx: int8\x7d")).toOption =
        some (.struct "Point" [("x", .int 8)]) := by
  have hblank : ∀ c ∈ "\n\t\u3000".toList, Text.isBlank c = true :=
    List.all_eq_true.1 (by decide)
  have hapart : Apart "Point".toList "\x7bx: int8\x7d".toList := by
    rintro c - d hd ⟨-, hword⟩
    obtain rfl : d = '\x7b' := by simpa using hd.symm
    exact absurd hword (by decide)
  exact ⟨hblank, hapart, (parse_insert_blanks _ _ _ hblank hapart).trans (by decide +kernel)⟩

end EvmInspect.Ty
