import EvmInspect.Proofs.Basic
import EvmInspect.Proofs.Digits
import EvmInspect.Text.Quoted
/-!
# Quoted text is read back

The letters between quotes say which text they stand for.  A quote among them has a backslash before
it, so that the quote that opens a quoted text is the last but one that has none.
-/

namespace EvmInspect.Text

variable {c : Char} {s t : String} {front back mid : List Char}

/-! ## Escapes -/

/-- The character that letters between quotes start with, and the letters behind it. -/
def unescape? : List Char → Option (Char × List Char)
  | '\\' :: 'n' :: rest => some ('\n', rest)
  | '\\' :: 'r' :: rest => some ('\r', rest)
  | '\\' :: 't' :: rest => some ('\t', rest)
  | '\\' :: '0' :: rest => some ('\x00', rest)
  | '\\' :: 'u' :: '\x7b' :: rest =>
    (Word.digitsFrom? 16 0 (rest.takeWhile (· != '\x7d'))).map fun n =>
      (Char.ofNat n, (rest.dropWhile (· != '\x7d')).drop 1)
  | '\\' :: c :: rest => some (c, rest)
  | c :: rest => some (c, rest)
  | [] => none

theorem ne_of_mem_toDigits {n : Nat} (h : c ∈ Nat.toDigits 16 n) : c ≠ '"' ∧ c ≠ '\x7d' := by
  have hdigit (d : Nat) : d.digitChar ≠ '"' ∧ d.digitChar ≠ '\x7d' :=
    ⟨Nat.digitChar_ne '"' (by decide), Nat.digitChar_ne '\x7d' (by decide)⟩
  induction n using Nat.strongRecOn with
  | ind n ih =>
    by_cases hn : n < 16
    · rw [Nat.toDigits_of_lt_base hn, List.mem_singleton] at h
      exact h ▸ hdigit n
    · rw [Nat.toDigits_of_base_le (by decide) (by omega), List.mem_append] at h
      rcases h with h | h
      · exact ih (n / 16) (by omega) h
      · rw [List.mem_singleton] at h
        exact h ▸ hdigit (n % 16)

/-- A character as it stands between quotes is one character of the text. -/
theorem unescape?_escape (c : Char) (rest : List Char) :
    unescape? (escape c ++ rest) = some (c, rest) := by
  unfold escape
  split_ifs with hquote hslash hnewline hreturn htab hzero hhidden
  · rw [hquote]
    rfl
  · rw [hslash]
    rfl
  · rw [hnewline]
    rfl
  · rw [hreturn]
    rfl
  · rw [htab]
    rfl
  · rw [hzero]
    rfl
  · have hdigits : ∀ d ∈ Nat.toDigits 16 c.toNat, (d != '\x7d') = true := by
      intro d hd
      simpa using (ne_of_mem_toDigits hd).2
    have hclose : ∀ d ∈ ('\x7d' :: rest).head?, (d != '\x7d') = false := by simp
    simp [unescape?, takeWhile_run hdigits hclose, dropWhile_run hdigits hclose,
      Word.digitsFrom?_toDigits]
  · simp [unescape?, hslash]

theorem flatMap_escape_inj {s t : List Char} (h : s.flatMap escape = t.flatMap escape) : s = t := by
  -- the character that the letters start with is the first of both texts
  have hhead (c : Char) (s : List Char) :
      unescape? ((c :: s).flatMap escape) = some (c, s.flatMap escape) := by
    rw [List.flatMap_cons, unescape?_escape]
  induction s generalizing t with
  | nil =>
    cases t with
    | nil => rfl
    | cons d t => simpa [← h, unescape?] using hhead d t
  | cons c s ih =>
    cases t with
    | nil => simpa [h, unescape?] using hhead c s
    | cons d t =>
      have hboth := hhead c s
      rw [h, hhead d t, Option.some.injEq, Prod.mk.injEq] at hboth
      rw [hboth.1, ih hboth.2.symm]

/-! ## Quotes -/

theorem quote_not_mem_escape (h : c ≠ '"') : '"' ∉ escape c := by
  have hdigits : '"' ∉ Nat.toDigits 16 c.toNat := fun hmem => (ne_of_mem_toDigits hmem).1 rfl
  rw [escape, if_neg h]
  split_ifs <;> simp [hdigits, Ne.symm h]

theorem eq_of_escape_eq (h : escape c = front ++ '"' :: back) : front = ['\\'] := by
  by_cases hc : c = '"'
  · subst hc
    change '\\' :: ['"'] = front ++ '"' :: back at h
    cases front with
    | nil => cases h
    | cons d front =>
      obtain ⟨rfl, hquote⟩ := List.cons.inj h
      cases front with
      | nil => rfl
      | cons e front => simp at hquote
  · exact absurd (h ▸ by simp) (quote_not_mem_escape hc)

theorem getLast?_before_quote {s : List Char} (h : s.flatMap escape = front ++ '"' :: back) :
    front.getLast? = some '\\' := by
  induction s generalizing front with
  | nil => simp at h
  | cons c s ih =>
    rw [List.flatMap_cons] at h
    -- the quote is behind the first character, is what follows it, or is one of its letters
    rcases List.append_eq_append_iff.1 h with ⟨more, rfl, hrest⟩ | ⟨more, hc, hrest⟩
    · rw [List.getLast?_append, ih hrest, Option.some_or]
    · cases more with
      | nil => simpa using @ih [] hrest.symm
      | cons d more =>
        obtain ⟨rfl, -⟩ := List.cons.inj hrest
        rw [eq_of_escape_eq hc]
        rfl

theorem toList_quote (s : String) :
    (quote s).toList = '"' :: (s.toList.flatMap escape ++ ['"']) := by
  rw [quote, String.toList_ofList]

theorem quote_inj (h : quote s = quote t) : s = t := by
  have hletters := congrArg String.toList h
  rw [toList_quote, toList_quote, List.cons.injEq, List.append_cancel_right_eq] at hletters
  exact String.toList_inj.1 (flatMap_escape_inj hletters.2)

/-- What a quoted text has before another one at its end ends in a backslash, if there is any. -/
theorem eq_nil_of_quote_eq (h : (quote s).toList = mid ++ (quote t).toList)
    (hmid : mid.getLast? ≠ some '\\') : mid = [] := by
  cases mid with
  | nil => rfl
  | cons m mid =>
    rw [toList_quote, toList_quote, List.cons_append, List.cons.injEq, ← List.cons_append,
      ← List.append_assoc, List.append_cancel_right_eq] at h
    have hslash := getLast?_before_quote h.2
    rw [List.getLast?_cons, hslash] at hmid
    exact absurd rfl hmid

end EvmInspect.Text
