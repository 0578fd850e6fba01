import EvmInspect.Proofs.Ty.Grammar
/-!
# Lexemes of a text

What the tokens of a text say does not depend on where the text starts, so the lexemes of a text
are those of its words, marks and blanks one after the other.
-/

namespace EvmInspect

namespace Ty

variable {c : Char} {w cs : List Char}

def spelled (cs : List Char) : List Lexeme := lexemes (scan 0 [] cs)

theorem lexemes_append (ts us : List Token) : lexemes (ts ++ us) = lexemes ts ++ lexemes us :=
  List.map_append

theorem lexemes_ofWord (w : List Char) (m n : Nat) :
    lexemes (Token.ofWord w m) = lexemes (Token.ofWord w n) := by
  unfold Token.ofWord
  split <;> rfl

theorem lexemes_scan (m n : Nat) : lexemes (scan m w cs) = lexemes (scan n w cs) := by
  induction cs generalizing m n w with
  | nil => exact lexemes_ofWord w m n
  | cons c cs ih =>
    simp only [scan]
    split
    · exact ih _ _
    split
    · rw [lexemes_append, lexemes_append, lexemes_ofWord w m n, ih]
    · rw [lexemes_append, lexemes_append, lexemes_ofWord w m n, lexemes_cons, lexemes_cons, ih]

/-- No word goes on at the start of the text. -/
def Ends (cs : List Char) : Prop := ∀ c, cs.head? = some c → isWordChar c = false

theorem ends_nil : Ends [] := by simp [Ends]

theorem ends_cons (hc : isWordChar c = false) : Ends (c :: cs) := by
  rintro _ ⟨⟩
  exact hc

theorem spelled_nil : spelled [] = [] := rfl

theorem spelled_mark (hword : isWordChar c = false) (hblank : Text.isBlank c = false) :
    spelled (c :: cs) = .mark c :: spelled cs := by
  simp only [spelled, scan, hword, hblank, Bool.false_eq_true, if_false]
  exact congrArg (Lexeme.mark c :: ·) (lexemes_scan _ _)

def punctuation : List Char := ['(', ')', '[', ']', '\x7b', '\x7d', ',', ':']

theorem apart_of_mem_punctuation (h : c ∈ punctuation) :
    isWordChar c = false ∧ Text.isBlank c = false := by
  have hmarks : punctuation.all (fun c => !isWordChar c && !Text.isBlank c) = true := by decide
  simpa using List.all_eq_true.1 hmarks c h

theorem spelled_punctuation (h : c ∈ punctuation) : spelled (c :: cs) = .mark c :: spelled cs :=
  spelled_mark (apart_of_mem_punctuation h).1 (apart_of_mem_punctuation h).2

theorem ends_punctuation (h : c ∈ punctuation) : Ends (c :: cs) :=
  ends_cons (apart_of_mem_punctuation h).1

theorem spelled_blank (hword : isWordChar c = false) (hblank : Text.isBlank c = true) :
    spelled (c :: cs) = spelled cs := by
  simp only [spelled, scan, hword, hblank, Bool.false_eq_true, if_false, if_true]
  exact lexemes_scan _ _

theorem lexemes_scan_append (n : Nat) {front : List Char} (hw : ∀ c ∈ w, isWordChar c = true) :
    lexemes (scan n front (w ++ cs)) = lexemes (scan n (front ++ w) cs) := by
  induction w generalizing front with
  | nil => simp
  | cons c w ih =>
    rw [List.forall_mem_cons] at hw
    rw [List.cons_append, scan, if_pos hw.1, lexemes_scan (n + 1) n, ih hw.2, List.append_assoc]
    rfl

theorem lexemes_scan_ends (n : Nat) (hw : w ≠ []) (hcs : Ends cs) :
    lexemes (scan n w cs) = .word w :: spelled cs := by
  have hofWord : ∀ stop, lexemes (Token.ofWord w stop) = [.word w] := by
    intro stop
    simp [Token.ofWord, hw]
  cases cs with
  | nil => exact hofWord n
  | cons c cs =>
    have hword : isWordChar c = false := hcs c rfl
    rw [spelled]
    simp only [scan, hword, Bool.false_eq_true, if_false]
    split
    · rw [lexemes_append, hofWord, lexemes_append, lexemes_scan _ (0 + c.utf8Size)]
      rfl
    · rw [lexemes_append, hofWord, lexemes_append, lexemes_cons, lexemes_scan _ (0 + c.utf8Size)]
      rfl

theorem spelled_word (hne : w ≠ []) (hw : w.all isWordChar = true) (hcs : Ends cs) :
    spelled (w ++ cs) = .word w :: spelled cs := by
  rw [spelled, lexemes_scan_append 0 (List.all_eq_true.1 hw)]
  exact lexemes_scan_ends 0 hne hcs

/-! ## Words of a text -/

def IsName (w : List Char) : Prop := w ≠ [] ∧ ∀ c ∈ w, isWordChar c = true

theorem isName_of_mem_ofWord {stop : Nat} (hw : ∀ c ∈ w, isWordChar c = true) {v : List Char}
    (h : .word v ∈ lexemes (Token.ofWord w stop)) : IsName v := by
  unfold Token.ofWord at h
  split at h
  · simp at h
  · rename_i hne
    simp only [lexemes_cons, lexemes_nil, List.mem_singleton, Lexeme.word.injEq] at h
    rw [h]
    exact ⟨by simpa using hne, hw⟩

theorem isName_of_mem_scan {n : Nat} (hw : ∀ c ∈ w, isWordChar c = true) {v : List Char}
    (h : .word v ∈ lexemes (scan n w cs)) : IsName v := by
  induction cs generalizing n w with
  | nil => exact isName_of_mem_ofWord hw h
  | cons c cs ih =>
    rw [scan] at h
    split at h
    · rename_i hc
      refine ih (List.forall_mem_append.2 ⟨hw, ?_⟩) h
      simpa using hc
    split at h
    · rw [lexemes_append, List.mem_append] at h
      obtain h | h := h
      · exact isName_of_mem_ofWord hw h
      · exact ih (by simp) h
    · rw [lexemes_append, List.mem_append, lexemes_cons, List.mem_cons] at h
      obtain h | h | h := h
      · exact isName_of_mem_ofWord hw h
      · simp at h
      · exact ih (by simp) h

theorem isName_of_mem_spelled {v : List Char} (h : .word v ∈ spelled cs) : IsName v :=
  isName_of_mem_scan (by simp) h

/-! ## Letters of a type -/

def digitsOf (n : Nat) : List Char := (toString n).toList

def bracketed (n : Nat) : List Char := '[' :: digitsOf n ++ [']']

def listed (texts : List String) : List Char := (", ".intercalate texts).toList

theorem toList_text (t : Ty) : t.text.toList = match t with
    | .uint n => "uint".toList ++ digitsOf n
    | .int n => "int".toList ++ digitsOf n
    | .bool => "bool".toList
    | .address => "address".toList
    | .fixedBytes n => "bytes".toList ++ digitsOf n
    | .bytes n => "Bytes".toList ++ bracketed n
    | .string n => "String".toList ++ bracketed n
    | .array elem n => elem.text.toList ++ bracketed n
    | .dynArray elem n =>
      "DynArray".toList ++ '[' :: (elem.text.toList ++ ',' :: ' ' :: (digitsOf n ++ [']']))
    | .tuple members => '(' :: (listed (memberTexts members) ++ [')'])
    | .struct name fields => name.toList ++ '\x7b' :: (listed (fieldTexts fields) ++ ['\x7d'])
    | .mapping key value =>
      "HashMap".toList ++
        '[' :: (key.text.toList ++ ',' :: ' ' :: (value.text.toList ++ [']'])) := by
  cases t <;> simp [text, bracketed, listed, digitsOf, toString]

end Ty

end EvmInspect
