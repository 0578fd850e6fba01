import EvmInspect.Ty.Parser
import EvmInspect.Proofs.Basic
import Mathlib.Data.List.TakeWhile
/-!
# The grammar of type text

What the parser reads is said here without the parser: `Derives` relates a phrase to the lexemes
it stands in front of and to those left behind it.  Whatever the parser reads is derived.
-/

namespace EvmInspect

namespace Ty

structure Numeral (w : List Char) (n : Nat) : Prop where
  nonempty : w ≠ []
  digits : ∀ c ∈ w, c.isDigit = true
  value : natOfDigits w = n
  fits : n ≤ Size.limit

/-- Words that start a type of their own and so name no struct. -/
def keywords : List (List Char) :=
  ["bool".toList, "address".toList, "HashMap".toList, "DynArray".toList, "Bytes".toList,
    "String".toList]

structure FreeName (w : List Char) : Prop where
  notKeyword : w ∉ keywords
  notElementary : elementary? w = .ok none

/-- What a stretch of type text stands for. -/
inductive Phrase where
  | type (t : Ty)
  /-- Array lengths behind the type `elem`, which make it `t`. -/
  | lengths (elem t : Ty)
  | base (t : Ty)
  /-- Members of a tuple up to its closing parenthesis. -/
  | members (ts : List Ty)
  /-- Members of a struct up to its closing brace. -/
  | fields (fs : List (String × Ty))

/-- The phrase stands in front of the lexemes, and the second list is what follows it. -/
inductive Derives : Phrase → List Lexeme → List Lexeme → Prop where
  | type {elem t ls mid rest} (hbase : Derives (.base elem) ls mid)
      (hlengths : Derives (.lengths elem t) mid rest) : Derives (.type t) ls rest
  /-- Lengths go on as long as brackets follow. -/
  | done {t rest} (hend : rest.head? ≠ some (.mark '[')) : Derives (.lengths t t) rest rest
  | length {elem t w n ls rest} (hn : Numeral w n)
      (hlengths : Derives (.lengths (.array elem n) t) ls rest) :
      Derives (.lengths elem t) (.mark '[' :: .word w :: .mark ']' :: ls) rest
  | unit {rest} : Derives (.base (.tuple [])) (.mark '(' :: .mark ')' :: rest) rest
  | tuple {ts ls rest} (hmembers : Derives (.members ts) ls rest) :
      Derives (.base (.tuple ts)) (.mark '(' :: ls) rest
  | bool {rest} : Derives (.base .bool) (.word "bool".toList :: rest) rest
  | address {rest} : Derives (.base .address) (.word "address".toList :: rest) rest
  | mapping {key value ls mid rest} (hkey : Derives (.type key) ls (.mark ',' :: mid))
      (hvalue : Derives (.type value) mid (.mark ']' :: rest)) :
      Derives (.base (.mapping key value)) (.word "HashMap".toList :: .mark '[' :: ls) rest
  | dynArray {elem w n ls rest}
      (helem : Derives (.type elem) ls (.mark ',' :: .word w :: .mark ']' :: rest))
      (hn : Numeral w n) :
      Derives (.base (.dynArray elem n)) (.word "DynArray".toList :: .mark '[' :: ls) rest
  | bytes {w n rest} (hn : Numeral w n) :
      Derives (.base (.bytes n))
        (.word "Bytes".toList :: .mark '[' :: .word w :: .mark ']' :: rest) rest
  | string {w n rest} (hn : Numeral w n) :
      Derives (.base (.string n))
        (.word "String".toList :: .mark '[' :: .word w :: .mark ']' :: rest) rest
  | elementary {w t rest} (hw : elementary? w = .ok (some t)) :
      Derives (.base t) (.word w :: rest) rest
  | empty {w rest} (hw : FreeName w) :
      Derives (.base (.struct (String.ofList w) []))
        (.word w :: .mark '\x7b' :: .mark '\x7d' :: rest) rest
  | struct {w fs ls rest} (hw : FreeName w) (hfields : Derives (.fields fs) ls rest) :
      Derives (.base (.struct (String.ofList w) fs)) (.word w :: .mark '\x7b' :: ls) rest
  | lastMember {t ls rest} (ht : Derives (.type t) ls (.mark ')' :: rest)) :
      Derives (.members [t]) ls rest
  | member {t ts ls mid rest} (ht : Derives (.type t) ls (.mark ',' :: mid))
      (hts : Derives (.members ts) mid rest) : Derives (.members (t :: ts)) ls rest
  | lastField {w t ls rest} (ht : Derives (.type t) ls (.mark '\x7d' :: rest)) :
      Derives (.fields [(String.ofList w, t)]) (.word w :: .mark ':' :: ls) rest
  | field {w t fs ls mid rest} (ht : Derives (.type t) ls (.mark ',' :: mid))
      (hfs : Derives (.fields fs) mid rest) :
      Derives (.fields ((String.ofList w, t) :: fs)) (.word w :: .mark ':' :: ls) rest

/-- Lexemes of tokens, without the bytes at which they start. -/
def lexemes (tokens : List Token) : List Lexeme := tokens.map Token.lexeme

@[simp] theorem lexemes_nil : lexemes [] = [] := rfl

@[simp] theorem lexemes_cons (t : Token) (ts : List Token) :
    lexemes (t :: ts) = t.lexeme :: lexemes ts := rfl

theorem lexemes_eq_cons {l : Lexeme} {ls : List Lexeme} {tokens : List Token} :
    lexemes tokens = l :: ls ↔ ∃ o rest, tokens = ⟨l, o⟩ :: rest ∧ lexemes rest = ls := by
  constructor
  · intro h
    cases tokens with
    | nil => simp at h
    | cons t rest =>
      simp only [lexemes_cons, List.cons.injEq] at h
      exact ⟨t.offset, rest, by rw [← h.1], h.2⟩
  · rintro ⟨o, rest, rfl, rfl⟩
    rfl

/-! ## Steps of the parser -/

variable {stop fuel n : Nat} {c : Char} {w : List Char} {tokens rest : List Token}

theorem eat?_eq_some : eat? c tokens = some rest ↔ ∃ o, tokens = ⟨.mark c, o⟩ :: rest := by
  unfold eat?
  split
  · rename_i d o tail
    constructor
    · intro h
      split at h
      · rename_i hd
        simp only [Option.some.injEq] at h
        exact ⟨o, by rw [hd, h]⟩
      · simp at h
    · rintro ⟨o', h⟩
      simp only [List.cons.injEq, Token.mk.injEq, Lexeme.mark.injEq] at h
      simp [h]
  · rename_i hmark
    constructor
    · simp
    · rintro ⟨o, h⟩
      exact absurd h (hmark c o rest)

@[simp] theorem eat?_mark (o : Nat) : eat? c (⟨.mark c, o⟩ :: rest) = some rest :=
  eat?_eq_some.2 ⟨o, rfl⟩

theorem eat?_eq_none : eat? c tokens = none ↔ (lexemes tokens).head? ≠ some (.mark c) := by
  rw [← not_iff_not, ← ne_eq, Option.ne_none_iff_exists', not_not]
  constructor
  · rintro ⟨rest, h⟩
    obtain ⟨o, rfl⟩ := eat?_eq_some.1 h
    rfl
  · intro h
    obtain ⟨ls, h⟩ := List.head?_eq_some_iff.1 h
    obtain ⟨o, rest, rfl, -⟩ := lexemes_eq_cons.1 h
    exact ⟨rest, eat?_mark o⟩

theorem eat?_other {d : Char} (h : d ≠ c) (o : Nat) : eat? c (⟨.mark d, o⟩ :: rest) = none :=
  if_neg h

theorem expect_eq_ok :
    expect stop c tokens = .ok rest ↔ ∃ o, tokens = ⟨.mark c, o⟩ :: rest := by
  rw [← eat?_eq_some]
  unfold expect
  split <;> simp_all

@[simp] theorem expect_mark (o : Nat) : expect stop c (⟨.mark c, o⟩ :: rest) = .ok rest :=
  expect_eq_ok.2 ⟨o, rfl⟩

theorem expectWord_eq_ok :
    expectWord stop tokens = .ok (w, rest) ↔ ∃ o, tokens = ⟨.word w, o⟩ :: rest := by
  unfold expectWord
  split
  · rename_i w' o tail
    constructor
    · intro h
      simp only [Except.ok.injEq, Prod.mk.injEq] at h
      exact ⟨o, by rw [h.1, h.2]⟩
    · rintro ⟨o', h⟩
      simp only [List.cons.injEq, Token.mk.injEq, Lexeme.word.injEq] at h
      simp [h]
  · rename_i hword
    constructor
    · simp
    · rintro ⟨o, h⟩
      exact absurd h (hword w o rest)

theorem Numeral.takeWhile (h : Numeral w n) : w.takeWhile Char.isDigit = w :=
  List.takeWhile_eq_self_iff.2 h.digits

theorem expectBound_eq_ok :
    expectBound stop tokens = .ok (n, rest) ↔
      ∃ w o o', tokens = ⟨.word w, o⟩ :: ⟨.mark ']', o'⟩ :: rest ∧ Numeral w n := by
  constructor
  · intro h
    unfold expectBound at h
    split at h
    · rename_i w o tail
      simp only at h
      split at h
      · simp at h
      rename_i hempty
      split at h
      · simp at h
      rename_i hlimit
      split at h
      · simp at h
      rename_i hlength
      simp only [bind_eq_ok, pure_eq_ok, expect_eq_ok, Prod.mk.injEq] at h
      obtain ⟨rest', ⟨o', rfl⟩, hvalue, rfl⟩ := h
      -- a run of digits that is as long as its word is the whole word
      have hall : w.takeWhile Char.isDigit = w :=
        (List.takeWhile_prefix _).eq_of_length_le (Nat.le_of_not_lt hlength)
      rw [hall] at hempty hvalue hlimit
      refine ⟨w, o, o', rfl, ?_⟩
      constructor
      · simpa using hempty
      · exact List.takeWhile_eq_self_iff.1 hall
      · exact hvalue
      · omega
    · simp at h
  · rintro ⟨w, o, o', rfl, hn⟩
    have hempty : w.isEmpty = false := by simpa using hn.nonempty
    have hlimit : ¬ Size.limit < n := Nat.not_lt.2 hn.fits
    simp [expectBound, hn.takeWhile, hempty, hn.value, hlimit]

theorem expectBound_of_numeral (hn : Numeral w n) (o o' : Nat) :
    expectBound stop (⟨.word w, o⟩ :: ⟨.mark ']', o'⟩ :: rest) = .ok (n, rest) :=
  expectBound_eq_ok.2 ⟨w, o, o', rfl, hn⟩

/-! ## What the parser reads is derived -/

/-- The parser reads the phrase at the head of the tokens and goes at most `fuel` levels deep. -/
def Phrase.ReadBy (stop fuel : Nat) (tokens rest : List Token) : Phrase → Prop
  | .type t => parseType stop fuel tokens = .ok (t, rest)
  | .lengths elem t => parseLengths stop fuel elem tokens = .ok (t, rest)
  | .base t => parseBase stop fuel tokens = .ok (t, rest)
  | .members ts => parseMembers stop fuel tokens = .ok (ts, rest)
  | .fields fs => parseFields stop fuel tokens = .ok (fs, rest)

/-- Whatever is read at most `fuel` levels deep is derived. -/
def Sound (stop fuel : Nat) : Prop :=
  ∀ p tokens rest, Phrase.ReadBy stop fuel tokens rest p →
    Derives p (lexemes tokens) (lexemes rest)

theorem Sound.lengths (ih : Sound stop fuel) {elem t : Ty}
    (h : parseLengths stop (fuel + 1) elem tokens = .ok (t, rest)) :
    Derives (.lengths elem t) (lexemes tokens) (lexemes rest) := by
  rw [parseLengths] at h
  split at h
  · rename_i hend
    simp only [Except.ok.injEq, Prod.mk.injEq] at h
    obtain ⟨rfl, rfl⟩ := h
    exact .done (eat?_eq_none.1 hend)
  · rename_i hopen
    obtain ⟨o, rfl⟩ := eat?_eq_some.1 hopen
    simp only [bind_eq_ok, expectBound_eq_ok, Prod.exists] at h
    obtain ⟨n, mid, ⟨w, o₁, o₂, rfl, hn⟩, h⟩ := h
    exact .length hn (ih (.lengths _ _) _ _ h)

theorem Sound.members (ih : Sound stop fuel) {ts : List Ty}
    (h : parseMembers stop (fuel + 1) tokens = .ok (ts, rest)) :
    Derives (.members ts) (lexemes tokens) (lexemes rest) := by
  simp only [parseMembers, bind_eq_ok, Prod.exists] at h
  obtain ⟨t, mid, ht, h⟩ := h
  have ht := ih (.type t) _ _ ht
  split at h
  · rename_i hclose
    obtain ⟨o, rfl⟩ := eat?_eq_some.1 hclose
    simp only [pure_eq_ok, Prod.mk.injEq] at h
    obtain ⟨rfl, rfl⟩ := h
    exact .lastMember ht
  · simp only [bind_eq_ok, pure_eq_ok, expect_eq_ok, Prod.exists, Prod.mk.injEq] at h
    obtain ⟨more, ⟨o, rfl⟩, ts, last, hts, rfl, rfl⟩ := h
    exact .member ht (ih (.members ts) _ _ hts)

theorem Sound.fields (ih : Sound stop fuel) {fs : List (String × Ty)}
    (h : parseFields stop (fuel + 1) tokens = .ok (fs, rest)) :
    Derives (.fields fs) (lexemes tokens) (lexemes rest) := by
  simp only [parseFields, bind_eq_ok, expectWord_eq_ok, expect_eq_ok, Prod.exists] at h
  obtain ⟨w, rest₁, ⟨o, rfl⟩, rest₂, ⟨o', rfl⟩, t, mid, ht, h⟩ := h
  have ht := ih (.type t) _ _ ht
  split at h
  · rename_i hclose
    obtain ⟨o, rfl⟩ := eat?_eq_some.1 hclose
    simp only [pure_eq_ok, Prod.mk.injEq] at h
    obtain ⟨rfl, rfl⟩ := h
    exact .lastField ht
  · simp only [bind_eq_ok, pure_eq_ok, expect_eq_ok, Prod.exists, Prod.mk.injEq] at h
    obtain ⟨more, ⟨o, rfl⟩, fs, last, hfs, rfl, rfl⟩ := h
    exact .field ht (ih (.fields fs) _ _ hfs)

theorem Sound.base (ih : Sound stop fuel) {t : Ty}
    (h : parseBase stop (fuel + 1) tokens = .ok (t, rest)) :
    Derives (.base t) (lexemes tokens) (lexemes rest) := by
  rw [parseBase] at h
  split at h
  · rename_i hopen
    obtain ⟨o, rfl⟩ := eat?_eq_some.1 hopen
    split at h
    · rename_i hclose
      obtain ⟨o', rfl⟩ := eat?_eq_some.1 hclose
      simp only [Except.ok.injEq, Prod.mk.injEq] at h
      obtain ⟨rfl, rfl⟩ := h
      exact .unit
    · simp only [bind_eq_ok, pure_eq_ok, Prod.exists, Prod.mk.injEq] at h
      obtain ⟨ts, last, hts, rfl, rfl⟩ := h
      exact .tuple (ih (.members ts) _ _ hts)
  · simp only [bind_eq_ok, expectWord_eq_ok, Prod.exists] at h
    obtain ⟨w, rest₁, ⟨o, rfl⟩, h⟩ := h
    -- one case for each word that starts a type
    split at h
    · rename_i hw
      simp only [pure_eq_ok, Prod.mk.injEq] at h
      obtain ⟨rfl, rfl⟩ := h
      rw [hw]
      exact .bool
    rename_i hbool
    split at h
    · rename_i hw
      simp only [pure_eq_ok, Prod.mk.injEq] at h
      obtain ⟨rfl, rfl⟩ := h
      rw [hw]
      exact .address
    rename_i haddress
    split at h
    · rename_i hw
      simp only [bind_eq_ok, pure_eq_ok, expect_eq_ok, Prod.exists, Prod.mk.injEq] at h
      obtain ⟨rest₂, ⟨o₁, rfl⟩, key, rest₃, hkey, rest₄, ⟨o₂, rfl⟩, value, rest₅, hvalue, rest₆,
        ⟨o₃, rfl⟩, rfl, rfl⟩ := h
      rw [hw]
      exact .mapping (ih (.type key) _ _ hkey) (ih (.type value) _ _ hvalue)
    rename_i hmapping
    split at h
    · rename_i hw
      simp only [bind_eq_ok, pure_eq_ok, expect_eq_ok, expectBound_eq_ok, Prod.exists,
        Prod.mk.injEq] at h
      obtain ⟨rest₂, ⟨o₁, rfl⟩, elem, rest₃, helem, rest₄, ⟨o₂, rfl⟩, n, rest₅,
        ⟨w', o₃, o₄, rfl, hn⟩, rfl, rfl⟩ := h
      rw [hw]
      exact .dynArray (ih (.type elem) _ _ helem) hn
    rename_i hdynArray
    split at h
    · rename_i hw
      simp only [bind_eq_ok, pure_eq_ok, expect_eq_ok, expectBound_eq_ok, Prod.exists,
        Prod.mk.injEq] at h
      obtain ⟨rest₂, ⟨o₁, rfl⟩, n, rest₃, ⟨w', o₂, o₃, rfl, hn⟩, rfl, rfl⟩ := h
      rw [hw]
      exact .bytes hn
    rename_i hbytes
    split at h
    · rename_i hw
      simp only [bind_eq_ok, pure_eq_ok, expect_eq_ok, expectBound_eq_ok, Prod.exists,
        Prod.mk.injEq] at h
      obtain ⟨rest₂, ⟨o₁, rfl⟩, n, rest₃, ⟨w', o₂, o₃, rfl, hn⟩, rfl, rfl⟩ := h
      rw [hw]
      exact .string hn
    rename_i hstring
    simp only [bind_eq_ok] at h
    obtain ⟨found, hfound, h⟩ := h
    split at h
    · simp only [pure_eq_ok, Prod.mk.injEq] at h
      obtain ⟨rfl, rfl⟩ := h
      exact .elementary hfound
    -- any other word names a struct
    have hfree : FreeName w := by
      constructor
      · simp only [keywords, List.mem_cons, List.not_mem_nil, or_false, not_or]
        exact ⟨hbool, haddress, hmapping, hdynArray, hbytes, hstring⟩
      · exact hfound
    split at h
    · simp at h
    rename_i hopen
    obtain ⟨o₁, rfl⟩ := eat?_eq_some.1 hopen
    split at h
    · rename_i hclose
      obtain ⟨o₂, rfl⟩ := eat?_eq_some.1 hclose
      simp only [pure_eq_ok, Prod.mk.injEq] at h
      obtain ⟨rfl, rfl⟩ := h
      exact .empty hfree
    · simp only [bind_eq_ok, pure_eq_ok, Prod.exists, Prod.mk.injEq] at h
      obtain ⟨fs, last, hfs, rfl, rfl⟩ := h
      exact .struct hfree (ih (.fields fs) _ _ hfs)

theorem sound (stop fuel : Nat) : Sound stop fuel := by
  induction fuel with
  | zero =>
    intro p tokens rest h
    cases p <;> simp [Phrase.ReadBy, parseType, parseLengths, parseBase, parseMembers,
      parseFields] at h
  | succ fuel ih =>
    intro p tokens rest h
    cases p with
    | type t =>
      simp only [Phrase.ReadBy, parseType, bind_eq_ok, Prod.exists] at h
      obtain ⟨elem, mid, hbase, hlengths⟩ := h
      exact .type (ih (.base elem) _ _ hbase) (ih (.lengths elem t) _ _ hlengths)
    | lengths elem t => exact ih.lengths h
    | base t => exact ih.base h
    | members ts => exact ih.members h
    | fields fs => exact ih.fields h

end Ty

end EvmInspect
