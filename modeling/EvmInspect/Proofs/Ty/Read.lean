import EvmInspect.Proofs.Ty.Grammar
/-!
# The parser reads what the grammar derives

A derivation takes lexemes away one by one, so the tokens that it takes bound the levels that the
parser needs.  The parser therefore reads a type exactly if the grammar derives it, and neither the
bytes at which tokens start nor the bound on the depth decide what is read.
-/

namespace EvmInspect

namespace Ty

variable {stop fuel n : Nat} {c : Char} {w : List Char} {tokens : List Token}

/-! ## What a derivation takes -/

/-- Every phrase but that of lengths starts with a word or with a parenthesis. -/
theorem Derives.starts {p : Phrase} {ls rest : List Lexeme} (h : Derives p ls rest) :
    (∃ elem t, p = .lengths elem t) ∨
      ∃ l tail, ls = l :: tail ∧ (l = .mark '(' ∨ ∃ w, l = .word w) := by
  induction h with
  | type _ _ ihbase _ =>
    obtain ⟨elem, t, hp⟩ | h := ihbase
    · simp at hp
    · exact .inr h
  | done _ => exact .inl ⟨_, _, rfl⟩
  | length _ _ _ => exact .inl ⟨_, _, rfl⟩
  | lastMember _ ih | member _ _ ih _ =>
    obtain ⟨elem, t, hp⟩ | h := ih
    · simp at hp
    · exact .inr h
  | unit | tuple => exact .inr ⟨_, _, rfl, .inl rfl⟩
  | _ => exact .inr ⟨_, _, rfl, .inr ⟨_, rfl⟩⟩

theorem Derives.head_ne_mark {p : Phrase} {ls rest : List Lexeme} (h : Derives p ls rest)
    (hp : ∀ elem t, p ≠ .lengths elem t) (hc : c ≠ '(') : ls.head? ≠ some (.mark c) := by
  obtain ⟨elem, t, h⟩ | ⟨l, tail, rfl, rfl | ⟨w, rfl⟩⟩ := h.starts
  · exact absurd h (hp elem t)
  · simpa using Ne.symm hc
  · simp

/-- Lexemes that the phrase takes at least. -/
def Phrase.least : Phrase → Nat
  | .lengths _ _ => 0
  | _ => 1

theorem Derives.length_le {p : Phrase} {ls rest : List Lexeme} (h : Derives p ls rest) :
    rest.length + p.least ≤ ls.length := by
  induction h <;> simp only [Phrase.least, List.length_cons] at * <;> omega

/-- Levels that suffice to read the phrase if it takes `n` lexemes.  A type spends one level on
its base and its lengths, a base one on its members, and members one on each type. -/
def Phrase.levels (n : Nat) : Phrase → Nat
  | .type _ => 3 * n
  | .lengths _ _ => n + 1
  | .base _ => 3 * n - 1
  | .members _ | .fields _ => 3 * n - 2

theorem elementary?_of_mem_keywords (h : w ∈ keywords) : elementary? w = .ok none := by
  revert w
  decide

theorem not_keyword_of_elementary {t : Ty} (h : elementary? w = .ok (some t)) :
    w ∉ keywords := by
  intro hw
  rw [elementary?_of_mem_keywords hw] at h
  simp at h

/-! ### A base that starts with a word -/

variable {o : Nat}

theorem parseBase_mapping :
    parseBase stop (fuel + 1) (⟨.word "HashMap".toList, o⟩ :: tokens) = do
      let rest ← expect stop '[' tokens
      let (key, rest) ← parseType stop fuel rest
      let rest ← expect stop ',' rest
      let (value, rest) ← parseType stop fuel rest
      let rest ← expect stop ']' rest
      return (.mapping key value, rest) := by
  rw [parseBase]
  rfl

theorem parseBase_dynArray :
    parseBase stop (fuel + 1) (⟨.word "DynArray".toList, o⟩ :: tokens) = do
      let rest ← expect stop '[' tokens
      let (elem, rest) ← parseType stop fuel rest
      let rest ← expect stop ',' rest
      let (bound, rest) ← expectBound stop rest
      return (.dynArray elem bound, rest) := by
  rw [parseBase]
  rfl

theorem parseBase_bytes :
    parseBase stop (fuel + 1) (⟨.word "Bytes".toList, o⟩ :: tokens) = do
      let rest ← expect stop '[' tokens
      let (bound, rest) ← expectBound stop rest
      return (.bytes bound, rest) := by
  rw [parseBase]
  rfl

theorem parseBase_string :
    parseBase stop (fuel + 1) (⟨.word "String".toList, o⟩ :: tokens) = do
      let rest ← expect stop '[' tokens
      let (bound, rest) ← expectBound stop rest
      return (.string bound, rest) := by
  rw [parseBase]
  rfl

theorem parseBase_word (hw : w ∉ keywords) :
    parseBase stop (fuel + 1) (⟨.word w, o⟩ :: tokens) = do
      match ← elementary? w with
      | some ty => return (ty, tokens)
      | none =>
        match eat? '{' tokens with
        | none => throw (.unknownType (String.ofList w))
        | some rest =>
          match eat? '}' rest with
          | some rest => return (.struct (String.ofList w) [], rest)
          | none => do
            let (fields, rest) ← parseFields stop fuel rest
            return (.struct (String.ofList w) fields, rest) := by
  simp only [keywords, List.mem_cons, List.not_mem_nil, or_false, not_or] at hw
  obtain ⟨hbool, haddress, hmapping, hdynArray, hbytes, hstring⟩ := hw
  rw [parseBase]
  simp only [eat?, expectWord]
  exact (((((if_neg hbool).trans (if_neg haddress)).trans (if_neg hmapping)).trans
    (if_neg hdynArray)).trans (if_neg hbytes)).trans (if_neg hstring)

/-! ### Every phrase with enough levels -/

/-- With enough levels the parser reads the phrase in front of the lexemes, wherever their tokens
start. -/
def Read (stop : Nat) (p : Phrase) (ls rest : List Lexeme) : Prop :=
  ∀ tokens, lexemes tokens = ls → ∀ fuel, p.levels (ls.length - rest.length) ≤ fuel →
    ∃ last, lexemes last = rest ∧ p.ReadBy stop fuel tokens last

section

variable {ls mid rest : List Lexeme}

theorem read_type {elem t : Ty} (hbase : Derives (.base elem) ls mid)
    (hlengths : Derives (.lengths elem t) mid rest) (ihbase : Read stop (.base elem) ls mid)
    (ihlengths : Read stop (.lengths elem t) mid rest) : Read stop (.type t) ls rest := by
  intro tokens htokens fuel hfuel
  have hb := hbase.length_le
  have hl := hlengths.length_le
  simp only [Phrase.least, Phrase.levels] at hb hl hfuel
  cases fuel with
  | zero => omega
  | succ fuel =>
    obtain ⟨ts, hts, hbase⟩ := ihbase tokens htokens fuel (by rw [Phrase.levels]; omega)
    obtain ⟨last, hlast, hlengths⟩ := ihlengths ts hts fuel (by rw [Phrase.levels]; omega)
    refine ⟨last, hlast, ?_⟩
    simp only [Phrase.ReadBy, parseType, bind_eq_ok, Prod.exists]
    exact ⟨elem, ts, hbase, hlengths⟩

theorem read_done {t : Ty} (hend : rest.head? ≠ some (.mark '[')) :
    Read stop (.lengths t t) rest rest := by
  intro tokens htokens fuel hfuel
  cases fuel with
  | zero => simp [Phrase.levels] at hfuel
  | succ fuel =>
    rw [← htokens, ← eat?_eq_none] at hend
    exact ⟨tokens, htokens, by simp [Phrase.ReadBy, parseLengths, hend]⟩

theorem read_length {elem t : Ty} (hn : Numeral w n)
    (hlengths : Derives (.lengths (.array elem n) t) ls rest)
    (ih : Read stop (.lengths (.array elem n) t) ls rest) :
    Read stop (.lengths elem t) (.mark '[' :: .word w :: .mark ']' :: ls) rest := by
  intro tokens htokens fuel hfuel
  have hl := hlengths.length_le
  simp only [Phrase.least, Phrase.levels, List.length_cons] at hl hfuel
  cases fuel with
  | zero => omega
  | succ fuel =>
    simp only [lexemes_eq_cons] at htokens
    obtain ⟨o₁, _, rfl, o₂, _, rfl, o₃, ts, rfl, hts⟩ := htokens
    obtain ⟨last, hlast, h⟩ := ih ts hts fuel (by rw [Phrase.levels]; omega)
    refine ⟨last, hlast, ?_⟩
    simp only [Phrase.ReadBy, parseLengths, eat?_mark, bind_eq_ok, Prod.exists]
    exact ⟨n, ts, expectBound_of_numeral hn o₂ o₃, h⟩

theorem read_base {t : Ty} (hle : rest.length < ls.length)
    (h : ∀ fuel tokens, lexemes tokens = ls →
      ∃ last, lexemes last = rest ∧ parseBase stop (fuel + 1) tokens = .ok (t, last)) :
    Read stop (.base t) ls rest := by
  intro tokens htokens fuel hfuel
  simp only [Phrase.levels] at hfuel
  cases fuel with
  | zero => omega
  | succ fuel => exact h fuel tokens htokens

theorem read_tuple {members : List Ty} (hmembers : Derives (.members members) ls rest)
    (ih : Read stop (.members members) ls rest) :
    Read stop (.base (.tuple members)) (.mark '(' :: ls) rest := by
  intro tokens htokens fuel hfuel
  have hl := hmembers.length_le
  simp only [Phrase.least, Phrase.levels, List.length_cons] at hl hfuel
  cases fuel with
  | zero => omega
  | succ fuel =>
    obtain ⟨o, ts, rfl, hts⟩ := lexemes_eq_cons.1 htokens
    obtain ⟨last, hlast, h⟩ := ih ts hts fuel (by rw [Phrase.levels]; omega)
    refine ⟨last, hlast, ?_⟩
    have hopen : eat? ')' ts = none := by
      rw [eat?_eq_none, hts]
      exact hmembers.head_ne_mark (by simp) (by decide)
    simp only [Phrase.ReadBy] at h
    simp [Phrase.ReadBy, parseBase, hopen, h]

theorem read_mapping {key value : Ty} (hkey : Derives (.type key) ls (.mark ',' :: mid))
    (hvalue : Derives (.type value) mid (.mark ']' :: rest))
    (ihkey : Read stop (.type key) ls (.mark ',' :: mid))
    (ihvalue : Read stop (.type value) mid (.mark ']' :: rest)) :
    Read stop (.base (.mapping key value)) (.word "HashMap".toList :: .mark '[' :: ls) rest := by
  intro tokens htokens fuel hfuel
  have hk := hkey.length_le
  have hv := hvalue.length_le
  simp only [Phrase.least, Phrase.levels, List.length_cons] at hk hv hfuel
  cases fuel with
  | zero => omega
  | succ fuel =>
    simp only [lexemes_eq_cons] at htokens
    obtain ⟨o₁, _, rfl, o₂, ts, rfl, hts⟩ := htokens
    obtain ⟨_, hcomma, hkey⟩ := ihkey ts hts fuel
      (by simp only [Phrase.levels, List.length_cons]; omega)
    obtain ⟨o₃, ts₁, rfl, hts₁⟩ := lexemes_eq_cons.1 hcomma
    obtain ⟨_, hclose, hvalue⟩ := ihvalue ts₁ hts₁ fuel
      (by simp only [Phrase.levels, List.length_cons]; omega)
    obtain ⟨o₄, last, rfl, hlast⟩ := lexemes_eq_cons.1 hclose
    refine ⟨last, hlast, ?_⟩
    simp only [Phrase.ReadBy] at hkey hvalue ⊢
    simp only [parseBase_mapping, bind_eq_ok, pure_eq_ok, Prod.exists]
    exact ⟨_, expect_mark o₂, key, _, hkey, _, expect_mark o₃, value, _, hvalue, _,
      expect_mark o₄, rfl⟩

theorem read_dynArray {elem : Ty}
    (helem : Derives (.type elem) ls (.mark ',' :: .word w :: .mark ']' :: rest))
    (hn : Numeral w n)
    (ih : Read stop (.type elem) ls (.mark ',' :: .word w :: .mark ']' :: rest)) :
    Read stop (.base (.dynArray elem n)) (.word "DynArray".toList :: .mark '[' :: ls) rest := by
  intro tokens htokens fuel hfuel
  have hl := helem.length_le
  simp only [Phrase.least, Phrase.levels, List.length_cons] at hl hfuel
  cases fuel with
  | zero => omega
  | succ fuel =>
    simp only [lexemes_eq_cons] at htokens
    obtain ⟨o₁, _, rfl, o₂, ts, rfl, hts⟩ := htokens
    obtain ⟨_, hcomma, helem⟩ := ih ts hts fuel
      (by simp only [Phrase.levels, List.length_cons]; omega)
    simp only [lexemes_eq_cons] at hcomma
    obtain ⟨o₃, _, rfl, o₄, _, rfl, o₅, last, rfl, hlast⟩ := hcomma
    refine ⟨last, hlast, ?_⟩
    simp only [Phrase.ReadBy] at helem ⊢
    simp only [parseBase_dynArray, bind_eq_ok, pure_eq_ok, Prod.exists]
    exact ⟨_, expect_mark o₂, elem, _, helem, _, expect_mark o₃, n, _,
      expectBound_of_numeral hn o₄ o₅, rfl⟩

theorem read_bounded {keyword : List Char} {make : Nat → Ty} (hn : Numeral w n)
    (hbase : ∀ fuel o tokens, parseBase stop (fuel + 1) (⟨.word keyword, o⟩ :: tokens) = do
      let rest ← expect stop '[' tokens
      let (bound, rest) ← expectBound stop rest
      return (make bound, rest)) :
    Read stop (.base (make n)) (.word keyword :: .mark '[' :: .word w :: .mark ']' :: rest)
      rest := by
  refine read_base (by simp only [List.length_cons]; omega) fun fuel tokens htokens => ?_
  simp only [lexemes_eq_cons] at htokens
  obtain ⟨o₁, _, rfl, o₂, _, rfl, o₃, _, rfl, o₄, last, rfl, hlast⟩ := htokens
  refine ⟨last, hlast, ?_⟩
  simp only [hbase, bind_eq_ok, pure_eq_ok, Prod.exists]
  exact ⟨_, expect_mark o₂, n, _, expectBound_of_numeral hn o₃ o₄, rfl⟩

theorem read_elementary {t : Ty} (hw : elementary? w = .ok (some t)) :
    Read stop (.base t) (.word w :: rest) rest := by
  refine read_base (by simp) fun fuel tokens htokens => ?_
  obtain ⟨o, last, rfl, hlast⟩ := lexemes_eq_cons.1 htokens
  refine ⟨last, hlast, ?_⟩
  rw [parseBase_word (not_keyword_of_elementary hw), hw]
  rfl

theorem read_empty (hw : FreeName w) :
    Read stop (.base (.struct (String.ofList w) []))
      (.word w :: .mark '{' :: .mark '}' :: rest) rest := by
  refine read_base (by simp only [List.length_cons]; omega) fun fuel tokens htokens => ?_
  simp only [lexemes_eq_cons] at htokens
  obtain ⟨o₁, _, rfl, o₂, _, rfl, o₃, last, rfl, hlast⟩ := htokens
  refine ⟨last, hlast, ?_⟩
  rw [parseBase_word hw.notKeyword, hw.notElementary]
  rfl

theorem read_struct {fs : List (String × Ty)} (hw : FreeName w)
    (hfields : Derives (.fields fs) ls rest) (ih : Read stop (.fields fs) ls rest) :
    Read stop (.base (.struct (String.ofList w) fs)) (.word w :: .mark '{' :: ls) rest := by
  intro tokens htokens fuel hfuel
  have hl := hfields.length_le
  simp only [Phrase.least, Phrase.levels, List.length_cons] at hl hfuel
  cases fuel with
  | zero => omega
  | succ fuel =>
    simp only [lexemes_eq_cons] at htokens
    obtain ⟨o₁, _, rfl, o₂, ts, rfl, hts⟩ := htokens
    obtain ⟨last, hlast, h⟩ := ih ts hts fuel (by rw [Phrase.levels]; omega)
    refine ⟨last, hlast, ?_⟩
    have hopen : eat? '}' ts = none := by
      rw [eat?_eq_none, hts]
      exact hfields.head_ne_mark (by simp) (by decide)
    simp only [Phrase.ReadBy] at h ⊢
    rw [parseBase_word hw.notKeyword, hw.notElementary]
    refine bind_eq_ok.2 ⟨none, rfl, ?_⟩
    simp only [eat?_mark, hopen]
    exact bind_eq_ok.2 ⟨(fs, last), h, rfl⟩

theorem read_lastMember {t : Ty} (ht : Derives (.type t) ls (.mark ')' :: rest))
    (ih : Read stop (.type t) ls (.mark ')' :: rest)) : Read stop (.members [t]) ls rest := by
  intro tokens htokens fuel hfuel
  have hl := ht.length_le
  simp only [Phrase.least, Phrase.levels, List.length_cons] at hl hfuel
  cases fuel with
  | zero => omega
  | succ fuel =>
    obtain ⟨_, hclose, h⟩ := ih tokens htokens fuel
      (by simp only [Phrase.levels, List.length_cons]; omega)
    obtain ⟨o, last, rfl, hlast⟩ := lexemes_eq_cons.1 hclose
    refine ⟨last, hlast, ?_⟩
    simp only [Phrase.ReadBy] at h ⊢
    simp only [parseMembers, bind_eq_ok, Prod.exists]
    exact ⟨t, _, h, by simp [pure_eq_ok]⟩

theorem read_member {t : Ty} {ts : List Ty} (ht : Derives (.type t) ls (.mark ',' :: mid))
    (hts : Derives (.members ts) mid rest) (iht : Read stop (.type t) ls (.mark ',' :: mid))
    (ihts : Read stop (.members ts) mid rest) : Read stop (.members (t :: ts)) ls rest := by
  intro tokens htokens fuel hfuel
  have hl := ht.length_le
  have hm := hts.length_le
  simp only [Phrase.least, Phrase.levels, List.length_cons] at hl hm hfuel
  cases fuel with
  | zero => omega
  | succ fuel =>
    obtain ⟨_, hcomma, ht⟩ := iht tokens htokens fuel
      (by simp only [Phrase.levels, List.length_cons]; omega)
    obtain ⟨o, more, rfl, hmore⟩ := lexemes_eq_cons.1 hcomma
    obtain ⟨last, hlast, hts⟩ := ihts more hmore fuel (by rw [Phrase.levels]; omega)
    refine ⟨last, hlast, ?_⟩
    simp only [Phrase.ReadBy] at ht hts ⊢
    simp only [parseMembers, bind_eq_ok, Prod.exists]
    refine ⟨t, _, ht, ?_⟩
    rw [eat?_other (by decide)]
    simp only [bind_eq_ok, pure_eq_ok, Prod.exists]
    exact ⟨more, expect_mark o, ts, last, hts, rfl⟩

theorem read_lastField {t : Ty} (ht : Derives (.type t) ls (.mark '}' :: rest))
    (ih : Read stop (.type t) ls (.mark '}' :: rest)) :
    Read stop (.fields [(String.ofList w, t)]) (.word w :: .mark ':' :: ls) rest := by
  intro tokens htokens fuel hfuel
  have hl := ht.length_le
  simp only [Phrase.least, Phrase.levels, List.length_cons] at hl hfuel
  cases fuel with
  | zero => omega
  | succ fuel =>
    simp only [lexemes_eq_cons] at htokens
    obtain ⟨o₁, _, rfl, o₂, ts, rfl, hts⟩ := htokens
    obtain ⟨_, hclose, h⟩ := ih ts hts fuel
      (by simp only [Phrase.levels, List.length_cons]; omega)
    obtain ⟨o, last, rfl, hlast⟩ := lexemes_eq_cons.1 hclose
    refine ⟨last, hlast, ?_⟩
    simp only [Phrase.ReadBy] at h ⊢
    simp only [parseFields, expectWord, bind_eq_ok, Prod.exists]
    exact ⟨w, _, rfl, _, expect_mark o₂, t, _, h, by simp [pure_eq_ok]⟩

theorem read_field {t : Ty} {fs : List (String × Ty)}
    (ht : Derives (.type t) ls (.mark ',' :: mid)) (hfs : Derives (.fields fs) mid rest)
    (iht : Read stop (.type t) ls (.mark ',' :: mid)) (ihfs : Read stop (.fields fs) mid rest) :
    Read stop (.fields ((String.ofList w, t) :: fs)) (.word w :: .mark ':' :: ls) rest := by
  intro tokens htokens fuel hfuel
  have hl := ht.length_le
  have hf := hfs.length_le
  simp only [Phrase.least, Phrase.levels, List.length_cons] at hl hf hfuel
  cases fuel with
  | zero => omega
  | succ fuel =>
    simp only [lexemes_eq_cons] at htokens
    obtain ⟨o₁, _, rfl, o₂, ts, rfl, hts⟩ := htokens
    obtain ⟨_, hcomma, ht⟩ := iht ts hts fuel
      (by simp only [Phrase.levels, List.length_cons]; omega)
    obtain ⟨o, more, rfl, hmore⟩ := lexemes_eq_cons.1 hcomma
    obtain ⟨last, hlast, hfs⟩ := ihfs more hmore fuel (by rw [Phrase.levels]; omega)
    refine ⟨last, hlast, ?_⟩
    simp only [Phrase.ReadBy] at ht hfs ⊢
    simp only [parseFields, expectWord, bind_eq_ok, Prod.exists]
    refine ⟨w, _, rfl, _, expect_mark o₂, t, _, ht, ?_⟩
    rw [eat?_other (by decide)]
    simp only [bind_eq_ok, pure_eq_ok, Prod.exists]
    exact ⟨more, expect_mark o, fs, last, hfs, rfl⟩

end

theorem Derives.read {p : Phrase} {ls rest : List Lexeme} (h : Derives p ls rest) :
    Read stop p ls rest := by
  induction h with
  | type hbase hlengths ihbase ihlengths => exact read_type hbase hlengths ihbase ihlengths
  | done hend => exact read_done hend
  | length hn hlengths ih => exact read_length hn hlengths ih
  | unit =>
    refine read_base (by simp only [List.length_cons]; omega) fun fuel tokens htokens => ?_
    simp only [lexemes_eq_cons] at htokens
    obtain ⟨o₁, _, rfl, o₂, last, rfl, hlast⟩ := htokens
    exact ⟨last, hlast, rfl⟩
  | tuple hmembers ih => exact read_tuple hmembers ih
  | bool | address =>
    refine read_base (by simp) fun fuel tokens htokens => ?_
    obtain ⟨o, last, rfl, hlast⟩ := lexemes_eq_cons.1 htokens
    exact ⟨last, hlast, rfl⟩
  | mapping hkey hvalue ihkey ihvalue => exact read_mapping hkey hvalue ihkey ihvalue
  | dynArray helem hn ih => exact read_dynArray helem hn ih
  | bytes hn => exact read_bounded hn fun _ _ _ => parseBase_bytes
  | string hn => exact read_bounded hn fun _ _ _ => parseBase_string
  | elementary hw => exact read_elementary hw
  | empty hw => exact read_empty hw
  | struct hw hfields ih => exact read_struct hw hfields ih
  | lastMember ht ih => exact read_lastMember ht ih
  | member ht hts iht ihts => exact read_member ht hts iht ihts
  | lastField ht ih => exact read_lastField ht ih
  | field ht hfs iht ihfs => exact read_field ht hfs iht ihfs

/-! ## Whole texts -/

theorem parseTokens_eq_ok {t : Ty} :
    parseTokens stop tokens = .ok t ↔ Derives (.type t) (lexemes tokens) [] := by
  simp only [parseTokens, bind_eq_ok, Prod.exists]
  constructor
  · rintro ⟨t', rest, htype, h⟩
    cases rest with
    | nil =>
      rw [pure_eq_ok] at h
      subst h
      exact sound _ _ (.type t') _ _ htype
    | cons _ _ => simp at h
  · intro h
    have hlength : (lexemes tokens).length = tokens.length := List.length_map _
    obtain ⟨last, hlast, htype⟩ := h.read tokens rfl (3 * tokens.length + 3)
      (by simp only [Phrase.levels, hlength]; omega)
    obtain rfl : last = [] := List.map_eq_nil_iff.1 hlast
    exact ⟨t, [], htype, rfl⟩

/-- A text is read as a type exactly if the grammar derives the type from all of its lexemes. -/
theorem parse_eq_ok_iff {s : String} {t : Ty} :
    parse s = .ok t ↔ Derives (.type t) (lexemes (Ty.tokens s)) [] := by
  have htokens : parseTokens s.utf8ByteSize (Ty.tokens s) = .ok t ↔
      Derives (.type t) (lexemes (Ty.tokens s)) [] := parseTokens_eq_ok
  rw [← htokens, parse]
  split
  · rename_i t' h
    simp [h]
  · rename_i e h
    simp [h]

end Ty

end EvmInspect
