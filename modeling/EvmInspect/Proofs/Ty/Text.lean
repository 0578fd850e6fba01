import EvmInspect.Proofs.Ty.Written
/-!
# Types are read back from their text

The text of a type is derived as that type in front of whatever follows it, so long as no letter,
digit or bracket follows.  Array lengths stand behind the element in the text but the grammar reads
them from the left, so what is proved of each type is that lengths behind it go on where its own
end.
-/

namespace EvmInspect

namespace Ty

variable {n : Nat} {cs rest : List Char} {t : Ty}

/-! ## Numbers and words -/

theorem digitsOf_eq (n : Nat) : digitsOf n = Nat.toDigits 10 n := by
  simp [digitsOf, toString, Nat.repr]

theorem natOfDigits_digitsOf (n : Nat) : natOfDigits (digitsOf n) = n := by
  rw [digitsOf_eq]
  exact Nat.ofDigitChars_toDigits (by decide) (by decide)

theorem isDigit_of_mem_digitsOf {c : Char} (h : c ∈ digitsOf n) : c.isDigit = true := by
  rw [digitsOf_eq] at h
  exact Nat.isDigit_of_mem_toDigits (by decide) (by decide) h

theorem digitsOf_ne_nil (n : Nat) : digitsOf n ≠ [] := by
  rw [digitsOf_eq]
  exact Nat.toDigits_ne_nil

theorem numeral_digitsOf (hn : n ≤ Size.limit) : Numeral (digitsOf n) n where
  nonempty := digitsOf_ne_nil n
  digits _ h := isDigit_of_mem_digitsOf h
  value := natOfDigits_digitsOf n
  fits := hn

theorem isWordChar_of_isDigit {c : Char} (h : c.isDigit = true) : isWordChar c = true := by
  simp [isWordChar, Char.isAlphanum, h]

theorem spelled_digitsOf (hcs : Ends cs) :
    spelled (digitsOf n ++ cs) = .word (digitsOf n) :: spelled cs :=
  spelled_word (digitsOf_ne_nil n)
    (List.all_eq_true.2 fun _ h => isWordChar_of_isDigit (isDigit_of_mem_digitsOf h)) hcs

theorem spelled_sized {stem : List Char} (hstem : stem.all isWordChar = true) (hcs : Ends cs) :
    spelled (stem ++ digitsOf n ++ cs) = .word (stem ++ digitsOf n) :: spelled cs := by
  refine spelled_word ?_ ?_ hcs
  · simp [digitsOf_ne_nil]
  · rw [List.all_append, hstem, Bool.true_and, List.all_eq_true]
    intro c hc
    exact isWordChar_of_isDigit (isDigit_of_mem_digitsOf hc)

theorem head?_digitsOf : ∀ c ∈ (digitsOf n).head?, (!c.isDigit) = false := by
  intro c hc
  rw [isDigit_of_mem_digitsOf (List.mem_of_mem_head? hc), Bool.not_true]

theorem takeWhile_stem {stem : List Char} (hstem : stem.all (fun c => !c.isDigit) = true) :
    (stem ++ digitsOf n).takeWhile (fun c => !c.isDigit) = stem :=
  takeWhile_run (List.all_eq_true.1 hstem) head?_digitsOf

theorem dropWhile_stem {stem : List Char} (hstem : stem.all (fun c => !c.isDigit) = true) :
    (stem ++ digitsOf n).dropWhile (fun c => !c.isDigit) = digitsOf n :=
  dropWhile_run (List.all_eq_true.1 hstem) head?_digitsOf

/-- What a stem and a size stand for, once the size is known to be addressable. -/
theorem elementary?_sized {stem : String}
    (hstem : stem.toList.all (fun c => !c.isDigit) = true) (hn : n ≤ Size.limit) :
    elementary? (stem.toList ++ digitsOf n) =
      if stem = "uint" ∨ stem = "int" then
        if n = 0 ∨ 256 < n ∨ n % 8 ≠ 0 then .error (.integerWidth n)
        else .ok (some (if stem = "uint" then .uint n else .int n))
      else if stem = "bytes" then
        if n = 0 ∨ 32 < n then .error (.fixedBytesSize n) else .ok (some (.fixedBytes n))
      else .ok none := by
  have hdigits : (digitsOf n).all Char.isDigit = true :=
    List.all_eq_true.2 fun _ h => isDigit_of_mem_digitsOf h
  have hempty : (digitsOf n).isEmpty = false := by simpa using digitsOf_ne_nil n
  simp [elementary?, takeWhile_stem hstem, dropWhile_stem hstem, natOfDigits_digitsOf, hdigits,
    hempty, Nat.not_lt.2 hn]

theorem elementary?_uint (h : hasWidth (.uint n) = true) :
    elementary? ("uint".toList ++ digitsOf n) = .ok (some (.uint n)) := by
  have hn : 8 ∣ n ∧ 1 ≤ n ∧ n ≤ 256 := of_decide_eq_true h
  rw [elementary?_sized (by decide) (by unfold Size.limit; omega), if_pos (by simp),
    if_neg (by omega), if_pos rfl]

theorem elementary?_int (h : hasWidth (.int n) = true) :
    elementary? ("int".toList ++ digitsOf n) = .ok (some (.int n)) := by
  have hn : 8 ∣ n ∧ 1 ≤ n ∧ n ≤ 256 := of_decide_eq_true h
  rw [elementary?_sized (by decide) (by unfold Size.limit; omega), if_pos (by simp),
    if_neg (by omega), if_neg (by decide)]

theorem elementary?_fixedBytes (h : hasWidth (.fixedBytes n) = true) :
    elementary? ("bytes".toList ++ digitsOf n) = .ok (some (.fixedBytes n)) := by
  have hn : 1 ≤ n ∧ n ≤ 32 := of_decide_eq_true h
  rw [elementary?_sized (by decide) (by unfold Size.limit; omega), if_neg (by decide),
    if_pos rfl, if_neg (by omega)]

/-! ## Types in front of other text -/

/-- In front of any text that starts no longer word, the text of the type is a base and lengths,
and behind it go the lengths that follow. -/
def Spelled (t : Ty) : Prop :=
  ∀ rest, Ends rest → ∃ base mid, Derives (.base base) (spelled (t.text.toList ++ rest)) mid ∧
    ∀ u last, Derives (.lengths t u) (spelled rest) last → Derives (.lengths base u) mid last

/-- The text of the type is one base. -/
theorem Spelled.of_base
    (h : ∀ rest, Ends rest → Derives (.base t) (spelled (t.text.toList ++ rest)) (spelled rest)) :
    t.Spelled :=
  fun rest hrest => ⟨t, spelled rest, h rest hrest, fun _ _ hlengths => hlengths⟩

/-- In front of a mark that opens no length, the text of the type is read as the type. -/
theorem Spelled.type (h : t.Spelled) (hrest : Ends rest)
    (hopen : (spelled rest).head? ≠ some (.mark '[')) :
    Derives (.type t) (spelled (t.text.toList ++ rest)) (spelled rest) := by
  obtain ⟨base, mid, hbase, hlengths⟩ := h rest hrest
  exact .type hbase (hlengths t _ (.done hopen))

/-! ### Elementary words -/

theorem Spelled.sized {stem : String} (hstem : stem.toList.all isWordChar = true)
    (htext : t.text.toList = stem.toList ++ digitsOf n)
    (h : elementary? (stem.toList ++ digitsOf n) = .ok (some t)) : t.Spelled := by
  refine .of_base fun rest hrest => ?_
  rw [htext, spelled_sized hstem hrest]
  exact .elementary h

theorem Spelled.uint (h : hasWidth (.uint n) = true) : (Ty.uint n).Spelled :=
  .sized (by decide) (toList_text (.uint n)) (elementary?_uint h)

theorem Spelled.int (h : hasWidth (.int n) = true) : (Ty.int n).Spelled :=
  .sized (by decide) (toList_text (.int n)) (elementary?_int h)

theorem Spelled.fixedBytes (h : hasWidth (.fixedBytes n) = true) : (Ty.fixedBytes n).Spelled :=
  .sized (by decide) (toList_text (.fixedBytes n)) (elementary?_fixedBytes h)

theorem Spelled.keyword {keyword : String} (hne : keyword.toList ≠ [])
    (hkeyword : keyword.toList.all isWordChar = true) (htext : t.text.toList = keyword.toList)
    (h : ∀ rest, Derives (.base t) (.word keyword.toList :: rest) rest) : t.Spelled := by
  refine .of_base fun rest hrest => ?_
  rw [htext, spelled_word hne hkeyword hrest]
  exact h (spelled rest)

theorem Spelled.bool : Ty.bool.Spelled :=
  .keyword (by decide) (by decide) (toList_text .bool) fun _ => .bool

theorem Spelled.address : Ty.address.Spelled :=
  .keyword (by decide) (by decide) (toList_text .address) fun _ => .address

/-! ### Bounds and lengths -/

theorem spelled_bracketed (n : Nat) (rest : List Char) :
    spelled (bracketed n ++ rest) =
      .mark '[' :: .word (digitsOf n) :: .mark ']' :: spelled rest := by
  have hclose : Ends (']' :: rest) := ends_punctuation (by decide)
  have h : bracketed n ++ rest = '[' :: (digitsOf n ++ ']' :: rest) := by simp [bracketed]
  rw [h, spelled_punctuation (by decide), spelled_digitsOf hclose, spelled_punctuation (by decide)]

theorem ends_bracketed (n : Nat) (rest : List Char) : Ends (bracketed n ++ rest) :=
  ends_punctuation (by decide)

theorem Spelled.bounded {keyword : String} (hne : keyword.toList ≠ [])
    (hkeyword : keyword.toList.all isWordChar = true)
    (htext : t.text.toList = keyword.toList ++ bracketed n)
    (h : ∀ rest, Derives (.base t)
      (.word keyword.toList :: .mark '[' :: .word (digitsOf n) :: .mark ']' :: rest) rest) :
    t.Spelled := by
  refine .of_base fun rest _ => ?_
  rw [htext, List.append_assoc, spelled_word hne hkeyword (ends_bracketed n rest),
    spelled_bracketed]
  exact h (spelled rest)

theorem Spelled.bytes (hn : n ≤ Size.limit) : (Ty.bytes n).Spelled :=
  .bounded (by decide) (by decide) (toList_text (.bytes n)) fun _ => .bytes (numeral_digitsOf hn)

theorem Spelled.string (hn : n ≤ Size.limit) : (Ty.string n).Spelled :=
  .bounded (by decide) (by decide) (toList_text (.string n)) fun _ => .string (numeral_digitsOf hn)

/-- The lengths of an array go on behind those of its element. -/
theorem Spelled.array {elem : Ty} (h : elem.Spelled) (hn : n ≤ Size.limit) :
    (Ty.array elem n).Spelled := by
  intro rest _
  obtain ⟨base, mid, hbase, hlengths⟩ := h (bracketed n ++ rest) (ends_bracketed n rest)
  have htext : (Ty.array elem n).text.toList = elem.text.toList ++ bracketed n :=
    toList_text (.array elem n)
  rw [htext, List.append_assoc]
  refine ⟨base, mid, hbase, fun u last hu => hlengths u last ?_⟩
  rw [spelled_bracketed]
  exact .length (numeral_digitsOf hn) hu

/-! ### Types in brackets -/

theorem Spelled.before (h : t.Spelled) {c : Char} (hc : c ∈ punctuation) (hopen : c ≠ '[')
    (rest : List Char) :
    Derives (.type t) (spelled (t.text.toList ++ c :: rest)) (.mark c :: spelled rest) := by
  have hmark : spelled (c :: rest) = .mark c :: spelled rest := spelled_punctuation hc
  have hends : Ends (c :: rest) := ends_punctuation hc
  rw [← hmark]
  exact h.type hends (by simpa [hmark] using hopen)

theorem Spelled.mapping {key value : Ty} (hkey : key.Spelled) (hvalue : value.Spelled) :
    (Ty.mapping key value).Spelled := by
  refine .of_base fun rest _ => ?_
  have htext : (Ty.mapping key value).text.toList ++ rest = "HashMap".toList ++
      ('[' :: (key.text.toList ++ ',' :: ' ' :: (value.text.toList ++ ']' :: rest))) := by
    simp [toList_text (.mapping key value)]
  rw [htext, spelled_word (by decide) (by decide) (ends_punctuation (by decide)),
    spelled_punctuation (by decide)]
  have hkeyed := hkey.before (c := ',') (by decide) (by decide)
    (' ' :: (value.text.toList ++ ']' :: rest))
  rw [spelled_blank (by decide) (by decide)] at hkeyed
  exact .mapping hkeyed (hvalue.before (by decide) (by decide) rest)

theorem Spelled.dynArray {elem : Ty} (helem : elem.Spelled) (hn : n ≤ Size.limit) :
    (Ty.dynArray elem n).Spelled := by
  refine .of_base fun rest _ => ?_
  have htext : (Ty.dynArray elem n).text.toList ++ rest = "DynArray".toList ++
      ('[' :: (elem.text.toList ++ ',' :: ' ' :: (digitsOf n ++ ']' :: rest))) := by
    simp [toList_text (.dynArray elem n)]
  rw [htext, spelled_word (by decide) (by decide) (ends_punctuation (by decide)),
    spelled_punctuation (by decide)]
  have h := helem.before (c := ',') (by decide) (by decide) (' ' :: (digitsOf n ++ ']' :: rest))
  rw [spelled_blank (by decide) (by decide), spelled_digitsOf (ends_punctuation (by decide)),
    spelled_punctuation (by decide)] at h
  exact .dynArray h (numeral_digitsOf hn)

/-! ### Members -/

theorem listed_nil : listed [] = [] := by
  simp [listed]

theorem listed_singleton (s : String) : listed [s] = s.toList := by
  simp [listed]

theorem listed_cons_cons (s t : String) (texts : List String) :
    listed (s :: t :: texts) = s.toList ++ ',' :: ' ' :: listed (t :: texts) := by
  simp [listed, List.intercalate]

theorem derives_members {ts : List Ty} (h : ∀ t ∈ ts, t.Spelled) (hne : ts ≠ [])
    (rest : List Char) :
    Derives (.members ts) (spelled (listed (memberTexts ts) ++ ')' :: rest)) (spelled rest) := by
  induction ts with
  | nil => exact absurd rfl hne
  | cons t ts ih =>
    rw [List.forall_mem_cons] at h
    cases ts with
    | nil =>
      rw [memberTexts, memberTexts, listed_singleton]
      exact .lastMember (h.1.before (by decide) (by decide) rest)
    | cons u us =>
      have hcomma := h.1.before (c := ',') (by decide) (by decide)
        (' ' :: (listed (memberTexts (u :: us)) ++ ')' :: rest))
      rw [spelled_blank (by decide) (by decide)] at hcomma
      have htext : listed (memberTexts (t :: u :: us)) ++ ')' :: rest = t.text.toList ++
          ',' :: ' ' :: (listed (memberTexts (u :: us)) ++ ')' :: rest) := by
        simp [memberTexts, listed_cons_cons]
      rw [htext]
      exact .member hcomma (ih h.2 (by simp))

theorem derives_fields {fs : List (String × Ty)} (hnames : ∀ f ∈ fs, IsName f.1.toList)
    (h : ∀ f ∈ fs, f.2.Spelled) (hne : fs ≠ []) (rest : List Char) :
    Derives (.fields fs) (spelled (listed (fieldTexts fs) ++ '\x7d' :: rest)) (spelled rest) := by
  induction fs with
  | nil => exact absurd rfl hne
  | cons f fs ih =>
    obtain ⟨name, t⟩ := f
    rw [List.forall_mem_cons] at hnames h
    obtain ⟨⟨hnonempty, hletters⟩, hnames⟩ := hnames
    -- the name and the colon in front of whatever is said of the member
    have hname : ∀ cs, spelled (name.toList ++ ':' :: ' ' :: cs) =
        .word name.toList :: .mark ':' :: spelled cs := by
      intro cs
      rw [spelled_word hnonempty (List.all_eq_true.2 hletters) (ends_punctuation (by decide)),
        spelled_punctuation (by decide), spelled_blank (by decide) (by decide)]
    cases fs with
    | nil =>
      have htext : listed (fieldTexts [(name, t)]) ++ '\x7d' :: rest =
          name.toList ++ ':' :: ' ' :: (t.text.toList ++ '\x7d' :: rest) := by
        simp [fieldTexts, listed_singleton, toString]
      have hlast := Derives.lastField (w := name.toList)
        (h.1.before (c := '\x7d') (by decide) (by decide) rest)
      rw [htext, hname]
      rwa [String.ofList_toList] at hlast
    | cons g gs =>
      have htext : listed (fieldTexts ((name, t) :: g :: gs)) ++ '\x7d' :: rest =
          name.toList ++ ':' :: ' ' :: (t.text.toList ++
            ',' :: ' ' :: (listed (fieldTexts (g :: gs)) ++ '\x7d' :: rest)) := by
        simp [fieldTexts, listed_cons_cons, toString]
      have hcomma := h.1.before (c := ',') (by decide) (by decide)
        (' ' :: (listed (fieldTexts (g :: gs)) ++ '\x7d' :: rest))
      rw [spelled_blank (by decide) (by decide)] at hcomma
      have hfield := Derives.field (w := name.toList) hcomma (ih hnames h.2 (by simp))
      rw [htext, hname]
      rwa [String.ofList_toList] at hfield

theorem Spelled.tuple {ts : List Ty} (h : ∀ t ∈ ts, t.Spelled) : (Ty.tuple ts).Spelled := by
  refine .of_base fun rest _ => ?_
  have htext : (Ty.tuple ts).text.toList ++ rest =
      '(' :: (listed (memberTexts ts) ++ ')' :: rest) := by
    simp [toList_text (.tuple ts)]
  rw [htext, spelled_punctuation (by decide)]
  by_cases hne : ts = []
  · subst hne
    rw [memberTexts, listed_nil, List.nil_append, spelled_punctuation (by decide)]
    exact .unit
  · exact .tuple (derives_members h hne rest)

theorem Spelled.struct {name : String} {fs : List (String × Ty)}
    (hnames : hasNames (.struct name fs) = true) (h : ∀ t ∈ fs.map Prod.snd, t.Spelled) :
    (Ty.struct name fs).Spelled := by
  obtain ⟨⟨hnonempty, hletters⟩, hfree, hfields⟩ := of_decide_eq_true hnames
  refine .of_base fun rest _ => ?_
  have htext : (Ty.struct name fs).text.toList ++ rest =
      name.toList ++ ('\x7b' :: (listed (fieldTexts fs) ++ '\x7d' :: rest)) := by
    simp [toList_text (.struct name fs)]
  rw [htext, spelled_word hnonempty (List.all_eq_true.2 hletters) (ends_punctuation (by decide)),
    spelled_punctuation (by decide)]
  by_cases hne : fs = []
  · subst hne
    have hempty : Derives (.base (.struct (String.ofList name.toList) []))
        (.word name.toList :: .mark '\x7b' :: .mark '\x7d' :: spelled rest) (spelled rest) :=
      .empty hfree
    rw [fieldTexts, listed_nil, List.nil_append, spelled_punctuation (by decide)]
    rwa [String.ofList_toList] at hempty
  · have hspelled : ∀ f ∈ fs, f.2.Spelled := fun f hf => h f.2 (List.mem_map_of_mem hf)
    have hstruct := Derives.struct hfree (derives_fields hfields hspelled hne rest)
    rwa [String.ofList_toList] at hstruct

/-! ## Every type that text can say -/

theorem spelled_of_written (hwritten : t.Written) (hnamed : t.named = true) : t.Spelled := by
  obtain ⟨hsized, hbound⟩ := hwritten
  unfold wellSized at hsized
  unfold addressable at hbound
  unfold named at hnamed
  induction t using memberInduction with
  | uint bits => exact .uint hsized
  | int bits => exact .int hsized
  | bool => exact .bool
  | address => exact .address
  | fixedBytes size => exact .fixedBytes hsized
  | bytes bound => exact .bytes (of_decide_eq_true hbound)
  | string bound => exact .string (of_decide_eq_true hbound)
  | array elem n ih =>
    simp only [everywhere, Bool.and_eq_true] at hsized hbound hnamed
    exact (ih hnamed.2 hsized.2 hbound.2).array (of_decide_eq_true hbound.1)
  | dynArray elem bound ih =>
    simp only [everywhere, Bool.and_eq_true] at hsized hbound hnamed
    exact (ih hnamed.2 hsized.2 hbound.2).dynArray (of_decide_eq_true hbound.1)
  | tuple members ih =>
    have hsized := (everywhere_tuple hsized).2
    have hbound := (everywhere_tuple hbound).2
    have hnamed := (everywhere_tuple hnamed).2
    exact .tuple fun t ht => ih t ht (hnamed t ht) (hsized t ht) (hbound t ht)
  | struct name fields ih =>
    have hsized := (everywhere_struct hsized).2
    have hbound := (everywhere_struct hbound).2
    obtain ⟨hnames, hnamed⟩ := everywhere_struct hnamed
    exact .struct hnames fun t ht => ih t ht (hnamed t ht) (hsized t ht) (hbound t ht)
  | mapping key value ihkey ihvalue =>
    simp only [everywhere, Bool.and_eq_true] at hsized hbound hnamed
    exact .mapping (ihkey hnamed.2.1 hsized.2.1 hbound.2.1)
      (ihvalue hnamed.2.2 hsized.2.2 hbound.2.2)

/-- A type whose widths, bounds and names can be written is read back from its text. -/
theorem parse_text (hwritten : t.Written) (hnamed : t.named = true) : parse t.text = .ok t := by
  have hspelled := spelled_of_written hwritten hnamed
  have hderives := hspelled.type ends_nil (by simp [spelled_nil])
  rw [List.append_nil, spelled_nil] at hderives
  exact parse_eq_ok_iff.2 hderives

/-- The types that some text stands for are those whose widths, bounds and names can be written. -/
theorem exists_parse_eq_ok_iff : (∃ s, parse s = .ok t) ↔ t.Written ∧ t.named = true := by
  constructor
  · rintro ⟨s, h⟩
    exact ⟨written_of_parse h, named_of_parse h⟩
  · rintro ⟨hwritten, hnamed⟩
    exact ⟨t.text, parse_text hwritten hnamed⟩

/-- Whatever text a type was read from, its own text is read as the same type. -/
theorem parse_text_of_parse {s : String} (h : parse s = .ok t) : parse t.text = .ok t :=
  parse_text (written_of_parse h) (named_of_parse h)

/-- Blanks and leading zeros are lost, and a name that starts like an elementary word is kept. -/
theorem parse_text_account :
    parse " uint8x \x7b owner:address , ids : DynArray[uint16 [ 007 ],2]\x7d" =
      .ok (.struct "uint8x" [("owner", .address), ("ids", .dynArray (.array (.uint 16) 7) 2)]) ∧
    parse (Ty.struct "uint8x"
        [("owner", .address), ("ids", .dynArray (.array (.uint 16) 7) 2)]).text =
      .ok (.struct "uint8x" [("owner", .address), ("ids", .dynArray (.array (.uint 16) 7) 2)]) := by
  have h : parse " uint8x \x7b owner:address , ids : DynArray[uint16 [ 007 ],2]\x7d" =
      .ok (.struct "uint8x"
        [("owner", .address), ("ids", .dynArray (.array (.uint 16) 7) 2)]) := by
    decide +kernel
  exact ⟨h, parse_text_of_parse h⟩

end Ty

end EvmInspect
