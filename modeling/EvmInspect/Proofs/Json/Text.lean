import EvmInspect.Json.Parser
import EvmInspect.Json.Printer
import EvmInspect.Proofs.Basic
import EvmInspect.Proofs.Digits
/-!
# Documents are read back from their text

What is written of a document is read as that document in front of any text that does not go on
with it.  The bound of the reader covers twice the length of what is written: one step for each
bracket or comma, and one for the document behind it.
-/

namespace EvmInspect.Json

/-- Nothing in the document is foreign. -/
inductive Native : Json → Prop
  | null : Native .null
  | bool (b : Bool) : Native (.bool b)
  | int (n : Int) : Native (.int n)
  | string (s : String) : Native (.string s)
  | array {items : List Json} (h : ∀ j ∈ items, Native j) : Native (.array items)
  | object {entries : List (String × Json)} (h : ∀ e ∈ entries, Native e.2) :
    Native (.object entries)

variable {fuel : Nat} {rest : List Char}

theorem skipBlanks_cons {c : Char} (h : isBlank c = false) (s : List Char) :
    skipBlanks (c :: s) = c :: s := by
  simp [skipBlanks, h]

/-! ## Letters -/

theorem codeUnit?_fourDigits {n : Nat} (h : n < 65536) (rest : List Char) :
    codeUnit? (fourDigits n ++ rest) = some (n, rest) := by
  have hdigit (k : Nat) : Hex.digit? (Hex.digit (k % 16)) = some (k % 16) :=
    Hex.digit?_digit (Nat.mod_lt k (by decide))
  have hsum : 4096 * (n / 4096 % 16) + 256 * (n / 256 % 16) + 16 * (n / 16 % 16) + n % 16 = n := by
    omega
  simp [fourDigits, codeUnit?, hdigit, hsum]

theorem unicodeEscape?_fourDigits {c : Char} (h : c.toNat < 32) (rest : List Char) :
    unicodeEscape? (fourDigits c.toNat ++ rest) = some (some c, rest) := by
  have hhigh : ¬(0xD800 ≤ c.toNat ∧ c.toNat ≤ 0xDBFF) := by omega
  have hlow : ¬(0xDC00 ≤ c.toNat ∧ c.toNat ≤ 0xDFFF) := by omega
  rw [unicodeEscape?, codeUnit?_fourDigits (by omega)]
  simp [hhigh, hlow, Char.ofNat_toNat]

theorem textFrom_escape (fuel : Nat) (letters : List Char) (c : Char) (rest : List Char) :
    textFrom (fuel + 1) (some letters) (escape c ++ rest) =
      textFrom fuel (some (c :: letters)) rest := by
  unfold escape
  split_ifs with hquote hslash hnewline hreturn htab hback hfeed hcontrol
  · rw [hquote]
    rfl
  · rw [hslash]
    rfl
  · rw [hnewline]
    rfl
  · rw [hreturn]
    rfl
  · rw [htab]
    rfl
  · rw [← Char.ofNat_toNat c, hback]
    rfl
  · rw [← Char.ofNat_toNat c, hfeed]
    rfl
  · simp [textFrom, escape?, unicodeEscape?_fourDigits hcontrol]
  · simp [textFrom, hquote, hslash, hcontrol]

theorem textFrom_letters {letters s : List Char} (h : s.length < fuel) :
    textFrom fuel (some letters) (s.flatMap escape ++ '"' :: rest) =
      some (some (String.ofList (letters.reverse ++ s)), rest) := by
  induction s generalizing fuel letters with
  | nil =>
    obtain ⟨fuel, rfl⟩ := Nat.exists_eq_add_one.2 (Nat.zero_lt_of_lt h)
    simp [textFrom]
  | cons c s ih =>
    obtain ⟨fuel, rfl⟩ := Nat.exists_eq_add_one.2 (Nat.zero_lt_of_lt h)
    rw [List.flatMap_cons, List.append_assoc, textFrom_escape, ih (by simpa using h),
      List.reverse_cons, List.append_assoc, List.singleton_append]

theorem escape_ne_nil (c : Char) : escape c ≠ [] := by
  unfold escape
  split_ifs <;> simp

theorem length_le_flatMap_escape (s : List Char) : s.length ≤ (s.flatMap escape).length := by
  induction s with
  | nil => simp
  | cons c s ih =>
    have hc := List.length_pos_of_ne_nil (escape_ne_nil c)
    rw [List.flatMap_cons, List.length_append, List.length_cons]
    omega

theorem text?_letters (s : String) (rest : List Char) :
    text? (s.toList.flatMap escape ++ '"' :: rest) = some (some s, rest) := by
  have hlen := length_le_flatMap_escape s.toList
  have hfuel : s.toList.length < (s.toList.flatMap escape ++ '"' :: rest).length + 1 := by
    rw [List.length_append, List.length_cons]
    omega
  rw [text?, textFrom_letters hfuel, List.reverse_nil, List.nil_append, String.ofList_toList]

theorem toList_quote (s : String) :
    (quote s).toList = '"' :: (s.toList.flatMap escape ++ ['"']) := by
  rw [quote, String.toList_ofList]

/-! ## Numbers -/

def Stops (s : List Char) : Prop := ∀ c ∈ s.head?, c = ',' ∨ c = ']' ∨ c = '\x7d'

theorem stops_nil : Stops [] := by simp [Stops]

theorem stops_comma (s : List Char) : Stops (',' :: s) := by simp [Stops]

theorem stops_bracket (s : List Char) : Stops (']' :: s) := by simp [Stops]

theorem stops_brace (s : List Char) : Stops ('\x7d' :: s) := by simp [Stops]

theorem fraction?_of_stops (h : Stops rest) : fraction? rest = some ([], rest) := by
  cases rest with
  | nil => rfl
  | cons c s => obtain rfl | rfl | rfl := h c rfl <;> rfl

theorem exponent?_of_stops (h : Stops rest) : exponent? rest = some ([], rest) := by
  cases rest with
  | nil => rfl
  | cons c s => obtain rfl | rfl | rfl := h c rfl <;> rfl

/-- Decimal digits are the number that they write, but a negative zero is none. -/
theorem number?_toDigits (negative : Bool) {n : Nat} (hzero : ¬(negative = true ∧ n = 0))
    (hrest : Stops rest) :
    number? negative (Nat.toDigits 10 n ++ rest) =
      some (.int (if negative then -(n : Int) else n), rest) := by
  have hstop : ∀ c ∈ rest.head?, c.isDigit = false := by
    intro c hc
    obtain rfl | rfl | rfl := hrest c hc <;> rfl
  have hvalue : natOfDigits (Nat.toDigits 10 n) = n := foldl_toDigits n
  have hne : (Nat.toDigits 10 n).isEmpty = false := by simp
  unfold number?
  rw [takeWhile_run (isDigit_toDigits n) hstop, dropWhile_run (isDigit_toDigits n) hstop]
  simp only [hne, Bool.false_eq_true, if_false, if_neg (canonical_toDigits n)]
  simp only [fraction?_of_stops hrest, exponent?_of_stops hrest, hvalue, hzero,
    Option.bind_eq_bind, Option.bind_some, List.isEmpty_nil, not_false_eq_true, and_self, if_true]
  rfl

theorem ne_of_isDigit {c d : Char} (hc : c.isDigit = true) (hd : d.isDigit = false) : c ≠ d := by
  rintro rfl
  exact absurd (hc.symm.trans hd) (by decide)

theorem isBlank_of_isDigit {c : Char} (hc : c.isDigit = true) : isBlank c = false := by
  have hne (d : Char) (hd : d.isDigit = false) : c ≠ d := ne_of_isDigit hc hd
  simp [isBlank, hne ' ' rfl, hne '\n' rfl, hne '\t' rfl, hne '\r' rfl]

theorem value?_digit {c : Char} (hc : c.isDigit = true) (s : List Char) :
    value? (fuel + 1) (c :: s) = number? false (c :: s) := by
  have hne (d : Char) (hd : d.isDigit = false) : c ≠ d := ne_of_isDigit hc hd
  rw [value?, skipBlanks_cons (isBlank_of_isDigit hc)]
  simp [hne '"' rfl, hne '[' rfl, hne '\x7b' rfl, hne 't' rfl, hne 'f' rfl, hne 'n' rfl,
    hne '-' rfl]

theorem value?_natural (n : Nat) (hrest : Stops rest) :
    value? (fuel + 1) (Nat.toDigits 10 n ++ rest) = some (.int n, rest) := by
  have hnumber := number?_toDigits false (n := n) (by simp) hrest
  obtain ⟨c, s, hdigits, hc⟩ := exists_toDigits_eq_cons n
  rw [hdigits, List.cons_append] at hnumber ⊢
  rw [value?_digit hc, hnumber]
  rfl

/-! ## Documents -/

/-- In front of any text behind it, what is written of the document is read as the document. -/
def ReadBack (j : Json) : Prop :=
  ∀ fuel rest, 2 * j.render.toList.length ≤ fuel → Stops rest →
    value? fuel (j.render.toList ++ rest) = some (j, rest)

theorem exists_fuel {s : List Char} (hne : s ≠ []) (h : 2 * s.length ≤ fuel) :
    ∃ f, fuel = f + 1 := by
  have hpos := List.length_pos_of_ne_nil hne
  exact Nat.exists_eq_add_one.2 (by omega)

theorem toList_render_natural (n : Nat) : (Json.int n).render.toList = Nat.toDigits 10 n := by
  simp [render, toString, Int.repr, Nat.repr]

theorem toList_render_negative (n : Nat) :
    (Json.int (.negSucc n)).render.toList = '-' :: Nat.toDigits 10 (n + 1) := by
  simp [render, toString, Int.repr, Nat.repr]

theorem toList_render_string (s : String) :
    (Json.string s).render.toList = '"' :: (s.toList.flatMap escape ++ ['"']) := by
  rw [render, toList_quote]

theorem ReadBack.null : Json.null.ReadBack := by
  intro fuel rest hfuel _
  obtain ⟨fuel, rfl⟩ := exists_fuel (by decide) hfuel
  rfl

theorem ReadBack.bool (b : Bool) : (Json.bool b).ReadBack := by
  intro fuel rest hfuel _
  obtain ⟨fuel, rfl⟩ := exists_fuel (by cases b <;> decide) hfuel
  cases b <;> rfl

theorem ReadBack.int (n : Int) : (Json.int n).ReadBack := by
  intro fuel rest hfuel hrest
  cases n with
  | ofNat n =>
    rw [Int.ofNat_eq_natCast, toList_render_natural] at hfuel ⊢
    obtain ⟨fuel, rfl⟩ := exists_fuel Nat.toDigits_ne_nil hfuel
    exact value?_natural n hrest
  | negSucc n =>
    rw [toList_render_negative] at hfuel ⊢
    obtain ⟨fuel, rfl⟩ := exists_fuel (by simp) hfuel
    exact number?_toDigits true (by simp) hrest

theorem ReadBack.string (s : String) : (Json.string s).ReadBack := by
  intro fuel rest hfuel _
  rw [toList_render_string] at hfuel ⊢
  obtain ⟨fuel, rfl⟩ := exists_fuel (by simp) hfuel
  rw [List.cons_append, List.append_assoc, List.singleton_append, value?, skipBlanks_cons rfl]
  simp [text?_letters]

/-! ### Lists -/

def itemsText (items : List Json) : List Char :=
  [','].intercalate (items.map fun j => j.render.toList)

theorem itemsText_singleton (j : Json) : itemsText [j] = j.render.toList := by
  simp [itemsText]

theorem itemsText_cons_cons (j k : Json) (items : List Json) :
    itemsText (j :: k :: items) = j.render.toList ++ ',' :: itemsText (k :: items) := by
  simp [itemsText]

theorem renderItems_eq (items : List Json) : renderItems items = items.map render := by
  induction items with
  | nil => rfl
  | cons j items ih => rw [renderItems, ih, List.map_cons]

theorem toList_render_array (items : List Json) :
    (Json.array items).render.toList = '[' :: (itemsText items ++ [']']) := by
  simp [render, renderItems_eq, itemsText, Function.comp_def]

-- By induction on the list: the comma or bracket behind a document pays for the step to the next.
theorem items?_itemsText {items : List Json} (hne : items ≠ []) (h : ∀ j ∈ items, j.ReadBack)
    (hfuel : 2 * (itemsText items).length < fuel) :
    items? fuel (itemsText items ++ ']' :: rest) = some (items, rest) := by
  induction items generalizing fuel with
  | nil => exact absurd rfl hne
  | cons j items ih =>
    obtain ⟨fuel, rfl⟩ := Nat.exists_eq_add_one.2 (Nat.zero_lt_of_lt hfuel)
    rw [List.forall_mem_cons] at h
    cases items with
    | nil =>
      rw [itemsText_singleton] at hfuel ⊢
      rw [items?, h.1 fuel _ (by omega) (stops_bracket rest)]
      rfl
    | cons k items =>
      rw [itemsText_cons_cons, List.length_append, List.length_cons] at hfuel
      have htail : items? fuel (itemsText (k :: items) ++ ']' :: rest) = some (k :: items, rest) :=
        ih (by simp) h.2 (by omega)
      rw [itemsText_cons_cons, List.append_assoc, List.cons_append, items?,
        h.1 fuel _ (by omega) (stops_comma _)]
      simp [skipBlanks, isBlank, htail]

/-! ### Objects -/

def entryText (e : String × Json) : List Char :=
  '"' :: (e.1.toList.flatMap escape ++ '"' :: ':' :: e.2.render.toList)

def entriesText (entries : List (String × Json)) : List Char :=
  [','].intercalate (entries.map entryText)

theorem entriesText_singleton (e : String × Json) : entriesText [e] = entryText e := by
  simp [entriesText]

theorem entriesText_cons_cons (e d : String × Json) (entries : List (String × Json)) :
    entriesText (e :: d :: entries) = entryText e ++ ',' :: entriesText (d :: entries) := by
  simp [entriesText]

theorem renderEntries_eq (entries : List (String × Json)) :
    renderEntries entries = entries.map fun e => quote e.1 ++ ":" ++ e.2.render := by
  induction entries with
  | nil => rfl
  | cons e entries ih => rw [renderEntries, ih, List.map_cons]

theorem toList_render_object (entries : List (String × Json)) :
    (Json.object entries).render.toList = '\x7b' :: (entriesText entries ++ ['\x7d']) := by
  simp [render, renderEntries_eq, entriesText, toList_quote, Function.comp_def]
  rfl

theorem length_entryText (e : String × Json) :
    e.2.render.toList.length + 3 ≤ (entryText e).length := by
  simp [entryText]

theorem entries?_entriesText {entries : List (String × Json)} (hne : entries ≠ [])
    (h : ∀ e ∈ entries, e.2.ReadBack) (hfuel : 2 * (entriesText entries).length < fuel) :
    entries? fuel (entriesText entries ++ '\x7d' :: rest) = some (some entries, rest) := by
  induction entries generalizing fuel with
  | nil => exact absurd rfl hne
  | cons e entries ih =>
    obtain ⟨fuel, rfl⟩ := Nat.exists_eq_add_one.2 (Nat.zero_lt_of_lt hfuel)
    have hlen := length_entryText e
    rw [List.forall_mem_cons] at h
    cases entries with
    | nil =>
      rw [entriesText_singleton] at hfuel ⊢
      have hvalue := h.1 fuel _ (by omega) (stops_brace rest)
      simp [entryText, entries?, text?_letters, hvalue, skipBlanks, isBlank]
    | cons d entries =>
      rw [entriesText_cons_cons, List.length_append, List.length_cons] at hfuel
      have htail : entries? fuel (entriesText (d :: entries) ++ '\x7d' :: rest) =
          some (some (d :: entries), rest) := ih (by simp) h.2 (by omega)
      have hvalue := h.1 fuel (',' :: (entriesText (d :: entries) ++ '\x7d' :: rest)) (by omega)
        (stops_comma _)
      rw [entriesText_cons_cons]
      simp [entryText, entries?, text?_letters, hvalue, htail, entryOf?, skipBlanks, isBlank]

theorem exists_render_eq_cons {j : Json} (h : j.Native) :
    ∃ c s, j.render.toList = c :: s ∧ isBlank c = false ∧ c ≠ ']' := by
  cases h with
  | null => exact ⟨'n', _, rfl, rfl, by decide⟩
  | bool b => cases b <;> exact ⟨_, _, rfl, rfl, by decide⟩
  | int n =>
    cases n with
    | ofNat n =>
      obtain ⟨c, s, hdigits, hc⟩ := exists_toDigits_eq_cons n
      exact ⟨c, s, (toList_render_natural n).trans hdigits, isBlank_of_isDigit hc,
        ne_of_isDigit hc rfl⟩
    | negSucc n => exact ⟨_, _, toList_render_negative n, rfl, by decide⟩
  | string s => exact ⟨_, _, toList_render_string s, rfl, by decide⟩
  | array _ => exact ⟨_, _, toList_render_array _, rfl, by decide⟩
  | object _ => exact ⟨_, _, toList_render_object _, rfl, by decide⟩

theorem ReadBack.array {items : List Json} (hnative : ∀ j ∈ items, j.Native)
    (h : ∀ j ∈ items, j.ReadBack) : (Json.array items).ReadBack := by
  intro fuel rest hfuel _
  rw [toList_render_array] at hfuel ⊢
  obtain ⟨fuel, rfl⟩ := exists_fuel (by simp) hfuel
  rw [List.length_cons, List.length_append, List.length_singleton] at hfuel
  cases items with
  | nil => rfl
  | cons j items =>
    have hitems : items? fuel (itemsText (j :: items) ++ ']' :: rest) = some (j :: items, rest) :=
      items?_itemsText (List.cons_ne_nil j items) h (by omega)
    obtain ⟨c, s, hcons, hblank, hclose⟩ : ∃ c s, itemsText (j :: items) = c :: s ∧
        isBlank c = false ∧ c ≠ ']' := by
      obtain ⟨c, s, hcons, hc⟩ := exists_render_eq_cons (hnative j List.mem_cons_self)
      cases items with
      | nil => exact ⟨c, s, by rw [itemsText_singleton, hcons], hc⟩
      | cons k items => exact ⟨c, _, by rw [itemsText_cons_cons, hcons, List.cons_append], hc⟩
    rw [hcons, List.cons_append] at hitems
    rw [hcons, List.cons_append, List.append_assoc, List.singleton_append, value?,
      skipBlanks_cons rfl]
    simp only [Char.reduceEq, if_false, if_true, List.cons_append, skipBlanks_cons hblank]
    split
    · rename_i heq
      exact absurd (List.cons.inj heq).1 hclose
    · rw [hitems]
      rfl

theorem ReadBack.object {entries : List (String × Json)} (h : ∀ e ∈ entries, e.2.ReadBack) :
    (Json.object entries).ReadBack := by
  intro fuel rest hfuel _
  rw [toList_render_object] at hfuel ⊢
  obtain ⟨fuel, rfl⟩ := exists_fuel (by simp) hfuel
  rw [List.length_cons, List.length_append, List.length_singleton] at hfuel
  cases entries with
  | nil => rfl
  | cons e entries =>
    have hentries : entries? fuel (entriesText (e :: entries) ++ '\x7d' :: rest) =
        some (some (e :: entries), rest) :=
      entries?_entriesText (List.cons_ne_nil e entries) h (by omega)
    obtain ⟨s, hcons⟩ : ∃ s, entriesText (e :: entries) = '"' :: s := by
      cases entries with
      | nil => exact ⟨_, by rw [entriesText_singleton, entryText]⟩
      | cons d entries => exact ⟨_, by rw [entriesText_cons_cons, entryText, List.cons_append]⟩
    have hquote (s : List Char) : skipBlanks ('"' :: s) = '"' :: s := skipBlanks_cons rfl s
    rw [hcons, List.cons_append] at hentries
    rw [hcons, List.cons_append, List.append_assoc, List.singleton_append, value?,
      skipBlanks_cons rfl]
    simp [hquote, hentries]

theorem readBack {j : Json} (h : j.Native) : j.ReadBack := by
  induction h with
  | null => exact .null
  | bool b => exact .bool b
  | int n => exact .int n
  | string s => exact .string s
  | array hnative ih => exact .array hnative ih
  | object _ ih => exact .object ih

/-- A document without anything foreign is read back from its text. -/
theorem parse_render {j : Json} (h : j.Native) : parse j.render = some j := by
  have hvalue := readBack h (2 * j.render.toList.length + 2) [] (by omega) stops_nil
  rw [List.append_nil] at hvalue
  rw [parse]
  simp [hvalue, skipBlanks]

end EvmInspect.Json
