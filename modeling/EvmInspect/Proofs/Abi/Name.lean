import EvmInspect.Abi.Signature
import EvmInspect.Proofs.Ty.Text
/-!
# Call types are read back from their names

The name of a type in front of other text is read as that type.  Array lengths stand behind the
element in the name and are read from the left, so what is proved of each type is that the lengths
behind its name go on where the name ends.  A list of one is written with a comma behind its member
and read without it.  Only lists that nest too deep are not read.
-/

namespace EvmInspect

namespace AbiType

open Ty (digitsOf digitsOf_ne_nil isDigit_of_mem_digitsOf bracketed)

/-- The name of the type can be read: widths are those of integers and fixed byte strings, and
lengths are addressable and not zero. -/
inductive Nameable : AbiType → Prop
  | bool : Nameable .bool
  | int {bits : Nat} (hbits : 8 ∣ bits ∧ 1 ≤ bits ∧ bits ≤ 256) : Nameable (.int bits)
  | uint {bits : Nat} (hbits : 8 ∣ bits ∧ 1 ≤ bits ∧ bits ≤ 256) : Nameable (.uint bits)
  | fixedBytes {size : Nat} (hsize : 1 ≤ size ∧ size ≤ 32) : Nameable (.fixedBytes size)
  | address : Nameable .address
  | bytes : Nameable .bytes
  | string : Nameable .string
  | array {elem : AbiType} (helem : Nameable elem) : Nameable (.array elem)
  | fixedArray {elem : AbiType} {n : Nat} (hn : n ≠ 0) (hlimit : n ≤ Size.limit)
      (helem : Nameable elem) : Nameable (.fixedArray elem n)
  | tuple {members : List AbiType} (hmembers : ∀ a ∈ members, Nameable a) :
      Nameable (.tuple members)

mutual

/-- How many lists stand inside each other in the name of the type. -/
def lists : AbiType → Nat
  | .array elem | .fixedArray elem _ => elem.lists
  | .tuple members | .struct _ _ members => 1 + membersLists members
  | _ => 0

/-- How many lists stand inside each other in the names of the types. -/
def membersLists : List AbiType → Nat
  | [] => 0
  | a :: as => max a.lists (membersLists as)

end

theorem lists_le_membersLists {members : List AbiType} {a : AbiType} (h : a ∈ members) :
    a.lists ≤ membersLists members := by
  induction members with
  | nil => simp at h
  | cons b bs ih =>
    rw [membersLists]
    rcases List.mem_cons.1 h with rfl | h
    · omega
    · have hle := ih h
      omega

variable {a elem : AbiType} {members : List AbiType} {word rest tail : List Char}
  {depth fuel bound n : Nat}

/-! ## Names as letters -/

def commaListed (names : List String) : List Char := (",".intercalate names).toList

theorem commaListed_nil : commaListed [] = [] := by
  simp [commaListed]

theorem commaListed_singleton (s : String) : commaListed [s] = s.toList := by
  simp [commaListed]

theorem commaListed_cons_cons (s t : String) (names : List String) :
    commaListed (s :: t :: names) = s.toList ++ ',' :: commaListed (t :: names) := by
  simp [commaListed, List.intercalate]

def closing (members : List AbiType) : List Char :=
  if members.length = 1 then [',', ')'] else [')']

theorem length_names (members : List AbiType) : (names members).length = members.length := by
  induction members with
  | nil => rfl
  | cons a as ih => rw [names, List.length_cons, List.length_cons, ih]

theorem toList_name (a : AbiType) : a.name.toList = match a with
    | .bool => "bool".toList
    | .int n => "int".toList ++ digitsOf n
    | .uint n => "uint".toList ++ digitsOf n
    | .fixedBytes n => "bytes".toList ++ digitsOf n
    | .address => "address".toList
    | .function => "function".toList
    | .bytes => "bytes".toList
    | .string => "string".toList
    | .array elem => elem.name.toList ++ ['[', ']']
    | .fixedArray elem n => elem.name.toList ++ bracketed n
    | .tuple members | .struct _ _ members =>
      '(' :: (commaListed (names members) ++ closing members) := by
  cases a with
  | tuple members | struct _ _ members =>
    by_cases hone : members.length = 1 <;>
      simp [name, tupleName, commaListed, closing, length_names, hone]
  | _ => simp [name, bracketed, digitsOf, toString]

/-! ## Words -/

/-- The text goes on with no word. -/
def Stops (rest : List Char) : Prop := ∀ c ∈ rest.head?, isWordPart c = false ∧ c ≠ '.'

theorem stops_cons {c : Char} (hpart : isWordPart c = false) (hpoint : c ≠ '.') :
    Stops (c :: rest) := by
  intro d hd
  rw [List.head?_cons, Option.mem_some_iff] at hd
  exact hd ▸ ⟨hpart, hpoint⟩

/-- The word is read as the type, and as no list. -/
structure Names (word : List Char) (a : AbiType) : Prop where
  start : ∃ c ∈ word.head?, isWordStart c = true ∧ c ≠ 't'
  parts : word.all isWordPart = true
  type : ofWord? word = some a

theorem Names.named?_eq (h : Names word a) (hrest : Stops rest) :
    named? (word ++ rest) = some (a, rest) := by
  obtain ⟨⟨c, hc, hstart, -⟩, hparts, ha⟩ := h
  obtain ⟨cs, rfl⟩ := List.head?_eq_some_iff.1 hc
  rw [List.all_cons, Bool.and_eq_true] at hparts
  have hparts := List.all_eq_true.1 hparts.2
  have hends : ∀ d ∈ rest.head?, isWordPart d = false := fun d hd => (hrest d hd).1
  have hword : word? (c :: cs ++ rest) = some (c :: cs, rest) := by
    rw [List.cons_append, word?, if_pos hstart, takeWhile_run hparts hends,
      dropWhile_run hparts hends]
  unfold named?
  rw [hword]
  cases rest with
  | nil => simp [ha]
  | cons d ds =>
    have hpoint : d ≠ '.' := (hrest d rfl).2
    simp [ha, hpoint]

theorem Names.openList?_eq (h : Names word a) : openList? (word ++ rest) = none := by
  obtain ⟨⟨c, hc, hstart, htuple⟩, -, -⟩ := h
  obtain ⟨cs, rfl⟩ := List.head?_eq_some_iff.1 hc
  have hlist : c ≠ '(' := by
    rintro rfl
    exact absurd hstart (by decide)
  unfold openList?
  split
  · simp_all
  · simp_all
  · rfl

/-- Inside `depth` lists, the name of the type is read as the type if text follows that goes on
with no word, and behind it go the lengths that follow. -/
def Parsed (depth : Nat) (a : AbiType) : Prop :=
  ∀ fuel rest, a.name.toList.length ≤ fuel → Stops rest → ∃ bound, rest.length < bound ∧
    type? depth fuel (a.name.toList ++ rest) = lengths? bound a rest

theorem Names.parsed (h : Names word a) (hname : a.name.toList = word) : a.Parsed depth := by
  intro fuel rest hfuel hrest
  rw [hname] at hfuel ⊢
  cases fuel with
  | zero =>
    obtain ⟨c, hc, -⟩ := h.start
    simp [List.length_eq_zero_iff.1 (Nat.le_zero.1 hfuel)] at hc
  | succ fuel =>
    refine ⟨rest.length + 1, Nat.lt_succ_self _, ?_⟩
    rw [type?, h.openList?_eq, h.named?_eq hrest]
    rfl

theorem sizeOf?_digitsOf (hn : n ≤ Size.limit) : sizeOf? (digitsOf n) = some n := by
  have hdigits : (digitsOf n).all Char.isDigit = true :=
    List.all_eq_true.2 fun _ h => isDigit_of_mem_digitsOf h
  have hvalue : Json.natOfDigits (digitsOf n) = n := Ty.natOfDigits_digitsOf n
  simp [sizeOf?, digitsOf_ne_nil, hdigits, hvalue, hn]

theorem width?_digitsOf (hn : 8 ∣ n ∧ 1 ≤ n ∧ n ≤ 256) : width? (digitsOf n) = some n := by
  have hsize : sizeOf? (digitsOf n) = some n := sizeOf?_digitsOf (by unfold Size.limit; omega)
  have hwidth : ¬(n = 0 ∨ 256 < n ∨ n % 8 ≠ 0) := by omega
  unfold width?
  rw [hsize, if_neg (by simpa using digitsOf_ne_nil n)]
  exact if_neg hwidth

theorem ofWord?_sized {stem : String} (hstem : stem.toList.all (fun c => !c.isDigit) = true) :
    ofWord? (stem.toList ++ digitsOf n) =
      if stem = "uint" then (width? (digitsOf n)).map .uint
      else if stem = "int" then (width? (digitsOf n)).map .int
      else if stem = "bytes" then
        (sizeOf? (digitsOf n)).bind fun n =>
          if n = 0 ∨ 32 < n then none else some (.fixedBytes n)
      else none := by
  have hempty : (digitsOf n).isEmpty = false := by simpa using digitsOf_ne_nil n
  unfold ofWord?
  simp only [Ty.takeWhile_stem hstem, Ty.dropWhile_stem hstem, String.ofList_toList, hempty,
    Bool.false_eq_true, if_false]
  cases sizeOf? (digitsOf n) <;> rfl

theorem parts_sized {stem : List Char} (hstem : stem.all isWordPart = true) :
    (stem ++ digitsOf n).all isWordPart = true := by
  rw [List.all_append, hstem, Bool.true_and, List.all_eq_true]
  intro c hc
  simp [isWordPart, isDigit_of_mem_digitsOf hc]

theorem parsed_int (hbits : 8 ∣ n ∧ 1 ≤ n ∧ n ≤ 256) : (AbiType.int n).Parsed depth := by
  refine Names.parsed ⟨⟨'i', by simp, by decide⟩, parts_sized (by decide), ?_⟩ (toList_name _)
  rw [ofWord?_sized (by decide), if_neg (by decide), if_pos rfl, width?_digitsOf hbits]
  rfl

theorem parsed_uint (hbits : 8 ∣ n ∧ 1 ≤ n ∧ n ≤ 256) : (AbiType.uint n).Parsed depth := by
  refine Names.parsed ⟨⟨'u', by simp, by decide⟩, parts_sized (by decide), ?_⟩ (toList_name _)
  rw [ofWord?_sized (by decide), if_pos rfl, width?_digitsOf hbits]
  rfl

theorem parsed_fixedBytes (hsize : 1 ≤ n ∧ n ≤ 32) : (AbiType.fixedBytes n).Parsed depth := by
  refine Names.parsed ⟨⟨'b', by simp, by decide⟩, parts_sized (by decide), ?_⟩ (toList_name _)
  rw [ofWord?_sized (by decide), if_neg (by decide), if_neg (by decide), if_pos rfl,
    sizeOf?_digitsOf (by unfold Size.limit; omega)]
  exact if_neg (by omega)

/-! ## Lengths -/

theorem lengths?_done (hbound : rest.length < bound) (hrest : rest.head? ≠ some '[') :
    lengths? bound a rest = some (a, rest) := by
  cases bound with
  | zero => simp at hbound
  | succ bound =>
    rw [lengths?]
    rintro cs rfl
    simp at hrest

/-- In front of text that opens no length, the name of the type is read as the type. -/
theorem Parsed.type?_eq (h : a.Parsed depth) (hfuel : a.name.toList.length ≤ fuel)
    (hrest : Stops rest) (hopen : rest.head? ≠ some '[') :
    type? depth fuel (a.name.toList ++ rest) = some (a, rest) := by
  obtain ⟨bound, hbound, heq⟩ := h fuel rest hfuel hrest
  rw [heq, lengths?_done hbound hopen]

theorem Parsed.array (h : elem.Parsed depth) : (AbiType.array elem).Parsed depth := by
  intro fuel rest hfuel _
  rw [toList_name] at hfuel ⊢
  rw [List.length_append] at hfuel
  obtain ⟨bound, hbound, heq⟩ := h fuel ('[' :: ']' :: rest) (by omega)
    (stops_cons (by decide) (by decide))
  simp only [List.length_cons] at hbound
  obtain ⟨bound, rfl⟩ : ∃ b, bound = b + 1 := ⟨bound - 1, by omega⟩
  refine ⟨bound, by omega, ?_⟩
  rw [List.append_assoc, List.cons_append, List.singleton_append, heq, lengths?]

theorem Parsed.fixedArray (h : elem.Parsed depth) (hn : n ≠ 0) (hlimit : n ≤ Size.limit) :
    (AbiType.fixedArray elem n).Parsed depth := by
  intro fuel rest hfuel _
  rw [toList_name] at hfuel ⊢
  rw [List.length_append] at hfuel
  obtain ⟨bound, hbound, heq⟩ := h fuel (bracketed n ++ rest) (by omega)
    (stops_cons (by decide) (by decide))
  simp only [bracketed, List.cons_append, List.length_cons, List.length_append] at hbound
  obtain ⟨bound, rfl⟩ : ∃ b, bound = b + 1 := ⟨bound - 1, by omega⟩
  refine ⟨bound, by omega, ?_⟩
  have hdigits : ∀ c ∈ digitsOf n, c.isDigit = true := fun c hc => isDigit_of_mem_digitsOf hc
  have hclose : ∀ c ∈ (']' :: rest).head?, c.isDigit = false := by simp
  have hstart : ∀ cs, digitsOf n ++ ']' :: rest = ']' :: cs → False := by
    intro cs hcs
    obtain ⟨d, ds, hds⟩ := List.exists_cons_of_ne_nil (digitsOf_ne_nil n)
    have hd := hdigits d (by simp [hds])
    rw [hds, List.cons_append, List.cons.injEq] at hcs
    simp [hcs.1] at hd
  have htext : bracketed n ++ rest = '[' :: (digitsOf n ++ ']' :: rest) := by simp [bracketed]
  rw [List.append_assoc, heq, htext, lengths?]
  · rw [takeWhile_run hdigits hclose, dropWhile_run hdigits hclose, sizeOf?_digitsOf hlimit]
    simp [hn]
  · exact hstart

/-! ## Lists -/

/-- A name starts with a letter or with the parenthesis of a list. -/
theorem Nameable.head?_name (h : a.Nameable) :
    ∃ c ∈ a.name.toList.head?, isSpace c = false ∧ c ≠ ')' := by
  induction h with
  | bool => exact ⟨'b', by simp [toList_name], by decide⟩
  | int => exact ⟨'i', by simp [toList_name], by decide⟩
  | uint => exact ⟨'u', by simp [toList_name], by decide⟩
  | fixedBytes => exact ⟨'b', by simp [toList_name], by decide⟩
  | address => exact ⟨'a', by simp [toList_name], by decide⟩
  | bytes => exact ⟨'b', by simp [toList_name], by decide⟩
  | string => exact ⟨'s', by simp [toList_name], by decide⟩
  | array _ ih | fixedArray _ _ _ ih =>
    obtain ⟨c, hc, h⟩ := ih
    exact ⟨c, by rw [toList_name, List.head?_append, hc, Option.some_or]; rfl, h⟩
  | tuple => exact ⟨'(', by simp [toList_name], by decide⟩

theorem head?_commaListed (h : a.Nameable) (as : List AbiType) (tail : List Char) :
    ∃ c ∈ (commaListed (names (a :: as)) ++ tail).head?, isSpace c = false ∧ c ≠ ')' := by
  obtain ⟨c, hc, hword⟩ := h.head?_name
  obtain ⟨cs, hcs⟩ := List.head?_eq_some_iff.1 hc
  refine ⟨c, ?_, hword⟩
  cases as with
  | nil => simp [names, commaListed_singleton, hcs]
  | cons b bs => simp [names, commaListed_cons_cons, hcs]

theorem skipSpaces_eq {s : List Char} (h : ∃ c ∈ s.head?, isSpace c = false ∧ c ≠ ')') :
    skipSpaces s = s := by
  obtain ⟨c, hc, hspace, -⟩ := h
  obtain ⟨cs, rfl⟩ := List.head?_eq_some_iff.1 hc
  simp [skipSpaces, hspace]

/-- Members are read in front of a closing parenthesis, and of a comma and one. -/
theorem members?_names (h : ∀ a ∈ members, a.Nameable ∧ a.Parsed depth) (hne : members ≠ [])
    (hfuel : (commaListed (names members)).length + 1 ≤ fuel)
    (htail : tail = ')' :: rest ∨ tail = ',' :: ')' :: rest) :
    members? depth fuel (commaListed (names members) ++ tail) = some (members, rest) := by
  induction members generalizing fuel with
  | nil => exact absurd rfl hne
  | cons a as ih =>
    obtain ⟨⟨hname, hparsed⟩, has⟩ := List.forall_mem_cons.1 h
    obtain ⟨c, hc, -, hclose⟩ := head?_commaListed hname as tail
    obtain ⟨fuel, rfl⟩ : ∃ n, fuel = n + 1 := ⟨fuel - 1, by omega⟩
    have hstart : ∀ cs, commaListed (names (a :: as)) ++ tail = ')' :: cs → False := by
      intro cs hcs
      rw [hcs, List.head?_cons, Option.mem_some_iff] at hc
      exact hclose hc.symm
    rw [members?.eq_3 _ _ _ hstart]
    cases as with
    | nil =>
      rw [names, names, commaListed_singleton] at hfuel ⊢
      rcases htail with rfl | rfl
      · rw [hparsed.type?_eq (by omega) (stops_cons (by decide) (by decide)) (by simp)]
        rfl
      · rw [hparsed.type?_eq (by omega) (stops_cons (by decide) (by decide)) (by simp)]
        -- the list may end behind the comma
        obtain ⟨d, hd, -⟩ := hname.head?_name
        obtain ⟨ds, hds⟩ := List.head?_eq_some_iff.1 hd
        obtain ⟨fuel, rfl⟩ : ∃ n, fuel = n + 1 := ⟨fuel - 1, by simp [hds] at hfuel; omega⟩
        have hend : members? depth (fuel + 1) (skipSpaces (')' :: rest)) = some ([], rest) := by
          have hskip : skipSpaces (')' :: rest) = ')' :: rest := rfl
          rw [hskip, members?]
        simp [hend]
    | cons b bs =>
      rw [names, names, commaListed_cons_cons] at hfuel ⊢
      rw [List.length_append, List.length_cons] at hfuel
      have hrest : members? depth fuel (commaListed (names (b :: bs)) ++ tail) =
          some (b :: bs, rest) := ih has (by simp) (by rw [names]; omega)
      have hskip := skipSpaces_eq (head?_commaListed (has b (by simp)).1 bs tail)
      rw [names] at hrest hskip
      rw [List.append_assoc, List.cons_append,
        hparsed.type?_eq (by omega) (stops_cons (by decide) (by decide)) (by simp)]
      simp [hskip, hrest]

/-- A list is read as a tuple, and behind it go the lengths that follow, unless it is too deep. -/
theorem type?_list (h : ∀ a ∈ members, a.Nameable ∧ a.Parsed (depth + 1))
    (hdepth : depth + 1 < listLimit) (hfuel : (commaListed (names members)).length + 1 ≤ fuel)
    (htail : tail = ')' :: rest ∨ members ≠ [] ∧ tail = ',' :: ')' :: rest) :
    type? depth (fuel + 1) ('(' :: (commaListed (names members) ++ tail)) =
      lengths? (rest.length + 1) (.tuple members) rest := by
  have hmembers : members? (depth + 1) fuel (skipSpaces (commaListed (names members) ++ tail)) =
      some (members, rest) := by
    cases members with
    | nil =>
      obtain rfl : tail = ')' :: rest := by simpa using htail
      have hskip : skipSpaces (commaListed (names []) ++ ')' :: rest) = ')' :: rest := by
        rw [names, commaListed_nil]
        rfl
      obtain ⟨fuel, rfl⟩ : ∃ n, fuel = n + 1 := ⟨fuel - 1, by omega⟩
      rw [hskip, members?]
    | cons a as =>
      rw [skipSpaces_eq (head?_commaListed (h a (by simp)).1 as tail)]
      exact members?_names h (by simp) hfuel (htail.imp_right And.right)
  have hopen : ¬listLimit ≤ depth + 1 := by omega
  rw [type?, openList?]
  simp only [if_neg hopen, hmembers]
  rfl

theorem parsed_tuple (h : ∀ a ∈ members, a.Nameable ∧ a.Parsed (depth + 1))
    (hdepth : depth + 1 < listLimit) : (AbiType.tuple members).Parsed depth := by
  intro fuel rest hfuel _
  rw [toList_name] at hfuel ⊢
  refine ⟨rest.length + 1, Nat.lt_succ_self _, ?_⟩
  rw [List.length_cons, List.length_append] at hfuel
  have hclosing : 1 ≤ (closing members).length := by
    unfold closing
    split <;> simp
  obtain ⟨fuel, rfl⟩ : ∃ n, fuel = n + 1 := ⟨fuel - 1, by omega⟩
  rw [List.cons_append, List.append_assoc]
  apply type?_list h hdepth (by omega)
  unfold closing
  split
  · rename_i hone
    refine .inr ⟨?_, rfl⟩
    rintro rfl
    simp at hone
  · exact .inl rfl

/-- The name of a type is read back in front of whatever goes on with no word, if its lists are not
too deep. -/
theorem Nameable.parsed (h : a.Nameable) (hdepth : depth + a.lists < listLimit) :
    a.Parsed depth := by
  induction h generalizing depth with
  | bool => exact Names.parsed ⟨⟨'b', by decide⟩, by decide, by rfl⟩ (toList_name _)
  | int hbits => exact parsed_int hbits
  | uint hbits => exact parsed_uint hbits
  | fixedBytes hsize => exact parsed_fixedBytes hsize
  | address => exact Names.parsed ⟨⟨'a', by decide⟩, by decide, by rfl⟩ (toList_name _)
  | bytes => exact Names.parsed ⟨⟨'b', by decide⟩, by decide, by rfl⟩ (toList_name _)
  | string => exact Names.parsed ⟨⟨'s', by decide⟩, by decide, by rfl⟩ (toList_name _)
  | array _ ih => exact (ih hdepth).array
  | fixedArray hn hlimit _ ih => exact (ih hdepth).fixedArray hn hlimit
  | tuple hmembers ih =>
    rw [lists] at hdepth
    refine parsed_tuple (fun a ha => ⟨hmembers a ha, ih a ha ?_⟩) (by omega)
    have hle := lists_le_membersLists ha
    omega

/-! ## What is read is not too deep -/

theorem lists_of_lengths? {s : List Char} :
    lengths? fuel elem s = some (a, rest) → a.lists = elem.lists := by
  fun_induction lengths? fuel elem s with
  | case1 => simp
  | case2 fuel elem rest ih => exact ih
  | case3 fuel elem s hclose ih =>
    simp only [Option.bind_eq_bind, Option.bind_eq_some_iff]
    rintro ⟨n, -, h⟩
    split at h
    · split at h
      · simp at h
      · exact ih n _ h
    · simp at h
  | case4 =>
    rintro ⟨⟩
    rfl

theorem lists_of_ofWord? (h : ofWord? word = some a) : a.lists = 0 := by
  unfold ofWord? at h
  simp only at h
  split at h
  · obtain ⟨n, -, rfl⟩ := Option.map_eq_some_iff.1 h
    rfl
  split at h
  · obtain ⟨n, -, rfl⟩ := Option.map_eq_some_iff.1 h
    rfl
  · grind [lists]

theorem lists_of_named? {s : List Char} (h : named? s = some (a, rest)) : a.lists = 0 := by
  unfold named? at h
  simp only [Option.bind_eq_bind, Option.bind_eq_some_iff, Prod.exists] at h
  obtain ⟨word, rest', -, h⟩ := h
  split at h
  · cases h
    rfl
  · simp only [Option.bind_eq_some_iff] at h
    obtain ⟨b, hb, h⟩ := h
    cases h
    exact lists_of_ofWord? hb

/-- What is read inside `depth` lists stays below the limit. -/
theorem lists_of_type? (hdepth : depth < listLimit) (s : List Char) :
    (∀ a rest, type? depth fuel s = some (a, rest) → depth + a.lists < listLimit) ∧
      ∀ as rest, members? depth fuel s = some (as, rest) → depth + membersLists as < listLimit := by
  induction fuel generalizing depth s with
  | zero => simp [type?, members?]
  | succ fuel ih =>
    constructor
    · intro a rest h
      rw [type?] at h
      split at h
      · split at h
        · simp at h
        · simp only [Option.bind_eq_bind, Option.bind_eq_some_iff, Prod.exists] at h
          obtain ⟨members, rest', hmembers, h⟩ := h
          have hlists := (ih (by omega) _).2 _ _ hmembers
          rw [lists_of_lengths? h, lists]
          omega
      · simp only [Option.bind_eq_bind, Option.bind_eq_some_iff, Prod.exists] at h
        obtain ⟨b, rest', hb, h⟩ := h
        rw [lists_of_lengths? h, lists_of_named? hb]
        omega
    · intro as rest h
      unfold members? at h
      split at h
      · cases h
        simpa [membersLists] using hdepth
      · simp only [Option.bind_eq_bind, Option.bind_eq_some_iff, Prod.exists] at h
        obtain ⟨a, rest', ha, h⟩ := h
        have hhead := (ih hdepth _).1 _ _ ha
        split at h
        · simp only [Option.bind_eq_some_iff, Prod.exists] at h
          obtain ⟨bs, last, hbs, h⟩ := h
          cases h
          have htail := (ih hdepth _).2 _ _ hbs
          rw [membersLists]
          omega
        · split at h
          · cases h
            simpa [membersLists] using hhead
          · simp at h

/-! ## Signatures -/

/-- The list of the names of types is read as these types exactly if no more lists stand in each
other than are read. -/
theorem parse_signatureOf_iff {abi : List AbiType} (h : ∀ a ∈ abi, a.Nameable) :
    parse (Abi.signatureOf abi) = some (.tuple abi) ↔ (tuple abi).lists < listLimit := by
  have htext : (Abi.signatureOf abi).toList = '(' :: (commaListed (names abi) ++ [')']) := by
    simp [Abi.signatureOf, commaListed]
  unfold parse
  rw [htext]
  constructor
  · intro hparse
    simp only at hparse
    split at hparse
    · rename_i t hread
      cases hparse
      have hlists := (lists_of_type? (by decide) _).1 _ _ hread
      omega
    · simp at hparse
  · intro hdepth
    rw [lists] at hdepth
    have hmembers : ∀ a ∈ abi, a.Nameable ∧ a.Parsed 1 := by
      intro a ha
      have hle := lists_le_membersLists ha
      exact ⟨h a ha, (h a ha).parsed (by omega)⟩
    have hread : type? 0 (2 * ('(' :: (commaListed (names abi) ++ [')'])).length + 2)
        ('(' :: (commaListed (names abi) ++ [')'])) = some (.tuple abi, []) := by
      rw [type?_list hmembers (by decide) _ (.inl rfl), lengths?_done (by simp) (by simp)]
      simp only [List.length_cons, List.length_append]
      omega
    simp only [hread]

end AbiType

end EvmInspect
