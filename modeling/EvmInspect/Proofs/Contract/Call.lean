import EvmInspect.Contract.Call
import EvmInspect.Proofs.Table
import Mathlib.Data.List.Perm.Subperm
/-!
# Which calls have data

Keywords are put into the places of the defaulted arguments they name, and the first places have to
be filled without a gap.  By counting, the keywords are then exactly the arguments of these places,
whatever order they are given in, and the call is the one that gives all its values by position.
-/

namespace EvmInspect.Contract

variable {f : FunctionDecl} {arguments : List Argument} {keyword : String} {value : Value}

/-- The places of arguments, with the values that keywords put into them. -/
def places (arguments : List Argument) (keywords : List (String × Value)) : List (Option Value) :=
  arguments.map fun a => Table.lookup a.name keywords

def inOrder (arguments : List Argument) (keywords : List (String × Value)) : List Value :=
  arguments.filterMap fun a => Table.lookup a.name keywords

/-- The first `count` defaulted arguments behind those that are given by position. -/
def nextArguments (f : FunctionDecl) (args : List Value) (count : Nat) : List Argument :=
  (f.defaulted.drop (args.length - f.required.length)).take count

theorem places_cons (a : Argument) (arguments : List Argument) (keywords : List (String × Value)) :
    places (a :: arguments) keywords =
      Table.lookup a.name keywords :: places arguments keywords := rfl

theorem inOrder_cons (a : Argument) (arguments : List Argument)
    (keywords : List (String × Value)) :
    inOrder (a :: arguments) keywords =
      (Table.lookup a.name keywords).toList ++ inOrder arguments keywords := by
  rw [inOrder, List.filterMap_cons]
  cases Table.lookup a.name keywords <;> rfl

/-! ## Filling places -/

theorem places_eq_of_notMem {keywords : List (String × Value)}
    (h : keyword ∉ arguments.map Argument.name) :
    places arguments (keywords ++ [(keyword, value)]) = places arguments keywords := by
  apply List.map_congr_left
  intro a ha
  have hne : keyword ≠ a.name := by
    rintro rfl
    exact h (List.mem_map_of_mem ha)
  simp [Table.lookup_append, Table.lookup, hne]

theorem fill_places {keywords : List (String × Value)} {index : Nat}
    (hnames : (arguments.map Argument.name).Nodup)
    (hindex : arguments.findIdx? (fun a => a.name == keyword) = some index) :
    fill value index (places arguments keywords) =
      if (Table.lookup keyword keywords).isNone then
        some (places arguments (keywords ++ [(keyword, value)]))
      else none := by
  induction arguments generalizing index with
  | nil => simp at hindex
  | cons a as ih =>
    rw [List.map_cons, List.nodup_cons] at hnames
    rw [List.findIdx?_cons] at hindex
    by_cases ha : a.name = keyword
    · subst ha
      simp only [beq_self_eq_true, if_true, Option.some.injEq] at hindex
      subst hindex
      have hrest : places as (keywords ++ [(a.name, value)]) = places as keywords :=
        places_eq_of_notMem hnames.1
      simp only [places, List.map_cons] at hrest ⊢
      rw [hrest, Table.lookup_append]
      cases Table.lookup a.name keywords <;> simp [fill, Table.lookup]
    · simp only [beq_eq_false_iff_ne.2 ha, Bool.false_eq_true, if_false,
        Option.map_eq_some_iff] at hindex
      obtain ⟨index, hrest, rfl⟩ := hindex
      have hfill := ih hnames.2 hrest
      have hother : Table.lookup a.name (keywords ++ [(keyword, value)]) =
          Table.lookup a.name keywords := by
        simp [Table.lookup_append, Table.lookup, Ne.symm ha]
      simp only [places, List.map_cons, hother] at hfill ⊢
      rw [fill, hfill]
      cases Table.lookup keyword keywords <;> simp

/-! ## One keyword -/

section Keywords

variable {given remaining : List Argument} {keywords done : List (String × Value)}

/-- Arguments that are not given by position are found behind those that are. -/
theorem findIdx?_remaining {index : Nat}
    (hindex : (given ++ remaining).findIdx? (fun a => a.name == keyword) = some index)
    (hle : given.length ≤ index) :
    remaining.findIdx? (fun a => a.name == keyword) = some (index - given.length) := by
  rw [List.findIdx?_append] at hindex
  cases hgiven : given.findIdx? (fun a => a.name == keyword) with
  | some i =>
    have hlt := (List.findIdx?_eq_some_iff_getElem.1 hgiven).1
    rw [hgiven, Option.some_or, Option.some.injEq] at hindex
    omega
  | none =>
    rw [hgiven, Option.none_or, Option.map_eq_some_iff] at hindex
    obtain ⟨i, hi, rfl⟩ := hindex
    rw [hi, Nat.add_sub_cancel]

theorem mem_names_of_findIdx? {index : Nat} (hindex : index < arguments.length)
    (h : arguments.findIdx? (fun a => a.name == keyword) = some index) :
    keyword ∈ arguments.map Argument.name := by
  obtain ⟨_, hname, -⟩ := List.findIdx?_eq_some_iff_getElem.1 h
  rw [beq_iff_eq] at hname
  exact hname ▸ List.mem_map_of_mem (List.getElem_mem hindex)

/-- A keyword of an argument that is still to be given goes to its place. -/
theorem placeKeywords_cons (hsplit : f.defaulted = given ++ remaining)
    (hnames : (f.defaulted.map Argument.name).Nodup)
    (hmem : keyword ∈ remaining.map Argument.name) (hdone : Table.lookup keyword done = none) :
    placeKeywords f given.length ((keyword, value) :: keywords) (places remaining done) =
      placeKeywords f given.length keywords (places remaining (done ++ [(keyword, value)])) := by
  rw [hsplit, List.map_append, List.nodup_append] at hnames
  obtain ⟨-, hremaining, hdisjoint⟩ := hnames
  rw [placeKeywords, hsplit]
  cases hindex : (given ++ remaining).findIdx? (fun a => a.name == keyword) with
  | none =>
    obtain ⟨a, ha, rfl⟩ := List.mem_map.1 hmem
    rw [List.findIdx?_eq_none_iff] at hindex
    simpa using hindex a (List.mem_append_right _ ha)
  | some index =>
    have hle : given.length ≤ index := by
      by_contra hlt
      rw [Nat.not_le] at hlt
      obtain ⟨_, hname, -⟩ := List.findIdx?_eq_some_iff_getElem.1 hindex
      rw [List.getElem_append_left hlt, beq_iff_eq] at hname
      exact hdisjoint _ (List.mem_map_of_mem (List.getElem_mem hlt)) _ hmem hname
    have hfill : fill value (index - given.length) (places remaining done) =
        some (places remaining (done ++ [(keyword, value)])) := by
      rw [fill_places hremaining (findIdx?_remaining hindex hle), hdone, Option.isNone_none,
        if_pos rfl]
    simp only [if_neg (Nat.not_lt.2 hle), hfill]

/-- Every other keyword is refused: it names no defaulted argument, one that is given by position,
or one that was named before. -/
theorem placeKeywords_cons_error (hsplit : f.defaulted = given ++ remaining)
    (hnames : (f.defaulted.map Argument.name).Nodup)
    (h : ¬(keyword ∈ remaining.map Argument.name ∧ Table.lookup keyword done = none)) :
    ∃ e, placeKeywords f given.length ((keyword, value) :: keywords) (places remaining done) =
      .error e := by
  rw [hsplit, List.map_append, List.nodup_append] at hnames
  rw [placeKeywords, hsplit]
  cases hindex : (given ++ remaining).findIdx? (fun a => a.name == keyword) with
  | none => exact ⟨_, rfl⟩
  | some index =>
    simp only
    by_cases hlt : index < given.length
    · rw [if_pos hlt]
      exact ⟨_, rfl⟩
    · have hplace := findIdx?_remaining hindex (Nat.le_of_not_lt hlt)
      have hbound := (List.findIdx?_eq_some_iff_getElem.1 hplace).1
      have hmem := mem_names_of_findIdx? hbound hplace
      have htaken : (Table.lookup keyword done).isNone = false := by
        cases hdone : Table.lookup keyword done with
        | none => exact absurd ⟨hmem, hdone⟩ h
        | some w => rfl
      rw [if_neg hlt, fill_places hnames.2.1 hplace, htaken]
      exact ⟨_, rfl⟩

/-! ## All keywords -/

/-- Keywords find their places exactly if each of them names another one of the arguments that are
still to be given. -/
theorem placeKeywords_eq_ok (hsplit : f.defaulted = given ++ remaining)
    (hnames : (f.defaulted.map Argument.name).Nodup) {result : List (Option Value)} :
    placeKeywords f given.length keywords (places remaining done) = .ok result ↔
      (keywords.map Prod.fst).Nodup ∧
      (∀ k ∈ keywords.map Prod.fst,
        k ∈ remaining.map Argument.name ∧ Table.lookup k done = none) ∧
      result = places remaining (done ++ keywords) := by
  induction keywords generalizing done with
  | nil => simp [placeKeywords, eq_comm]
  | cons e rest ih =>
    obtain ⟨keyword, value⟩ := e
    rw [List.map_cons, List.nodup_cons, List.forall_mem_cons]
    by_cases h : keyword ∈ remaining.map Argument.name ∧ Table.lookup keyword done = none
    · rw [placeKeywords_cons hsplit hnames h.1 h.2, ih, List.append_assoc, List.singleton_append]
      -- the place of this keyword is taken for the rest
      have htaken (k : String) : Table.lookup k (done ++ [(keyword, value)]) = none ↔
          Table.lookup k done = none ∧ k ≠ keyword := by
        by_cases hk : keyword = k
        · simp [Table.lookup_append, Table.lookup, hk]
        · simp [Table.lookup_append, Table.lookup, hk, Ne.symm hk]
      simp only [htaken]
      constructor
      · rintro ⟨hnodup, hrest, rfl⟩
        refine ⟨⟨fun hmem => (hrest _ hmem).2.2 rfl, hnodup⟩, ⟨h, fun k hk => ?_⟩, rfl⟩
        exact ⟨(hrest k hk).1, (hrest k hk).2.1⟩
      · rintro ⟨⟨hfresh, hnodup⟩, ⟨-, hrest⟩, rfl⟩
        refine ⟨hnodup, fun k hk => ⟨(hrest k hk).1, (hrest k hk).2, ?_⟩, rfl⟩
        rintro rfl
        exact hfresh hk
    · obtain ⟨e, herror⟩ : ∃ e, placeKeywords f given.length ((keyword, value) :: rest)
          (places remaining done) = .error e := placeKeywords_cons_error hsplit hnames h
      simp only [herror, reduceCtorEq, false_iff]
      rintro ⟨-, ⟨hkeyword, -⟩, -⟩
      exact h hkeyword

/-- The first places are taken without a gap exactly if all their arguments are named. -/
theorem takePlaces_eq_ok {n : Nat} {values : List Value} :
    takePlaces f arguments ((places arguments keywords).take n) = .ok values ↔
      (∀ a ∈ arguments.take n, a.name ∈ keywords.map Prod.fst) ∧
        values = inOrder (arguments.take n) keywords := by
  induction arguments generalizing n values with
  | nil => simp [takePlaces, inOrder, eq_comm]
  | cons a as ih =>
    cases n with
    | zero => simp [takePlaces, inOrder, eq_comm]
    | succ n =>
      rw [places_cons]
      simp only [List.take_succ_cons, takePlaces, List.forall_mem_cons, inOrder_cons]
      cases hlookup : Table.lookup a.name keywords with
      | none => simp [Table.lookup_eq_none.1 hlookup]
      | some v =>
        have hnamed : a.name ∈ keywords.map Prod.fst := by
          by_contra habsent
          rw [Table.lookup_eq_none.2 habsent] at hlookup
          simp at hlookup
        simp only [hnamed, true_and, Option.toList_some, List.singleton_append]
        constructor
        · intro h
          split at h
          · rename_i vs hrest
            obtain ⟨hall, rfl⟩ := ih.1 hrest
            rw [Except.ok.injEq] at h
            exact ⟨hall, h.symm⟩
          · simp at h
        · rintro ⟨hall, rfl⟩
          rw [ih.2 ⟨hall, rfl⟩]

/-- Different keywords that all name arguments, and of which there is one for each of the first
arguments, are those of the first arguments. -/
theorem perm_names_take (hnames : (arguments.map Argument.name).Nodup) :
    ((keywords.map Prod.fst).Nodup ∧
        (∀ k ∈ keywords.map Prod.fst, k ∈ arguments.map Argument.name) ∧
        ∀ a ∈ arguments.take keywords.length, a.name ∈ keywords.map Prod.fst) ↔
      (keywords.map Prod.fst).Perm ((arguments.take keywords.length).map Argument.name) := by
  have htake : ((arguments.take keywords.length).map Argument.name).Nodup :=
    hnames.sublist ((List.take_sublist _ _).map _)
  constructor
  · rintro ⟨hnodup, hsubset, hfirst⟩
    -- no two keywords name one argument, so that there are no more of them than arguments
    have hcount : keywords.length ≤ arguments.length := by
      have hle := (List.subperm_of_subset hnodup hsubset).length_le
      rwa [List.length_map, List.length_map] at hle
    have hfirst' : (arguments.take keywords.length).map Argument.name ⊆
        keywords.map Prod.fst := by
      intro k hk
      obtain ⟨a, ha, rfl⟩ := List.mem_map.1 hk
      exact hfirst a ha
    have hsub := List.subperm_of_subset htake hfirst'
    refine (hsub.perm_of_length_le ?_).symm
    rw [List.length_map, List.length_map, List.length_take]
    omega
  · intro hperm
    refine ⟨hperm.nodup_iff.2 htake, fun k hk => ?_, fun a ha => ?_⟩
    · obtain ⟨a, ha, rfl⟩ := List.mem_map.1 (hperm.mem_iff.1 hk)
      exact List.mem_map_of_mem (List.mem_of_mem_take ha)
    · exact hperm.mem_iff.2 (List.mem_map_of_mem ha)

end Keywords

/-! ## All arguments -/

variable {args : List Value} {keywords : List (String × Value)}

theorem replicate_none (arguments : List Argument) :
    List.replicate arguments.length none = places arguments [] := by
  rw [places, ← List.map_const]
  rfl

/-- The arguments of a call can be put in order exactly if the keywords are those of the next
defaulted arguments, each of them once. -/
theorem arrange_eq_ok (hnames : (f.defaulted.map Argument.name).Nodup) {values : List Value} :
    arrange f args keywords = .ok values ↔
      f.required.length ≤ args.length ∧ args.length ≤ f.argumentCount ∧
      (keywords.map Prod.fst).Perm
        ((nextArguments f args keywords.length).map Argument.name) ∧
      values = args ++ inOrder (nextArguments f args keywords.length) keywords := by
  unfold arrange nextArguments
  simp only
  by_cases hcount : f.required.length ≤ args.length ∧ args.length ≤ f.argumentCount
  · obtain ⟨given, hgiven⟩ : ∃ given, given = args.length - f.required.length := ⟨_, rfl⟩
    have hsplit : f.defaulted = f.defaulted.take given ++ f.defaulted.drop given :=
      (List.take_append_drop _ _).symm
    have hlen : (f.defaulted.take given).length = given := by
      rw [FunctionDecl.argumentCount] at hcount
      rw [List.length_take]
      omega
    have hremaining : ((f.defaulted.drop given).map Argument.name).Nodup :=
      hnames.sublist ((List.drop_sublist _ _).map _)
    have hplace (result : List (Option Value)) :
        placeKeywords f given keywords (places (f.defaulted.drop given) []) = .ok result ↔
          (keywords.map Prod.fst).Nodup ∧
          (∀ k ∈ keywords.map Prod.fst, k ∈ (f.defaulted.drop given).map Argument.name) ∧
          result = places (f.defaulted.drop given) keywords := by
      have h := @placeKeywords_eq_ok f _ _ keywords [] hsplit hnames result
      rw [hlen, List.nil_append] at h
      simpa only [Table.lookup, and_true] using h
    rw [if_pos hcount, ← hgiven, replicate_none]
    rw [← perm_names_take hremaining]
    simp only [hcount.1, hcount.2, true_and]
    constructor
    · intro h
      split at h
      · simp at h
      · rename_i result hresult
        obtain ⟨hnodup, hsubset, rfl⟩ := (hplace result).1 hresult
        split at h
        · simp at h
        · rename_i vs htake
          obtain ⟨hfirst, rfl⟩ := takePlaces_eq_ok.1 htake
          rw [Except.ok.injEq] at h
          exact ⟨⟨hnodup, hsubset, hfirst⟩, h.symm⟩
    · rintro ⟨⟨hnodup, hsubset, hfirst⟩, rfl⟩
      rw [(hplace _).2 ⟨hnodup, hsubset, rfl⟩]
      simp only
      rw [takePlaces_eq_ok.2 ⟨hfirst, rfl⟩]
  · rw [if_neg hcount]
    simp only [reduceCtorEq, false_iff]
    rintro ⟨hleast, hmost, -⟩
    exact hcount ⟨hleast, hmost⟩

theorem exists_prepare_iff :
    (∃ data, prepare f args keywords = .ok data) ↔
      ∃ values, arrange f args keywords = .ok values ∧
        (∃ signature, f.argumentSignature (values.length - f.required.length) = .ok signature) ∧
        ∃ data, Abi.encode (f.argumentTypes (values.length - f.required.length)) values =
          .ok data := by
  unfold prepare FunctionDecl.selector
  cases harrange : arrange f args keywords with
  | error e => simp [bind, Except.bind]
  | ok values =>
    simp only [bind, Except.bind, Except.ok.injEq, exists_eq_left']
    cases hsig : f.argumentSignature (values.length - f.required.length) with
    | error e => simp [Except.map, Except.mapError]
    | ok signature =>
      cases hencode : Abi.encode (f.argumentTypes (values.length - f.required.length)) values with
      | error e => simp [Except.map, Except.mapError]
      | ok data => cases f.role <;> simp [Except.map, Except.mapError, pure, Except.pure]

theorem inOrder_perm {keywords' : List (String × Value)} (hperm : keywords.Perm keywords')
    (hnodup : (keywords.map Prod.fst).Nodup) (arguments : List Argument) :
    inOrder arguments keywords = inOrder arguments keywords' := by
  apply List.filterMap_congr
  intro a _
  have hnodup' : (keywords'.map Prod.fst).Nodup := (hperm.map Prod.fst).nodup_iff.1 hnodup
  apply Option.ext
  intro v
  rw [Table.lookup_eq_some hnodup, Table.lookup_eq_some hnodup', hperm.mem_iff]

theorem length_inOrder (h : ∀ a ∈ arguments, a.name ∈ keywords.map Prod.fst) :
    (inOrder arguments keywords).length = arguments.length := by
  induction arguments with
  | nil => rfl
  | cons a as ih =>
    rw [List.forall_mem_cons] at h
    rw [inOrder_cons, List.length_append, ih h.2, List.length_cons]
    cases hlookup : Table.lookup a.name keywords with
    | none => exact absurd h.1 (Table.lookup_eq_none.1 hlookup)
    | some v => simp [Nat.add_comm]

theorem length_inOrder_of_perm
    (hperm : (keywords.map Prod.fst).Perm (arguments.map Argument.name)) :
    (inOrder arguments keywords).length = keywords.length := by
  have hlen := hperm.length_eq
  rw [List.length_map, List.length_map] at hlen
  rw [hlen, length_inOrder]
  intro a ha
  exact hperm.mem_iff.2 (List.mem_map_of_mem ha)

theorem length_keywords_le
    (hperm : (keywords.map Prod.fst).Perm
      ((nextArguments f args keywords.length).map Argument.name)) :
    keywords.length ≤ f.defaulted.length - (args.length - f.required.length) := by
  have hlen := hperm.length_eq
  rw [List.length_map, List.length_map, nextArguments, List.length_take, List.length_drop] at hlen
  omega

theorem prepare_eq_of_arrange {args' : List Value} {keywords' : List (String × Value)}
    (h : arrange f args' keywords' = arrange f args keywords) :
    prepare f args' keywords' = prepare f args keywords := by
  rw [prepare, prepare, h]

/-- A call has data exactly if it gives enough and not too many arguments by position, its keywords
are those of the next defaulted arguments, each of them once, and signature and encoding exist.  The
data is that of the call that gives all the values by position, for every order of the keywords. -/
theorem prepare_eq_ok_iff (f : FunctionDecl) (args : List Value)
    (keywords : List (String × Value)) (hnames : (f.defaulted.map Argument.name).Nodup) :
    ((∃ data, prepare f args keywords = .ok data) ↔
      f.required.length ≤ args.length ∧ args.length ≤ f.argumentCount ∧
      (keywords.map Prod.fst).Perm
        ((nextArguments f args keywords.length).map Argument.name) ∧
      (∃ signature, f.argumentSignature (args.length - f.required.length + keywords.length) =
        .ok signature) ∧
      ∃ data, Abi.encode (f.argumentTypes (args.length - f.required.length + keywords.length))
        (args ++ inOrder (nextArguments f args keywords.length) keywords) = .ok data) ∧
    ∀ data, prepare f args keywords = .ok data →
      prepare f (args ++ inOrder (nextArguments f args keywords.length) keywords) [] = .ok data ∧
      ∀ keywords', keywords.Perm keywords' → prepare f args keywords' = .ok data := by
  have hgiven (hleast : f.required.length ≤ args.length)
      (hperm : (keywords.map Prod.fst).Perm
        ((nextArguments f args keywords.length).map Argument.name)) :
      (args ++ inOrder (nextArguments f args keywords.length) keywords).length -
        f.required.length = args.length - f.required.length + keywords.length := by
    rw [List.length_append, length_inOrder_of_perm hperm]
    omega
  constructor
  · rw [exists_prepare_iff]
    constructor
    · rintro ⟨values, harrange, hsig, hencode⟩
      obtain ⟨hleast, hmost, hperm, rfl⟩ := (arrange_eq_ok hnames).1 harrange
      rw [hgiven hleast hperm] at hsig hencode
      exact ⟨hleast, hmost, hperm, hsig, hencode⟩
    · rintro ⟨hleast, hmost, hperm, hsig, hencode⟩
      refine ⟨_, (arrange_eq_ok hnames).2 ⟨hleast, hmost, hperm, rfl⟩, ?_⟩
      rw [hgiven hleast hperm]
      exact ⟨hsig, hencode⟩
  · intro data hdata
    obtain ⟨values, harrange, -⟩ := exists_prepare_iff.1 ⟨data, hdata⟩
    obtain ⟨hleast, hmost, hperm, rfl⟩ := (arrange_eq_ok hnames).1 harrange
    rw [← hdata]
    constructor
    · apply prepare_eq_of_arrange
      have hcount := length_keywords_le hperm
      have hlen := length_inOrder_of_perm hperm
      rw [FunctionDecl.argumentCount] at hmost
      rw [harrange, arrange_eq_ok hnames, List.length_append, hlen, FunctionDecl.argumentCount]
      exact ⟨by omega, by omega, by simp [nextArguments], by simp [nextArguments, inOrder]⟩
    · intro keywords' hsame
      apply prepare_eq_of_arrange
      have hnodup : (keywords.map Prod.fst).Nodup := by
        rw [hperm.nodup_iff]
        exact hnames.sublist
          (((List.take_sublist _ _).trans (List.drop_sublist _ _)).map Argument.name)
      rw [harrange, arrange_eq_ok hnames, ← hsame.length_eq, ← inOrder_perm hsame hnodup]
      exact ⟨hleast, hmost, (hsame.map Prod.fst).symm.trans hperm, rfl⟩

def pay : FunctionDecl where
  name := "pay"
  required := [⟨"to", .address⟩]
  defaulted := [⟨"amount", .uint 256⟩, ⟨"memo", .string 8⟩, ⟨"tip", .uint 8⟩]

/-- Two keywords the wrong way round make the same call as their values by position. -/
theorem prepare_pay :
    (pay.defaulted.map Argument.name).Nodup ∧
      ∃ data, prepare pay [.address 1] [("memo", .string "hi"), ("amount", .uint 5 256)] =
          .ok data ∧
        prepare pay [.address 1, .uint 5 256, .string "hi"] [] = .ok data := by
  have hnames : (pay.defaulted.map Argument.name).Nodup := by decide
  obtain ⟨hiff, hsame⟩ := prepare_eq_ok_iff pay [.address 1]
    [("memo", .string "hi"), ("amount", .uint 5 256)] hnames
  obtain ⟨data, hdata⟩ := hiff.2 ⟨by decide, by decide, by decide, ⟨_, rfl⟩, ⟨_, rfl⟩⟩
  exact ⟨hnames, data, hdata, (hsame data hdata).1⟩

end EvmInspect.Contract
