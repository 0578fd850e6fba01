import EvmInspect.Artifact.Interface
import EvmInspect.Proofs.Abi.Name
import EvmInspect.Proofs.Abi.RoundTrip
/-!
# Signatures of interfaces

The interface of a function takes array lengths off a type and writes its members apart, and the
signature of the interface puts the pieces together again.  The result is the name of the type,
except in two places: a list of one is written with a comma behind its member in the name only, and
a list of nothing has no members to write apart.  So the signature of the interface is the one that
selectors are made from exactly if every list has two members or more.
-/

namespace EvmInspect

namespace AbiType

mutual

def exported : AbiType → String
  | .array elem => elem.exported ++ "[]"
  | .fixedArray elem n => s!"{elem.exported}[{n}]"
  | .tuple members | .struct _ _ members =>
    if members.isEmpty then "tuple" else "(" ++ ",".intercalate (exportedAll members) ++ ")"
  | a => a.name

def exportedAll : List AbiType → List String
  | [] => []
  | a :: as => a.exported :: exportedAll as

end

mutual

def shortLists : AbiType → Nat
  | .array elem | .fixedArray elem _ => elem.shortLists
  | .tuple members | .struct _ _ members =>
    (if members.length < 2 then 1 else 0) + membersShortLists members
  | _ => 0

def membersShortLists : List AbiType → Nat
  | [] => 0
  | a :: as => a.shortLists + membersShortLists as

end

variable {a : AbiType} {members : List AbiType}

theorem membersShortLists_eq_zero :
    membersShortLists members = 0 ↔ ∀ a ∈ members, a.shortLists = 0 := by
  induction members with
  | nil => simp [membersShortLists]
  | cons a as ih => simp [membersShortLists, ih]

/-! ## Where the two names differ -/

def marks (s : String) : Nat := s.toList.countP fun c => c == ',' || c == '('

theorem marks_append (s t : String) : marks (s ++ t) = marks s + marks t := by
  simp [marks]

theorem marks_intercalate_cons_cons (s t : String) (names : List String) :
    marks (",".intercalate (s :: t :: names)) =
      marks s + 1 + marks (",".intercalate (t :: names)) := by
  have h := commaListed_cons_cons s t names
  simp only [commaListed] at h
  simp only [marks, h, List.countP_append, List.countP_cons]
  simp
  omega

theorem marks_intercalate_names
    (h : ∀ a ∈ members, marks a.name = marks a.exported + a.shortLists) :
    marks (",".intercalate (names members)) =
      marks (",".intercalate (exportedAll members)) + membersShortLists members := by
  induction members with
  | nil => simp [names, exportedAll, membersShortLists]
  | cons a as ih =>
    rw [List.forall_mem_cons] at h
    have hrest := ih h.2
    cases as with
    | nil => simpa [names, exportedAll, membersShortLists] using h.1
    | cons b bs =>
      simp only [names, exportedAll, marks_intercalate_cons_cons, membersShortLists] at hrest ⊢
      omega

theorem marks_tuple (h : ∀ a ∈ members, marks a.name = marks a.exported + a.shortLists) :
    marks (tuple members).name = marks (tuple members).exported + (tuple members).shortLists := by
  have hmembers := marks_intercalate_names h
  have hopen : marks "(" = 1 := by decide
  have hclose : marks ")" = 0 := by decide
  have hcomma : marks ",)" = 1 := by decide
  have htuple : marks "tuple" = 0 := by decide
  rw [name, exported, shortLists, tupleName, length_names]
  simp only [marks_append, hmembers, hopen]
  rcases members with _ | ⟨a, _ | ⟨b, bs⟩⟩
  case nil =>
    have hnone : marks (",".intercalate (exportedAll [])) = 0 := by decide
    simp [hnone, hclose, htuple]
  case cons.nil =>
    simp [marks_append, hopen, hclose, hcomma]
    omega
  case cons.cons =>
    have hone : (a :: b :: bs).length ≠ 1 := by simp
    have hlong : ¬(a :: b :: bs).length < 2 := by simp
    rw [if_neg hone, if_neg hlong, hclose]
    simp [marks_append, hopen, hclose]
    omega

/-- For each list with fewer than two members, the name has one comma or parenthesis more. -/
theorem marks_name (a : AbiType) : marks a.name = marks a.exported + a.shortLists := by
  induction a using memberInduction with
  | bool | int | uint | fixedBytes | address | function | bytes | string => rfl
  | array elem ih =>
    rw [name, exported, shortLists, marks_append, marks_append, ih]
    omega
  | fixedArray elem n ih =>
    rw [name, exported, shortLists]
    simp only [toString, marks_append, ih]
    omega
  | tuple members ih => exact marks_tuple ih
  | struct _ _ members ih => exact marks_tuple ih

theorem exportedAll_eq (h : ∀ a ∈ members, a.exported = a.name) :
    exportedAll members = names members := by
  induction members with
  | nil => rfl
  | cons a as ih =>
    rw [List.forall_mem_cons] at h
    rw [exportedAll, names, h.1, ih h.2]

theorem exported_tuple (ih : ∀ a ∈ members, a.shortLists = 0 → a.exported = a.name)
    (h : (tuple members).shortLists = 0) : (tuple members).exported = (tuple members).name := by
  rw [shortLists, Nat.add_eq_zero_iff, membersShortLists_eq_zero] at h
  obtain ⟨hlen, hmembers⟩ := h
  have hlen : 2 ≤ members.length := by
    by_contra hshort
    rw [if_pos (by omega)] at hlen
    simp at hlen
  have hempty : members.isEmpty = false := by
    cases members with
    | nil => simp at hlen
    | cons => rfl
  rw [exported, name, tupleName, length_names, exportedAll_eq fun a ha => ih a ha (hmembers a ha),
    hempty, if_neg (by simp), if_neg (by omega)]

theorem exported_eq_name (h : a.shortLists = 0) : a.exported = a.name := by
  induction a using memberInduction with
  | bool | int | uint | fixedBytes | address | function | bytes | string => rfl
  | array elem ih =>
    rw [shortLists] at h
    rw [exported, name, ih h]
  | fixedArray elem n ih =>
    rw [shortLists] at h
    rw [exported, name, ih h]
  | tuple members ih => exact exported_tuple ih h
  | struct _ _ members ih => exact exported_tuple ih h

theorem intercalate_exportedAll_iff :
    ",".intercalate (exportedAll members) = ",".intercalate (names members) ↔
      ∀ a ∈ members, a.shortLists = 0 := by
  rw [← membersShortLists_eq_zero]
  constructor
  · intro heq
    have hmarks := marks_intercalate_names fun a (_ : a ∈ members) => marks_name a
    rw [heq] at hmarks
    omega
  · intro h
    rw [exportedAll_eq fun a ha => exported_eq_name (membersShortLists_eq_zero.1 h a ha)]

end AbiType

namespace Parameter

variable {whole t : Ty} {members : List Ty} {name type lengths : String} {internal : Option String}
  {fields : List (String × Ty)} {components ps : List Parameter} {p : Parameter}

/-! ## The type of a parameter -/

theorem checked_eq_ok (h : checked whole name type internal components = .ok p) :
    p = .mk name type internal components := by
  unfold checked at h
  split at h
  · cases h
    rfl
  · simp at h

/-- The parameter of a type has the name of its call type as interfaces have it. -/
def Exports (t : Ty) : Prop :=
  ∀ {whole : Ty} {name lengths : String} {p : Parameter},
    ofBase whole (t.selectorName?.map (· ++ lengths)) name lengths t = .ok p →
      ∃ a, t.abiType? = some a ∧ p.signatureType = a.exported ++ lengths

theorem ofMembers_eq (members : List Ty) :
    ofMembers members = ofFields (members.map fun t => ("", t)) := by
  induction members with
  | nil => rfl
  | cons t ts ih =>
    rw [ofMembers, List.map_cons, ofFields, ih]

theorem signatureTypes_ofFields (h : ∀ t ∈ fields.map Prod.snd, Exports t)
    (hps : ofFields fields = .ok ps) :
    ∃ types, List.Forall₂ (fun t a => t.abiType? = some a) (fields.map Prod.snd) types ∧
      signatureTypes ps = AbiType.exportedAll types := by
  induction fields generalizing ps with
  | nil =>
    cases hps
    exact ⟨[], .nil, rfl⟩
  | cons f fs ih =>
    rw [List.map_cons, List.forall_mem_cons] at h
    simp only [ofFields, bind_eq_ok, pure_eq_ok] at hps
    obtain ⟨p, hp, qs, hqs, rfl⟩ := hps
    obtain ⟨types, htypes, hsignatures⟩ := ih h.2 hqs
    have hname : f.2.selectorName? = f.2.selectorName?.map (· ++ "") := by simp
    rw [hname] at hp
    obtain ⟨a, ha, hsignature⟩ := h.1 hp
    rw [String.append_empty] at hsignature
    exact ⟨a :: types, .cons ha htypes, by rw [signatureTypes, hsignature, hsignatures]; rfl⟩

theorem signatureType_of_components (h : ∀ t ∈ fields.map Prod.snd, Exports t)
    (hps : ofFields fields = .ok ps)
    (hp : checked whole name ("tuple" ++ lengths) internal ps = .ok p) :
    ∃ types, Ty.abiTypes? (fields.map Prod.snd) = some types ∧
      p.signatureType = (AbiType.tuple types).exported ++ lengths := by
  obtain ⟨types, htypes, hsignatures⟩ := signatureTypes_ofFields h hps
  refine ⟨types, Ty.abiTypes?_of_forall₂ htypes, ?_⟩
  have hempty : ps.isEmpty = types.isEmpty := by
    cases ps <;> cases types <;> simp_all [signatureTypes, AbiType.exportedAll]
  have hdrop : ("tuple" ++ lengths).toList.drop "tuple".length = lengths.toList := by
    rw [String.toList_append, List.drop_left' (by decide)]
  rw [checked_eq_ok hp, signatureType, AbiType.exported, hempty, hsignatures, hdrop,
    String.ofList_toList]
  split <;> rfl

theorem selectorName?_array (elem : Ty) (n : Nat) (lengths : String) :
    (Ty.array elem n).selectorName?.map (· ++ lengths) =
      elem.selectorName?.map (· ++ (s!"[{n}]" ++ lengths)) := by
  cases h : elem.abiType? <;>
    simp [Ty.selectorName?, Ty.abiType?, h, AbiType.name, String.append_assoc, toString]

theorem selectorName?_dynArray (elem : Ty) (bound : Nat) (lengths : String) :
    (Ty.dynArray elem bound).selectorName?.map (· ++ lengths) =
      elem.selectorName?.map (· ++ ("[]" ++ lengths)) := by
  cases h : elem.abiType? <;>
    simp [Ty.selectorName?, Ty.abiType?, h, AbiType.name, String.append_assoc]

theorem signatureType_of_checked (h : checked whole name type none [] = .ok p) :
    p.signatureType = type := by
  rw [checked_eq_ok h]
  rfl

theorem exports (t : Ty) : Exports t := by
  induction t using Ty.memberInduction with
  | uint bits | int bits | bool | address | fixedBytes size | bytes bound | string bound =>
    intro whole name lengths p h
    refine ⟨_, rfl, ?_⟩
    unfold ofBase at h
    exact signatureType_of_checked h
  | array elem n ih =>
    intro whole name lengths p h
    rw [ofBase, selectorName?_array] at h
    obtain ⟨e, he, hp⟩ := ih h
    refine ⟨.fixedArray e n, by rw [Ty.abiType?, he]; rfl, ?_⟩
    rw [hp, AbiType.exported]
    simp [String.append_assoc, toString]
  | dynArray elem bound ih =>
    intro whole name lengths p h
    rw [ofBase, selectorName?_dynArray] at h
    obtain ⟨e, he, hp⟩ := ih h
    refine ⟨.array e, by rw [Ty.abiType?, he]; rfl, ?_⟩
    rw [hp, AbiType.exported, String.append_assoc]
  | tuple members ih =>
    intro whole name lengths p h
    rw [ofBase, ofMembers_eq] at h
    obtain ⟨ps, hps, h⟩ := ok_of_bind h
    have hmembers : (members.map fun t => ("", t)).map Prod.snd = members := by
      simp [Function.comp_def]
    obtain ⟨types, htypes, hp⟩ :=
      signatureType_of_components (by rw [hmembers]; exact fun t ht => ih t ht) hps h
    rw [hmembers] at htypes
    exact ⟨.tuple types, by rw [Ty.abiType?, htypes]; rfl, hp⟩
  | struct structName fields ih =>
    intro whole name lengths p h
    rw [ofBase] at h
    obtain ⟨ps, hps, h⟩ := ok_of_bind h
    obtain ⟨types, htypes, hp⟩ := signatureType_of_components (fun t ht => ih t ht) hps h
    rw [← Ty.fieldAbiTypes?_eq] at htypes
    exact ⟨.tuple types, by rw [Ty.abiType?, htypes]; rfl, hp⟩
  | mapping =>
    intro whole name lengths p h
    simp [ofBase, Ty.selectorName?, Ty.abiType?] at h

end Parameter

namespace FunctionDecl

variable {f : FunctionDecl} {i : InterfaceFunction}

/-! ## The signature of a function -/

theorem argumentTypes_all (f : FunctionDecl) :
    f.argumentTypes f.defaulted.length = (f.required ++ f.defaulted).map Argument.ty := by
  rw [argumentTypes, List.take_length]

theorem signature_of_interface (h : f.interface = .ok i) :
    ∃ abi, Abi.abiTypes (f.argumentTypes f.defaulted.length) = .ok abi ∧
      i.signature = f.name ++ ("(" ++ ",".intercalate (AbiType.exportedAll abi) ++ ")") := by
  obtain ⟨inputs, hinputs, h⟩ := ok_of_bind h
  obtain ⟨outputs, -, h⟩ := ok_of_bind h
  cases h
  obtain ⟨abi, habi, hsignatures⟩ :=
    Parameter.signatureTypes_ofFields (fun t _ => Parameter.exports t) hinputs
  have htypes : ((f.required ++ f.defaulted).map fun a => (a.name, a.ty)).map Prod.snd =
      f.argumentTypes f.defaulted.length := by
    rw [argumentTypes_all, List.map_map]
    rfl
  rw [htypes] at habi
  refine ⟨abi, Abi.abiTypes_of_forall₂ habi, ?_⟩
  rw [InterfaceFunction.signature, hsignatures]
  simp [String.append_assoc]

/-- A function's interface and its calls have the same signature, and with it the same selector,
exactly if no list in the argument types has fewer than two members. -/
theorem interface_signature_iff (h : f.interface = .ok i) :
    ∃ abi arguments, Abi.abiTypes (f.argumentTypes f.defaulted.length) = .ok abi ∧
      f.argumentSignature f.defaulted.length = .ok arguments ∧
      (i.signature = f.name ++ arguments ↔ ∀ a ∈ abi, a.shortLists = 0) ∧
      ((∀ a ∈ abi, a.shortLists = 0) →
        f.selector f.defaulted.length = .ok (Abi.selector i.signature)) := by
  obtain ⟨abi, habi, hsignature⟩ := signature_of_interface h
  have harguments : f.argumentSignature f.defaulted.length = .ok (Abi.signatureOf abi) := by
    rw [argumentSignature, Abi.tupleSignature, habi]
    rfl
  have hiff : i.signature = f.name ++ Abi.signatureOf abi ↔ ∀ a ∈ abi, a.shortLists = 0 := by
    rw [hsignature, Abi.signatureOf, ← AbiType.intercalate_exportedAll_iff]
    simp [← String.toList_inj]
  refine ⟨abi, Abi.signatureOf abi, habi, harguments, hiff, fun hlists => ?_⟩
  rw [selector, harguments, hiff.2 hlists]
  rfl

/-- A function of an array of points and a number with a default. -/
def movePoints : FunctionDecl where
  name := "move_points"
  required := [⟨"points", .dynArray (.struct "Point" [("x", .int 128), ("y", .int 128)]) 4⟩]
  defaulted := [⟨"steps", .uint 256⟩]

/-- A point has two members, so that one selector calls the function either way. -/
theorem interface_signature_movePoints :
    ∃ i, movePoints.interface = .ok i ∧ movePoints.selector 1 = .ok (Abi.selector i.signature) := by
  refine ⟨_, rfl, ?_⟩
  obtain ⟨abi, arguments, habi, -, -, hselector⟩ :=
    interface_signature_iff (f := movePoints) (i := _) rfl
  cases habi
  exact hselector (by decide)

/-- A function of a tuple of one. -/
def wrapped : FunctionDecl where
  name := "f"
  required := [⟨"x", .tuple [.uint 256]⟩]

/-- The comma behind the only member is in the signature of calls only. -/
theorem interface_signature_wrapped :
    ∃ i arguments, wrapped.interface = .ok i ∧
      wrapped.argumentSignature wrapped.defaulted.length = .ok arguments ∧
      i.signature = "f((uint256))" ∧ wrapped.name ++ arguments = "f((uint256,))" ∧
      i.signature ≠ wrapped.name ++ arguments :=
  ⟨_, "((uint256,))", rfl, by decide +kernel, by decide +kernel, by decide +kernel,
    by decide +kernel⟩

end FunctionDecl

end EvmInspect
