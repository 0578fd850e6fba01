import EvmInspect.Event
import EvmInspect.Proofs.Abi.Decoded
import EvmInspect.Proofs.Abi.RoundTrip
/-!
# Decoding emitted events

What a contract writes when it emits an event, and that decoding the log gives every argument back
in its place: topics and data come from two separate sequences, and the order of the declaration
tells which of them an argument is taken from.
-/

namespace EvmInspect

/-- An argument of an event with the value that is emitted, and the digest that stands for the value
in a topic that cannot hold it. -/
structure Emitted where
  argument : EventArgument
  value : Value
  digest : Word := 0

namespace Emitted

def topic (e : Emitted) : Word :=
  if e.argument.ty.isWord then Word.ofBytes e.value.encode else e.digest

/-- What a reader of the log can know of the argument. -/
def shown (e : Emitted) : Declared :=
  if e.argument.indexed && !e.argument.ty.isWord then ⟨.fixedBytes e.digest 32, .fixedBytes 32⟩
  else ⟨e.value, e.argument.ty⟩

def topics (emitted : List Emitted) : List Word :=
  (emitted.filter fun e => e.argument.indexed).map topic

def plain (emitted : List Emitted) : List Emitted :=
  emitted.filter fun e => !e.argument.indexed

end Emitted

namespace Ty

theorem abiType?_of_isWord {t : Ty} (h : t.isWord = true) : ∃ a, t.abiType? = some a := by
  cases t <;> simp [isWord, abiType?] at h ⊢

theorem Legal.word {t : Ty} {v : Value} (h : t.Legal v) (hword : t.isWord = true) :
    v.isDynamic = false ∧ v.encode.length = 32 ∧ v.nesting = 0 := by
  cases h <;> simp_all [isWord, Value.isDynamic, Value.encode, Value.nesting]

theorem measures_of_isWord {t : Ty} {a : AbiType} (hword : t.isWord = true)
    (habi : t.abiType? = some a) (v : Value) : a.measures v = true := by
  cases t <;> simp [isWord] at hword <;> cases habi <;> cases v <;> rfl

end Ty

namespace Value

theorem encodeAll_singleton {v : Value} (h : v.isDynamic = false) : encodeAll [v] = v.encode := by
  rw [encodeAll, parts, parts, h, assemble_eq, layOut_static, layOut]
  simp

end Value

namespace Event

open Emitted (topics plain)

theorem ofTopic_topic {e : Emitted} (hindexed : e.argument.indexed = true)
    (hsized : e.argument.ty.wellSized = true) (hsolid : e.argument.ty.solid = true)
    (hlegal : e.argument.ty.Legal e.value) : ofTopic e.argument e.topic = .ok (some e.shown) := by
  unfold ofTopic Emitted.topic Emitted.shown
  by_cases hword : e.argument.ty.isWord = true
  · obtain ⟨a, habi⟩ := Ty.abiType?_of_isWord hword
    obtain ⟨hstatic, hlen, hnesting⟩ := hlegal.word hword
    have hsingle := Value.encodeAll_singleton hstatic
    have hmeasures : AbiType.allMeasure [a] [e.value] = true := by
      simp [AbiType.allMeasure, Ty.measures_of_isWord hword habi]
    have hdecode := Abi.decode_encodeAll (.cons habi .nil) (by simpa using hsized)
      (by simpa using hsolid) (.cons hlegal .nil) hmeasures (by rw [hsingle, hlen]; decide)
      (by simp [Value.nestings, hnesting])
    rw [hsingle] at hdecode
    simp only [hword, if_true, Word.toBytes_ofBytes hlen, hdecode, Except.map, List.head?_cons,
      Option.map_some, Bool.not_true, Bool.and_false, Bool.false_eq_true, if_false]
  · simp [hword, hindexed]

/-- Topics and plain values come back in the order of the declaration. -/
theorem assemble_emitted (log : Log) {emitted : List Emitted}
    (h : ∀ e ∈ emitted, e.argument.indexed = true →
      ofTopic e.argument e.topic = .ok (some e.shown)) :
    assemble log (emitted.map Emitted.argument) (topics emitted)
        ((plain emitted).map Emitted.value) =
      .ok (emitted.map fun e => (e.argument.name, e.shown)) := by
  -- each argument takes the head of one of the two sequences and leaves the other one alone
  induction emitted with
  | nil => rfl
  | cons e rest ih =>
    rw [List.forall_mem_cons] at h
    have hrest := ih h.2
    cases hindexed : e.argument.indexed with
    | true =>
      have htopics : topics (e :: rest) = e.topic :: topics rest := by
        simp [topics, hindexed]
      have hplain : plain (e :: rest) = plain rest := by simp [plain, hindexed]
      rw [htopics, hplain]
      simp only [List.map_cons, assemble, hindexed, if_true, h.1 hindexed, hrest, Except.map]
    | false =>
      have htopics : topics (e :: rest) = topics rest := by simp [topics, hindexed]
      have hplain : plain (e :: rest) = e :: plain rest := by simp [plain, hindexed]
      have hshown : e.shown = ⟨e.value, e.argument.ty⟩ := by simp [Emitted.shown, hindexed]
      rw [htopics, hplain]
      simp only [List.map_cons, assemble, hindexed, Bool.false_eq_true, if_false, hrest, hshown,
        Except.map]

theorem id_of_event? {artifact : Artifact} {decl : EventDecl} {topic : Word}
    (h : artifact.event? topic = some decl) : decl.id = .ok topic := by
  have hid := List.find?_some h
  rw [beq_iff_eq] at hid
  cases hdecl : decl.id with
  | error e => simp [hdecl, Except.toOption] at hid
  | ok id =>
    rw [hdecl, Except.toOption, Option.some.injEq] at hid
    rw [hid]

theorem exists_abiType?_of_id {decl : EventDecl} {id : Word} (h : decl.id = .ok id) :
    ∀ t ∈ decl.types, ∃ a, t.abiType? = some a := by
  cases habi : Abi.abiTypes decl.types with
  | error e =>
    simp [EventDecl.id, EventDecl.signature, Abi.tupleSignature, habi, Except.map] at h
  | ok abi => exact exists_of_forall₂ (Abi.abiTypes_eq_ok habi)

/-- Legal values are emitted, and the log is decoded to them if the elements of their arrays are
measured. -/
theorem decode_emitted {artifact : Artifact} {decl : EventDecl} {id : Word}
    {emitted : List Emitted} (place : Nat) (address : Address)
    (hevent : artifact.event? id = some decl)
    (hargs : decl.arguments = emitted.map Emitted.argument)
    (hsized : ∀ t ∈ decl.types, t.wellSized = true) (hsolid : ∀ t ∈ decl.types, t.solid = true)
    (hlegal : ∀ e ∈ emitted, e.argument.ty.Legal e.value)
    (hmeasures : ∀ abi, Abi.abiTypes ((plain emitted).map fun e => e.argument.ty) = .ok abi →
      AbiType.allMeasure abi ((plain emitted).map Emitted.value) = true)
    (hlen : (Value.encodeAll ((plain emitted).map Emitted.value)).length ≤ Size.limit)
    (hdepth : Value.nestings ((plain emitted).map Emitted.value) ≤ Abi.depthLimit) :
    decl.id = .ok id ∧
      ∃ data,
        Abi.encode ((plain emitted).map fun e => e.argument.ty)
          ((plain emitted).map Emitted.value) = .ok data ∧
        decode artifact ⟨place, address, id :: topics emitted, data⟩ =
          .ok ⟨place, address, decl.name, emitted.map fun e => (e.argument.name, e.shown)⟩ := by
  have hid := id_of_event? hevent
  have htype : ∀ e ∈ emitted, e.argument.ty ∈ decl.types := by
    intro e he
    rw [EventDecl.types, hargs]
    exact List.mem_map_of_mem (List.mem_map_of_mem he)
  have hplainTypes : (decl.arguments.filter fun a => !a.indexed).map EventArgument.ty =
      (plain emitted).map fun e => e.argument.ty := by
    rw [hargs, List.filter_map, List.map_map]
    rfl
  have hcount : (topics emitted).length = decl.arguments.countP fun a => a.indexed := by
    rw [hargs, List.countP_map, List.countP_eq_length_filter, topics, List.length_map]
    rfl
  have hmem : ∀ t ∈ (plain emitted).map fun e => e.argument.ty, t ∈ decl.types := by
    intro t ht
    obtain ⟨e, he, rfl⟩ := List.mem_map.1 ht
    exact htype e (List.mem_of_mem_filter he)
  -- the event has an identifier, so that every type in it crosses a call boundary
  obtain ⟨abi, habi⟩ := exists_forall₂ fun t ht => exists_abiType?_of_id hid t (hmem t ht)
  have hplain : List.Forall₂ Ty.Legal ((plain emitted).map fun e => e.argument.ty)
      ((plain emitted).map Emitted.value) := by
    rw [List.forall₂_map_left_iff, List.forall₂_map_right_iff, List.forall₂_same]
    exact fun e he => hlegal e (List.mem_of_mem_filter he)
  have hvalues := Abi.decode_encodeAll habi (fun t ht => hsized t (hmem t ht))
    (fun t ht => hsolid t (hmem t ht)) hplain (hmeasures abi (Abi.abiTypes_of_forall₂ habi))
    hlen hdepth
  refine ⟨hid, _, Abi.encode_of_legal habi hplain, ?_⟩
  have hassemble := assemble_emitted
    ⟨place, address, id :: topics emitted, Value.encodeAll ((plain emitted).map Emitted.value)⟩
    fun e (he : e ∈ emitted) hindexed =>
      ofTopic_topic hindexed (hsized _ (htype e he)) (hsolid _ (htype e he)) (hlegal e he)
  rw [← hargs] at hassemble
  simp only [decode, hevent, hcount, if_true, hplainTypes, hvalues, bind, Except.bind,
    Except.mapError, hassemble, pure, Except.pure]

theorem decode_of_abi_error {artifact : Artifact} {decl : EventDecl} {id : Word}
    {topics : List Word} {data : List UInt8} {e : Abi.Failure} (place : Nat) (address : Address)
    (hevent : artifact.event? id = some decl)
    (hcount : topics.length = decl.arguments.countP fun a => a.indexed)
    (hdata : Abi.decode ((decl.arguments.filter fun a => !a.indexed).map EventArgument.ty) data =
      .error e) : decode artifact ⟨place, address, id :: topics, data⟩ = .error (.abi e) := by
  simp only [decode, hevent, hcount, if_true, hdata, Except.mapError, bind, Except.bind]

theorem event?_of_singleton {artifact : Artifact} {decl : EventDecl} {id : Word}
    (hevents : artifact.events = [decl]) (hid : decl.id = .ok id) :
    artifact.event? id = some decl := by
  simp [Artifact.event?, hevents, hid, Except.toOption]

/-! ## Logs of no declared event -/

theorem ofTopic_ne_none (a : EventArgument) (topic : Word) : ofTopic a topic ≠ .ok none := by
  unfold ofTopic
  split
  · rename_i hword
    cases hdecode : Abi.decode [a.ty] topic.toBytes with
    | error e => simp [Except.map]
    | ok values =>
      obtain ⟨v, rfl⟩ := Abi.exists_of_decode_word hword hdecode
      simp [Except.map]
  · simp

theorem assemble_ne_unknown {log : Log} {arguments : List EventArgument} {topics : List Word}
    {values : List Value} {address : Address} {topic : Option Word} :
    assemble log arguments topics values ≠ .error (.unknown address topic) := by
  induction arguments generalizing topics values with
  | nil => simp [assemble]
  | cons a rest ih =>
    intro h
    unfold assemble at h
    split at h
    · cases topics with
      | nil => simp at h
      | cons first topics =>
        cases hv : ofTopic a first with
        | error e => simp [hv] at h
        | ok v =>
          cases v with
          | none => exact ofTopic_ne_none a first hv
          | some v =>
            simp only [hv, map_eq_error] at h
            exact ih h
    · cases values with
      | nil => simp at h
      | cons v values =>
        simp only [map_eq_error] at h
        exact ih h

theorem decode_ne_unknown {artifact : Artifact} {decl : EventDecl} {log : Log} {topic : Word}
    {topics : List Word} (htopics : log.topics = topic :: topics)
    (hevent : artifact.event? topic = some decl) {address : Address} {first : Option Word} :
    decode artifact log ≠ .error (.unknown address first) := by
  intro h
  simp only [decode, htopics, hevent] at h
  split at h
  · cases hvalues : Abi.decode ((decl.arguments.filter fun a => !a.indexed).map EventArgument.ty)
        log.data with
    | error e => simp [hvalues, Except.mapError, bind, Except.bind] at h
    | ok values =>
      cases hargs : assemble log decl.arguments topics values with
      | error e =>
        simp only [hvalues, hargs, Except.mapError, bind, Except.bind, Except.error.injEq] at h
        exact assemble_ne_unknown (h ▸ hargs)
      | ok args =>
        simp [hvalues, hargs, Except.mapError, bind, Except.bind, pure, Except.pure] at h
  · simp at h

/-- A log is of no known event exactly if it has no topic or the first one selects none. -/
theorem decode_eq_unknown_iff {artifact : Artifact} {log : Log} :
    (∃ address topic, decode artifact log = .error (.unknown address topic)) ↔
      ∀ topic topics, log.topics = topic :: topics → artifact.event? topic = none := by
  constructor
  · rintro ⟨address, first, h⟩ topic topics htopics
    cases hevent : artifact.event? topic with
    | none => rfl
    | some decl => exact absurd h (decode_ne_unknown htopics hevent)
  · intro h
    cases htopics : log.topics with
    | nil => exact ⟨log.address, none, by simp [decode, htopics]⟩
    | cons topic topics =>
      exact ⟨log.address, some topic, by simp [decode, htopics, h topic topics htopics]⟩

def paid : EventDecl where
  name := "Paid"
  arguments := [⟨"payer", .address, true⟩, ⟨"note", .string 8, false⟩, ⟨"tag", .string 8, true⟩,
    ⟨"amount", .uint 8, false⟩]

def payment : List Emitted :=
  [⟨⟨"payer", .address, true⟩, .address 7, 0⟩, ⟨⟨"note", .string 8, false⟩, .string "hi", 0⟩,
    ⟨⟨"tag", .string 8, true⟩, .string "red", 99⟩, ⟨⟨"amount", .uint 8, false⟩, .uint 5 8, 0⟩]

theorem decode_payment :
    ∃ id data, paid.id = .ok id ∧
      Abi.encode [.string 8, .uint 8] [.string "hi", .uint 5 8] = .ok data ∧
      decode { name := "Till", events := [paid] } ⟨3, 1, [id, 7, 99], data⟩ =
        .ok ⟨3, 1, "Paid", [("payer", ⟨.address 7, .address⟩), ("note", ⟨.string "hi", .string 8⟩),
          ("tag", ⟨.fixedBytes 99 32, .fixedBytes 32⟩), ("amount", ⟨.uint 5 8, .uint 8⟩)]⟩ := by
  obtain ⟨id, hid⟩ : ∃ id, paid.id = .ok id := ⟨_, rfl⟩
  have hlegal : ∀ e ∈ payment, e.argument.ty.Legal e.value := by
    simp only [payment, List.forall_mem_cons]
    exact ⟨.address 7, .string (by decide), .string (by decide), .uint (by decide), by simp⟩
  have hevent : ({ name := "Till", events := [paid] } : Artifact).event? id = some paid :=
    event?_of_singleton rfl hid
  have hargs : paid.arguments = payment.map Emitted.argument := rfl
  obtain ⟨-, data, hdata, hdecode⟩ := decode_emitted 3 1 hevent hargs (by decide) (by decide)
    hlegal (fun _ habi => by cases habi; rfl) (by decide +kernel) (by decide)
  have htopics : topics payment = [7, 99] := by decide +kernel
  rw [htopics] at hdecode
  exact ⟨id, data, hid, hdata, hdecode⟩

/-- `n` arrays of one element around a number, one in another. -/
def nestedType : Nat → Ty
  | 0 => .uint 8
  | n + 1 => .array (nestedType n) 1

def nestedValue : Nat → Value
  | 0 => .uint 7 8
  | n + 1 => .fixedArray [nestedValue n]

theorem legal_nested (n : Nat) : (nestedType n).Legal (nestedValue n) := by
  induction n with
  | zero => exact .uint (by decide)
  | succ n ih =>
    have hitems : ∀ v ∈ [nestedValue n], (nestedType n).Legal v := by simpa using ih
    exact .array hitems

def deep : EventDecl := { name := "Deep", arguments := [⟨"x", nestedType 18, false⟩] }

/-- Arrays of two arrays of numbers, of which the first takes one byte more than can be
addressed. -/
def bulkyType : Ty :=
  .dynArray (.tuple [.array (.uint 256) 576460752303423488, .array (.uint 256) 2]) 3

def bulky : EventDecl := { name := "Bulky", arguments := [⟨"x", bulkyType, false⟩] }

def noElements : List UInt8 := bytesOfNat 32 32 ++ bytesOfNat 32 0

/-- An argument that nests deeper than the reader follows is emitted and not decoded; nor is an
array without elements that are too large to be measured. -/
theorem decode_deep :
    (∃ id signature, ({ name := "Well", events := [deep] } : Artifact).event? id = some deep ∧
      (∀ t ∈ deep.types, t.wellSized = true) ∧ (∀ t ∈ deep.types, t.solid = true) ∧
      (nestedType 18).Legal (nestedValue 18) ∧
      Abi.encode [nestedType 18] [nestedValue 18] = .ok (bytesOfNat 32 7) ∧
      decode { name := "Well", events := [deep] } ⟨0, 1, [id], bytesOfNat 32 7⟩ =
        .error (.abi (.decoding signature (.unreadable .tooDeep)))) ∧
    ∃ id signature, ({ name := "Hull", events := [bulky] } : Artifact).event? id = some bulky ∧
      (∀ t ∈ bulky.types, t.wellSized = true) ∧ (∀ t ∈ bulky.types, t.solid = true) ∧
      bulkyType.Legal (.array []) ∧ Abi.encode [bulkyType] [.array []] = .ok noElements ∧
      decode { name := "Hull", events := [bulky] } ⟨0, 1, [id], noElements⟩ =
        .error (.abi (.decoding signature (.malformed .oversized))) := by
  constructor
  · obtain ⟨id, hid⟩ : ∃ id, deep.id = .ok id := ⟨_, rfl⟩
    have hevent : ({ name := "Well", events := [deep] } : Artifact).event? id = some deep :=
      event?_of_singleton rfl hid
    have hread : Abi.decode [nestedType 18] (bytesOfNat 32 7) =
        .error (.decoding "(uint8[1][1][1][1][1][1][1][1][1][1][1][1][1][1][1][1][1][1])"
          (.unreadable .tooDeep)) := by decide +kernel
    exact ⟨id, _, hevent, by decide, by decide, legal_nested 18, by decide +kernel,
      decode_of_abi_error 0 1 hevent rfl hread⟩
  · obtain ⟨id, hid⟩ : ∃ id, bulky.id = .ok id := ⟨_, rfl⟩
    have hevent : ({ name := "Hull", events := [bulky] } : Artifact).event? id = some bulky :=
      event?_of_singleton rfl hid
    have hlegal : bulkyType.Legal (.array []) := .dynArray (by decide) (by simp)
    have hread : Abi.decode [bulkyType] noElements =
        .error (.decoding "((uint256[576460752303423488],uint256[2])[])"
          (.malformed .oversized)) := by decide +kernel
    exact ⟨id, _, hevent, by decide, by decide, hlegal, by decide +kernel,
      decode_of_abi_error 0 1 hevent rfl hread⟩

end Event

end EvmInspect
