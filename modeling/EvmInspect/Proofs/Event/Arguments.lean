import EvmInspect.Proofs.Event
import Mathlib.Data.List.TakeWhile
/-!
# Arguments of decoded events

A decoded event has one entry for each declared argument, in the order of the declaration: those
that are not indexed show the values of the data one after another, and each indexed one shows its
own topic.  There is one exception.  If there are arguments that are not indexed and none of them
takes a byte, the data is read as no values at all, and the entries end before the first of these
arguments, even if indexed ones follow.
-/

namespace EvmInspect

/-- No value of the type takes any bytes when it crosses a call boundary. -/
def Ty.isWeightless (t : Ty) : Bool := t.abiType?.any AbiType.isEmpty

namespace EventDecl

def plainTypes (e : EventDecl) : List Ty :=
  (e.arguments.filter fun a => !a.indexed).map EventArgument.ty

/-- There are arguments that stand in the data, and none of them takes any bytes there. -/
def isWeightless (e : EventDecl) : Bool :=
  !e.plainTypes.isEmpty && e.plainTypes.all Ty.isWeightless

def shown (e : EventDecl) : List EventArgument :=
  if e.isWeightless then e.arguments.takeWhile fun a => a.indexed else e.arguments

end EventDecl

namespace Abi

variable {types : List Ty} {abi : List AbiType} {data : List UInt8} {values : List Value}

theorem allEmpty_eq_all (h : abiTypes types = .ok abi) :
    AbiType.allEmpty abi = types.all Ty.isWeightless := by
  have hforall := abiTypes_eq_ok h
  clear h
  induction hforall with
  | nil => rfl
  | cons hhead _ ih =>
    rw [AbiType.allEmpty, List.all_cons, ih, Ty.isWeightless, hhead, Option.any_some]

/-- There are as many values as types, unless none of these takes any bytes. -/
theorem length_of_decode (h : decode types data = .ok values) :
    values.length = if types.all Ty.isWeightless then 0 else types.length := by
  obtain ⟨abi, habi, -, hread, -⟩ := decode_eq_ok.1 h
  rw [← allEmpty_eq_all habi]
  cases hempty : AbiType.allEmpty abi with
  | true =>
    rw [read, hempty, if_pos rfl, Except.ok.injEq] at hread
    rw [← hread]
    rfl
  | false => rw [length_of_read hempty hread, if_neg (by simp), (abiTypes_eq_ok habi).length_eq]

end Abi

namespace Event

variable {artifact : Artifact} {log : Log} {e : Event} {a : EventArgument}
  {arguments : List EventArgument} {topic : Word} {topics : List Word} {v : Value}
  {values : List Value} {entries : List (String × Declared)}

/-! ## Entries of arguments -/

/-- What the entries show of the arguments of one kind. -/
def entriesOf (kind : EventArgument → Bool) (arguments : List EventArgument)
    (entries : List (String × Declared)) : List Declared :=
  ((arguments.zip entries).filter fun p => kind p.1).map fun p => p.2.2

/-- The entries show the arguments in their order: the plain ones with the values and their declared
types, and each indexed one by its own topic. -/
structure Shows (arguments : List EventArgument) (topics : List Word) (values : List Value)
    (entries : List (String × Declared)) : Prop where
  names : entries.map Prod.fst = arguments.map EventArgument.name
  values : (entriesOf (fun a => !a.indexed) arguments entries).map Declared.value = values
  types : (entriesOf (fun a => !a.indexed) arguments entries).map Declared.ty =
    (arguments.filter fun a => !a.indexed).map EventArgument.ty
  topics : List.Forall₂ (fun p v => ofTopic p.1 p.2 = .ok (some v))
    ((arguments.filter fun a => a.indexed).zip topics)
    (entriesOf (fun a => a.indexed) arguments entries)

theorem Shows.nil (topics : List Word) : Shows [] topics [] [] where
  names := rfl
  values := rfl
  types := rfl
  topics := .nil

theorem Shows.indexed {d : Declared} (hindexed : a.indexed = true)
    (htopic : ofTopic a topic = .ok (some d)) (h : Shows arguments topics values entries) :
    Shows (a :: arguments) (topic :: topics) values ((a.name, d) :: entries) where
  names := by rw [List.map_cons, List.map_cons, h.names]
  values := by simpa [entriesOf, hindexed] using h.values
  types := by simpa [entriesOf, hindexed] using h.types
  topics := by simpa [entriesOf, hindexed, htopic] using h.topics

theorem Shows.plain (hplain : a.indexed = false) (h : Shows arguments topics values entries) :
    Shows (a :: arguments) topics (v :: values) ((a.name, ⟨v, a.ty⟩) :: entries) where
  names := by rw [List.map_cons, List.map_cons, h.names]
  values := by simpa [entriesOf, hplain] using h.values
  types := by simpa [entriesOf, hplain] using h.types
  topics := by simpa [entriesOf, hplain] using h.topics

/-! ## Reading the arguments -/

theorem assemble_indexed (hindexed : a.indexed = true) :
    assemble log (a :: arguments) (topic :: topics) values = .ok entries ↔
      ∃ d rest, ofTopic a topic = .ok (some d) ∧
        assemble log arguments topics values = .ok rest ∧ (a.name, d) :: rest = entries := by
  simp only [assemble, hindexed, if_true]
  cases htopic : ofTopic a topic with
  | error failure => simp
  | ok d? =>
    cases d? with
    | none => exact absurd htopic (ofTopic_ne_none a topic)
    | some d => simp [map_eq_ok]

theorem assemble_plain (hplain : a.indexed = false) :
    assemble log (a :: arguments) topics (v :: values) = .ok entries ↔
      ∃ rest, assemble log arguments topics values = .ok rest ∧
        (a.name, ⟨v, a.ty⟩) :: rest = entries := by
  simp [assemble, hplain, map_eq_ok]

/-- Where neither topics nor values run out, every argument has its entry. -/
theorem shows_of_assemble (htopics : arguments.countP (fun a => a.indexed) ≤ topics.length)
    (hvalues : arguments.countP (fun a => !a.indexed) = values.length)
    (h : assemble log arguments topics values = .ok entries) :
    Shows arguments topics values entries := by
  induction arguments generalizing topics values entries with
  | nil =>
    rw [assemble, Except.ok.injEq] at h
    rw [List.countP_nil] at hvalues
    rw [← h, List.eq_nil_of_length_eq_zero hvalues.symm]
    exact .nil topics
  | cons a rest ih =>
    cases hindexed : a.indexed with
    | true =>
      rw [List.countP_cons_of_pos hindexed] at htopics
      rw [List.countP_cons_of_neg (by simp [hindexed])] at hvalues
      cases topics with
      | nil => simp at htopics
      | cons topic topics =>
        obtain ⟨d, entries, htopic, hrest, rfl⟩ := (assemble_indexed hindexed).1 h
        rw [List.length_cons, Nat.add_le_add_iff_right] at htopics
        exact .indexed hindexed htopic (ih htopics hvalues hrest)
    | false =>
      rw [List.countP_cons_of_neg (by simp [hindexed])] at htopics
      rw [List.countP_cons_of_pos (by simp [hindexed])] at hvalues
      cases values with
      | nil => simp at hvalues
      | cons v values =>
        obtain ⟨entries, hrest, rfl⟩ := (assemble_plain hindexed).1 h
        rw [List.length_cons, Nat.add_right_cancel_iff] at hvalues
        exact .plain hindexed (ih htopics hvalues hrest)

/-- Without values the entries end before the first argument that is not indexed. -/
theorem assemble_without_values :
    assemble log arguments topics [] =
      assemble log (arguments.takeWhile fun a => a.indexed) topics [] := by
  induction arguments generalizing topics with
  | nil => rfl
  | cons a rest ih =>
    cases hindexed : a.indexed with
    | false => simp [assemble, hindexed]
    | true =>
      rw [List.takeWhile_cons_of_pos hindexed]
      cases topics with
      | nil => simp only [assemble, hindexed, if_true]
      | cons topic topics => simp only [assemble, hindexed, if_true, ih]

theorem decode_eq_ok :
    decode artifact log = .ok e ↔
      ∃ topic topics decl values arguments, log.topics = topic :: topics ∧
        artifact.event? topic = some decl ∧
        topics.length = decl.arguments.countP (fun a => a.indexed) ∧
        Abi.decode decl.plainTypes log.data = .ok values ∧
        assemble log decl.arguments topics values = .ok arguments ∧
        ⟨log.id, log.address, decl.name, arguments⟩ = e := by
  constructor
  · intro h
    cases htopics : log.topics with
    | nil => simp [decode, htopics] at h
    | cons topic topics =>
      cases hevent : artifact.event? topic with
      | none => simp [decode, htopics, hevent] at h
      | some decl =>
        simp only [decode, htopics, hevent, ite_error_eq_ok, bind_eq_ok, mapError_eq_ok,
          pure_eq_ok] at h
        obtain ⟨hcount, values, hvalues, arguments, hassemble, he⟩ := h
        exact ⟨topic, topics, decl, values, arguments, rfl, hevent, hcount, hvalues, hassemble, he⟩
  · rintro ⟨topic, topics, decl, values, arguments, htopics, hevent, hcount, hvalues, hassemble,
      he⟩
    simp only [decode, htopics, hevent, ite_error_eq_ok, bind_eq_ok, mapError_eq_ok, pure_eq_ok]
    exact ⟨hcount, values, hvalues, arguments, hassemble, he⟩

/-! ## Every argument and none twice -/

theorem countP_plain (decl : EventDecl) :
    decl.arguments.countP (fun a => !a.indexed) = decl.plainTypes.length := by
  rw [EventDecl.plainTypes, List.length_map, List.countP_eq_length_filter]

theorem shows_of_decode {decl : EventDecl} {data : List UInt8}
    (hcount : topics.length = decl.arguments.countP fun a => a.indexed)
    (hvalues : Abi.decode decl.plainTypes data = .ok values)
    (h : assemble log decl.arguments topics values = .ok entries) :
    Shows decl.shown topics values entries := by
  have hlen := Abi.length_of_decode hvalues
  cases hweightless : decl.isWeightless with
  | true =>
    -- no value is read, and so the entries end before the first plain argument
    have hall : decl.plainTypes.all Ty.isWeightless = true := by
      rw [EventDecl.isWeightless, Bool.and_eq_true] at hweightless
      exact hweightless.2
    rw [hall, if_pos rfl] at hlen
    rw [List.eq_nil_of_length_eq_zero hlen] at h ⊢
    rw [EventDecl.shown, hweightless, if_pos rfl]
    rw [assemble_without_values] at h
    refine shows_of_assemble ?_ ?_ h
    · rw [hcount]
      exact (List.takeWhile_sublist _).countP_le
    · rw [List.length_nil, List.countP_eq_zero]
      intro a ha
      simp [List.mem_takeWhile_imp ha]
  | false =>
    rw [EventDecl.shown, hweightless, if_neg (by simp)]
    refine shows_of_assemble hcount.ge ?_ h
    rw [countP_plain, hlen]
    split
    · rename_i hall
      rw [EventDecl.isWeightless, hall, Bool.and_true, Bool.not_eq_false'] at hweightless
      rw [List.isEmpty_iff.1 hweightless, List.length_nil]
    · rfl

theorem shown_length_iff (decl : EventDecl) :
    decl.shown.length = decl.arguments.length ↔ decl.isWeightless = false := by
  cases hweightless : decl.isWeightless with
  | false => simp [EventDecl.shown, hweightless]
  | true =>
    rw [EventDecl.shown, hweightless, if_pos rfl]
    refine iff_of_false (fun hlen => ?_) (by simp)
    have hall := (List.takeWhile_prefix fun a : EventArgument => a.indexed).eq_of_length hlen
    rw [List.takeWhile_eq_self_iff] at hall
    rw [EventDecl.isWeightless, Bool.and_eq_true, EventDecl.plainTypes, List.isEmpty_map,
      Bool.not_eq_true', ← Bool.not_eq_true, List.isEmpty_iff,
      List.filter_eq_nil_iff] at hweightless
    refine hweightless.1 fun a ha => ?_
    simp [hall a ha]

/-- A decoded log shows the arguments of the event that its first topic selects.  All of them,
unless there are plain ones and none of these takes a byte; and a log that selects an event is never
said to be unknown. -/
theorem decode_shows (artifact : Artifact) (log : Log) :
    (∀ e, decode artifact log = .ok e →
      ∃ topic topics decl values, log.topics = topic :: topics ∧
        artifact.event? topic = some decl ∧
        topics.length = decl.arguments.countP (fun a => a.indexed) ∧
        Abi.decode decl.plainTypes log.data = .ok values ∧
        Shows decl.shown topics values e.arguments ∧
        (e.arguments.map Prod.fst = decl.arguments.map EventArgument.name ↔
          decl.isWeightless = false)) ∧
    ((∃ address topic, decode artifact log = .error (.unknown address topic)) ↔
      ∀ topic topics, log.topics = topic :: topics → artifact.event? topic = none) := by
  refine ⟨fun e h => ?_, decode_eq_unknown_iff⟩
  obtain ⟨topic, topics, decl, values, arguments, htopics, hevent, hcount, hvalues, hassemble,
    rfl⟩ := decode_eq_ok.1 h
  have hshows := shows_of_decode hcount hvalues hassemble
  refine ⟨topic, topics, decl, values, htopics, hevent, hcount, hvalues, hshows, ?_⟩
  constructor
  · intro hnames
    rw [← shown_length_iff, ← List.length_map EventArgument.name, ← hshows.names, hnames,
      List.length_map]
  · intro hweightless
    rw [hshows.names, EventDecl.shown, hweightless, if_neg (by simp)]

/-- Data of the payment with a word between the heads and the text that no encoder would write. -/
def looseData : List UInt8 := [96, 5, 255, 2, 0x6869 <<< 240].flatMap (bytesOfNat 32)

theorem decode_shows_looseData :
    ∃ id e, decode { name := "Till", events := [paid] } ⟨3, 1, [id, 7, 99], looseData⟩ = .ok e ∧
      Shows paid.arguments [7, 99] [.string "hi", .uint 5 8] e.arguments ∧
      e.arguments.map Prod.fst = ["payer", "note", "tag", "amount"] := by
  obtain ⟨id, hid⟩ : ∃ id, paid.id = .ok id := ⟨_, rfl⟩
  have hevent : ({ name := "Till", events := [paid] } : Artifact).event? id = some paid :=
    event?_of_singleton rfl hid
  have hcount : [(7 : Word), 99].length = paid.arguments.countP fun a => a.indexed := rfl
  have hvalues : Abi.decode paid.plainTypes looseData = .ok [.string "hi", .uint 5 8] := by
    decide +kernel
  have hpayer : ofTopic ⟨"payer", .address, true⟩ 7 = .ok (some ⟨.address 7, .address⟩) := by
    decide +kernel
  have htag : ofTopic ⟨"tag", .string 8, true⟩ 99 =
      .ok (some ⟨.fixedBytes 99 32, .fixedBytes 32⟩) := rfl
  have hassemble (log : Log) : assemble log paid.arguments [7, 99] [.string "hi", .uint 5 8] =
      .ok [("payer", ⟨.address 7, .address⟩), ("note", ⟨.string "hi", .string 8⟩),
        ("tag", ⟨.fixedBytes 99 32, .fixedBytes 32⟩), ("amount", ⟨.uint 5 8, .uint 8⟩)] := by
    simp only [paid, assemble, if_true, Bool.false_eq_true, if_false, hpayer, htag, Except.map]
  obtain ⟨e, hdecode⟩ : ∃ e,
      decode { name := "Till", events := [paid] } ⟨3, 1, [id, 7, 99], looseData⟩ = .ok e :=
    ⟨_, decode_eq_ok.2 ⟨id, [7, 99], paid, _, _, rfl, hevent, hcount, hvalues, hassemble _, rfl⟩⟩
  obtain ⟨topic, topics, decl, values, htopics, hdecl, -, hread, hshows, hnames⟩ :=
    (decode_shows _ _).1 _ hdecode
  obtain ⟨rfl, rfl⟩ := List.cons.inj htopics
  obtain rfl : paid = decl := Option.some.inj (hevent.symm.trans hdecl)
  obtain rfl := Except.ok.inj (hvalues.symm.trans hread)
  have hall : paid.isWeightless = false := by decide +kernel
  rw [EventDecl.shown, hall, if_neg (by simp)] at hshows
  exact ⟨id, e, hdecode, hshows, hnames.2 hall⟩

/-- An event whose only plain argument takes no bytes, with an indexed one behind it. -/
def ping : EventDecl where
  name := "Ping"
  arguments := [⟨"x", .array (.uint 8) 0, false⟩, ⟨"y", .uint 256, true⟩]

/-- Neither of the two arguments is shown, though the topic of the second one is there. -/
theorem decode_ping :
    ∃ id, ({ name := "Sonar", events := [ping] } : Artifact).event? id = some ping ∧
      ping.arguments.map EventArgument.name = ["x", "y"] ∧
      decode { name := "Sonar", events := [ping] } ⟨0, 1, [id, 7], []⟩ =
        .ok ⟨0, 1, "Ping", []⟩ := by
  obtain ⟨id, hid⟩ : ∃ id, ping.id = .ok id := ⟨_, rfl⟩
  have hevent : ({ name := "Sonar", events := [ping] } : Artifact).event? id = some ping :=
    event?_of_singleton rfl hid
  have hvalues : Abi.decode ping.plainTypes [] = .ok [] := by decide +kernel
  refine ⟨id, hevent, rfl, decode_eq_ok.2 ?_⟩
  exact ⟨id, [7], ping, [], [], rfl, hevent, rfl, hvalues, rfl, rfl⟩

end Event

end EvmInspect
