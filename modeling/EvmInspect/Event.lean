import EvmInspect.Artifact.Basic
import EvmInspect.Trace.Frame
import EvmInspect.Value.Declared
/-!
# Events

A log names its event by its first topic.  Each indexed argument has a topic of its own, which holds
the argument itself if it is a word and the digest of its encoding otherwise; the other arguments
are encoded together in the log's data.
-/

namespace EvmInspect

structure Event where
  /-- Place in the order of all logs. -/
  id : Nat
  address : Address
  name : String
  /-- Its arguments in the order of their declaration. -/
  arguments : List (String × Declared)
deriving DecidableEq, Repr

namespace Event

/-- The first argument of a name. -/
def argument? (e : Event) (name : String) : Option Declared := Table.lookup name e.arguments

def text (e : Event) : String :=
  e.name ++ "(" ++ ", ".intercalate (e.arguments.map fun a => s!"{a.1}={a.2.text}") ++ ")"

def toJson (e : Event) : Json :=
  .object
    [("log_id", .ofNat e.id), ("address", .string e.address.hex), ("name", .string e.name),
     ("args", .ofPairs (e.arguments.map fun a => (a.1, a.2.toJson)))]

inductive Failure where
  /-- No declared event has the log's first topic. -/
  | unknown (address : Address) (topic : Option Word)
  /-- The event has another number of indexed arguments. -/
  | topicCount (event : String) (expected got : Nat)
  | abi (failure : Abi.Failure)
deriving DecidableEq, Repr

def Failure.message : Failure → String
  | .unknown address topic =>
    let shown := match topic with
      | some w => s!"Some({Hex.ofWord w})"
      | none => "None"
    s!"{address.checksum} declares no event with topic {shown}"
  | .topicCount event expected got =>
    s!"event \x60{event}\x60 expects {expected} topics, got {got}"
  | .abi failure => failure.message

def ofTopic (a : EventArgument) (topic : Word) : Except Abi.Failure (Option Declared) :=
  if a.ty.isWord then
    (Abi.decode [a.ty] topic.toBytes).map fun values => values.head?.map fun v => ⟨v, a.ty⟩
  else .ok (some ⟨.fixedBytes topic 32, .fixedBytes 32⟩)

/-- Arguments in the order of their declaration, from the topics of the indexed ones and the values
of the others.  They end where one of the two runs out. -/
def assemble (log : Log) : List EventArgument → (topics : List Word) → (values : List Value) →
    Except Failure (List (String × Declared))
  | [], _, _ => .ok []
  | a :: rest, topics, values =>
    if a.indexed then
      match topics with
      | [] => .ok []
      | topic :: topics =>
        match ofTopic a topic with
        | .error e => .error (.abi e)
        | .ok none => .error (.unknown log.address log.topics.head?)
        | .ok (some v) => (assemble log rest topics values).map fun args => (a.name, v) :: args
    else
      match values with
      | [] => .ok []
      | v :: values =>
        (assemble log rest topics values).map fun args => (a.name, ⟨v, a.ty⟩) :: args

def decode (artifact : Artifact) (log : Log) : Except Failure Event :=
  match log.topics with
  | [] => .error (.unknown log.address none)
  | topic :: topics =>
    match artifact.event? topic with
    | none => .error (.unknown log.address (some topic))
    | some decl =>
      let indexed := decl.arguments.countP fun a => a.indexed
      if topics.length = indexed then do
        let plain := decl.arguments.filter fun a => !a.indexed
        let values ← (Abi.decode (plain.map EventArgument.ty) log.data).mapError .abi
        let arguments ← assemble log decl.arguments topics values
        return ⟨log.id, log.address, decl.name, arguments⟩
      else .error (.topicCount decl.name (indexed + 1) (topics.length + 1))

end Event

/-- A log, decoded or as it was written. -/
inductive DecodedLog where
  | event (e : Event)
  | raw (log : Log)
deriving DecidableEq, Repr

def Log.text (log : Log) : String :=
  s!"RawEvent(address={log.address.checksum}, topics=[" ++
    ", ".intercalate (log.topics.map Hex.ofWord) ++ s!"], data={Hex.encode log.data})"

def Log.toFlatJson (log : Log) : Json :=
  .object
    [("log_id", .ofNat log.id), ("address", .string log.address.hex),
     ("topics", .strings (log.topics.map Hex.ofWord)), ("data", .string (Hex.encode log.data))]

namespace DecodedLog

def id : DecodedLog → Nat
  | .event e => e.id
  | .raw log => log.id

def text : DecodedLog → String
  | .event e => e.text
  | .raw log => log.text

def toJson : DecodedLog → Json
  | .event e => e.toJson
  | .raw log => log.toFlatJson

end DecodedLog

end EvmInspect
