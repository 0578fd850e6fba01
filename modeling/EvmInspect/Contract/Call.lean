import EvmInspect.Contract.Basic
/-!
# Call data

A call gives all required arguments in order, perhaps some of the defaulted ones behind them, and
further defaulted ones by name.  Defaulted arguments can be left out from the end only.
-/

namespace EvmInspect.Contract

inductive CallFailure where
  /-- There are too few or too many arguments. -/
  | argumentCount (function : String) (least most got : Nat)
  /-- A keyword names no defaulted argument. -/
  | unknownKeyword (function keyword : String)
  /-- An argument is given more than once. -/
  | duplicateKeyword (function keyword : String)
  /-- An argument is missing before later ones. -/
  | missingKeyword (function keyword : String)
  /-- The contract has no such function to call. -/
  | unknownFunction (contract function : String)
  | abi (failure : Abi.Failure)
deriving DecidableEq, Repr

def CallFailure.message : CallFailure → String
  | .argumentCount function least most got =>
    let expected :=
      if least = most then s!"expected {most}" else s!"expected between {least} and {most}"
    s!"bad args to \x60{function}\x60 ({expected}, got {got})"
  | .unknownKeyword function keyword =>
    s!"\x60{function}\x60 has no keyword argument \x60{keyword}\x60"
  | .duplicateKeyword function keyword =>
    s!"argument \x60{keyword}\x60 of \x60{function}\x60 given more than once"
  | .missingKeyword function keyword =>
    s!"\x60{function}\x60 needs \x60{keyword}\x60 before later keyword arguments"
  | .unknownFunction contract function =>
    s!"\x60{contract}\x60 has no external function \x60{function}\x60"
  | .abi failure => failure.message

/-- Sets a place that must be free; nothing if it is taken or there is no such place. -/
def fill (value : Value) : (place : Nat) → List (Option Value) → Option (List (Option Value))
  | _, [] => none
  | 0, none :: rest => some (some value :: rest)
  | 0, some _ :: _ => none
  | place + 1, x :: rest => (fill value place rest).map fun filled => x :: filled

/-- Puts arguments that are given by name into the places of the defaulted ones, of which the first
`given` are taken. -/
def placeKeywords (f : FunctionDecl) (given : Nat) :
    List (String × Value) → List (Option Value) → Except CallFailure (List (Option Value))
  | [], places => .ok places
  | (keyword, value) :: rest, places =>
    match f.defaulted.findIdx? fun a => a.name == keyword with
    | none => .error (.unknownKeyword f.name keyword)
    | some index =>
      if index < given then .error (.duplicateKeyword f.name keyword)
      else
        match fill value (index - given) places with
        | none => .error (.duplicateKeyword f.name keyword)
        | some places => placeKeywords f given rest places

/-- The values of places that must all be taken; the arguments that belong to them are given. -/
def takePlaces (f : FunctionDecl) : List Argument → List (Option Value) →
    Except CallFailure (List Value)
  | a :: as, place :: places =>
    match place with
    | none => .error (.missingKeyword f.name a.name)
    | some v =>
      match takePlaces f as places with
      | .ok vs => .ok (v :: vs)
      | .error e => .error e
  | _, _ => .ok []

def arrange (f : FunctionDecl) (args : List Value) (keywords : List (String × Value)) :
    Except CallFailure (List Value) :=
  let least := f.required.length
  if least ≤ args.length ∧ args.length ≤ f.argumentCount then
    let given := args.length - least
    let remaining := f.defaulted.drop given
    match placeKeywords f given keywords (List.replicate remaining.length none) with
    | .error e => .error e
    | .ok places =>
      match takePlaces f remaining (places.take keywords.length) with
      | .error e => .error e
      | .ok values => .ok (args ++ values)
  else .error (.argumentCount f.name least f.argumentCount args.length)

/-- Data of a call of a function.  Only a regular function is found by its selector. -/
def prepare (f : FunctionDecl) (args : List Value) (keywords : List (String × Value)) :
    Except CallFailure (List UInt8) := do
  let values ← arrange f args keywords
  let given := values.length - f.required.length
  let selector ← (f.selector given).mapError .abi
  let data ← (Abi.encode (f.argumentTypes given) values).mapError .abi
  match f.role with
  | .regular => return selector ++ data
  | .constructor | .fallback => return data

def encodeCall (c : Contract) (name : String) (args : List Value)
    (keywords : List (String × Value)) : Except CallFailure (List UInt8) :=
  match c.function? name with
  | some f => prepare f args keywords
  | none => .error (.unknownFunction c.name name)

def functionText (c : Contract) (f : FunctionDecl) : String := s!"{c.name}.{f.name}"

end EvmInspect.Contract
