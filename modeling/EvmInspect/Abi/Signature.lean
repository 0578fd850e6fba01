import EvmInspect.Abi.Codec
import EvmInspect.Json.Parser
/-!
# Signatures

Types of the call interface as text, such as `(uint256,address[])`.  A type is a stem followed by
array lengths in brackets; a stem is a word or a list in parentheses, which the word `tuple` may
announce.  Blanks may stand behind an opening parenthesis, behind a comma and before a closing
parenthesis.  A word with a point in it names an enumeration and stands for its numbers.
-/

namespace EvmInspect.AbiType

def isSpace (c : Char) : Bool := c == ' ' || c == '\t'

def skipSpaces (s : List Char) : List Char := s.dropWhile isSpace

def isWordStart (c : Char) : Bool := c.isAlpha || c == '_' || c == '$'

def isWordPart (c : Char) : Bool := isWordStart c || c.isDigit

def word? : List Char → Option (List Char × List Char)
  | [] => none
  | c :: rest =>
    if isWordStart c then some (c :: rest.takeWhile isWordPart, rest.dropWhile isWordPart) else none

/-- The size at the end of a word: decimal digits of an addressable number. -/
def sizeOf? (digits : List Char) : Option Nat :=
  if digits.isEmpty ∨ ¬digits.all Char.isDigit then none
  else
    let n := Json.natOfDigits digits
    if n ≤ Size.limit then some n else none

/-- Width of an integer: by default the widest. -/
def width? (digits : List Char) : Option Nat :=
  if digits.isEmpty then some 256
  else
    match sizeOf? digits with
    | some n => if n = 0 ∨ 256 < n ∨ n % 8 ≠ 0 then none else some n
    | none => none

def ofWord? (word : List Char) : Option AbiType :=
  let stem := String.ofList (word.takeWhile fun c => !c.isDigit)
  let digits := word.dropWhile fun c => !c.isDigit
  if stem = "uint" then (width? digits).map .uint
  else if stem = "int" then (width? digits).map .int
  else if digits.isEmpty then
    if stem = "bool" then some .bool
    else if stem = "address" then some .address
    else if stem = "function" then some .function
    else if stem = "bytes" then some .bytes
    else if stem = "string" then some .string
    else none
  else if stem = "bytes" then
    match sizeOf? digits with
    | some n => if n = 0 ∨ 32 < n then none else some (.fixedBytes n)
    | none => none
  else none

/-- How many lists may stand inside each other. -/
def listLimit : Nat := 80

/-- The word of an enumeration's member behind its point, if there is one, is skipped. -/
def skipMember (s : List Char) : List Char :=
  match word? s with
  | some (_, rest) => rest
  | none => s

def named? (s : List Char) : Option (AbiType × List Char) := do
  let (word, rest) ← word? s
  match rest with
  | '.' :: rest => return (.uint 8, skipMember rest)
  | rest => return (← ofWord? word, rest)

def openList? : List Char → Option (List Char)
  | '(' :: rest => some rest
  | 't' :: 'u' :: 'p' :: 'l' :: 'e' :: '(' :: rest => some rest
  | _ => none

/-- Array lengths at the start of a text, behind an element type.  The first number bounds them. -/
def lengths? : Nat → AbiType → List Char → Option (AbiType × List Char)
  | 0, _, _ => none
  | fuel + 1, elem, '[' :: rest =>
    match rest with
    | ']' :: rest => lengths? fuel (.array elem) rest
    | rest => do
      let n ← sizeOf? (rest.takeWhile Char.isDigit)
      match rest.dropWhile Char.isDigit with
      | ']' :: rest => if n = 0 then none else lengths? fuel (.fixedArray elem n) rest
      | _ => none
  | _ + 1, elem, rest => some (elem, rest)

mutual

/-- The type at the start of a text inside `depth` lists, and the rest.  The first number bounds
the recursion. -/
def type? (depth : Nat) : Nat → List Char → Option (AbiType × List Char)
  | 0, _ => none
  | fuel + 1, s =>
    match openList? s with
    | some rest => do
      if listLimit ≤ depth + 1 then none
      else
        let (members, rest) ← members? (depth + 1) fuel (skipSpaces rest)
        lengths? (rest.length + 1) (.tuple members) rest
    | none => do
      let (t, rest) ← named? s
      lengths? (rest.length + 1) t rest

def members? (depth : Nat) : Nat → List Char → Option (List AbiType × List Char)
  | 0, _ => none
  | fuel + 1, s =>
    match s with
    | ')' :: rest => some ([], rest)
    | s => do
      let (member, rest) ← type? depth fuel s
      match rest with
      | ',' :: rest => do
        let (members, rest) ← members? depth fuel (skipSpaces rest)
        return (member :: members, rest)
      | rest =>
        match skipSpaces rest with
        | ')' :: rest => some ([member], rest)
        | _ => none

end

def parse (s : String) : Option AbiType :=
  let s := s.toList
  match type? 0 (2 * s.length + 2) s with
  | some (t, []) => some t
  | _ => none

mutual

/-- A declared type without bounds that has this call type; function pointers have none. -/
def unbounded? : AbiType → Option Ty
  | .bool => some .bool
  | .int bits => some (.int bits)
  | .uint bits => some (.uint bits)
  | .fixedBytes size => some (.fixedBytes size)
  | .address => some .address
  | .function => none
  | .bytes => some (.bytes Size.limit)
  | .string => some (.string Size.limit)
  | .array elem => elem.unbounded?.map fun t => .dynArray t Size.limit
  | .fixedArray elem n => elem.unbounded?.map fun t => .array t n
  | .tuple members => (unboundedAll? members).map .tuple
  | .struct _ _ _ => none

def unboundedAll? : List AbiType → Option (List Ty)
  | [] => some []
  | t :: ts => t.unbounded?.bind fun u => (unboundedAll? ts).map fun us => u :: us

end

end EvmInspect.AbiType

namespace EvmInspect.Abi

/-- The parameter types of a signature: the members of a list, or a single type. -/
def parameters (signature : String) : Except Failure (List Ty) :=
  let members :=
    match AbiType.parse signature with
    | some (.tuple members) => AbiType.unboundedAll? members
    | some t => AbiType.unboundedAll? [t]
    | none => none
  match members with
  | some types => .ok types
  | none => .error (.invalidSignature signature)

def encodeSignature (signature : String) (values : List Value) : Except Failure (List UInt8) := do
  let types ← parameters signature
  encode types values

def decodeSignature (signature : String) (data : List UInt8) : Except Failure (List Value) := do
  let types ← parameters signature
  decode types data

end EvmInspect.Abi
