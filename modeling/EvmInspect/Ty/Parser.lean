import EvmInspect.Ty.Basic
import EvmInspect.Ty.Token
/-!
# Reading types

A type is a base followed by any number of array lengths in brackets.  A base is a tuple in
parentheses, one of the generic forms `HashMap`, `DynArray`, `Bytes` and `String`, an elementary
word such as `uint8`, or a struct: any other word followed by its members in braces.
-/

namespace EvmInspect.Ty

inductive SyntaxError where
  /-- Another mark was needed at this byte. -/
  | expectedMark (mark : Char) (offset : Nat)
  /-- A word was needed at this byte. -/
  | expectedName (offset : Nat)
  /-- A number was needed at this byte. -/
  | expectedNumber (offset : Nat)
  | numberTooLarge
  /-- An elementary word lacks its size or bound. -/
  | missingSize (word : String)
  /-- No integer has this many bits. -/
  | integerWidth (bits : Nat)
  /-- No fixed byte string has this many bytes. -/
  | fixedBytesSize (size : Nat)
  | unknownType (word : String)
  /-- The type ends at this byte and the text goes on. -/
  | trailing (offset : Nat)
  /-- The nesting is deeper than the text is long; no text leads here. -/
  | tooDeep
deriving DecidableEq, Repr

def SyntaxError.message : SyntaxError → String
  | .expectedMark mark offset => s!"expected \x60{mark}\x60 at offset {offset}"
  | .expectedName offset => s!"expected a type name at offset {offset}"
  | .expectedNumber offset => s!"expected a number at offset {offset}"
  | .numberTooLarge => "bad number: number too large to fit in target type"
  | .missingSize word => s!"\x60{word}\x60 needs an explicit size or bound"
  | .integerWidth bits => s!"invalid integer width {bits}"
  | .fixedBytesSize size => s!"invalid fixed bytes size {size}"
  | .unknownType word => s!"unknown type \x60{word}\x60"
  | .trailing offset => s!"unexpected trailing input at offset {offset}"
  | .tooDeep => "nesting is too deep"

structure ParseError where
  input : String
  reason : SyntaxError
deriving DecidableEq, Repr

def ParseError.message (e : ParseError) : String :=
  s!"invalid type \x60{e.input}\x60: {e.reason.message}"

def natOfDigits (digits : List Char) : Nat :=
  digits.foldl (fun n c => 10 * n + (c.toNat - 48)) 0

/-- The byte at which the next token starts; the text ends at `stop`. -/
def nextOffset (stop : Nat) : List Token → Nat
  | [] => stop
  | t :: _ => t.offset

/-- The tokens behind the mark `c`, if it comes next. -/
def eat? (c : Char) : List Token → Option (List Token)
  | ⟨.mark d, _⟩ :: rest => if d = c then some rest else none
  | _ => none

/-- The tokens behind the mark `c`, which must come next. -/
def expect (stop : Nat) (c : Char) (tokens : List Token) : Except SyntaxError (List Token) :=
  match eat? c tokens with
  | some rest => .ok rest
  | none => .error (.expectedMark c (nextOffset stop tokens))

def expectWord (stop : Nat) : List Token → Except SyntaxError (List Char × List Token)
  | ⟨.word w, _⟩ :: rest => .ok (w, rest)
  | tokens => .error (.expectedName (nextOffset stop tokens))

/-- The number that must come next, and the closing bracket behind it.  Digits end at the first
other letter, and the bracket is missed there. -/
def expectBound (stop : Nat) : List Token → Except SyntaxError (Nat × List Token)
  | ⟨.word w, offset⟩ :: rest =>
    let digits := w.takeWhile Char.isDigit
    if digits.isEmpty then .error (.expectedNumber offset)
    else
      let n := natOfDigits digits
      if Size.limit < n then .error .numberTooLarge
      else if digits.length < w.length then .error (.expectedMark ']' (offset + digits.length))
      else do
        let rest ← expect stop ']' rest
        return (n, rest)
  | tokens => .error (.expectedNumber (nextOffset stop tokens))

/-- The type of an elementary word such as `uint8` or `bytes32`: letters followed by a size.
Nothing if the word is of another form. -/
def elementary? (word : List Char) : Except SyntaxError (Option Ty) :=
  let stem := String.ofList (word.takeWhile fun c => !c.isDigit)
  let digits := word.dropWhile fun c => !c.isDigit
  if digits.isEmpty then
    if stem = "uint" ∨ stem = "int" ∨ stem = "bytes" ∨ stem = "string" then
      .error (.missingSize stem)
    else .ok none
  else
    let size := natOfDigits digits
    if !digits.all Char.isDigit || Size.limit < size then .ok none
    else if stem = "uint" ∨ stem = "int" then
      if size = 0 ∨ 256 < size ∨ size % 8 ≠ 0 then .error (.integerWidth size)
      else .ok (some (if stem = "uint" then .uint size else .int size))
    else if stem = "bytes" then
      if size = 0 ∨ 32 < size then .error (.fixedBytesSize size)
      else .ok (some (.fixedBytes size))
    else .ok none

mutual

/-- A type at the head of the tokens.  The first number bounds the depth of the recursion. -/
def parseType (stop : Nat) : Nat → List Token → Except SyntaxError (Ty × List Token)
  | 0, _ => .error .tooDeep
  | fuel + 1, tokens => do
    let (base, rest) ← parseBase stop fuel tokens
    parseLengths stop fuel base rest

def parseLengths (stop : Nat) : Nat → Ty → List Token → Except SyntaxError (Ty × List Token)
  | 0, _, _ => .error .tooDeep
  | fuel + 1, elem, tokens =>
    match eat? '[' tokens with
    | none => .ok (elem, tokens)
    | some rest => do
      let (n, rest) ← expectBound stop rest
      parseLengths stop fuel (.array elem n) rest

def parseBase (stop : Nat) : Nat → List Token → Except SyntaxError (Ty × List Token)
  | 0, _ => .error .tooDeep
  | fuel + 1, tokens =>
    match eat? '(' tokens with
    | some rest =>
      match eat? ')' rest with
      | some rest => .ok (.tuple [], rest)
      | none => do
        let (members, rest) ← parseMembers stop fuel rest
        return (.tuple members, rest)
    | none => do
      let (word, rest) ← expectWord stop tokens
      if word = "bool".toList then return (.bool, rest)
      else if word = "address".toList then return (.address, rest)
      else if word = "HashMap".toList then do
        let rest ← expect stop '[' rest
        let (key, rest) ← parseType stop fuel rest
        let rest ← expect stop ',' rest
        let (value, rest) ← parseType stop fuel rest
        let rest ← expect stop ']' rest
        return (.mapping key value, rest)
      else if word = "DynArray".toList then do
        let rest ← expect stop '[' rest
        let (elem, rest) ← parseType stop fuel rest
        let rest ← expect stop ',' rest
        let (bound, rest) ← expectBound stop rest
        return (.dynArray elem bound, rest)
      else if word = "Bytes".toList then do
        let rest ← expect stop '[' rest
        let (bound, rest) ← expectBound stop rest
        return (.bytes bound, rest)
      else if word = "String".toList then do
        let rest ← expect stop '[' rest
        let (bound, rest) ← expectBound stop rest
        return (.string bound, rest)
      else
        match ← elementary? word with
        | some ty => return (ty, rest)
        | none =>
          let name := String.ofList word
          match eat? '\x7b' rest with
          | none => throw (.unknownType name)
          | some rest =>
            match eat? '\x7d' rest with
            | some rest => return (.struct name [], rest)
            | none => do
              let (fields, rest) ← parseFields stop fuel rest
              return (.struct name fields, rest)

def parseMembers (stop : Nat) : Nat → List Token → Except SyntaxError (List Ty × List Token)
  | 0, _ => .error .tooDeep
  | fuel + 1, tokens => do
    let (member, rest) ← parseType stop fuel tokens
    match eat? ')' rest with
    | some rest => return ([member], rest)
    | none => do
      let rest ← expect stop ',' rest
      let (members, rest) ← parseMembers stop fuel rest
      return (member :: members, rest)

def parseFields (stop : Nat) :
    Nat → List Token → Except SyntaxError (List (String × Ty) × List Token)
  | 0, _ => .error .tooDeep
  | fuel + 1, tokens => do
    let (name, rest) ← expectWord stop tokens
    let rest ← expect stop ':' rest
    let (member, rest) ← parseType stop fuel rest
    match eat? '\x7d' rest with
    | some rest => return ([(String.ofList name, member)], rest)
    | none => do
      let rest ← expect stop ',' rest
      let (fields, rest) ← parseFields stop fuel rest
      return ((String.ofList name, member) :: fields, rest)

end

/-- A type that takes up all tokens of a text that ends at byte `stop`.  Each token costs at most
three steps of depth. -/
def parseTokens (stop : Nat) (tokens : List Token) : Except SyntaxError Ty := do
  let (ty, rest) ← parseType stop (3 * tokens.length + 3) tokens
  match rest with
  | [] => return ty
  | t :: _ => throw (.trailing t.offset)

def parse (s : String) : Except ParseError Ty :=
  match parseTokens s.utf8ByteSize (tokens s) with
  | .ok ty => .ok ty
  | .error reason => .error ⟨s, reason⟩

end EvmInspect.Ty
