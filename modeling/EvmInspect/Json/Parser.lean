import EvmInspect.Hex
import EvmInspect.Json.Basic
/-!
# Reading JSON

The grammar is the standard one: four blanks, no comments, no trailing commas, no leading zeros and
no raw control characters in text.  Half of a surrogate pair in an escape is part of the grammar but
of no Unicode text.
-/

namespace EvmInspect.Json

def isBlank (c : Char) : Bool := c == ' ' || c == '\n' || c == '\t' || c == '\r'

def skipBlanks (s : List Char) : List Char := s.dropWhile isBlank

def eatWord? : (word s : List Char) → Option (List Char)
  | [], s => some s
  | _ :: _, [] => none
  | w :: word, c :: s => if w = c then eatWord? word s else none

def codeUnit? : List Char → Option (Nat × List Char)
  | a :: b :: c :: d :: rest => do
    let a ← Hex.digit? a
    let b ← Hex.digit? b
    let c ← Hex.digit? c
    let d ← Hex.digit? d
    return (4096 * a + 256 * b + 16 * c + d, rest)
  | _ => none

/-- The second half of a surrogate pair at the start of a text, as an escape. -/
def lowSurrogate? (s : List Char) : Option (Nat × List Char) := do
  let rest ← eatWord? ['\\', 'u'] s
  let (low, rest) ← codeUnit? rest
  if 0xDC00 ≤ low ∧ low ≤ 0xDFFF then return (low - 0xDC00, rest) else none

/-- Character of an escape behind its `\u`: one code unit, or two that make a surrogate pair.  Half
of a pair is no character. -/
def unicodeEscape? (s : List Char) : Option (Option Char × List Char) := do
  let (unit, rest) ← codeUnit? s
  if 0xD800 ≤ unit ∧ unit ≤ 0xDBFF then
    match lowSurrogate? rest with
    | some (low, rest) => return (some (Char.ofNat (0x10000 + (unit - 0xD800) * 0x400 + low)), rest)
    | none => return (none, rest)
  else if 0xDC00 ≤ unit ∧ unit ≤ 0xDFFF then return (none, rest)
  else return (some (Char.ofNat unit), rest)

def escape? : List Char → Option (Option Char × List Char)
  | '"' :: rest => some (some '"', rest)
  | '\\' :: rest => some (some '\\', rest)
  | '/' :: rest => some (some '/', rest)
  | 'b' :: rest => some (some (Char.ofNat 8), rest)
  | 'f' :: rest => some (some (Char.ofNat 12), rest)
  | 'n' :: rest => some (some '\n', rest)
  | 'r' :: rest => some (some '\r', rest)
  | 't' :: rest => some (some '\t', rest)
  | 'u' :: rest => unicodeEscape? rest
  | _ => none

/-- Text behind its opening quote, if all of it are characters, and what follows the closing one.
The letters read so far are held in reverse; the first number bounds the letters to come. -/
def textFrom : Nat → Option (List Char) → List Char → Option (Option String × List Char)
  | 0, _, _ => none
  | _ + 1, _, [] => none
  | fuel + 1, letters, c :: rest =>
    if c = '"' then some (letters.map fun letters => String.ofList letters.reverse, rest)
    else if c = '\\' then
      match escape? rest with
      | some (some c, rest) => textFrom fuel (letters.map (c :: ·)) rest
      | some (none, rest) => textFrom fuel none rest
      | none => none
    else if c.toNat < 32 then none
    else textFrom fuel (letters.map (c :: ·)) rest

def text? (s : List Char) : Option (Option String × List Char) :=
  textFrom (s.length + 1) (some []) s

def written (s rest : List Char) : String := String.ofList (s.take (s.length - rest.length))

def natOfDigits (digits : List Char) : Nat :=
  digits.foldl (fun n c => 10 * n + (c.toNat - 48)) 0

/-- The fraction at the start, with its point: empty if there is none, an error if it has no
digits. -/
def fraction? : List Char → Option (List Char × List Char)
  | '.' :: rest =>
    let digits := rest.takeWhile Char.isDigit
    if digits.isEmpty then none else some ('.' :: digits, rest.dropWhile Char.isDigit)
  | s => some ([], s)

def exponentSign : List Char → List Char × List Char
  | '+' :: rest => (['+'], rest)
  | '-' :: rest => (['-'], rest)
  | s => ([], s)

def exponent? : List Char → Option (List Char × List Char)
  | [] => some ([], [])
  | c :: rest =>
    if c = 'e' ∨ c = 'E' then
      let (sign, rest) := exponentSign rest
      let digits := rest.takeWhile Char.isDigit
      if digits.isEmpty then none
      else some (c :: (sign ++ digits), rest.dropWhile Char.isDigit)
    else some ([], c :: rest)

/-- Number without its sign, and the rest.  A negative zero is no integer. -/
def number? (negative : Bool) (s : List Char) : Option (Json × List Char) := do
  let digits := s.takeWhile Char.isDigit
  let rest := s.dropWhile Char.isDigit
  if digits.isEmpty then none
  else if digits.head? = some '0' ∧ 1 < digits.length then none
  else
    let (fraction, rest) ← fraction? rest
    let (exponent, rest) ← exponent? rest
    let n := natOfDigits digits
    if fraction.isEmpty ∧ exponent.isEmpty ∧ ¬(negative ∧ n = 0) then
      return (.int (if negative then -(n : Int) else n), rest)
    else
      let sign := if negative then ['-'] else []
      return (.foreign (String.ofList (sign ++ digits ++ fraction ++ exponent)), rest)

def entryOf? (key : Option String) (value : Json) (entries : Option (List (String × Json))) :
    Option (List (String × Json)) := do
  return (← key, value) :: (← entries)

mutual

/-- Document at the start of a text, and the rest.  The first number bounds the recursion. -/
def value? : Nat → List Char → Option (Json × List Char)
  | 0, _ => none
  | fuel + 1, s =>
    match skipBlanks s with
    | [] => none
    | c :: rest =>
      if c = '"' then
        match text? rest with
        | some (some text, after) => some (.string text, after)
        | some (none, after) => some (.foreign (written (c :: rest) after), after)
        | none => none
      else if c = '[' then
        match skipBlanks rest with
        | ']' :: rest => some (.array [], rest)
        | rest => (items? fuel rest).map fun p => (.array p.1, p.2)
      else if c = '\x7b' then
        match skipBlanks rest with
        | '\x7d' :: rest => some (.object [], rest)
        | first =>
          match entries? fuel first with
          | some (some entries, after) => some (.object entries, after)
          | some (none, after) => some (.foreign (written (c :: rest) after), after)
          | none => none
      else if c = 't' then (eatWord? ['r', 'u', 'e'] rest).map fun rest => (.bool true, rest)
      else if c = 'f' then (eatWord? ['a', 'l', 's', 'e'] rest).map fun rest => (.bool false, rest)
      else if c = 'n' then (eatWord? ['u', 'l', 'l'] rest).map fun rest => (.null, rest)
      else if c = '-' then number? true rest
      else number? false (c :: rest)

def items? : Nat → List Char → Option (List Json × List Char)
  | 0, _ => none
  | fuel + 1, s => do
    let (item, rest) ← value? fuel s
    match skipBlanks rest with
    | ']' :: rest => some ([item], rest)
    | ',' :: rest => do
      let (items, rest) ← items? fuel rest
      return (item :: items, rest)
    | _ => none

def entries? : Nat → List Char → Option (Option (List (String × Json)) × List Char)
  | 0, _ => none
  | fuel + 1, s =>
    match skipBlanks s with
    | '"' :: rest => do
      let (key, rest) ← text? rest
      match skipBlanks rest with
      | ':' :: rest => do
        let (value, rest) ← value? fuel rest
        match skipBlanks rest with
        | '\x7d' :: rest => some (key.map fun key => [(key, value)], rest)
        | ',' :: rest => do
          let (entries, rest) ← entries? fuel rest
          return (entryOf? key value entries, rest)
        | _ => none
      | _ => none
    | _ => none

end

/-- The document that a whole text is, if it is one.  Each character costs at most two steps of
depth. -/
def parse (s : String) : Option Json :=
  let s := s.toList
  match value? (2 * s.length + 2) s with
  | some (j, rest) => if (skipBlanks rest).isEmpty then some j else none
  | none => none

end EvmInspect.Json
