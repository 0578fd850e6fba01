import EvmInspect.Toml.Scalar
/-!
# Reading TOML

The grammar of TOML 1.1: tables in braces may go over several lines and end in a comma, seconds may
be left out, and text knows two more escapes.
-/

namespace EvmInspect.Toml

def isSpace (c : Char) : Bool := c == ' ' || c == '\t'

def skipSpaces (s : List Char) : List Char := s.dropWhile isSpace

/-- The character may stand in a comment or in text: controls other than the tabulator may not. -/
def isPlain (c : Char) : Bool := c == '\t' || (32 ≤ c.toNat && c.toNat != 127)

def skipComment : List Char → List Char
  | '#' :: rest => rest.dropWhile isPlain
  | s => s

def newline? : List Char → Option (List Char)
  | '\n' :: rest => some rest
  | '\r' :: '\n' :: rest => some rest
  | _ => none

/-- The text behind the end of a line, or nothing more at the end of the document. -/
def lineEnd? (s : List Char) : Option (List Char) :=
  match skipComment (skipSpaces s) with
  | [] => some []
  | s => newline? s

/-- The text behind blanks, comments and line breaks.  The first number bounds the lines. -/
def skipLines : Nat → List Char → List Char
  | 0, s => s
  | fuel + 1, s =>
    let rest := skipComment (skipSpaces s)
    match newline? rest with
    | some rest => skipLines fuel rest
    | none => rest

def skipBlank (s : List Char) : List Char := skipLines (s.length + 1) s

def codePoint? (count : Nat) (s : List Char) : Option (Char × List Char) :=
  let digits := s.take count
  if digits.length = count ∧ digits.all isHexDigit then
    let n := valueOf 16 digits
    if n.isValidChar then some (Char.ofNat n, s.drop count) else none
  else none

def escape? : List Char → Option (Char × List Char)
  | 'b' :: rest => some (Char.ofNat 8, rest)
  | 't' :: rest => some ('\t', rest)
  | 'n' :: rest => some ('\n', rest)
  | 'f' :: rest => some (Char.ofNat 12, rest)
  | 'r' :: rest => some ('\r', rest)
  | 'e' :: rest => some (Char.ofNat 27, rest)
  | '"' :: rest => some ('"', rest)
  | '\\' :: rest => some ('\\', rest)
  | 'x' :: rest => codePoint? 2 rest
  | 'u' :: rest => codePoint? 4 rest
  | 'U' :: rest => codePoint? 8 rest
  | _ => none

/-- Text up to its closing quote, behind its opening one.  The letters read so far are held in
reverse; the first number bounds the letters to come. -/
def basic? : Nat → List Char → List Char → Option (List Char × List Char)
  | 0, _, _ => none
  | _ + 1, _, [] => none
  | fuel + 1, letters, c :: rest =>
    if c = '"' then some (letters.reverse, rest)
    else if c = '\\' then
      match escape? rest with
      | some (c, rest) => basic? fuel (c :: letters) rest
      | none => none
    else if isPlain c then basic? fuel (c :: letters) rest
    else none

def literal? (s : List Char) : Option (List Char × List Char) :=
  let letters := s.takeWhile fun c => isPlain c && c != '\x27'
  match s.dropWhile fun c => isPlain c && c != '\x27' with
  | '\x27' :: rest => some (letters, rest)
  | _ => none

def skipWhite (s : List Char) : List Char :=
  s.dropWhile fun c => isSpace c || c == '\n' || c == '\r'

/-- The text behind a backslash at the end of a line, and behind the blanks that follow. -/
def continuedLine? (s : List Char) : Option (List Char) :=
  (newline? (skipSpaces s)).map skipWhite

/-- Behind the quotes that close a text of several lines: up to two more belong to the text. -/
def closing (quote : Char) (letters : List Char) : List Char → List Char × List Char
  | a :: b :: rest =>
    if a = quote ∧ b = quote then ((b :: a :: letters).reverse, rest)
    else if a = quote then ((a :: letters).reverse, b :: rest)
    else (letters.reverse, a :: b :: rest)
  | [a] => if a = quote then ((a :: letters).reverse, []) else (letters.reverse, [a])
  | [] => (letters.reverse, [])

/-- Text of several lines up to its closing quotes.  Only between double quotes there are
escapes. -/
def multiline? (quote : Char) : Nat → List Char → List Char → Option (List Char × List Char)
  | 0, _, _ => none
  | _ + 1, _, [] => none
  | fuel + 1, letters, c :: rest =>
    if [c] ++ rest.take 2 = [quote, quote, quote] then
      some (closing quote letters (rest.drop 2))
    else if c = '\\' ∧ quote = '"' then
      match continuedLine? rest with
      | some rest => multiline? quote fuel letters rest
      | none =>
        match escape? rest with
        | some (c, rest) => multiline? quote fuel (c :: letters) rest
        | none => none
    else
      match newline? (c :: rest) with
      | some rest => multiline? quote fuel ('\n' :: letters) rest
      | none => if isPlain c then multiline? quote fuel (c :: letters) rest else none

def dropFirstBreak (s : List Char) : List Char := (newline? s).getD s

def text? : List Char → Option (List Char × List Char)
  | '"' :: '"' :: '"' :: rest =>
    multiline? '"' (rest.length + 1) [] (dropFirstBreak rest)
  | '"' :: rest => basic? (rest.length + 1) [] rest
  | '\x27' :: '\x27' :: '\x27' :: rest =>
    multiline? '\x27' (rest.length + 1) [] (dropFirstBreak rest)
  | '\x27' :: rest => literal? rest
  | _ => none

def isKeyChar (c : Char) : Bool := c.isAlphanum || c == '_' || c == '-'

def keyPart? (s : List Char) : Option (String × List Char) :=
  match s with
  | '"' :: rest => (basic? (rest.length + 1) [] rest).map fun p => (String.ofList p.1, p.2)
  | '\x27' :: rest => (literal? rest).map fun p => (String.ofList p.1, p.2)
  | s =>
    let part := s.takeWhile isKeyChar
    if part.isEmpty then none else some (String.ofList part, s.dropWhile isKeyChar)

/-- A key at the start: its parts in front of the last one, the last one, and the rest.  The first
number bounds the parts. -/
def key? : Nat → List Char → Option (List String × String × List Char)
  | 0, _ => none
  | fuel + 1, s => do
    let (part, rest) ← keyPart? s
    match skipSpaces rest with
    | '.' :: rest => do
      let (path, last, rest) ← key? fuel (skipSpaces rest)
      return (part :: path, last, rest)
    | _ => return ([], part, rest)

def isScalarChar (c : Char) : Bool :=
  c.isAlphanum || c == '+' || c == '-' || c == '_' || c == '.' || c == ':'

/-- The unquoted value at the start, and the rest.  A blank may stand between a date and a time. -/
def unquoted? (s : List Char) : Option (Toml × List Char) :=
  let word := s.takeWhile isScalarChar
  let rest := s.dropWhile isScalarChar
  match rest with
  | ' ' :: c :: more =>
    if date? word = some [] ∧ c.isDigit then
      let time := (c :: more).takeWhile isScalarChar
      (scalar? (word ++ ' ' :: time)).map fun v => (v, (c :: more).dropWhile isScalarChar)
    else (scalar? word).map fun v => (v, rest)
  | _ => (scalar? word).map fun v => (v, rest)

def depthLimit : Nat := 80

mutual

/-- The value at the start of a text inside `depth` others, and the rest.  The first number bounds
the recursion. -/
def value? (depth : Nat) : Nat → List Char → Option (Toml × List Char)
  | 0, _ => none
  | fuel + 1, s =>
    match s with
    | '[' :: rest =>
      if depth < depthLimit then
        (items? (depth + 1) fuel (skipBlank rest)).map fun p => (.array p.1, p.2)
      else none
    | '\x7b' :: rest =>
      if depth < depthLimit then
        (pairs? (depth + 1) fuel (.inline, []) (skipBlank rest)).map fun p =>
          (.table .inline p.1, p.2)
      else none
    | '"' :: _ | '\x27' :: _ => (text? s).map fun p => (.string (String.ofList p.1), p.2)
    | s => unquoted? s

def items? (depth : Nat) : Nat → List Char → Option (List Toml × List Char)
  | 0, _ => none
  | _ + 1, ']' :: rest => some ([], rest)
  | fuel + 1, s => do
    let (item, rest) ← value? depth fuel s
    match skipBlank rest with
    | ',' :: rest => do
      let (items, rest) ← items? depth fuel (skipBlank rest)
      return (item :: items, rest)
    | ']' :: rest => return ([item], rest)
    | _ => none

def pairs? (depth : Nat) : Nat → Open → List Char → Option (List (String × Toml) × List Char)
  | 0, _, _ => none
  | _ + 1, t, '\x7d' :: rest => some (t.2, rest)
  | fuel + 1, t, s => do
    let (path, key, rest) ← key? (s.length + 1) s
    let rest ← after? '=' (skipSpaces rest)
    let (value, rest) ← value? depth fuel (skipSpaces rest)
    let t ← setPair path key value t
    match skipBlank rest with
    | ',' :: rest => pairs? depth fuel t (skipBlank rest)
    | '\x7d' :: rest => return (t.2, rest)
    | _ => none

end

def header? (s : List Char) : Option (Line × List Char) := do
  let (path, key, rest) ← key? (s.length + 1) (skipSpaces s)
  let rest ← after? ']' (skipSpaces rest)
  return (.header path key, rest)

def element? (s : List Char) : Option (Line × List Char) := do
  let (path, key, rest) ← key? (s.length + 1) (skipSpaces s)
  let rest ← after? ']' (skipSpaces rest)
  let rest ← after? ']' rest
  return (.element path key, rest)

def pair? (s : List Char) : Option (Line × List Char) := do
  let (path, key, rest) ← key? (s.length + 1) s
  let rest ← after? '=' (skipSpaces rest)
  let rest := skipSpaces rest
  let (value, rest) ← value? 0 (2 * rest.length + 2) rest
  return (.pair path key value, rest)

def line? : List Char → Option (Line × List Char)
  | '[' :: '[' :: rest => element? rest
  | '[' :: rest => header? rest
  | s => pair? s

def lines? : Nat → List Char → Option (List Line)
  | 0, _ => none
  | fuel + 1, s =>
    match skipBlank s with
    | [] => some []
    | s => do
      let (line, rest) ← line? s
      let rest ← lineEnd? rest
      let lines ← lines? fuel rest
      return line :: lines

def dropMark : List Char → List Char
  | '\uFEFF' :: rest => rest
  | s => s

def parse? (s : String) : Option (List (String × Toml)) := do
  let s := dropMark s.toList
  let lines ← lines? (s.length + 1) s
  ofLines lines

end EvmInspect.Toml
