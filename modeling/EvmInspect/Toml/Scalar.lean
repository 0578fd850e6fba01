import EvmInspect.Toml.Basic
/-!
# Unquoted TOML values

Truth values, numbers, dates and times.  Underscores may stand between digits, and numbers have no
leading zeros.
-/

namespace EvmInspect.Toml

/-- Digits in which each underscore stands between two of them; the digits alone. -/
def groupedDigits? (isDigit : Char → Bool) : List Char → Option (List Char)
  | [] => none
  | [c] => if isDigit c then some [c] else none
  | c :: '_' :: rest => if isDigit c then (groupedDigits? isDigit rest).map (c :: ·) else none
  | c :: rest => if isDigit c then (groupedDigits? isDigit rest).map (c :: ·) else none

def digitValue (c : Char) : Nat :=
  if c.isDigit then c.toNat - 48 else if c.isLower then c.toNat - 87 else c.toNat - 55

def valueOf (base : Nat) (digits : List Char) : Nat :=
  digits.foldl (fun n c => base * n + digitValue c) 0

def isHexDigit (c : Char) : Bool :=
  c.isDigit || ('a' ≤ c && c ≤ 'f') || ('A' ≤ c && c ≤ 'F')

def splitSign : List Char → Option Char × List Char
  | '+' :: rest => (some '+', rest)
  | '-' :: rest => (some '-', rest)
  | s => (none, s)

def decimal? (s : List Char) : Option (List Char) := do
  let digits ← groupedDigits? Char.isDigit s
  if digits.head? = some '0' ∧ 1 < digits.length then none else some digits

def inRange? (n : Int) : Option Toml :=
  if -9223372036854775808 ≤ n ∧ n ≤ 9223372036854775807 then some (.integer n) else none

/-- The integer that a text is. -/
def integer? (s : List Char) : Option Toml :=
  match s with
  | '0' :: 'x' :: rest => (groupedDigits? isHexDigit rest).bind fun d => inRange? (valueOf 16 d)
  | '0' :: 'o' :: rest =>
    (groupedDigits? (fun c => '0' ≤ c && c ≤ '7') rest).bind fun d => inRange? (valueOf 8 d)
  | '0' :: 'b' :: rest =>
    (groupedDigits? (fun c => c == '0' || c == '1') rest).bind fun d => inRange? (valueOf 2 d)
  | s =>
    let (sign, digits) := splitSign s
    (decimal? digits).bind fun d =>
      let n : Int := valueOf 10 d
      inRange? (if sign = some '-' then -n else n)

def isExponent (s : List Char) : Bool :=
  (groupedDigits? Char.isDigit (splitSign s).2).isSome

def isExponentMark (c : Char) : Bool := c == 'e' || c == 'E'

/-- A text is a number with a fraction or an exponent, or no finite number. -/
def isFloat (s : List Char) : Bool :=
  let body := (splitSign s).2
  if body = ['i', 'n', 'f'] ∨ body = ['n', 'a', 'n'] then true
  else
    let mantissa := body.takeWhile fun c => !isExponentMark c
    let exponent := body.dropWhile fun c => !isExponentMark c
    let whole := mantissa.takeWhile fun c => c != '.'
    let fraction := mantissa.dropWhile fun c => c != '.'
    let fractionGood := match fraction with
      | [] => true
      | _ :: digits => (groupedDigits? Char.isDigit digits).isSome
    let exponentGood := match exponent with
      | [] => true
      | _ :: rest => isExponent rest
    (decimal? whole).isSome && fractionGood && exponentGood &&
      !(fraction.isEmpty && exponent.isEmpty)

/-- The number of exactly `count` digits at the start of a text, and the rest. -/
def digits? (count : Nat) (s : List Char) : Option (Nat × List Char) :=
  let digits := s.take count
  if digits.length = count ∧ digits.all Char.isDigit then some (valueOf 10 digits, s.drop count)
  else none

def after? (c : Char) : List Char → Option (List Char)
  | d :: rest => if d = c then some rest else none
  | [] => none

def daysIn (year month : Nat) : Nat :=
  if month = 2 then
    if year % 4 = 0 ∧ (year % 100 ≠ 0 ∨ year % 400 = 0) then 29 else 28
  else if month = 4 ∨ month = 6 ∨ month = 9 ∨ month = 11 then 30
  else 31

def date? (s : List Char) : Option (List Char) := do
  let (year, s) ← digits? 4 s
  let s ← after? '-' s
  let (month, s) ← digits? 2 s
  let s ← after? '-' s
  let (day, s) ← digits? 2 s
  if 1 ≤ month ∧ month ≤ 12 ∧ 1 ≤ day ∧ day ≤ daysIn year month then some s else none

def afterFraction? : List Char → Option (List Char)
  | '.' :: rest =>
    if (rest.takeWhile Char.isDigit).isEmpty then none else some (rest.dropWhile Char.isDigit)
  | s => some s

def afterSeconds? : List Char → Option (List Char)
  | ':' :: rest => do
    let (second, s) ← digits? 2 rest
    if second ≤ 60 then afterFraction? s else none
  | s => some s

def time? (s : List Char) : Option (List Char) := do
  let (hour, s) ← digits? 2 s
  let s ← after? ':' s
  let (minute, s) ← digits? 2 s
  if hour ≤ 23 ∧ minute ≤ 59 then afterSeconds? s else none

/-- A text is a distance from universal time, or nothing. -/
def isZone : List Char → Bool
  | [] => true
  | ['Z'] => true
  | ['z'] => true
  | c :: rest =>
    (c == '+' || c == '-') &&
      (match digits? 2 rest with
        | some (hour, ':' :: rest) =>
          match digits? 2 rest with
          | some (minute, []) => hour ≤ 23 && minute ≤ 59
          | _ => false
        | _ => false)

def isMoment (s : List Char) : Bool :=
  match date? s with
  | some [] => true
  | some (c :: rest) =>
    (c == 'T' || c == 't' || c == ' ') &&
      (match time? rest with
        | some zone => isZone zone
        | none => false)
  | none => time? s == some []

def scalar? (s : List Char) : Option Toml :=
  if s = "true".toList then some (.boolean true)
  else if s = "false".toList then some (.boolean false)
  else if isMoment s then some (.moment (String.ofList s))
  else if isFloat s then some (.float (String.ofList s))
  else integer? s

end EvmInspect.Toml
