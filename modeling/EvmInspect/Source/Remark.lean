import EvmInspect.Text.Lines
import EvmInspect.Text.WordChar
/-!
# Remarks

A comment of the form `# kind: text` on a line says why the line may fail.
-/

namespace EvmInspect

/-- A developer's word on why a line may fail. -/
structure Remark where
  /-- What kind of word it is. -/
  kind : String
  text : String
deriving DecidableEq, Repr, Inhabited

namespace Remark

def display (a : Remark) : String := s!"<{a.kind}: {a.text}>"

/-- What follows the first `#` outside of string literals.  The quote of an open literal is given,
and whether the next character is escaped in it. -/
def commentFrom : (quote : Option Char) → (escaped : Bool) → List Char → Option (List Char)
  | _, _, [] => none
  | some q, escaped, c :: rest =>
    if escaped then commentFrom (some q) false rest
    else if c = '\\' then commentFrom (some q) true rest
    else if c = q then commentFrom none false rest
    else commentFrom (some q) false rest
  | none, escaped, c :: rest =>
    if c = '"' ∨ c = '\x27' then commentFrom (some c) escaped rest
    else if c = '#' then some rest
    else commentFrom none escaped rest

def comment? (line : List Char) : Option (List Char) := commentFrom none false line

/-- The remark that a comment is: a word, a colon and a text, with blanks around each. -/
def ofComment? (comment : List Char) : Option Remark :=
  let s := Text.trimStart comment
  let kind := s.takeWhile Text.isWordLetter
  match Text.trimStart (s.dropWhile Text.isWordLetter) with
  | ':' :: rest =>
    let text := Text.trim rest
    if kind.isEmpty ∨ text.isEmpty then none
    else some ⟨String.ofList kind, String.ofList text⟩
  | _ => none

def ofLine? (line : List Char) : Option Remark := (comment? line).bind ofComment?

/-- The first remark on the lines from `first` to `last`, counted from 1. -/
def find? (source : String) (first last : Nat) : Option Remark :=
  let skipped := max first 1 - 1
  let lines := ((Text.lines source.toList).drop skipped).take (max last first - skipped)
  lines.findSome? ofLine?

end Remark

end EvmInspect
