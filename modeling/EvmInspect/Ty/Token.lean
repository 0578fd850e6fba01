import EvmInspect.Text.Blank
/-!
# Tokens of type text

Type text consists of words (runs of ASCII letters, digits and underscores) and of single marks.
Blanks separate tokens and mean nothing else.  Each token knows the byte at which it starts, which
is what messages report.
-/

namespace EvmInspect.Ty

inductive Lexeme where
  /-- A run of letters, digits and underscores. -/
  | word (letters : List Char)
  /-- Any other character that is not blank. -/
  | mark (c : Char)
deriving DecidableEq, Repr

structure Token where
  lexeme : Lexeme
  offset : Nat
deriving DecidableEq, Repr

def isWordChar (c : Char) : Bool := c.isAlphanum || c == '_'

/-- The token of the word read so far, which ends at byte `stop`, if there is one. -/
def Token.ofWord (word : List Char) (stop : Nat) : List Token :=
  if word.isEmpty then [] else [⟨.word word, stop - word.length⟩]

/-- Tokens of a text that starts at byte `offset`, behind the unfinished word `word`. -/
def scan (offset : Nat) (word : List Char) : List Char → List Token
  | [] => Token.ofWord word offset
  | c :: rest =>
    if isWordChar c then scan (offset + 1) (word ++ [c]) rest
    else if Text.isBlank c then
      Token.ofWord word offset ++ scan (offset + c.utf8Size) [] rest
    else
      Token.ofWord word offset ++ ⟨.mark c, offset⟩ :: scan (offset + c.utf8Size) [] rest

def tokens (s : String) : List Token := scan 0 [] s.toList

end EvmInspect.Ty
