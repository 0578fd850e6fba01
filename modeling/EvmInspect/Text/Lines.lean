import EvmInspect.Text.Blank
/-!
# Lines

A text is cut at its line feeds.  A carriage return right before a line feed belongs to the line
end; a line that the text's end closes keeps it, and no empty line follows the last line feed.
-/

namespace EvmInspect.Text

def dropReturn (line : List Char) : List Char :=
  if line.getLast? = some '\r' then line.dropLast else line

/-- Lines of a text, behind the letters `line` of an unfinished line. -/
def linesFrom (line : List Char) : List Char → List (List Char)
  | [] => if line.isEmpty then [] else [line]
  | c :: rest =>
    if c = '\n' then dropReturn line :: linesFrom [] rest else linesFrom (line ++ [c]) rest

def lines (s : List Char) : List (List Char) := linesFrom [] s

end EvmInspect.Text
