import EvmInspect.Hex
import EvmInspect.Text.Hidden
/-!
# Quoted text

Text in messages and renderings stands between double quotes.  The quote and the backslash are
escaped, and so is whatever a reader would not see as itself.
-/

namespace EvmInspect.Text

def escape (c : Char) : List Char :=
  if c = '"' then ['\\', '"']
  else if c = '\\' then ['\\', '\\']
  else if c = '\n' then ['\\', 'n']
  else if c = '\r' then ['\\', 'r']
  else if c = '\t' then ['\\', 't']
  else if c = '\x00' then ['\\', '0']
  else if isHidden c then '\\' :: 'u' :: '\x7b' :: (Nat.toDigits 16 c.toNat ++ ['\x7d'])
  else [c]

def quote (s : String) : String :=
  String.ofList ('"' :: (s.toList.flatMap escape ++ ['"']))

end EvmInspect.Text
