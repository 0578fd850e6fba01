/-!
# Text as bytes

Text is carried by call data, memory and storage as the bytes of its characters.
-/

namespace EvmInspect.Text

def toUtf8 (s : String) : List UInt8 := s.toByteArray.data.toList

def ofUtf8? (bytes : List UInt8) : Option String :=
  let array : ByteArray := ⟨bytes.toArray⟩
  if h : array.IsValidUTF8 then some (String.ofByteArray array h) else none

/-- What the first byte of a character says: how many bytes follow, and between which bounds the
next one lies.  Nothing if no character starts with it. -/
def lead? (b : UInt8) : Option (Nat × Nat × Nat) :=
  let n := b.toNat
  if n < 0x80 then some (0, 0x80, 0xBF)
  else if n < 0xC2 then none
  else if n < 0xE0 then some (1, 0x80, 0xBF)
  else if n = 0xE0 then some (2, 0xA0, 0xBF)
  else if n = 0xED then some (2, 0x80, 0x9F)
  else if n < 0xF0 then some (2, 0x80, 0xBF)
  else if n = 0xF0 then some (3, 0x90, 0xBF)
  else if n < 0xF4 then some (3, 0x80, 0xBF)
  else if n = 0xF4 then some (3, 0x80, 0x8F)
  else none

/-- The longest start of `bytes` with at most `count` bytes that can continue a character: the next
byte lies between the bounds, and each further one has the form of a continuation. -/
def continuation : (count low high : Nat) → List UInt8 → List UInt8
  | 0, _, _, _ => []
  | _ + 1, _, _, [] => []
  | count + 1, low, high, b :: rest =>
    if low ≤ b.toNat ∧ b.toNat ≤ high then b :: continuation count 0x80 0xBF rest else []

def codePoint (first : UInt8) (rest : List UInt8) : Nat :=
  let bits := match rest.length with
    | 0 => first.toNat
    | 1 => first.toNat - 0xC0
    | 2 => first.toNat - 0xE0
    | _ => first.toNat - 0xF0
  rest.foldl (fun n b => 64 * n + (b.toNat - 0x80)) bits

/-- Characters of bytes of which some may be malformed: each longest start of a character that
breaks off, and each byte that starts none, is replaced by the replacement character.  The first
number bounds the characters. -/
def replaceFrom : Nat → List UInt8 → List Char
  | 0, _ => []
  | _ + 1, [] => []
  | fuel + 1, b :: rest =>
    match lead? b with
    | none => '\uFFFD' :: replaceFrom fuel rest
    | some (count, low, high) =>
      let more := continuation count low high rest
      let c := if more.length = count then Char.ofNat (codePoint b more) else '\uFFFD'
      c :: replaceFrom fuel (rest.drop more.length)

def ofUtf8Replacing (bytes : List UInt8) : String :=
  match ofUtf8? bytes with
  | some s => s
  | none => String.ofList (replaceFrom bytes.length bytes)

end EvmInspect.Text
