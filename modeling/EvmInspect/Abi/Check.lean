import EvmInspect.Abi.Type
import EvmInspect.Text.Utf8
import EvmInspect.Word
/-!
# Strict check of encodings

Walks the heads and tails of an encoding along its types and builds no values.  Every offset and
length has to stay inside the region it belongs to, and every word has to be filled up as its type
demands.  Positions in faults count from the start of the whole encoding.
-/

namespace EvmInspect.Abi

inductive Role where
  | offset
  /-- Length of a byte string, text or array. -/
  | length
deriving DecidableEq, Repr

def Role.text : Role → String
  | .offset => "offset"
  | .length => "length"

inductive Fault where
  /-- The data ends before or inside the word at this position. -/
  | shortWord (position : Nat)
  | largeNumber (role : Role) (word : Word) (position : Nat)
  /-- The data ends inside the heads of a sequence. -/
  | shortHead (position needed available : Nat)
  /-- An offset points into the heads of its own sequence. -/
  | offsetIntoHead (offset position head : Nat)
  /-- An offset points behind the data. -/
  | offsetOutside (offset position size : Nat)
  /-- A truth value is neither zero nor one. -/
  | badBool (position : Nat)
  /-- An unsigned integer needs more bits. -/
  | unsignedRange (position bits : Nat)
  /-- A signed integer needs more bits. -/
  | signedRange (position bits : Nat)
  /-- Bytes before an address are set. -/
  | addressPadding (position : Nat)
  /-- Bytes behind a function pointer are set. -/
  | functionPadding (position : Nat)
  /-- Bytes behind a fixed byte string are set. -/
  | fixedBytesPadding (size position : Nat)
  /-- The data ends inside a byte string or text. -/
  | shortData (length position : Nat)
  /-- A text's bytes are not well formed. -/
  | notText (position : Nat)
  /-- An array has more elements than the data can hold. -/
  | arrayTooLong (length position : Nat)
  /-- The sizes of the members of a tuple are too large together for a machine word. -/
  | oversized
deriving DecidableEq, Repr

/-- The program does not report the fault but stops. -/
def Fault.stops : Fault → Bool
  | .oversized => true
  | _ => false

def Fault.message : Fault → String
  | .shortWord position => s!"data too short: need a word at offset {position}"
  | .largeNumber role word position =>
    s!"{role.text} {word.toNat} at offset {position} is too large"
  | .shortHead position needed available =>
    s!"data too short: head at offset {position} needs {needed} bytes, {available} available"
  | .offsetIntoHead offset position head =>
    s!"offset {offset} at {position} points into the head ({head} bytes)"
  | .offsetOutside offset position size =>
    s!"offset {offset} at {position} points outside the data ({size} bytes)"
  | .badBool position => s!"invalid bool at offset {position}"
  | .unsignedRange position bits => s!"value at offset {position} does not fit in uint{bits}"
  | .signedRange position bits => s!"value at offset {position} does not fit in int{bits}"
  | .addressPadding position => s!"dirty address padding at offset {position}"
  | .functionPadding position => s!"dirty function padding at offset {position}"
  | .fixedBytesPadding size position => s!"dirty bytes{size} padding at offset {position}"
  | .shortData length position => s!"data too short: {length} bytes at offset {position}"
  | .notText position => s!"string at offset {position} is not valid UTF-8"
  | .arrayTooLong length position =>
    s!"array length {length} at offset {position} exceeds the remaining data"
  | .oversized => "attempt to add with overflow"

def wordAt (region : List UInt8) (pos base : Nat) : Except Fault (List UInt8) :=
  let word := (region.drop pos).take 32
  if word.length = 32 then .ok word else .error (.shortWord (base + pos))

def numberAt (region : List UInt8) (pos base : Nat) (role : Role) : Except Fault Nat := do
  let word ← wordAt region pos base
  let n := natOfBytes word
  if n ≤ Size.limit then return n else throw (.largeNumber role (Word.ofBytes word) (base + pos))

def allZero (bytes : List UInt8) : Bool := bytes.all (· == 0)

def require (condition : Bool) (fault : Fault) : Except Fault Unit :=
  if condition then .ok () else .error fault

/-- Bytes before the `bits / 8` bytes of a signed integer repeat its sign. -/
def signExtended (word : List UInt8) (bits : Nat) : Bool :=
  let front := word.take (32 - bits / 8)
  let sign : UInt8 := if 128 ≤ (word.getD (32 - bits / 8) 0).toNat then 255 else 0
  front.all (· == sign)

def sized : Run Nat → Except Fault Nat
  | some n => .ok n
  | none => .error .oversized

/-- The region of a dynamic value whose offset stands at `pos` of a sequence with `head` bytes of
heads, and the offset itself. -/
def tailAt (region : List UInt8) (pos base head : Nat) : Except Fault (List UInt8 × Nat) := do
  let offset ← numberAt region pos base .offset
  require (head ≤ offset) (.offsetIntoHead offset (base + pos) head)
  require (offset < region.length) (.offsetOutside offset (base + pos) region.length)
  return (region.drop offset, offset)

def checkCopies (check : Nat → Except Fault Unit) (size : Nat) :
    (n pos : Nat) → Except Fault Unit
  | 0, _ => .ok ()
  | n + 1, pos =>
    match check pos with
    | .ok _ => checkCopies check size n (pos + size)
    | .error e => .error e

/-- Checks one value of a sequence, whose head takes `size` bytes at `pos` of the region, with a
check of values of its type. -/
def checkPlaced (t : AbiType) (size : Nat) (check : List UInt8 → Nat → Except Fault Unit)
    (region : List UInt8) (base head pos : Nat) : Except Fault Unit :=
  if t.isDynamic then
    match tailAt region pos base head with
    | .ok (tail, offset) => check tail (base + offset)
    | .error e => .error e
  else check ((region.drop pos).take size) (base + pos)

mutual

/-- Checks one value whose encoding starts with the region, which starts at `base`. -/
def checkValue : AbiType → (region : List UInt8) → (base : Nat) → Except Fault Unit
  | .bool, region, base => do
    let word ← wordAt region 0 base
    require (natOfBytes word ≤ 1) (.badBool base)
  | .uint bits, region, base => do
    let word ← wordAt region 0 base
    require ((Word.ofBytes word).fitsUnsigned bits) (.unsignedRange base bits)
  | .int bits, region, base => do
    let word ← wordAt region 0 base
    require (signExtended word bits) (.signedRange base bits)
  | .address, region, base => do
    let word ← wordAt region 0 base
    require (allZero (word.take 12)) (.addressPadding base)
  | .function, region, base => do
    let word ← wordAt region 0 base
    require (allZero (word.drop 24)) (.functionPadding base)
  | .fixedBytes n, region, base => do
    let word ← wordAt region 0 base
    require (allZero (word.drop n)) (.fixedBytesPadding n base)
  | .bytes, region, base => do
    let length ← numberAt region 0 base .length
    require (32 + length ≤ region.length) (.shortData length base)
  | .string, region, base => do
    let length ← numberAt region 0 base .length
    require (32 + length ≤ region.length) (.shortData length base)
    require (Text.ofUtf8? ((region.drop 32).take length)).isSome (.notText base)
  | .array elem, region, base => do
    let length ← numberAt region 0 base .length
    let body := region.drop 32
    let size ← sized elem.headSize?
    require (length ≤ body.length / max size 1) (.arrayTooLong length base)
    let head := Size.mul length size
    require (head ≤ body.length) (.shortHead (base + 32) head body.length)
    checkCopies (checkPlaced elem size (checkValue elem) body (base + 32) head) size length 0
  | .fixedArray elem n, region, base => do
    -- without elements nobody asks for the size of one
    let size ← if n = 0 then pure 0 else sized elem.headSize?
    let head := Size.mul n size
    require (head ≤ region.length) (.shortHead base head region.length)
    checkCopies (checkPlaced elem size (checkValue elem) region base head) size n 0
  | .tuple members, region, base => do
    let head ← sized (AbiType.headsSize? members)
    require (head ≤ region.length) (.shortHead base head region.length)
    checkMembers members region base head 0
  | .struct _ _ members, region, base => do
    let head ← sized (AbiType.headsSize? members)
    require (head ≤ region.length) (.shortHead base head region.length)
    checkMembers members region base head 0

def checkMembers : List AbiType → (region : List UInt8) → (base head pos : Nat) →
    Except Fault Unit
  | [], _, _, _, _ => .ok ()
  | t :: ts, region, base, head, pos => do
    let size ← sized t.headSize?
    checkPlaced t size (checkValue t) region base head pos
    checkMembers ts region base head (pos + size)

end

def check (types : List AbiType) (data : List UInt8) : Except Fault Unit :=
  checkValue (.tuple types) data 0

end EvmInspect.Abi
