import EvmInspect.Word
/-!
# Values

Decoded values.  A value knows the shape that the call interface gives it (the width of an integer,
the size of a fixed byte string) and nothing of what the source declares about it.
-/

namespace EvmInspect

inductive Value where
  | bool (b : Bool)
  /-- Signed integer in two's complement, said to have `bits` bits. -/
  | int (word : Word) (bits : Nat)
  /-- Unsigned integer, said to have `bits` bits. -/
  | uint (word : Word) (bits : Nat)
  | address (a : Address)
  | function (f : FunctionPointer)
  /-- The first `size` bytes of `word`. -/
  | fixedBytes (word : Word) (size : Nat)
  | bytes (data : List UInt8)
  | string (s : String)
  | array (items : List Value)
  | fixedArray (items : List Value)
  | tuple (items : List Value)
  | struct (name : String) (fieldNames : List String) (items : List Value)
deriving Repr, Inhabited

namespace Value

mutual

/-- Equality of values, by recursion on the first. -/
def same : Value → Value → Bool
  | .bool a, .bool b => a == b
  | .int v m, .int w n => v == w && m == n
  | .uint v m, .uint w n => v == w && m == n
  | .address a, .address b => a == b
  | .function f, .function g => f == g
  | .fixedBytes v m, .fixedBytes w n => v == w && m == n
  | .bytes a, .bytes b => a == b
  | .string a, .string b => a == b
  | .array vs, .array ws => sameItems vs ws
  | .fixedArray vs, .fixedArray ws => sameItems vs ws
  | .tuple vs, .tuple ws => sameItems vs ws
  | .struct a as vs, .struct b bs ws => a == b && as == bs && sameItems vs ws
  | _, _ => false

def sameItems : List Value → List Value → Bool
  | [], [] => true
  | v :: vs, w :: ws => v.same w && sameItems vs ws
  | _, _ => false

end

mutual

theorem same_self : ∀ v : Value, v.same v = true
  | .bool _ | .int _ _ | .uint _ _ | .address _ | .function _ | .fixedBytes _ _ | .bytes _
  | .string _ => by simp [same]
  | .array vs | .fixedArray vs | .tuple vs | .struct _ _ vs => by simp [same, sameItems_self vs]

theorem sameItems_self : ∀ vs : List Value, sameItems vs vs = true
  | [] => rfl
  | v :: vs => by simp [sameItems, same_self v, sameItems_self vs]

end

mutual

theorem eq_of_same : ∀ {v w : Value}, v.same w = true → v = w
  | .bool _, .bool _, h | .address _, .address _, h | .function _, .function _, h
  | .bytes _, .bytes _, h | .string _, .string _, h => by simpa [same] using h
  | .int _ _, .int _ _, h | .uint _ _, .uint _ _, h | .fixedBytes _ _, .fixedBytes _ _, h => by
    simpa [same] using h
  | .array _, .array _, h | .fixedArray _, .fixedArray _, h | .tuple _, .tuple _, h => by
    simp only [same] at h
    simp [eq_of_sameItems h]
  | .struct _ _ _, .struct _ _ _, h => by
    simp only [same, Bool.and_eq_true, beq_iff_eq] at h
    simp [h.1.1, h.1.2, eq_of_sameItems h.2]

theorem eq_of_sameItems : ∀ {vs ws : List Value}, sameItems vs ws = true → vs = ws
  | [], [], _ => rfl
  | _ :: _, _ :: _, h => by
    simp only [sameItems, Bool.and_eq_true] at h
    simp [eq_of_same h.1, eq_of_sameItems h.2]

end

instance : DecidableEq Value := fun v w =>
  if h : v.same w = true then isTrue (eq_of_same h)
  else isFalse fun e => h (e ▸ same_self v)

mutual

/-- The value is the zero of its type: every word of a static value is zero, and byte strings, texts
and dynamic arrays are empty. -/
def isZero : Value → Bool
  | .bool b => !b
  | .int w _ | .uint w _ | .fixedBytes w _ => w == 0
  | .address a => a == 0
  | .function f => f == 0
  | .bytes data => data.isEmpty
  | .string s => s.isEmpty
  | .array items => items.isEmpty
  | .fixedArray items | .tuple items | .struct _ _ items => allZero items

def allZero : List Value → Bool
  | [] => true
  | v :: vs => v.isZero && allZero vs

end

mutual

/-- Name of the value's type in signatures.  An array takes it from its first element, so that an
empty one has none, and what contains a value without a name has none either; but only the first
element of an array is looked at.  The list of a single member ends in a comma. -/
def typeName? : Value → Option String
  | .bool _ => some "bool"
  | .int _ bits => some s!"int{bits}"
  | .uint _ bits => some s!"uint{bits}"
  | .address _ => some "address"
  | .function _ => some "function"
  | .fixedBytes _ size => some s!"bytes{size}"
  | .bytes _ => some "bytes"
  | .string _ => some "string"
  | .array items => (headTypeName? items).map fun name => name ++ "[]"
  | .fixedArray items => (headTypeName? items).map fun name => s!"{name}[{items.length}]"
  | .tuple items | .struct _ _ items =>
    (typeNames? items).map fun names =>
      "(" ++ ",".intercalate names ++ (if names.length = 1 then ",)" else ")")

def headTypeName? : List Value → Option String
  | [] => none
  | v :: _ => v.typeName?

def typeNames? : List Value → Option (List String)
  | [] => some []
  | v :: vs => v.typeName?.bind fun name => (typeNames? vs).map fun names => name :: names

end

def fixedBytesData (word : Word) (size : Nat) : List UInt8 := word.toBytes.take size

end Value

end EvmInspect
