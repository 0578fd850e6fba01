import EvmInspect.Failure.Detail
/-!
# Expected failures

What a failure is expected to look like: some text that any of its reasons may have, or the reason
of one kind.
-/

namespace EvmInspect

inductive Expectation where
  /-- Any of its reasons has this text. -/
  | any (text : String)
  | compiler (detail : String)
  /-- The source reverts with this text. -/
  | revert (text : String)
  /-- The developer's remark has this kind and this text. -/
  | remark (kind text : String)
deriving DecidableEq, Repr

namespace Expectation

/-- An expectation by a keyword; all but two keywords are kinds of remarks. -/
def keyword (key text : String) : Expectation :=
  if key = "compiler" then .compiler text
  else if key = "vm_error" then .revert text
  else .remark key text

def text : Expectation → String
  | .any s => Text.quote s
  | .compiler detail => s!"<compiler: {detail}>"
  | .revert s => s!"<vm_error: {s}>"
  | .remark kind s => s!"<{kind}: {s}>"

end Expectation

inductive Mismatch where
  /-- There is no frame that failed. -/
  | noFrame
  /-- The remark's kind has another meaning as a keyword. -/
  | reservedKind (kind : String)
  | noReason (text : String)
  | otherText (got expected : String)
  | otherReason (expected : Expectation) (got : String)
deriving DecidableEq, Repr

def Mismatch.message : Mismatch → String
  | .noFrame => "stack trace is empty"
  | .reservedKind kind => s!"developer reason kind \x60{kind}\x60 is reserved"
  | .noReason text => s!"does not match {Text.quote text}"
  | .otherText got expected => s!"{got} != {expected}"
  | .otherReason expected got => s!"expected {expected.text} but got {got}"

namespace FailureDetail

/-- The compiler's word for a source that reverts with a text. -/
def revertWithReason : String := "user revert with reason"

/-- The compiler's words for checks to which a remark may belong. -/
def remarkedChecks : List String := ["user raise", "user assert"]

/-- Kinds of remarks that mean something else as keywords. -/
def reservedKinds : List String := ["vm_error", "compiler"]

def shownDetail (d : FailureDetail) : String := d.detail.getD "None"

def compilerReason (d : FailureDetail) : String := s!"<compiler: {d.shownDetail}>"

def ensure (condition : Bool) (mismatch : Mismatch) : Except Mismatch Unit :=
  if condition then .ok () else .error mismatch

def checkKind (d : FailureDetail) : Except Mismatch Unit :=
  match d.remark with
  | some a => ensure (!reservedKinds.contains a.kind) (.reservedKind a.kind)
  | none => .ok ()

def matchRevert (d : FailureDetail) (text : String) : Except Mismatch Unit := do
  ensure (d.detail == some revertWithReason) (.otherReason (.revert text) d.compilerReason)
  ensure (d.error.text == text) (.otherText d.error.text text)

/-- The remark has a kind and a text.  In a check of the source it counts only if the check
failed itself. -/
def matchRemark (d : FailureDetail) (kind text : String) : Except Mismatch Unit := do
  if d.source.any Attribution.inCheck then
    ensure (d.detail.any remarkedChecks.contains)
      (.otherReason (.remark kind text) d.compilerReason)
  ensure (d.remark == some ⟨kind, text⟩)
    (.otherReason (.remark kind text) ((d.remark.map Remark.display).getD "None"))

def meets (d : FailureDetail) : Expectation → Except Mismatch Unit
  | .any text =>
    ensure (d.error.text == text || d.detail == some text ||
      d.remark.any fun a => a.text == text) (.noReason text)
  | .compiler detail => do
    d.checkKind
    ensure (d.detail == some detail) (.otherText d.shownDetail detail)
  | .revert text => do
    d.checkKind
    d.matchRevert text
  | .remark kind text => do
    d.checkKind
    d.matchRemark kind text

end FailureDetail

def Backtrace.meets (b : Backtrace) (e : Expectation) : Except Mismatch Unit :=
  match b.outermost? with
  | some d => d.meets e
  | none => .error .noFrame

end EvmInspect
