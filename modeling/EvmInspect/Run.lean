/-!
# Runs that may stop

Where a sum is too large for a machine word, no buffer can be large enough or a range ends behind
its bytes, the program stops.  It gives nothing then, not even a failure.
-/

namespace EvmInspect

/-- What a program gives, if it does not stop. -/
abbrev Run (α : Type) := Option α

/-- What a program that may fail gives, if it does not stop. -/
abbrev Guarded (ε : Type) := ExceptT ε Option

namespace Guarded

variable {ε α : Type}

def of (x : Except ε α) : Guarded ε α := ExceptT.mk (some x)

def ofRun (x : Run α) : Guarded ε α := ExceptT.mk (x.map .ok)

end Guarded

end EvmInspect
