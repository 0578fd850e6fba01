import EvmInspect.Failure.Detail
import EvmInspect.Value.Tagged
/-!
# Tagged forms of failures

Everything that is known about a failure, as JSON, with the texts in which it is shown.
-/

namespace EvmInspect

def VmError.tagged : VmError → Json
  | .revert output => .object [("revert", .ofBytes output)]
  | .halt reason => .object [("halt", .string reason.name)]

def Listing.taggedLocals (l : Listing Declared) : Json :=
  .object
    [("owner", .string l.owner), ("entries", l.tagged Declared.tagged),
     ("display", .string (l.text Declared.text))]

def Attribution.tagged (s : Attribution) : Json :=
  .object
    [("node", s.node.toJson), ("function", .ofOption .string s.function),
     ("in_user_check", .bool s.inCheck), ("excerpt", .string s.excerpt)]

def FailureDetail.tagged (d : FailureDetail) : Json :=
  .object
    [("address", .ofAddress d.address), ("vm_error", d.error.tagged),
     ("vm_reason", .string d.error.text), ("contract_repr", .string d.contract),
     ("error_detail", .ofOption .string d.detail),
     ("dev_reason", .ofOption (fun r => .strings [r.kind, r.text]) d.remark),
     ("locals", .ofOption Listing.taggedLocals d.locals),
     ("source", .ofOption Attribution.tagged d.source), ("display", .string d.text)]

def Backtrace.tagged (b : Backtrace) : Json :=
  .object
    [("frames", .array (b.frames.map FailureDetail.tagged)),
     ("innermost", .ofOption (fun d => .ofAddress d.address) b.innermost?),
     ("outermost", .ofOption (fun d => .ofAddress d.address) b.outermost?),
     ("display", .string b.text)]

end EvmInspect
