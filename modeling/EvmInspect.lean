import EvmInspect.Abi.Check
import EvmInspect.Abi.Codec
import EvmInspect.Abi.Decode
import EvmInspect.Abi.Encode
import EvmInspect.Abi.Signature
import EvmInspect.Abi.Type
import EvmInspect.Address
import EvmInspect.Artifact.Basic
import EvmInspect.Artifact.Interface
import EvmInspect.Artifact.Json
import EvmInspect.Config.Basic
import EvmInspect.Config.Toml
import EvmInspect.Contract.Basic
import EvmInspect.Contract.Call
import EvmInspect.Event
import EvmInspect.Failure.Detail
import EvmInspect.Failure.Expectation
import EvmInspect.Failure.Tagged
import EvmInspect.Hex
import EvmInspect.Inspector.Basic
import EvmInspect.Json.Basic
import EvmInspect.Json.Parser
import EvmInspect.Json.Printer
import EvmInspect.Json.Record
import EvmInspect.Keccak
import EvmInspect.Layout.Decode
import EvmInspect.Layout.Source
import EvmInspect.Listing
import EvmInspect.Proofs.Abi.Accepted
import EvmInspect.Proofs.Abi.Agree
import EvmInspect.Proofs.Abi.CallType
import EvmInspect.Proofs.Abi.Check
import EvmInspect.Proofs.Abi.Decoded
import EvmInspect.Proofs.Abi.Extent
import EvmInspect.Proofs.Abi.Fits
import EvmInspect.Proofs.Abi.InPlace
import EvmInspect.Proofs.Abi.Parts
import EvmInspect.Proofs.Abi.Reached
import EvmInspect.Proofs.Abi.Read
import EvmInspect.Proofs.Abi.RoundTrip
import EvmInspect.Proofs.Abi.Strict
import EvmInspect.Proofs.Basic
import EvmInspect.Proofs.Bytes
import EvmInspect.Proofs.Contract.Call
import EvmInspect.Proofs.Event
import EvmInspect.Proofs.Inspector.Backtrace
import EvmInspect.Proofs.Inspector.Logs
import EvmInspect.Proofs.Integers
import EvmInspect.Proofs.Layout.Decode
import EvmInspect.Proofs.Layout.Image
import EvmInspect.Proofs.Storage.Dump
import EvmInspect.Proofs.Storage.Labels
import EvmInspect.Proofs.Storage.Leaves
import EvmInspect.Proofs.Storage.Path
import EvmInspect.Proofs.Storage.Recorded
import EvmInspect.Proofs.Table
import EvmInspect.Proofs.Trace.Below
import EvmInspect.Proofs.Trace.Built
import EvmInspect.Proofs.Ty.Grammar
import EvmInspect.Proofs.Ty.Legal
import EvmInspect.Proofs.Ty.Read
import EvmInspect.Proofs.Ty.Shape
import EvmInspect.Proofs.Ty.Text
import EvmInspect.Proofs.Ty.Token
import EvmInspect.Proofs.Ty.Written
import EvmInspect.Size
import EvmInspect.Source.Excerpt
import EvmInspect.Source.Index
import EvmInspect.Source.Node
import EvmInspect.Source.Remark
import EvmInspect.Storage.Dump
import EvmInspect.Storage.Path
import EvmInspect.Storage.Reading
import EvmInspect.Storage.State
import EvmInspect.Storage.Tagged
import EvmInspect.Table
import EvmInspect.Text.Blank
import EvmInspect.Text.Hidden
import EvmInspect.Text.Lines
import EvmInspect.Text.Quoted
import EvmInspect.Text.Utf8
import EvmInspect.Text.WordChar
import EvmInspect.Toml.Basic
import EvmInspect.Toml.Parser
import EvmInspect.Toml.Scalar
import EvmInspect.Trace.Basic
import EvmInspect.Trace.Frame
import EvmInspect.Trace.Json
import EvmInspect.Trace.Tree
import EvmInspect.Ty.Basic
import EvmInspect.Ty.Legal
import EvmInspect.Ty.Parser
import EvmInspect.Ty.Token
import EvmInspect.Value.Basic
import EvmInspect.Value.Declared
import EvmInspect.Value.Tagged
import EvmInspect.Word
import EvmInspect.Word.Literal
import EvmInspect.Proofs.Abi.Empty
import EvmInspect.Proofs.Abi.Canonical
import EvmInspect.Proofs.Abi.Name
import EvmInspect.Proofs.Abi.Signature
import EvmInspect.Proofs.Artifact.Interface
import EvmInspect.Proofs.Layout.Window
import EvmInspect.Proofs.Event.Arguments
import EvmInspect.Proofs.Storage.Containment
import EvmInspect.Proofs.Contract.Immutables
import EvmInspect.Proofs.Trace.Walk
import EvmInspect.Proofs.Trace.Pushed
import EvmInspect.Proofs.Inspector.Walks
import EvmInspect.Proofs.Digits
import EvmInspect.Proofs.Json.Text
import EvmInspect.Proofs.Json.Record
import EvmInspect.Proofs.Trace.Json
import EvmInspect.Proofs.Artifact.Json
import EvmInspect.Proofs.Layout.Legal
import EvmInspect.Proofs.Layout.Storage
import EvmInspect.Proofs.Abi.ExactSize
import EvmInspect.Proofs.Abi.Guarded
import EvmInspect.Proofs.Abi.Cut
import EvmInspect.Proofs.Storage.Tree
import EvmInspect.Proofs.Layout.Zero
import EvmInspect.Proofs.Storage.Dropped
import EvmInspect.Proofs.Abi.Verbatim
import EvmInspect.Proofs.Ty.Blank
import EvmInspect.Proofs.Trace.Preorder
import EvmInspect.Proofs.Trace.Tree
import EvmInspect.Proofs.Text.Quoted
import EvmInspect.Proofs.Address
import EvmInspect.Proofs.Text.Ending
import EvmInspect.Proofs.Value.Rendered
import EvmInspect.Proofs.Source.Ancestors
import EvmInspect.Proofs.Source.Remark
import EvmInspect.Proofs.Inspector.Members
import EvmInspect.Proofs.Layout.Guarded
import EvmInspect.Proofs.Abi.Width
import EvmInspect.Proofs.Storage.Truncated
import EvmInspect.Proofs.Source.Excerpt
import EvmInspect.Proofs.Failure.Reason
