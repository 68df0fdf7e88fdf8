import Envfile.Lib.Step
import Envfile.Lib.Lines
import Envfile.Lib.Machine
import Envfile.Lib.Assign
import Envfile.Lib.Buffer
import Envfile.Lib.Dataflow
import Envfile.Lib.Exchange
import Envfile.Lib.Assoc
import Envfile.Lib.Utf8
import Envfile.Lib.Fields
import Envfile.Lib.Partial
import Envfile.Bytes
import Envfile.Output
import Envfile.Config
import Envfile.Record
import Envfile.Substitution
import Envfile.Tokenization
import Envfile.Continuation
import Envfile.Meaning
import Envfile.Runs
import Envfile.Laws
import Envfile.C.Backend
import Envfile.C.Table
import Envfile.C.TableMap
import Envfile.C.TableOps
import Envfile.C.Frontend
import Envfile.C.Classify
import Envfile.C.Grammar
import Envfile.C.Records
import Envfile.C.Stream
import Envfile.C.Files
import Envfile.C.Concat
import Envfile.C.Pipeline
import Envfile.C.Apply
import Envfile.C.Refines
import Envfile.C.Serial
import Envfile.C.Decode
import Envfile.C.Window
import Envfile.C.References
import Envfile.C.Rejected
import Envfile.C.Quoting
import Envfile.C.Commute
import Envfile.C.ExitStatus
import Envfile.C.Overflow
import Envfile.C.Buffers
import Envfile.C.Runs
import Envfile.Asm.Backend
import Envfile.Asm.Loops
import Envfile.Asm.Classify
import Envfile.Asm.Safety
import Envfile.Asm.Interchange
import Envfile.Awk.Reference
import Envfile.Awk.Classify
import Envfile.Awk.Files
import Envfile.Awk.Conservation
import Envfile.Awk.Canonical
import Envfile.Awk.Joined
import Envfile.Awk.Sort
import Envfile.Awk.Runs
import Envfile.Port.Program
import Envfile.Port.Classify
import Envfile.Port.Files
import Envfile.Port.Refines
import Envfile.Go.Program
import Envfile.Go.Refines
import Envfile.Go.Runs
import Envfile.Js.Program
import Envfile.Js.Runs
import Envfile.Python.Program
import Envfile.Python.Runs
import Envfile.Rust.Program
import Envfile.Rust.Runs
import Envfile.Zig.Program
import Envfile.Zig.Join
import Envfile.Zig.Runs
import Envfile.Perl.Program
import Envfile.Perl.Classify
import Envfile.Perl.Native
import Envfile.Perl.Runs
import Envfile.Sh.Program
import Envfile.Sh.Join
import Envfile.Sh.Store
import Envfile.Bash.Join
import Envfile.Nu.Program
import Envfile.Compare.Classifier
import Envfile.Compare.Files
import Envfile.Compare.NulIgnored
import Envfile.Compare.GoNative
import Envfile.Compare.Crlf
import Envfile.Compare.GoShell
import Envfile.Compare.RustCr
import Envfile.Compare.Blanks
import Envfile.Compare.CrlfPass
import Envfile.Compare.Renumber
import Envfile.Compare.Substitution
import Envfile.Compare.Settings
import Envfile.Compare.Interchange
import Envfile.Compare.Guarantees
import Envfile.Dispatch.Program
import Envfile.Dispatch.Mining
import Envfile.Dispatch.Callers
import Envfile.Dispatch.Independence
import Envfile.Dispatch.Arguments
import Envfile.Dispatch.Handover
import Envfile.Dispatch.Languages
