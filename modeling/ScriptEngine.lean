import ScriptEngine.Config.File
import ScriptEngine.Program.Outline
import ScriptEngine.Proofs.Results.Unwrapping
import ScriptEngine.Proofs.Eval.CallDepth
import ScriptEngine.Proofs.Eval.Hygiene
import ScriptEngine.Proofs.Eval.Vetting
import ScriptEngine.Proofs.Module.Nesting
import ScriptEngine.Proofs.Session.Constants
import ScriptEngine.Proofs.Session.Excerpt
import ScriptEngine.Proofs.Value.DeepCopy
import ScriptEngine.Proofs.Value.ReadingBack
import ScriptEngine.Session
import ScriptEngine.Token.Listing
import ScriptEngine.Proofs.Session.Numbers
import ScriptEngine.Proofs.Value.Capture
import ScriptEngine.Proofs.Session.Tries
import ScriptEngine.Proofs.Arrays.Appending
import ScriptEngine.Proofs.Eval.Relocation
import ScriptEngine.Proofs.Eval.Slicing
import ScriptEngine.Proofs.Eval.WholeSlices
import ScriptEngine.Proofs.Token.Ending
import ScriptEngine.Proofs.Token.Layout
import ScriptEngine.Proofs.Arrays.Building
import ScriptEngine.Proofs.Arrays.Concatenating
import ScriptEngine.Proofs.Arrays.Forms
import ScriptEngine.Proofs.Arrays.Stability
import ScriptEngine.Proofs.Eval.Assignment
import ScriptEngine.Proofs.Eval.Binding
import ScriptEngine.Proofs.Eval.Destructuring
import ScriptEngine.Proofs.Eval.Ranges
import ScriptEngine.Proofs.Program.Climbing
import ScriptEngine.Proofs.Number.Literals
import ScriptEngine.Proofs.Number.Writing
import ScriptEngine.Proofs.Value.Tangles
import ScriptEngine.Proofs.Native.Unescaping
import ScriptEngine.Proofs.Native.Exchange
import ScriptEngine.Proofs.Native.Buffers
import ScriptEngine.Proofs.Number.Arithmetic
import ScriptEngine.Proofs.Eval.Members
import ScriptEngine.Proofs.Strings.Searching
import ScriptEngine.Proofs.Strings.Splitting
import ScriptEngine.Proofs.Native.Streaming
import ScriptEngine.Proofs.Arrays.Membership
import ScriptEngine.Proofs.Program.Preorder
