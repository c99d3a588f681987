import Serpentine.Main
import Serpentine.Proofs.Grammar.Classification
import Serpentine.Proofs.Grammar.Frames
import Serpentine.Proofs.Grammar.Nesting
import Serpentine.Proofs.Grammar.Precedence
import Serpentine.Proofs.Grammar.Speculation
import Serpentine.Proofs.Layout
import Serpentine.Proofs.Lowering.ControlFlow
import Serpentine.Proofs.Lowering.Exports
import Serpentine.Proofs.Lowering.Globals
import Serpentine.Proofs.Macro.Comments
import Serpentine.Proofs.Macro.Conditions
import Serpentine.Proofs.Program.Merging
import Serpentine.Proofs.Program.Numbering
import Serpentine.Proofs.Program.Tables
import Serpentine.Proofs.Reference.Capture
import Serpentine.Proofs.Reference.Coverage
import Serpentine.Proofs.Reference.Requests
import Serpentine.Proofs.Script.Calls
import Serpentine.Proofs.Script.Quotations
import Serpentine.Proofs.Session.Blocks
import Serpentine.Proofs.Session.References
