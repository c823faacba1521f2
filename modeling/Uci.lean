import Uci.Boolean
import Uci.Document.Outline
import Uci.File.Store
import Uci.Main
import Uci.Proofs.Document.Operation
import Uci.Text.Basic
import Uci.Proofs.Document.Gathering
import Uci.Proofs.Document.Merging
import Uci.Proofs.Document.History
import Uci.Proofs.Document.Refinement
import Uci.Proofs.Document.Reading
import Uci.Proofs.Document.Refused
import Uci.Proofs.Arena.Merge
import Uci.Proofs.Arena.Numbering
import Uci.Proofs.Arena.Naming
import Uci.Proofs.Arena.Liveness
import Uci.Proofs.Document.Names
import Uci.Proofs.Document.Numbering
import Uci.Proofs.Document.Naming
import Uci.Proofs.Document.Removal
import Uci.Proofs.Document.Addressing
import Uci.Proofs.Document.Unique
import Uci.Proofs.Syntax.Pattern
import Uci.Proofs.Syntax.Adjacency
import Uci.Proofs.Syntax.Longest
import Uci.Proofs.Syntax.Lexing
import Uci.Proofs.Syntax.Reading
import Uci.Proofs.Syntax.Marks
import Uci.Proofs.Syntax.Session
import Uci.Proofs.Syntax.Redirecting
import Uci.Proofs.Syntax.Displacing
import Uci.Proofs.Syntax.Abandoning
import Uci.Proofs.Syntax.Looking
import Uci.Proofs.Syntax.Line
import Uci.Proofs.Syntax.Source
import Uci.Proofs.Syntax.Shape
import Uci.Proofs.Syntax.Sound
import Uci.Proofs.Syntax.Acceptance
import Uci.Proofs.Syntax.Script
import Uci.Proofs.Document.Writing
import Uci.Proofs.Document.Replaying
import Uci.Proofs.Document.Opening
import Uci.Proofs.Document.RoundTrip
import Uci.Proofs.Document.Meaning
import Uci.Proofs.Document.Consecutive
import Uci.Proofs.Command.Change
import Uci.Proofs.Command.Adding
import Uci.Proofs.Document.Outline
import Uci.Proofs.Document.Walking
import Uci.Proofs.Document.Sections
import Uci.Proofs.Command.Listing
import Uci.Proofs.Command.Shell
import Uci.Proofs.Browser.Selection
import Uci.Proofs.Command.Setting
import Uci.Proofs.Document.Regrouping
import Uci.Proofs.Document.Retyping
import Uci.Proofs.File.Store
import Uci.Proofs.File.Overwriting
import Uci.Proofs.Settings.Toml
import Uci.Proofs.Tool.Files
import Uci.Proofs.Text.Position
import Uci.Proofs.Syntax.Reporting
import Uci.Proofs.Document.Faults
import Uci.Proofs.Syntax.Word
import Uci.Proofs.Syntax.Splicing
import Uci.Proofs.Syntax.Quoting
import Uci.Proofs.Command.Atomicity
import Uci.Proofs.Document.Rejection
import Uci.Proofs.Document.Reserved
import Uci.Proofs.Syntax.LineEnds
import Uci.Proofs.Syntax.Alike
import Uci.Proofs.Document.LineEnds
import Uci.Proofs.Syntax.Cutting
import Uci.Proofs.Syntax.Moving
import Uci.Proofs.Syntax.Recovery
import Uci.Proofs.Tool.Settings
