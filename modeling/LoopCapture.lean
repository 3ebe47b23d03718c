import LoopCapture.Proofs.Grammar.Nesting
import LoopCapture.Proofs.Grammar.Placed
import LoopCapture.Proofs.Scope.WellFormed
import LoopCapture.Proofs.Capture.Finding
import LoopCapture.Proofs.Capture.Stability
import LoopCapture.Proofs.Capture.Globals
import LoopCapture.Proofs.Capture.Replies
import LoopCapture.Proofs.Capture.Severity
import LoopCapture.Proofs.Capture.Order
import LoopCapture.Proofs.Capture.Names
import LoopCapture.Proofs.Capture.Closures
import LoopCapture.Proofs.Capture.Merging
import LoopCapture.Proofs.Capture.OwnNames
import LoopCapture.Proofs.Capture.Levels
import LoopCapture.Proofs.Scope.Lookup
import LoopCapture.Proofs.Capture.Around
import LoopCapture.Proofs.Grammar.Reports
import LoopCapture.Proofs.Grammar.Operators.Statement
import LoopCapture.Command.LogFormat
import LoopCapture.Files.FileTree
import LoopCapture.Proofs.Report.Agreement
import LoopCapture.Main
import LoopCapture.Proofs.Token.Lossless
import LoopCapture.Proofs.Grammar.Termination
import LoopCapture.Proofs.Grammar.Destructuring.Agreement
import LoopCapture.Proofs.Scope.Outline
import LoopCapture.Proofs.Report.Underline
import LoopCapture.Proofs.Token.LongestMatch
import LoopCapture.Proofs.Diagnostic.Filling
import LoopCapture.Proofs.Command.Discovery
import LoopCapture.Proofs.Scope.Repeated
import LoopCapture.Proofs.Scope.Targets
