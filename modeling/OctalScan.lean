import OctalScan.Main
import OctalScan.Session
import OctalScan.Proofs.Gap
import OctalScan.Proofs.Lexeme
import OctalScan.Proofs.Decomposition
import OctalScan.Proofs.Draining
import OctalScan.Proofs.Backtracking
import OctalScan.Proofs.Place
import OctalScan.Proofs.Position
import OctalScan.Proofs.Lines
import OctalScan.Proofs.Pointing
import OctalScan.Proofs.Translation
import OctalScan.Proofs.Front
import OctalScan.Proofs.Joining
import OctalScan.Proofs.EndMark
import OctalScan.Proofs.Layout
import OctalScan.Proofs.Limit
import OctalScan.Proofs.Payload
import OctalScan.Proofs.Literal
import OctalScan.Proofs.Fault
import OctalScan.Proofs.Progress
import OctalScan.Proofs.Continuation
import OctalScan.Proofs.Escaped
import OctalScan.Proofs.Numeral
import OctalScan.Proofs.Document
import OctalScan.Proofs.Style
import OctalScan.Proofs.Trimming
import OctalScan.Proofs.Rows
import OctalScan.Proofs.Columns
import OctalScan.Proofs.Origin
import OctalScan.Proofs.Requests
import OctalScan.Proofs.Outcome
import OctalScan.Proofs.Display
import OctalScan.Proofs.Encoded
import OctalScan.Proofs.LineEnds
import OctalScan.Proofs.Integer
import OctalScan.Proofs.Effective
import OctalScan.Proofs.Collecting
import OctalScan.Proofs.Sorter
import OctalScan.Proofs.WordLists
