import Scriptlet.Main
import Scriptlet.Proofs.Batch
import Scriptlet.Proofs.Derivation
import Scriptlet.Proofs.Refinement
import Scriptlet.Proofs.Outcome
import Scriptlet.Proofs.Draft
import Scriptlet.Proofs.InteractiveLine
import Scriptlet.Proofs.MissingSemicolon
import Scriptlet.Proofs.LostBrace
import Scriptlet.Proofs.LineReports
import Scriptlet.Proofs.Resolution
import Scriptlet.Proofs.Undefined
import Scriptlet.Proofs.RoundTrip
import Scriptlet.Proofs.History
import Scriptlet.Proofs.SameTokens
import Scriptlet.Proofs.Supported
import Scriptlet.Proofs.Cursor
import Scriptlet.Proofs.CursorReading
import Scriptlet.Proofs.ErrorPlaces
import Scriptlet.Proofs.KeptTokens
import Scriptlet.Proofs.ScopeFrame
import Scriptlet.Proofs.Positions
import Scriptlet.Proofs.Typing
import Scriptlet.Proofs.Assignment
import Scriptlet.Proofs.LastWrite
import Scriptlet.Proofs.Parentheses
import Scriptlet.Proofs.Respacing
import Scriptlet.Proofs.PrefixReading
import Scriptlet.Proofs.Conversation
import Scriptlet.Proofs.Resumption
import Scriptlet.Proofs.ScannerSafety
