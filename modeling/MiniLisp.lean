import MiniLisp.Code.Depth
import MiniLisp.Main
import MiniLisp.Proofs.Code.Blame
import MiniLisp.Proofs.Code.Demands
import MiniLisp.Proofs.Code.Renaming
import MiniLisp.Proofs.Code.Reuse
import MiniLisp.Proofs.Code.Signatures
import MiniLisp.Proofs.Correspondence.Analysis
import MiniLisp.Proofs.Correspondence.Reach
import MiniLisp.Proofs.Correspondence.Toplevel
import MiniLisp.Proofs.Datum.Closings
import MiniLisp.Proofs.Datum.Grammar
import MiniLisp.Proofs.Datum.Joined
import MiniLisp.Proofs.Datum.Printable
import MiniLisp.Proofs.Datum.RoundTrip
import MiniLisp.Proofs.Datum.Unfinished
import MiniLisp.Proofs.Direct.Agreement
import MiniLisp.Proofs.Host
import MiniLisp.Proofs.Host.Sharing
import MiniLisp.Proofs.Independence
import MiniLisp.Proofs.ListLibrary.Calls
import MiniLisp.Proofs.ListLibrary.Membership
import MiniLisp.Proofs.ListLibrary.Refusal
import MiniLisp.Proofs.ListLibrary.Reloading
import MiniLisp.Proofs.ListLibrary.Reversal
import MiniLisp.Proofs.Primitive.Arithmetic
import MiniLisp.Proofs.RegisterMachine.Brackets
import MiniLisp.Proofs.RegisterMachine.Faults
import MiniLisp.Proofs.RegisterMachine.Independence
import MiniLisp.Proofs.RegisterMachine.Statistics
import MiniLisp.Proofs.Repl.Session
import MiniLisp.Proofs.Store.Cells
import MiniLisp.Proofs.Store.Parameters
import MiniLisp.Proofs.Symbol.Interning
import MiniLisp.Proofs.Token.Calls
import MiniLisp.Proofs.Toplevel.Progress
import MiniLisp.Proofs.Toplevel.Strings
import MiniLisp.Proofs.Toplevel.Texts
import MiniLisp.RegisterMachine
import MiniLisp.Symbol.Table
