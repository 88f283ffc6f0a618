import TypeContracts.Descriptor.Debug
import TypeContracts.Document.Writer
import TypeContracts.Main
import TypeContracts.Proofs.Call.Bookkeeping
import TypeContracts.Proofs.Call.Copies
import TypeContracts.Proofs.Call.Diagnostics
import TypeContracts.Proofs.Call.Independence
import TypeContracts.Proofs.Call.Laws
import TypeContracts.Proofs.Call.Limits
import TypeContracts.Proofs.Call.Programs
import TypeContracts.Proofs.Call.Repetition
import TypeContracts.Proofs.Call.Restoring
import TypeContracts.Proofs.Call.Tags
import TypeContracts.Proofs.Call.Work
import TypeContracts.Proofs.Command.Checking
import TypeContracts.Proofs.Document.RoundTrip
import TypeContracts.Proofs.Double.Printing
import TypeContracts.Proofs.Engine.Attempts
import TypeContracts.Proofs.Value.Indices
