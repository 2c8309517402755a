import StackLine.Main
import StackLine.Operand
import StackLine.Proofs.Accounting
import StackLine.Proofs.Agreement
import StackLine.Proofs.Ahead
import StackLine.Proofs.Coarsest
import StackLine.Proofs.Countdown
import StackLine.Proofs.Environment
import StackLine.Proofs.Folding
import StackLine.Proofs.Frame
import StackLine.Proofs.Hash
import StackLine.Proofs.History
import StackLine.Proofs.Index
import StackLine.Proofs.Integer
import StackLine.Proofs.IntegerGrammar
import StackLine.Proofs.Lenient
import StackLine.Proofs.Listing
import StackLine.Proofs.Log
import StackLine.Proofs.Rounded
import StackLine.Proofs.Shortest
import StackLine.Proofs.Significant
import StackLine.Proofs.Skip
import StackLine.Proofs.Strict
import StackLine.Proofs.Totality
import StackLine.Proofs.Trailing
