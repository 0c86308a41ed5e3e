import Reckoner.Exchange
import Reckoner.Journal
import Reckoner.Main
import Reckoner.Proofs.Exchange
import Reckoner.Proofs.Failure
import Reckoner.Proofs.Formula.Reading
import Reckoner.Proofs.Infix.Acceptance
import Reckoner.Proofs.Machine.Frame
import Reckoner.Proofs.Safety
import Reckoner.Proofs.Scan.Spelling
import Reckoner.Proofs.Session
import Reckoner.Proofs.Infix.Verdict
import Reckoner.Proofs.Console.Conversation
import Reckoner.Proofs.Infix.Grouping
import Reckoner.Proofs.CommandLine
import Reckoner.Proofs.Infix.Placement
import Reckoner.Proofs.Machine.Height
import Reckoner.Proofs.Machine.Substitution
import Reckoner.Proofs.Assignment
import Reckoner.Proofs.NormalText.Shape
import Reckoner.Proofs.NormalText.Insertion
import Reckoner.Proofs.Scan.Composition
import Reckoner.Proofs.Scan.Omission
import Reckoner.Proofs.Formula.Shown
import Reckoner.Proofs.Formula.Signs
import Reckoner.Proofs.Formula.Whole
import Reckoner.Proofs.Hollow
import Reckoner.Proofs.Scan.Restriction
import Reckoner.Proofs.Journal
import Reckoner.Proofs.OneLine.Answer
import Reckoner.Proofs.Arithmetic
import Reckoner.Proofs.Settings
