import Argand.Evaluation.Journal
import Argand.Main
import Argand.Proofs.Descent
import Argand.Proofs.Grammar
import Argand.Proofs.Meaning
import Argand.Proofs.Resuming
import Argand.Proofs.ReadBack
import Argand.Proofs.Literal
import Argand.Proofs.Spelling
import Argand.Proofs.Sums
import Argand.Proofs.Readers
import Argand.Proofs.Columns
import Argand.Proofs.Blanks
import Argand.Proofs.Groups
import Argand.Proofs.Printed
import Argand.Proofs.ZeroBlind
import Argand.Proofs.Congruence
import Argand.Proofs.Chains
import Argand.Proofs.Conjugation
import Argand.Proofs.Quotients
import Argand.Proofs.Sessions
import Argand.Proofs.Gaussian
import Argand.Proofs.Forms
import Argand.Proofs.Closing
import Argand.Proofs.Roots
import Argand.Proofs.PrincipalRoot
import Argand.Proofs.Norms
import Argand.Proofs.Arguments
import Argand.Proofs.OneShot
import Argand.Proofs.Distance
import Argand.Proofs.Answers
import Argand.Proofs.Modes
import Argand.Proofs.ImplicitZero
import Argand.Proofs.Nesting
import Argand.Proofs.Locality
import Argand.Proofs.Squaring
import Argand.Proofs.Faults
