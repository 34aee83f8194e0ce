import Lookahead.Main
import Lookahead.Proofs.Layout
import Lookahead.Proofs.Arrows
import Lookahead.Proofs.Notation
import Lookahead.Proofs.Derivation
import Lookahead.Proofs.Nullable
import Lookahead.Proofs.First
import Lookahead.Proofs.Follow
import Lookahead.Proofs.Filling
import Lookahead.Proofs.Table
import Lookahead.Proofs.Conflict
import Lookahead.Proofs.Frames
import Lookahead.Proofs.Expansion
import Lookahead.Proofs.Termination
import Lookahead.Proofs.Locality
import Lookahead.Proofs.Simulation
import Lookahead.Proofs.Closed
import Lookahead.Proofs.Reordering
import Lookahead.Proofs.Completeness
import Lookahead.Proofs.Accounting
import Lookahead.Proofs.CorrectPrefix
import Lookahead.Proofs.Exhaustion
import Lookahead.Proofs.Pipeline
import Lookahead.Proofs.LeftRecursion
import Lookahead.Proofs.Folding
import Lookahead.Proofs.Spelling
import Lookahead.Proofs.Lexing
import Lookahead.Proofs.Reading
import Lookahead.Proofs.Rounding
import Lookahead.Proofs.Numeral
import Lookahead.Proofs.Lexeme
import Lookahead.Proofs.Shape
import Lookahead.Proofs.Reducing
import Lookahead.Proofs.Tokenization
import Lookahead.Proofs.Reprinting
import Lookahead.Proofs.Descent
import Lookahead.Proofs.FirstConflict
import Lookahead.Proofs.Convergence
import Lookahead.Proofs.Acceptance
import Lookahead.Proofs.Completion
import Lookahead.Proofs.Preorder
import Lookahead.Proofs.Views
import Lookahead.Proofs.Spacing
import Lookahead.Proofs.Validation
import Lookahead.Proofs.Textual
import Lookahead.Proofs.Clash
import Lookahead.Proofs.Walks
