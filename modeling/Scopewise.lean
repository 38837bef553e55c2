import Scopewise.Cli.Directory
import Scopewise.Main
import Scopewise.Parse.Session
import Scopewise.Proofs.Alphabet
import Scopewise.Proofs.Completion
import Scopewise.Proofs.Composition
import Scopewise.Proofs.Equivariance
import Scopewise.Proofs.Lines
import Scopewise.Proofs.Literal
import Scopewise.Proofs.Lookahead
import Scopewise.Proofs.Nesting
import Scopewise.Proofs.Offsets
import Scopewise.Proofs.Pointing
import Scopewise.Proofs.Scope.Invariant
import Scopewise.Proofs.Scope.Snapshot
import Scopewise.Token.Window
import Scopewise.Proofs.Replay
import Scopewise.Proofs.Parse.Account
import Scopewise.Proofs.Journal
import Scopewise.Proofs.Consistency
import Scopewise.Proofs.Session
import Scopewise.Proofs.Effects
import Scopewise.Proofs.Progress
import Scopewise.Proofs.Strata
import Scopewise.Proofs.Height
import Scopewise.Proofs.Json.Reading
import Scopewise.Proofs.Json.Squeeze
import Scopewise.Proofs.Json.Trees
