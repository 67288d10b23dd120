import Heredity.Directory
import Heredity.Document.Yaml.Basic
import Heredity.Evaluation
import Heredity.Proofs.Agreement
import Heredity.Proofs.Capture
import Heredity.Proofs.Chains
import Heredity.Proofs.Closedness
import Heredity.Proofs.Compilation
import Heredity.Proofs.CompilationOrder
import Heredity.Proofs.Copying
import Heredity.Proofs.Directedness
import Heredity.Proofs.Encapsulation
import Heredity.Proofs.Expansion
import Heredity.Proofs.Fields
import Heredity.Proofs.Forwarding
import Heredity.Proofs.Inertness
import Heredity.Proofs.Interleaving
import Heredity.Proofs.Interruption
import Heredity.Proofs.Layers
import Heredity.Proofs.Lineages
import Heredity.Proofs.Linking
import Heredity.Proofs.Locking
import Heredity.Proofs.Notation
import Heredity.Proofs.Permissions
import Heredity.Proofs.Policies
import Heredity.Proofs.Precedence
import Heredity.Proofs.Preservation
import Heredity.Proofs.Publication
import Heredity.Proofs.Qualification
import Heredity.Proofs.Rematching
import Heredity.Proofs.Reordering
import Heredity.Proofs.Requirements
import Heredity.Proofs.Simulation
import Heredity.Proofs.Tracking
import Heredity.Proofs.Traversal
import Heredity.Proofs.UnitFiles
import Heredity.Proofs.Withholding
