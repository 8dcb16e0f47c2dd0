import Multiparty.Error
import Multiparty.Proofs.Reordering
import Multiparty.Proofs.Duality
import Multiparty.Proofs.ValidProjection
import Multiparty.Proofs.WellFormedness
import Multiparty.Proofs.Concealment
import Multiparty.Proofs.LocalNormalForm
import Multiparty.Proofs.BackEdges
import Multiparty.Proofs.LabelFailure
import Multiparty.Proofs.Reflexivity
import Multiparty.Proofs.NormalizedComparison
import Multiparty.Proofs.HeaderAgreement
import Multiparty.Proofs.NormalForm
import Multiparty.Proofs.CanonicalOffset
import Multiparty.Proofs.WindowEquivalence
import Multiparty.Proofs.Symmetry
import Multiparty.Proofs.Transitivity
import Multiparty.Proofs.Relaxation
import Multiparty.Proofs.GroundOverlap
import Multiparty.Proofs.ExactArithmetic
import Multiparty.Proofs.MarkedPaths
import Multiparty.Proofs.Reading
import Multiparty.Proofs.Shrinking
import Multiparty.Proofs.Addressing
import Multiparty.Proofs.LastWrites
