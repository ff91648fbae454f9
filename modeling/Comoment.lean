import Comoment.Proofs.CarryLoop
import Comoment.Proofs.CorrelationBounds
import Comoment.Proofs.CountRange
import Comoment.Proofs.Deviations
import Comoment.Proofs.ExactDoubles
import Comoment.Proofs.ExactParts
import Comoment.Proofs.LastLag
import Comoment.Proofs.MergeLaws
import Comoment.Proofs.OperandSymmetry
import Comoment.Proofs.PackedBits
import Comoment.Proofs.PairlessParts
import Comoment.Proofs.Partition
import Comoment.Proofs.Refusals
import Comoment.Proofs.RelativeChange
import Comoment.Proofs.RuntimeTypes
import Comoment.Proofs.Serialized
import Comoment.Proofs.Sparse
import Comoment.Proofs.SummationDepth
import Comoment.Proofs.WordWalk
