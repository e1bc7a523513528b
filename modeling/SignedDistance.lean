import SignedDistance.Fixed.Halves
import SignedDistance.Fixed.Text
import SignedDistance.Main
import SignedDistance.Program.Assembly
import SignedDistance.Proofs.Walk
import SignedDistance.Proofs.Forest
import SignedDistance.Proofs.Validation
import SignedDistance.Proofs.Construction
import SignedDistance.Proofs.Evaluation
import SignedDistance.Proofs.Compilation
import SignedDistance.Proofs.Light
import SignedDistance.Proofs.Overflow
import SignedDistance.Proofs.Algebra
import SignedDistance.Proofs.Caps
import SignedDistance.Proofs.Scaling
import SignedDistance.Proofs.Turns
import SignedDistance.Proofs.Surface
import SignedDistance.Proofs.Contact
import SignedDistance.Proofs.Length
import SignedDistance.Proofs.Threshold
import SignedDistance.Proofs.Fixed.Interpolation
import SignedDistance.Proofs.Fixed.Whole
import SignedDistance.Proofs.Fixed.Root
import SignedDistance.Proofs.Fixed.Conversion
import SignedDistance.Proofs.Defects
import SignedDistance.Proofs.Normal
import SignedDistance.Proofs.Balance
import SignedDistance.Proofs.Reversal
import SignedDistance.Proofs.Flatness
import SignedDistance.Proofs.Disassembly
import SignedDistance.Proofs.Fixed.Interchange
import SignedDistance.Proofs.Fixed.Offset
import SignedDistance.Proofs.Simulation
import SignedDistance.Proofs.Rotation
