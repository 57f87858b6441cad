import TensorProgram.Program.Builder
import TensorProgram.Scalar.Binary32
import TensorProgram.Scalar.Decimal
import TensorProgram.Session
import TensorProgram.Proofs.Kernel.Rearrange
import TensorProgram.Proofs.Kernel.FullyConnected
import TensorProgram.Proofs.Kernel.Pooling
import TensorProgram.Proofs.Program.Forward
import TensorProgram.Proofs.Kernel.LocalResponse
import TensorProgram.Proofs.Kernel.BatchNorm
import TensorProgram.Proofs.Program.Typing
import TensorProgram.Proofs.Program.Backward
import TensorProgram.Proofs.Session.Independence
import TensorProgram.Proofs.Gradient.Form
import TensorProgram.Proofs.Gradient.Solution
import TensorProgram.Proofs.Gradient.Adjoint
import TensorProgram.Proofs.Session.Adjoint
import TensorProgram.Proofs.Kernel.Frame
import TensorProgram.Proofs.Session.CleanGradients
import TensorProgram.Proofs.Kernel.Locality
import TensorProgram.Proofs.Context.Parallel
import TensorProgram.Proofs.Kernel.Parallel
import TensorProgram.Proofs.Kernel.Commutation
import TensorProgram.Proofs.Gradient.Additivity
import TensorProgram.Proofs.Kernel.Safety
import TensorProgram.Proofs.Context.Operations
import TensorProgram.Proofs.Program.Completeness
import TensorProgram.Proofs.Kernel.EmptyWindow
import TensorProgram.Proofs.Kernel.Policy
import TensorProgram.Proofs.Program.Assignment
import TensorProgram.Proofs.Session.Constancy
import TensorProgram.Proofs.Tensor.Boxes
import TensorProgram.Proofs.Kernel.ChannelWindow
import TensorProgram.Proofs.Kernel.MaxPool
import TensorProgram.Proofs.Kernel.Transposition
import TensorProgram.Proofs.Kernel.Concatenation
import TensorProgram.Proofs.Kernel.Padding
import TensorProgram.Proofs.Kernel.Gathering
import TensorProgram.Proofs.Kernel.OnePass
import TensorProgram.Proofs.Kernel.OnePixel
import TensorProgram.Proofs.Kernel.ChannelBalance
import TensorProgram.Proofs.Kernel.ChannelStatistics
import TensorProgram.Proofs.Session.Initialization
import TensorProgram.Proofs.Kernel.Distributions
import TensorProgram.Proofs.Training.Momentum
import TensorProgram.Proofs.Session.Divisors
import TensorProgram.Proofs.Context.Loans
import TensorProgram.Proofs.Window.Geometry
import TensorProgram.Proofs.Scalar.Decimal
import TensorProgram.Proofs.Program.Text
import TensorProgram.Proofs.Shape.Permutation
import TensorProgram.Proofs.Tensor.Positions
