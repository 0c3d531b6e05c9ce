import TensorDag.Execution
import TensorDag.Gradient.Reverse
import TensorDag.Graph.Calls
import TensorDag.Plan.Compilation
import TensorDag.Plan.Editing
import TensorDag.Proofs.Allocation
import TensorDag.Proofs.Validity
import TensorDag.Value.Machine
import TensorDag.Proofs.Building
import TensorDag.Proofs.Compilation
import TensorDag.Proofs.Evaluation
import TensorDag.Proofs.Binding
import TensorDag.Proofs.Preparation
import TensorDag.Proofs.Stepping
import TensorDag.Proofs.Simulation
import TensorDag.Proofs.Keeping
import TensorDag.Proofs.Aftermath
import TensorDag.Proofs.Growth
import TensorDag.Proofs.History
import TensorDag.Proofs.Reuse
import TensorDag.Proofs.Editing
import TensorDag.Proofs.Derivative
import TensorDag.Proofs.Memo
import TensorDag.Proofs.Parallel
import TensorDag.Proofs.Replaying
import TensorDag.Proofs.Selecting
import TensorDag.Proofs.Owning
import TensorDag.Proofs.Requests
import TensorDag.Proofs.Sharing
import TensorDag.Proofs.Totality
import TensorDag.Proofs.Delivering
import TensorDag.Proofs.Differentiable
import TensorDag.Proofs.Transposes
import TensorDag.Proofs.Constants
import TensorDag.Proofs.Tidying
import TensorDag.Proofs.Agreement
import TensorDag.Proofs.Occupancy
import TensorDag.Proofs.Layouts
import TensorDag.Proofs.Routing
import TensorDag.Proofs.Pooling
import TensorDag.Proofs.Carrying
import TensorDag.Proofs.Respelling
import TensorDag.Proofs.Accounting
import TensorDag.Proofs.Inventory
import TensorDag.Proofs.Reckoning
import TensorDag.Proofs.Stretching
import TensorDag.Proofs.Reducing
import TensorDag.Proofs.Undoing
import TensorDag.Proofs.Unsliding
import TensorDag.Proofs.Extrema
import TensorDag.Proofs.Registering
import TensorDag.Proofs.Sampling
import TensorDag.Proofs.Freezing
import TensorDag.Proofs.Filling
