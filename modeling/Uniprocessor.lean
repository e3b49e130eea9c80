import Uniprocessor.Consistency
import Uniprocessor.HostMemory
import Uniprocessor.Machine
import Uniprocessor.Proofs.Forests
import Uniprocessor.Proofs.Simulation.Session
import Uniprocessor.Proofs.Contracts
import Uniprocessor.Proofs.Traffic
import Uniprocessor.Proofs.Holdings
import Uniprocessor.Proofs.Lawful
import Uniprocessor.Proofs.Operations
import Uniprocessor.Proofs.Accounts
import Uniprocessor.Proofs.Provision
import Uniprocessor.Proofs.Removal
import Uniprocessor.Proofs.Commands
import Uniprocessor.Proofs.Runs
import Uniprocessor.Proofs.Consistent
import Uniprocessor.Proofs.HostMemories
import Uniprocessor.Proofs.Observations
import Uniprocessor.Proofs.Atomicity
import Uniprocessor.Proofs.Contexts
import Uniprocessor.Proofs.Teardowns
import Uniprocessor.Proofs.Ticks
import Uniprocessor.Proofs.Lifecycle
import Uniprocessor.Proofs.Roots
import Uniprocessor.Proofs.Fittings
import Uniprocessor.Proofs.SwitchTargets
import Uniprocessor.Proofs.Resemblance
import Uniprocessor.Proofs.Ownership
import Uniprocessor.Proofs.Overtaking
import Uniprocessor.Proofs.Progress
import Uniprocessor.Proofs.Bystanders
import Uniprocessor.Proofs.Rotation
import Uniprocessor.Proofs.Policies
import Uniprocessor.Proofs.SignalHistory
import Uniprocessor.Proofs.Parallels
import Uniprocessor.Proofs.Creations
import Uniprocessor.Proofs.Adoptions
import Uniprocessor.Proofs.Contents
import Uniprocessor.Proofs.Copies
import Uniprocessor.Proofs.Meters
import Uniprocessor.Proofs.Reentrancy
import Uniprocessor.Proofs.Passes
import Uniprocessor.Proofs.Dismantling
import Uniprocessor.Proofs.PidHistories
import Uniprocessor.Proofs.PoolHistories
import Uniprocessor.Proofs.Generations
import Uniprocessor.Proofs.ChildHistories
import Uniprocessor.Proofs.RosterHistories
import Uniprocessor.Proofs.CriticalSections
import Uniprocessor.Proofs.SignalHistories
import Uniprocessor.Proofs.HierarchyChecks
import Uniprocessor.Proofs.StaleCopies
