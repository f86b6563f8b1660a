import Nucleus.Boot
import Nucleus.Core.Script
import Nucleus.Heap.Basic
import Nucleus.Lock.Guards
import Nucleus.OnceCell
import Nucleus.Proofs.Boot
import Nucleus.Proofs.Core.Transfers
import Nucleus.Proofs.Lock.Exclusion
import Nucleus.Proofs.Task.RunQueues
import Nucleus.Proofs.Task.Switches
import Nucleus.Proofs.Task.Ticks
import Nucleus.Task.Operation
import Nucleus.Proofs.Task.Priority
import Nucleus.Proofs.Task.Expiry
import Nucleus.Proofs.Core.Alarms
import Nucleus.Proofs.Heap.Intervals
import Nucleus.Proofs.Heap.Carving
import Nucleus.Proofs.Heap.Headers
import Nucleus.Proofs.Heap.Loans
import Nucleus.Proofs.Frame.Outstanding
import Nucleus.Proofs.Paging.Growth
import Nucleus.Proofs.Paging.Mapping
import Nucleus.Proofs.Paging.Translation
import Nucleus.Proofs.Paging.Teardown
import Nucleus.Proofs.Paging.Ownership
import Nucleus.Proofs.Paging.Faults
import Nucleus.Proofs.Core.Faults
import Nucleus.Proofs.Paging.Halves
import Nucleus.Proofs.Paging.Isolation
import Nucleus.Proofs.Paging.Spaces
import Nucleus.Proofs.Task.Waiting
import Nucleus.Proofs.Core.Wakeups
import Nucleus.Proofs.Task.Turns
import Nucleus.Proofs.Frame.Reserved
import Nucleus.Proofs.Boot.Outcomes
import Nucleus.Proofs.Task.Dealings
import Nucleus.Proofs.Core.Mail
import Nucleus.Proofs.Task.Contexts
import Nucleus.Proofs.Paging.LargePages
import Nucleus.Proofs.Paging.Agreement
import Nucleus.Proofs.Paging.Planting
import Nucleus.Proofs.Paging.Leftovers
import Nucleus.Proofs.Task.Periods
import Nucleus.Proofs.Core.Moves
import Nucleus.Proofs.Core.Preemption
import Nucleus.Proofs.Core.Discipline
import Nucleus.Proofs.Core.Overruns
import Nucleus.Proofs.Lock.Masking
import Nucleus.Proofs.Paging.Pages
import Nucleus.Proofs.Paging.Ranges
import Nucleus.Proofs.Frame.Scan
import Nucleus.Proofs.Paging.Progress
import Nucleus.Proofs.Paging.Leaves
import Nucleus.Proofs.Paging.Obstacles
import Nucleus.Proofs.Paging.Reclaim
import Nucleus.Proofs.Paging.Failures
import Nucleus.Proofs.Frame.Coverage
import Nucleus.Proofs.Heap.LeastFit
import Nucleus.Proofs.Paging.Restoration
import Nucleus.Proofs.Paging.Idempotence
import Nucleus.Proofs.Task.Bystanders
import Nucleus.Proofs.Core.Spawning
import Nucleus.Proofs.Boot.Composition
import Nucleus.Proofs.OnceCell
import Nucleus.Proofs.Frame.Packing
import Nucleus.Proofs.Paging.Addresses
