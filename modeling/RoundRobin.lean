import RoundRobin.Kernel.Operation
import RoundRobin.Linking
import RoundRobin.Machine.Event
import RoundRobin.Main
import RoundRobin.Proofs.Kernel.Delay
import RoundRobin.Proofs.Kernel.Handover
import RoundRobin.Proofs.Kernel.Tenure
import RoundRobin.Proofs.Machine.Transparency
import RoundRobin.Proofs.Kernel.Turn
import RoundRobin.Proofs.Scheduler.Command
import RoundRobin.Proofs.Scheduler.Punctual
import RoundRobin.Proofs.Machine.Isolation
import RoundRobin.Proofs.Kernel.Abstraction
import RoundRobin.Proofs.Machine.Refinement
import RoundRobin.Proofs.Kernel.Faults
import RoundRobin.Proofs.Kernel.Population
import RoundRobin.Proofs.Kernel.Safety
import RoundRobin.Proofs.Periodic.Timetable
import RoundRobin.Proofs.Scheduler.Rotation
import RoundRobin.Proofs.Machine.Handler
import RoundRobin.Proofs.Machine.Layout
import RoundRobin.Proofs.Machine.FirstContext
import RoundRobin.Proofs.Machine.Setup
import RoundRobin.Proofs.Machine.Start
import RoundRobin.Proofs.Scheduler.Ticks
import RoundRobin.Proofs.Scheduler.Outset
import RoundRobin.Proofs.Memory.Ownership
import RoundRobin.Proofs.Task.Numbering
