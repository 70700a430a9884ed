import TinyKernel.Main
import TinyKernel.Proofs.Frames.FreeSet
import TinyKernel.Proofs.Heap.FirstFit
import TinyKernel.Proofs.Heap.FreeOrder
import TinyKernel.Proofs.Heap.Isolation
import TinyKernel.Proofs.Heap.PageAccounts
import TinyKernel.Proofs.Heap.Recognition
import TinyKernel.Proofs.Heap.Refusals
import TinyKernel.Proofs.Heap.WellFormed
import TinyKernel.Proofs.Kernel.Directories
import TinyKernel.Proofs.Kernel.Families
import TinyKernel.Proofs.Kernel.Ownership
import TinyKernel.Proofs.Kernel.Tenants
import TinyKernel.Proofs.Paging.MapLaw
import TinyKernel.Proofs.Paging.Sharing
import TinyKernel.Proofs.Process.Contexts
import TinyKernel.Proofs.Process.CpuTime
import TinyKernel.Proofs.Process.Reservations
import TinyKernel.Proofs.Heap.Resize
import TinyKernel.Proofs.Heap.Undo
import TinyKernel.Proofs.Heap.Safety
import TinyKernel.Proofs.Frames.Borrowing
import TinyKernel.Proofs.Paging.Readiness
import TinyKernel.Proofs.Paging.Overlay
import TinyKernel.Proofs.Kernel.Growth
import TinyKernel.Proofs.Heap.Stalls
import TinyKernel.Proofs.Kernel.Housing
import TinyKernel.Proofs.Kernel.Rollback
import TinyKernel.Proofs.Kernel.Refusals
import TinyKernel.Proofs.Paging.Entries
import TinyKernel.Proofs.Paging.Unmapping
import TinyKernel.Proofs.Paging.Permissions
import TinyKernel.Proofs.Kernel.Staleness
import TinyKernel.Proofs.Frames.RoundTrip
import TinyKernel.Proofs.Process.Reclamation
import TinyKernel.Proofs.Process.Queue
import TinyKernel.Proofs.Kernel.Reclamation
import TinyKernel.Proofs.Kernel.RoundRobin
import TinyKernel.Proofs.Kernel.Creation
import TinyKernel.Proofs.Heap.Coalescing
import TinyKernel.Proofs.Kernel.Driver
import TinyKernel.Proofs.Kernel.Boot
import TinyKernel.Proofs.Process.Name
