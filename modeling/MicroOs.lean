import MicroOs.Console.Proofs.Cursor
import MicroOs.Drivers.Proofs.KeyboardFifo
import MicroOs.Drivers.Proofs.XhciEvents
import MicroOs.Drivers.Proofs.XhciRings
import MicroOs.Fs.Proofs.Fat32DotDot
import MicroOs.Fs.Proofs.Fat32Layout
import MicroOs.Fs.Proofs.Fat32Lfn
import MicroOs.Fs.Proofs.Fat32Places
import MicroOs.Fs.Proofs.Fat32ReadFile
import MicroOs.Fs.Proofs.Fat32Sequence
import MicroOs.Fs.Proofs.MkImg
import MicroOs.Fs.Proofs.VfsFailures
import MicroOs.Fs.Proofs.VfsNames
import MicroOs.Mm.Proofs.HeapTheorems
import MicroOs.Mm.Proofs.PmmExact
import MicroOs.Mm.Proofs.PmmPlacement
import MicroOs.Mm.Proofs.VmmDevices
import MicroOs.Mm.Proofs.VmmFailure
import MicroOs.Net.Proofs.Ping
import MicroOs.Net.Proofs.Transmit
import MicroOs.Sched.Proofs.Death
import MicroOs.Sched.Proofs.Preemption
import MicroOs.Sched.Proofs.Priority
import MicroOs.Sched.Proofs.Registers
import MicroOs.Sched.Proofs.Stop
import MicroOs.Sched.Proofs.Switch
import MicroOs.Sched.Proofs.Wait
import MicroOs.Shell.Proofs.Descriptors
import MicroOs.Shell.Proofs.Editing
import MicroOs.Sync.Proofs.Locks
import MicroOs.User.Proofs.ElfFailures
import MicroOs.User.Proofs.FileDescriptors
import MicroOs.User.Proofs.LaunchAccount
import MicroOs.User.Proofs.UserTask
