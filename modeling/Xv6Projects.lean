import Xv6Projects.PthreadLock.Exclusion
import Xv6Projects.Mlfq.Tickets
import Xv6Projects.Library.Wp
import Xv6Projects.Vm.Memory
import Xv6Projects.Vm.PageTable
import Xv6Projects.Vm.Mapping
import Xv6Projects.Cow.Allocator
import Xv6Projects.Cow.Holders
import Xv6Projects.Cow.Kernel
import Xv6Projects.Cow.Sharing
import Xv6Projects.Cow.Space
import Xv6Projects.Cow.Image
import Xv6Projects.Cow.Invariant
import Xv6Projects.Cow.System
import Xv6Projects.Cow.Spec
import Xv6Projects.Cow.RefCounts
import Xv6Projects.Cow.Supply
import Xv6Projects.Cow.Protection
import Xv6Projects.Cow.Eager
import Xv6Projects.Library.Simulation
import Xv6Projects.Cow.Refinement
import Xv6Projects.Cow.Boot
import Xv6Projects.Mlfq.Levels
import Xv6Projects.Cow.Demand
import Xv6Projects.Cow.Exhaustion
import Xv6Projects.Cow.Counters
import Xv6Projects.Threads.Kernel
import Xv6Projects.Threads.System
import Xv6Projects.Threads.Shape
import Xv6Projects.Threads.Calls
import Xv6Projects.Threads.Undo
import Xv6Projects.Threads.Zombies
import Xv6Projects.Threads.Globals
import Xv6Projects.Threads.Joins
import Xv6Projects.Threads.Stacks
import Xv6Projects.Threads.Log
import Xv6Projects.Threads.Growth
import Xv6Projects.Threads.Files
import Xv6Projects.Threads.Overlaps
import Xv6Projects.Cow.Smp
import Xv6Projects.Mlfq.Lookup
import Xv6Projects.Mlfq.Moves
import Xv6Projects.Mlfq.Boosting
import Xv6Projects.Mlfq.Monopoly
import Xv6Projects.Mlfq.Race
import Xv6Projects.Mlfq.Yielding
import Xv6Projects.Tree.Grandparent
import Xv6Projects.PthreadLock.Progress
import Xv6Projects.Cow.Faults
import Xv6Projects.Cow.UserPages
import Xv6Projects.Cow.Forking
import Xv6Projects.Threads.Creation
import Xv6Projects.Threads.Words
import Xv6Projects.Threads.Joiners
import Xv6Projects.Threads.States
import Xv6Projects.Threads.Exec
import Xv6Projects.Threads.Switch
import Xv6Projects.Threads.Ustacks
import Xv6Projects.Cow.Guard
import Xv6Projects.Library.CopyOnWrite
import Xv6Projects.Cow.Copies
import Xv6Projects.Fs.Blocks
import Xv6Projects.Fs.Buffer
import Xv6Projects.Library.RedoLog
import Xv6Projects.Fs.Cache
import Xv6Projects.Fs.Coherence
import Xv6Projects.Fs.Contents
import Xv6Projects.Fs.Crash
import Xv6Projects.Fs.Files
import Xv6Projects.Fs.Filewrite
import Xv6Projects.Ipc.Channel
import Xv6Projects.Ipc.Sleepers
import Xv6Projects.Fs.Directory
import Xv6Projects.Fs.Path
import Xv6Projects.Library.NameTree
import Xv6Projects.Fs.Calls
import Xv6Projects.Fs.Runs
import Xv6Projects.Fs.Names
