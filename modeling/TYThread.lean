import TYThread.Library.LinkedList
import TYThread.Library.Transition
import TYThread.Library.SplitQueue
import TYThread.Library.Counting
import TYThread.Library.CondVar
import TYThread.Memory
import TYThread.RefPtr
import TYThread.Skiplist.Contents
import TYThread.Skiplist.Range
import TYThread.Family.Lists
import TYThread.Family.Refinement
import TYThread.Family.Layers
import TYThread.Family.Balance
import TYThread.Family.Counters
import TYThread.Family.Destructor
import TYThread.Family.Overflow
import TYThread.Family.Rounds
import TYThread.Family.Nodes
import TYThread.Scheduler.Model
import TYThread.Scheduler.Lines
import TYThread.Scheduler.Serving
import TYThread.Scheduler.Continuations
import TYThread.Scheduler.OnePlace
import TYThread.Scheduler.Shutdown
import TYThread.Scheduler.Sleeping
import TYThread.Group.Destroy
import TYThread.Group.Join
import TYThread.Group.Finishing
import TYThread.Runtime.Lifetime
import TYThread.Runtime.Pooled
import TYThread.Runtime.Simulation
import TYThread.Latch
import TYThread.MpiHooks
import TYThread.Group.Table
import TYThread.Pool.ReleaseOrder
import TYThread.Pool.Ids
import TYThread.Locks
