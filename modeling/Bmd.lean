import Bmd.Correctness.Lifecycle
import Bmd.Correctness.Lifetime
import Bmd.Correctness.Aborts
import Bmd.Correctness.Expr
import Bmd.Correctness.Calc
import Bmd.Correctness.BhyveArgs
import Bmd.Correctness.LoaderArgs
import Bmd.Correctness.Varsfile
import Bmd.Correctness.Control
import Bmd.Correctness.Comport
import Bmd.Correctness.Ints
import Bmd.Correctness.Files
import Bmd.Correctness.Load
import Bmd.Correctness.Variables
import Bmd.Correctness.History
import Bmd.Correctness.Plugins
import Bmd.Correctness.Reassembly
import Bmd.Correctness.Shutdown
import Bmd.Correctness.Timers
import Bmd.Correctness.Termination
import Bmd.Correctness.Unchanged
import Bmd.Correctness.Access
import Bmd.Correctness.Resources
import Bmd.Correctness.Methods
import Bmd.Correctness.Comparison
import Bmd.Correctness.Descriptor
import Bmd.Correctness.Removal
import Bmd.Correctness.Regions
import Bmd.Correctness.Idle
import Bmd.Correctness.Output
import Bmd.Correctness.Pipes
import Bmd.Correctness.Words
import Bmd.Correctness.Expect
import Bmd.Correctness.Disks
import Bmd.Correctness.Unescape
import Bmd.Correctness.Poweroff
import Bmd.Correctness.FailedStart
import Bmd.Correctness.Policy
