import PhpZookeeper.Session.Keys
import PhpZookeeper.Session.Write
import PhpZookeeper.Session.Gc
import PhpZookeeper.Session.Destroy
import PhpZookeeper.Session.Collect
import PhpZookeeper.Session.Open
import PhpZookeeper.Session.Wait
import PhpZookeeper.System.Watches
import PhpZookeeper.System.Abandoned
import PhpZookeeper.System.Serializable
import PhpZookeeper.System.Reads
import PhpZookeeper.System.Connecting
import PhpZookeeper.Client.Versions
import PhpZookeeper.Client.Registry
import PhpZookeeper.Client.SessionWatcher
import PhpZookeeper.Client.NodeWatches
import PhpZookeeper.Client.AclArgument
import PhpZookeeper.Client.Handles
import PhpZookeeper.Client.Identity
import PhpZookeeper.Lock.Place
import PhpZookeeper.Lock.Listing
import PhpZookeeper.Lock.Unlock
import PhpZookeeper.Lock.Fresh
import PhpZookeeper.Lock.Order
import PhpZookeeper.Lock.Buffers
import PhpZookeeper.System.Isolation
import PhpZookeeper.System.Policy
import PhpZookeeper.System.Confinement
import PhpZookeeper.System.Provenance
import PhpZookeeper.System.Fairness
import PhpZookeeper.Client.Updates
import PhpZookeeper.Session.Lifetime
import PhpZookeeper.System.Handover
import PhpZookeeper.System.Expiry
