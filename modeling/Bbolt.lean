import Bbolt.Page.Basic
import Bbolt.Page.Leaf
import Bbolt.Page.Merge
import Bbolt.Tx.Basic
import Bbolt.Tx.Write
import Bbolt.Tx.Freelist
import Bbolt.Tx.Commit
import Bbolt.Tx.Durability
import Bbolt.Tx.Lifecycle
import Bbolt.Tx.Walk
import Bbolt.Tx.Stats
import Bbolt.Tx.Snapshot
