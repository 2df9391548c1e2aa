import Xv6.Proof.Refinement
import Xv6.Proof.AgeingBlock
import Xv6.Proof.Ageing
import Xv6.Proof.Counters
import Xv6.Proof.Priority
import Xv6.Proof.Creation
import Xv6.Proof.Snapshot
import Xv6.Proof.Killed
import Xv6.Proof.Spinlock
import Xv6.Proof.Sleep
import Xv6.Proof.PipeSleep
import Xv6.Proof.FileTable
import Xv6.Proof.FileIO
import Xv6.Proof.Console
import Xv6.Proof.Bio
import Xv6.Proof.Log
import Xv6.Proof.Reservation
import Xv6.Proof.InodeLifetime
import Xv6.Proof.InodeLayer
import Xv6.Proof.FsFailedWrite
import Xv6.Proof.AddressSpace
import Xv6.Proof.Memmove
import Xv6.Proof.Syscall
import Xv6.Proof.Mp
import Xv6.Proof.Grep
