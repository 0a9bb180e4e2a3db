import Minix.Kernel.ReadyQueue
import Minix.Kernel.Delivery
import Minix.Fs.Streams
import Minix.Fs.Counts
import Minix.Mm.Acknowledge
import Minix.Malloc.Calls
import Minix.Inet.Timers
import Minix.Inet.Answering
import Minix.Stdio.Sessions
import Minix.Kernel.Umap
import Minix.Kernel.Wakeups
import Minix.Mm.Script
import Minix.Kernel.SerialRuns
import Minix.Cache.Runs
import Minix.Kernel.Alarm
import Minix.Mm.Sigsuspend
import Minix.Mm.Hangup
import Minix.Disk.NewBlock
import Minix.Fs.Nonblock
import Minix.Fs.Unlocking
import Minix.Paths.EatPath
import Minix.Disk.InodeRoundTrip
import Minix.Inet.TcpWindow
import Minix.Inet.UdpChecksums
import Minix.Inet.UdpDelivery
import Minix.Inet.IcmpReplies
import Minix.Inet.FrameSizes
import Minix.Inet.QueueRuns
import Minix.Drive.Extended
import Minix.Drive.OpenCount
import Minix.Ansi.Qsort
import Minix.Ansi.Bsearch
import Minix.Kernel.OutProcess
import Minix.Terminal.InputQueue
import Minix.Ansi.Strtol
import Minix.Boot.Lookup
import Minix.Inet.TcpQueueRuns
import Minix.Stdio.Formatting
