import Otrix.Arch.Paging
import Otrix.Common.BoundedHashMap
import Otrix.Common.FindFirst
import Otrix.Common.Sequences
import Otrix.Dev.Acpi.Madt
import Otrix.Dev.Acpi.Rsdp
import Otrix.Dev.Pci.Discovery
import Otrix.Dev.Pci.Msix
import Otrix.Dev.VirtioNet.Transmit
import Otrix.Dev.Virtqueue.Concurrent
import Otrix.Dev.Virtqueue.Layout
import Otrix.Kernel.InitHeap
import Otrix.Kernel.Kmem.DoubleFree
import Otrix.Kernel.Kmem.Writes
import Otrix.Kernel.MsgqReaders
import Otrix.Kernel.Scheduler.Removal
import Otrix.Kernel.Scheduler.RoundRobin
import Otrix.Kernel.Scheduler.Timer
import Otrix.Kernel.Timeouts
import Otrix.Kernel.WaitqOrder
import Otrix.Net.ArpReply
import Otrix.Net.EchoServer
import Otrix.Net.PortTable
import Otrix.Net.RefusedMessages
import Otrix.Net.SentChecksums
import Otrix.Net.Subscriptions
import Otrix.Net.TcpAck
import Otrix.Net.TcpCalls
import Otrix.Net.TcpFailedSend
import Otrix.Net.TcpFin
import Otrix.Net.TcpModular
import Otrix.Net.TcpParse
import Otrix.Net.TcpReset
