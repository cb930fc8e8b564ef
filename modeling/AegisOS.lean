import AegisOS.AegisFsCrash
import AegisOS.AegisFsSpace
import AegisOS.ChannelDelivery
import AegisOS.ConfigPartition
import AegisOS.ConnectionOwners
import AegisOS.Dhcp
import AegisOS.DnsFilter
import AegisOS.FileCalls
import AegisOS.FormValue
import AegisOS.HeapRuns
import AegisOS.HttpRequest
import AegisOS.Initramfs
import AegisOS.KernelThreads
import AegisOS.MemoryMapping
import AegisOS.PacketFilter
import AegisOS.PacketOwnership
import AegisOS.PacketReads
import AegisOS.RestartRuns
import AegisOS.RoundRobin
import AegisOS.SchedulingSafety
import AegisOS.SecureBootField
import AegisOS.SendStream
import AegisOS.ServiceManager
import AegisOS.SharedDevice
import AegisOS.SlotReclaim
import AegisOS.SocketReads
import AegisOS.TableRoom
import AegisOS.TcpStream
import AegisOS.Vfs
import AegisOS.WaitErrors
import AegisOS.WebRoot
