import Lampi.Run.RearrangeHostList
import Lampi.Run.ServerConnect
import Lampi.Queue.GroupPool
import Lampi.Interface.Equiv.BsendInfo
import Lampi.Queue.Equiv.ContextID
import Lampi.Interface.Equiv.CommCreate
import Lampi.Interface.Equiv.GroupOps
import Lampi.Collective.Equiv.Barrier
import Lampi.Interface.Equiv.IntercommCreate
import Lampi.Queue.Equiv.SeqTrackingMoves
import Lampi.Collective.Equiv.Bcast
import Lampi.Path.Equiv.UdpTransfer
import Lampi.Path.Equiv.SmpDelivery
import Lampi.Path.Equiv.UdpAck
import Lampi.Path.Equiv.ResendLinks
import Lampi.Path.Equiv.AckLedger
import Lampi.Collective.Equiv.ReduceHosts
import Lampi.Path.Equiv.Tcp
import Lampi.Queue.Equiv.Probe
import Lampi.Collective.Equiv.Allgather
