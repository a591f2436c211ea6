import Mymuduo.Transition
import Mymuduo.ByteQueue
import Mymuduo.OutputPath
import Mymuduo.CallbackProtocol
import Mymuduo.FunctorQueue
import Mymuduo.Wakeup
import Mymuduo.Quit
import Mymuduo.FlushBeforeFin
import Mymuduo.Registration
import Mymuduo.BufferBounds
import Mymuduo.StateOrder
import Mymuduo.QuitRequest
import Mymuduo.Handshake
import Mymuduo.ConnectionTable
import Mymuduo.Confinement
import Mymuduo.Ownership
import Mymuduo.Teardown
import Mymuduo.SizeLimits
import Mymuduo.BufferGrowth
import Mymuduo.OutputEvents
import Mymuduo.WriteComplete
import Mymuduo.RoundRobin
import Mymuduo.InputPath
import Mymuduo.Delivery
import Mymuduo.Descriptors
import Mymuduo.EventList
import Mymuduo.StartUp
import Mymuduo.AddressText
import Mymuduo.EchoServer
import Mymuduo.Acceptor
import Mymuduo.Rest
import Mymuduo.Announcements
import Mymuduo.Assignment
