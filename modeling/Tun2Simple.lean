import Tun2Simple.Lib.Run
import Tun2Simple.Lwip.Proof.Deliveries
import Tun2Simple.Lwip.Proof.FragTrip
import Tun2Simple.Lwip.Proof.InetChksum
import Tun2Simple.Lwip.Proof.RxWindow
import Tun2Simple.Lwip.Proof.Timeouts
import Tun2Simple.Lib.Ip
import Tun2Simple.Lib.Cidr
import Tun2Simple.Lib.Slice
import Tun2Simple.Lib.Parse
import Tun2Simple.Utils.Proof.ParseHost
import Tun2Simple.Utils.Proof.Sni
import Tun2Simple.Utils.Proof.Sound
import Tun2Simple.Core.Proof.Lifetime
import Tun2Simple.Core.Proof.Wakeup
import Tun2Simple.Core.Proof.HalfClose
import Tun2Simple.Core.Proof.Orphan
import Tun2Simple.Core.Proof.KeyCell
import Tun2Simple.Core.Proof.Input
import Tun2Simple.Core.Proof.Mutex
import Tun2Simple.Core.Proof.Receive
import Tun2Simple.Core.Proof.Callback
import Tun2Simple.Core.Proof.Write
import Tun2Simple.Core.Proof.Output
import Tun2Simple.Core.Proof.Deliver
import Tun2Simple.Stack.Proof.Relay
import Tun2Simple.Stack.Proof.Echo
import Tun2Simple.Stack.Proof.Bypass
import Tun2Simple.Stack.Proof.Handle
import Tun2Simple.Stack.Proof.Sniff
import Tun2Simple.Stack.Proof.Cache
import Tun2Simple.Stack.Proof.Target
import Tun2Simple.Stack.Proof.UdpClose
import Tun2Simple.Stack.Proof.UdpSocket
import Tun2Simple.Stack.Proof.UdpForward
import Tun2Simple.Stack.Proof.CloseStack
import Tun2Simple.Stack.Proof.DnsPivot
import Tun2Simple.Socks.Proof.Addr
import Tun2Simple.Socks.Proof.Handshake
