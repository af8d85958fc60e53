import Gozarbin.Account.Routes
import Gozarbin.Bridges.Cache
import Gozarbin.Bridges.Reachable
import Gozarbin.Dns.EchDnsText
import Gozarbin.Egress
import Gozarbin.ExitLoc.CountryLists
import Gozarbin.Fragment.Sending
import Gozarbin.Gateways.GoolRescan
import Gozarbin.Gateways.MasqueCandidates
import Gozarbin.Https.Chunking
import Gozarbin.Https.Cuts
import Gozarbin.Identity.Enrolled
import Gozarbin.Identity.GoolDevice
import Gozarbin.Identity.Saved
import Gozarbin.LastConn
import Gozarbin.Masque.Datagram
import Gozarbin.Masque.InnerBudget
import Gozarbin.Masque.Lengths
import Gozarbin.Masque.Malformed
import Gozarbin.Masque.Outbound
import Gozarbin.Net.ProbePacket
import Gozarbin.Netstack.Download
import Gozarbin.Netstack.Ports
import Gozarbin.Netstack.Replies
import Gozarbin.Netstack.Upload
import Gozarbin.Obfuscate.StripJs
import Gozarbin.Psiphon.Config
import Gozarbin.Router.Firewall
import Gozarbin.Router.History
import Gozarbin.Router.Watchdog
import Gozarbin.Routing.Absolute
import Gozarbin.Routing.Lists
import Gozarbin.Sniff.Http
import Gozarbin.Socks.AbsoluteForm
import Gozarbin.Socks.Answer
import Gozarbin.Socks.Direct
import Gozarbin.Socks.HeadForwarded
import Gozarbin.Tls.EchConfig
import Gozarbin.Tls.EchSession
import Gozarbin.Tls.TrustAnchors
import Gozarbin.Update.Fetch
import Gozarbin.Update.Manifest
import Gozarbin.Upstream.Ownership
import Gozarbin.Upstream.UdpHeader
import Gozarbin.ZeroTrust.Entities
import Gozarbin.ZeroTrust.Pairs
