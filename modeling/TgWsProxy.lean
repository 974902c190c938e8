import TgWsProxy.Control
import TgWsProxy.FakeTls
import TgWsProxy.FakeTlsReading
import TgWsProxy.Front
import TgWsProxy.FrontServed
import TgWsProxy.H2.Accounts
import TgWsProxy.H2.BridgeSafety
import TgWsProxy.H2.Generations
import TgWsProxy.H2.NativeFraming
import TgWsProxy.H2.PoolSafety
import TgWsProxy.H2.Reassembly
import TgWsProxy.H2.Remember
import TgWsProxy.H2.ReplaySelection
import TgWsProxy.H2.Room
import TgWsProxy.H2.Termination
import TgWsProxy.H2.Waiting
import TgWsProxy.Installer.Atomicity
import TgWsProxy.Listener
import TgWsProxy.Packetized
import TgWsProxy.ProxyHeader
import TgWsProxy.Relay
import TgWsProxy.SavedConfig
import TgWsProxy.Service
import TgWsProxy.SharedWriter
import TgWsProxy.Stats
import TgWsProxy.Update.Exclusion
import TgWsProxy.Update.Flags
import TgWsProxy.Update.Handoff
import TgWsProxy.Update.Recovery
import TgWsProxy.Update.Worker
import TgWsProxy.Upstream.DomainPool
import TgWsProxy.Upstream.HttpBody
import TgWsProxy.Upstream.RouteSafety
import TgWsProxy.Upstream.TcpFallback
import TgWsProxy.Upstream.UpgradeAnswers
import TgWsProxy.Upstream.WarmPools
import TgWsProxy.Web.AccessControl
import TgWsProxy.Web.RequestWriting
import TgWsProxy.WireReading
