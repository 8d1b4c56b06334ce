import Sonic.Dict
import Sonic.Ipaddress
import Sonic.IpaddressText
import Sonic.Manager
import Sonic.Mlacp
import Sonic.MlacpPair
import Sonic.MlacpState
import Sonic.MlacpSteps
import Sonic.MlacpSync
import Sonic.MlacpTurn
import Sonic.Run
import Sonic.StaticBfd
import Sonic.StaticBfdMirror
import Sonic.StaticBfdRoutes
import Sonic.StaticBfdRow
import Sonic.StaticBfdSession
import Sonic.StaticBfdSteps
import Sonic.StaticBfdXref
import Sonic.Text
import Sonic.Tsa
import Sonic.Batch
import Sonic.Scan
import Sonic.AllowList
import Sonic.AllowListFrame
import Sonic.AllowListNames
import Sonic.AllowListValid
import Sonic.AllowListStore
import Sonic.AllowListRead
import Sonic.AllowListEntries
import Sonic.AllowListConverge
import Sonic.AllowListAgain
import Sonic.AllowListDelete
import Sonic.AllowListRunner
import Sonic.EventCache
import Sonic.Lines
import Sonic.StaticRoute
import Sonic.StaticRouteLines
import Sonic.StaticRouteRedist
import Sonic.AggregateAddress
import Sonic.PrefixList
import Sonic.Srv6
import Sonic.AdvertiseRoute
import Sonic.ListenRange
import Sonic.LocalAddresses
import Sonic.ProcExit
import Sonic.FrrCanonical
import Sonic.BfdSession
import Sonic.Iccp
import Sonic.FrrCache
import Sonic.PrefixSet
import Sonic.PrefixSetRows
import Sonic.Sll
import Sonic.Segment
import Sonic.SllHeap
import Sonic.SllRefine
import Sonic.AppTimer
import Sonic.AppTimerDeadlines
import Sonic.BalancedTree
import Sonic.Avl
import Sonic.AvlRep
import Sonic.AvlRotate
import Sonic.AvlSearch
import Sonic.AvlInsert
import Sonic.AvlRemove
import Sonic.AvlRuns
import Sonic.IccpMac
import Sonic.IccpMacAge
import Sonic.IccpMacPair
import Sonic.IccpMacAgree
import Sonic.IccpStream
import Sonic.IccpNak
import Sonic.IccpSync
import Sonic.FrrBgp
import Sonic.FrrBgpRows
import Sonic.FrrBgpHeld
import Sonic.FrrBgpRuns
import Sonic.FrrKeyMap
import Sonic.EventCapture
import Sonic.DhcpDbMonitor
import Sonic.DhcpLease
import Sonic.DhcpRelayd
import Sonic.EventConsume
import Sonic.EventAlarms
import Sonic.EventHistory
import Sonic.EventPurge
import Sonic.PassKey
import Sonic.PacVlan
import Sonic.DhcpCfggen
import Sonic.DhcpPorts
import Sonic.DhcpCfggenSound
import Sonic.DhcpReads
import Sonic.DhcpRefresh
import Sonic.Bgpmon
import Sonic.Breakout
import Sonic.YangPath
import Sonic.YangPathCache
import Sonic.XpathScan
import Sonic.StaticRouteAgree
