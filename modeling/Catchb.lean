import Catchb.Lib.Run
import Catchb.Lib.Traverse
import Catchb.Lib.Latest
import Catchb.Lib.Keyed
import Catchb.Lib.Text
import Catchb.Lib.Sql
import Catchb.Types
import Catchb.Switch
import Catchb.Database
import Catchb.Analyzer
import Catchb.Daemon
import Catchb.Handlers
import Catchb.Analysis
import Catchb.Sha1
import Catchb.Fingerprint
import Catchb.CameraThreads
import Catchb.SwitchThreads
import Catchb.Proofs.Effects
import Catchb.Proofs.Control
import Catchb.Proofs.DenyFollows
import Catchb.Proofs.Release
import Catchb.Proofs.Policy
import Catchb.Proofs.Recorded
import Catchb.Proofs.Roster
import Catchb.Proofs.Persist
import Catchb.Proofs.Verdict
import Catchb.Proofs.SameHash
import Catchb.Proofs.CameraLifetime
import Catchb.Proofs.SwitchLifetime
import Catchb.Lib.Reconcile
import Catchb.CheckNew
import Catchb.Proofs.UniqueIDs
import Catchb.Proofs.Reconciled
import Catchb.MsgQueue
import Catchb.Proofs.Delivery
import Catchb.Lib.Linked
import Catchb.LinkedList
import Catchb.Proofs.Sequence
import Catchb.Proofs.Iterations
import Catchb.Buffer
import Catchb.Proofs.Fifo
import Catchb.Proofs.Stream
import Catchb.Proofs.Isolation
import Catchb.Client
import Catchb.Proofs.Replies
import Catchb.Lib.Layout
import Catchb.Params
import Catchb.Service
import Catchb.Stubs
import Catchb.Proofs.Lengths
import Catchb.Session
import Catchb.Proofs.Framing
import Catchb.Proofs.ListBounds
import Catchb.Proofs.CreateFails
import Catchb.Lib.Catalog
import Catchb.SwitchStore
import Catchb.Proofs.AddSwitch
import Catchb.Proofs.Restore
import Catchb.Proofs.StoreRefines
import Catchb.Lib.Lease
import Catchb.Ssid
import Catchb.ServiceCall
import Catchb.Proofs.SessionGate
import Catchb.Proofs.SessionDelete
import Catchb.ServerSessions
import Catchb.Proofs.ServerLifetime
import Catchb.Proofs.Orphans
import Catchb.Lib.Shell
import Catchb.Lib.Quoting
import Catchb.Lib.Program
import Catchb.Json
import Catchb.Cgi
import Catchb.CgiDaemon
import Catchb.CgiSyslog
import Catchb.Proofs.SyslogCommand
import Catchb.CgiSystem
import Catchb.CgiPost
import Catchb.Proofs.Authenticated
import Catchb.Lib.Chain
import Catchb.Aes
import Catchb.Proofs.Cipher
import Catchb.Credentials
import Catchb.Proofs.Logins
import Catchb.Config
import Catchb.Proofs.ConfigCycle
import Catchb.Settings
import Catchb.Proofs.SetConfig
import Catchb.Proofs.PartialUpdate
import Catchb.Lib.DotLines
import Catchb.Smtpc
import Catchb.Proofs.MailDelivery
import Catchb.Lib.Deadline
import Catchb.EventTimer
import Catchb.Proofs.Dispatch
import Catchb.AlarmStore
import Catchb.Proofs.AlarmMirror
import Catchb.Lib.Heap
import Catchb.StatisticsStore
import Catchb.Proofs.StatisticsKept
import Catchb.Lib.Paging
import Catchb.LogStore
import Catchb.Proofs.LogPaging
import Catchb.Proofs.StatisticsSlices
import Catchb.Alarms
import Catchb.Proofs.AlarmUpdate
import Catchb.Proofs.AlarmSlices
import Catchb.Proofs.PropertyUpdate
import Catchb.Lib.Ranks
import Catchb.Proofs.LogDeletion
import Catchb.Lib.Numerals
import Catchb.Proofs.LogRetention
import Catchb.SwitchScript
import Catchb.Proofs.ScriptLoad
import Catchb.Proofs.Turns
import Catchb.Lib.Loop
import Catchb.SetAC
import Catchb.Proofs.ScriptApplied
import Catchb.Lib.Assignments
import Catchb.Webadmin
import Catchb.Proofs.ProfileKept
import Catchb.Proofs.TimerAdds
import Catchb.Proofs.HashDigits
import Catchb.Proofs.ArpLookup
import Catchb.Capture
import Catchb.Proofs.FilterFits
import Catchb.Lib.Walk
import Catchb.Packet
import Catchb.Score
import Catchb.Proofs.OptionWalk
import Catchb.Proofs.OptionsEnd
import Catchb.Proofs.Sections
import Catchb.Proofs.ScoreReads
import Catchb.Proofs.ScoreLocality
import Catchb.Proofs.CaptureOrder
import Catchb.Proofs.CaptureBounds
import Catchb.Ping
import Catchb.Proofs.PingVerdict
import Catchb.Proofs.TimerRuns
import Catchb.Proofs.Rearmed
import Catchb.Time
import Catchb.Proofs.TimeSums
import Catchb.Proofs.TimeShifts
import Catchb.Lib.Scan
import Catchb.TimeString
import Catchb.Proofs.TimeStrings
import Catchb.Base64Codec
import Catchb.Proofs.Sextets
import Catchb.Proofs.Encodings
import Catchb.Proofs.LongPush
import Catchb.Proofs.TelnetWrites
import Catchb.ListLock
import Catchb.Lib.Ordered
import Catchb.Proofs.OrderedInsert
import Catchb.Proofs.ListLocks
import Catchb.Proofs.IteratorLive
import Catchb.FtmShell
import Catchb.Proofs.CommandTable
import Catchb.Proofs.ShellLine
import Catchb.Proofs.PostDispatch
import Catchb.StringCalls
import Catchb.Proofs.StringFits
import Catchb.Proofs.TelnetReads
import Catchb.ListPages
import Catchb.Proofs.PagedReads
import Catchb.Trace
import Catchb.Proofs.TraceFits
import Catchb.ListCleanup
import Catchb.Proofs.ListCleanups
import Catchb.Proofs.FirstReaders
import Catchb.ReaderLocks
import Catchb.Proofs.LockBalance
import Catchb.Proofs.StatusTrail
import Catchb.Lib.InPlace
import Catchb.TelnetEvents
import Catchb.Telnet
import Catchb.Lib.Negotiation
import Catchb.Proofs.TelnetStream
import Catchb.Proofs.TelnetTable
import Catchb.Proofs.TelnetWire
import Catchb.Proofs.TelnetAgree
import Catchb.Proofs.TelnetDelivery
import Catchb.Proofs.TelnetIntegrity
import Catchb.Proofs.TelnetInPlace
import Catchb.Proofs.TelnetRoundTrip
import Catchb.TelnetThread
import Catchb.Proofs.TelnetThreads
import Catchb.Proofs.TelnetRefusals
import Catchb.Lib.Absorb
import Catchb.Proofs.HashStream
import Catchb.Lib.Generations
import Catchb.Proofs.TraceKept
import Catchb.Proofs.TelnetLines
import Catchb.Proofs.PingChecksum
