import CLib.Base.Runs
import CLib.Base.Stdio
import CLib.Base.Cuts
import CLib.Base.CString
import CLib.Base.Descriptors
import CLib.Base.Getopt
import CLib.Base.Holders
import CLib.Base.Lines
import CLib.Mysql.Checker
import CLib.Mysql.Commit
import CLib.Mysql.Descriptors
import CLib.Mysql.Exception
import CLib.Mysql.Expressions
import CLib.Mysql.Keys
import CLib.Mysql.Reports
import CLib.Mysql.Restart
import CLib.Mysql.Suspects
import CLib.PingPong.Exclusion
import CLib.Queue.LinkedQueue
import CLib.Queue.Fifo
import CLib.Server.Assembly
import CLib.Server.Framing
import CLib.Server.Config
import CLib.Server.Conservation
import CLib.Server.Console
import CLib.Server.DayEnd
import CLib.Server.Filter
import CLib.Server.Growth
import CLib.Server.Retirement
import CLib.Server.Sockets
import CLib.Server.Offsets
import CLib.Server.QueueLimit
import CLib.Server.Admission
import CLib.Server.Records
import CLib.Server.Settings
import CLib.Agent.Stream
import CLib.Agent.Selection
import CLib.Console.Arguments
import CLib.Sync.BoundedBuffer
import CLib.Sync.SingleProducer
import CLib.Messages.Ownership
import CLib.Messages.Wakeup
import CLib.Echo.Servers
import CLib.MyShell.MainLoop
import CLib.MyShell.Redirection
import CLib.MyShell.Pipes
import CLib.MyShell.Blocking
import CLib.MyShell.Table
import CLib.Settings.Buffers
import CLib.Mysql.PrintReport
import CLib.Monitor.CpuIdle
import CLib.Socket.Transfer
import CLib.Socket.Process
import CLib.Echo.Select
import CLib.Echo.Poll
import CLib.PingPong.Lines
import CLib.Server.Locks
import CLib.Server.Grouping
import CLib.Server.System
import CLib.Mysql.Totals
import CLib.Mysql.Verdicts
import CLib.Base.Links
import CLib.Db.Scan
import CLib.Objects.Progress
import CLib.Jobs.Runs
import CLib.Printer.Once
