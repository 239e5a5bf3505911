import ApueFormal.Database.Alone
import ApueFormal.Database.Complete
import ApueFormal.Database.Failure
import ApueFormal.Database.Handles
import ApueFormal.Database.Intact
import ApueFormal.Database.SharedScan
import ApueFormal.Fmemopen.Frame
import ApueFormal.Fmemopen.Refine
import ApueFormal.Ftw.Model
import ApueFormal.Ftw.Walk
import ApueFormal.OpenServer.BufArgs
import ApueFormal.OpenServer.Csopen
import ApueFormal.OpenServer.Exchange
import ApueFormal.OpenServer.FdPass
import ApueFormal.OpenServer.Packed
import ApueFormal.OpenServer.Poll
import ApueFormal.OpenServer.Request
import ApueFormal.OpenServer.Select
import ApueFormal.Pollmsg.Progress
import ApueFormal.Popen.Child
import ApueFormal.Printer.Client
import ApueFormal.Printer.Delivery
import ApueFormal.Printer.Inside
import ApueFormal.Printer.Jobno
import ApueFormal.Printer.Pending
import ApueFormal.Printer.Queue
import ApueFormal.Printer.Returns
import ApueFormal.Printer.Send
import ApueFormal.Printer.Signature
import ApueFormal.Printer.Spool
import ApueFormal.Printer.Submit
import ApueFormal.Printer.Transfer
import ApueFormal.Printer.Whole
import ApueFormal.Printer.Workers
import ApueFormal.Program.Merge
import ApueFormal.Rot13.Copy
import ApueFormal.Semaphore.Create
import ApueFormal.TellWait.Wakeup
import ApueFormal.Threads.Barrier
import ApueFormal.Threads.Condvar
import ApueFormal.Threads.Refine
import ApueFormal.Threads.Rwlock
import ApueFormal.Threads.Safety
import ApueFormal.Ttyname.Found
