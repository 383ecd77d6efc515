import ToiletOS.Sched.NoLostWakeup
import ToiletOS.Sched.SwitchSafety
import ToiletOS.Device.IoqueueWaiters
import ToiletOS.Device.IoqueueDeadlock
import ToiletOS.Device.IoqueueLayout
import ToiletOS.Mem.FrameSupply
import ToiletOS.Mem.AllocSafety
import ToiletOS.Lists.Refinement
import ToiletOS.Interrupt.Entry
import ToiletOS.Mbr.ImageLoading
import ToiletOS.Mem.FreshPages
import ToiletOS.Mem.FailedAlloc
import ToiletOS.Console.TextEnd
import ToiletOS.Console.CursorDrift
import ToiletOS.Mem.PoolLayout
import ToiletOS.Mem.ScanReads
import ToiletOS.Sched.TimeSlices
import ToiletOS.Device.KeyboardText
import ToiletOS.Mbr.MemoryDetect
import ToiletOS.Mem.OneMapping
import ToiletOS.Libs.StringSearch
import ToiletOS.Libs.StringCompare
import ToiletOS.Libs.Messages
import ToiletOS.Interrupt.Idt
import ToiletOS.Console.TextBounds
import ToiletOS.Sched.InitThread
import ToiletOS.Console.PrintAsm
import ToiletOS.Sched.FlagDiscipline
import ToiletOS.Device.Timer
import ToiletOS.Sched.WalkSafety
import ToiletOS.Interrupt.Pic
import ToiletOS.Sched.BoundedWaiting
import ToiletOS.Mem.PrivatePages
import ToiletOS.Mem.TotalMemory
import ToiletOS.Console.ConsoleLock
import ToiletOS.Device.KeyboardReaders
import ToiletOS.Mem.LowMemory
import ToiletOS.Interrupt.Dispatch
import ToiletOS.Sched.ThreadPages
