import AdvancedOS.Cpu.Descriptors
import AdvancedOS.Cpu.Devices
import AdvancedOS.Cpu.Initialize
import AdvancedOS.Fat.Agree
import AdvancedOS.Fat.Alloc
import AdvancedOS.Fat.Back
import AdvancedOS.Fat.Cd
import AdvancedOS.Fat.Chain
import AdvancedOS.Fat.Code
import AdvancedOS.Fat.Codec
import AdvancedOS.Fat.Copy
import AdvancedOS.Fat.Create
import AdvancedOS.Fat.Delete
import AdvancedOS.Fat.Date
import AdvancedOS.Fat.Dir
import AdvancedOS.Fat.Entry
import AdvancedOS.Fat.Gone
import AdvancedOS.Fat.Image
import AdvancedOS.Fat.Listing
import AdvancedOS.Fat.Model
import AdvancedOS.Fat.Names
import AdvancedOS.Fat.NewFile
import AdvancedOS.Fat.RoundTrip
import AdvancedOS.Fat.Runs
import AdvancedOS.Fat.Sectors
import AdvancedOS.Fat.ShortName
import AdvancedOS.Fat.Spec
import AdvancedOS.Fat.Transfer
import AdvancedOS.Fat.Volume
import AdvancedOS.Fat.Walk
import AdvancedOS.Fat.WellFormed
import AdvancedOS.File.Buffers
import AdvancedOS.File.Code
import AdvancedOS.File.Handles
import AdvancedOS.File.Layout
import AdvancedOS.File.Open
import AdvancedOS.File.Read
import AdvancedOS.File.Spec
import AdvancedOS.File.Streams
import AdvancedOS.File.Writes
import AdvancedOS.Keyboard.Keys
import AdvancedOS.Keyboard.Model
import AdvancedOS.Lib.Counting
import AdvancedOS.Lib.Linked
import AdvancedOS.Lib.Lookup
import AdvancedOS.Lib.Numeral
import AdvancedOS.Lib.Packing
import AdvancedOS.Lib.Span
import AdvancedOS.Lib.Strings
import AdvancedOS.Lib.Window
import AdvancedOS.Machine.Effects
import AdvancedOS.Machine.Frames
import AdvancedOS.Machine.Model
import AdvancedOS.Machine.Reach
import AdvancedOS.Machine.Registers
import AdvancedOS.Machine.Stack
import AdvancedOS.Machine.Switch
import AdvancedOS.Programs.Bounce
import AdvancedOS.Programs.Box
import AdvancedOS.Programs.Fruit
import AdvancedOS.Programs.Model
import AdvancedOS.Sched.Fair
import AdvancedOS.Sched.Final
import AdvancedOS.Sched.History
import AdvancedOS.Sched.Join
import AdvancedOS.Sched.Model
import AdvancedOS.Sched.Pid
import AdvancedOS.Sched.Quantum
import AdvancedOS.Sched.Refine
import AdvancedOS.Sched.Table
import AdvancedOS.Sched.Turns
import AdvancedOS.Sched.Wait
import AdvancedOS.Sched.Wf
import AdvancedOS.Sem.Queue
import AdvancedOS.Sem.Safety
import AdvancedOS.Sem.Spec
import AdvancedOS.Shell.Code
import AdvancedOS.Shell.Flag
import AdvancedOS.Shell.Round
import AdvancedOS.Stdio.Agree
import AdvancedOS.Stdio.Atoi
import AdvancedOS.Stdio.Bounds
import AdvancedOS.Stdio.Code
import AdvancedOS.Stdio.Format
import AdvancedOS.Stdio.Input
import AdvancedOS.Stdio.Numeral
import AdvancedOS.Stdio.Output
import AdvancedOS.Str.Memory
import AdvancedOS.Str.Split
import AdvancedOS.Task.Pick
import AdvancedOS.Task.Spec
import AdvancedOS.Terminal.Cursor
import AdvancedOS.Terminal.Line
import AdvancedOS.Terminal.Model
import AdvancedOS.Terminal.Route
import AdvancedOS.Terminal.Screen
import AdvancedOS.Terminal.Switch
import AdvancedOS.Terminal.Window
import AdvancedOS.Thread.Spec
import AdvancedOS.User.Areas
import AdvancedOS.User.Code
import AdvancedOS.User.Load
import AdvancedOS.User.Loader
import AdvancedOS.User.Names
import AdvancedOS.User.Segments
import AdvancedOS.User.Store
import AdvancedOS.User.Torn
