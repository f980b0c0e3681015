import Gpiod.Machine
import Gpiod.Table
import Gpiod.Mask
import Gpiod.Numeral
import Gpiod.Keyword
import Gpiod.Trace
import Gpiod.CLong
import Gpiod.CircularList
import Gpiod.Decimal
import Gpiod.Frames
import Gpiod.CString
import Gpiod.Descriptors
import Gpiod.Pin
import Gpiod.PinLabel
import Gpiod.TabScan
import Gpiod.TabField
import Gpiod.TabTotal
import Gpiod.TabArgs
import Gpiod.TabRoute
import Gpiod.TabBounds
import Gpiod.TabBuffer
import Gpiod.TabEnds
import Gpiod.TabCopies
import Gpiod.TabConfined
import Gpiod.Routing
import Gpiod.TabWords
import Gpiod.TabMods
import Gpiod.Fidelity
import Gpiod.TabVisible
import Gpiod.Layout
import Gpiod.Unknown
import Gpiod.Dispatch
import Gpiod.EdgeSelect
import Gpiod.Oneshot
import Gpiod.Books
import Gpiod.Launches
import Gpiod.Argv
import Gpiod.Broadcast
import Gpiod.Stream
import Gpiod.Instants
import Gpiod.Config
import Gpiod.Recognisers
import Gpiod.Channel
import Gpiod.Changed
import Gpiod.FailedRead
import Gpiod.Loop
import Gpiod.LoopSetup
import Gpiod.PollTimer
import Gpiod.ListHead
import Gpiod.LoopLists
import Gpiod.Phantom
import Gpiod.Interference
import Gpiod.SingleEdge
import Gpiod.Sampling
import Gpiod.Delivery
import Gpiod.Children
import Gpiod.NoLoop
import Gpiod.Reap
import Gpiod.Signals
import Gpiod.LoopOps
import Gpiod.Clients
import Gpiod.Registry
import Gpiod.Hangup
import Gpiod.Wrappers
import Gpiod.Chips
import Gpiod.SysfsPin
import Gpiod.InitPins
import Gpiod.CleanupPin
import Gpiod.LoopLedger
import Gpiod.PidFile
import Gpiod.PidRead
import Gpiod.NullList
import Gpiod.UtHash
import Gpiod.UtHashRep
import Gpiod.UtHashRun
import Gpiod.ChipTable
import Gpiod.PidTable
import Gpiod.Resync
import Gpiod.Sessions
import Gpiod.Wire
import Gpiod.EventLoop
import Gpiod.Views
import Gpiod.AtRest
import Gpiod.Stretch
import Gpiod.TabDir
import Gpiod.HookHeap
import Gpiod.HookLoad
import Gpiod.HookLife
import Gpiod.Ledger
import Gpiod.Trigger
