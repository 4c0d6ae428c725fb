import LMalz.Lib.LinkChain
import LMalz.Handler.HandlerClass
import LMalz.Handler.BoundedList
import LMalz.Lib.Transition
import LMalz.Pool.Allocator
import LMalz.Pool.Safety
import LMalz.Buffer.OrShaIo
import LMalz.Buffer.Chunks
import LMalz.Buffer.Refinement
import LMalz.Buffer.Invariant
import LMalz.Buffer.Representation
import LMalz.Buffer.Delivery
import LMalz.Ept.Entry
import LMalz.Ept.Tables
import LMalz.Lib.PageTree
import LMalz.Ept.EptCls
import LMalz.Ept.Walk
import LMalz.Ept.Edits
import LMalz.Ept.SetPte
import LMalz.Ept.CopyOnWrite
import LMalz.Ept.ConstEpt
import LMalz.Ept.IdentityMap
import LMalz.Ept.Isolation
import LMalz.Ept.Permissions
import LMalz.Monitor.SetTarget
import LMalz.Monitor.Complementarity
import LMalz.Monitor.Runs
import LMalz.Monitor.Violation
import LMalz.Vmx.Core
import LMalz.Vmx.ExitHandlers
import LMalz.Vmx.Start
import LMalz.Vmx.Dispatch
import LMalz.Vmx.Emulation
import LMalz.Vmx.NmiWindow
import LMalz.Host.PageTables
import LMalz.Host.Window
import LMalz.Host.RebuildPath
import LMalz.Host.Forest
import LMalz.Host.PrivatePaths
import LMalz.Host.GbPages
import LMalz.Host.Rebuilds
import LMalz.Host.HostCr3
import LMalz.Vmx.MsrBitmap
import LMalz.Vmx.MtrrCoherence
import LMalz.Handler.Concurrent
import LMalz.Lib.Fields
import LMalz.Lib.StructLayout
import LMalz.Buffer.Contents
import LMalz.Send.CopyData
import LMalz.Send.SendType
import LMalz.Send.Send
import LMalz.Send.Fields
import LMalz.Send.Put
import LMalz.Send.RoundTrip
import LMalz.Buffer.Interleaved
import LMalz.Buffer.Cells
import LMalz.Buffer.Ownership
import LMalz.Buffer.InterleavedSteps
import LMalz.Buffer.InterleavedSafety
import LMalz.Buffer.Existing
import LMalz.Buffer.FreeSpace
import LMalz.Vmx.MsrBitmapUpdates
import LMalz.Host.SetAllPa
import LMalz.Host.AccessMemory
import LMalz.Host.ByteAccess
import LMalz.Monitor.Fetch
import LMalz.Ept.Chains
import LMalz.Ept.Histories
import LMalz.Ept.Termination
import LMalz.Monitor.Touched
import LMalz.Ept.ConstPages
import LMalz.Ept.Accesses
import LMalz.Ept.LargePages
import LMalz.Ept.OnlyPage
import LMalz.Lib.LeastScan
import LMalz.Mtrr.Resolution
import LMalz.Vmx.RegisterResults
import LMalz.Vmx.CoreIndex
import LMalz.Host.SafeCopy
import LMalz.Host.Setters
import LMalz.Send.MtfHandler
import LMalz.Vmx.Segments
import LMalz.Host.MonitoredCalls
import LMalz.Host.MonitoredRuns
import LMalz.Errput.Print
import LMalz.Errput.Render
import LMalz.Lib.Numeral
import LMalz.Errput.NumberText
import LMalz.Errput.Formats
import LMalz.Errput.Numbers
import LMalz.Errput.ErrString
import LMalz.Lib.Asm
import LMalz.Vmx.GuestSwitch
import LMalz.Vmx.Launch
import LMalz.Host.HostIdt
import LMalz.Host.Interrupts
import LMalz.Vmx.Controls
import LMalz.Buffer.Order
import LMalz.Monitor.Reports
import LMalz.Monitor.Caches
import LMalz.Monitor.Images
