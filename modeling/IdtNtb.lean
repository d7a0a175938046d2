import IdtNtb.Lib.Transition
import IdtNtb.Lib.Bytes
import IdtNtb.Lib.History
import IdtNtb.Lib.Strtoull
import IdtNtb.Lib.Framing
import IdtNtb.Lib.Mailbox
import IdtNtb.Lib.Slots
import IdtNtb.Lib.Fairness
import IdtNtb.Lib.Strtol
import IdtNtb.Lib.Ledger
import IdtNtb.Lib.Parties
import IdtNtb.Lib.WaitQueue
import IdtNtb.Device.Registers
import IdtNtb.Device.Layout
import IdtNtb.Device.State
import IdtNtb.Device.Window
import IdtNtb.Device.Aliases
import IdtNtb.Device.Messages
import IdtNtb.Device.Mmio
import IdtNtb.Device.Paths
import IdtNtb.Device.Handlers
import IdtNtb.Device.InboundWindow
import IdtNtb.Device.Doorbells
import IdtNtb.Device.MessageRegisters
import IdtNtb.Device.MessageInterrupts
import IdtNtb.Device.Masks
import IdtNtb.Device.DoorbellMask
import IdtNtb.Device.Isolation
import IdtNtb.Channel.Commands
import IdtNtb.Channel.Lane
import IdtNtb.Channel.Delivery
import IdtNtb.Channel.Guarantees
import IdtNtb.Fabric.Server
import IdtNtb.Fabric.Machine
import IdtNtb.Fabric.PeerTable
import IdtNtb.Fabric.Vectors
import IdtNtb.Fabric.Identity
import IdtNtb.Fabric.Aliases
import IdtNtb.Fabric.Signals
import IdtNtb.Fabric.Freshness
import IdtNtb.Fabric.Interrupts
import IdtNtb.Fabric.Setup
import IdtNtb.Fabric.Startup
import IdtNtb.Fabric.Stream
import IdtNtb.Kernel.Ntb
import IdtNtb.Kernel.LifeCycle
import IdtNtb.Kernel.MwTrans
import IdtNtb.Kernel.Translation
import IdtNtb.Kernel.Exposure
import IdtNtb.App.Driver
import IdtNtb.App.Frames
import IdtNtb.App.Announcements
import IdtNtb.App.Handshake
import IdtNtb.App.Bounds
import IdtNtb.App.Integrity
import IdtNtb.App.Readiness
import IdtNtb.App.Writable
import IdtNtb.App.Consumption
import IdtNtb.App.Waiting
import IdtNtb.Sisci.Driver
import IdtNtb.Sisci.Machine
import IdtNtb.Sisci.Mappings
import IdtNtb.Sisci.Window
import IdtNtb.Sisci.Agreement
import IdtNtb.Sisci.Release
import IdtNtb.Sisci.Creation
import IdtNtb.Sisci.Waiting
import IdtNtb.Sisci.Handles
import IdtNtb.Ring.Layout
import IdtNtb.Ring.Machine
import IdtNtb.Ring.Geometry
import IdtNtb.Ring.SizeArg
import IdtNtb.Ring.Invariant
import IdtNtb.Ring.Queue
import IdtNtb.Ring.Sender
import IdtNtb.Ring.Startup
import IdtNtb.Ring.Progress
import IdtNtb.Ring.Bridge
import IdtNtb.Profile.Options
import IdtNtb.Profile.SisciEndpoint
import IdtNtb.Profile.SisciLeftover
