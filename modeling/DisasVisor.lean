import DisasVisor.Vpn.Soundness
import DisasVisor.Vpn.Classification
import DisasVisor.Pro1000.SegmentRun
import DisasVisor.Pro1000.Sendvirt
import DisasVisor.Thread.Turns
import DisasVisor.Mm.PageBlocks
import DisasVisor.Mm.PmapCoherence
import DisasVisor.Tty.Recovery
import DisasVisor.Mm.MemoryMapHiding
import DisasVisor.Mm.MempoolContract
import DisasVisor.Ept.Invariant
import DisasVisor.CpuMmu.GuestWalk
import DisasVisor.SeMemory.ListRuns
import DisasVisor.Vpn.Ip6Headers
import DisasVisor.Vpn.ReceivedSlices
import DisasVisor.Vpn.ArpRuns
import DisasVisor.Vpn.IkeRoundTrip
import DisasVisor.Pci.Window
import DisasVisor.Usb.UhciContainment
import DisasVisor.Ata.BusMasterRuns
import DisasVisor.Pro1000.LoopProgress
import DisasVisor.Pro1000.RingDrain
import DisasVisor.Timer.Interleavings
import DisasVisor.Dbgsh.WakeUps
import DisasVisor.Pci.Renumbering
import DisasVisor.Process.Syscalls
import DisasVisor.Process.Incarnations
import DisasVisor.Mm.Processes
import DisasVisor.VirtioNet.Send
import DisasVisor.Tty.Udp
import DisasVisor.Vpn.Icmp6Options
import DisasVisor.Vpn.Lifetimes
import DisasVisor.Vpn.DhcpOptions
import DisasVisor.Vpn.Eui64
import DisasVisor.Vpn.Ip6TextForm
import DisasVisor.CpuMmu.AllOrNothing
import DisasVisor.Cache.MtrrPlaces
import DisasVisor.Pci.Capabilities
import DisasVisor.Pci.DriverOptions
import DisasVisor.Usb.UhciShadow
import DisasVisor.Pci.Bars
import DisasVisor.Pci.FakeCommand
import DisasVisor.Process.Creation
import DisasVisor.Vpn.TcpMss
import DisasVisor.Pci.DriverSelection
import DisasVisor.Core.AmlStacks
import DisasVisor.Ahci.Shadowing
import DisasVisor.Ata.PrdTables
import DisasVisor.Storage.AesXts
import DisasVisor.Ata.AtapiTracking
import DisasVisor.Vpn.KernelTimers
import DisasVisor.Usb.MscdCounters
import DisasVisor.Core.PrintfIntegers
import DisasVisor.Vga.DialogLayout
import DisasVisor.Vga.FenceTables
import DisasVisor.Vga.IntelSplits
import DisasVisor.Rtl8169.Transmit
import DisasVisor.Vpn.Tunnel
