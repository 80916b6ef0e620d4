import NioApps.Lib.Links
import NioApps.Lib.Loop
import NioApps.Lib.Machine
import NioApps.Lib.Search
import NioApps.Lib.Script
import NioApps.Lib.Custody
import NioApps.AmigaDos.Lockdiag
import NioApps.AmigaDos.Inhibit
import NioApps.AmigaDos.Diskinspect
import NioApps.AmigaDos.Dynamicdosnode
import NioApps.Lib.Text
import NioApps.Lib.Scan
import NioApps.Fnsvc.ListBounds
import NioApps.Fnsvc.ListRegion
import NioApps.Fnsvc.ListProgress
import NioApps.Fnsvc.ListEncode
import NioApps.Fnsvc.ListExact
import NioApps.Fnsvc.ResolvePath
import NioApps.Fnsvc.ResolveBounds
import NioApps.Fnsvc.ResolveOutputs
import NioApps.Fnsvc.RequestFrames
import NioApps.Fnsvc.Disk
import NioApps.Fnsvc.DiskContract
import NioApps.Fnsvc.DiagnosticsHistory
import NioApps.Fnsvc.DiskSlots
import NioApps.Fnctl.AppStore
import NioApps.Fnctl.State
import NioApps.Fnctl.Uncached
import NioApps.Fnctl.Agreement
import NioApps.Fnctl.Registers
import NioApps.Fnctl.Amiga
import NioApps.Fnctl.Programs
import NioApps.Fnctl.FailedSet
import NioApps.Fnctl.FailedLoad
import NioApps.Fnctl.FailedSlot
import NioApps.Fnctl.MsdosBackend
import NioApps.Fnctl.MsdosRuns
import NioApps.Nio.ReadSector
import NioApps.Nio.DiskInfo
import NioApps.Nio.Hexdump
import NioApps.Nio.Nioread
import NioApps.Nio.Nioprobe
import NioApps.Checksum.Reference
import NioApps.Checksum.Detection
import NioApps.Lib.Regex
import NioApps.Msdos.Fat83
import NioApps.Msdos.CollectEntries
import NioApps.Msdos.CollectOrder
import NioApps.Msdos.CaseFolding
import NioApps.Msdos.BuildImage
import NioApps.Fhttpbin.Library
import NioApps.Fhttpbin.ReadBody
import NioApps.Fhttpbin.BuildUrl
import NioApps.Fhttpbin.RunCase
import NioApps.Fhttpbin.Endless
import NioApps.Fhttpbin.Main
import NioApps.Irqmon.Sampling
import NioApps.Irqmon.Vectors
import NioApps.Irqmon.Counters
import NioApps.Irqmon.Screen
import NioApps.Lib.Mos6502
import NioApps.Bbc.ReadLine
import NioApps.Checksum.Benchmark
import NioApps.Checksum.BenchmarkMain
import NioApps.Astest.Store
import NioApps.Clock.Main
