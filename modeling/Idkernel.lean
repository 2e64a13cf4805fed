import Idkernel.Traced
import Idkernel.Locks
import Idkernel.Runs
import Idkernel.Address
import Idkernel.Abi
import Idkernel.Files
import Idkernel.Paging
import Idkernel.Elf
import Idkernel.Capability
import Idkernel.Kernel
import Idkernel.CapabilityCalls
import Idkernel.ContextCalls
import Idkernel.FileCalls
import Idkernel.MemoryCalls
import Idkernel.Syscalls
import Idkernel.Changes
import Idkernel.Attenuation
import Idkernel.ShareTransfer
import Idkernel.HandOff
import Idkernel.Reachable
import Idkernel.HandlerLocks
import Idkernel.RoundRobin
import Idkernel.RunQueue
import Idkernel.PhysAuthority
import Idkernel.BootFrames
import Idkernel.UserHalf
import Idkernel.ElfLoad
import Idkernel.Effects
import Idkernel.Isolation
import Idkernel.Linearity
import Idkernel.Confinement
import Idkernel.Conservation
import Idkernel.FamilyTree
import Idkernel.PathWalk
import Idkernel.UserBuffers
import Idkernel.Intrusive
import Idkernel.KernelHeap
import Idkernel.HeapSafety
import Idkernel.ContextSwitch
import Idkernel.UserStack
import Idkernel.SwitchSchedule
import Idkernel.SyscallEntry
import Idkernel.SyscallStubs
import Idkernel.TaskStacks
import Idkernel.HeapFrames
import Idkernel.HeapMapping
import Idkernel.HeapRoundTrip
import Idkernel.PageTables
import Idkernel.TableDrop
import Idkernel.BootCleanup
import Idkernel.Numbered
import Idkernel.HandleHistories
import Idkernel.Descriptors
import Idkernel.FileReads
import Idkernel.Objects
import Idkernel.LinkedList
import Idkernel.FirstFit
import Idkernel.StartedProcess
import Idkernel.TwoRuns
import Idkernel.HeapPaging
import Idkernel.FrameLeaks
import Idkernel.FreshPages
import Idkernel.Taking
import Idkernel.HostileImages
import Idkernel.AddressArithmetic
import Idkernel.GlobalKernel
import Idkernel.HeapAccounting
import Idkernel.HeapArea
import Idkernel.PathResolution
import Idkernel.BoundedWaiting
import Idkernel.Spans
import Idkernel.PageRanges
import Idkernel.Lines
import Idkernel.AsmMacros
import Idkernel.RegionFits
import Idkernel.Listings
import Idkernel.Watched
import Idkernel.ElfPointers
import Idkernel.Raster
import Idkernel.Terminal
import Idkernel.Framebuffer
import Idkernel.Console
import Idkernel.Deeds
import Idkernel.AuthorityFlow
import Idkernel.ThreadData
import Idkernel.MultiCore
import Idkernel.BringUp
import Idkernel.Interrupts
