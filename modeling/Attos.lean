import Attos.Net.TransmitRing
import Attos.DefaultHeap
import Attos.TreeSearch
import Attos.ProcessChain
import Attos.Net.Bounds
import Attos.Net.ReceiveRing
import Attos.Net.OpenSockets
import Attos.Net.IcmpEcho
import Attos.Net.DhcpOptions
import Attos.Net.TftpDuplicates
import Attos.Net.TftpTransfers
import Attos.Aml.NameResolution
import Attos.Aml.PackageExtents
import Attos.Aml.Overruns
import Attos.Aml.MissingChildren
import Attos.Aml.ScopeMerge
import Attos.Net.ArpCache
import Attos.Ps2.Controller
import Attos.Pe.FunctionLookup
import Attos.Lib.RadixWalk
import Attos.TableOwnership
import Attos.Net.TftpSessions
import Attos.TextScreen
import Attos.Smap
import Attos.ConstructMm
import Attos.DoubleFree
import Attos.Lib.Chains
import Attos.Pci.Probe
import Attos.MemoryWindows
import Attos.Containers.VectorRuns
import Attos.Disasm.Registers
import Attos.Lib.Fifo
import Attos.Ps2.QueueRuns
import Attos.MappingConflicts
import Attos.Net.TftpFilename
import Attos.Asm.Win64Unwind
import Attos.Asm.InterruptGates
import Attos.Asm.ContextSwitch
import Attos.Asm.Crt
import Attos.IrqHandlers
import Attos.Boot.Image
