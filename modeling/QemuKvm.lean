import QemuKvm.Lib.Run
import QemuKvm.Lib.ChainTable
import QemuKvm.QObject.QDict
import QemuKvm.Lib.Align
import QemuKvm.Lib.Bits
import QemuKvm.Lib.Cursor
import QemuKvm.Migration.State
import QemuKvm.Block.CloneDisk
import QemuKvm.Exec.Dirty
import QemuKvm.Migration.Ram
import QemuKvm.Kvm.Slots
import QemuKvm.Memory.FlatView
import QemuKvm.Memory.Api
import QemuKvm.Memory.Priority
import QemuKvm.Lib.Bsearch
import QemuKvm.Memory.Topology
import QemuKvm.Memory.Ioeventfd
import QemuKvm.Migration.QemuFile
import QemuKvm.Virtio.Load
import QemuKvm.Virtio.Ring
import QemuKvm.Lib.Word
import QemuKvm.Migration.Xbzrle
import QemuKvm.Migration.PageCache
import QemuKvm.Migration.RamXbzrle
import QemuKvm.Json.Lexer
import QemuKvm.Json.Parser
import QemuKvm.Lib.Utf8
import QemuKvm.Json.RoundTrip
import QemuKvm.Json.Quotes
import QemuKvm.Json.Nesting
import QemuKvm.Migration.RamLoad
import QemuKvm.Lib.OnesComplement
import QemuKvm.Net.Checksum
import QemuKvm.Virtio.Chain
import QemuKvm.Migration.CacheResize
import QemuKvm.Lib.WordShift
import QemuKvm.Tcg.Op
import QemuKvm.Tcg.Expand
import QemuKvm.Tcg.Host32
import QemuKvm.Lib.LinkedCycle
import QemuKvm.Tcg.Optimize
import QemuKvm.Lib.RestoringDiv
import QemuKvm.X86.Div
import QemuKvm.X86.Div64
import QemuKvm.Lib.HighMask
import QemuKvm.Exec.Tlb
import QemuKvm.X86.Mmu
import QemuKvm.Block.Qed
import QemuKvm.Block.QedCheck
import QemuKvm.Migration.CacheSize
import QemuKvm.Block.Qcow2Cluster
import QemuKvm.Block.Qcow2Refcount
import QemuKvm.Block.Qcow2RefcountUpdate
import QemuKvm.Lib.Scatter
import QemuKvm.Util.Iov
import QemuKvm.Util.QemuOption
import QemuKvm.Coroutine.Lock
import QemuKvm.Block.Tracked
import QemuKvm.Lib.CArith
import QemuKvm.Tcg.Fold
import QemuKvm.Block.QedL2Cache
import QemuKvm.Lib.HeapList
import QemuKvm.Exec.Tb
import QemuKvm.Exec.TbLists
import QemuKvm.Exec.TbInv
import QemuKvm.Exec.TbGen
import QemuKvm.Exec.TbRun
import QemuKvm.Tcg.Liveness
import QemuKvm.Tcg.LivenessSim
import QemuKvm.Migration.Buffered
import QemuKvm.Migration.FileRead
import QemuKvm.Migration.Stream
import QemuKvm.Lib.LeMem
import QemuKvm.Virtio.Net
