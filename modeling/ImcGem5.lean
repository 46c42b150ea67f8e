import ImcGem5.Lib.Bytes
import ImcGem5.Lib.Runs
import ImcGem5.Mem.Packet
import ImcGem5.Mem.Abstract
import ImcGem5.Mem.InMemory
import ImcGem5.Mem.Controller
import ImcGem5.Proofs.Controller
import ImcGem5.Proofs.Dispatch
import ImcGem5.Proofs.Conservation
import ImcGem5.Isa.Harts
import ImcGem5.Proofs.Delivery
import ImcGem5.Isa.Encoding
import ImcGem5.Lib.Bits
import ImcGem5.Proofs.Encoding
import ImcGem5.Proofs.InMemory
import ImcGem5.Proofs.Modular
import ImcGem5.Proofs.Modes
import ImcGem5.Proofs.Reservation
import ImcGem5.Isa.Reference
import ImcGem5.Proofs.Refinement
import ImcGem5.Lib.Line
import ImcGem5.Mem.Layer
import ImcGem5.Proofs.Layer
import ImcGem5.Mem.Crossbar
import ImcGem5.Proofs.Routing
import ImcGem5.Proofs.RoutingTable
import ImcGem5.Base.AddrRangeMap
import ImcGem5.Proofs.RangeMap
import ImcGem5.Base.Trie
import ImcGem5.Lib.Prefixes
import ImcGem5.Proofs.Trie
import ImcGem5.Riscv.Tlb
import ImcGem5.Proofs.Tlb
import ImcGem5.Sim.EventQueue
import ImcGem5.Proofs.EventQueue
import ImcGem5.Mem.PacketQueue
import ImcGem5.Proofs.PacketQueue
import ImcGem5.Riscv.Pmp
import ImcGem5.Proofs.Pmp
import ImcGem5.Proofs.Functional
import ImcGem5.Lib.Blocks
import ImcGem5.Mem.StackDist
import ImcGem5.Proofs.StackDist
import ImcGem5.Riscv.Csr
import ImcGem5.Riscv.Hart
import ImcGem5.Proofs.Privilege
import ImcGem5.Proofs.Checkpoint
import ImcGem5.Proofs.Interrupts
import ImcGem5.Riscv.Walker
import ImcGem5.Proofs.Walks
import ImcGem5.Proofs.Transparent
import ImcGem5.Riscv.Sv39
import ImcGem5.Proofs.Sv39
import ImcGem5.Mem.Mshr
import ImcGem5.Proofs.Mshr
import ImcGem5.Proofs.Clean
import ImcGem5.Mem.SnoopFilter
import ImcGem5.Proofs.SnoopFilter
import ImcGem5.Lib.Lru
import ImcGem5.Mem.Falru
import ImcGem5.Proofs.Falru
import ImcGem5.Mem.PortProxy
import ImcGem5.Proofs.Blob
import ImcGem5.Mem.Dram
import ImcGem5.Proofs.Retries
import ImcGem5.Proofs.Bursts
import ImcGem5.Proofs.Ledger
import ImcGem5.Proofs.Accounting
import ImcGem5.Mem.Bridge
import ImcGem5.Proofs.Bridge
import ImcGem5.Lib.UndoLog
import ImcGem5.Cpu.Rename
import ImcGem5.Proofs.Rename
import ImcGem5.Sim.MemState
import ImcGem5.Proofs.Regions
import ImcGem5.Lib.Euclid
import ImcGem5.Proofs.Inverse
import ImcGem5.Proofs.FullWidth
import ImcGem5.Proofs.Faults
import ImcGem5.Proofs.ResponseOrder
import ImcGem5.Proofs.Timely
import ImcGem5.Proofs.Tracking
import ImcGem5.Lib.BitGaps
import ImcGem5.Lib.Parities
import ImcGem5.Base.AddrRange
import ImcGem5.Proofs.Interleave
import ImcGem5.Lib.Containers
import ImcGem5.Dev.Plic
import ImcGem5.Proofs.Plic
import ImcGem5.Lib.Ownership
import ImcGem5.Sim.SEWorkload
import ImcGem5.Proofs.SEWorkload
import ImcGem5.Mem.MemChecker
import ImcGem5.Proofs.MemChecker
import ImcGem5.Lib.CarryLess
import ImcGem5.Riscv.Alu
import ImcGem5.Proofs.Multiply
import ImcGem5.Proofs.CarryLess
import ImcGem5.Proofs.Views
import ImcGem5.Proofs.PmpTable
import ImcGem5.Lib.Cuts
import ImcGem5.Proofs.Exclude
import ImcGem5.Proofs.Subset
import ImcGem5.Lib.Overlay
import ImcGem5.Proofs.Gather
import ImcGem5.Proofs.Newest
import ImcGem5.Proofs.CfgMirror
import ImcGem5.Proofs.TlbSlots
import ImcGem5.Base.IniFile
import ImcGem5.Sim.Serialize
import ImcGem5.Proofs.IniFile
import ImcGem5.Proofs.Serialize
import ImcGem5.Lib.Codec
import ImcGem5.Mem.Compressor
import ImcGem5.Proofs.Patterns
import ImcGem5.Proofs.Chunks
import ImcGem5.Proofs.Compressor
import ImcGem5.Lib.Seesaw
import ImcGem5.Mem.TreePlru
import ImcGem5.Proofs.TreePlru
import ImcGem5.Lib.FeedbackRegister
import ImcGem5.Mem.SkewedAssociative
import ImcGem5.Proofs.SkewedAssociative
import ImcGem5.Proofs.Requestors
import ImcGem5.Proofs.Locations
import ImcGem5.Lib.Summary
import ImcGem5.Proofs.TargetFlags
import ImcGem5.Lib.PrefixCodes
import ImcGem5.Lib.Huffman
import ImcGem5.Mem.Huffman
import ImcGem5.Proofs.Huffman
import ImcGem5.Lib.Smear
import ImcGem5.Mem.CompressedTags
import ImcGem5.Proofs.Superblocks
import ImcGem5.Isa.Rv64
import ImcGem5.Isa.Compressed
import ImcGem5.Isa.Expansion
import ImcGem5.Proofs.Expansion
import ImcGem5.Lib.NodeList
import ImcGem5.Mem.MshrQueue
import ImcGem5.Proofs.MshrQueue
import ImcGem5.Proofs.ReadyOrder
import ImcGem5.Proofs.TrapReturn
import ImcGem5.Riscv.TlbCheckpoint
import ImcGem5.Proofs.TlbCheckpoint
import ImcGem5.Proofs.CheckerAsserts
import ImcGem5.Mem.CommandBus
import ImcGem5.Proofs.CommandBus
import ImcGem5.Proofs.PlicClaims
import ImcGem5.Base.ChunkGenerator
import ImcGem5.Proofs.Skips
import ImcGem5.Mem.TranslationGen
import ImcGem5.Proofs.Iterators
import ImcGem5.Proofs.Allocation
import ImcGem5.Base.IntMath
import ImcGem5.Proofs.WideProduct
import ImcGem5.Base.SatCounter
import ImcGem5.Proofs.SatCounter
import ImcGem5.Cpu.StoreSet
import ImcGem5.Proofs.StoreSets
import ImcGem5.Base.RangeCache
import ImcGem5.Proofs.RangeCache
import ImcGem5.Lib.Ring
import ImcGem5.Dev.DmaReadFifo
import ImcGem5.Proofs.DmaReadFifo
