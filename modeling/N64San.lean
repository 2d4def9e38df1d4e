import N64San.Core.Transaction
import N64San.Core.Interleaving
import N64San.Core.Parallel
import N64San.Core.CircularBuffer
import N64San.Core.BigEndian
import N64San.Core.Mips
import N64San.Core.Varargs
import N64San.Core.Format
import N64San.Core.Terminal
import N64San.Core.Codec
import N64San.Core.Numbers
import N64San.Wrapper.IsViewer
import N64San.Wrapper.Print
import N64San.Wrapper.Cells
import N64San.Wrapper.Sequential
import N64San.Wrapper.Placement
import N64San.Wrapper.Session
import N64San.Wrapper.Calls
import N64San.Wrapper.Callback
import N64San.Wrapper.Interference
import N64San.Wrapper.Fifo
import N64San.Wrapper.Delivery
import N64San.Wrapper.Confinement
import N64San.Wrapper.Threads
import N64San.Wrapper.Pool
import N64San.Wrapper.PoolSafety
import N64San.Wrapper.InitRace
import N64San.Wrapper.Accesses
import N64San.Asm.ShiftHelpers
import N64San.Ubsan.Runtime
import N64San.Ubsan.Value
import N64San.Ubsan.Decode
import N64San.Ubsan.Diag
import N64San.Ubsan.Handlers
import N64San.Ubsan.Classify
import N64San.Ubsan.Recovery
import N64San.Ubsan.Descriptors
import N64San.Ubsan.Domain
import N64San.Ubsan.Findings
import N64San.Ubsan.Mismatch
import N64San.Ubsan.Formats
import N64San.Ubsan.Runs
import N64San.Ubsan.Log
import N64San.Ubsan.Places
import N64San.Ubsan.EndToEnd
import N64San.Ubsan.Linked
import N64San.Ubsan.Operands
import N64San.Ubsan.FloatCast
import N64San.Ubsan.CastRecords
