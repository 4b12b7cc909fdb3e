import Derivgrind.Client.Bracket
import Derivgrind.Client.Partials
import Derivgrind.Client.TrickReport
import Derivgrind.Client.Wrapper
import Derivgrind.Helpers.DiffQuotDebug
import Derivgrind.Helpers.DotBitwise
import Derivgrind.Helpers.PackedMask
import Derivgrind.Helpers.SignMask
import Derivgrind.Helpers.TrickActivity
import Derivgrind.Helpers.TrickTool
import Derivgrind.Instrument.BarCode
import Derivgrind.Instrument.CompareSwap
import Derivgrind.Instrument.Components
import Derivgrind.Instrument.Discrete
import Derivgrind.Instrument.DualCode
import Derivgrind.Instrument.DualExprs
import Derivgrind.Instrument.DualProcess
import Derivgrind.Instrument.DualRun
import Derivgrind.Instrument.Emit
import Derivgrind.Instrument.Handle
import Derivgrind.Instrument.IllTyped
import Derivgrind.Instrument.LowestLane
import Derivgrind.Instrument.MinMax
import Derivgrind.Instrument.Origin
import Derivgrind.Instrument.OriginBitwise
import Derivgrind.Instrument.OriginBytes
import Derivgrind.Instrument.OriginCode
import Derivgrind.Instrument.OriginExprs
import Derivgrind.Instrument.OriginProcess
import Derivgrind.Instrument.OriginRun
import Derivgrind.Instrument.OriginStmts
import Derivgrind.Instrument.OriginTable
import Derivgrind.Instrument.OriginTape
import Derivgrind.Instrument.Process
import Derivgrind.Instrument.Recording
import Derivgrind.Instrument.ShadowRegs
import Derivgrind.Instrument.SplitAssemble
import Derivgrind.Instrument.SwapParts
import Derivgrind.Instrument.Table
import Derivgrind.Instrument.Transparent
import Derivgrind.Instrument.TrickWarn
import Derivgrind.Instrument.Typed
import Derivgrind.Instrument.TypedHandle
import Derivgrind.Instrument.TypedStmt
import Derivgrind.Instrument.TypedTable
import Derivgrind.Instrument.Value
import Derivgrind.Instrument.WellFormed
import Derivgrind.Lib.Adjoint
import Derivgrind.Lib.BitArray
import Derivgrind.Lib.ByteMap
import Derivgrind.Lib.ChunkedLog
import Derivgrind.Lib.Chunks
import Derivgrind.Lib.Emitter
import Derivgrind.Lib.Ieee
import Derivgrind.Lib.Lockstep
import Derivgrind.Lib.Loop
import Derivgrind.Lib.Sweep
import Derivgrind.Lib.TextStream
import Derivgrind.Shadow.Calls
import Derivgrind.Shadow.Extended
import Derivgrind.Shadow.Index
import Derivgrind.Shadow.Layers
import Derivgrind.Shadow.Memory
import Derivgrind.Tape.Activity
import Derivgrind.Tape.Append
import Derivgrind.Tape.Bitwise
import Derivgrind.Tape.Equation
import Derivgrind.Tape.Eval
import Derivgrind.Tape.File
import Derivgrind.Tape.Iterate
import Derivgrind.Tape.Main
import Derivgrind.Tape.Operands
import Derivgrind.Tape.Pipeline
import Derivgrind.Tape.Program
import Derivgrind.Tape.Record
import Derivgrind.Tape.RecordStop
import Derivgrind.Tape.Statistics
import Derivgrind.Tape.TextFile
import Derivgrind.Tape.Transpose
import Derivgrind.Tape.Typegrind
import Derivgrind.Tape.Values
import Derivgrind.Vex.Check
import Derivgrind.Vex.Exact
import Derivgrind.Vex.Host
import Derivgrind.Vex.Integers
import Derivgrind.Vex.Lanes
import Derivgrind.Vex.Sem
import Derivgrind.Vex.Syntax
import Derivgrind.Vex.X87
