import Determinant.Foundations.FallibleState
import Determinant.Foundations.FallibleFolds
import Determinant.Foundations.Indistinguishable
import Determinant.Foundations.Behaviours
import Determinant.Foundations.NestedLoops
import Determinant.Foundations.WhileLoops
import Determinant.Foundations.Threads
import Determinant.Foundations.Traces
import Determinant.Foundations.BufferedStreams
import Determinant.Foundations.LittleEndian
import Determinant.Foundations.Regions
import Determinant.Foundations.WriteLogs
import Determinant.Foundations.Streams
import Determinant.Foundations.Traps
import Determinant.Foundations.BitPatterns
import Determinant.Foundations.Fields
import Determinant.Foundations.WordArithmetic
import Determinant.Foundations.BitStrings
import Determinant.Foundations.Text
import Determinant.Foundations.Reading
import Determinant.Foundations.ParseInt
import Determinant.Foundations.Digits
import Determinant.Foundations.Differences
import Determinant.Instructions.Base
import Determinant.Instructions.Extensions
import Determinant.Instructions.Multiplication
import Determinant.Instructions.Instruction
import Determinant.Instructions.BitManipulation
import Determinant.Instructions.Names
import Determinant.Decoders.Compressed
import Determinant.Decoders.Branch
import Determinant.Decoders.Decoded
import Determinant.Decoders.Registry
import Determinant.Decoders.Agreement
import Determinant.Decoders.Encoders
import Determinant.Decoders.FieldRoundTrip
import Determinant.Decoders.InstructionWords
import Determinant.Decoders.CompressedForms
import Determinant.Decoders.ExtensionWords
import Determinant.Cpu.Machine
import Determinant.Cpu.Execute
import Determinant.Cpu.Commit
import Determinant.Cpu.Steps
import Determinant.Cpu.Effects
import Determinant.Cpu.Accesses
import Determinant.Cpu.CompressedCode
import Determinant.Cpu.Fetch
import Determinant.Cpu.Run
import Determinant.Cpu.Slicing
import Determinant.Cpu.PreciseFaults
import Determinant.Cpu.Snapshot
import Determinant.Cpu.SnapshotCodec
import Determinant.Cpu.HostApi
import Determinant.Cpu.DecodeCache
import Determinant.Cpu.RejectedSnapshot
import Determinant.Cpu.DescribeFault
import Determinant.Cpu.Footprint
import Determinant.Cpu.Ready
import Determinant.Cpu.Atomics
import Determinant.Cpu.LoadsStores
import Determinant.Cpu.Computation
import Determinant.Cpu.Multiplication
import Determinant.Cpu.BitManipulation
import Determinant.Cpu.CsrAccess
import Determinant.Host.Hostcall
import Determinant.Host.Requests
import Determinant.Host.GuestIo
import Determinant.Host.ZeroRegister
import Determinant.Host.LargerMemory
import Determinant.Host.Resume
import Determinant.Host.Loader
import Determinant.Host.Segments
import Determinant.Host.LoaderSafety
import Determinant.Host.ElfImage
import Determinant.Host.Actions
import Determinant.Host.Reachable
import Determinant.Host.Reservations
import Determinant.Host.CallEffects
import Determinant.Cli.CommandLine
import Determinant.Cli.Disasm
import Determinant.Cli.Listing
import Determinant.Cli.RepeatedOptions
import Determinant.Cli.Report
import Determinant.Cli.Dump
import Determinant.Cli.ReadDump
import Determinant.Cli.TraceLine
import Determinant.Cli.Args
import Determinant.Cli.AssemblyText
import Determinant.Cli.Groups
import Determinant.Cli.ParseSafety
import Determinant.Cli.OptionOrder
import Determinant.Cli.AcceptedConfig
import Determinant.Cli.Execute
import Determinant.Cli.TraceInvisible
import Determinant.Cli.TraceReplay
import Determinant.Cli.Load
import Determinant.Cli.RunProgram
import Determinant.Cli.Reporting
import Determinant.Cli.OutputOrder
import Determinant.Cli.SafeRun
import Determinant.Cli.GuestProgram
import Determinant.Cli.SlicedRun
import Determinant.Cli.LoadedProgram
import Determinant.Cli.WholeRun
import Determinant.Cli.LimitedRun
import Determinant.Cli.ReportingOptions
import Determinant.Foundations.PartialMaps
import Determinant.Isa.Architecture
import Determinant.Isa.Refinement
import Determinant.Tools.VerifyDecoder
import Determinant.Tools.SpikeRunner
import Determinant.Tools.SpikeTrace
