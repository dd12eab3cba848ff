import M6502.Lib.Prog
import M6502.Lib.Run
import M6502.Lib.Loop
import M6502.Lib.Sampling
import M6502.Lib.Cells
import M6502.Lib.Digits
import M6502.Lib.Leads
import M6502.Lib.Isa
import M6502.Lib.IsaRun
import M6502.Lib.Shared
import M6502.Lib.CText
import M6502.Lib.CNumber
import M6502.Lib.TextLines
import M6502.Memory
import M6502.Ti74ls138
import M6502.Constants
import M6502.Olc6502
import M6502.Clock
import M6502.System
import M6502.Wozmon
import M6502.PrgLoader
import M6502.Main
import M6502.Shell
import M6502.Program
import M6502.Monitor
import M6502.Proof.Bus.Decode
import M6502.Proof.Bus.Access
import M6502.Proof.Bus.Store
import M6502.Proof.Bus.Word
import M6502.Proof.Cpu.Dispatch
import M6502.Proof.Cpu.Lockstep
import M6502.Proof.Cpu.Step
import M6502.Proof.Cpu.Operand
import M6502.Proof.Cpu.Address
import M6502.Proof.Cpu.Stack
import M6502.Proof.Cpu.RomWrite
import M6502.Proof.Cpu.Budget
import M6502.Proof.Cpu.Timing
import M6502.Proof.Cpu.Run
import M6502.Proof.Cpu.Bounds
import M6502.Proof.Cpu.NextPc
import M6502.Proof.Cpu.Nesting
import M6502.Proof.Cpu.Family
import M6502.Proof.Cpu.Batch
import M6502.Proof.Cpu.Inert
import M6502.Proof.Cpu.Status
import M6502.Proof.Cpu.InterruptFlag
import M6502.Proof.Cpu.Interrupt
import M6502.Proof.Cpu.StatusSave
import M6502.Proof.Cpu.StraightLine
import M6502.Proof.Cpu.Adder
import M6502.Proof.Cpu.Addition
import M6502.Proof.Cpu.Shift
import M6502.Proof.Cpu.BreakBits
import M6502.Proof.Cpu.Independence
import M6502.Proof.Cpu.Compare
import M6502.Proof.Cpu.Subtraction
import M6502.Proof.Cpu.Modify
import M6502.Proof.Cpu.ZeroPagePointer
import M6502.Proof.Cpu.BranchTiming
import M6502.Proof.Cpu.FlagInstructions
import M6502.Proof.Cpu.StackPointer
import M6502.Proof.Host.Keyboard
import M6502.Proof.Host.PrgPieces
import M6502.Proof.Host.PrgFile
import M6502.Proof.Host.PrgRoundTrip
import M6502.Proof.Host.PrgBuffer
import M6502.Proof.Host.PrgMalformed
import M6502.Proof.Host.Stepping
import M6502.Proof.Host.RunReport
import M6502.Proof.Host.WriteString
import M6502.Proof.Host.Capture
import M6502.Proof.Host.CaptureBuffer
import M6502.Proof.Host.CaptureLoss
import M6502.Proof.Isa.Refine
import M6502.Proof.Isa.Simulate
import M6502.Proof.Isa.Flawed
import M6502.Proof.Isa.Code
import M6502.Proof.Monitor.Print
import M6502.Proof.Monitor.Parse
import M6502.Proof.Monitor.Examine
import M6502.Proof.Monitor.Index
import M6502.Proof.Host.RunToEnd
import M6502.Proof.Host.Inspect
import M6502.Proof.Host.Session
import M6502.Proof.Program.Fibonacci
