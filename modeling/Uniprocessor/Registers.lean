import Uniprocessor.Limits

/-!
# Processor registers

The register file of a process and where execution resumes from it. A process that was suspended
inside a system call resumes on its kernel stack with the kernel's segments, any other on its
user stack with the user's.
-/

namespace Uniprocessor

/-- The names of the registers, `flags` being the execution flags kept by the kernel. -/
inductive Register where
  | r15 | r14 | r13 | r12 | rbx | rbp | r11 | r10 | r9 | r8 | rdi | rsi | rdx | rcx | rax
  | ds | es | fs | gs | rip | cs | rflags | rsp | ss | rsp0 | ss0 | cr3 | flags
  deriving DecidableEq

namespace Register

def all : List Register :=
  [r15, r14, r13, r12, rbx, rbp, r11, r10, r9, r8, rdi, rsi, rdx, rcx, rax,
   ds, es, fs, gs, rip, cs, rflags, rsp, ss, rsp0, ss0, cr3, flags]

def name : Register → String
  | r15 => "r15" | r14 => "r14" | r13 => "r13" | r12 => "r12"
  | rbx => "rbx" | rbp => "rbp"
  | r11 => "r11" | r10 => "r10" | r9 => "r9" | r8 => "r8"
  | rdi => "rdi" | rsi => "rsi" | rdx => "rdx" | rcx => "rcx" | rax => "rax"
  | ds => "ds" | es => "es" | fs => "fs" | gs => "gs"
  | rip => "rip" | cs => "cs" | rflags => "rflags" | rsp => "rsp" | ss => "ss"
  | rsp0 => "rsp0" | ss0 => "ss0" | cr3 => "cr3" | flags => "flags"

end Register

/-- The register file of a process. -/
structure Registers where
  r15 : UInt64 := 0
  r14 : UInt64 := 0
  r13 : UInt64 := 0
  r12 : UInt64 := 0
  rbx : UInt64 := 0
  rbp : UInt64 := 0
  r11 : UInt64 := 0
  r10 : UInt64 := 0
  r9 : UInt64 := 0
  r8 : UInt64 := 0
  rdi : UInt64 := 0
  rsi : UInt64 := 0
  rdx : UInt64 := 0
  rcx : UInt64 := 0
  rax : UInt64 := 0
  ds : UInt16 := 0
  es : UInt16 := 0
  fs : UInt16 := 0
  gs : UInt16 := 0
  /-- Instruction pointer. -/
  rip : UInt64 := 0
  cs : UInt16 := 0
  rflags : UInt64 := 0
  /-- User stack pointer. -/
  rsp : UInt64 := 0
  ss : UInt16 := 0
  /-- Kernel stack pointer, used inside a system call. -/
  rsp0 : UInt64 := 0
  ss0 : UInt16 := 0
  /-- Root of the page table. -/
  cr3 : UInt64 := 0
  /-- Execution flags. Bit 0 is set inside a system call. -/
  flags : UInt32 := 0
  deriving DecidableEq

/-- Where and how a process resumes. -/
structure ResumePoint where
  stackPointer : UInt64
  instructionPointer : UInt64
  dataSelector : UInt16
  codeSelector : UInt16
  pageTableRoot : UInt64
  deriving DecidableEq

namespace Registers

/-- All registers zero. -/
def zero : Registers := {}

/-- What a new process starts from: user segments, a kernel stack segment, interrupts on. -/
def baseline : Registers where
  ds := userData
  es := userData
  fs := userData
  gs := userData
  cs := userCode
  rflags := freshProcessorFlags
  ss := userData
  ss0 := kernelData

/-- The execution flag of a process inside a system call. -/
def systemCallFlag : UInt32 := 1

def inSystemCall (r : Registers) : Bool := r.flags &&& systemCallFlag != 0

/-- Sets or clears the system call flag and keeps the other flags. -/
def setInSystemCall (r : Registers) (on : Bool) : Registers :=
  { r with flags := if on then r.flags ||| systemCallFlag else r.flags &&& ~~~ systemCallFlag }

def resumePoint (r : Registers) : ResumePoint :=
  if r.inSystemCall then ⟨r.rsp0, r.rip, kernelData, kernelCode, r.cr3⟩
  else ⟨r.rsp, r.rip, userData, userCode, r.cr3⟩

/-- The value of a register, widened to 64 bits. -/
def read (r : Registers) : Register → UInt64
  | .r15 => r.r15 | .r14 => r.r14 | .r13 => r.r13 | .r12 => r.r12
  | .rbx => r.rbx | .rbp => r.rbp
  | .r11 => r.r11 | .r10 => r.r10 | .r9 => r.r9 | .r8 => r.r8
  | .rdi => r.rdi | .rsi => r.rsi | .rdx => r.rdx | .rcx => r.rcx | .rax => r.rax
  | .ds => r.ds.toUInt64 | .es => r.es.toUInt64 | .fs => r.fs.toUInt64 | .gs => r.gs.toUInt64
  | .rip => r.rip | .cs => r.cs.toUInt64 | .rflags => r.rflags
  | .rsp => r.rsp | .ss => r.ss.toUInt64
  | .rsp0 => r.rsp0 | .ss0 => r.ss0.toUInt64 | .cr3 => r.cr3 | .flags => r.flags.toUInt64

/-- Sets a register, to the low bits of the value where the register is narrower. -/
def write (r : Registers) : Register → UInt64 → Registers
  | .r15, v => { r with r15 := v }
  | .r14, v => { r with r14 := v }
  | .r13, v => { r with r13 := v }
  | .r12, v => { r with r12 := v }
  | .rbx, v => { r with rbx := v }
  | .rbp, v => { r with rbp := v }
  | .r11, v => { r with r11 := v }
  | .r10, v => { r with r10 := v }
  | .r9, v => { r with r9 := v }
  | .r8, v => { r with r8 := v }
  | .rdi, v => { r with rdi := v }
  | .rsi, v => { r with rsi := v }
  | .rdx, v => { r with rdx := v }
  | .rcx, v => { r with rcx := v }
  | .rax, v => { r with rax := v }
  | .ds, v => { r with ds := v.toUInt16 }
  | .es, v => { r with es := v.toUInt16 }
  | .fs, v => { r with fs := v.toUInt16 }
  | .gs, v => { r with gs := v.toUInt16 }
  | .rip, v => { r with rip := v }
  | .cs, v => { r with cs := v.toUInt16 }
  | .rflags, v => { r with rflags := v }
  | .rsp, v => { r with rsp := v }
  | .ss, v => { r with ss := v.toUInt16 }
  | .rsp0, v => { r with rsp0 := v }
  | .ss0, v => { r with ss0 := v.toUInt16 }
  | .cr3, v => { r with cr3 := v }
  | .flags, v => { r with flags := v.toUInt32 }

/-- Sets registers one after the other. -/
def assign (r : Registers) (writes : List (Register × UInt64)) : Registers :=
  writes.foldl (fun r (register, value) => r.write register value) r

end Registers

end Uniprocessor
