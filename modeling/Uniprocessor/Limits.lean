/-!
# Limits and machine constants

The sizes a process supervisor is built with, and the constants of the machine it runs on:
page and stack sizes, segment selectors and the initial processor flags.
-/

namespace Uniprocessor

/-- Exclusive upper bound on process identifiers. Identifier 0 is reserved. -/
def pidBound : Nat := 32768

/-- Bytes in a page. -/
def pageSize : Nat := 4096

/-- Pages behind each user and each kernel stack. -/
def stackPages : Nat := 1

/-- Bytes kept free at the top of a fresh stack. -/
def stackReserve : Nat := 1

/-- Most process records that can be live at once. -/
def processBound : Nat := pidBound - 1

/-- Most parent-to-child links that can be live at once. -/
def childLinkBound : Nat := pidBound - 1

/-- Most signals that can be pending at once, over all processes. -/
def pendingSignalBound : Nat := 4096

/-- Kernel code segment. -/
def kernelCode : UInt16 := 0x08

/-- Kernel data segment. -/
def kernelData : UInt16 := 0x10

/-- User data segment, privilege level 3. -/
def userData : UInt16 := 0x1B

/-- User code segment, privilege level 3. -/
def userCode : UInt16 := 0x23

/-- Processor flags of a new context: interrupts enabled, reserved bit 1 set. -/
def freshProcessorFlags : UInt64 := 0x200 ||| 0x2

/-- What happens to a state change that the life cycle does not allow. -/
inductive Strictness where
  /-- The change is reported and ignored. -/
  | lenient
  /-- The kernel halts. -/
  | strict
  deriving DecidableEq

/-- The limits of one process supervisor. -/
structure Limits where
  /-- Exclusive upper bound of the identifiers. -/
  pids : Nat := pidBound
  /-- Capacity of the pool of process records. -/
  processes : Nat := processBound
  /-- Capacity of the pool of child links. -/
  links : Nat := childLinkBound
  /-- Capacity of the pool of pending signals. -/
  signals : Nat := pendingSignalBound
  /-- Treatment of illegal state changes. -/
  policy : Strictness := .lenient
  deriving DecidableEq

/-- The limits of a kernel that asks for nothing else. -/
def Limits.standard : Limits := {}

end Uniprocessor
