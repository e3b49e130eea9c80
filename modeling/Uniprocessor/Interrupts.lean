/-!
# Interrupt masking

Processes are only touched with interrupts masked. A critical section masks them on entry and
remembers whether it has to unmask them when it is left, so sections nest and only the one that
masked unmasks.
-/

namespace Uniprocessor

/-- An interrupt flag that counts how often it was cleared. -/
structure InterruptFlag where
  enabled : Bool
  /-- Number of changes from enabled to disabled. -/
  disables : Nat
  deriving DecidableEq

/-- A critical section under way. -/
structure CriticalSection where
  /-- Whether interrupts were enabled when the section was entered. -/
  restore : Bool
  deriving DecidableEq

namespace InterruptFlag

/-- Interrupts enabled, never cleared. -/
def initial : InterruptFlag := ⟨true, 0⟩

def enable (f : InterruptFlag) : InterruptFlag := { f with enabled := true }

def disable (f : InterruptFlag) : InterruptFlag := ⟨false, f.disables + f.enabled.toNat⟩

/-- Enters a critical section. -/
def enter (f : InterruptFlag) : CriticalSection × InterruptFlag :=
  (⟨f.enabled⟩, if f.enabled then f.disable else f)

/-- Leaves a critical section. -/
def leave (f : InterruptFlag) (guard : CriticalSection) : InterruptFlag :=
  if guard.restore then f.enable else f

/-- Runs `body` inside a critical section. -/
def masked {α : Type} (f : InterruptFlag) (body : InterruptFlag → α × InterruptFlag) :
    α × InterruptFlag :=
  let (guard, inside) := f.enter
  let (a, after) := body inside
  (a, after.leave guard)

/-- The flag as seen on the way into `depth` nested critical sections and out again. -/
def observeNested : Nat → InterruptFlag → List Bool × InterruptFlag
  | 0, f => ([], f)
  | depth + 1, f =>
    let (seen, after) := f.masked (observeNested depth)
    (f.enabled :: seen ++ [after.enabled], after)

end InterruptFlag

/-- How a machine controls its interrupts. -/
inductive Interrupts where
  /-- Through a flag. -/
  | flag (f : InterruptFlag)
  /-- Interrupts are always masked. -/
  | alwaysMasked
  deriving DecidableEq

namespace Interrupts

/-- The kinds of interrupt control. -/
inductive Kind where
  | flag | alwaysMasked
  deriving DecidableEq

def kind : Interrupts → Kind
  | flag _ => .flag
  | alwaysMasked => .alwaysMasked

def enable : Interrupts → Interrupts
  | flag f => flag f.enable
  | alwaysMasked => alwaysMasked

def disable : Interrupts → Interrupts
  | flag f => flag f.disable
  | alwaysMasked => alwaysMasked

/-- Enters a critical section. -/
def enter : Interrupts → CriticalSection × Interrupts
  | flag f => (f.enter.1, flag f.enter.2)
  | alwaysMasked => (⟨false⟩, alwaysMasked)

/-- Leaves a critical section. -/
def leave (c : Interrupts) (guard : CriticalSection) : Interrupts :=
  if guard.restore then c.enable else c

end Interrupts

end Uniprocessor
