import Std.Data.ExtTreeMap.Lemmas
import Uniprocessor.Session
import Uniprocessor.Proofs.Pools
import Uniprocessor.Proofs.Refinement

/-!
# Views of a supervisor

A view is what can be observed of a supervisor: a finite map from identifiers to processes, whose
children and signals are plain lists, besides the running process, the registers on the processor,
the memory, and the room that the heap has for records. The commands of a session are given here once more, as they act on views, without
slots, chains, shared pools and notices. Where one step takes several resources, or gives several
back, a view changes at once.
-/

namespace Uniprocessor

/-- What can be observed of a process. -/
structure ProcessView (space : Type) where
  state : ProcessState
  previous : ProcessState
  context : Registers
  space : Option space
  userStack : Option UInt64
  kernelStack : Option UInt64
  parent : Option Pid
  children : List Pid
  signals : List UInt8
  entry : UInt64
  exitStatus : Option Int32

/-- The view of a record whose child list and signal queue contain the given sequences. -/
def ProcessRecord.view {space : Type} (p : ProcessRecord space) (children : List Pid)
    (signals : List UInt8) : ProcessView space :=
  ⟨p.state, p.previous, p.context, p.space, p.userStack, p.kernelStack, p.parent, children, signals,
   p.entry, p.exitStatus⟩

namespace ProcessView

variable {space : Type}

/-- A new process without a parent. -/
def fresh (entry : UInt64) : ProcessView space where
  state := .created
  previous := .created
  context := { Registers.baseline with rip := entry }
  space := none
  userStack := none
  kernelStack := none
  parent := none
  children := []
  signals := []
  entry := entry
  exitStatus := none

def isMaterialized (p : ProcessView space) : Bool :=
  p.space.isSome && p.userStack.isSome && p.kernelStack.isSome

def enter (p : ProcessView space) (state : ProcessState) : ProcessView space :=
  { p with previous := p.state, state := state }

def canEnter (p : ProcessView space) (state : ProcessState) : Bool :=
  p.state.canBecome state &&
    !(p.state == .created && !p.isMaterialized && state == .waiting)

end ProcessView

/-- Room for as many records as the limits allow. -/
def Storage.ofLimits (limits : Limits) : Storage where
  processes := min limits.processes Pool.capacityBound
  index := min limits.processes Pool.capacityBound
  links := min limits.links Pool.capacityBound
  signals := min limits.signals Pool.capacityBound

/-- What can be observed of a supervisor. -/
structure View (μ space : Type) where
  limits : Limits
  /-- The room that the heap has, as far as the limits allow to use it. -/
  room : Storage
  memory : μ
  /-- The live processes. -/
  table : Std.ExtTreeMap Pid (ProcessView space)
  running : Option Pid
  active : Registers

namespace View

variable {μ space α : Type}

/-- The view of a supervisor without processes. -/
def ofLimits (limits : Limits) (memory : μ) : View μ space :=
  ⟨limits, .ofLimits limits, memory, ∅, none, .zero⟩

/-! ### Queries -/

def childrenOf (v : View μ space) (pid : Pid) : List Pid := (v.table[pid]?.map (·.children)).getD []

def signalsOf (v : View μ space) (pid : Pid) : List UInt8 :=
  (v.table[pid]?.map (·.signals)).getD []

/-- Number of child links. -/
def linkCount (v : View μ space) : Nat :=
  (v.table.keys.map fun pid => (v.childrenOf pid).length).foldr (· + ·) 0

/-- Number of pending signals. -/
def signalCount (v : View μ space) : Nat :=
  (v.table.keys.map fun pid => (v.signalsOf pid).length).foldr (· + ·) 0

/-- Most processes that can be live at once. -/
def processCapacity (v : View μ space) : Nat := min v.limits.processes Pool.capacityBound

def linkCapacity (v : View μ space) : Nat := min v.limits.links Pool.capacityBound

def signalCapacity (v : View μ space) : Nat := min v.limits.signals Pool.capacityBound

/-- Why a new process gets no record, if it does not. -/
def processShortage? (v : View μ space) : Option IssueError :=
  Pool.shortage? v.processCapacity (min v.room.processes v.room.index) v.table.size

/-- Why a child gets no link, if it does not. -/
def linkShortage? (v : View μ space) : Option IssueError :=
  Pool.shortage? v.linkCapacity v.room.links v.linkCount

/-- Why a signal is not queued, if it is not. -/
def signalShortage? (v : View μ space) : Option IssueError :=
  Pool.shortage? v.signalCapacity v.room.signals v.signalCount

/-- The least identifier that can be given to a new process. -/
def freePid? (v : View μ space) : Option Pid :=
  (List.range' 1 (v.limits.pids - 1)).find? (!v.table.contains ·)

def check (v : View μ space) (pid : Pid) : Except Refusal Unit :=
  if pid = reservedPid ∨ v.limits.pids ≤ pid then .error (.invalidArgument .pidOutOfRange)
  else if v.table.contains pid then .ok ()
  else .error .notFound

def lookup (v : View μ space) (pid : Pid) : Except Refusal (ProcessView space) := do
  v.check pid
  match v.table[pid]? with
  | some p => return p
  | none => throw .notFound

def parentOf (v : View μ space) (pid : Pid) : Option Pid := v.table[pid]?.bind (·.parent)

/-- The processes met from `pid` on by going from child to parent, at most `fuel` of them. -/
def lineageWithin (v : View μ space) : Nat → Option Pid → List Pid
  | 0, _ => []
  | _, none => []
  | fuel + 1, some pid => pid :: v.lineageWithin fuel (v.parentOf pid)

def lineage (v : View μ space) (pid : Pid) : List Pid :=
  v.lineageWithin (v.table.size + 1) (some pid)

/-- The processes in cyclic order of identifiers, a live process `start` last. -/
def cycleFrom (v : View μ space) (start : Option Pid) : List (Pid × ProcessView space) :=
  match start with
  | none => v.table.toList
  | some pid =>
    if v.table.contains pid then
      v.table.toList.filter (pid < ·.1) ++ v.table.toList.filter (·.1 ≤ pid)
    else v.table.toList

/-- The first waiting process in cyclic order behind `start`. -/
def nextInTurn (v : View μ space) (start : Option Pid) : Option Pid :=
  ((v.cycleFrom start).find? (·.2.state == .waiting)).map (·.1)

/-- The processes that wait for memory. -/
def createdPids (v : View μ space) : List Pid :=
  (v.table.toList.filter (·.2.state == .created)).map (·.1)

/-- Where a process is, or would resume. -/
def currentInstruction (v : View μ space) (pid : Pid) (p : ProcessView space) : UInt64 :=
  if v.running = some pid then v.active.rip else p.context.rip

/-! ### Changes -/

def update (v : View μ space) (pid : Pid) (f : ProcessView space → ProcessView space) :
    View μ space := { v with table := v.table.modify pid f }

/-- Adds a process without a parent. -/
def enroll (v : View μ space) (pid : Pid) (entry : UInt64) : View μ space :=
  { v with table := v.table.insert pid (.fresh entry) }

/-- Appends `child` to the children of `parent`. -/
def adopt (v : View μ space) (parent child : Pid) : View μ space :=
  (v.update parent fun p => { p with children := p.children ++ [child] }).update child
    ({ · with parent := some parent })

/-- Takes a process out of the child list of its parent. -/
def disown (v : View μ space) (pid : Pid) : View μ space :=
  match v.parentOf pid with
  | none => v
  | some parent => v.update parent fun p => { p with children := p.children.erase pid }

/-- Makes processes orphans. -/
def orphan (v : View μ space) (children : List Pid) : View μ space :=
  children.foldl (fun v child => v.update child ({ · with parent := none })) v

/-- Takes a process out, and off the processor. -/
def drop (v : View μ space) (pid : Pid) : View μ space :=
  { v with
    table := v.table.erase pid
    running := if v.running = some pid then none else v.running }

/-- Takes the processor from every process but `pid`. -/
def vacate (v : View μ space) (pid : Pid) : View μ space :=
  match v.running with
  | some runner =>
    if runner = pid then v
    else v.update runner fun p => { p with context := v.active }.enter .waiting
  | none => v

/-- Puts the saved registers of `pid` on the processor. -/
def dispatch (v : View μ space) (pid : Pid) : View μ space :=
  match (v.vacate pid).table[pid]? with
  | some p => { v.vacate pid with active := p.context, running := some pid }
  | none => { v.vacate pid with running := none }

/-- Takes the registers of `pid` off the processor if it is the one that runs. -/
def suspend (v : View μ space) (pid : Pid) : View μ space :=
  if v.running = some pid then { v.update pid ({ · with context := v.active }) with running := none }
  else v

/-- Moves `pid` to a state, together with the registers on the processor. -/
def enter (v : View μ space) (pid : Pid) (state : ProcessState) : View μ space :=
  (if state = .running then v.dispatch pid else v.suspend pid).update pid (·.enter state)

/-! ### Operations on one process -/

def require (pid : Pid) : Action space (View μ space) Unit := do
  .ofExcept ((← get).check pid)

def find (pid : Pid) : Action space (View μ space) (ProcessView space) := do
  .ofExcept ((← get).lookup pid)

def amend (pid : Pid) (f : ProcessView space → ProcessView space) : Action space (View μ space) Unit :=
  modify (·.update pid f)

/-- Asks for a change of state, as the roster does. -/
def requestState (pid : Pid) (state : ProcessState) : Action space (View μ space) (Option Bool) := do
  let v ← get
  match v.table[pid]? with
  | none => return none
  | some p =>
    if p.canEnter state then
      set (v.enter pid state)
      return some true
    else
      match v.limits.policy with
      | .lenient => return some false
      | .strict => .halt (.illegalChange pid p.state state)

def changeState (pid : Pid) (state : ProcessState) : Action space (View μ space) Bool := do
  require pid
  .ofOption .notFound (← requestState pid state)

def exit (pid : Pid) (status : Int32) : Action space (View μ space) Unit := do
  if ← changeState pid .terminated then
    amend pid ({ · with exitStatus := some status })

def setInSystemCall (pid : Pid) (on : Bool) : Action space (View μ space) Unit := do
  require pid
  modify fun v =>
    if v.running = some pid then { v with active := v.active.setInSystemCall on }
    else v.update pid fun p => { p with context := p.context.setInSystemCall on }

/-- Refuses if there is a shortage of the resource. -/
def refuseFor (resource : Resource) : Option IssueError → Action space (View μ space) Unit
  | none => return
  | some e => .fail (.ofPool resource e)

def writeActive (writes : List (Register × UInt64)) : Action space (View μ space) Unit :=
  modify fun v => { v with active := v.active.assign writes }

def postSignal (pid : Pid) (signo : UInt8) : Action space (View μ space) Unit := do
  if !isSignal signo then .fail (.invalidArgument .invalidSignal)
  let _ ← find pid
  let v ← get
  refuseFor .signal v.signalShortage?
  set (v.update pid fun p => { p with signals := p.signals ++ [signo] })

/-! ### Calls of the memory service -/

/-- Passes the state of the memory service through a call. -/
def ask (f : μ → α × μ) (call : α → MemoryCall space) : Action space (View μ space) α := do
  let v ← get
  set { v with memory := (f v.memory).2 }
  .report [.call (call (f v.memory).1)]
  return (f v.memory).1

variable (memory : MemoryService μ space)

def createSpace : Action space (View μ space) (Except MemoryError space) :=
  ask memory.create .create

def cloneSpace (source : space) (withContents : Bool) :
    Action space (View μ space) (Except MemoryError space) :=
  ask (memory.clone · source withContents) (.clone source withContents)

def mapPages (target : space) (count : Nat) :
    Action space (View μ space) (Except MemoryError UInt64 × space) :=
  ask (fun m =>
      (((memory.mapPages m target count).1, (memory.mapPages m target count).2.1),
       (memory.mapPages m target count).2.2))
    fun answer => .mapPages target count answer.1

def unmapPages (target : space) (base : UInt64) (count : Nat) : Action space (View μ space) space :=
  ask (memory.unmapPages · target base count) fun _ => .unmapPages target base count

def destroySpace (target : space) : Action space (View μ space) Unit :=
  ask (fun m => ((), memory.destroy m target true)) fun _ => .destroy target true

def rootOf (target : space) : Action space (View μ space) UInt64 :=
  ask (fun m => (memory.root m target, m)) (.root target)

/-! ### Destroying -/

/-- Empties the child list of a process and makes its children orphans. -/
def drainChildren (pid : Pid) : Action space (View μ space) (List Pid) := do
  let v ← get
  match v.table[pid]? with
  | none => return []
  | some p =>
    set ((v.update pid ({ · with children := [] })).orphan p.children)
    return p.children

/-- Takes a process out and gives its space back. -/
def reclaim (pid : Pid) : Action space (View μ space) Unit := do
  let v ← get
  match v.table[pid]? with
  | none => return
  | some p =>
    set (v.drop pid)
    match p.space with
    | some handle => destroySpace memory handle
    | none => return

def destroyAll (cascade : Bool) : Nat → List Pid → Action space (View μ space) Unit
  | 0, _ => return
  | _, [] => return
  | fuel + 1, pid :: rest => do
    let children ← drainChildren pid
    reclaim memory pid
    destroyAll cascade fuel (if cascade then children.reverse ++ rest else rest)

def destroy (pid : Pid) (cascade : Bool) : Action space (View μ space) Unit := do
  require pid
  let v ← get
  set (v.disown pid)
  destroyAll memory cascade ((v.disown pid).linkCount + 1) [pid]

/-! ### Creating and linking -/

def appendChild (parent child : Pid) : Action space (View μ space) Unit := do
  let v ← get
  if !v.table.contains parent then .fail .notFound
  refuseFor .childLink v.linkShortage?
  set (v.adopt parent child)

/-- Creates a process if there is room for it and for its link. -/
def create (parent : Option Pid) (entry : UInt64) : Action space (View μ space) Pid := do
  match parent with
  | some parent => require parent
  | none => pure ()
  let v ← get
  if v.processCapacity ≤ v.table.size then .fail (.exhausted .processSlot)
  match v.freePid? with
  | none => .fail (.exhausted .pid)
  | some pid =>
    refuseFor .processSlot v.processShortage?
    match parent with
    | none =>
      set (v.enroll pid entry)
      return pid
    | some parent =>
      refuseFor .childLink v.linkShortage?
      set ((v.enroll pid entry).adopt parent pid)
      return pid

def addChild (parent child : Pid) : Action space (View μ space) Unit := do
  require parent
  require child
  if parent = child then .fail (.invalidArgument .ownChild)
  let v ← get
  if (v.parentOf child).isSome then .fail (.invalidArgument .hasParent)
  if child ∈ v.lineage parent then .fail (.invalidArgument .cycle)
  appendChild parent child

def clone (source : Pid) : Action space (View μ space) Pid := do
  let p ← find source
  match p.space with
  | none => .fail (.invalidArgument .sourceWithoutSpace)
  | some held =>
    let pid ← create (some source) ((← get).currentInstruction source p)
    match ← cloneSpace memory held true with
    | .ok copy =>
      amend pid ({ · with space := some copy })
      return pid
    | .error _ =>
      destroy memory pid false
      .fail (.exhausted .addressSpace)

/-! ### Giving memory -/

def ofAnswer : Except MemoryError α → Action space (View μ space) α
  | .ok a => return a
  | .error e => .fail (.ofMemory e)

def obtainSpace (pid : Pid) (p : ProcessView space) : Action space (View μ space) space := do
  match p.space, p.parent with
  | some own, _ =>
    amend pid ({ · with space := none })
    return own
  | none, some parent =>
    match (← get).table[parent]?.bind (·.space) with
    | some inherited => ofAnswer (← cloneSpace memory inherited true)
    | none => .fail (.invalidArgument .parentWithoutSpace)
  | none, none => ofAnswer (← createSpace memory)

def giveUp (pid : Pid) (p : ProcessView space) (handle : space) : Action space (View μ space) α := do
  if p.space.isSome then amend pid ({ · with space := some handle })
  else destroySpace memory handle
  .fail (.exhausted .stack)

def equip (pid : Pid) (handle : space) (userStack kernelStack : UInt64) :
    Action space (View μ space) Unit := do
  let root ← rootOf memory handle
  amend pid fun p => { p with
    space := some handle
    userStack := some userStack
    kernelStack := some kernelStack
    context := { p.context with
      cr3 := root, rsp := Supervisor.stackTop userStack, rsp0 := Supervisor.stackTop kernelStack } }
  let _ ← requestState pid .waiting
  return

def materialize (pid : Pid) : Action space (View μ space) Unit := do
  let p ← find pid
  if p.state ≠ .created then .fail (.invalidArgument .alreadyMaterialized)
  let handle ← obtainSpace memory pid p
  match ← mapPages memory handle stackPages with
  | (.error _, handle) => giveUp memory pid p handle
  | (.ok userStack, handle) =>
    match ← mapPages memory handle stackPages with
    | (.error _, handle) =>
      let handle ← unmapPages memory handle userStack stackPages
      giveUp memory pid p handle
    | (.ok kernelStack, handle) => equip memory pid handle userStack kernelStack

def materializeEach : List Pid → Action space (View μ space) Nat
  | [] => return 0
  | pid :: rest => do
    match ← .attempt (materialize memory pid) with
    | .ok () => return (← materializeEach rest) + 1
    | .error _ => materializeEach rest

def materializeCreated : Action space (View μ space) Nat := do
  materializeEach memory (← get).createdPids

/-! ### Ticks and commands -/

def promote (pid : Pid) : Action space (View μ space) (TickResult × Option ResumePoint) := do
  match ← .attempt (changeState pid .running) with
  | .ok true => return (.switched pid, some (← get).active.resumePoint)
  | .ok false => return (.continued, none)
  | .error _ => return (.continued, none)

def schedule : Action space (View μ space) (TickResult × Option ResumePoint) := do
  let v ← get
  if v.table.isEmpty then return (.idle, none)
  let _ ← materializeCreated memory
  match v.nextInTurn v.running with
  | none => return (.continued, none)
  | some pid => promote pid

def tick : Action space (View μ space) TickResult := do
  let (outcome, _) ← schedule memory
  return outcome

def ticks : Nat → Action space (View μ space) (List TickResult)
  | 0 => return []
  | count + 1 => do
    let outcome ← tick memory
    return outcome :: (← ticks count)

def createMany (nested : Bool) :
    Nat → Option Pid → Action space (View μ space) (List Pid × Option Refusal)
  | 0, _ => return ([], none)
  | count + 1, parent => do
    match ← .attempt (create parent 0) with
    | .error e => return ([], some e)
    | .ok pid =>
      let (made, refusal) ← createMany nested count (if nested then some pid else parent)
      return (pid :: made, refusal)

/-- Carries out a command of a session. -/
def perform : Command → Action space (View μ space) Reply
  | .tick => return .outcome (← tick memory)
  | .ticks count => return .outcomes (← ticks memory count)
  | .schedule => do
    let (outcome, target) ← schedule memory
    return .decision outcome target
  | .create parent entry => return .pid (← create parent entry)
  | .createMany nested count parent => do
    let (made, refusal) ← createMany nested count parent
    return .series made refusal
  | .clone source => return .pid (← clone memory source)
  | .destroy pid cascade => do
    destroy memory pid cascade
    return .done
  | .addChild parent child => do
    addChild parent child
    return .done
  | .changeState pid state => return .flag (← changeState pid state)
  | .exit pid status => do
    exit pid status
    return .done
  | .setInSystemCall pid on => do
    setInSystemCall pid on
    return .done
  | .signal pid signo => do
    postSignal pid signo
    return .done
  | .materialize pid => do
    materialize memory pid
    return .done
  | .materializeCreated => return .count (← materializeCreated memory)
  | .writeActive writes => do
    writeActive writes
    return .done
  | .disableInterrupts => return .done
  | .enableInterrupts => return .done

/-! ### Lookups -/

variable {v : View μ space}

@[simp]
lemma get?_update (v : View μ space) (pid q : Nat) (f : ProcessView space → ProcessView space) :
    (v.update pid f).table[q]? = if q = pid then v.table[pid]?.map f else v.table[q]? := by
  rw [update, Std.ExtTreeMap.getElem?_modify]
  by_cases hq : q = pid
  · simp [hq]
  · have hcmp : ¬ compare pid q = .eq := by
      rw [Nat.compare_eq_eq]
      exact Ne.symm hq
    rw [if_neg hcmp, if_neg hq]

@[simp]
lemma get?_drop (v : View μ space) (pid q : Nat) :
    (v.drop pid).table[q]? = if q = pid then none else v.table[q]? := by
  rw [drop, Std.ExtTreeMap.getElem?_erase]
  by_cases hq : q = pid
  · simp [hq]
  · have hcmp : ¬ compare pid q = .eq := by
      rw [Nat.compare_eq_eq]
      exact Ne.symm hq
    rw [if_neg hcmp, if_neg hq]

@[simp]
lemma get?_enroll (v : View μ space) (pid q : Nat) (entry : UInt64) :
    (v.enroll pid entry).table[q]? = if q = pid then some (.fresh entry) else v.table[q]? := by
  rw [enroll, Std.ExtTreeMap.getElem?_insert]
  by_cases hq : q = pid
  · simp [hq]
  · have hcmp : ¬ compare pid q = .eq := by
      rw [Nat.compare_eq_eq]
      exact Ne.symm hq
    rw [if_neg hcmp, if_neg hq]

lemma get?_orphan (v : View μ space) (children : List Pid) (q : Nat) :
    (v.orphan children).table[q]? =
      v.table[q]?.map fun p => if q ∈ children then { p with parent := none } else p := by
  induction children generalizing v with
  | nil => simp [orphan]
  | cons c children ih =>
    have hstep : v.orphan (c :: children) =
        (v.update c ({ · with parent := none })).orphan children := rfl
    rw [hstep, ih, get?_update]
    by_cases hq : q = c
    · subst hq
      cases v.table[q]? with
      | none => simp
      | some p =>
        by_cases hmem : q ∈ children <;> simp [hmem]
    · simp [hq]

lemma orphan_eq (v : View μ space) (children : List Pid) :
    v.orphan children = { v with table := (v.orphan children).table } := by
  induction children generalizing v with
  | nil => rfl
  | cons c children ih => exact ih (v.update c ({ · with parent := none }))

lemma get?_iff_mem {pid : Nat} : v.table.contains pid = v.table[pid]?.isSome :=
  Std.ExtTreeMap.contains_eq_isSome_getElem?

lemma mem_keys {pid : Nat} : pid ∈ v.table.keys ↔ ∃ p, v.table[pid]? = some p := by
  rw [Std.ExtTreeMap.mem_keys, ← Std.ExtTreeMap.contains_iff_mem, get?_iff_mem, Option.isSome_iff_exists]

lemma keys_nodup (v : View μ space) : v.table.keys.Nodup := by
  refine v.table.distinct_keys.imp fun hne heq => hne ?_
  rw [heq]
  exact Std.ReflCmp.compare_self

lemma keys_sorted (v : View μ space) : v.table.keys.Pairwise (· < ·) :=
  v.table.ordered_keys.imp fun hlt => Nat.compare_eq_lt.mp hlt

/-- The identifiers of a view are those of its processes in ascending order. -/
lemma keys_eq {pids : List Nat} (hsorted : pids.Pairwise (· < ·))
    (hmem : ∀ pid : Nat, pid ∈ pids ↔ ∃ p, v.table[pid]? = some p) : v.table.keys = pids := by
  have hantisymm : ∀ a b : Nat, a < b → b < a → a = b := fun a b hab hba => by omega
  apply List.Perm.eq_of_pairwise (fun a b _ _ => hantisymm a b) v.keys_sorted hsorted
  refine (List.perm_ext_iff_of_nodup v.keys_nodup (hsorted.imp Nat.ne_of_lt)).mpr fun pid => ?_
  rw [mem_keys, hmem]

/-- Where the same processes are live, the same identifiers are in use. -/
lemma keys_congr {w : View μ space} (h : ∀ q : Nat, w.table[q]?.isSome = v.table[q]?.isSome) :
    w.table.keys = v.table.keys := by
  refine keys_eq v.keys_sorted fun q => ?_
  rw [mem_keys, ← Option.isSome_iff_exists, ← Option.isSome_iff_exists, h]

lemma get?_of_freePid? {pid : Nat} (h : v.freePid? = some pid) : v.table[pid]? = none := by
  have hfound := List.find?_some h
  rw [Bool.not_eq_true', get?_iff_mem] at hfound
  exact Option.not_isSome_iff_eq_none.mp (by rw [hfound]; simp)

/-- Views are equal when every identifier stands for the same process. -/
lemma ext_get? {w : View μ space} (hlimits : v.limits = w.limits) (hmemory : v.memory = w.memory)
    (htable : ∀ pid : Nat, v.table[pid]? = w.table[pid]?) (hrunning : v.running = w.running)
    (hactive : v.active = w.active) (hroom : v.room = w.room := by rfl) : v = w := by
  cases v
  cases w
  have heq := Std.ExtTreeMap.ext_getElem? fun {pid} => htable pid
  simp_all

/-- Only what the change makes of the process matters. -/
lemma update_congr {pid : Nat} {p : ProcessView space} {f g : ProcessView space → ProcessView space}
    (hp : v.table[pid]? = some p) (hfg : f p = g p) : v.update pid f = v.update pid g := by
  refine ext_get? rfl rfl (fun q => ?_) rfl rfl
  rw [get?_update, get?_update, hp, Option.map_some, Option.map_some, hfg]

lemma update_update (v : View μ space) (pid : Nat) (f g : ProcessView space → ProcessView space) :
    (v.update pid f).update pid g = v.update pid fun p => g (f p) := by
  refine ext_get? rfl rfl (fun q => ?_) rfl rfl
  simp only [get?_update, if_pos, Option.map_map]
  split <;> rfl

lemma update_eq_self {pid : Nat} {p : ProcessView space} {f : ProcessView space → ProcessView space}
    (hp : v.table[pid]? = some p) (hf : f p = p) : v.update pid f = v := by
  refine ext_get? rfl rfl (fun q => ?_) rfl rfl
  rw [get?_update]
  split
  · rename_i hq
    rw [hq, hp, Option.map_some, hf]
  · rfl

lemma childrenOf_eq {pid : Nat} {p : ProcessView space} (hp : v.table[pid]? = some p) :
    v.childrenOf pid = p.children := by
  simp [childrenOf, hp]

lemma signalsOf_eq {pid : Nat} {p : ProcessView space} (hp : v.table[pid]? = some p) :
    v.signalsOf pid = p.signals := by
  simp [signalsOf, hp]

lemma childrenOf_congr {w : View μ space} {pid : Nat} (h : w.table[pid]? = v.table[pid]?) :
    w.childrenOf pid = v.childrenOf pid := by
  rw [childrenOf, childrenOf, h]

lemma signalsOf_congr {w : View μ space} {pid : Nat} (h : w.table[pid]? = v.table[pid]?) :
    w.signalsOf pid = v.signalsOf pid := by
  rw [signalsOf, signalsOf, h]

/-- Where one entry changes and its lists do not, all lists are as they were. -/
lemma lists_congr {w : View μ space} (pid : Nat)
    (hothers : ∀ q : Nat, q ≠ pid → w.table[q]? = v.table[q]?)
    (hchildren : w.childrenOf pid = v.childrenOf pid) (hsignals : w.signalsOf pid = v.signalsOf pid) :
    w.childrenOf = v.childrenOf ∧ w.signalsOf = v.signalsOf := by
  refine ⟨funext fun q => ?_, funext fun q => ?_⟩
  · by_cases hq : q = pid
    · rw [hq, hchildren]
    · exact childrenOf_congr (hothers q hq)
  · by_cases hq : q = pid
    · rw [hq, hsignals]
    · exact signalsOf_congr (hothers q hq)

lemma childrenOf_update (v : View μ space) (pid q : Nat)
    {f : ProcessView space → ProcessView space} (hf : ∀ p, (f p).children = p.children) :
    (v.update pid f).childrenOf q = v.childrenOf q := by
  rw [childrenOf, childrenOf, get?_update]
  split
  · rename_i hq
    subst hq
    simp [hf, Function.comp_def]
  · rfl

lemma signalsOf_update (v : View μ space) (pid q : Nat)
    {f : ProcessView space → ProcessView space} (hf : ∀ p, (f p).signals = p.signals) :
    (v.update pid f).signalsOf q = v.signalsOf q := by
  rw [signalsOf, signalsOf, get?_update]
  split
  · rename_i hq
    subst hq
    simp [hf, Function.comp_def]
  · rfl

/-! ### Runs -/

variable {pid : Pid}

lemma run_find_ok {p : ProcessView space} (h : v.lookup pid = .ok p) :
    (find pid : Action space (View μ space) _).run v = ⟨.ok p, v, []⟩ := by
  simp only [find, Action.run_bind, Action.run_get, h]
  rfl

lemma run_find_error {e : Refusal} (h : v.lookup pid = .error e) :
    (find pid : Action space (View μ space) _).run v = ⟨.error (.error e), v, []⟩ := by
  simp only [find, Action.run_bind, Action.run_get, h]
  rfl

lemma run_require {x : Except Refusal Unit} (h : v.check pid = x) :
    (require pid : Action space (View μ space) Unit).run v = ⟨x.mapError .error, v, []⟩ := by
  rw [require, Action.run_bind_quiet (Action.run_get v), h]
  cases x <;> rfl

/-- A process that passes the check is live. -/
lemma get?_of_check (h : v.check pid = .ok ()) : ∃ p, v.table[pid]? = some p := by
  rw [check] at h
  split at h
  · cases h
  · split at h
    · rename_i hlive
      rw [get?_iff_mem] at hlive
      exact Option.isSome_iff_exists.mp hlive
    · cases h

lemma lookup_eq {p : ProcessView space} (hcheck : v.check pid = .ok ()) (hp : v.table[pid]? = some p) :
    v.lookup pid = .ok p := by
  rw [lookup, hcheck]
  simp only [hp]
  rfl

lemma get?_of_lookup {p : ProcessView space} (h : v.lookup pid = .ok p) : v.table[pid]? = some p := by
  cases hcheck : v.check pid with
  | error e =>
    rw [lookup, hcheck] at h
    cases h
  | ok =>
    obtain ⟨q, hq⟩ := get?_of_check hcheck
    rw [lookup, hcheck, hq] at h
    cases h
    exact hq

end View

end Uniprocessor
