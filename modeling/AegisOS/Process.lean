import AegisOS.Capability
import AegisOS.Scheduler
import AegisOS.ElfLoader
import AegisOS.Userland
import AegisOS.ServiceSupervisor
import AegisOS.FdTable
import AegisOS.NetTransport

/-! The process table and the life cycle of native processes (`kernel/core/process.c`),
in the kernel state they act on. A process is named by its index in the table; besides
the fields of the source an entry records its birth number, by which a task knows the
process it was made for. -/
namespace AegisOS.Kernel
open CString Scheduler Userland ElfLoader ServiceSupervisor

def procStackSize : Nat := 64 * 1024

inductive ProcState
  | empty | running | sleeping | zombie | stopped
  deriving DecidableEq

structure Process where
  pid : UInt32
  ppid : UInt32
  state : ProcState
  exitCode : Int
  image : Image
  runtimeSlot : UInt32
  ownsStack : Bool
  task : Option Nat
  name : CArray 32
  caps : Capability.CapSet
  born : Nat

def processZero : Process :=
  ⟨0, 0, .empty, 0, ⟨0, 0, 0, 0, 0⟩, 0, false, none, strcopy .empty, .empty, 0⟩

/-- What `system_shutdown_request` stores. -/
structure Shutdown where
  requester : UInt32
  reason : UInt32

structure State where
  core : Core
  procs : Fin 256 → Process
  nextPid : UInt32
  births : Nat
  runtime : Runtime
  userland : Catalogue
  supervisor : Supervisor
  files : FdTable.Files
  net : Net.Stack
  shutdown : Option Shutdown
  consoleReleased : Bool
  halted : Bool

def Process.Live (p : Process) : Prop := p.state ≠ .empty

instance (p : Process) : Decidable p.Live := inferInstanceAs (Decidable (p.state ≠ .empty))

def State.setProc (k : State) (i : Fin 256) (p : Process) : State :=
  { k with procs := Function.update k.procs i p }

/-! Lookups. -/

@[irreducible] def procFindSlot (k : State) : Option (Fin 256) :=
  Fin.find? fun i => decide ¬(k.procs i).Live

/-- The index `process_get` stops at. -/
@[irreducible] def processGet (k : State) (pid : UInt32) : Option (Fin 256) :=
  Fin.find? fun i => decide ((k.procs i).pid = pid ∧ (k.procs i).Live)

@[irreducible] def processCurrent (k : State) : Option (Fin 256) :=
  match k.core.current with
  | none => none
  | some a => Fin.find? fun i => decide ((k.procs i).Live ∧ (k.procs i).task = some a)

def processGetpid (k : State) : UInt32 :=
  match processCurrent k with
  | some i => (k.procs i).pid
  | none => 0

def processCurrentName (k : State) : Option CStr :=
  (processCurrent k).map fun i => (k.procs i).name.str

/-! Creation. -/

/-- The record `process_initialise_record` fills in. -/
def processInitialRecord (k : State) (name : CStr) (ppid : UInt32) : Process :=
  { processZero with
    pid := k.nextPid, ppid := ppid, state := .running, name := strcopy name
    born := k.births }

def userRecord (k : State) (name : CStr) (m : Image) (runtimeSlot ppid : UInt32) : Process :=
  { processInitialRecord k name ppid with image := m, runtimeSlot := runtimeSlot }

/-- The next record takes another pid and another birth number. -/
def State.countBirth (k : State) : State :=
  { k with nextPid := k.nextPid + 1, births := k.births + 1 }

/-- Making the task of the record `p` for entry `i`; the entry is cleared when there is
no memory for it. -/
def State.attachTask (k : State) (i : Fin 256) (p : Process) (resume : Resume) (priority : Nat) :
    State × Option (Fin 256) :=
  match taskCreate k.core resume priority (some p.born) with
  | (core, none) => ({ k with core := core }.setProc i processZero, none)
  | (core, some t) => ({ k with core := core }.setProc i { p with task := some t }, some i)

def processCreate (k : State) (name : CStr) (ppid : UInt32) : State × Option (Fin 256) :=
  match procFindSlot k with
  | none => (k, none)
  | some i =>
    match k.core.alloc procStackSize fun _ => .procStack i with
    | none => (k.countBirth.setProc i processZero, none)
    | some (core, stack) =>
      let p := { processInitialRecord k name ppid with
        image := ⟨0, 0, 0, stack, procStackSize⟩, ownsStack := true }
      match { k.countBirth with core := core }.attachTask i p .kernelEntry 1 with
      | (k, none) => ({ k with core := k.core.dealloc stack }, none)
      | (k, some i) => (k, some i)

def processSpawnUserImage (k : State) (name : CStr) (m : Image) (runtimeSlot ppid : UInt32) :
    State × Option (Fin 256) :=
  if m.complete = false ∨ runtimeSlot = 0 then (k, none)
  else
    match procFindSlot k with
    | none => (k, none)
    | some i => k.countBirth.attachTask i (userRecord k name m runtimeSlot ppid) .userEntry 25

/-- The running task becomes the task of a new entry, and from then on belongs to it. -/
def processBindCurrentUserImage (k : State) (name : CStr) (m : Image)
    (runtimeSlot ppid : UInt32) : State × Option (Fin 256) :=
  match k.core.current with
  | none => (k, none)
  | some a =>
    if m.complete = false ∨ runtimeSlot = 0 then (k, none)
    else
      match processCurrent k, procFindSlot k with
      | none, some i =>
        let p := { userRecord k name m runtimeSlot ppid with task := some a }
        let core := k.core.modify a fun t => { t with owner := some p.born }
        ({ k.countBirth with core := core }.setProc i p, some i)
      | _, _ => (k, none)

/-! Signals and exit. -/

/-- The entry becomes a zombie, its descriptors and sockets are closed. -/
def State.bury (k : State) (i : Fin 256) (code : Int) : State :=
  let pid := (k.procs i).pid
  { k.setProc i { k.procs i with state := .zombie, exitCode := code } with
    files := FdTable.fdCloseAll k.files pid
    net := Net.netSocketCloseAll k.net pid.toNat }

def State.destroyTask (k : State) (task : Option Nat) : State :=
  match task with
  | none => k
  | some a => { k with core := taskDestroy k.core a }

def State.setState (k : State) (i : Fin 256) (s : ProcState) : State :=
  k.setProc i { k.procs i with state := s }

def processKill (k : State) (pid : UInt32) (signal : Int) : State × Int :=
  match processGet k pid with
  | none => (k, aegisEnoent)
  | some i =>
    if signal = 9 ∨ signal = 15 then
      ((k.bury i (-signal)).destroyTask (k.procs i).task, aegisOk)
    else if signal = 19 then (k.setState i .stopped, aegisOk)
    else if signal = 18 ∧ (k.procs i).state = .stopped then (k.setState i .running, aegisOk)
    else (k, aegisOk)

def reparent (pid : UInt32) (p : Process) : Process :=
  if p.ppid = pid ∧ p.Live then { p with ppid := 1 } else p

/-- The entry `process_exit` takes for the exiting one: the first with that task,
whatever its state. -/
@[irreducible] def exiting (k : State) (a : Nat) : Option (Fin 256) :=
  Fin.find? fun i => decide ((k.procs i).task = some a)

/-- The loop of `process_exit`, up to the final yield. -/
def processRetire (k : State) (a : Nat) (code : Int) (now : UInt64) : State :=
  match exiting k a with
  | none => k
  | some i =>
    let p := k.procs i
    let k := k.bury i code
    let supervisor := (nativeMarkExit k.supervisor p.name.str p.pid code now).1
    { k with
      supervisor := supervisor
      core := taskDestroy k.core a
      procs := fun j => reparent p.pid (k.procs j) }

/-- The task switched to goes on; `none` is a panic there: at the end of `process_exit`,
or in `process_user_task_entry` without a runtime image. -/
def State.resumed (k : State) : Option State :=
  match (k.core.current.bind k.core.find).map Task.resume with
  | some .exited => none
  | some .userEntry =>
    match processCurrent k with
    | none => none
    | some i =>
      let m := (k.procs i).image
      if m.entry = 0 ∨ m.stackBase = 0 ∨ m.stackSize = 0 then none else some k
  | _ => some k

/-- `scheduler_yield` with the task it switches to going on. -/
def State.yield (k : State) : Option State :=
  match schedulerYield k.core .yielded with
  | none => none
  | some (core, false) => some { k with core := core }
  | some (core, true) => { k with core := core }.resumed

def processExit (k : State) (code : Int) (now : UInt64) : Option State :=
  match k.core.current with
  | none => some k
  | some a =>
    let k := processRetire k a code now
    match schedulerYield k.core .exited with
    | some (core, true) => { k with core := core }.resumed
    | _ => none

/-! Reaping. -/

def State.freeChild (k : State) (p : Process) : State :=
  let k := k.destroyTask p.task
  if p.ownsStack = true ∧ p.image.stackBase ≠ 0 then
    { k with core := k.core.dealloc p.image.stackBase }
  else k

def releaseSlot (r : Runtime) (slot : UInt32) : Runtime × Int :=
  if slot = 0 then (r, aegisOk) else elfLoaderReleaseRuntimeSlot r slot

/-- The part of `process_wait` for a zombie the caller may reap. -/
def State.reap (k : State) (i : Fin 256) (pid : UInt32) : State × Except Int Int :=
  let p := k.procs i
  let k := k.freeChild p
  let released := releaseSlot k.runtime p.runtimeSlot
  let k := { k with runtime := released.1 }
  if released.2 ≠ aegisOk then (k, .error released.2)
  else
    let noted := markFeatureNativeExited k.userland p.name.str pid
    let k := { k with userland := noted.1 }
    if noted.2 ≠ aegisOk ∧ noted.2 ≠ aegisEnoent then (k, .error noted.2)
    else (k.setProc i processZero, .ok p.exitCode)

/-- The exit code on `AEGIS_OK`, else the error. -/
def processWait (k : State) (pid : UInt32) : State × Except Int Int :=
  match processGet k pid with
  | none => (k, .error aegisEnoent)
  | some i =>
    if processGetpid k ≠ 0 ∧ (k.procs i).ppid ≠ processGetpid k then (k, .error aegisEperm)
    else if (k.procs i).state ≠ .zombie then (k, .error aegisEbusy)
    else k.reap i pid

/-- Whose children `process_wait_any` looks at. -/
def waitParent (k : State) (parent : UInt32) : UInt32 :=
  if parent = 0 then processGetpid k else parent

/-- The entry is in use for a child of `parent`. -/
def childOf (k : State) (parent : UInt32) (i : Fin 256) : Bool :=
  (k.procs i).Live ∧ (k.procs i).ppid = parent

@[irreducible] def firstChild (k : State) (parent : UInt32) : Option (Fin 256) :=
  Fin.find? (childOf k parent)

@[irreducible] def firstZombie (k : State) (parent : UInt32) : Option (Fin 256) :=
  Fin.find? fun i => childOf k parent i && decide ((k.procs i).state = .zombie)

/-- The pid and the exit code of the reaped child on `AEGIS_OK`, else the error. -/
def processWaitAny (k : State) (parent : UInt32) : State × Except Int (UInt32 × Int) :=
  match firstZombie k (waitParent k parent) with
  | some i =>
    let pid := (k.procs i).pid
    let reaped := processWait k pid
    (reaped.1, reaped.2.map fun code => (pid, code))
  | none =>
    (k, .error (if (firstChild k (waitParent k parent)).isSome then aegisEagain else aegisEchild))

/-- One round of `process_terminate_all_except`, with the first error so far. -/
def terminateOther (keep : UInt32) (signal : Int) (acc : State × Int) (i : Fin 256) : State × Int :=
  let p := acc.1.procs i
  if ¬p.Live ∨ p.pid = keep then acc
  else
    let done := processKill acc.1 p.pid signal
    (done.1, if done.2 ≠ aegisOk ∧ acc.2 = aegisOk then done.2 else acc.2)

@[irreducible] def processTerminateAllExcept (k : State) (keep : UInt32) (signal : Int) : State × Int :=
  (List.finRange 256).foldl (terminateOther keep signal) (k, aegisOk)

/-! Runs of the functions of the process layer and of the scheduler. -/

inductive Event
  | create (name : CStr) (ppid : UInt32)
  | spawnUserImage (name : CStr) (m : Image) (runtimeSlot ppid : UInt32)
  | bindCurrent (name : CStr) (m : Image) (runtimeSlot ppid : UInt32)
  | kill (pid : UInt32) (signal : Int)
  | exit (code : Int) (now : UInt64)
  | wait (pid : UInt32)
  | waitAny (parent : UInt32)
  | yield
  | schedulerRun
  | kernelTask (priority : Nat)
  | setIdle (task : Option Nat)

/-- `none` is a panic. -/
def step (k : State) : Event → Option State
  | .create name ppid => some (processCreate k name ppid).1
  | .spawnUserImage name m slot ppid => some (processSpawnUserImage k name m slot ppid).1
  | .bindCurrent name m slot ppid => some (processBindCurrentUserImage k name m slot ppid).1
  | .kill pid signal => some (processKill k pid signal).1
  | .exit code now => processExit k code now
  | .wait pid => some (processWait k pid).1
  | .waitAny parent => some (processWaitAny k parent).1
  | .yield => k.yield
  | .schedulerRun => (schedulerRun k.core).bind fun core => { k with core := core }.resumed
  | .kernelTask priority => some { k with core := (taskCreate k.core .kernelEntry priority none).1 }
  | .setIdle task => some { k with core := { k.core with idle := task } }

/-- After `heap_init`, `scheduler_init`, `process_init` and `service_supervisor_init`;
the other subsystems are in any state. -/
structure Booted (k : State) : Prop where
  core : ∃ base size, k.core = Core.init base size
  procs : ∀ i, k.procs i = processZero
  nextPid : k.nextPid = 1
  births : k.births = 0
  supervisor : k.supervisor = .init
  shutdown : k.shutdown = none

/-- A booted kernel with a heap of one megabyte, free runtime slots and no features. -/
def booted : State where
  core := Core.init 0x100000 0x100000
  procs := fun _ => processZero
  nextPid := 1
  births := 0
  runtime :=
    ⟨fun i => ⟨false, .zero, 0x40000000 + i.val * 0x100000, fun _ => 0,
      0x50000000 + i.val * 0x10000, []⟩, true, 0⟩
  userland := ⟨[], []⟩
  supervisor := .init
  files := ⟨fun _ _ => .zero, fun _ => 0, 1⟩
  net := Net.quiet
  shutdown := none
  consoleReleased := false
  halted := false

def someImage : Image := ⟨0x4000, 0x4000, 0x1000, 0x8000, 0x1000⟩

theorem booted_booted : Booted booted := ⟨⟨_, _, rfl⟩, fun _ => rfl, rfl, rfl, rfl, rfl⟩

/-! What each function of the process layer does to the table, to the scheduler's core
and to the supervisor, and what it leaves alone. -/
open Function Option

def Process.Alive (p : Process) : Prop := p.Live ∧ p.state ≠ .zombie

instance (p : Process) : Decidable p.Alive := inferInstanceAs (Decidable (_ ∧ _))

variable {k k' : State} {i j : Fin 256}

/-! Lookups. -/

theorem procFindSlot_free (h : procFindSlot k = some i) : ¬(k.procs i).Live := by
  unfold procFindSlot at h
  simpa using Fin.eq_true_of_find?_eq_some h

variable {pid ppid slot : UInt32} {a : Nat} {name : CStr} {m : Userland.Image}
  {signal : Int} {p q : Process}

theorem processGet_spec (h : processGet k pid = some i) :
    (k.procs i).pid = pid ∧ (k.procs i).Live := by
  unfold processGet at h
  simpa using Fin.eq_true_of_find?_eq_some h

theorem processCurrent_spec (h : processCurrent k = some i) :
    ∃ a, k.core.current = some a ∧ (k.procs i).Live ∧ (k.procs i).task = some a := by
  unfold processCurrent at h
  cases hcur : k.core.current with
  | none =>
    rw [hcur] at h
    cases h
  | some a =>
    rw [hcur] at h
    exact ⟨a, rfl, by simpa using Fin.eq_true_of_find?_eq_some h⟩

theorem processCurrent_isSome (hcur : k.core.current = some a) (hlive : (k.procs i).Live)
    (htask : (k.procs i).task = some a) : ∃ j, processCurrent k = some j := by
  unfold processCurrent
  rw [hcur]
  dsimp only
  cases hfind : Fin.find? fun i => decide ((k.procs i).Live ∧ (k.procs i).task = some a) with
  | some j => exact ⟨j, rfl⟩
  | none =>
    have hno := Fin.find?_eq_none_iff.mp hfind i
    simp [hlive, htask] at hno

theorem processCurrent_none (hcur : k.core.current = some a)
    (h : processCurrent k = none) : ∀ i, (k.procs i).Live → (k.procs i).task ≠ some a := by
  intro i hlive htask
  obtain ⟨j, hj⟩ := processCurrent_isSome hcur hlive htask
  rw [h] at hj
  cases hj

theorem exiting_spec (h : exiting k a = some i) : (k.procs i).task = some a := by
  unfold exiting at h
  simpa using Fin.eq_true_of_find?_eq_some h

/-! Steps of which only the table, the files or the sockets change. -/

section
variable (k : State) (p : Process)

theorem setProc_self (i : Fin 256) (p : Process) : (k.setProc i p).procs i = p := by
  simp only [State.setProc, update_self]

theorem setProc_of_ne (h : j ≠ i) : (k.setProc i p).procs j = k.procs j := by
  simp only [State.setProc, update_of_ne h]

theorem bury_procs (i : Fin 256) (code : Int) : (k.bury i code).procs =
      update k.procs i { k.procs i with state := .zombie, exitCode := code } := rfl

theorem destroyTask_eq (task : Option Nat) :
    ∃ core, k.destroyTask task = { k with core := core } := by
  cases task with
  | none => exact ⟨k.core, rfl⟩
  | some a => exact ⟨taskDestroy k.core a, rfl⟩

theorem freeChild_eq : ∃ core, k.freeChild p = { k with core := core } := by
  obtain ⟨core, heq⟩ := destroyTask_eq k p.task
  simp only [State.freeChild, heq]
  split
  · exact ⟨_, rfl⟩
  · exact ⟨core, rfl⟩

@[simp] theorem destroyTask_procs (task : Option Nat) : (k.destroyTask task).procs = k.procs := by
  obtain ⟨core, heq⟩ := destroyTask_eq k task
  rw [heq]

@[simp] theorem destroyTask_births (task : Option Nat) :
    (k.destroyTask task).births = k.births := by
  obtain ⟨core, heq⟩ := destroyTask_eq k task
  rw [heq]

@[simp] theorem freeChild_procs : (k.freeChild p).procs = k.procs := by
  obtain ⟨core, heq⟩ := freeChild_eq k p
  rw [heq]

@[simp] theorem freeChild_births : (k.freeChild p).births = k.births := by
  obtain ⟨core, heq⟩ := freeChild_eq k p
  rw [heq]

@[simp] theorem freeChild_userland : (k.freeChild p).userland = k.userland := by
  obtain ⟨core, heq⟩ := freeChild_eq k p
  rw [heq]

end

theorem resumed_eq (h : k.resumed = some k') : k' = k := by
  unfold State.resumed at h
  cases hres : (k.core.current.bind k.core.find).map Task.resume with
  | none =>
    rw [hres] at h
    exact (some.inj h).symm
  | some r =>
    rw [hres] at h
    cases r with
    | kernelEntry | yielded => exact (some.inj h).symm
    | exited => cases h
    | userEntry =>
      cases hcur : processCurrent k with
      | none =>
        rw [hcur] at h
        cases h
      | some i =>
        rw [hcur] at h
        dsimp only at h
        split at h
        · cases h
        · exact (some.inj h).symm

theorem yield_spec (h : k.yield = some k') :
    ∃ core switched, schedulerYield k.core .yielded = some (core, switched) ∧
      k' = { k with core := core } := by
  unfold State.yield at h
  cases hy : schedulerYield k.core .yielded with
  | none =>
    rw [hy] at h
    cases h
  | some got =>
    obtain ⟨core, switched⟩ := got
    rw [hy] at h
    refine ⟨core, switched, rfl, ?_⟩
    cases switched with
    | false => exact (some.inj h).symm
    | true => exact resumed_eq h

/-- Outside of any task `process_exit` returns; else the processor goes to another task. -/
theorem processExit_spec {code : Int} {now : UInt64} (h : processExit k code now = some k') :
    (k.core.current = none ∧ k' = k) ∨ ∃ a core, k.core.current = some a ∧
        schedulerYield (processRetire k a code now).core .exited = some (core, true) ∧
        k' = { processRetire k a code now with core := core } := by
  unfold processExit at h
  cases hcur : k.core.current with
  | none =>
    rw [hcur] at h
    exact .inl ⟨rfl, (some.inj h).symm⟩
  | some a =>
    rw [hcur] at h
    dsimp only at h
    cases hy : schedulerYield (processRetire k a code now).core .exited with
    | none =>
      rw [hy] at h
      cases h
    | some got =>
      obtain ⟨core, switched⟩ := got
      rw [hy] at h
      cases switched with
      | false => cases h
      | true => exact .inr ⟨a, core, rfl, hy, resumed_eq h⟩

/-! Creation. -/

theorem attachTask_cases (k : State) (i : Fin 256) (p : Process) (resume : Resume) (prio : Nat) :
    ∃ core, k.attachTask i p resume prio = ({ k with core := core }.setProc i processZero, none) ∨
      ∃ t, k.attachTask i p resume prio =
        ({ k with core := core }.setProc i { p with task := some t }, some i) := by
  unfold State.attachTask
  cases taskCreate k.core resume prio (some p.born) with
  | mk core made =>
    cases made with
    | none => exact ⟨core, .inl rfl⟩
    | some t => exact ⟨core, .inr ⟨t, rfl⟩⟩

/-- What making a process comes down to: no entry is free, or a free one is taken and, if the process
cannot be completed, cleared again. -/
inductive Birth (k : State) (ppid : UInt32) : State → Prop
  | refused : Birth k ppid k
  | made {i : Fin 256} (core : Core) (p : Process) : procFindSlot k = some i →
      p = processZero ∨ (p.state = .running ∧ p.ppid = ppid ∧ p.caps = .empty) →
      Birth k ppid ({ k.countBirth with core := core }.setProc i p)

theorem Birth.procs (h : Birth k ppid k') (hlive : (k.procs j).Live) : k'.procs j = k.procs j := by
  cases h with
  | refused => rfl
  | made core p hslot => exact setProc_of_ne _ _ fun hji => procFindSlot_free hslot (hji ▸ hlive)

theorem processCreate_birth (k : State) (name : CStr) (ppid : UInt32) :
    Birth k ppid (processCreate k name ppid).1 := by
  unfold processCreate
  cases hslot : procFindSlot k with
  | none => exact .refused
  | some i =>
    dsimp only
    cases k.core.alloc procStackSize fun _ => .procStack i with
    | none => exact .made k.core _ hslot (.inl rfl)
    | some got =>
      obtain ⟨core, stack⟩ := got
      dsimp only
      obtain ⟨core', heq | ⟨t, heq⟩⟩ := attachTask_cases { k.countBirth with core := core } i
        { processInitialRecord k name ppid with
          image := ⟨0, 0, 0, stack, procStackSize⟩, ownsStack := true } .kernelEntry 1 <;> rw [heq]
      · exact .made (core'.dealloc stack) _ hslot (.inl rfl)
      · exact .made core' _ hslot (.inr ⟨rfl, rfl, rfl⟩)

section
variable (k : State) (name : CStr) (m : Userland.Image) (slot ppid : UInt32)

theorem processSpawn_cases : processSpawnUserImage k name m slot ppid = (k, none) ∨
      ∃ i, procFindSlot k = some i ∧ processSpawnUserImage k name m slot ppid =
        k.countBirth.attachTask i (userRecord k name m slot ppid) .userEntry 25 := by
  unfold processSpawnUserImage
  split
  · exact .inl rfl
  cases procFindSlot k with
  | none => exact .inl rfl
  | some i => exact .inr ⟨i, rfl, rfl⟩

theorem processSpawn_birth : Birth k ppid (processSpawnUserImage k name m slot ppid).1 := by
  rcases processSpawn_cases k name m slot ppid with heq | ⟨i, hslot, heq⟩ <;> rw [heq]
  · exact .refused
  obtain ⟨core, hmade | ⟨t, hmade⟩⟩ :=
    attachTask_cases k.countBirth i (userRecord k name m slot ppid) .userEntry 25 <;> rw [hmade]
  · exact .made core _ hslot (.inl rfl)
  · exact .made core _ hslot (.inr ⟨rfl, rfl, rfl⟩)

theorem processBind_cases : (processBindCurrentUserImage k name m slot ppid).1 = k ∨
      ∃ a i, k.core.current = some a ∧ processCurrent k = none ∧ procFindSlot k = some i ∧
        (processBindCurrentUserImage k name m slot ppid).1 = { k.countBirth with
            core := k.core.modify a fun t => { t with owner := some k.births } }.setProc i
              { userRecord k name m slot ppid with task := some a } := by
  unfold processBindCurrentUserImage
  cases k.core.current with
  | none => exact .inl rfl
  | some a =>
    dsimp only
    split
    · exact .inl rfl
    cases processCurrent k with
    | some _ => exact .inl rfl
    | none =>
      cases procFindSlot k with
      | none => exact .inl rfl
      | some i => exact .inr ⟨a, i, rfl, rfl, rfl, rfl⟩

theorem processBind_birth : Birth k ppid (processBindCurrentUserImage k name m slot ppid).1 := by
  rcases processBind_cases k name m slot ppid with heq | ⟨a, i, -, -, hslot, heq⟩ <;> rw [heq]
  · exact .refused
  · exact .made _ _ hslot (.inr ⟨rfl, rfl, rfl⟩)

end

/-! Signals. -/

inductive Signalled (k : State) (i : Fin 256) : Int → State → Prop
  | terminated (signal : Int) : signal = 9 ∨ signal = 15 →
      Signalled k i signal ((k.bury i (-signal)).destroyTask (k.procs i).task)
  | stopped : Signalled k i 19 (k.setState i .stopped)
  | continued : (k.procs i).state = .stopped → Signalled k i 18 (k.setState i .running)
  | ignored (signal : Int) : signal ≠ 9 → signal ≠ 15 → signal ≠ 19 → Signalled k i signal k

theorem processKill_cases (k : State) (pid : UInt32) (signal : Int) :
    (processGet k pid = none ∧ processKill k pid signal = (k, aegisEnoent)) ∨
      ∃ i, processGet k pid = some i ∧ (processKill k pid signal).2 = aegisOk ∧
        Signalled k i signal (processKill k pid signal).1 := by
  unfold processKill
  cases hget : processGet k pid with
  | none => exact .inl ⟨rfl, rfl⟩
  | some i =>
    refine .inr ⟨i, rfl, ?_⟩
    dsimp only
    split
    next hterm => exact ⟨rfl, .terminated signal hterm⟩
    rename_i hterm
    rw [not_or] at hterm
    split
    next hstop =>
      subst hstop
      exact ⟨rfl, .stopped⟩
    rename_i hstop
    split
    next hcont =>
      obtain ⟨rfl, hstopped⟩ := hcont
      exact ⟨rfl, .continued hstopped⟩
    · exact ⟨rfl, .ignored signal hterm.1 hterm.2 hstop⟩

theorem Signalled.eq (h : Signalled k i signal k') : ∃ core procs files net,
      k' = { k with core := core, procs := procs, files := files, net := net } := by
  cases h with
  | terminated =>
    obtain ⟨core, heq⟩ := destroyTask_eq (k.bury i (-signal)) (k.procs i).task
    exact ⟨core, _, _, _, heq⟩
  | stopped | continued | ignored => exact ⟨_, _, _, _, rfl⟩

theorem processKill_eq (k : State) (pid : UInt32) (signal : Int) :
    ∃ core procs files net, (processKill k pid signal).1 =
      { k with core := core, procs := procs, files := files, net := net } := by
  rcases processKill_cases k pid signal with ⟨-, heq⟩ | ⟨i, -, -, hsig⟩
  · rw [heq]
    exact ⟨_, _, _, _, rfl⟩
  · exact hsig.eq

/-- A signal changes the state and the exit code of one process. -/
theorem Signalled.procs (h : Signalled k i signal k') :
    ∃ s code, k'.procs = update k.procs i { k.procs i with state := s, exitCode := code } ∧
      (s = (k.procs i).state ∨ s ≠ .empty) := by
  cases h with
  | terminated => exact ⟨.zombie, _, destroyTask_procs _ _, .inr (by decide)⟩
  | stopped | continued => exact ⟨_, _, rfl, .inr (by decide)⟩
  | ignored => exact ⟨_, _, (update_eq_self i k.procs).symm, .inl rfl⟩

theorem Signalled.other (h : Signalled k i signal k') (hji : j ≠ i) : k'.procs j = k.procs j := by
  obtain ⟨s, code, heq, -⟩ := h.procs
  rw [heq, update_of_ne hji]

theorem processKill_other (h : (k.procs j).pid ≠ pid) (signal : Int) :
    (processKill k pid signal).1.procs j = k.procs j := by
  rcases processKill_cases k pid signal with ⟨-, heq⟩ | ⟨i, hget, -, hsig⟩
  · rw [heq]
  refine hsig.other ?_
  rintro rfl
  exact h (processGet_spec hget).1

/-- What signals and exits leave of an entry: all but its state, its exit code and its
parent, and whether it is in use. -/
structure Kept (p q : Process) : Prop where
  pid : q.pid = p.pid
  name : q.name = p.name
  image : q.image = p.image
  runtimeSlot : q.runtimeSlot = p.runtimeSlot
  task : q.task = p.task
  live : q.Live ↔ p.Live

theorem Kept.refl (p : Process) : Kept p p := ⟨rfl, rfl, rfl, rfl, rfl, Iff.rfl⟩

theorem Kept.trans {r : Process} (h : Kept p q) (h' : Kept q r) : Kept p r :=
  ⟨h'.pid.trans h.pid, h'.name.trans h.name, h'.image.trans h.image,
    h'.runtimeSlot.trans h.runtimeSlot, h'.task.trans h.task, h'.live.trans h.live⟩

theorem kept_update {procs : Fin 256 → Process} (h : Kept (procs i) q) (j : Fin 256) :
    Kept (procs j) (update procs i q j) := by
  by_cases hji : j = i
  · subst hji
    rwa [update_self]
  · rw [update_of_ne hji]
    exact .refl _

theorem kept_restate (hp : p.Live) {s : ProcState} (hs : s ≠ .empty) (code : Int) :
    Kept p { p with state := s, exitCode := code } :=
  ⟨rfl, rfl, rfl, rfl, rfl, iff_of_true hs hp⟩

theorem Signalled.kept (hlive : (k.procs i).Live) (h : Signalled k i signal k')
    (j : Fin 256) : Kept (k.procs j) (k'.procs j) := by
  obtain ⟨s, code, heq, hs⟩ := h.procs
  rw [heq]
  refine kept_update (kept_restate hlive (hs.elim ?_ id) code) j
  rintro rfl
  exact hlive

theorem processKill_kept (k : State) (pid : UInt32) (signal : Int) (j : Fin 256) :
    Kept (k.procs j) ((processKill k pid signal).1.procs j) := by
  rcases processKill_cases k pid signal with ⟨-, heq⟩ | ⟨i, hget, -, hsig⟩
  · rw [heq]
    exact .refl _
  · exact hsig.kept (processGet_spec hget).2 j

theorem kept_reparent (parent : UInt32) (p : Process) : Kept p (reparent parent p) := by
  unfold reparent
  split
  · exact ⟨rfl, rfl, rfl, rfl, rfl, Iff.rfl⟩
  · exact .refl p

section
variable (hvacant : ∀ i, ¬(k.procs i).Live → (k.procs i).task = none)
include hvacant

theorem exiting_live (h : exiting k a = some i) : (k.procs i).Live := by
  by_contra hdead
  have htask := exiting_spec h
  rw [hvacant i hdead] at htask
  cases htask

theorem processRetire_kept (a : Nat) (code : Int) (now : UInt64) (j : Fin 256) :
    Kept (k.procs j) ((processRetire k a code now).procs j) := by
  unfold processRetire
  cases hexit : exiting k a with
  | none => exact .refl _
  | some i =>
    have hbury := kept_update
      (kept_restate (s := .zombie) (exiting_live hvacant hexit) (by decide) code) j
    exact hbury.trans (kept_reparent _ _)

end

/-! Reaping. -/

theorem reap_cases (k : State) (i : Fin 256) (pid : UInt32) : ∃ runtime userland,
      (∃ rc, k.reap i pid = ({ k.freeChild (k.procs i) with
          runtime := runtime, userland := userland }, .error rc)) ∨
        k.reap i pid = ({ k.freeChild (k.procs i) with
          runtime := runtime, userland := userland }.setProc i processZero,
          .ok (k.procs i).exitCode) := by
  simp only [State.reap]
  split
  · exact ⟨_, _, .inl ⟨_, rfl⟩⟩
  split
  · exact ⟨_, _, .inl ⟨_, rfl⟩⟩
  · exact ⟨_, _, .inr rfl⟩

theorem processWait_cases (k : State) (pid : UInt32) : (∃ rc, processWait k pid = (k, .error rc)) ∨
      ∃ i, processGet k pid = some i ∧ (k.procs i).state = .zombie ∧
        (processGetpid k = 0 ∨ (k.procs i).ppid = processGetpid k) ∧
        processWait k pid = k.reap i pid := by
  unfold processWait
  cases hget : processGet k pid with
  | none => exact .inl ⟨_, rfl⟩
  | some i =>
    dsimp only
    split
    · exact .inl ⟨_, rfl⟩
    rename_i hperm
    split
    · exact .inl ⟨_, rfl⟩
    rename_i hzombie
    refine .inr ⟨i, rfl, not_not.mp hzombie, ?_, rfl⟩
    rw [not_and_or, not_not, not_not] at hperm
    exact hperm

/-- A wait only tears down and clears the entry of a dead child, the latter unless it reports
an error. -/
theorem processWait_effect (k : State) (pid : UInt32) : ∃ core runtime userland,
    (processWait k pid).1 = { k with core := core, runtime := runtime, userland := userland } ∨
      ∃ i, processGet k pid = some i ∧ (k.procs i).state = .zombie ∧ processWait k pid = ({ k with
          core := core, runtime := runtime, userland := userland }.setProc i processZero,
          .ok (k.procs i).exitCode) := by
  rcases processWait_cases k pid with ⟨rc, heq⟩ | ⟨i, hget, hzombie, -, heq⟩
  · rw [heq]
    exact ⟨_, _, _, .inl rfl⟩
  obtain ⟨core, hfree⟩ := freeChild_eq k (k.procs i)
  obtain ⟨runtime, userland, ⟨rc, hreap⟩ | hreap⟩ := reap_cases k i pid <;> rw [heq, hreap, hfree]
  · exact ⟨_, _, _, .inl rfl⟩
  · exact ⟨_, _, _, .inr ⟨i, hget, hzombie, rfl⟩⟩

theorem processWaitAny_cases (k : State) (parent : UInt32) :
    (∃ rc, processWaitAny k parent = (k, .error rc)) ∨
      ∃ pid, (processWaitAny k parent).1 = (processWait k pid).1 ∧
        (processWaitAny k parent).2 = (processWait k pid).2.map fun code => (pid, code) := by
  unfold processWaitAny
  cases firstZombie k (waitParent k parent) with
  | none => exact .inl ⟨_, rfl⟩
  | some i => exact .inr ⟨(k.procs i).pid, rfl, rfl⟩

/-! Events. -/

inductive Stepped (k : State) : Event → State → Prop
  | create : ∀ {name ppid k'}, Birth k ppid k' → Stepped k (.create name ppid) k'
  | spawn : ∀ {name m slot ppid k'}, Birth k ppid k' →
      Stepped k (.spawnUserImage name m slot ppid) k'
  | bind : ∀ {name m slot ppid k'}, Birth k ppid k' → Stepped k (.bindCurrent name m slot ppid) k'
  | kill : ∀ pid signal, Stepped k (.kill pid signal) (processKill k pid signal).1
  | idle : ∀ {code now}, k.core.current = none → Stepped k (.exit code now) k
  | exit : ∀ {code now a} core, k.core.current = some a →
      Stepped k (.exit code now) { processRetire k a code now with core := core }
  | wait : ∀ pid, Stepped k (.wait pid) (processWait k pid).1
  | childless : ∀ {parent}, Stepped k (.waitAny parent) k
  | waitAny : ∀ {parent pid},
      (processWaitAny k parent).2 = (processWait k pid).2.map (fun code => (pid, code)) →
      Stepped k (.waitAny parent) (processWait k pid).1
  | yield : ∀ core, Stepped k .yield { k with core := core }
  | schedulerRun : ∀ core, Stepped k .schedulerRun { k with core := core }
  | kernelTask : ∀ {priority} core, Stepped k (.kernelTask priority) { k with core := core }
  | setIdle : ∀ {task} core, Stepped k (.setIdle task) { k with core := core }

theorem step_stepped {e : Event} (h : step k e = some k') : Stepped k e k' := by
  cases e <;> simp only [step] at h
  case exit code now =>
    rcases processExit_spec h with ⟨hnone, rfl⟩ | ⟨a, core, hcur, -, rfl⟩
    · exact .idle hnone
    · exact .exit core hcur
  case waitAny parent =>
    cases h
    rcases processWaitAny_cases k parent with ⟨rc, heq⟩ | ⟨pid, heq, hcode⟩ <;> rw [heq]
    · exact .childless
    · exact .waitAny hcode
  case yield =>
    obtain ⟨core, -, -, rfl⟩ := yield_spec h
    exact .yield core
  case schedulerRun =>
    obtain ⟨core, -, hres⟩ := bind_eq_some_iff.mp h
    rw [resumed_eq hres]
    exact .schedulerRun core
  all_goals cases h
  · exact .create (processCreate_birth ..)
  · exact .spawn (processSpawn_birth ..)
  · exact .bind (processBind_birth ..)
  · exact .kill ..
  · exact .wait _
  · exact .kernelTask _
  · exact .setIdle _

end AegisOS.Kernel
