import AegisOS.Process

/-! The system calls that create, signal, stop and reap processes (`kernel/core/syscall.c`),
with the shutdown request of `kernel/core/power.c`. What a call reads from outside the
modelled state is passed in: user strings (none where copying fails), file contents, the
clock, and the outcome of copying to user memory. -/
namespace AegisOS.Kernel
open CString Scheduler Userland ElfLoader ServiceSupervisor

def serviceManager : CStr := cstr "service-manager"
def aegisd : CStr := cstr "aegisd"
def aegisSocketFdBase : UInt64 := 0x1000
def aegisWaitNohang : UInt64 := 1
def aegisShutdownPoweroff : UInt64 := 0
def aegisShutdownReboot : UInt64 := 1

/-! Spawning. -/

def imageOf (info : ImageInfo) : Image :=
  ⟨info.runtimeEntry, info.textKernelBacking, info.textMemsz, info.runtimeStackBase,
    info.runtimeStackSize⟩

def spawnPolicy (name : CStr) : UInt32 :=
  if name = serviceManager ∨ name = aegisd then
    policyRestartOnFault ||| (policyRequired ||| policyControlPlane)
  else policyRestartOnFault

/-- The supervisor's part of a spawn; a failed registration kills the child, a refused
restart does not. -/
def superviseSpawn (k : State) (f : Feature) (pid : UInt32) (restart : Bool)
    (now : UInt64) : State × Int :=
  let name := f.name.str
  let registered := nativeRegisterStarting k.supervisor name f.serviceId pid
    (spawnPolicy name)
  let k := { k with supervisor := registered.1 }
  if registered.2 ≠ aegisOk then ((processKill k pid 9).1, registered.2)
  else if restart then
    let noted := noteRestart k.supervisor name pid now
    ({ k with supervisor := noted.1 }, if noted.2 ≠ aegisOk then noted.2 else pid.toNat)
  else (k, pid.toNat)

def publishSpawn (k : State) (f : Feature) (path : CStr) (pid : UInt32)
    (m : Image) (restart : Bool) (now : UInt64) : State × Int :=
  let noted := noteNativeProcessSpawn k.userland f.name.str path pid m
  let k := { k with userland := noted.1 }
  if noted.2 ≠ aegisOk then ((processKill k pid 9).1, noted.2)
  else if f.serviceId = 0 then (k, pid.toNat)
  else superviseSpawn k f pid restart now

def loadAndSpawn (k : State) (f : Feature) (path : CStr)
    (file : Option FileRead) (restart : Bool) (now : UInt64) : State × Int :=
  match elfLoaderLoadVfsPath k.runtime file path with
  | (runtime, .error rc) => ({ k with runtime := runtime }, rc)
  | (runtime, .ok info) =>
    let k := { k with runtime := runtime }
    let slot := info.runtimeSlot.toUInt32
    match processSpawnUserImage k f.name.str (imageOf info) slot (processGetpid k) with
    | (k, none) =>
      ({ k with runtime := (elfLoaderReleaseRuntimeSlot k.runtime slot).1 }, aegisEnomem)
    | (k, some i) => publishSpawn k f path (k.procs i).pid (imageOf info) restart now

def sysSpawn (k : State) (path : Option (CArray 128)) (file : Option FileRead)
    (now later : UInt64) : State × Int :=
  match path with
  | none => (k, aegisEinval)
  | some path =>
    match findFeatureByPath k.userland path.str with
    | none => (k, aegisEnoent)
    | some f =>
      if f.flags &&& flagProcess = 0 then (k, aegisEnoent)
      else if f.livePid ≠ 0 then (k, aegisEbusy)
      else
        let restart := f.serviceId ≠ 0 ∧ (find k.supervisor f.name.str).isSome
        if restart then
          let allowed := restartAllowed k.supervisor f.name.str now
          let k := { k with supervisor := allowed.1 }
          if allowed.2 ≠ aegisOk then (k, allowed.2)
          else loadAndSpawn k f path.str file true later
        else loadAndSpawn k f path.str file false later

/-! Readiness. -/

def sysServiceReady (k : State) (name : Option (CArray 32)) : State × Int :=
  match name with
  | none => (k, aegisEinval)
  | some name =>
    let pid := processGetpid k
    if processCurrentName k ≠ some name.str ∨ pid = 0 then (k, aegisEperm)
    else
      let marked := markFeatureNativeRunning k.userland name.str pid
      let k := { k with userland := marked.1 }
      if marked.2 ≠ aegisOk then (k, marked.2)
      else if pid = 1 then (k, aegisOk)
      else
        let running := nativeMarkRunning k.supervisor name.str pid
        let k := { k with supervisor := running.1 }
        if running.2 ≠ aegisOk ∧ running.2 ≠ aegisEnoent then (k, running.2) else (k, aegisOk)

def isRunning (v : Option Service) : Bool := v.any fun v => v.state = .running

def sysConsoleReady (k : State) : State × Int :=
  if processCurrentName k ≠ some serviceManager then (k, aegisEperm)
  else if isRunning (find k.supervisor serviceManager) &&
      isRunning (find k.supervisor aegisd) then
    ({ k with consoleReleased := true }, aegisOk)
  else (k, aegisEbusy)

/-! Signals, exit and reaping. -/

/-- The caller may signal the entry: pid 1 any, a process itself and its children, and
the service manager any. -/
def mayKill (k : State) (i : Fin 256) : Prop :=
  processGetpid k = 1 ∨ processGetpid k = (k.procs i).pid ∨
    (k.procs i).ppid = processGetpid k ∨ processCurrentName k = some serviceManager
  deriving Decidable

def sysKill (k : State) (pid signal : UInt64) : State × Int :=
  if pid = 0 ∨ signal = 0 ∨ 64 < signal then (k, aegisEinval)
  else
    match processGet k pid.toUInt32 with
    | none => (k, aegisEnoent)
    | some i => if mayKill k i then processKill k pid.toUInt32 signal.toNat else (k, aegisEperm)

def sysExit (k : State) (code now : UInt64) : Option State :=
  processExit k code.toUInt32.toInt32.toInt now

def anyChild (pid : UInt64) : Prop := pid = 0xffffffffffffffff ∨ pid = 0xffffffff
  deriving Decidable

def waitChild (k : State) (pid : UInt64) : State × Except Int UInt32 :=
  if anyChild pid then
    let reaped := processWaitAny k (processGetpid k)
    (reaped.1, reaped.2.map Prod.fst)
  else if pid = 0 then (k, .error aegisEinval)
  else
    let reaped := processWait k pid.toUInt32
    (reaped.1, match reaped.2 with
      | .ok _ => .ok pid.toUInt32
      | .error rc => .error (if rc = aegisEbusy then aegisEagain else rc))

/-- `exitPtr` is none for a null pointer, else whether the code could be copied there. -/
def sysWaitpid (k : State) (pid options : UInt64) (exitPtr : Option Bool) : State × Int :=
  let reaped := waitChild k pid
  (reaped.1, match reaped.2 with
    | .ok child => if exitPtr = some false then aegisEinval else child.toNat
    | .error rc => if rc = aegisEagain ∧ options &&& aegisWaitNohang ≠ 0 then 0 else rc)

/-! Shutdown. -/

def systemShutdownRequest (k : State) (requester reason : UInt32) : State :=
  match k.shutdown with
  | some _ => k
  | none =>
    (processTerminateAllExcept { k with shutdown := some ⟨requester, reason⟩ } requester 15).1

/-- With one of the two modes the machine stops and the call does not return. -/
def sysShutdown (k : State) (mode reason : UInt64) : State × Int :=
  let pid := processGetpid k
  if pid ≠ 1 ∧ processCurrentName k ≠ some serviceManager then (k, aegisEperm)
  else
    let k := { k with supervisor := beginShutdown k.supervisor }
    let k := systemShutdownRequest k pid reason.toUInt32
    if mode = aegisShutdownReboot ∨ mode = aegisShutdownPoweroff then
      ({ k with halted := true }, aegisOk)
    else (k, aegisEinval)

/-! Files and sockets. -/

/-- `sys_open` of a path that names a file or not. -/
def sysOpen (k : State) (found : Bool) : State × Int :=
  if found = false then (k, aegisEnoent)
  else
    match FdTable.vfsOpen k.files with
    | (_, none) => (k, aegisEnoent)
    | (files, some v) =>
      let installed := FdTable.fdInstall files (processGetpid k) v true true
      let files := if installed.2 < 0 then FdTable.vfsClose installed.1 (some v) else installed.1
      ({ k with files := files }, installed.2)

def sysClose (k : State) (fd : UInt64) : State × Int :=
  if fd ≤ 2 then (k, aegisOk)
  else if aegisSocketFdBase ≤ fd then
    let closed := Net.netSocketClose k.net (processGetpid k).toNat fd.toUInt32.toInt32.toInt
    ({ k with net := closed.1 }, closed.2)
  else
    let closed := FdTable.fdClose k.files (processGetpid k) fd.toUInt32.toInt32.toInt
    ({ k with files := closed.1 }, closed.2)

/-- Reading or writing `count` bytes of a file moves the offset of its descriptor. -/
def advance (k : State) (fd : Int) (forWrite : Bool) (count : UInt64) : State :=
  match FdTable.fdGet k.files (processGetpid k) fd forWrite with
  | none => k
  | some (t, i) =>
    let e := k.files.fds t i
    { k with files := k.files.set t i { e with offset := e.offset + count } }

/-! The calls of user processes, and what the kernel's own tasks do besides. -/

inductive Call
  | spawn (path : Option (CArray 128)) (file : Option FileRead) (now later : UInt64)
  | serviceReady (name : Option (CArray 32))
  | consoleReady
  | kill (pid signal : UInt64)
  | exit (code now : UInt64)
  | waitpid (pid options : UInt64) (exitPtr : Option Bool)
  | shutdown (mode reason : UInt64)
  /-- `sys_yield`, or one round of the loop of `sys_sleep`. -/
  | yield
  | openFile (found : Bool)
  | close (fd : UInt64)
  | fileIo (fd : Int) (forWrite : Bool) (count : UInt64)
  /-- A call on a socket, as the calls it makes into the network stack. -/
  | sockets (es : List Net.Event)
  /-- A handler that touches none of the modelled state, such as `sys_getpid`. -/
  | other
  | schedulerRun
  | kernelTask (priority : Nat)
  | setIdle (task : Option Nat)
  | bindCurrent (name : CStr) (m : Image) (runtimeSlot ppid : UInt32)

/-- The effect of a call on a running machine; `none` is a panic. -/
def perform (k : State) : Call → Option State
  | .spawn path file now later => some (sysSpawn k path file now later).1
  | .serviceReady name => some (sysServiceReady k name).1
  | .consoleReady => some (sysConsoleReady k).1
  | .kill pid signal => some (sysKill k pid signal).1
  | .exit code now => sysExit k code now
  | .waitpid pid options exitPtr => some (sysWaitpid k pid options exitPtr).1
  | .shutdown mode reason => some (sysShutdown k mode reason).1
  | .yield => k.yield
  | .openFile found => some (sysOpen k found).1
  | .close fd => some (sysClose k fd).1
  | .fileIo fd forWrite count => some (advance k fd forWrite count)
  | .sockets es => some { k with net := es.foldl Net.perform k.net }
  | .other => some k
  | .schedulerRun => step k .schedulerRun
  | .kernelTask priority => step k (.kernelTask priority)
  | .setIdle task => step k (.setIdle task)
  | .bindCurrent name m slot ppid => step k (.bindCurrent name m slot ppid)

def dispatch (k : State) (c : Call) : Option State := if k.halted then none else perform k c

/-- The booted kernel with one feature that may be spawned: a supervised daemon. -/
def withDaemon : State :=
  { booted with
    userland := ⟨[⟨1, strcopy aegisd, strcopy aegisd,
      strcopy (cstr "/sbin/aegisd"), 7, .handoffReady, flagProcess, 0⟩], []⟩ }

theorem withDaemon_booted : Booted withDaemon := ⟨⟨_, _, rfl⟩, fun _ => rfl, rfl, rfl, rfl, rfl⟩

/-- The kernel starts a task, the task becomes pid 1, and pid 1 spawns the daemon. -/
def launchDaemon : List Call :=
  [.kernelTask 10, .schedulerRun, .bindCurrent (cstr "aegis-init") someImage 1 0,
    .spawn (some (strcopy (cstr "/sbin/aegisd")))
      (some ⟨plainImage, 120⟩) 0 0]

/-! What the system calls come down to in the process layer. -/

/-- Nothing changes for the processes: the table, the tasks and the counters stay, and no
service starts to run. -/
structure Aside (k k' : State) : Prop where
  core : k'.core = k.core
  procs : k'.procs = k.procs
  nextPid : k'.nextPid = k.nextPid
  births : k'.births = k.births
  supervisor : Calm k.supervisor k'.supervisor

theorem Aside.refl (k : State) : Aside k k := ⟨rfl, rfl, rfl, rfl, .refl _⟩

theorem Aside.trans {k k1 k2 : State} (h : Aside k k1) (h' : Aside k1 k2) : Aside k k2 :=
  ⟨h'.core.trans h.core, h'.procs.trans h.procs, h'.nextPid.trans h.nextPid,
    h'.births.trans h.births, h.supervisor.trans h'.supervisor⟩

def PidFree (k : State) : Prop := ∀ i, (k.procs i).Live → (k.procs i).pid ≠ k.nextPid
  deriving Decidable

theorem PidFree.aside {k k' : State} (h : PidFree k) (ha : Aside k k') : PidFree k' := by
  rw [PidFree, ha.procs, ha.nextPid]
  exact h

section
variable {k : State}

theorem aside_supervisor (k : State) (runtime : Runtime) (userland : Catalogue)
    {s : Supervisor} (hs : Calm k.supervisor s) :
    Aside k { k with runtime := runtime, userland := userland, supervisor := s } :=
  ⟨rfl, rfl, rfl, rfl, hs⟩

/-- The outcomes of `sys_spawn`: it stops before the child is made, or makes it and
publishes it, or makes it and kills it again. -/
inductive SpawnEffect (k : State) : State → Prop
  | refused {k' : State} : Aside k k' → SpawnEffect k k'
  | spawned {k1 k2 k' : State} {made : Option (Fin 256)} {name : CStr} {m : Image}
      {slot ppid : UInt32} : Aside k k1 → processSpawnUserImage k1 name m slot ppid = (k2, made) →
      Aside k2 k' → SpawnEffect k k'
  | killed {k1 k2 k3 : State} {i : Fin 256} {name : CStr} {m : Image} {slot ppid : UInt32} :
      Aside k k1 → processSpawnUserImage k1 name m slot ppid = (k2, some i) → Aside k2 k3 →
      SpawnEffect k (processKill k3 (k2.procs i).pid 9).1

theorem publishSpawn_cases (k : State) (f : Feature) (path : CStr) (pid : UInt32)
    (m : Image) (restart : Bool) (now : UInt64) : ∃ k1 s, Calm k.supervisor s ∧ k1 = { k with
        userland := (noteNativeProcessSpawn k.userland f.name.str path pid m).1
        supervisor := s } ∧
      ((publishSpawn k f path pid m restart now).1 = k1 ∨
        (publishSpawn k f path pid m restart now).1 = (processKill k1 pid 9).1) := by
  have hreg := (nativeRegisterStarting_touches k.supervisor f.name f.serviceId pid
    (spawnPolicy f.name.str)).calm
  unfold publishSpawn superviseSpawn
  dsimp only
  split
  · exact ⟨_, _, .refl _, rfl, .inr rfl⟩
  split
  · exact ⟨_, _, .refl _, rfl, .inl rfl⟩
  split
  · exact ⟨_, _, hreg, rfl, .inr rfl⟩
  split
  · exact ⟨_, _, hreg.trans (noteRestart_touches _ _ _ _).calm, rfl, .inl rfl⟩
  · exact ⟨_, _, hreg, rfl, .inl rfl⟩

theorem loadAndSpawn_effect {k0 : State} (h0 : Aside k0 k) (f : Feature) (path : CStr)
    (file : Option FileRead) (restart : Bool) (now : UInt64) :
    SpawnEffect k0 (loadAndSpawn k f path file restart now).1 := by
  unfold loadAndSpawn
  cases elfLoaderLoadVfsPath k.runtime file path with
  | mk runtime result =>
    have h1 : Aside k0 { k with runtime := runtime } :=
      h0.trans (aside_supervisor k runtime k.userland (.refl _))
    cases result with
    | error rc => exact .refused h1
    | ok info =>
      dsimp only
      cases hspawn : processSpawnUserImage { k with runtime := runtime } f.name.str (imageOf info)
        info.runtimeSlot.toUInt32 (processGetpid { k with runtime := runtime }) with
      | mk k2 made =>
        cases made with
        | none => exact .spawned h1 hspawn (aside_supervisor k2 _ k2.userland (.refl _))
        | some i =>
          obtain ⟨k3, s, hs, rfl, heq | heq⟩ :=
            publishSpawn_cases k2 f path (k2.procs i).pid (imageOf info) restart now <;> rw [heq]
          · exact .spawned h1 hspawn (aside_supervisor k2 _ _ hs)
          · exact .killed h1 hspawn (aside_supervisor k2 _ _ hs)

theorem sysSpawn_effect (k : State) (path : Option (CArray 128))
    (file : Option FileRead) (now later : UInt64) :
    SpawnEffect k (sysSpawn k path file now later).1 := by
  unfold sysSpawn
  cases path with
  | none => exact .refused (.refl k)
  | some path =>
    dsimp only
    cases findFeatureByPath k.userland path.str with
    | none => exact .refused (.refl k)
    | some f =>
      dsimp only
      split_ifs
      · exact .refused (.refl k)
      · exact .refused (.refl k)
      · exact .refused (aside_supervisor k k.runtime k.userland (restartAllowed_calm _ _ _))
      · exact loadAndSpawn_effect
          (aside_supervisor k k.runtime k.userland (restartAllowed_calm _ _ _)) f path.str file true later
      · exact loadAndSpawn_effect (.refl k) f path.str file false later

theorem sysKill_cases (k : State) (pid signal : UInt64) : (sysKill k pid signal).1 = k ∨
      (∃ i, processGet k pid.toUInt32 = some i ∧ mayKill k i) ∧
        (sysKill k pid signal).1 = (processKill k pid.toUInt32 signal.toNat).1 := by
  unfold sysKill
  split
  · exact .inl rfl
  cases hget : processGet k pid.toUInt32 with
  | none => exact .inl rfl
  | some i =>
    dsimp only
    split
    next hmay => exact .inr ⟨⟨i, rfl, hmay⟩, rfl⟩
    · exact .inl rfl

/-- Nothing, or the running process is announced under its own name. -/
theorem sysServiceReady_cases (k : State) (name : Option (CArray 32)) :
    (sysServiceReady k name).1 = k ∨ ∃ i supervisor, name = some (k.procs i).name ∧
      processCurrent k = some i ∧ (k.procs i).pid ≠ 0 ∧ (supervisor = k.supervisor ∨ supervisor =
        (nativeMarkRunning k.supervisor (k.procs i).name.str (k.procs i).pid).1) ∧
      (sysServiceReady k name).1 = { k with
        userland := (markFeatureNativeRunning k.userland (k.procs i).name.str (k.procs i).pid).1
        supervisor := supervisor } := by
  unfold sysServiceReady
  cases name with
  | none => exact .inl rfl
  | some name =>
    dsimp only
    split
    · exact .inl rfl
    rename_i hcaller
    rw [not_or, not_not] at hcaller
    obtain ⟨i, hi, hname⟩ := Option.map_eq_some_iff.mp hcaller.1
    obtain rfl : (k.procs i).name = name := CArray.ext hname
    have hpid : processGetpid k = (k.procs i).pid := by simp only [processGetpid, hi]
    rw [hpid] at hcaller ⊢
    split
    · exact .inr ⟨i, _, rfl, hi, hcaller.2, .inl rfl, rfl⟩
    split
    · exact .inr ⟨i, _, rfl, hi, hcaller.2, .inl rfl, rfl⟩
    · split <;> exact .inr ⟨i, _, rfl, hi, hcaller.2, .inr rfl, rfl⟩

theorem sysWaitpid_cases (k : State) (pid options : UInt64) (exitPtr : Option Bool) :
    (sysWaitpid k pid options exitPtr).1 = k ∨
      ∃ child, (sysWaitpid k pid options exitPtr).1 = (processWait k child).1 := by
  unfold sysWaitpid waitChild
  split
  · rcases processWaitAny_cases k (processGetpid k) with ⟨rc, heq⟩ | ⟨child, heq, -⟩
    · rw [heq]
      exact .inl rfl
    · exact .inr ⟨child, heq⟩
  · split
    · exact .inl rfl
    · exact .inr ⟨pid.toUInt32, rfl⟩

theorem terminateAll_induction {I : State → Prop} (keep : UInt32) (signal : Int)
    (hkill : ∀ k pid, I k → pid ≠ keep → I (processKill k pid signal).1) (h : I k) :
    I (processTerminateAllExcept k keep signal).1 := by
  have hfold : ∀ (l : List (Fin 256)) (acc : State × Int), I acc.1 →
      I (l.foldl (terminateOther keep signal) acc).1 := by
    intro l
    induction l with
    | nil => exact fun acc hacc => hacc
    | cons i l ih =>
      intro acc hacc
      refine ih _ ?_
      simp only [terminateOther]
      split
      · exact hacc
      next hother => exact hkill acc.1 _ hacc (not_or.mp hother).2
  unfold processTerminateAllExcept
  exact hfold _ _ h

/-! Shutting down. -/

def mayShutdown (k : State) : Prop :=
  processGetpid k = 1 ∨ processCurrentName k = some serviceManager
  deriving Decidable

theorem sysShutdown_denied (h : ¬mayShutdown k) (mode reason : UInt64) :
    sysShutdown k mode reason = (k, aegisEperm) := by
  exact if_pos (not_or.mp h)

/-- A shutdown sets its marks, kills the others unless one is under way, and may halt. -/
theorem sysShutdown_induction {I : State → Prop} (hmay : mayShutdown k) (mode reason : UInt64)
    (hbegun : ∀ shutdown, I { k with
      supervisor := beginShutdown k.supervisor, shutdown := shutdown })
    (hkill : k.shutdown = none → ∀ k1 pid, I k1 → pid ≠ processGetpid k →
      I (processKill k1 pid 15).1)
    (hhalted : ∀ k1, I k1 → I { k1 with halted := true }) : I (sysShutdown k mode reason).1 := by
  have hdone : I (systemShutdownRequest { k with supervisor := beginShutdown k.supervisor }
      (processGetpid k) reason.toUInt32) := by
    cases hs : k.shutdown with
    | some _ => exact hbegun _
    | none => exact terminateAll_induction _ 15 (hkill hs) (hbegun _)
  unfold sysShutdown
  rw [if_neg fun hdenied => hmay.elim hdenied.1 hdenied.2]
  split
  · exact hhalted _ hdone
  · exact hdone

/-! Calls that leave the processes alone. -/

/-- The calls on files, sockets and the console, and those that touch nothing. -/
def Call.isLocal : Call → Bool
  | .consoleReady | .openFile _ | .close _ | .fileIo .. | .sockets _ | .other => true
  | _ => false

variable {c : Call} {k' : State}

section
variable (hc : c.isLocal = true) (h : perform k c = some k')
include hc h

theorem perform_local : ∃ files net released,
      k' = { k with files := files, net := net, consoleReleased := released } := by
  cases c <;> simp only [Call.isLocal, reduceCtorEq] at hc <;> try cases h
  case consoleReady =>
    unfold sysConsoleReady
    split_ifs <;> exact ⟨_, _, _, rfl⟩
  case openFile found =>
    unfold sysOpen
    split
    · exact ⟨_, _, _, rfl⟩
    · cases FdTable.vfsOpen k.files with
      | mk files v => cases v <;> exact ⟨_, _, _, rfl⟩
  case close fd =>
    unfold sysClose
    split_ifs <;> exact ⟨_, _, _, rfl⟩
  case fileIo fd forWrite count =>
    unfold advance
    cases FdTable.fdGet k.files (processGetpid k) fd forWrite <;> exact ⟨_, _, _, rfl⟩
  case sockets | other => exact ⟨_, _, _, rfl⟩

theorem aside_local : Aside k k' := by
  obtain ⟨_, _, _, rfl⟩ := perform_local hc h
  exact ⟨rfl, rfl, rfl, rfl, .refl _⟩

end

end

/-! The system calls that leave the runtime slots and the feature catalogue alone, and of
the processes all but their states and parents. -/

structure Quiet (k k' : State) : Prop where
  runtime : k'.runtime = k.runtime
  userland : k'.userland = k.userland
  kept : ∀ j, Kept (k.procs j) (k'.procs j)

section
variable (k : State)

theorem Quiet.refl : Quiet k k := ⟨rfl, rfl, fun _ => .refl _⟩

theorem Quiet.trans {k k1 k2 : State} (h : Quiet k k1) (h' : Quiet k1 k2) : Quiet k k2 :=
  ⟨h'.runtime.trans h.runtime, h'.userland.trans h.userland, fun j => (h.kept j).trans (h'.kept j)⟩

theorem quiet_core (core : Core) : Quiet k { k with core := core } := ⟨rfl, rfl, fun _ => .refl _⟩

theorem quiet_supervisor (s : ServiceSupervisor.Supervisor) :
    Quiet k { k with supervisor := s } := ⟨rfl, rfl, fun _ => .refl _⟩

theorem processKill_quiet (pid : UInt32) (signal : Int) : Quiet k (processKill k pid signal).1 := by
  refine ⟨?_, ?_, processKill_kept k pid signal⟩
  all_goals
    obtain ⟨_, _, _, _, heq⟩ := processKill_eq k pid signal
    rw [heq]

theorem sysKill_quiet (pid signal : UInt64) : Quiet k (sysKill k pid signal).1 := by
  rcases sysKill_cases k pid signal with heq | ⟨-, heq⟩ <;> rw [heq]
  · exact .refl k
  · exact processKill_quiet k _ _

theorem processRetire_quiet {k : State} (hvacant : ∀ i, ¬(k.procs i).Live → (k.procs i).task = none)
    (a : Nat) (code : Int) (now : UInt64) : Quiet k (processRetire k a code now) := by
  refine ⟨?_, ?_, processRetire_kept hvacant a code now⟩
  all_goals
    unfold processRetire
    cases exiting k a with
    | none | some => rfl

theorem processExit_quiet {k k' : State}
    (hvacant : ∀ i, ¬(k.procs i).Live → (k.procs i).task = none) {code : Int} {now : UInt64}
    (h : processExit k code now = some k') : Quiet k k' := by
  rcases processExit_spec h with ⟨-, rfl⟩ | ⟨a, core, -, -, rfl⟩
  · exact .refl k'
  · exact (processRetire_quiet hvacant a code now).trans (quiet_core _ core)

theorem sysShutdown_quiet (mode reason : UInt64) : Quiet k (sysShutdown k mode reason).1 := by
  by_cases hmay : mayShutdown k
  · refine sysShutdown_induction (I := Quiet k) hmay mode reason (fun _ => ?_) ?_ fun k1 h => ?_
    · exact ⟨rfl, rfl, fun _ => .refl _⟩
    · exact fun _ k1 pid h _ => h.trans (processKill_quiet k1 pid 15)
    · exact h.trans ⟨rfl, rfl, fun _ => .refl _⟩
  · rw [sysShutdown_denied hmay]
    exact .refl k

end

/-- The calls that are not quiet: they make, announce or reap a process. -/
def Call.loud : Call → Bool
  | .spawn .. => true
  | .serviceReady _ => true
  | .waitpid .. => true
  | .bindCurrent .. => true
  | _ => false

theorem perform_quiet {k k' : State} {c : Call}
    (hvacant : ∀ i, ¬(k.procs i).Live → (k.procs i).task = none) (hc : c.loud = false)
    (h : perform k c = some k') : Quiet k k' := by
  by_cases hlocal : c.isLocal = true
  · obtain ⟨_, _, _, rfl⟩ := perform_local hlocal h
    exact ⟨rfl, rfl, fun _ => .refl _⟩
  cases c <;> simp only [Call.loud, Call.isLocal, not_true_eq_false, reduceCtorEq] at hc hlocal
  case kill pid signal =>
    cases h
    exact sysKill_quiet k pid signal
  case exit code now => exact processExit_quiet hvacant h
  case shutdown mode reason =>
    cases h
    exact sysShutdown_quiet k mode reason
  case yield =>
    obtain ⟨core, -, -, rfl⟩ := yield_spec h
    exact quiet_core k core
  case schedulerRun =>
    obtain ⟨core, -, hcore⟩ := Option.bind_eq_some_iff.mp h
    rw [resumed_eq hcore]
    exact quiet_core k core
  case kernelTask | setIdle =>
    cases h
    exact quiet_core k _

/-! The supervisor's running services have live processes, as long as no signal goes
past it. -/
open GuardedRun Function

/-- Every running service has a live process of its name and pid, the pids in use are
distinct, and entries not in use name no task. -/
structure Attended (procs : Fin 256 → Process) (s : Supervisor) : Prop where
  table : WellFormed s
  alive : ∀ name pid, RunningAs s name pid →
    pid ≠ 0 ∧ ∃ i, (procs i).pid = pid ∧ (procs i).name = name ∧ (procs i).Alive
  pids : ∀ i j, (procs i).Live → (procs j).Live → (procs i).pid = (procs j).pid → i = j
  vacant : ∀ i, ¬(procs i).Live → (procs i).task = none

def State.ServicesAttended (k : State) : Prop := Attended k.procs k.supervisor

theorem Booted.servicesAttended {k : State} (h : Booted k) : k.ServicesAttended := by
  have hdead : ∀ i, ¬(k.procs i).Live := by
    intro i hlive
    rw [h.procs i] at hlive
    exact hlive rfl
  refine ⟨h.supervisor ▸ wellFormed_init, ?_, ?_, ?_⟩
  · rintro name pid ⟨v, hv, -⟩
    rw [h.supervisor] at hv
    cases hv
  · exact fun i _ hlive => absurd hlive (hdead i)
  · intro i _
    rw [h.procs i]
    rfl

section
variable {procs : Fin 256 → Process} {s t : Supervisor} {i : Fin 256} {p : Process}
variable (h : Attended procs s)
include h

theorem Attended.calm (hc : Calm s t) : Attended procs t :=
  ⟨hc.wellFormed h.table, fun name pid hr => h.alive name pid (hc.running name pid hr), h.pids,
    h.vacant⟩

theorem Attended.congr {procs' : Fin 256 → Process}
    (hsame : ∀ j, (procs' j).pid = (procs j).pid ∧ (procs' j).name = (procs j).name ∧
      (procs' j).task = (procs j).task ∧ ((procs' j).Live ↔ (procs j).Live))
    (halive : ∀ j name, (procs j).Alive → RunningAs s name (procs j).pid → (procs' j).Alive) :
    Attended procs' s := by
  refine ⟨h.table, ?_, ?_, ?_⟩
  · intro name pid hr
    obtain ⟨hne, j, hjp, hjn, hja⟩ := h.alive name pid hr
    exact ⟨hne, j, (hsame j).1.trans hjp, (hsame j).2.1.trans hjn, halive j name hja (hjp ▸ hr)⟩
  · intro j j' hj hj' heq
    rw [(hsame j).1, (hsame j').1] at heq
    exact h.pids j j' ((hsame j).2.2.2.mp hj) ((hsame j').2.2.2.mp hj') heq
  · intro j hdead
    rw [(hsame j).2.2.1]
    exact h.vacant j fun hj => hdead ((hsame j).2.2.2.mpr hj)

theorem Attended.replace (hpid : p.pid = (procs i).pid) (hname : p.name = (procs i).name)
    (htask : p.task = (procs i).task) (hlive : p.Live ↔ (procs i).Live)
    (halive : (procs i).Alive → p.Alive ∨ ∀ name, ¬RunningAs s name (procs i).pid) :
    Attended (update procs i p) s := by
  refine h.congr (fun j => ?_) fun j name hja hr => ?_
  · by_cases hj : j = i
    · subst hj
      rw [update_self]
      exact ⟨hpid, hname, htask, hlive⟩
    · rw [update_of_ne hj]
      exact ⟨rfl, rfl, rfl, .rfl⟩
  · by_cases hj : j = i
    · subst hj
      rw [update_self]
      exact (halive hja).resolve_right fun hno => hno name hr
    · rw [update_of_ne hj]
      exact hja

theorem Attended.clear (hdead : ¬(procs i).Alive) : Attended (update procs i processZero) s := by
  have hof : ∀ j, (update procs i processZero j).Live →
      j ≠ i ∧ update procs i processZero j = procs j := by
    intro j hlive
    by_cases hj : j = i
    · subst hj
      rw [update_self] at hlive
      exact absurd rfl hlive
    · exact ⟨hj, update_of_ne hj _ _⟩
  refine ⟨h.table, ?_, ?_, ?_⟩
  · intro name pid hr
    obtain ⟨hne, j, hj⟩ := h.alive name pid hr
    have hji : j ≠ i := by
      rintro rfl
      exact hdead hj.2.2
    refine ⟨hne, j, ?_⟩
    rw [update_of_ne hji]
    exact hj
  · intro j j' hj hj' heq
    have hold := (hof j hj).2
    have hold' := (hof j' hj').2
    rw [hold] at hj heq
    rw [hold'] at hj' heq
    exact h.pids j j' hj hj' heq
  · intro j hj
    by_cases hji : j = i
    · subst hji
      rw [update_self]
      rfl
    · rw [update_of_ne hji] at hj ⊢
      exact h.vacant j hj

theorem Attended.enter (hfree : ¬(procs i).Live) (hp : p.Live)
    (hpid : ∀ j, (procs j).Live → (procs j).pid ≠ p.pid) :
    Attended (update procs i p) s := by
  refine ⟨h.table, ?_, ?_, ?_⟩
  · intro name pid hr
    obtain ⟨hne, j, hj⟩ := h.alive name pid hr
    have hji : j ≠ i := by
      rintro rfl
      exact hfree hj.2.2.1
    refine ⟨hne, j, ?_⟩
    rw [update_of_ne hji]
    exact hj
  · intro j j' hj hj' heq
    by_cases hji : j = i
    · by_cases hji' : j' = i
      · exact hji.trans hji'.symm
      subst hji
      rw [update_of_ne hji'] at hj' heq
      rw [update_self] at heq
      exact absurd heq.symm (hpid j' hj')
    · by_cases hji' : j' = i
      · subst hji'
        rw [update_of_ne hji] at hj heq
        rw [update_self] at heq
        exact absurd heq (hpid j hj)
      · rw [update_of_ne hji] at hj heq
        rw [update_of_ne hji'] at hj' heq
        exact h.pids j j' hj hj' heq
  · intro j hj
    by_cases hji : j = i
    · subst hji
      rw [update_self] at hj
      exact absurd hp hj
    · rw [update_of_ne hji] at hj ⊢
      exact h.vacant j hj

theorem Attended.reparent (pid : UInt32) : Attended (fun j => reparent pid (procs j)) s := by
  have hsame : ∀ j, (Kernel.reparent pid (procs j)).pid = (procs j).pid ∧
      (Kernel.reparent pid (procs j)).name = (procs j).name ∧
      (Kernel.reparent pid (procs j)).state = (procs j).state ∧
      (Kernel.reparent pid (procs j)).task = (procs j).task := by
    intro j
    simp only [Kernel.reparent]
    split <;> exact ⟨rfl, rfl, rfl, rfl⟩
  refine h.congr (fun j => ?_) fun j _ hja _ => ?_
  · obtain ⟨hpid, hname, hstate, htask⟩ := hsame j
    refine ⟨hpid, hname, htask, ?_⟩
    rw [Process.Live, Process.Live, hstate]
  · rw [Process.Alive, Process.Live, (hsame j).2.2.1]
    exact hja

theorem Attended.name_of_pid (hlive : (procs i).Live) {name : CArray 32}
    (hr : RunningAs s name (procs i).pid) : name = (procs i).name := by
  obtain ⟨-, j, hjp, hjn, hja⟩ := h.alive name _ hr
  rw [h.pids i j hlive hja.1 hjp.symm, hjn]

end

/-! The system calls. -/

/-- No call ends a process behind the supervisor's back: no kill of a running service's
pid, a shutdown only when no other process is a running service, readiness only of live
processes, and new processes only under pids not in use. -/
def ServicesSpared (k : State) : Call → Prop
  | .spawn _ _ _ _ => PidFree k
  | .bindCurrent _ _ _ _ => PidFree k
  | .kill pid signal =>
    signal = 9 ∨ signal = 15 → (∃ i, processGet k pid.toUInt32 = some i ∧ mayKill k i) →
      ∀ v ∈ k.supervisor.services, v.state = .running → v.pid ≠ pid.toUInt32
  | .shutdown _ _ =>
    mayShutdown k → k.shutdown.isNone = true →
      ∀ v ∈ k.supervisor.services, v.state = .running → v.pid = processGetpid k
  | .serviceReady _ => ∀ i ∈ processCurrent k, (k.procs i).state ≠ .zombie
  | _ => True

section
variable {k k' : State} {i : Fin 256}

theorem processKill_supervisor (k : State) (pid : UInt32) (signal : Int) :
    (processKill k pid signal).1.supervisor = k.supervisor := by
  obtain ⟨core, procs, files, net, heq⟩ := processKill_eq k pid signal
  rw [heq]

variable (h : k.ServicesAttended)
include h

theorem State.ServicesAttended.kill {pid : UInt32} {signal : Int}
    (hno : signal = 9 ∨ signal = 15 → ∀ name, ¬RunningAs k.supervisor name pid) :
    (processKill k pid signal).1.ServicesAttended := by
  have hsup := processKill_supervisor k pid signal
  rcases processKill_cases k pid signal with ⟨-, heq⟩ | ⟨i, hget, -, hsig⟩
  · rw [heq]
    exact h
  obtain ⟨hpid, hlive⟩ := processGet_spec hget
  rw [State.ServicesAttended, hsup]
  generalize (processKill k pid signal).1 = k1 at hsig
  cases hsig with
  | terminated _ hterm =>
    rw [destroyTask_procs, bury_procs]
    refine Attended.replace h rfl rfl rfl (iff_of_true (show ProcState.zombie ≠ .empty by decide) hlive)
      fun _ => .inr ?_
    rw [hpid]
    exact hno hterm
  | stopped =>
    exact Attended.replace h rfl rfl rfl (iff_of_true (show ProcState.stopped ≠ .empty by decide) hlive)
      fun _ => .inl ⟨show ProcState.stopped ≠ .empty by decide, show ProcState.stopped ≠ .zombie by decide⟩
  | continued =>
    exact Attended.replace h rfl rfl rfl (iff_of_true (show ProcState.running ≠ .empty by decide) hlive)
      fun _ => .inl ⟨show ProcState.running ≠ .empty by decide, show ProcState.running ≠ .zombie by decide⟩
  | ignored => exact h

theorem State.ServicesAttended.retire (a : Nat) (code : Int) (now : UInt64) :
    (processRetire k a code now).ServicesAttended := by
  unfold processRetire
  cases hexit : exiting k a with
  | none => exact h
  | some i =>
    have hlive := exiting_live h.vacant hexit
    let s := (nativeMarkExit k.supervisor (k.procs i).name.str (k.procs i).pid code now).1
    have hmarked : Attended k.procs s := h.calm (nativeMarkExit_touches _ _ _ _ _).calm
    have hno : ∀ name, ¬RunningAs s name (k.procs i).pid := by
      intro name hr
      have hpid := (hmarked.alive name _ hr).1
      rw [hmarked.name_of_pid hlive hr] at hr
      exact nativeMarkExit_stops k.supervisor h.table _ hpid code now hr
    have hburied : Attended (k.bury i code).procs s := by
      rw [bury_procs]
      exact hmarked.replace rfl rfl rfl (iff_of_true (show ProcState.zombie ≠ .empty by decide) hlive)
        fun _ => .inr hno
    exact hburied.reparent (k.procs i).pid

theorem State.ServicesAttended.exit {code : Int} {now : UInt64}
    (he : processExit k code now = some k') : k'.ServicesAttended := by
  rcases processExit_spec he with ⟨-, rfl⟩ | ⟨a, core, -, -, rfl⟩
  · exact h
  · exact h.retire a code now

theorem State.ServicesAttended.wait (pid : UInt32) : (processWait k pid).1.ServicesAttended := by
  obtain ⟨core, runtime, userland, heq | ⟨i, -, hzombie, heq⟩⟩ := processWait_effect k pid
  · rw [heq]
    exact h
  · rw [heq]
    exact .clear h fun halive => halive.2 hzombie

theorem State.ServicesAttended.aside (ha : Aside k k') : k'.ServicesAttended := by
  rw [State.ServicesAttended, ha.procs]
  exact .calm h ha.supervisor

section
variable (hfree : PidFree k)
include hfree

theorem State.ServicesAttended.not_running (name : CArray 32) :
    ¬RunningAs k.supervisor name k.nextPid := by
  intro hr
  obtain ⟨-, i, hpid, -, halive⟩ := h.alive name _ hr
  exact hfree i halive.1 hpid

theorem State.ServicesAttended.spawn {name : CStr} {m : Userland.Image} {slot ppid : UInt32}
    {made : Option (Fin 256)} (hs : processSpawnUserImage k name m slot ppid = (k', made)) :
    k'.ServicesAttended ∧ k'.supervisor = k.supervisor ∧
      ∀ i, made = some i → (k'.procs i).pid = k.nextPid := by
  rcases processSpawn_cases k name m slot ppid with heq | ⟨i, hslot, heq⟩
  · obtain ⟨rfl, rfl⟩ := Prod.mk.inj (hs.symm.trans heq)
    exact ⟨h, rfl, nofun⟩
  have hdead := procFindSlot_free hslot
  obtain ⟨core, hcases⟩ := attachTask_cases k.countBirth i (userRecord k name m slot ppid) .userEntry 25
  rw [← heq, hs] at hcases
  rcases hcases with hnone | ⟨t, hsome⟩
  · cases hnone
    exact ⟨.clear h fun halive => hdead halive.1, rfl, nofun⟩
  cases hsome
  refine ⟨?_, rfl, ?_⟩
  · exact Attended.enter h hdead (show ProcState.running ≠ .empty by decide) hfree
  intro j hj
  cases hj
  rw [setProc_self]
  rfl

theorem State.ServicesAttended.sysSpawn (he : SpawnEffect k k') : k'.ServicesAttended := by
  cases he with
  | refused ha => exact h.aside ha
  | spawned h1 hs h2 => exact ((h.aside h1).spawn (hfree.aside h1) hs).1.aside h2
  | killed h1 hs h3 =>
    -- the child is killed under a pid that was free, hence of no running service
    obtain ⟨hattended, hsup, hpid⟩ := (h.aside h1).spawn (hfree.aside h1) hs
    refine (hattended.aside h3).kill fun _ name hr => ?_
    rw [hpid _ rfl] at hr
    refine (h.aside h1).not_running (hfree.aside h1) name ?_
    rw [← hsup]
    exact h3.supervisor.running name _ hr

theorem State.ServicesAttended.bind (name : CStr) (m : Userland.Image) (slot ppid : UInt32) :
    (processBindCurrentUserImage k name m slot ppid).1.ServicesAttended := by
  rcases processBind_cases k name m slot ppid with heq | ⟨a, i, -, -, hslot, heq⟩
  · rw [heq]
    exact h
  · have hdead := procFindSlot_free hslot
    rw [heq]
    exact Attended.enter h hdead (show ProcState.running ≠ .empty by decide) hfree

end

theorem State.ServicesAttended.serviceReady {name : Option (CArray 32)}
    (hok : ServicesSpared k (.serviceReady name)) :
    (sysServiceReady k name).1.ServicesAttended := by
  rcases sysServiceReady_cases k name with heq | ⟨i, supervisor, rfl, hi, hpid, hmarked, heq⟩
  · rwa [heq]
  rw [heq]
  rcases hmarked with rfl | rfl
  · exact h
  -- the caller is alive and has the name and the pid it reports
  have halive : (k.procs i).Alive := ⟨(processCurrent_spec hi).choose_spec.2.1, hok i hi⟩
  have htouches := nativeMarkRunning_touches k.supervisor (k.procs i).name (k.procs i).pid
  refine ⟨htouches.wellFormed (fun _ => id) h.table, ?_, h.pids, h.vacant⟩
  intro n p hr
  rcases runningAs_nativeMarkRunning _ hr with hold | ⟨rfl, rfl⟩
  · exact h.alive n p hold
  · exact ⟨hpid, i, rfl, rfl, halive⟩

theorem State.ServicesAttended.shutdown {mode reason : UInt64}
    (hok : ServicesSpared k (.shutdown mode reason)) :
    (sysShutdown k mode reason).1.ServicesAttended := by
  by_cases hmay : mayShutdown k
  · have hcalm := beginShutdown_calm k.supervisor
    -- only the caller's pid can be that of a running service
    let I (k1 : State) : Prop := k1.ServicesAttended ∧ k1.supervisor = beginShutdown k.supervisor
    refine (sysShutdown_induction (I := I) hmay mode reason (fun _ => ⟨.calm h hcalm, rfl⟩) ?_
      fun _ h1 => h1).1
    rintro hs k1 pid ⟨h1, hsup⟩ hpid
    refine ⟨h1.kill fun _ name hr => ?_, (processKill_supervisor k1 pid 15).trans hsup⟩
    rw [hsup] at hr
    obtain ⟨v, hv, hrun, -, rfl⟩ := hcalm.running name pid hr
    exact hpid (hok hmay (by rw [hs]; rfl) v hv hrun)
  · rw [sysShutdown_denied hmay]
    exact h

theorem State.ServicesAttended.dispatch {c : Call} (hok : ServicesSpared k c)
    (hstep : dispatch k c = some k') : k'.ServicesAttended := by
  unfold Kernel.dispatch at hstep
  split at hstep
  · cases hstep
  by_cases hlocal : c.isLocal = true
  · exact h.aside (aside_local hlocal hstep)
  cases c <;> simp only [perform, step, Call.isLocal, not_true_eq_false] at hstep hlocal <;>
    try obtain rfl := Option.some.inj hstep
  case spawn path file now later => exact h.sysSpawn hok (sysSpawn_effect k path file now later)
  case serviceReady name => exact h.serviceReady hok
  case kill pid signal =>
    rcases sysKill_cases k pid signal with heq | ⟨hmay, heq⟩ <;> rw [heq]
    · exact h
    refine h.kill fun hsig name hr => ?_
    obtain ⟨v, hv, hrun, -, hpid⟩ := hr
    refine hok ?_ hmay v hv hrun hpid
    rcases hsig with hs | hs
    · exact .inl (UInt64.toNat_inj.mp (by exact_mod_cast hs))
    · exact .inr (UInt64.toNat_inj.mp (by exact_mod_cast hs))
  case exit code now => exact h.exit hstep
  case waitpid pid options exitPtr =>
    rcases sysWaitpid_cases k pid options exitPtr with heq | ⟨child, heq⟩ <;> rw [heq]
    · exact h
    · exact h.wait child
  case shutdown mode reason => exact h.shutdown hok
  case yield =>
    obtain ⟨core, -, -, rfl⟩ := yield_spec hstep
    exact h
  case schedulerRun =>
    obtain ⟨core, -, hres⟩ := Option.bind_eq_some_iff.mp hstep
    rw [resumed_eq hres]
    exact h
  case kernelTask | setIdle => exact h
  case bindCurrent name m slot ppid => exact h.bind hok name m slot ppid

end

instance (k : State) : (c : Call) → Decidable (ServicesSpared k c)
  | .spawn _ _ _ _ | .bindCurrent _ _ _ _ => inferInstanceAs (Decidable (PidFree k))
  | .kill pid signal => inferInstanceAs (Decidable ((signal = 9 ∨ signal = 15) →
      (∃ i, processGet k pid.toUInt32 = some i ∧ mayKill k i) → _))
  | .shutdown _ _ => inferInstanceAs (Decidable (mayShutdown k → _ → _))
  | .serviceReady _ => inferInstanceAs (Decidable (∀ i ∈ processCurrent k, _))
  | .consoleReady | .exit _ _ | .waitpid _ _ _ | .yield | .openFile _ | .close _ | .fileIo _ _ _
  | .sockets _ | .other | .schedulerRun | .kernelTask _ | .setIdle _ => .isTrue trivial

/-- From the booted kernel, in every run that ends no process behind the supervisor's
back, each service recorded as running has a process that is in use and not dead. -/
theorem running_services_alive (k k' : State) (calls : List Call) (hboot : Booted k)
    (hrun : Run dispatch ServicesSpared k calls k') :
    ∀ v ∈ k'.supervisor.services, v.state = .running →
      ∃ i, (k'.procs i).pid = v.pid ∧ (k'.procs i).state ≠ .empty ∧ (k'.procs i).state ≠ .zombie := by
  have h : k'.ServicesAttended :=
    hrun.invariant (I := State.ServicesAttended) (fun _ _ _ hs hok hstep => hs.dispatch hok hstep)
      hboot.servicesAttended
  intro v hv hstate
  obtain ⟨-, i, hpid, -, halive⟩ := h.alive v.name v.pid ⟨v, hv, hstate, rfl, rfl⟩
  exact ⟨i, hpid, halive.1, halive.2⟩

/-- The daemon reports ready, runs on after a stop signal, exits and is reaped. -/
theorem daemon_runs_until_exit : ∃ k', Run dispatch ServicesSpared withDaemon
        (launchDaemon ++ [.yield, .serviceReady (some (strcopy aegisd)), .yield,
          .kill 2 19, .yield, .exit 3 100, .waitpid 2 0 none]) k' ∧
      ∀ v ∈ k'.supervisor.services, v.state = .running →
        ∃ i, (k'.procs i).pid = v.pid ∧ (k'.procs i).state ≠ .empty ∧
          (k'.procs i).state ≠ .zombie := by
  refine Run.exists_of_execute_imp (P := fun _ => True) (fun k' hrun _ => ?_) (by decide +kernel)
  exact running_services_alive withDaemon k' _ withDaemon_booted hrun

/-- Killed by pid 1, the daemon is a zombie that the supervisor still takes for running. -/
theorem killed_service_still_running : ∃ k', Run dispatch anyEvent withDaemon
        (launchDaemon ++ [.yield, .serviceReady (some (strcopy aegisd)), .yield, .kill 2 9]) k' ∧
      (k'.supervisor.services.map fun v => (v.state, v.pid)) = [(.running, 2)] ∧
      ∀ i, (k'.procs i).pid = 2 → (k'.procs i).state = .zombie := by
  exact Run.exists_of_execute (by decide +kernel)

end AegisOS.Kernel
