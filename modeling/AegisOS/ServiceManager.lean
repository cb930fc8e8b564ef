import Mathlib.Data.Finset.Erase
import Mathlib.Data.Finset.Insert
import AegisOS.Lib.Strings

/-! The service manager (`userland/service-manager`): the loop of `supervise` as a machine that takes
one task of the loop after the other, and what a control request does. The answers of the operating
system (connections, exits, spawned processes) come from outside. What is asked for and what is
spawned is written to a log, the newest first. -/
namespace AegisOS.ServiceManager
open Strings Function

inductive RestartPolicy where
  | always | onFailure | once | never
  deriving DecidableEq

/-- The fields of a definition that the loop and its answers read. -/
structure ServiceDef where
  name : Text
  binary : Text
  restart : RestartPolicy
  critical : Bool
  requires : List Text
  deriving DecidableEq

inductive Action where
  | start | stop | restart
  deriving DecidableEq

/-- A request that reached a service, and a call of `Command::spawn` with the names that were in
`children` and `completed` at that moment. -/
inductive Act where
  | request (action : Action) (name : Text)
  | spawn (service : ServiceDef) (running : List Text) (completed : Finset Text)
  deriving DecidableEq

/-- The collections that `supervise` owns; a child is its process id. -/
structure Manager where
  children : List (Text × Nat) := []
  completed : Finset Text := ∅
  manuallyStopped : Finset Text := ∅
  restartCounts : Text → Nat := fun _ => 0
  lastExitCodes : Text → Option (Option Int) := fun _ => none
  log : List Act := []

/-- What the operating system answers while a task is worked on. -/
structure Env where
  shutdown : Bool := false
  /-- `none` if no connection waits; the inner `none` is one that breaks while it is read. -/
  connection : Option (Option (Text × Text)) := none
  /-- `try_wait`: the exit code of a process that has exited. -/
  exited : Option (Option Int) := none
  /-- The exit code that is left by a process that was killed. -/
  killed : Option Int := none
  /-- The new process, if it could be started. -/
  spawned : Option Nat := none

namespace Manager
variable (m : Manager)

def running : List Text := m.children.map Prod.fst

def removeChild (name : Text) : Manager :=
  { m with children := m.children.filter fun c => c.1 ≠ name }

def insertChild (name : Text) (pid : Nat) : Manager :=
  { m with children := (name, pid) :: m.children.filter fun c => c.1 ≠ name }

def setExitCode (name : Text) (code : Option Int) : Manager :=
  { m with lastExitCodes := update m.lastExitCodes name (some code) }

def complete (name : Text) : Manager := { m with completed := insert name m.completed }

/-- `*restart_counts.entry(name).or_insert(0) += 1` -/
def countRestart (name : Text) : Manager :=
  { m with restartCounts := update m.restartCounts name (m.restartCounts name + 1) }

end Manager

def depsReady (d : ServiceDef) (m : Manager) : Bool :=
  d.requires.all fun name => name ∈ m.running ∨ name ∈ m.completed

/-- `RestartPolicy::Once | RestartPolicy::Never` -/
def RestartPolicy.isOnce (p : RestartPolicy) : Bool := p = .once ∨ p = .never

def trySpawn (d : ServiceDef) (defs : List ServiceDef) (env : Env) (m : Manager) : Manager :=
  if d.name ∈ m.manuallyStopped ∨ d.name ∈ m.running then m
  else if d.requires.any (fun dep => !defs.any fun d' => d'.name = dep) then m
  else if depsReady d m = false then m
  else
    let m := { m with log := .spawn d m.running m.completed :: m.log }
    match env.spawned with
    | some pid =>
      { m with lastExitCodes := update m.lastExitCodes d.name none }.insertChild d.name pid
    | none =>
      let m := m.setExitCode d.name none
      if d.restart.isOnce then m.complete d.name else m

/-! Control requests. -/

def stopService (name : Text) (env : Env) (m : Manager) : Manager :=
  let stopped := { m with manuallyStopped := insert name m.manuallyStopped,
                          completed := m.completed.erase name }
  if name ∈ m.running then (stopped.removeChild name).setExitCode name env.killed else stopped

/-- `manually_stopped.remove(name); completed.remove(name)` -/
def Manager.release (m : Manager) (name : Text) : Manager :=
  { m with manuallyStopped := m.manuallyStopped.erase name, completed := m.completed.erase name }

inductive ServiceState where
  | running | stopped | completed | failed | pending
  deriving DecidableEq

/-- The fields of `service_json`. -/
structure ServiceView where
  service : ServiceDef
  state : ServiceState
  pid : Option Nat
  restartCount : Nat
  lastExitCode : Option Int

def serviceState (d : ServiceDef) (m : Manager) : ServiceState :=
  if d.name ∈ m.running then .running
  else if d.name ∈ m.manuallyStopped then .stopped
  else if d.name ∈ m.completed then
    if m.lastExitCodes d.name = some (some 0) then .completed else .failed
  else if (m.lastExitCodes d.name).any fun code => code.any (· ≠ 0) then .failed
  else .pending

def serviceView (d : ServiceDef) (m : Manager) : ServiceView where
  service := d
  state := serviceState d m
  pid := (m.children.find? fun c => c.1 = d.name).map Prod.snd
  restartCount := m.restartCounts d.name
  lastExitCode := (m.lastExitCodes d.name).join

inductive Body where
  | services (views : List ServiceView)
  | service (view : ServiceView)
  | error (message : String)

def servicesPath : Text := "/services/".toList

def Action.ofText (s : Text) : Option Action :=
  if s = "start".toList then some .start
  else if s = "stop".toList then some .stop
  else if s = "restart".toList then some .restart
  else none

def perform (action : Action) (d : ServiceDef) (defs : List ServiceDef) (env : Env) (m : Manager) :
    Manager :=
  let m := { m with log := .request action d.name :: m.log }
  match action with
  | .start => trySpawn d defs env (m.release d.name)
  | .stop => stopService d.name env m
  | .restart =>
    trySpawn d defs env (((stopService d.name env m).release d.name).countRestart d.name)

def routeControlRequest (method path : Text) (defs : List ServiceDef) (env : Env) (m : Manager) :
    Manager × Nat × Body :=
  if method = "GET".toList ∧ path = "/services".toList then
    (m, 200, .services (defs.map fun d => serviceView d m))
  else if method = "POST".toList ∧ servicesPath.isPrefixOf path then
    match rsplitOnce '/' (trimStartMatches servicesPath path.length path) with
    | none => (m, 400, .error "invalid service control path")
    | some (name, action) =>
      match defs.find? fun d => d.name = name with
      | none => (m, 404, .error "unknown service")
      | some d =>
        match Action.ofText action with
        | none => (m, 404, .error "unknown service action")
        | some action =>
          let m := perform action d defs env m
          (m, 200, .service (serviceView d m))
  else (m, 404, .error "not found")

/-! The loop. -/

def reap (d : ServiceDef) (defs : List ServiceDef) (env : Env) (m : Manager) : Manager :=
  if d.name ∈ m.running then
    match env.exited with
    | none => m
    | some code =>
      let success : Bool := code = some 0
      let m := (m.removeChild d.name).setExitCode d.name code
      let m := if d.restart.isOnce ∨ d.restart = .onFailure ∧ success then m.complete d.name else m
      if d.name ∉ m.manuallyStopped ∧
          (d.restart = .always ∨ d.restart = .onFailure ∧ success = false) then
        trySpawn d defs env (m.countRestart d.name)
      else m
  else m

/-- The body of the loop over the services that may be ready. -/
def ready (d : ServiceDef) (defs : List ServiceDef) (env : Env) (m : Manager) : Manager :=
  if d.name ∉ m.running ∧ d.name ∉ m.completed ∧ d.name ∉ m.manuallyStopped then
    trySpawn d defs env m
  else m

def shutdownChildren (defs : List ServiceDef) (m : Manager) : Manager :=
  defs.reverse.foldl (fun m d => m.removeChild d.name) m

/-- The services that a loop over `ds` stops, in this order. -/
def stops : List ServiceDef → Manager → List Text
  | [], _ => []
  | d :: ds, m =>
    let rest := stops ds (m.removeChild d.name)
    if d.name ∈ m.running then d.name :: rest else rest

/-- The order in which `shutdown_children` stops them. -/
def shutdownOrder (defs : List ServiceDef) (m : Manager) : List Text := stops defs.reverse m

/-- What is left of a round of the loop: `pass` is the head of the loop in `spawn_ready_services`
with the rounds it may still make, `endPass` its test of `children.len()`. -/
inductive Task where
  | accept
  | reap (d : ServiceDef)
  | pass (rounds : Nat)
  | ready (d : ServiceDef)
  | endPass (before rounds : Nat)

structure Supervisor where
  manager : Manager
  tasks : List Task
  finished : Bool := false

def step (defs : List ServiceDef) (s : Supervisor) (env : Env) : Supervisor :=
  match s.tasks with
  | [] =>
    if s.finished then s
    else if env.shutdown then
      { s with manager := shutdownChildren defs s.manager, finished := true }
    else { s with tasks := .accept :: defs.map .reap ++ [.pass (max defs.length 1)] }
  | .accept :: rest =>
    match env.connection with
    | none => { s with tasks := rest }
    | some none => s
    | some (some (method, path)) =>
      { s with manager := (routeControlRequest method path defs env s.manager).1 }
  | .reap d :: rest => { s with manager := reap d defs env s.manager, tasks := rest }
  | .pass 0 :: rest => { s with tasks := rest }
  | .pass (rounds + 1) :: rest =>
    { s with tasks := defs.map .ready ++ .endPass s.manager.children.length rounds :: rest }
  | .ready d :: rest => { s with manager := ready d defs env s.manager, tasks := rest }
  | .endPass before rounds :: rest =>
    if s.manager.children.length = before then { s with tasks := rest }
    else { s with tasks := .pass rounds :: rest }

/-- `supervise` after any number of steps. -/
def supervise (defs : List ServiceDef) (envs : List Env) : Supervisor :=
  envs.foldl (step defs) ⟨{}, [.pass (max defs.length 1)], false⟩

/-! What holds at every step of `supervise`: no service is in two collections, a service is spawned
only when the services it requires are there, and a stopped one only after a request. -/
open List Nat

structure Manager.Disjoint (m : Manager) : Prop where
  completed : ∀ n ∈ m.running, n ∉ m.completed
  stopped : ∀ n ∈ m.running, n ∉ m.manuallyStopped
  settled : ∀ n ∈ m.completed, n ∉ m.manuallyStopped

def Held (n : Text) : List Act → Prop
  | [] => False
  | .request action name :: log => if name = n then action = .stop else Held n log
  | .spawn _ _ _ :: log => Held n log

/-- Every spawned service had what it requires, and was not held. -/
def Orderly : List Act → Prop
  | [] => True
  | .request _ _ :: log => Orderly log
  | .spawn d running completed :: log =>
    ((∀ r ∈ d.requires, r ∈ running ∨ r ∈ completed) ∧ ¬Held d.name log) ∧ Orderly log

structure Inv (m : Manager) : Prop where
  disjoint : m.Disjoint
  held : ∀ n, Held n m.log → n ∈ m.manuallyStopped
  orderly : Orderly m.log

variable {n : Text} {pid : Nat}

section
variable {m m' : Manager} {d : ServiceDef} {defs : List ServiceDef} {env : Env} {name : Text}

theorem Inv.of_fewer (h : Inv m) (hrunning : ∀ n ∈ m'.running, n ∈ m.running)
    (hcompleted : m'.completed = m.completed) (hstopped : m'.manuallyStopped = m.manuallyStopped)
    (hlog : m'.log = m.log) : Inv m' where
  disjoint := by
    refine ⟨fun n hn => ?_, fun n hn => ?_, ?_⟩
    · rw [hcompleted]
      exact h.disjoint.completed n (hrunning n hn)
    · rw [hstopped]
      exact h.disjoint.stopped n (hrunning n hn)
    · rw [hcompleted, hstopped]
      exact h.disjoint.settled
  held := by
    rw [hlog, hstopped]
    exact h.held
  orderly := by
    rw [hlog]
    exact h.orderly

theorem mem_running_removeChild : n ∈ (m.removeChild name).running ↔ n ∈ m.running ∧ n ≠ name := by
  simp only [Manager.running, Manager.removeChild, mem_map, mem_filter, decide_eq_true_eq]
  constructor
  · rintro ⟨c, ⟨hc, hne⟩, rfl⟩
    exact ⟨⟨c, hc, rfl⟩, hne⟩
  · rintro ⟨⟨c, hc, rfl⟩, hne⟩
    exact ⟨c, ⟨hc, hne⟩, rfl⟩

theorem mem_running_insertChild :
    n ∈ (m.insertChild name pid).running ↔ n = name ∨ n ∈ m.running ∧ n ≠ name := by
  have h : (m.insertChild name pid).running = name :: (m.removeChild name).running := rfl
  rw [h, mem_cons, mem_running_removeChild]

section
variable (h : Inv m)
include h

theorem Inv.removeChild : Inv (m.removeChild name) :=
  h.of_fewer (fun _ hn => (mem_running_removeChild.mp hn).1) rfl rfl rfl

theorem Inv.setExitCode (code : Option Int) : Inv (m.setExitCode name code) :=
  h.of_fewer (fun _ hn => hn) rfl rfl rfl

theorem Inv.countRestart : Inv (m.countRestart name) := h.of_fewer (fun _ hn => hn) rfl rfl rfl

theorem Inv.complete (hrunning : name ∉ m.running) (hstopped : name ∉ m.manuallyStopped) :
    Inv (m.complete name) where
  disjoint := by
    refine ⟨fun n hn hc => ?_, h.disjoint.stopped, fun n hn => ?_⟩
    · rcases Finset.mem_insert.mp hc with rfl | hc
      · exact hrunning hn
      · exact h.disjoint.completed n hn hc
    · rcases Finset.mem_insert.mp hn with rfl | hn
      · exact hstopped
      · exact h.disjoint.settled n hn
  held := h.held
  orderly := h.orderly

theorem Inv.insertChild (hcompleted : name ∉ m.completed) (hstopped : name ∉ m.manuallyStopped) :
    Inv (m.insertChild name pid) where
  disjoint := by
    refine ⟨fun n hn => ?_, fun n hn => ?_, h.disjoint.settled⟩
    · rcases mem_running_insertChild.mp hn with rfl | ⟨hn, -⟩
      · exact hcompleted
      · exact h.disjoint.completed n hn
    · rcases mem_running_insertChild.mp hn with rfl | ⟨hn, -⟩
      · exact hstopped
      · exact h.disjoint.stopped n hn
  held := h.held
  orderly := h.orderly

theorem Inv.trySpawn (hcompleted : d.name ∉ m.completed) : Inv (trySpawn d defs env m) := by
  unfold ServiceManager.trySpawn
  by_cases hskip : d.name ∈ m.manuallyStopped ∨ d.name ∈ m.running
  · rwa [if_pos hskip]
  rw [if_neg hskip]
  obtain ⟨hstopped, hrunning⟩ := not_or.mp hskip
  split
  · exact h
  by_cases hready : depsReady d m = false
  · rwa [if_pos hready]
  rw [if_neg hready]
  have hspawn : Inv { m with log := .spawn d m.running m.completed :: m.log } := by
    refine ⟨⟨h.disjoint.completed, h.disjoint.stopped, h.disjoint.settled⟩, h.held, ?_⟩
    refine ⟨⟨fun r hr => ?_, fun hheld => hstopped (h.held _ hheld)⟩, h.orderly⟩
    have hall := all_eq_true.mp (Bool.of_not_eq_false hready) r hr
    exact of_decide_eq_true hall
  cases env.spawned with
  | some pid =>
    refine .insertChild ?_ hcompleted hstopped
    exact hspawn.of_fewer (fun _ hn => hn) rfl rfl rfl
  | none =>
    dsimp only
    split
    · exact (hspawn.setExitCode none).complete hrunning hstopped
    · exact hspawn.setExitCode none

end

theorem stopService_inv (hdisjoint : m.Disjoint)
    (hheld : ∀ n, Held n m.log → n = name ∨ n ∈ m.manuallyStopped) (horderly : Orderly m.log) :
    Inv (stopService name env m) := by
  have hstop : ∀ m' : Manager, (∀ n ∈ m'.running, n ∈ m.running ∧ n ≠ name) →
      m'.completed = m.completed.erase name → m'.manuallyStopped = insert name m.manuallyStopped →
      m'.log = m.log → Inv m' := by
    intro m' hrunning hcompleted hstopped hlog
    refine ⟨⟨fun n hn => ?_, fun n hn => ?_, fun n hn => ?_⟩, fun n hn => ?_, hlog ▸ horderly⟩
    · rw [hcompleted]
      exact fun hc => hdisjoint.completed n (hrunning n hn).1 (Finset.mem_of_mem_erase hc)
    · rw [hstopped, Finset.mem_insert, not_or]
      exact ⟨(hrunning n hn).2, hdisjoint.stopped n (hrunning n hn).1⟩
    · rw [hcompleted, Finset.mem_erase] at hn
      rw [hstopped, Finset.mem_insert, not_or]
      exact ⟨hn.1, hdisjoint.settled n hn.2⟩
    · rw [hstopped, Finset.mem_insert]
      exact hheld n (hlog ▸ hn)
  unfold stopService
  split
  · exact hstop _ (fun n hn => mem_running_removeChild.mp hn) rfl rfl rfl
  next hrunning => exact hstop _ (fun n hn => ⟨hn, fun heq => hrunning (heq ▸ hn)⟩) rfl rfl rfl

theorem release_inv (hdisjoint : m.Disjoint)
    (hheld : ∀ n, Held n m.log → n ≠ name ∧ n ∈ m.manuallyStopped) (horderly : Orderly m.log) :
    Inv (m.release name) where
  disjoint := by
    refine ⟨fun n hn hc => ?_, fun n hn hs => ?_, fun n hn hs => ?_⟩
    · exact hdisjoint.completed n hn (Finset.mem_of_mem_erase hc)
    · exact hdisjoint.stopped n hn (Finset.mem_of_mem_erase hs)
    · exact hdisjoint.settled n (Finset.mem_of_mem_erase hn) (Finset.mem_of_mem_erase hs)
  held n hn := Finset.mem_erase.mpr (hheld n hn)
  orderly := horderly

theorem stopService_log : (stopService name env m).log = m.log := by
  unfold stopService
  split <;> rfl

theorem held_request {action : Action} {log : List Act}
    (h : Held n (.request action name :: log)) : n = name ∧ action = .stop ∨ n ≠ name ∧ Held n log := by
  rw [Held] at h
  split at h
  next heq => exact .inl ⟨heq.symm, h⟩
  next hne => exact .inr ⟨fun heq => hne heq.symm, h⟩

section
variable (h : Inv m)
include h

theorem Inv.perform (action : Action) : Inv (perform action d defs env m) := by
  have hdisjoint : ({ m with log := .request action d.name :: m.log } : Manager).Disjoint :=
    ⟨h.disjoint.completed, h.disjoint.stopped, h.disjoint.settled⟩
  have hheld : ∀ n, Held n (.request action d.name :: m.log) →
      n = d.name ∧ action = .stop ∨ n ≠ d.name ∧ n ∈ m.manuallyStopped :=
    fun n hn => (held_request hn).imp_right fun hn => ⟨hn.1, h.held n hn.2⟩
  cases action with
  | start =>
    refine .trySpawn (release_inv hdisjoint (fun n hn => ?_) h.orderly)
      (Finset.notMem_erase _ _)
    exact (hheld n hn).resolve_left fun hstop => absurd hstop.2 (by decide)
  | stop =>
    refine stopService_inv hdisjoint (fun n hn => ?_) h.orderly
    exact (hheld n hn).imp And.left And.right
  | restart =>
    have hother : ∀ n, Held n (.request .restart d.name :: m.log) →
        n ≠ d.name ∧ n ∈ m.manuallyStopped :=
      fun n hn => (hheld n hn).resolve_left fun hstop => absurd hstop.2 (by decide)
    have hstop : Inv (stopService d.name env { m with log := .request .restart d.name :: m.log }) :=
      stopService_inv hdisjoint (fun n hn => .inr (hother n hn).2) h.orderly
    refine .trySpawn (.countRestart (release_inv hstop.disjoint (fun n hn => ?_)
      hstop.orderly)) (Finset.notMem_erase _ _)
    refine ⟨(hother n ?_).1, hstop.held n hn⟩
    rwa [stopService_log] at hn

theorem Inv.route (method path : Text) : Inv (routeControlRequest method path defs env m).1 := by
  unfold routeControlRequest
  split
  · exact h
  split
  · split
    · exact h
    split
    · exact h
    split
    · exact h
    · exact h.perform _
  · exact h

theorem Inv.reap : Inv (reap d defs env m) := by
  unfold ServiceManager.reap
  split
  next hrunning =>
    cases env.exited with
    | none => exact h
    | some code =>
      have hcompleted := h.disjoint.completed _ hrunning
      have hstopped := h.disjoint.stopped _ hrunning
      have hexit : Inv ((m.removeChild d.name).setExitCode d.name code) :=
        h.removeChild.setExitCode code
      have hgone : d.name ∉ ((m.removeChild d.name).setExitCode d.name code).running :=
        fun hn => (mem_running_removeChild.mp hn).2 rfl
      dsimp only
      by_cases hdone : d.restart.isOnce = true ∨ d.restart = .onFailure ∧ decide (code = some 0) = true
      · have hpolicy : ¬(d.restart = .always ∨
            d.restart = .onFailure ∧ decide (code = some 0) = false) := by
          rcases hdone with honce | ⟨hpolicy, hsuccess⟩
          · rcases of_decide_eq_true honce with hpolicy | hpolicy <;> simp [hpolicy]
          · simp [hpolicy, hsuccess]
        rw [if_pos hdone, if_neg fun hrestart => hpolicy hrestart.2]
        exact hexit.complete hgone hstopped
      · rw [if_neg hdone]
        split
        · exact hexit.countRestart.trySpawn hcompleted
        · exact hexit
  · exact h

theorem Inv.ready : Inv (ready d defs env m) := by
  unfold ServiceManager.ready
  split
  next hidle => exact h.trySpawn hidle.2.1
  · exact h

theorem Inv.shutdownChildren : Inv (shutdownChildren defs m) := by
  unfold ServiceManager.shutdownChildren
  generalize defs.reverse = ds
  induction ds generalizing m with
  | nil => exact h
  | cons d ds ih => exact ih h.removeChild

end

theorem Inv.step {s : Supervisor} (h : Inv s.manager) : Inv (step defs s env).manager := by
  unfold ServiceManager.step
  split
  · split
    · exact h
    split
    · exact h.shutdownChildren
    · exact h
  · split
    · exact h
    · exact h
    · exact h.route _ _
  · exact h.reap
  · exact h
  · exact h
  · exact h.ready
  · split <;> exact h

end

theorem supervise_inv (defs : List ServiceDef) (envs : List Env) :
    Inv (supervise defs envs).manager := by
  have hinit : Inv {} := by
    refine ⟨⟨?_, ?_, ?_⟩, ?_, trivial⟩
    · exact fun n hn => (not_mem_nil hn).elim
    · exact fun n hn => (not_mem_nil hn).elim
    · exact fun n hn => (Finset.notMem_empty n hn).elim
    · exact fun n hn => hn.elim
  have hrun : ∀ s : Supervisor, Inv s.manager → Inv (envs.foldl (step defs) s).manager := by
    induction envs with
    | nil => exact fun s h => h
    | cons env envs ih => exact fun s h => ih _ h.step
  exact hrun _ hinit

/-! The log as a whole. -/

theorem Orderly.of_append {later earlier : List Act} (h : Orderly (later ++ earlier)) :
    Orderly earlier := by
  induction later with
  | nil => exact h
  | cons act later ih =>
    cases act with
    | request action name => exact ih h
    | spawn d running completed => exact ih h.2

theorem held_after_stop {between earlier : List Act}
    (h : ∀ action, .request action n ∈ between → action = .stop) :
    Held n (between ++ .request .stop n :: earlier) := by
  induction between with
  | nil => simp [Held]
  | cons act between ih =>
    have hrest := ih fun action haction => h action (mem_cons_of_mem act haction)
    cases act with
    | request action name =>
      rw [cons_append, Held]
      split
      next heq =>
        subst heq
        exact h action mem_cons_self
      · exact hrest
    | spawn d running completed => exact hrest

/-- At every step of every run of `supervise`: the collections are disjoint; whatever was spawned had
all it requires running or completed at that moment; and between a stop request for a service and a
later spawn of it there is a start or restart request for it. -/
theorem supervise_orderly (defs : List ServiceDef) (envs : List Env) :
    (supervise defs envs).manager.Disjoint ∧
    ∀ later d running completed earlier,
      (supervise defs envs).manager.log = later ++ .spawn d running completed :: earlier →
      (∀ r ∈ d.requires, r ∈ running ∨ r ∈ completed) ∧
      ∀ between before, earlier = between ++ .request .stop d.name :: before →
        .request .start d.name ∈ between ∨ .request .restart d.name ∈ between := by
  have hinv := supervise_inv defs envs
  refine ⟨hinv.disjoint, fun later d running completed earlier hlog => ?_⟩
  have horderly := hinv.orderly
  rw [hlog] at horderly
  obtain ⟨⟨hrequires, hheld⟩, -⟩ := horderly.of_append
  refine ⟨hrequires, ?_⟩
  rintro between before rfl
  by_contra hnone
  obtain ⟨hstart, hrestart⟩ := not_or.mp hnone
  refine hheld (held_after_stop fun action haction => ?_)
  cases action with
  | start => exact (hstart haction).elim
  | stop => rfl
  | restart => exact (hrestart haction).elim

def dbService : ServiceDef := ⟨['d', 'b'], ['d'], .always, true, []⟩

def webService : ServiceDef := ⟨['w', 'e', 'b'], ['w'], .always, false, [['d', 'b']]⟩

/-- Both services come up; the second one is stopped and started again. -/
def stopAndStart : List Env :=
  [{}, { spawned := some 1 }, { spawned := some 2 }, {}, {}, {}, {}, {}, {},
    { connection := some (some ("POST".toList, "/services/web/stop".toList)) },
    { connection := some (some ("POST".toList, "/services/web/start".toList)), spawned := some 3 }]

theorem stop_and_start_orderly :
    (supervise [dbService, webService] stopAndStart).manager.log =
      [.spawn webService [['d', 'b']] ∅, .request .start webService.name,
        .request .stop webService.name, .spawn webService [['d', 'b']] ∅, .spawn dbService [] ∅] ∧
    (∀ r ∈ webService.requires, r ∈ [['d', 'b']] ∨ r ∈ (∅ : Finset Text)) ∧
    (Act.request .start webService.name ∈ [Act.request .start webService.name] ∨
      Act.request .restart webService.name ∈ [Act.request .start webService.name]) := by
  have hlog : (supervise [dbService, webService] stopAndStart).manager.log =
      [.spawn webService [['d', 'b']] ∅, .request .start webService.name,
        .request .stop webService.name, .spawn webService [['d', 'b']] ∅, .spawn dbService [] ∅] := by
    decide +kernel
  obtain ⟨hrequires, hstopped⟩ :=
    (supervise_orderly [dbService, webService] stopAndStart).2 [] webService _ _ _ hlog
  exact ⟨hlog, hrequires, hstopped [.request .start webService.name] _ rfl⟩

/-! `shutdown_children` goes through the list of definitions backwards, which is the order of the
requirements only where the list is. -/

def Requires (defs : List ServiceDef) (a b : Text) : Prop := ∃ d ∈ defs, d.name = a ∧ b ∈ d.requires

/-- The last definition of `a` stands behind the last one of `b`. -/
def ListedAfter (defs : List ServiceDef) (a b : Text) : Prop :=
  (defs.reverse.map ServiceDef.name).idxOf a < (defs.reverse.map ServiceDef.name).idxOf b

def StoppedBefore (defs : List ServiceDef) (m : Manager) (a b : Text) : Prop :=
  (shutdownOrder defs m).idxOf a < (shutdownOrder defs m).idxOf b

section
variable {ds : List ServiceDef} {m : Manager} {a b n : Text}

theorem mem_running_stops : n ∈ (ds.foldl (fun m d => m.removeChild d.name) m).running ↔
    n ∈ m.running ∧ n ∉ stops ds m := by
  induction ds generalizing m with
  | nil => simp [stops]
  | cons d ds ih =>
    rw [foldl_cons, ih, mem_running_removeChild, stops]
    split
    · rw [mem_cons, not_or, and_assoc]
    rename_i hd
    refine ⟨fun h => ⟨h.1.1, h.2⟩, fun h => ⟨⟨h.1, ?_⟩, h.2⟩⟩
    rintro rfl
    exact hd h.1

theorem idxOf_stops (ha : a ∈ m.running)
    (h : (ds.map ServiceDef.name).idxOf a < (ds.map ServiceDef.name).idxOf b) :
    (stops ds m).idxOf a < (stops ds m).idxOf b := by
  induction ds generalizing m with
  | nil => exact (lt_irrefl _ h).elim
  | cons d ds ih =>
    rw [map_cons] at h
    rw [stops]
    by_cases hda : d.name = a
    · subst hda
      have hb : d.name ≠ b := by
        rintro rfl
        exact lt_irrefl _ h
      rw [if_pos ha, idxOf_cons_self, idxOf_cons_ne _ hb]
      exact succ_pos _
    have hdb : d.name ≠ b := by
      rintro rfl
      rw [idxOf_cons_self] at h
      exact not_lt_zero _ h
    rw [idxOf_cons_ne _ hda, idxOf_cons_ne _ hdb] at h
    have hrest := ih (mem_running_removeChild.mpr ⟨ha, .symm hda⟩) (lt_of_succ_lt_succ h)
    split
    · rw [idxOf_cons_ne _ hda, idxOf_cons_ne _ hdb]
      exact succ_lt_succ hrest
    · exact hrest

theorem mem_of_mem_stops (h : n ∈ stops ds m) : n ∈ ds.map ServiceDef.name := by
  induction ds generalizing m with
  | nil => exact h
  | cons d ds ih =>
    rw [stops] at h
    split at h
    · rcases mem_cons.mp h with rfl | h
      · exact mem_cons_self
      · exact mem_cons_of_mem _ (ih h)
    · exact mem_cons_of_mem _ (ih h)

theorem idxOf_stops_iff (ha : a ∈ m.running) (hb : b ∈ m.running) :
    (stops ds m).idxOf a < (stops ds m).idxOf b ↔
      (ds.map ServiceDef.name).idxOf a < (ds.map ServiceDef.name).idxOf b := by
  refine ⟨fun h => ?_, idxOf_stops ha⟩
  rcases lt_trichotomy ((ds.map ServiceDef.name).idxOf a) ((ds.map ServiceDef.name).idxOf b) with
    hlt | heq | hgt
  · exact hlt
  · -- two different names at one place are both missing
    by_cases hmem : a ∈ ds.map ServiceDef.name
    · have hab := (idxOf_inj hmem).mp heq
      exact absurd h (hab ▸ lt_irrefl _)
    have hmem' : b ∉ ds.map ServiceDef.name := by
      rw [← idxOf_lt_length_iff, ← heq, idxOf_lt_length_iff]
      exact hmem
    rw [idxOf_of_notMem fun h => hmem (mem_of_mem_stops h),
      idxOf_of_notMem fun h => hmem' (mem_of_mem_stops h)] at h
    exact absurd h (lt_irrefl _)
  · exact absurd h (lt_asymm (idxOf_stops hb hgt))

end

/-- `shutdown_children` stops what it does not leave running, and stops each service before those
it requires exactly if its definition stands behind theirs. -/
theorem shutdownOrder_requires (defs : List ServiceDef) (m : Manager) :
    (∀ n, n ∈ (shutdownChildren defs m).running ↔ n ∈ m.running ∧ n ∉ shutdownOrder defs m) ∧
    ((∀ a ∈ m.running, ∀ b ∈ m.running, Relation.TransGen (Requires defs) a b →
        StoppedBefore defs m a b) ↔
      ∀ a ∈ m.running, ∀ b ∈ m.running, Relation.TransGen (Requires defs) a b →
        ListedAfter defs a b) := by
  refine ⟨fun n => mem_running_stops, ?_⟩
  have hpair : ∀ a ∈ m.running, ∀ b ∈ m.running,
      (StoppedBefore defs m a b ↔ ListedAfter defs a b) := fun a ha b hb => idxOf_stops_iff ha hb
  exact ⟨fun h a ha b hb hab => (hpair a ha b hb).mp (h a ha b hb hab),
    fun h a ha b hb hab => (hpair a ha b hb).mpr (h a ha b hb hab)⟩

/-- Both services come up, the first one of the list in the second pass. -/
def secondFirst : Supervisor :=
  supervise [webService, dbService] [{}, {}, { spawned := some 1 }, {}, {}, { spawned := some 2 }]

theorem shutdownOrder_db_web : Requires [webService, dbService] webService.name dbService.name ∧
    secondFirst.manager.running = [webService.name, dbService.name] ∧
    shutdownOrder [webService, dbService] secondFirst.manager =
      [dbService.name, webService.name] := by
  refine ⟨⟨webService, by decide⟩, ?_, ?_⟩ <;> decide +kernel

end AegisOS.ServiceManager
