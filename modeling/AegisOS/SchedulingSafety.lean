import AegisOS.ProcessRuns
import AegisOS.Syscall

/-! Dead and stopped processes do not run, as long as signals go only where the scheduler
follows them. -/
namespace AegisOS.Kernel
open CString GuardedRun Scheduler Heap Function Userland Option

def Process.Fit (p : Process) : Prop := p.state ≠ .zombie ∧ p.state ≠ .stopped

def FitTasks (c : Core) (procs : Fin 256 → Process) : Prop :=
  ∀ t ∈ c.tasks, t.state ≠ .dead → ∀ i, (procs i).Live → (procs i).task = some t.addr → (procs i).Fit

def CurrentAlive (c : Core) : Prop := ∀ t ∈ c.tasks, c.current = some t.addr → t.state ≠ .dead

structure State.Runnable (k : State) : Prop where
  owned : k.TasksOwned
  fit : FitTasks k.core k.procs
  current : CurrentAlive k.core
  noStack : ∀ i, (k.procs i).ownsStack = false

theorem Booted.runnable {k : State} (h : Booted k) : k.Runnable := by
  have htasks : k.core.tasks = [] := by
    obtain ⟨base, size, hcore⟩ := h.core
    rw [hcore]
    rfl
  refine ⟨h.tasksOwned, by simp [FitTasks, htasks], by simp [CurrentAlive, htasks], fun i => ?_⟩
  rw [h.procs i]
  rfl

theorem noStack_update {procs : Fin 256 → Process} (h : ∀ j, (procs j).ownsStack = false)
    {i : Fin 256} {p : Process} (hp : p.ownsStack = false) :
    ∀ j, (update procs i p j).ownsStack = false := by
  intro j
  by_cases hj : j = i
  · subst hj
    rw [update_self]
    exact hp
  · rw [update_of_ne hj]
    exact h j

section
variable {c c' : Core} {procs : Fin 256 → Process} {i : Fin 256} {p : Process}

section
variable (h : FitTasks c procs)
include h

theorem FitTasks.of_tasks
    (ht : ∀ t ∈ c'.tasks, t.state ≠ .dead → ∃ u ∈ c.tasks, u.addr = t.addr ∧ u.state ≠ .dead) :
    FitTasks c' procs := by
  intro t hmem halive i hlive htask
  obtain ⟨u, hu, haddr, hstate⟩ := ht t hmem halive
  exact h u hu hstate i hlive (haddr ▸ htask)

theorem FitTasks.replace
    (hp : p.Live → p.Fit ∨ ∀ t ∈ c.tasks, t.state ≠ .dead → p.task ≠ some t.addr) :
    FitTasks c (update procs i p) := by
  intro t hmem halive j hlive htask
  by_cases hj : j = i
  · subst hj
    rw [update_self] at hlive htask ⊢
    rcases hp hlive with hfit | hno
    · exact hfit
    · exact absurd htask (hno t hmem halive)
  · rw [update_of_ne hj] at hlive htask ⊢
    exact h t hmem halive j hlive htask

theorem FitTasks.destroy (a : Nat) : FitTasks (taskDestroy c a) procs :=
  h.of_tasks fun t hmem halive => ⟨t, (mem_taskDestroy hmem fun _ => halive).1, rfl, halive⟩

end

theorem CurrentAlive.destroy (h : CurrentAlive c) {a : Nat} (hcur : c.current ≠ some a) :
    CurrentAlive (taskDestroy c a) := by
  intro t hmem heq
  rw [taskDestroy_current] at heq
  exact h t (mem_taskDestroy hmem fun heq => absurd heq hcur).1 heq

theorem fit_after_switch (hl : Linked c) (h : FitTasks c procs) {mark : Resume}
    (hy : schedulerYield c mark = some (c', true)) : FitTasks c' procs ∧ CurrentAlive c' := by
  rcases schedulerYield_cases hy with ⟨hfalse, -⟩ | ⟨-, cur, next, -, hmem, hready, rfl⟩
  · cases hfalse
  constructor
  · refine h.of_tasks fun t ht halive => ?_
    obtain ⟨u, hu, haddr, -, hdead⟩ := mem_switchTo ht
    refine ⟨u, hu, haddr, ?_⟩
    by_cases hnext : t.addr = next.addr
    · rw [hl.task_unique hu hmem (haddr.trans hnext), hready]
      decide
    · exact hdead hnext halive
  · intro t ht heq
    obtain ⟨u, -, -, hrunning, -⟩ := mem_switchTo ht
    rw [hrunning (some.inj heq).symm]
    decide

theorem fit_after_create (h : FitTasks c procs) (hc : CurrentAlive c) {resume : Resume} {prio : Nat}
    {owner r : Option Nat} (hmade : taskCreate c resume prio owner = (c', r))
    (hcur : c'.current = c.current)
    (hfresh : ∀ a ∈ nextTaskAddr c.heap, ∀ i, (procs i).Live → (procs i).task ≠ some a) :
    FitTasks c' procs ∧ CurrentAlive c' := by
  rcases taskCreate_tasks hmade with ⟨-, htasks⟩ | ⟨new, rfl, hready, htasks, haddr⟩
  · rw [FitTasks, CurrentAlive, htasks, hcur]
    exact ⟨h, hc⟩
  have hmem : ∀ t ∈ c'.tasks, t ∈ c.tasks ∨ t = new := by
    intro t ht
    rw [htasks] at ht
    simpa using ht
  constructor
  · intro t ht halive i hlive htask
    rcases hmem t ht with hold | rfl
    · exact h t hold halive i hlive htask
    · exact absurd htask (hfresh t.addr haddr i hlive)
  intro t ht heq
  rw [hcur] at heq
  rcases hmem t ht with hold | rfl
  · exact hc t hold heq
  · rw [hready]
    decide

theorem FitTasks.reparent (h : FitTasks c procs) (pid : UInt32) :
    FitTasks c fun j => reparent pid (procs j) := by
  intro t ht halive j
  simp only [Kernel.reparent]
  split <;> exact fun hlive htask => h t ht halive j hlive htask

theorem noStack_reparent (h : ∀ j, (procs j).ownsStack = false) (pid : UInt32) :
    ∀ j, (Kernel.reparent pid (procs j)).ownsStack = false := by
  intro j
  simp only [Kernel.reparent]
  split <;> exact h j

end

/-! The system calls. -/

section
variable {k k' : State} {i : Fin 256}

section
variable (h : k.Runnable)
include h

theorem State.Runnable.aside (ha : Aside k k') : k'.Runnable := by
  obtain ⟨howned, hfit, hcur, hstack⟩ := h
  refine ⟨?_, ?_, ?_, ?_⟩
  · rw [State.TasksOwned, ha.core, ha.procs, ha.births]
    exact howned
  · rw [ha.core, ha.procs]
    exact hfit
  · rw [ha.core]
    exact hcur
  · rw [ha.procs]
    exact hstack

theorem State.Runnable.current_fit {a : Nat} (hcur : k.core.current = some a)
    (hlive : (k.procs i).Live) (htask : (k.procs i).task = some a) : (k.procs i).Fit := by
  obtain ⟨l, hl, rfl⟩ := h.owned.linked.current a hcur
  obtain ⟨t, ht, rfl⟩ := List.mem_map.mp hl
  exact h.fit t ht (h.current t ht hcur) i hlive htask

theorem State.Runnable.bury (hlive : (k.procs i).Live)
    (hother : ∀ a, k.core.current = some a → (k.procs i).task ≠ some a) (code : Int) :
    ((k.bury i code).destroyTask (k.procs i).task).Runnable := by
  have howned := (h.owned.bury hlive code).destroyTask (k.procs i).task
  cases htask : (k.procs i).task with
  | none =>
    rw [htask] at howned
    refine ⟨howned, .replace h.fit fun _ => .inr fun t _ _ => ?_, h.current,
      noStack_update h.noStack (h.noStack i)⟩
    rw [htask]
    nofun
  | some a =>
    rw [htask] at howned
    refine ⟨howned, ?_, h.current.destroy fun heq => hother a heq htask,
      noStack_update h.noStack (h.noStack i)⟩
    refine .replace (.destroy h.fit a) fun _ => .inr fun t ht halive => ?_
    rw [htask]
    exact fun heq => (mem_taskDestroy ht fun _ => halive).2 (some.inj heq).symm

theorem State.Runnable.kill {pid : UInt32} {signal : Int}
    (hother : signal = 9 ∨ signal = 15 → ∀ i, processGet k pid = some i →
      ∀ a, k.core.current = some a → (k.procs i).task ≠ some a)
    (hstop : signal = 19 → ∀ i, processGet k pid = some i →
      ∀ t ∈ k.core.tasks, (k.procs i).task = some t.addr → t.state = .dead) :
    (processKill k pid signal).1.Runnable := by
  have howned := h.owned.kill pid signal
  rcases processKill_cases k pid signal with ⟨-, heq⟩ | ⟨i, hget, -, hsig⟩
  · rw [heq]
    exact h
  generalize (processKill k pid signal).1 = k1 at hsig howned
  cases hsig with
  | terminated _ hterm => exact h.bury (processGet_spec hget).2 (hother hterm i hget) _
  | stopped =>
    refine ⟨howned, .replace h.fit fun _ => .inr fun t ht halive htask => ?_, h.current,
      noStack_update h.noStack (h.noStack i)⟩
    exact halive (hstop rfl i hget t ht htask)
  | continued =>
    refine ⟨howned, .replace h.fit fun _ => .inl ?_, h.current,
      noStack_update h.noStack (h.noStack i)⟩
    exact ⟨show ProcState.running ≠ .zombie by decide, show ProcState.running ≠ .stopped by decide⟩
  | ignored => exact h

theorem State.Runnable.yield (hy : k.yield = some k') : k'.Runnable := by
  have howned := h.owned.yield hy
  obtain ⟨core, switched, hcore, rfl⟩ := yield_spec hy
  cases switched with
  | true =>
    obtain ⟨hfit, hcur⟩ := fit_after_switch h.owned.linked h.fit hcore
    exact ⟨howned, hfit, hcur, h.noStack⟩
  | false =>
    rcases schedulerYield_cases hcore with ⟨-, rfl⟩ | ⟨htrue, -⟩
    · exact h
    · cases htrue

theorem State.Runnable.exit {code : Int} {now : UInt64} (he : processExit k code now = some k') :
    k'.Runnable := by
  have howned := h.owned.exit he
  rcases processExit_spec he with ⟨-, rfl⟩ | ⟨a, core, -, hcore, rfl⟩
  · exact h
  have hretired : FitTasks (processRetire k a code now).core (processRetire k a code now).procs ∧
      ∀ i, ((processRetire k a code now).procs i).ownsStack = false := by
    unfold processRetire
    cases hexit : exiting k a with
    | none => exact ⟨h.fit, h.noStack⟩
    | some i =>
      have htask := exiting_spec hexit
      -- the task of the dead process is only marked, but it is marked dead
      have hburied : FitTasks (taskDestroy k.core a) (k.bury i code).procs := by
        refine .replace (.destroy h.fit a) fun _ => .inr fun t ht halive => ?_
        rw [htask]
        exact fun heq => (mem_taskDestroy ht fun _ => halive).2 (some.inj heq).symm
      have hstack : ∀ j, ((k.bury i code).procs j).ownsStack = false := by
        exact noStack_update h.noStack (h.noStack i)
      exact ⟨hburied.reparent _, noStack_reparent hstack _⟩
  have hlinked := (h.owned.retire a code now).linked
  obtain ⟨hfit, hcur⟩ := fit_after_switch hlinked hretired.1 hcore
  exact ⟨howned, hfit, hcur, hretired.2⟩

end

theorem userRecord_fit (k : State) (name : CStr) (m : Image) (slot ppid : UInt32)
    (task : Option Nat) : Process.Fit { userRecord k name m slot ppid with task := task } :=
  ⟨show ProcState.running ≠ .zombie by decide, show ProcState.running ≠ .stopped by decide⟩

variable (h : k.Runnable)
include h

theorem State.Runnable.spawn (hfresh : FreshTask k k.core.heap) {name : CStr} {m : Image}
    {slot ppid : UInt32} {made : Option (Fin 256)}
    (hs : processSpawnUserImage k name m slot ppid = (k', made)) :
    k'.Runnable ∧ ∀ i, made = some i → (k'.procs i).pid = k.nextPid ∧
      (∀ j, j ≠ i → k'.procs j = k.procs j) ∧
      ∀ a, k'.core.current = some a → (k'.procs i).task ≠ some a := by
  have howned := h.owned.spawn name m slot ppid hfresh
  rw [hs] at howned
  rcases processSpawn_cases k name m slot ppid with heq | ⟨i, hslot, heq⟩
  · obtain ⟨rfl, rfl⟩ := Prod.mk.inj (hs.symm.trans heq)
    exact ⟨h, nofun⟩
  rw [hs] at heq
  unfold State.attachTask at heq
  cases hmade : taskCreate k.countBirth.core .userEntry 25 (some (userRecord k name m slot ppid).born) with
  | mk core r =>
    rw [hmade] at heq
    obtain ⟨-, hcur, hcreated⟩ := taskCreate_created h.owned.linked hmade
    obtain ⟨hfit, halive⟩ := fit_after_create h.fit h.current hmade hcur hfresh
    cases hcreated with
    | failed =>
      cases heq
      refine ⟨⟨howned, .replace hfit fun hz => absurd rfl hz, halive,
        noStack_update h.noStack rfl⟩, nofun⟩
    | made l _ _ _ hdistinct =>
      cases heq
      refine ⟨⟨howned, .replace hfit fun _ => .inl (userRecord_fit ..), halive,
        noStack_update h.noStack rfl⟩, ?_⟩
      intro j hj
      cases hj
      rw [setProc_self]
      refine ⟨rfl, fun j hji => setProc_of_ne _ _ hji, fun a ha heq => ?_⟩
      obtain ⟨n, hn, rfl⟩ := h.owned.linked.current a (hcur ▸ ha)
      exact hdistinct n hn (some.inj heq).symm

theorem State.Runnable.sysSpawn (hfresh : FreshTask k k.core.heap) (hfree : PidFree k)
    (he : SpawnEffect k k') : k'.Runnable := by
  have hfresh1 : ∀ {k1}, Aside k k1 → FreshTask k1 k1.core.heap := by
    intro k1 ha
    rw [FreshTask, ha.core, ha.procs]
    exact hfresh
  cases he with
  | refused ha => exact h.aside ha
  | spawned h1 hs h2 => exact ((h.aside h1).spawn (hfresh1 h1) hs).1.aside h2
  | @killed k1 k2 k3 i _ _ _ _ h1 hs h3 =>
    obtain ⟨hrun, hchild⟩ := (h.aside h1).spawn (hfresh1 h1) hs
    obtain ⟨hpid, hothers, htask⟩ := hchild i rfl
    refine (hrun.aside h3).kill (fun _ j hget a ha => ?_) (fun h19 => absurd h19 (by decide))
    -- the pid was free, so that the signal finds the child itself
    rw [h3.core] at ha
    obtain ⟨hjpid, hjlive⟩ := processGet_spec hget
    rw [h3.procs] at hjpid hjlive ⊢
    by_cases hji : j = i
    · subst hji
      exact htask a ha
    · rw [hothers j hji] at hjpid hjlive
      exact absurd (hjpid.trans hpid) (hfree.aside h1 j hjlive)

theorem State.Runnable.bind (name : CStr) (m : Image) (slot ppid : UInt32) :
    (processBindCurrentUserImage k name m slot ppid).1.Runnable := by
  have howned := h.owned.bind name m slot ppid
  rcases processBind_cases k name m slot ppid with heq | ⟨a, i, -, -, -, heq⟩
  · rw [heq]
    exact h
  rw [heq] at howned ⊢
  have htasks : ∀ t ∈ (k.core.modify a fun t => { t with owner := some k.births }).tasks,
      ∃ u ∈ k.core.tasks, u.addr = t.addr ∧ u.state = t.state := by
    intro t ht
    obtain ⟨u, hu, ⟨-, rfl⟩ | ⟨-, rfl⟩⟩ := mem_modify ht
    · exact ⟨u, hu, rfl, rfl⟩
    · exact ⟨t, hu, rfl, rfl⟩
  refine ⟨howned, ?_, ?_, noStack_update h.noStack rfl⟩
  · refine .replace (h.fit.of_tasks fun t ht halive => ?_) fun _ => .inl (userRecord_fit ..)
    obtain ⟨u, hu, haddr, hstate⟩ := htasks t ht
    exact ⟨u, hu, haddr, hstate ▸ halive⟩
  · intro t ht hcur
    obtain ⟨u, hu, haddr, hstate⟩ := htasks t ht
    rw [← hstate]
    exact h.current u hu (haddr ▸ hcur)

theorem State.Runnable.kernelTask (prio : Nat) (hfresh : FreshTask k k.core.heap) :
    { k with core := (taskCreate k.core .kernelEntry prio none).1 }.Runnable := by
  have howned := h.owned.kernelTask prio hfresh
  cases hmade : taskCreate k.core .kernelEntry prio none with
  | mk core r =>
    rw [hmade] at howned
    obtain ⟨-, hcur, -⟩ := taskCreate_created h.owned.linked hmade
    obtain ⟨hfit, halive⟩ := fit_after_create h.fit h.current hmade hcur hfresh
    exact ⟨howned, hfit, halive, h.noStack⟩

theorem State.Runnable.schedulerRun {core : Core} (hrun : schedulerRun k.core = some core) :
    { k with core := core }.Runnable := by
  have howned := h.owned.withCore (schedulerRun_linked h.owned.linked hrun)
  obtain ⟨first, hpick, rfl⟩ := map_eq_some_iff.mp hrun
  obtain ⟨hfirst, hready⟩ := pickFirstReady_mem hpick
  refine ⟨howned, h.fit.of_tasks fun t ht halive => ?_, fun t ht heq => ?_, h.noStack⟩
  · obtain ⟨u, hu, ⟨haddr, rfl⟩ | ⟨-, rfl⟩⟩ := mem_modify ht
    · refine ⟨u, hu, rfl, ?_⟩
      rw [h.owned.linked.task_unique hu hfirst haddr, hready]
      decide
    · exact ⟨t, hu, rfl, halive⟩
  · obtain ⟨u, hu, ⟨-, rfl⟩ | ⟨hne, rfl⟩⟩ := mem_modify ht
    · exact fun hdead => by cases hdead
    · exact absurd (some.inj heq).symm hne

theorem State.Runnable.wait (pid : UInt32) : (processWait k pid).1.Runnable := by
  have howned : (processWait k pid).1.TasksOwned := by
    refine h.owned.wait fun i _ _ howns => ?_
    rw [h.noStack i] at howns
    cases howns
  rcases processWait_cases k pid with ⟨rc, heq⟩ | ⟨i, hget, hzombie, -, heq⟩
  · rw [heq]
    exact h
  have hlive := (processGet_spec hget).2
  have hfree : k.freeChild (k.procs i) = k.destroyTask (k.procs i).task := by
    simp only [State.freeChild, h.noStack i, Bool.false_eq_true, false_and, if_false]
  have hdestroyed : FitTasks (k.destroyTask (k.procs i).task).core k.procs ∧
      CurrentAlive (k.destroyTask (k.procs i).task).core := by
    cases htask : (k.procs i).task with
    | none => exact ⟨h.fit, h.current⟩
    | some a =>
      refine ⟨.destroy h.fit a, h.current.destroy fun hcur => ?_⟩
      exact (h.current_fit hcur hlive htask).1 hzombie
  rw [heq] at howned ⊢
  obtain ⟨runtime, userland, ⟨rc, hreap⟩ | hreap⟩ := reap_cases k i pid
  · rw [hreap, hfree] at howned ⊢
    refine ⟨howned, ?_, hdestroyed.2, ?_⟩
    · simpa only [destroyTask_procs] using hdestroyed.1
    · simpa only [destroyTask_procs] using h.noStack
  · rw [hreap, hfree] at howned ⊢
    refine ⟨howned, ?_, hdestroyed.2, ?_⟩ <;> simp only [destroyTask_procs]
    · exact .replace hdestroyed.1 fun hz => absurd rfl hz
    · exact noStack_update h.noStack rfl

end

/-! Runs of the system calls: whichever process a handler works for is neither dead nor
stopped. -/

/-- No call makes a process dead or stopped that can still run: no process kills itself,
and no stop signal goes to one whose task is linked and not dead. New tasks take
addresses that no process in use records, new processes pids not in use. -/
def SignalsFollowed (k : State) : Call → Prop
  | .spawn _ _ _ _ => FreshTask k k.core.heap ∧ PidFree k
  | .kernelTask _ => FreshTask k k.core.heap
  | .kill pid signal =>
    ∀ i ∈ processGet k pid.toUInt32, mayKill k i →
      (signal = 9 ∨ signal = 15 → ∀ a ∈ k.core.current, (k.procs i).task ≠ some a) ∧
      (signal = 19 → ∀ t ∈ k.core.tasks, (k.procs i).task = some t.addr → t.state = .dead)
  | _ => True

instance (k : State) : (c : Call) → Decidable (SignalsFollowed k c)
  | .spawn _ _ _ _ => inferInstanceAs (Decidable (FreshTask k k.core.heap ∧ PidFree k))
  | .kernelTask _ => inferInstanceAs (Decidable (FreshTask k k.core.heap))
  | .kill pid _ => inferInstanceAs (Decidable (∀ i ∈ processGet k pid.toUInt32, mayKill k i → _ ∧ _))
  | .serviceReady _ | .consoleReady | .exit _ _ | .waitpid _ _ _ | .shutdown _ _ | .yield
  | .openFile _ | .close _ | .fileIo _ _ _ | .sockets _ | .other | .schedulerRun | .setIdle _
  | .bindCurrent _ _ _ _ => .isTrue trivial

section
variable {k k' : State}

theorem processKill_current (k : State) (pid : UInt32) (signal : Int) :
    (processKill k pid signal).1.core.current = k.core.current := by
  rcases processKill_cases k pid signal with ⟨-, heq⟩ | ⟨i, -, -, hsig⟩
  · rw [heq]
  generalize (processKill k pid signal).1 = k1 at hsig
  cases hsig with
  | terminated =>
    cases (k.procs i).task with
    | none => rfl
    | some a => exact taskDestroy_current k.core a
  | stopped | continued | ignored => rfl

theorem processGetpid_of_current {i : Fin 256} (h : processCurrent k = some i) :
    processGetpid k = (k.procs i).pid := by
  simp only [processGetpid, h]

section
variable (h : k.Runnable)
include h

theorem State.Runnable.shutdown (mode reason : UInt64) :
    (sysShutdown k mode reason).1.Runnable := by
  by_cases hmay : mayShutdown k
  · obtain ⟨i, hcur⟩ : ∃ i, processCurrent k = some i := by
      cases hcur : processCurrent k with
      | some i => exact ⟨i, rfl⟩
      | none => simp [mayShutdown, processGetpid, processCurrentName, hcur] at hmay
    obtain ⟨a, ha, hlive, htask⟩ := processCurrent_spec hcur
    let I (k1 : State) : Prop := k1.Runnable ∧ k1.core.current = some a ∧ k1.procs i = k.procs i
    refine (sysShutdown_induction (I := I) hmay mode reason (fun _ => ?_) ?_ fun k1 h1 => ?_).1
    · exact ⟨⟨h.owned, h.fit, h.current, h.noStack⟩, ha, rfl⟩
    · rintro - k1 pid ⟨h1, ha1, hproc⟩ hpid
      have hne : (k1.procs i).pid ≠ pid := by
        rw [hproc, ← processGetpid_of_current hcur]
        exact hpid.symm
      refine ⟨h1.kill (fun _ j hget b hb htask' => ?_) (fun h19 => absurd h19 (by decide)),
        (processKill_current k1 pid 15).trans ha1, (processKill_other hne 15).trans hproc⟩
      -- another process with the running task would be the running process
      obtain rfl := some.inj (ha1.symm.trans hb)
      obtain ⟨hjpid, hjlive⟩ := processGet_spec hget
      obtain ⟨l, hl, rfl⟩ := h1.owned.linked.current a ha1
      have hij : i = j := h1.owned.unique hl (hproc ▸ hlive) hjlive (hproc ▸ htask) htask'
      exact hne (hij ▸ hjpid)
    · exact ⟨⟨h1.1.owned, h1.1.fit, h1.1.current, h1.1.noStack⟩, h1.2⟩
  · rw [sysShutdown_denied hmay]
    exact h

theorem State.Runnable.serviceReady (name : Option (CArray 32)) :
    (sysServiceReady k name).1.Runnable := by
  rcases sysServiceReady_cases k name with heq | ⟨i, supervisor, -, -, -, -, heq⟩
  · rwa [heq]
  · rw [heq]
    exact ⟨h.owned, h.fit, h.current, h.noStack⟩

theorem State.Runnable.sysKill {pid signal : UInt64} (hok : SignalsFollowed k (.kill pid signal)) :
    (sysKill k pid signal).1.Runnable := by
  have hcast : ∀ n : Nat, (signal.toNat : Int) = n → signal = .ofNat n := by
    intro n hn
    have hnat : signal.toNat = n := by exact_mod_cast hn
    rw [← hnat, UInt64.ofNat_toNat]
  rcases sysKill_cases k pid signal with heq | ⟨⟨i, hget, hmay⟩, heq⟩ <;> rw [heq]
  · exact h
  have hi := hok i hget hmay
  refine h.kill (fun hsig j hj a ha => ?_) (fun hsig j hj => ?_)
  · obtain rfl := some.inj (hget.symm.trans hj)
    refine hi.1 ?_ a ha
    rcases hsig with hs | hs
    · exact .inl (hcast 9 hs)
    · exact .inr (hcast 15 hs)
  · obtain rfl := some.inj (hget.symm.trans hj)
    exact hi.2 (hcast 19 hsig)

theorem State.Runnable.dispatch {c : Call} (hok : SignalsFollowed k c)
    (hstep : dispatch k c = some k') : k'.Runnable := by
  unfold Kernel.dispatch at hstep
  split at hstep
  · cases hstep
  by_cases hlocal : c.isLocal = true
  · exact h.aside (aside_local hlocal hstep)
  cases c <;> simp only [perform, step, Call.isLocal, not_true_eq_false] at hstep hlocal <;>
    try obtain rfl := some.inj hstep
  case spawn path file now later =>
    exact h.sysSpawn hok.1 hok.2 (sysSpawn_effect k path file now later)
  case serviceReady name => exact h.serviceReady name
  case kill pid signal => exact h.sysKill hok
  case exit code now => exact h.exit hstep
  case waitpid pid options exitPtr =>
    rcases sysWaitpid_cases k pid options exitPtr with heq | ⟨child, heq⟩ <;> rw [heq]
    · exact h
    · exact h.wait child
  case shutdown mode reason => exact h.shutdown mode reason
  case yield => exact h.yield hstep
  case schedulerRun =>
    obtain ⟨core, hcore, hres⟩ := bind_eq_some_iff.mp hstep
    rw [resumed_eq hres]
    exact h.schedulerRun hcore
  case kernelTask prio => exact h.kernelTask prio hok
  case setIdle task =>
    have hlinked : Linked { k.core with idle := task } :=
      h.owned.linked.of_links rfl rfl rfl h.owned.linked.current
    exact ⟨h.owned.withCore ⟨hlinked, rfl, rfl⟩, h.fit, h.current, h.noStack⟩
  case bindCurrent name m slot ppid => exact h.bind name m slot ppid

end

end

/-- From the booted kernel, in every run in which no signal kills the caller or stops a
process that can run: whenever a handler starts, no process of the running task is
dead or stopped. -/
theorem handlers_run_for_live_processes (k k' : State) (calls : List Call) (hboot : Booted k)
    (hrun : Run dispatch SignalsFollowed k calls k') :
    (∀ i, processCurrent k' = some i →
      (k'.procs i).state ≠ .zombie ∧ (k'.procs i).state ≠ .stopped) ∧
    ∀ i a, (k'.procs i).state ≠ .empty → k'.core.current = some a → (k'.procs i).task = some a →
      (k'.procs i).state ≠ .zombie ∧ (k'.procs i).state ≠ .stopped := by
  have h : k'.Runnable :=
    hrun.invariant (I := State.Runnable) (fun _ _ _ hs hok hstep => hs.dispatch hok hstep)
      hboot.runnable
  constructor
  · intro i hcur
    obtain ⟨a, ha, hlive, htask⟩ := processCurrent_spec hcur
    exact h.current_fit ha hlive htask
  · intro i a hlive ha htask
    exact h.current_fit ha hlive htask

/-- The daemon opens a file, is killed by pid 1 and reaped. -/
theorem daemon_killed_by_parent : ∃ k', Run dispatch SignalsFollowed withDaemon
        (launchDaemon ++ [.yield, .openFile true, .yield, .kill 2 9, .waitpid 2 0 none, .yield]) k' ∧
      (∀ i, processCurrent k' = some i →
        (k'.procs i).state ≠ .zombie ∧ (k'.procs i).state ≠ .stopped) ∧
      ∀ i a, (k'.procs i).state ≠ .empty → k'.core.current = some a → (k'.procs i).task = some a →
        (k'.procs i).state ≠ .zombie ∧ (k'.procs i).state ≠ .stopped := by
  refine Run.exists_of_execute_imp (P := fun _ => True) (fun k' hrun _ => ?_) (by decide +kernel)
  exact handlers_run_for_live_processes withDaemon k' _ withDaemon_booted hrun

/-- A process that killed itself goes on to open a file, and a stopped one is scheduled. -/
theorem dead_and_stopped_processes_run :
    (∃ k i, Run dispatch anyEvent withDaemon (launchDaemon ++ [.yield, .kill 2 9]) k ∧
      processCurrent k = some i ∧ (k.procs i).state = .zombie ∧ (sysOpen k true).2 = 3) ∧
    ∃ k i, Run dispatch anyEvent withDaemon (launchDaemon ++ [.kill 2 19, .yield]) k ∧
      processCurrent k = some i ∧ (k.procs i).state = .stopped := by
  simp only [exists_and_left]
  exact ⟨Run.exists_of_execute (by decide +kernel), Run.exists_of_execute (by decide +kernel)⟩

end AegisOS.Kernel
