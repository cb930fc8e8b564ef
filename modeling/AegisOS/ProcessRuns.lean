import AegisOS.ProcessOwnership

/-! Runs of the process layer: every linked task keeps belonging to the process it was
made for. -/
namespace AegisOS.Kernel
open GuardedRun Scheduler Heap CString Option Capability Function

/-- The tasks and the entries in use fit together, for the lookups and for a wait. -/
structure TasksExclusive (k : State) : Prop where
  unique : ∀ l ∈ k.core.links, ∀ i j, (k.procs i).Live → (k.procs j).Live →
    (k.procs i).task = some l.addr → (k.procs j).task = some l.addr → i = j
  madeFor : ∀ l ∈ k.core.links, ∀ i, (k.procs i).Live → (k.procs i).task = some l.addr →
    l.owner = some (k.procs i).born
  current : ∀ i, processCurrent k = some i ↔ (k.procs i).Live ∧
    ∃ l ∈ k.core.links, k.core.current = some l.addr ∧ l.owner = some (k.procs i).born
  wait : ∀ pid i, processGet k pid = some i → ∀ l ∈ k.core.links, l.owner ≠ some (k.procs i).born →
      l ∈ (processWait k pid).1.core.links ∧ Allocated (processWait k pid).1.core.heap l.addr ∧
        Allocated (processWait k pid).1.core.heap l.stackBase

def CalledIn (k : State) (pid : UInt32) : Prop :=
  ∃ i, (k.procs i).Live ∧ (k.procs i).pid = pid ∧
    ∃ l ∈ k.core.links, k.core.current = some l.addr ∧ l.owner = some (k.procs i).born
  deriving Decidable

def FeatureOwned (k : State) (pid : UInt32) : Prop :=
  ∀ i ∈ processGet k pid, (k.procs i).state = .zombie → (k.procs i).ownsStack = true →
    FeatureAgrees k.userland (k.procs i).name.str pid

/-- No task is made at an address that an entry in use still records, and no process
with a stack of its own is reaped while its feature belongs to another pid. -/
def NoStaleTask (k : State) : Event → Prop
  | .create _ _ => ∀ got ∈ kmalloc k.core.heap procStackSize, FreshTask k got.1
  | .spawnUserImage _ _ _ _ => FreshTask k k.core.heap
  | .kernelTask _ => FreshTask k k.core.heap
  | .wait pid => FeatureOwned k pid
  | .waitAny parent => ∀ i ∈ firstZombie k (waitParent k parent), FeatureOwned k (k.procs i).pid
  | _ => True

instance (k : State) (h : List Block) : Decidable (FreshTask k h) :=
  inferInstanceAs (Decidable (∀ a ∈ nextTaskAddr h, ∀ i, (k.procs i).Live → (k.procs i).task ≠ some a))

instance (u : Userland.Catalogue) (name : CStr) (pid : UInt32) :
    Decidable (FeatureAgrees u name pid) :=
  inferInstanceAs (Decidable (∀ n ∈ Userland.findFeature u name, ∀ f ∈ u.features[n]?, _))

instance (k : State) (pid : UInt32) : Decidable (FeatureOwned k pid) :=
  inferInstanceAs (Decidable (∀ i ∈ processGet k pid, _ → _ → _))

instance (k : State) : (e : Event) → Decidable (NoStaleTask k e)
  | .create _ _ => inferInstanceAs (Decidable (∀ got ∈ kmalloc k.core.heap procStackSize, _))
  | .spawnUserImage _ _ _ _ | .kernelTask _ => inferInstanceAs (Decidable (FreshTask k k.core.heap))
  | .wait pid => inferInstanceAs (Decidable (FeatureOwned k pid))
  | .waitAny parent => inferInstanceAs (Decidable (∀ i ∈ firstZombie k (waitParent k parent), _))
  | .bindCurrent _ _ _ _ | .kill _ _ | .exit _ _ | .yield | .schedulerRun | .setIdle _ =>
    .isTrue trivial

variable {pid : UInt32} {l : Link}

section
variable {k k' : State} {i : Fin 256}

theorem State.TasksOwned.wait (h : k.TasksOwned) (hok : NoStaleTask k (.wait pid)) :
    (processWait k pid).1.TasksOwned := by
  rcases processWait_cases k pid with ⟨rc, heq⟩ | ⟨i, hget, hzombie, -, heq⟩ <;> rw [heq]
  · exact h
  · exact h.reap (processGet_spec hget).2 (hok i hget hzombie)

theorem State.TasksOwned.step {e : Event} (h : k.TasksOwned) (hok : NoStaleTask k e)
    (hstep : step k e = some k') : k'.TasksOwned := by
  cases e <;> simp only [Kernel.step] at hstep <;> try cases hstep
  case create name ppid => exact h.create name ppid hok
  case spawnUserImage name m slot ppid => exact h.spawn name m slot ppid hok
  case bindCurrent name m slot ppid => exact h.bind name m slot ppid
  case kill pid signal => exact h.kill pid signal
  case exit code now => exact h.exit hstep
  case wait pid => exact h.wait hok
  case waitAny parent =>
    unfold processWaitAny
    cases hfirst : firstZombie k (waitParent k parent) with
    | none => exact h
    | some i => exact h.wait (hok i hfirst)
  case yield => exact h.yield hstep
  case schedulerRun =>
    obtain ⟨core, hcore, hres⟩ := bind_eq_some_iff.mp hstep
    rw [resumed_eq hres]
    exact h.withCore (schedulerRun_linked h.linked hcore)
  case kernelTask prio => exact h.kernelTask prio hok
  case setIdle task => exact h.withCore ⟨h.linked.of_links rfl rfl rfl h.linked.current, rfl, rfl⟩

theorem run_tasksOwned {es : List Event} (hrun : Run step NoStaleTask k es k') (h : k.TasksOwned) :
    k'.TasksOwned :=
  hrun.invariant (I := State.TasksOwned) (fun _ _ _ hs hok hstep => hs.step hok hstep) h

/-! What the invariant says. -/

theorem State.TasksOwned.unique (h : k.TasksOwned) (hl : l ∈ k.core.links)
    {i j : Fin 256} (hi : (k.procs i).Live) (hj : (k.procs j).Live)
    (hti : (k.procs i).task = some l.addr) (htj : (k.procs j).task = some l.addr) : i = j := by
  refine h.distinct i j hi hj (some.inj ?_)
  exact (h.owner l hl i hi hti).symm.trans (h.owner l hl j hj htj)

theorem State.TasksOwned.current_iff (h : k.TasksOwned) :
    processCurrent k = some i ↔ (k.procs i).Live ∧
      ∃ l ∈ k.core.links, k.core.current = some l.addr ∧ l.owner = some (k.procs i).born := by
  constructor
  · intro hcur
    obtain ⟨a, ha, hlive, htask⟩ := processCurrent_spec hcur
    obtain ⟨l, hl, rfl⟩ := h.linked.current a ha
    exact ⟨hlive, l, hl, ha, h.owner l hl i hlive htask⟩
  rintro ⟨hlive, l, hl, ha, hown⟩
  have htask := h.held l hl i hlive hown
  obtain ⟨j, hj⟩ := processCurrent_isSome ha hlive htask
  obtain ⟨a, ha', hlive', htask'⟩ := processCurrent_spec hj
  obtain rfl := some.inj (ha.symm.trans ha')
  rw [hj, h.unique hl hlive hlive' htask htask']

theorem State.TasksOwned.calledIn (h : k.TasksOwned) (hcalled : CalledIn k pid) :
    processGetpid k = pid := by
  obtain ⟨i, hlive, hpid, hlink⟩ := hcalled
  have hcur : processCurrent k = some i := h.current_iff.mpr ⟨hlive, hlink⟩
  rw [processGetpid, hcur]
  exact hpid

theorem mem_freeChild_links {p : Process} (hl : l ∈ k.core.links)
    (hne : p.task ≠ some l.addr) : l ∈ (k.freeChild p).core.links := by
  have hkept : l ∈ (k.destroyTask p.task).core.links := by
    cases htask : p.task with
    | none => exact hl
    | some a =>
      simp only [State.destroyTask, taskDestroy_links]
      split
      · exact hl
      refine List.mem_filter.mpr ⟨hl, ?_⟩
      rw [decide_eq_true_iff]
      rintro rfl
      exact hne htask
  simp only [State.freeChild]
  split <;> exact hkept

theorem State.TasksOwned.wait_keeps (h : k.TasksOwned)
    (hget : processGet k pid = some i) (hl : l ∈ k.core.links)
    (hown : l.owner ≠ some (k.procs i).born) :
    l ∈ (processWait k pid).1.core.links ∧ Linked (processWait k pid).1.core := by
  have hlive := (processGet_spec hget).2
  rcases processWait_cases k pid with ⟨rc, heq⟩ | ⟨j, hget', -, -, heq⟩
  · rw [heq]
    exact ⟨hl, h.linked⟩
  obtain rfl : i = j := some.inj (hget.symm.trans hget')
  have hmem := mem_freeChild_links (p := k.procs i) hl fun htask => hown (h.owner l hl i hlive htask)
  have hlinked := (h.freeChild_clear hlive).linked
  rw [heq]
  obtain ⟨runtime, userland, ⟨rc, hreap⟩ | hreap⟩ := reap_cases k i pid
  all_goals
    rw [hreap]
    exact ⟨hmem, hlinked⟩

end

/-- From the booted kernel, in every run in which no task is made at an address that a
process in use still records: each linked task is named by at most one entry in use,
and by the one it was made for; the running task's process is the one found for it;
and a wait neither unlinks nor frees the task of another process. -/
theorem tasks_belong_to_their_process (k k' : State) (es : List Event) (hboot : Booted k)
    (hrun : Run step NoStaleTask k es k') : TasksExclusive k' := by
  have h := run_tasksOwned hrun hboot.tasksOwned
  refine ⟨fun l hl i j => h.unique hl, h.owner, fun i => h.current_iff, ?_⟩
  intro pid i hget l hl hown
  obtain ⟨hmem, hlinked⟩ := h.wait_keeps hget hl hown
  obtain ⟨htask, hstack⟩ := hlinked.memory l hmem
  exact ⟨hmem, hlinked.backed.tagged _ _ htask, hlinked.backed.tagged _ _ hstack⟩

/-- Two processes run in turn, the first is killed by the second and reaped, and a
third takes its place. -/
theorem reaped_before_next_spawn : ∃ k', Booted booted ∧ Run step NoStaleTask booted
        [.kernelTask 10, .schedulerRun, .create (cstr "a") 0,
          .spawnUserImage (cstr "b") someImage 1 1, .yield, .yield, .kill 1 9, .yield, .wait 1,
          .create (cstr "c") 0] k' ∧ TasksExclusive k' := by
  refine exists_and_left.mpr ⟨booted_booted, Run.exists_of_execute_imp (P := fun _ => True)
    (fun k' hrun _ => ?_) (by decide +kernel)⟩
  exact tasks_belong_to_their_process booted k' _ booted_booted hrun

/-- The task of a killed process is freed, the next process gets a task at the same
address, and reaping the first takes the second's task away. -/
theorem killed_process_shares_task : ∃ k', Run step anyEvent booted
        [.spawnUserImage (cstr "a") someImage 1 0, .kill 1 9,
          .spawnUserImage (cstr "b") someImage 2 0] k' ∧
      (k'.procs 0).Live ∧ (k'.procs 1).Live ∧ (k'.procs 0).task = (k'.procs 1).task ∧
      k'.core.links.map (fun l => (some l.addr, l.owner)) =
        [((k'.procs 1).task, some (k'.procs 1).born)] ∧
      (k'.procs 0).pid = 1 ∧ (processWait k' 1).1.core.links = [] := by
  exact Run.exists_of_execute (by decide +kernel)

/-! The capability calls (`sys_cap_grant`, `sys_cap_revoke`) in runs of the process layer. -/

def State.setCaps (k : State) (i : Fin 256) (caps : CapSet) : State :=
  k.setProc i { k.procs i with caps := caps }

def processGrantCap (k : State) (pid : UInt32) (cap : UInt64) : State × Int :=
  match processGet k pid with
  | none => (k, aegisEnoent)
  | some i =>
    if cap ∈ (k.procs i).caps then (k, aegisOk)
    else
      match (k.procs i).caps.push cap with
      | none => (k, aegisEnomem)
      | some caps => (k.setCaps i caps, aegisOk)

def processRevokeCap (k : State) (pid : UInt32) (cap : UInt64) : State × Int :=
  match processGet k pid with
  | none => (k, aegisEnoent)
  | some i =>
    match (k.procs i).caps.remove cap with
    | none => (k, aegisEnoent)
    | some caps => (k.setCaps i caps, aegisOk)

def processHasCap (k : State) (pid : UInt32) (cap : UInt64) : Bool :=
  (processGet k pid).any fun i => cap ∈ (k.procs i).caps

def currentProcessMayManageCap (k : State) (cap : UInt64) : Bool :=
  processGetpid k = 0 || processHasCap k (processGetpid k) cap

def sysCapGrant (k : State) (t : CapTable) (targetPid capToken : UInt64) : State × Int :=
  if targetPid = 0 ∨ capToken = nullCap then (k, aegisEinval)
  else if capIsValid t capToken = false then (k, aegisEinval)
  else if currentProcessMayManageCap k capToken = false then (k, aegisEperm)
  else processGrantCap k targetPid.toUInt32 capToken

def sysCapRevoke (k : State) (t : CapTable) (targetPid capToken : UInt64) :
    State × CapTable × Int :=
  if targetPid = 0 ∨ capToken = nullCap then (k, t, aegisEinval)
  else if capIsValid t capToken = false then (k, t, aegisEinval)
  else if currentProcessMayManageCap k capToken = false then (k, t, aegisEperm)
  else
    let taken := processRevokeCap k targetPid.toUInt32 capToken
    if taken.2 ≠ aegisOk then (taken.1, t, taken.2)
    else (taken.1, capRevoke t capToken)

/-! Runs. -/

/-- The kernel with the capability table and the tokens that were revoked. -/
structure CapKernel where
  kernel : State
  table : CapTable
  revoked : List UInt64

inductive CapEvent
  | process (e : Event)
  | grant (targetPid capToken : UInt64)
  | revoke (targetPid capToken : UInt64)
  | create (ownerTid targetTid : UInt32) (rights : UInt64)
  | delegate (capToken : UInt64) (targetTid : UInt32) (rights : UInt64)

def capStep (S : CapKernel) : CapEvent → Option CapKernel
  | .process e => (step S.kernel e).map fun k => { S with kernel := k }
  | .grant targetPid capToken =>
    some { S with kernel := (sysCapGrant S.kernel S.table targetPid capToken).1 }
  | .revoke targetPid capToken =>
    let done := sysCapRevoke S.kernel S.table targetPid capToken
    some ⟨done.1, done.2.1, if done.2.2 = aegisOk then capToken :: S.revoked else S.revoked⟩
  | .create ownerTid targetTid rights =>
    some { S with table := (capCreate S.table ownerTid targetTid rights).1 }
  | .delegate capToken targetTid rights =>
    some { S with table := (capDelegate S.table capToken targetTid rights).1 }

/-- The condition on the steps of the process layer; the capability calls have none. -/
def NoStaleCaller (S : CapKernel) : CapEvent → Prop
  | .process e => NoStaleTask S.kernel e
  | _ => True

instance (S : CapKernel) : (e : CapEvent) → Decidable (NoStaleCaller S e)
  | .process e => inferInstanceAs (Decidable (NoStaleTask S.kernel e))
  | .grant _ _ | .revoke _ _ | .create _ _ _ | .delegate _ _ _ => .isTrue trivial

def Holds (k : State) (pid : UInt32) (cap : UInt64) : Prop :=
  ∃ i, (k.procs i).Live ∧ (k.procs i).pid = pid ∧ cap ∈ (k.procs i).caps
  deriving Decidable

/-- Tokens spread only from processes that hold them, and a revoked one is dead. -/
structure Confined (S : CapKernel) : Prop where
  spread : ∀ e S', capStep S e = some S' → ∀ i cap, cap ∈ (S'.kernel.procs i).caps →
    cap ∉ (S.kernel.procs i).caps → ∀ pid, pid ≠ 0 → CalledIn S.kernel pid → Holds S.kernel pid cap
  revoked : ∀ cap ∈ S.revoked, capIsValid S.table cap = false ∧
    ∀ targetPid, (sysCapGrant S.kernel S.table targetPid cap).2 ≠ aegisOk

/-! What happens to the token sets. -/

variable {p : Process} {x targetPid : UInt64} {t : CapTable} {S : CapKernel}

section
variable {k k' : State} {i j : Fin 256} {cap : UInt64}

def CapsKept (k k' : State) : Prop :=
  ∀ i, (k'.procs i).caps = (k.procs i).caps ∨ (k'.procs i).caps = .empty

theorem CapsKept.of_procs (h : k'.procs = k.procs) : CapsKept k k' := fun i => .inl (by rw [h])

theorem CapsKept.of_update (h : k'.procs = update k.procs i p)
    (hp : p.caps = (k.procs i).caps ∨ p.caps = .empty) : CapsKept k k' := by
  intro j
  rw [h]
  by_cases hj : j = i
  · rw [hj, update_self]
    exact hp
  · rw [update_of_ne hj]
    exact .inl rfl

theorem Birth.caps {ppid : UInt32} (h : Birth k ppid k') : CapsKept k k' := by
  cases h with
  | refused => exact .of_procs rfl
  | made core p _ hp =>
    rcases hp with rfl | ⟨-, -, hcaps⟩
    · exact .of_update rfl (.inr rfl)
    · exact .of_update rfl (.inr hcaps)

theorem processKill_caps (k : State) (pid : UInt32) (signal : Int) :
    CapsKept k (processKill k pid signal).1 := by
  rcases processKill_cases k pid signal with ⟨-, heq⟩ | ⟨i, -, -, hsig⟩
  · rw [heq]
    exact .of_procs rfl
  · obtain ⟨s, code, heq, -⟩ := hsig.procs
    exact .of_update heq (.inl rfl)

theorem processRetire_caps (k : State) (a : Nat) (code : Int) (now : UInt64) :
    CapsKept k (processRetire k a code now) := by
  unfold processRetire
  cases exiting k a with
  | none => exact .of_procs rfl
  | some i =>
    intro j
    have hbury : CapsKept k (k.bury i code) := .of_update (bury_procs k i code) (.inl rfl)
    have hparent : ∀ p, (reparent (k.procs i).pid p).caps = p.caps := by
      intro p
      unfold reparent
      split_ifs <;> rfl
    simp only [hparent]
    exact hbury j

theorem processWait_caps (k : State) (pid : UInt32) : CapsKept k (processWait k pid).1 := by
  obtain ⟨core, runtime, userland, heq | ⟨i, -, -, heq⟩⟩ := processWait_effect k pid <;> rw [heq]
  · exact .of_procs rfl
  · exact .of_update rfl (.inr rfl)

theorem step_caps {e : Event} (hstep : step k e = some k') : CapsKept k k' := by
  cases step_stepped hstep with
  | create h | spawn h | bind h => exact h.caps
  | kill pid signal => exact processKill_caps k pid signal
  | exit => exact processRetire_caps k _ _ _
  | wait pid => exact processWait_caps k pid
  | waitAny => exact processWait_caps k _
  | idle | childless | yield | schedulerRun | kernelTask | setIdle => exact .of_procs rfl

theorem CapsKept.mem (h : CapsKept k k') (hcap : cap ∈ (k'.procs i).caps) :
    cap ∈ (k.procs i).caps := by
  rcases h i with heq | heq
  · rwa [heq] at hcap
  · rw [heq] at hcap
    exact absurd hcap (CapSet.not_mem_empty cap)

theorem setCaps_caps (k : State) (i j : Fin 256) (caps : CapSet) :
    ((k.setCaps i caps).procs j).caps = if j = i then caps else (k.procs j).caps := by
  by_cases hj : j = i
  · rw [if_pos hj, hj, State.setCaps, setProc_self]
  · rw [if_neg hj, State.setCaps, setProc_of_ne _ _ hj]

theorem processGrantCap_cases (k : State) (pid : UInt32) (cap : UInt64) :
    (processGrantCap k pid cap).1 = k ∨ ∃ i caps, (k.procs i).caps.push cap = some caps ∧
      (processGrantCap k pid cap).1 = k.setCaps i caps := by
  unfold processGrantCap
  cases processGet k pid with
  | none => exact .inl rfl
  | some i =>
    dsimp only
    split_ifs
    · exact .inl rfl
    cases hpush : (k.procs i).caps.push cap with
    | none => exact .inl rfl
    | some caps => exact .inr ⟨i, caps, hpush, rfl⟩

theorem processRevokeCap_cases (k : State) (pid : UInt32) (cap : UInt64) :
    (processRevokeCap k pid cap = (k, aegisEnoent)) ∨
      ∃ i caps, (k.procs i).caps.remove cap = some caps ∧
        processRevokeCap k pid cap = (k.setCaps i caps, aegisOk) := by
  unfold processRevokeCap
  cases processGet k pid with
  | none => exact .inl rfl
  | some i =>
    dsimp only
    cases hremove : (k.procs i).caps.remove cap with
    | none => exact .inl rfl
    | some caps => exact .inr ⟨i, caps, hremove, rfl⟩

theorem processGrantCap_caps {pid : UInt32}
    (h : x ∈ ((processGrantCap k pid cap).1.procs j).caps) : x ∈ (k.procs j).caps ∨ x = cap := by
  rcases processGrantCap_cases k pid cap with heq | ⟨i, caps, hpush, heq⟩
  · rw [heq] at h
    exact .inl h
  rw [heq, setCaps_caps] at h
  split_ifs at h with hj
  · rw [hj]
    exact (CapSet.mem_push hpush).mp h
  · exact .inl h

theorem sysCapGrant_caps
    (h : x ∈ ((sysCapGrant k t targetPid cap).1.procs j).caps) (hnew : x ∉ (k.procs j).caps) :
    x = cap ∧ currentProcessMayManageCap k cap = true := by
  unfold sysCapGrant at h
  split_ifs at h with hargs hvalid hmay
  · exact absurd h hnew
  · exact absurd h hnew
  · exact absurd h hnew
  · rcases processGrantCap_caps h with hold | heq
    · exact absurd hold hnew
    · exact ⟨heq, by simpa using hmay⟩

theorem sysCapRevoke_cases (k : State) (t : CapTable) (targetPid cap : UInt64) :
    (∃ rc, rc ≠ aegisOk ∧ sysCapRevoke k t targetPid cap = (k, t, rc)) ∨
      ∃ i caps, (k.procs i).caps.remove cap = some caps ∧ capIsValid t cap = true ∧
        sysCapRevoke k t targetPid cap = (k.setCaps i caps, capRevoke t cap) := by
  unfold sysCapRevoke
  split_ifs with hargs hvalid hmay
  · exact .inl ⟨_, by decide, rfl⟩
  · exact .inl ⟨_, by decide, rfl⟩
  · exact .inl ⟨_, by decide, rfl⟩
  rcases processRevokeCap_cases k targetPid.toUInt32 cap with heq | ⟨i, caps, hremove, heq⟩
  · rw [heq]
    exact .inl ⟨aegisEnoent, by decide, rfl⟩
  · rw [heq]
    exact .inr ⟨i, caps, hremove, by simpa using hvalid, rfl⟩

theorem sysCapRevoke_caps
    (h : x ∈ ((sysCapRevoke k t targetPid cap).1.procs j).caps) : x ∈ (k.procs j).caps := by
  rcases sysCapRevoke_cases k t targetPid cap with ⟨rc, -, heq⟩ | ⟨i, caps, hremove, -, heq⟩
  · rwa [heq] at h
  rw [heq, setCaps_caps] at h
  split_ifs at h with hj
  · rw [hj]
    exact CapSet.mem_of_mem_remove hremove h
  · exact h

theorem holds_of_mayManage (hpid : processGetpid k ≠ 0)
    (hmay : currentProcessMayManageCap k cap = true) : Holds k (processGetpid k) cap := by
  have hhas : processHasCap k (processGetpid k) cap = true := by
    simpa [currentProcessMayManageCap, hpid] using hmay
  obtain ⟨i, hget, hcap⟩ := (any_eq_true _ _).mp hhas
  obtain ⟨hp, hlive⟩ := processGet_spec hget
  exact ⟨i, hlive, hp, of_decide_eq_true hcap⟩

theorem State.TasksOwned.setCaps (h : k.TasksOwned) (i : Fin 256) (caps : CapSet) :
    (k.setCaps i caps).TasksOwned :=
  Owned.replace h (.inl ⟨Iff.rfl, rfl, rfl, rfl, rfl, rfl⟩)

theorem State.TasksOwned.grant (h : k.TasksOwned) (t : CapTable) (targetPid cap : UInt64) :
    (sysCapGrant k t targetPid cap).1.TasksOwned := by
  unfold sysCapGrant
  split_ifs
  · exact h
  · exact h
  · exact h
  · rcases processGrantCap_cases k targetPid.toUInt32 cap with heq | ⟨i, caps, -, heq⟩
    · rwa [heq]
    · rw [heq]
      exact h.setCaps i caps

end

structure CapInv (S : CapKernel) : Prop where
  owned : S.kernel.TasksOwned
  made : S.table.Made
  dead : ∀ cap ∈ S.revoked, S.table.Dead cap

theorem CapInv.step {S' : CapKernel} {e : CapEvent} (h : CapInv S) (hok : NoStaleCaller S e)
    (hstep : capStep S e = some S') : CapInv S' := by
  cases e with
  | process e =>
    obtain ⟨k, hk, rfl⟩ := map_eq_some_iff.mp hstep
    exact ⟨h.owned.step hok hk, h.made, h.dead⟩
  | grant targetPid cap =>
    cases hstep
    exact ⟨h.owned.grant S.table targetPid cap, h.made, h.dead⟩
  | revoke targetPid cap =>
    cases hstep
    rcases sysCapRevoke_cases S.kernel S.table targetPid cap with
      ⟨rc, hrc, heq⟩ | ⟨i, caps, -, hvalid, heq⟩
    · simp only [heq, if_neg hrc]
      exact h
    have hf := capRevoke_follows S.table cap
    simp only [heq]
    refine ⟨h.owned.setCaps i caps, h.made.follows hf, fun x hx => ?_⟩
    split_ifs at hx
    · rcases List.mem_cons.mp hx with rfl | hold
      · exact h.made.revoke hvalid
      · exact (h.dead x hold).follows hf
    · exact (h.dead x hx).follows hf
  | create ownerTid targetTid rights =>
    cases hstep
    have hf := capCreate_follows S.table ownerTid targetTid rights
    exact ⟨h.owned, h.made.follows hf, fun x hx => (h.dead x hx).follows hf⟩
  | delegate cap targetTid rights =>
    cases hstep
    have hf := capDelegate_follows S.table cap targetTid rights
    exact ⟨h.owned, h.made.follows hf, fun x hx => (h.dead x hx).follows hf⟩

theorem CapInv.confined (h : CapInv S) : Confined S := by
  refine ⟨fun e S' hstep i cap hcap hnew pid hpid hcalled => ?_, fun cap hcap => ?_⟩
  · cases e with
    | process e =>
      obtain ⟨k, hk, rfl⟩ := map_eq_some_iff.mp hstep
      exact absurd ((step_caps hk).mem hcap) hnew
    | grant targetPid capToken =>
      cases hstep
      obtain ⟨rfl, hmay⟩ := sysCapGrant_caps hcap hnew
      rw [← h.owned.calledIn hcalled] at hpid ⊢
      exact holds_of_mayManage hpid hmay
    | revoke targetPid capToken =>
      cases hstep
      exact absurd (sysCapRevoke_caps hcap) hnew
    | create | delegate =>
      cases hstep
      exact absurd hcap hnew
  · have hinvalid := (h.dead cap hcap).1
    refine ⟨hinvalid, fun targetPid => ?_⟩
    unfold sysCapGrant
    split_ifs <;> exact (by decide : aegisEinval ≠ aegisOk)

/-- From the booted kernel, in every run of capability calls and of the process layer in which no
task is made at an address that a process in use still records. -/
theorem capabilities_confined (k : State) (hboot : Booted k) (es : List CapEvent) (S : CapKernel)
    (hrun : Run capStep NoStaleCaller ⟨k, .init, []⟩ es S) : Confined S := by
  have hstart : CapInv ⟨k, .init, []⟩ := ⟨hboot.tasksOwned, made_init, nofun⟩
  exact (hrun.invariant (I := CapInv) (fun _ _ _ h hok hstep => h.step hok hstep) hstart).confined

/-- The kernel gives a process a token, the process hands it on, and it is revoked. -/
theorem token_handed_on : ∃ S, S.revoked = [1] ∧ Confined S := by
  obtain ⟨S, hrun, hend⟩ : ∃ S, Run capStep NoStaleCaller ⟨booted, .init, []⟩
      [.process (.spawnUserImage (cstr "a") someImage 1 0),
        .process (.spawnUserImage (cstr "b") someImage 2 1), .create 0 0 7, .grant 1 1,
        .process .schedulerRun, .grant 2 1, .delegate 1 0 3, .revoke 2 1, .grant 2 1,
        .process (.kill 2 9), .process (.wait 2)] S ∧ S.revoked = [1] :=
    Run.exists_of_execute (by decide +kernel)
  exact ⟨S, hend, capabilities_confined booted booted_booted _ S hrun⟩

/-- The task of a killed process is freed and its address given to the next one, which then passes
for the dead one and grants itself a token. -/
theorem token_of_the_dead_taken : ∃ S S', Run capStep anyEvent ⟨booted, .init, []⟩
        [.process (.spawnUserImage (cstr "a") someImage 1 0), .create 0 0 7, .grant 1 1,
          .process (.kill 1 9), .process (.spawnUserImage (cstr "b") someImage 2 0),
          .process .schedulerRun] S ∧
      CalledIn S.kernel 2 ∧ ¬Holds S.kernel 2 1 ∧
      capStep S (.grant 2 1) = some S' ∧ Holds S'.kernel 2 1 := by
  simp only [exists_and_left]
  exact Run.exists_of_execute (by decide +kernel)

end AegisOS.Kernel
