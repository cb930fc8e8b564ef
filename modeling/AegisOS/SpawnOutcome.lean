import AegisOS.ElfAccess
import AegisOS.Syscall

/-! The outcomes of `sys_spawn` one by one: refused before anything is loaded, not loaded,
loaded without a child, and made and then published step by step. -/
namespace AegisOS.Kernel
open CString ServiceSupervisor Scheduler KeyedList Function Userland ElfLoader List Nat

/-! The checks before loading. -/

/-- The child would be a restart of a service the supervisor knows. -/
def isRestart (s : Supervisor) (f : Feature) : Bool := f.serviceId ≠ 0 && (find s f.name.str).isSome

/-- What `service_supervisor_restart_allowed` asks for. -/
structure MayRestart (s : Supervisor) (v : Service) (now : UInt64) : Prop where
  inProgress : s.shutdownInProgress = false
  requested : v.shutdownRequested = false
  state : v.state ≠ .stopped
  limit : v.maxRestarts = 0 ∨ v.consecutiveFailures ≤ v.maxRestarts
  backoff : v.nextRestartTick ≤ now

theorem restartAllowed_cases (s : Supervisor) (name : CStr) (now : UInt64) :
    (∃ n rc, rc < 0 ∧ restartAllowed s name now = ({ s with restartThrottledCount := n }, rc)) ∨
    ∃ v, find s name = some v ∧ restartAllowed s name now = (s, aegisOk) ∧ MayRestart s v now := by
  unfold restartAllowed
  cases find s name with
  | none => exact .inl ⟨s.restartThrottledCount, aegisEnoent, by decide, rfl⟩
  | some v =>
    dsimp only
    split
    · exact .inl ⟨s.restartThrottledCount, aegisEshutdown, by decide, rfl⟩
    rename_i hshutdown
    split
    · exact .inl ⟨s.restartThrottledCount, aegisEperm, by decide, rfl⟩
    split
    · exact .inl ⟨s.restartThrottledCount, aegisEperm, by decide, rfl⟩
    rename_i hlimit
    split
    · exact .inl ⟨_, aegisEagain, by decide, rfl⟩
    rename_i hnow
    rw [Bool.or_eq_true, not_or, Bool.not_eq_true, Bool.not_eq_true] at hshutdown
    rw [not_or, not_and_or, not_not, UInt32.not_lt] at hlimit
    exact .inr ⟨v, rfl, rfl, hshutdown.1, hshutdown.2, hlimit.1, hlimit.2, UInt64.not_lt.mp hnow⟩

/-- The checks of `sys_spawn` before the image is loaded. -/
structure Cleared (k : State) (path : CStr) (now : UInt64) (f : Feature) : Prop where
  found : findFeatureByPath k.userland path = some f
  process : f.flags &&& flagProcess ≠ 0
  idle : f.livePid = 0
  allowed : isRestart k.supervisor f = true →
    ∃ v, find k.supervisor f.name.str = some v ∧ MayRestart k.supervisor v now ∧
      restartAllowed k.supervisor f.name.str now = (k.supervisor, aegisOk)

theorem sysSpawn_cases (k : State) (path : Option (CArray 128)) (file : Option FileRead)
    (now later : UInt64) :
    (∃ n rc, rc < 0 ∧ sysSpawn k path file now later =
      ({ k with supervisor := { k.supervisor with restartThrottledCount := n } }, rc)) ∨
    ∃ p f, path = some p ∧ Cleared k p.str now f ∧
      sysSpawn k path file now later = loadAndSpawn k f p.str file (isRestart k.supervisor f) later := by
  unfold sysSpawn
  cases path with
  | none => exact .inl ⟨k.supervisor.restartThrottledCount, aegisEinval, by decide, rfl⟩
  | some p =>
    dsimp only
    cases hfound : findFeatureByPath k.userland p.str with
    | none => exact .inl ⟨k.supervisor.restartThrottledCount, aegisEnoent, by decide, rfl⟩
    | some f =>
      dsimp only
      split
      · exact .inl ⟨k.supervisor.restartThrottledCount, aegisEnoent, by decide, rfl⟩
      rename_i hflags
      split
      · exact .inl ⟨k.supervisor.restartThrottledCount, aegisEbusy, by decide, rfl⟩
      rename_i hidle
      split
      next hrestart =>
        have hr : isRestart k.supervisor f = true := by simpa [isRestart] using hrestart
        rcases restartAllowed_cases k.supervisor f.name.str now with
          ⟨n, rc, hrc, heq⟩ | ⟨v, hv, heq, hmay⟩
        · rw [heq, if_pos (by simp [aegisOk]; omega)]
          exact .inl ⟨n, rc, hrc, rfl⟩
        rw [heq, if_neg (by simp)]
        refine .inr ⟨p, f, rfl, ⟨hfound, hflags, not_not.mp hidle, fun _ => ⟨v, hv, hmay, heq⟩⟩, ?_⟩
        rw [hr]
      next hrestart =>
        have hr : isRestart k.supervisor f = false := by simpa [isRestart] using hrestart
        refine .inr ⟨p, f, rfl, ⟨hfound, hflags, not_not.mp hidle, fun h => by simp [hr] at h⟩, ?_⟩
        rw [hr]

theorem Cleared.sysSpawn {k : State} {p : CArray 128} {now : UInt64} {f : Feature}
    (h : Cleared k p.str now f) (file : Option FileRead) (later : UInt64) :
    sysSpawn k (some p) file now later = loadAndSpawn k f p.str file (isRestart k.supervisor f) later := by
  unfold Kernel.sysSpawn
  dsimp only
  rw [h.found]
  dsimp only
  rw [if_neg h.process, if_neg (not_not.mpr h.idle)]
  split
  next hrestart =>
    have hr : isRestart k.supervisor f = true := by simpa [isRestart] using hrestart
    obtain ⟨v, -, -, heq⟩ := h.allowed hr
    rw [heq, if_neg (by simp), hr]
  next hrestart =>
    have hr : isRestart k.supervisor f = false := by simpa [isRestart] using hrestart
    rw [hr]

/-! Making the child. -/

def TaskFits (h : List Heap.Block) : Prop :=
  ∃ got ∈ Heap.kmalloc h taskSize, (Heap.kmalloc got.1 taskStackSize).isSome

theorem taskCreate_isSome (c : Core) (resume : Resume) (priority : Nat) (owner : Option Nat) :
    (taskCreate c resume priority owner).2.isSome = true ↔ TaskFits c.heap := by
  unfold taskCreate Core.alloc TaskFits
  cases Heap.kmalloc c.heap taskSize with
  | none => simp
  | some got =>
    cases hstack : Heap.kmalloc got.1 taskStackSize with
    | none | some => simp [hstack]

theorem procFindSlot_isSome (k : State) : (procFindSlot k).isSome = true ↔ ∃ i, ¬(k.procs i).Live := by
  unfold procFindSlot
  simp

structure ChildFits (k : State) (m : Image) (slot : UInt32) : Prop where
  complete : m.complete = true
  slot : slot ≠ 0
  entry : ∃ i, ¬(k.procs i).Live
  task : TaskFits k.core.heap

structure Made (k : State) (name : CStr) (m : Image) (slot ppid : UInt32) (i : Fin 256)
    (k' : State) : Prop where
  fits : ChildFits k m slot
  free : ¬(k.procs i).Live
  state : ∃ core t, k' = { k.countBirth with core := core }.setProc i
    { userRecord k name m slot ppid with task := some t }

section
variable {k k' : State} {name : CStr} {m : Image} {slot ppid : UInt32} {i j : Fin 256}

section
variable (h : Made k name m slot ppid i k')
include h

theorem Made.child : ∃ t, k'.procs i = { userRecord k name m slot ppid with task := some t } := by
  obtain ⟨core, t, rfl⟩ := h.state
  exact ⟨t, setProc_self _ _ _⟩

theorem Made.live : (k'.procs i).Live := by
  obtain ⟨t, heq⟩ := h.child
  rw [heq]
  simp [Process.Live, userRecord, processInitialRecord]

theorem Made.pid : (k'.procs i).pid = k.nextPid := by
  obtain ⟨t, heq⟩ := h.child
  rw [heq]
  rfl

theorem Made.runtimeSlot : (k'.procs i).runtimeSlot = slot := by
  obtain ⟨t, heq⟩ := h.child
  rw [heq]
  rfl

theorem Made.image : (k'.procs i).image = m := by
  obtain ⟨t, heq⟩ := h.child
  rw [heq]
  rfl

end

theorem Made.childName {label : CArray 32} (h : Made k label.str m slot ppid i k') :
    (k'.procs i).name = label := by
  obtain ⟨t, heq⟩ := h.child
  rw [heq]
  exact strcopy_str label

variable (h : Made k name m slot ppid i k')
include h

theorem Made.others (hji : j ≠ i) : k'.procs j = k.procs j := by
  obtain ⟨core, t, rfl⟩ := h.state
  exact setProc_of_ne _ _ hji

theorem Made.old (hj : (k.procs j).Live) : j ≠ i ∧ k'.procs j = k.procs j :=
  have hne : j ≠ i := fun heq => h.free (heq ▸ hj)
  ⟨hne, h.others hne⟩

theorem Made.runtime : k'.runtime = k.runtime := by
  obtain ⟨core, t, rfl⟩ := h.state
  rfl

theorem Made.userland : k'.userland = k.userland := by
  obtain ⟨core, t, rfl⟩ := h.state
  rfl

theorem Made.vacant (hvacant : ∀ j, ¬(k.procs j).Live → (k.procs j).task = none)
    (hj : ¬(k'.procs j).Live) : (k'.procs j).task = none := by
  have hne : j ≠ i := fun heq => hj (heq ▸ h.live)
  rw [h.others hne] at hj ⊢
  exact hvacant j hj

end

structure Unmade (k k' : State) : Prop where
  live : ∀ i, (k.procs i).Live → k'.procs i = k.procs i
  free : ∀ i, ¬(k.procs i).Live → ¬(k'.procs i).Live
  vacant : (∀ i, ¬(k.procs i).Live → (k.procs i).task = none) →
    ∀ i, ¬(k'.procs i).Live → (k'.procs i).task = none
  runtime : k'.runtime = k.runtime
  userland : k'.userland = k.userland
  supervisor : k'.supervisor = k.supervisor

theorem Unmade.refl (k : State) : Unmade k k := ⟨fun _ _ => rfl, fun _ h => h, fun h => h, rfl, rfl, rfl⟩

theorem processZero_not_live : ¬processZero.Live := by simp [processZero, Process.Live]

theorem unmade_clear {k k' : State} {i : Fin 256} (hfree : ¬(k.procs i).Live)
    (hprocs : k'.procs = update k.procs i processZero) (hruntime : k'.runtime = k.runtime)
    (huserland : k'.userland = k.userland) (hsupervisor : k'.supervisor = k.supervisor) :
    Unmade k k' := by
  refine ⟨fun j hj => ?_, fun j hj => ?_, fun hvacant j hj => ?_, hruntime, huserland, hsupervisor⟩
  · rw [hprocs, update_of_ne fun hji : j = i => hfree (hji ▸ hj)]
  · by_cases hji : j = i
    · rw [hprocs, hji, update_self]
      exact processZero_not_live
    · rwa [hprocs, update_of_ne hji]
  · by_cases hji : j = i
    · rw [hprocs, hji, update_self]
      rfl
    · rw [hprocs, update_of_ne hji] at hj ⊢
      exact hvacant j hj

theorem processSpawn_outcome (k : State) (name : CStr) (m : Image) (slot ppid : UInt32) :
    (∃ k', ¬ChildFits k m slot ∧ processSpawnUserImage k name m slot ppid = (k', none) ∧ Unmade k k') ∨
    ∃ i k', processSpawnUserImage k name m slot ppid = (k', some i) ∧ Made k name m slot ppid i k' := by
  unfold processSpawnUserImage
  split
  next hbad =>
    refine .inl ⟨k, fun hfits => ?_, rfl, .refl k⟩
    rcases hbad with hbad | hbad
    · simp [hfits.complete] at hbad
    · exact hfits.slot hbad
  rename_i hgood
  rw [not_or, Bool.not_eq_false] at hgood
  cases hslot : procFindSlot k with
  | none =>
    refine .inl ⟨k, fun hfits => ?_, rfl, .refl k⟩
    have := (procFindSlot_isSome k).mpr hfits.entry
    simp [hslot] at this
  | some i =>
    have hfree := procFindSlot_free hslot
    have htask := taskCreate_isSome k.core .userEntry 25 (some (userRecord k name m slot ppid).born)
    unfold State.attachTask
    rw [show k.countBirth.core = k.core from rfl]
    cases hcreate : taskCreate k.core .userEntry 25 (some (userRecord k name m slot ppid).born) with
    | mk core made =>
      rw [hcreate] at htask
      cases made with
      | none =>
        refine .inl ⟨_, fun hfits => ?_, rfl, unmade_clear hfree rfl rfl rfl rfl⟩
        cases htask.mpr hfits.task
      | some t =>
        exact .inr ⟨i, _, rfl, ⟨hgood.1, hgood.2, ⟨i, hfree⟩, htask.mp rfl⟩, hfree, core, t, rfl⟩

/-! Publishing the child. -/

/-- A feature and a process descriptor are there to record the child. -/
def CanNote (u : Catalogue) (name path : CStr) (pid : UInt32) : Prop :=
  ∃ n f, findFeature u name = some n ∧ u.features[n]? = some f ∧ f.imagePath.str = path ∧
    (f.livePid = 0 ∨ f.livePid = pid) ∧
    (u.processes.length < userlandProcessMax ∨ ∃ p ∈ u.processes, p.id = pid ∨ p.name.str = name)

/-- The supervisor has an entry for the name, or room for one. -/
def CanRegister (s : Supervisor) (name : CStr) : Prop :=
  s.initialised = true ∧ name.bytes ≠ [] ∧
    ((findMut s name).isSome = true ∨ s.services.length < supervisorServiceMax)

theorem noteNativeProcessSpawn_outcome (u : Catalogue) (name path : CStr) (pid : UInt32)
    {m : Image} (hm : m.complete = true) :
    ((noteNativeProcessSpawn u name path pid m).2 = aegisOk ∧ pid ≠ 0 ∧ CanNote u name path pid) ∨
      (noteNativeProcessSpawn u name path pid m).2 < 0 ∧ ¬(pid ≠ 0 ∧ CanNote u name path pid) := by
  unfold noteNativeProcessSpawn
  split
  next hbad =>
    refine .inr ⟨einval_neg, fun h => ?_⟩
    rcases hbad with hbad | hbad
    · exact h.1 hbad
    · simp [hm] at hbad
  rename_i hgood
  rw [not_or] at hgood
  cases hfind : findFeature u name with
  | none => exact .inr ⟨enoent_neg, fun ⟨_, n, f, hn, _⟩ => by simp [hfind] at hn⟩
  | some n =>
    dsimp only
    cases hf : u.features[n]? with
    | none =>
      refine .inr ⟨enoent_neg, fun ⟨_, n', f, hn, hf', _⟩ => ?_⟩
      rw [hfind] at hn
      cases hn
      simp [hf] at hf'
    | some f =>
      have hwhen : CanNote u name path pid ↔ f.imagePath.str = path ∧
          (f.livePid = 0 ∨ f.livePid = pid) ∧
          (u.processes.length < userlandProcessMax ∨
            ∃ p ∈ u.processes, p.id = pid ∨ p.name.str = name) := by
        simp [CanNote, hfind, hf]
      rw [hwhen]
      dsimp only
      split
      next hpath => exact .inr ⟨enoent_neg, fun h => hpath h.2.1⟩
      rename_i hpath
      split
      next hlive => exact .inr ⟨ebusy_neg, fun h => h.2.2.1.elim hlive.1 hlive.2⟩
      rename_i hlive
      have hfree : f.livePid = 0 ∨ f.livePid = pid := by
        rw [not_and_or, not_not, not_not] at hlive
        exact hlive
      cases hd : (u.modify n fun f => { f with livePid := pid }).processes.findIdx?
          fun p => p.id == pid || p.name.str = name with
      | some d =>
        obtain ⟨p, hp, hpid⟩ : ∃ p ∈ u.processes, p.id = pid ∨ p.name.str = name := by
          obtain ⟨hlt, hd', -⟩ := findIdx?_eq_some_iff_getElem.mp hd
          exact ⟨_, getElem_mem hlt, by simpa using hd'⟩
        exact .inl ⟨rfl, hgood.1, not_not.mp hpath, hfree, .inr ⟨p, hp, hpid⟩⟩
      | none =>
        have hnone : ¬∃ p ∈ u.processes, p.id = pid ∨ p.name.str = name := by
          rintro ⟨p, hp, hpid⟩
          have := findIdx?_eq_none_iff.mp hd p hp
          simp only [Bool.or_eq_false_iff, beq_eq_false_iff_ne, decide_eq_false_iff_not] at this
          exact hpid.elim this.1 this.2
        dsimp only
        split
        next hfull => exact .inr ⟨enomem_neg, fun h => h.2.2.2.elim (not_lt.mpr hfull) hnone⟩
        next hroom => exact .inl ⟨rfl, hgood.1, not_not.mp hpath, hfree, .inl (not_le.mp hroom)⟩

theorem nativeRegisterStarting_outcome (s : Supervisor) (name : CStr) (serviceId policy : UInt32)
    {pid : UInt32} (hpid : pid ≠ 0) :
    ((nativeRegisterStarting s name serviceId pid policy).2 = aegisOk ∧ CanRegister s name) ∨
      (nativeRegisterStarting s name serviceId pid policy).2 < 0 ∧ ¬CanRegister s name := by
  unfold nativeRegisterStarting
  split
  next hbad =>
    refine .inr ⟨einval_neg, fun ⟨hinit, hname, _⟩ => ?_⟩
    simp [hinit, hname, hpid] at hbad
  rename_i hgood
  rw [not_or, not_or, Bool.not_eq_false] at hgood
  cases hfind : findMut s name with
  | some n => exact .inl ⟨rfl, hgood.1, hgood.2.1, .inl (by simp [hfind])⟩
  | none =>
    dsimp only
    split
    next hfull =>
      refine .inr ⟨enomem_neg, fun ⟨_, _, h⟩ => ?_⟩
      rcases h with h | h
      · simp [hfind] at h
      · exact not_lt.mpr hfull h
    next hroom => exact .inl ⟨rfl, hgood.1, hgood.2.1, .inr (not_le.mp hroom)⟩

theorem noteRestart_registered {s : Supervisor} {name : CStr} {v : Service} {now : UInt64}
    (hv : find s name = some v) (hmay : MayRestart s v now) {pid : UInt32} (hpid : pid ≠ 0)
    (serviceId policy : UInt32) (later : UInt64) :
    (noteRestart (nativeRegisterStarting s name serviceId pid policy).1 name pid later).2 = aegisOk := by
  obtain ⟨n, hfind, hn⟩ := find_findMut s hv
  have hkept : ∀ t, t.shutdownInProgress = s.shutdownInProgress → findMut t name = some n →
      (∃ w, t.services[n]? = some w ∧ w.shutdownRequested = v.shutdownRequested) →
      (noteRestart t name pid later).2 = aegisOk := by
    rintro t hprogress hfind' ⟨w, hw, hreq⟩
    unfold noteRestart
    rw [hfind']
    dsimp only
    rw [if_neg hpid, if_neg (by simp [hprogress, hmay.inProgress, hw, hreq, hmay.requested])]
  unfold nativeRegisterStarting
  split
  · exact hkept s rfl hfind ⟨v, hn, rfl⟩
  rw [hfind]
  have hcalled : called name v = true := (find?_eq_some_iff_append.mp hv).1
  refine hkept _ rfl (Eq.trans (findIdx?_modify fun a ha => ?_) hfind)
    ⟨_, (getElem?_modify_eq _ _ _).trans (congrArg (Option.map _) hn), rfl⟩
  rw [hn] at ha
  cases ha
  rw [hcalled]
  simp only [called, Bool.and_eq_true] at hcalled ⊢
  refine ⟨?_, hcalled.2⟩
  split <;> simp

theorem publishSpawn_outcome {k : State} {f : Feature} {path : CStr} {pid : UInt32}
    {m : Image} {now : UInt64} (later : UInt64) (hm : m.complete = true)
    (hallowed : isRestart k.supervisor f = true →
      ∃ v, find k.supervisor f.name.str = some v ∧ MayRestart k.supervisor v now) :
    (0 ≤ (publishSpawn k f path pid m (isRestart k.supervisor f) later).2 ∧ pid ≠ 0 ∧
        CanNote k.userland f.name.str path pid ∧
        (f.serviceId ≠ 0 → CanRegister k.supervisor f.name.str)) ∨
      (publishSpawn k f path pid m (isRestart k.supervisor f) later).2 < 0 ∧
        ¬(pid ≠ 0 ∧ CanNote k.userland f.name.str path pid ∧
          (f.serviceId ≠ 0 → CanRegister k.supervisor f.name.str)) := by
  unfold publishSpawn
  rcases noteNativeProcessSpawn_outcome k.userland f.name.str path pid hm with ⟨hnote, hpid, hcan⟩ | ⟨hnote, hcannot⟩
  · rw [if_neg (not_not.mpr hnote)]
    split
    next hid => exact .inl ⟨Int.natCast_nonneg _, hpid, hcan, fun h => absurd hid h⟩
    rename_i hid
    unfold superviseSpawn
    dsimp only
    rcases nativeRegisterStarting_outcome k.supervisor f.name.str f.serviceId
      (spawnPolicy f.name.str) hpid with ⟨hreg, hcanreg⟩ | ⟨hreg, hcannot⟩
    · rw [if_neg (not_not.mpr hreg)]
      refine .inl ⟨?_, hpid, hcan, fun _ => hcanreg⟩
      split
      next hrestart =>
        obtain ⟨v, hv, hmay⟩ := hallowed hrestart
        rw [if_neg (not_not.mpr (noteRestart_registered hv hmay hpid _ _ _))]
        exact Int.natCast_nonneg _
      · exact Int.natCast_nonneg _
    · rw [if_pos (by simp only [aegisOk]; omega)]
      exact .inr ⟨hreg, fun h => hcannot (h.2.2 hid)⟩
  · rw [if_pos (by simp only [aegisOk]; omega)]
    exact .inr ⟨hnote, fun h => hcannot ⟨h.1, h.2.1⟩⟩

theorem publishSpawn_quiet (k : State) (f : Feature) (path : CStr) (pid : UInt32)
    (m : Image) (restart : Bool) (now : UInt64) :
    Quiet { k with
      userland := (noteNativeProcessSpawn k.userland f.name.str path pid m).1 }
      (publishSpawn k f path pid m restart now).1 := by
  obtain ⟨k1, s, -, rfl, heq | heq⟩ := publishSpawn_cases k f path pid m restart now <;> rw [heq]
  · exact quiet_supervisor _ s
  · exact (quiet_supervisor _ s).trans (processKill_quiet _ pid 9)

/-! Loading and making together. -/

def State.fill (k : State) (i : Fin 16) (slot : RuntimeSlot) : State :=
  { k with runtime := k.runtime.set i slot }

inductive LoadOutcome (k : State) (f : Feature) (path : CStr)
    (file : Option FileRead) (restart : Bool) (now : UInt64) : State × Int → Prop
  | unloaded (r : Runtime) (rc : Int) : elfLoaderLoadVfsPath k.runtime file path = (r, .error rc) →
      PoolKept k.runtime r → LoadOutcome k f path file restart now ({ k with runtime := r }, rc)
  | unmade (g : FileRead) (i : Fin 16) (out : Loaded) (k' : State) : file = some g →
      elfLoaderLoadVfsPath k.runtime file path = (k.runtime.set i out.slot, .ok out.info) →
      Occupies k.runtime g path i out →
      ¬ChildFits k (imageOf out.info) (slotId i) → Unmade (k.fill i out.slot) k' →
      LoadOutcome k f path file restart now
        ({ k' with runtime := (elfLoaderReleaseRuntimeSlot k'.runtime (slotId i)).1 }, aegisEnomem)
  | made (g : FileRead) (i : Fin 16) (out : Loaded) (j : Fin 256) (k' : State) : file = some g →
      elfLoaderLoadVfsPath k.runtime file path = (k.runtime.set i out.slot, .ok out.info) →
      Occupies k.runtime g path i out →
      Made (k.fill i out.slot) f.name.str (imageOf out.info) (slotId i)
        (processGetpid (k.fill i out.slot)) j k' →
      LoadOutcome k f path file restart now
        (publishSpawn k' f path k.nextPid (imageOf out.info) restart now)

theorem loadAndSpawn_outcome (k : State) (f : Feature) (path : CStr)
    (file : Option FileRead) (restart : Bool) (now : UInt64) :
    LoadOutcome k f path file restart now (loadAndSpawn k f path file restart now) := by
  unfold loadAndSpawn
  rcases elfLoaderLoadVfsPath_cases k.runtime file path with
    ⟨r, rc, hload, hkept⟩ | ⟨g, i, out, hfile, hload, hocc⟩ <;> rw [hload]
  · exact .unloaded r rc hload hkept
  dsimp only
  rw [hocc.slotId]
  rcases processSpawn_outcome (k.fill i out.slot) f.name.str (imageOf out.info) (slotId i)
    (processGetpid (k.fill i out.slot)) with ⟨k', hnot, hspawn, hun⟩ | ⟨j, k', hspawn, hmade⟩
  · rw [State.fill] at hspawn
    rw [hspawn]
    exact .unmade g i out k' hfile hload hocc
      (fun h => hnot ⟨h.complete, h.slot, h.entry, h.task⟩) hun
  have hpid : (k'.procs j).pid = k.nextPid := hmade.pid
  rw [State.fill] at hspawn
  rw [hspawn]
  dsimp only
  rw [hpid]
  exact .made g i out j k' hfile hload hocc hmade

/-! Exactly when a failed `sys_spawn` leaves the tables as they were. -/

/-- No new entry, and the same used slots, live pids, and pids and states of services. -/
structure Untouched (k k' : State) : Prop where
  entries : ∀ i, (k'.procs i).Live → (k.procs i).Live
  slots : ∀ i, (k'.runtime.slots i).used = (k.runtime.slots i).used
  features : k'.userland.features.map Feature.livePid = k.userland.features.map Feature.livePid
  services : k'.supervisor.services.map (fun v => (v.pid, v.state)) =
    k.supervisor.services.map fun v => (v.pid, v.state)

/-- The child can be recorded everywhere, under the pid it will get. -/
def ChildRecorded (k : State) (f : Feature) (path : CStr) : Prop :=
  k.nextPid ≠ 0 ∧ CanNote k.userland f.name.str path k.nextPid ∧
    (f.serviceId ≠ 0 → CanRegister k.supervisor f.name.str)

/-- Once the image is loaded, a child that fits can also be recorded, and a slot without
a child can be given back. -/
def SpawnCompletes (k : State) (path : CArray 128) (file : Option FileRead) (now : UInt64) : Prop :=
  ∀ f r info, Cleared k path.str now f →
    elfLoaderLoadVfsPath k.runtime file path.str = (r, .ok info) →
    (ChildFits k (imageOf info) info.runtimeSlot.toUInt32 → ChildRecorded k f path.str) ∧
      (¬ChildFits k (imageOf info) info.runtimeSlot.toUInt32 →
        info.runtimeSlot.toUInt32 ≠ k.runtime.builtinRuntimeSlot)

variable {k : State} {f : Feature} {path : CStr} {now later : UInt64} {p : CArray 128}
  {file : Option FileRead} {result : State × Int}

theorem Made.publish {k' : State}
    {i : Fin 16} {slot : RuntimeSlot} {m : Image} {id ppid : UInt32} {j : Fin 256}
    (h : Made (k.fill i slot) f.name.str m id ppid j k') (hc : Cleared k path now f) (later : UInt64) :
    (0 ≤ (publishSpawn k' f path k.nextPid m (isRestart k.supervisor f) later).2 ∧
        ChildRecorded k f path) ∨
      (publishSpawn k' f path k.nextPid m (isRestart k.supervisor f) later).2 < 0 ∧
        ¬ChildRecorded k f path := by
  have hm := h.fits.complete
  obtain ⟨core, t, rfl⟩ := h.state
  have hallowed : isRestart k.supervisor f = true →
      ∃ v, find k.supervisor f.name.str = some v ∧ MayRestart k.supervisor v now := by
    intro hrestart
    obtain ⟨v, hv, hmay, -⟩ := hc.allowed hrestart
    exact ⟨v, hv, hmay⟩
  exact publishSpawn_outcome later hm hallowed

theorem Cleared.unique {g : Feature}
    (hf : Cleared k path now f) (hg : Cleared k path now g) : f = g :=
  Option.some.inj (hf.found.symm.trans hg.found)

theorem untouched_of_completes (hc : Cleared k p.str now f) (hcond : SpawnCompletes k p file now)
    (hout : LoadOutcome k f p.str file (isRestart k.supervisor f) later result) (hneg : result.2 < 0) :
    Untouched k result.1 := by
  cases hout with
  | unloaded r rc hload hkept => exact ⟨fun _ h => h, hkept.used, rfl, rfl⟩
  | unmade g i out k' hfile hload hocc hnot hun =>
    have hbuiltin := (hcond f _ _ hc hload).2
    rw [hocc.slotId] at hbuiltin
    refine ⟨fun j hj => ?_, fun j => ?_, by rw [hun.userland]; rfl, by rw [hun.supervisor]; rfl⟩
    · by_contra hdead
      exact hun.free j hdead hj
    rw [hun.runtime, State.fill, hocc.release, if_neg (hbuiltin hnot)]
    by_cases hji : j = i
    · rw [hji, set_self, hocc.free]
      rfl
    · rw [set_of_ne _ _ hji]
  | made g i out j k' hfile hload hocc hmade =>
    have hrecorded := (hcond f _ _ hc hload).1
    rw [hocc.slotId] at hrecorded
    have hfits := hmade.fits
    rcases hmade.publish hc later with ⟨hpos, -⟩ | ⟨-, hno⟩
    · exact absurd hneg (Int.not_lt.mpr hpos)
    · exact absurd (hrecorded ⟨hfits.complete, hfits.slot, hfits.entry, hfits.task⟩) hno

theorem completes_of_untouched (hc : Cleared k p.str now f)
    (hout : LoadOutcome k f p.str file (isRestart k.supervisor f) later result)
    (huntouched : result.2 < 0 → Untouched k result.1) : SpawnCompletes k p file now := by
  intro g r info hg hload
  obtain rfl := hc.unique hg
  cases hout with
  | unloaded r rc hload' =>
    rw [hload'] at hload
    cases hload
  | unmade file i out k' hfile hload' hocc hnot hun =>
    rw [hload'] at hload
    cases hload
    rw [hocc.slotId]
    refine ⟨fun hfits => absurd hfits hnot, fun _ hbuiltin => ?_⟩
    -- the refused release leaves the slot in use
    have hslot := (huntouched enomem_neg).slots i
    rw [hun.runtime, State.fill, hocc.release, if_pos hbuiltin, set_self, hocc.used,
      hocc.free] at hslot
    cases hslot
  | made file i out j k' hfile hload' hocc hmade =>
    rw [hload'] at hload
    cases hload
    rw [hocc.slotId]
    have hfits := hmade.fits
    refine ⟨fun _ => ?_, fun h => absurd ⟨hfits.complete, hfits.slot, hfits.entry, hfits.task⟩ h⟩
    rcases hmade.publish hc later with ⟨-, hrecorded⟩ | ⟨hneg, -⟩
    · exact hrecorded
    -- the child stays in the table, killed or not
    have hkept := (publishSpawn_quiet k' f p.str k.nextPid (imageOf out.info)
      (isRestart k.supervisor f) later).kept j
    exact absurd ((huntouched hneg).entries j (hkept.live.mpr hmade.live)) hmade.free

/-- A failing spawn leaves no trace exactly when the steps behind the loaded image cannot
fail half way. -/
theorem failed_spawn_leaves_no_trace_iff (k : State) (path : Option (CArray 128))
    (file : Option FileRead) (now later : UInt64) :
    ((sysSpawn k path file now later).2 < 0 → Untouched k (sysSpawn k path file now later).1) ↔
      ∀ p, path = some p → SpawnCompletes k p file now := by
  constructor
  · rintro h p rfl f r info hc
    rw [hc.sysSpawn] at h
    exact completes_of_untouched hc (loadAndSpawn_outcome k f p.str file _ later) h f r info hc
  intro hcond hneg
  rcases sysSpawn_cases k path file now later with ⟨n, rc, -, heq⟩ | ⟨p, f, rfl, hc, heq⟩
  · rw [heq]
    exact ⟨fun _ h => h, fun _ => rfl, rfl, rfl⟩
  · rw [heq] at hneg ⊢
    exact untouched_of_completes hc (hcond p rfl) (loadAndSpawn_outcome k f p.str file _ later) hneg

def preparedDescriptor (id : UInt32) : Descriptor :=
  ⟨id, 0, 0, strcopy .empty, strcopy .empty, .prepared, 0, ⟨0, 0⟩, ⟨0, 0⟩⟩

/-- The daemon's feature, with every process descriptor taken. -/
def descriptorsTaken : State :=
  { withDaemon with
    userland := ⟨withDaemon.userland.features,
      (List.range 8).map fun n => preparedDescriptor (n + 100).toUInt32⟩ }

/-- Without a free descriptor the spawn fails, and leaves a dead child, its slot and the
live pid of its feature behind. -/
theorem failed_spawn_leaves_child :
    (sysSpawn descriptorsTaken (some (strcopy (cstr "/sbin/aegisd")))
      (some ⟨plainImage, 120⟩) 0 0).2 < 0 ∧
    ¬Untouched descriptorsTaken (sysSpawn descriptorsTaken (some (strcopy (cstr "/sbin/aegisd")))
      (some ⟨plainImage, 120⟩) 0 0).1 := by
  constructor
  · decide +kernel
  intro h
  have hlive : ((sysSpawn descriptorsTaken (some (strcopy (cstr "/sbin/aegisd")))
      (some ⟨plainImage, 120⟩) 0 0).1.procs 0).Live := by decide +kernel
  exact absurd (h.entries 0 hlive) (by decide +kernel)

/-! The launch of the first process (`aegisbox_init_launch_native_pid1_or_panic` in
`kernel/core/kernel_main.c`), up to its self tests: the catalogue is prepared, `aegis-init`
is loaded into the built-in slot and becomes the process of the running task. -/

def aegisInit : CStr := cstr "aegis-init"
def aegisInitPath : CStr := cstr "/sbin/aegis-init"

/-- Binding pid 1 to the loaded image; the console task follows. -/
def bindPid1 (k : State) (info : ImageInfo) : Option State :=
  match processBindCurrentUserImage k aegisInit (imageOf info) info.runtimeSlot.toUInt32 0 with
  | (_, none) => none
  | (k, some _) =>
    let noted := noteNativeProcessSpawn k.userland aegisInit aegisInitPath 1 (imageOf info)
    if processGetpid k ≠ 1 ∨ noted.2 ≠ aegisOk then none
    else
      match taskCreate k.core .kernelEntry 50 none with
      | (_, none) => none
      | (core, some _) => some { k with userland := noted.1, core := core }

/-- `none` is a panic; `prepared` gives the id of each prepared service. -/
def launchNativePid1 (k : State) (prepared : CStr → Option UInt32)
    (file : Option FileRead) : Option State :=
  match prepareUserland prepared with
  | none => none
  | some u =>
    match elfLoaderLoadVfsAegisInit (elfLoaderInit k.runtime) file with
    | (_, .error _) => none
    | (r, .ok info) => bindPid1 { k with userland := u, supervisor := .init, runtime := r } info

structure Unborn (k : State) : Prop where
  procs : ∀ i, k.procs i = processZero
  nextPid : k.nextPid = 1

/-- The pool with the first image in its slot, which is the built-in one. -/
def firstRuntime (r : Runtime) (i : Fin 16) (slot : RuntimeSlot) : Runtime :=
  { (elfLoaderInit r).set i slot with builtinRuntimeSlot := slotId i }

structure Launched (k : State) (f : FileRead) (i : Fin 16) (out : Loaded)
    (j : Fin 256) (k' : State) : Prop where
  loaded : Occupies (elfLoaderInit k.runtime) f aegisInitPath i out
  runtime : k'.runtime = firstRuntime k.runtime i out.slot
  wellFormed : k'.userland.WellFormed
  live : ∀ g ∈ k'.userland.features, g.name.str = aegisInit → g.livePid = 1
  procs : ∃ p : Process, p.pid = k.nextPid ∧ p.name = strcopy aegisInit ∧ p.Live ∧
    p.runtimeSlot = slotId i ∧ p.image = imageOf out.info ∧
    k'.procs = Function.update k.procs j p

theorem processBind_made {k k' : State} {name : CStr} {m : Image} {slot ppid : UInt32}
    {i : Fin 256} (h : processBindCurrentUserImage k name m slot ppid = (k', some i)) :
    m.complete = true ∧ ∃ a, k' = { k.countBirth with
      core := k.core.modify a fun t => { t with owner := some k.births } }.setProc i
        { userRecord k name m slot ppid with task := some a } := by
  unfold processBindCurrentUserImage at h
  cases hcur : k.core.current with
  | none =>
    rw [hcur] at h
    cases h
  | some a =>
    rw [hcur] at h
    dsimp only at h
    split at h
    · cases h
    rename_i hgood
    rw [not_or, Bool.not_eq_false] at hgood
    split at h
    · cases h
      exact ⟨hgood.1, a, rfl⟩
    · cases h

theorem launched_spec {k k' : State} {prepared : CStr → Option UInt32}
    {file : Option FileRead} (h : launchNativePid1 k prepared file = some k') :
    ∃ f i out j, file = some f ∧ k'.supervisor = .init ∧ Launched k f i out j k' := by
  unfold launchNativePid1 at h
  cases hu : prepareUserland prepared with
  | none =>
    rw [hu] at h
    cases h
  | some u =>
    obtain ⟨hwf, hidle⟩ := prepareUserland_spec hu
    rw [hu] at h
    unfold elfLoaderLoadVfsAegisInit at h
    rcases elfLoaderLoadVfsPath_cases (elfLoaderInit k.runtime) file
      (cstr "/sbin/aegis-init") with ⟨r, rc, hload, -⟩ | ⟨f, i, out, hfile, hload, hocc⟩
    · rw [hload] at h
      cases h
    rw [hload] at h
    dsimp only at h
    rw [hocc.slotId] at h
    unfold bindPid1 at h
    split at h
    · cases h
    rename_i k1 j hbind
    obtain ⟨hm, a, rfl⟩ := processBind_made hbind
    dsimp only at h
    split at h
    · cases h
    rename_i hok
    rw [not_or, not_not, not_not] at hok
    split at h
    · cases h
    cases h
    rcases noteNativeProcessSpawn_outcome u aegisInit aegisInitPath 1 hm with
      ⟨-, -, n, g, hfind, hg, hpath, -⟩ | ⟨hneg, -⟩
    · obtain ⟨g', hg', -, hname⟩ := findFeature_spec hfind
      rw [hg] at hg'
      cases hg'
      have hmem := List.mem_of_getElem? hg
      have hone : (1 : UInt32) ≠ 0 := by decide
      have hrec := noteNativeProcessSpawn_recorded hwf hmem (hidle g hmem) hm hone
      rw [hname, hpath] at hrec
      exact ⟨f, i, out, j, hfile, rfl, hocc, rfl, hrec.wellFormed hwf, hrec.named hwf,
        _, rfl, rfl, by simp [Process.Live, userRecord, processInitialRecord], hocc.slotId, rfl,
        rfl⟩
    · have hnote : (noteNativeProcessSpawn u aegisInit aegisInitPath 1
          (imageOf out.info)).2 = aegisOk := hok.2
      rw [hnote] at hneg
      cases hneg

def initTaskRunning : State :=
  { booted with
    core := (schedulerRun (taskCreate booted.core .kernelEntry 10 none).1).getD booted.core }

end AegisOS.Kernel
