import AegisOS.ServiceSupervisor

/-! The restart policy of a service. The abstract policy looks at the times of all exits;
the entry of the supervisor keeps a counter, the start of a window and the next time to
restart at, which follow it. -/
namespace AegisOS.ServiceSupervisor
open CString KeyedList List Nat Option

/-- The constants that `service_supervisor_set_restart_policy` sets. -/
structure RestartPolicy where
  maxRestarts : Nat
  window : Nat
  backoff : Nat
  deriving DecidableEq

namespace RestartPolicy
variable (p : RestartPolicy)

def default : RestartPolicy := ⟨5, 60 * 100, 10⟩

/-- The start of the current failure window and the number of exits in it, for the times of
all exits from the last one back. -/
def failures : List Nat → Nat × Nat
  | [] => (0, 0)
  | t :: earlier =>
    let old := failures earlier
    if old.2 = 0 ∨ old.1 + p.window < t then (t, 1) else (old.1, old.2 + 1)

def count (exits : List Nat) : Nat := (p.failures exits).2

def dueAt : List Nat → Nat
  | [] => 0
  | t :: earlier => t + p.backoff * 2 ^ min (p.count (t :: earlier) - 1) 6

section
variable (t : Nat) (exits : List Nat)
include t exits

theorem count_cons : p.count (t :: exits) =
      if p.count exits = 0 ∨ (p.failures exits).1 + p.window < t then 1 else p.count exits + 1 :=
  apply_ite Prod.snd _ _ _

theorem first_cons : (p.failures (t :: exits)).1 =
      if p.count exits = 0 ∨ (p.failures exits).1 + p.window < t then t
      else (p.failures exits).1 :=
  apply_ite Prod.fst _ _ _

theorem count_cons_pos : 0 < p.count (t :: exits) := by
  rw [count_cons]
  split <;> omega

end

theorem first_eq_zero {exits : List Nat} (h : ∀ t ∈ exits, 0 < t) :
    (p.failures exits).1 = 0 ↔ p.count exits = 0 := by
  induction exits with
  | nil => simp [failures, count]
  | cons t exits ih =>
    have ht : 0 < t := h t mem_cons_self
    have hrest := ih fun u hu => h u (mem_cons_of_mem t hu)
    rw [first_cons, count_cons]
    split <;> omega

theorem first_le {exits : List Nat} {now : Nat} (h : ∀ t ∈ exits, t ≤ now) :
    (p.failures exits).1 ≤ now := by
  induction exits with
  | nil => exact zero_le now
  | cons t exits ih =>
    rw [first_cons]
    split
    · exact h t mem_cons_self
    · exact ih fun u hu => h u (mem_cons_of_mem t hu)

end RestartPolicy

/-- The entry of a service agrees with the policy about the exits so far. -/
structure Tracks (p : RestartPolicy) (exits : List Nat) (v : Service) : Prop where
  maxRestarts : v.maxRestarts.toNat = p.maxRestarts
  window : v.restartWindowTicks.toNat = p.window
  backoff : v.baseBackoffTicks.toNat = p.backoff
  failures : v.consecutiveFailures.toNat = p.count exits
  first : v.firstFailureTick.toNat = (p.failures exits).1
  due : p.dueAt exits ≤ v.nextRestartTick.toNat

section
variable {p : RestartPolicy} {exits : List Nat} {v : Service} {now : UInt64}

theorem Tracks.reset_iff (h : Tracks p exits v) (hpast : ∀ t ∈ exits, 0 < t ∧ t ≤ now.toNat) :
    (v.firstFailureTick = 0 ∨ v.restartWindowTicks < now - v.firstFailureTick) ↔
      (p.count exits = 0 ∨ (p.failures exits).1 + p.window < now.toNat) := by
  have hfirst := p.first_eq_zero fun t ht => (hpast t ht).1
  have hle := p.first_le fun t ht => (hpast t ht).2
  have hzero : v.firstFailureTick = 0 ↔ (p.failures exits).1 = 0 := by
    rw [← h.first, ← UInt64.toNat_inj]
    rfl
  have hsub : (now - v.firstFailureTick).toNat = now.toNat - (p.failures exits).1 := by
    rw [UInt64.toNat_sub_of_le _ _ (UInt64.le_iff_toNat_le.mpr (h.first ▸ hle)), h.first]
  rw [hzero, UInt64.lt_iff_toNat_lt, h.window]
  omega

variable (h : Tracks p exits v) (hpast : ∀ t ∈ exits, 0 < t ∧ t ≤ now.toNat)
  (hroom : p.count exits < 2 ^ 32 - 1)
include h hpast hroom

theorem Tracks.exited_failures (pid : UInt32) (code : Int) :
    (v.exited pid code now).consecutiveFailures.toNat = p.count (now.toNat :: exits) := by
  have hfields : (v.exited pid code now).consecutiveFailures =
      if v.firstFailureTick = 0 ∨ v.restartWindowTicks < now - v.firstFailureTick then 1
      else v.consecutiveFailures + 1 := rfl
  rw [hfields, p.count_cons]
  by_cases hreset : v.firstFailureTick = 0 ∨ v.restartWindowTicks < now - v.firstFailureTick
  · rw [if_pos hreset, if_pos ((h.reset_iff hpast).mp hreset)]
    rfl
  rw [if_neg hreset, if_neg fun h' => hreset ((h.reset_iff hpast).mpr h')]
  have hcount := h.failures
  have hone : (1 : UInt32).toNat = 1 := rfl
  rw [UInt32.toNat_add, hone, hcount, mod_eq_of_lt (by omega)]

section
variable (hfits : p.dueAt (now.toNat :: exits) < 2 ^ 64) (pid : UInt32) (code : Int)
include hfits pid code

theorem Tracks.exited_due :
    (v.exited pid code now).nextRestartTick.toNat = p.dueAt (now.toNat :: exits) := by
  have hfailures := h.exited_failures hpast hroom pid code
  have hpos := p.count_cons_pos now.toNat exits
  set n := (v.exited pid code now).consecutiveFailures with hn
  set shift : UInt32 := if 6 < n then 6 else n - 1 with hdef
  have hfields : (v.exited pid code now).nextRestartTick =
      now + v.baseBackoffTicks <<< shift.toUInt64 := rfl
  have hshift : shift.toNat = min (p.count (now.toNat :: exits) - 1) 6 := by
    have hsix : (6 : UInt32).toNat = 6 := rfl
    have hone : (1 : UInt32).toNat = 1 := rfl
    rw [hdef]
    split
    next hlarge =>
      rw [UInt32.lt_iff_toNat_lt, hfailures, hsix] at hlarge
      omega
    next hsmall =>
      rw [UInt32.lt_iff_toNat_lt, hfailures, hsix] at hsmall
      rw [UInt32.toNat_sub_of_le _ _ (UInt32.le_iff_toNat_le.mpr (by omega)), hfailures]
      omega
  simp only [RestartPolicy.dueAt, ← hshift, ← h.backoff] at hfits ⊢
  rw [hfields, UInt64.toNat_add, UInt64.toNat_shiftLeft, UInt32.toNat_toUInt64, shiftLeft_eq,
    mod_eq_of_lt (by omega : shift.toNat < 64), add_mod_mod, mod_eq_of_lt hfits]

theorem Tracks.exited : Tracks p (now.toNat :: exits) (v.exited pid code now) := by
  have hfailures := h.exited_failures hpast hroom pid code
  refine ⟨h.maxRestarts, h.window, h.backoff, hfailures, ?_, ?_⟩
  · have hfields : (v.exited pid code now).firstFailureTick =
        if v.firstFailureTick = 0 ∨ v.restartWindowTicks < now - v.firstFailureTick then now
        else v.firstFailureTick := rfl
    rw [hfields, p.first_cons]
    by_cases hreset : v.firstFailureTick = 0 ∨ v.restartWindowTicks < now - v.firstFailureTick
    · rw [if_pos hreset, if_pos ((h.reset_iff hpast).mp hreset)]
    · rw [if_neg hreset, if_neg fun h' => hreset ((h.reset_iff hpast).mpr h')]
      exact h.first
  · exact (h.exited_due hpast hroom hfits pid code).ge

end

theorem Tracks.exited_stopped (hpos : 0 < p.maxRestarts) (pid : UInt32) (code : Int) :
    (v.exited pid code now).state = .stopped ↔ p.maxRestarts < p.count (now.toNat :: exits) := by
  have hfailures := h.exited_failures hpast hroom pid code
  have hstate : (v.exited pid code now).state =
      if v.maxRestarts ≠ 0 ∧ v.maxRestarts < (v.exited pid code now).consecutiveFailures then .stopped
      else .faulted := rfl
  have hlimit : v.maxRestarts < (v.exited pid code now).consecutiveFailures ↔
      p.maxRestarts < p.count (now.toNat :: exits) := by
    rw [UInt32.lt_iff_toNat_lt, h.maxRestarts, hfailures]
  have hne : v.maxRestarts ≠ 0 := by
    intro h0
    have hzero := h.maxRestarts
    rw [h0] at hzero
    exact hpos.ne hzero
  rw [hstate, ← hlimit]
  split
  next hboth => exact iff_of_true rfl hboth.2
  next hno => exact iff_of_false (by decide) fun h' => hno ⟨hne, h'⟩

end

/-! The entry of one service in the supervisor's table: what the functions make of it, and
that those called for another service leave it alone. -/

def Entry (s : Supervisor) (name : CArray 32) (v : Service) : Prop := v ∈ s.services ∧ v.name = name

def SameEntry (name : CArray 32) (s t : Supervisor) : Prop := ∀ v, Entry t name v ↔ Entry s name v

variable {s t : Supervisor} {name : CArray 32} {v w : Service} {n : Nat} {f : Service → Service}

theorem SameEntry.of_services (h : t.services = s.services) : SameEntry name s t := by
  intro v
  rw [Entry, h]
  rfl

theorem Entry.unique (hs : WellFormed s) (h : Entry s name v) (h' : Entry s name w) : v = w := by
  obtain ⟨m, hm⟩ := mem_iff_getElem?.mp h.1
  obtain ⟨n, hn⟩ := mem_iff_getElem?.mp h'.1
  obtain rfl := index_unique hs.names hm hn (h.2.trans h'.2.symm)
  exact some.inj (hm.symm.trans hn)

theorem Entry.findMut (hs : WellFormed s) (h : Entry s name v) :
    ∃ n, findMut s name.str = some n ∧ s.services[n]? = some v := by
  cases hfind : ServiceSupervisor.findMut s name.str with
  | none => exact absurd (congrArg CArray.str h.2) (findMut_none s hfind h.1 (hs.used v h.1))
  | some n =>
    obtain ⟨u, hu, -, hname⟩ := findMut_spec s hfind
    obtain rfl := h.unique hs ⟨mem_of_getElem? hu, CArray.ext hname⟩
    exact ⟨n, rfl, hu⟩

theorem find_entry (h : find s name.str = some v) : Entry s name v := by
  obtain ⟨n, hfind, hn⟩ := find_findMut s h
  obtain ⟨u, hu, -, hname⟩ := findMut_spec s hfind
  rw [hn] at hu
  cases hu
  exact ⟨mem_of_getElem? hn, CArray.ext hname⟩

theorem Entry.find (hs : WellFormed s) (h : Entry s name v) : find s name.str = some v := by
  obtain ⟨n, hfind, hn⟩ := h.findMut hs
  unfold ServiceSupervisor.find
  rw [find?_eq_bind_findIdx?_getElem?]
  exact bind_eq_some_iff.mpr ⟨n, hfind, hn⟩

/-! Changes of one entry. -/

theorem Entry.modify (f : Service → Service) (h : Entry s name v) (hn : s.services[n]? = some v)
    (ht : t.services = s.services.modify n f) (hname : (f v).name = v.name) : Entry t name (f v) := by
  refine ⟨?_, hname.trans h.2⟩
  rw [ht]
  refine mem_of_getElem? (i := n) ?_
  rw [getElem?_modify_eq, hn]
  rfl

theorem SameEntry.modify (hn : s.services[n]? = some w) (hother : w.name ≠ name)
    (ht : t.services = s.services.modify n f) (hname : ∀ v, (f v).name = v.name) :
    SameEntry name s t := by
  intro v
  rw [Entry, ht]
  refine ⟨fun ⟨hv, hvname⟩ => ⟨?_, hvname⟩, fun ⟨hv, hvname⟩ => ⟨?_, hvname⟩⟩
  · rcases mem_modify hv with ⟨m, -, hm⟩ | ⟨u, hu, rfl⟩
    · exact mem_of_getElem? hm
    · obtain rfl := some.inj (hn.symm.trans hu)
      exact absurd ((hname w).symm.trans hvname) hother
  obtain ⟨m, hm⟩ := mem_iff_getElem?.mp hv
  have hne : n ≠ m := by
    rintro rfl
    obtain rfl := some.inj (hn.symm.trans hm)
    exact hother hvname
  refine mem_of_getElem? (i := m) ?_
  rw [getElem?_modify_ne _ _ hne]
  exact hm

theorem Touches.other {other : CArray 32} {left : ServiceState → Prop} (h : Touches s t other left)
    (hother : other ≠ name) : SameEntry name s t := by
  rcases h.services with heq | ⟨n, f, hfind, heq, hf⟩ | ⟨-, u, heq, rfl, -⟩
  · exact .of_services heq
  · obtain ⟨w, hw, -, hname⟩ := findMut_spec s hfind
    exact .modify hw (CArray.ext hname ▸ hother) heq fun v => (hf v).1
  · intro v
    simp only [Entry, heq, mem_append, mem_singleton]
    refine ⟨fun ⟨hv, hname⟩ => ⟨hv.resolve_right ?_, hname⟩, fun ⟨hv, hname⟩ => ⟨.inl hv, hname⟩⟩
    rintro rfl
    exact hother hname

/-! Functions called for the service. -/

theorem findMut_none_of_no_entry (h : ∀ v, ¬Entry s name v) : findMut s name.str = none := by
  cases hfind : findMut s name.str with
  | none => rfl
  | some n =>
    obtain ⟨v, hv, -, hname⟩ := findMut_spec s hfind
    exact absurd ⟨mem_of_getElem? hv, CArray.ext hname⟩ (h v)

section
variable {serviceId pid policy : UInt32}

theorem register_refused (h : (nativeRegisterStarting s name.str serviceId pid policy).2 ≠ aegisOk) :
    (nativeRegisterStarting s name.str serviceId pid policy).1 = s := by
  unfold nativeRegisterStarting at h ⊢
  split
  · rfl
  cases hfind : findMut s name.str with
  | some n =>
    rw [if_neg ‹_›, hfind] at h
    exact absurd rfl h
  | none =>
    rw [if_neg ‹_›, hfind] at h
    dsimp only at h ⊢
    split
    · rfl
    · rw [if_neg ‹_›] at h
      exact absurd rfl h

theorem Entry.register (hs : WellFormed s) (h : Entry s name v)
    (hdone : (nativeRegisterStarting s name.str serviceId pid policy).2 = aegisOk) :
    ∃ st, Entry (nativeRegisterStarting s name.str serviceId pid policy).1 name
      { v with pid := pid, serviceId := serviceId, state := st, policy := policy } := by
  obtain ⟨n, hfind, hn⟩ := h.findMut hs
  unfold nativeRegisterStarting at hdone ⊢
  split
  · rw [if_pos ‹_›] at hdone
    exact absurd hdone (show aegisEinval ≠ aegisOk by decide)
  · rw [hfind]
    exact ⟨_, h.modify (fun v => { v with
      pid := pid, serviceId := serviceId, state := _, policy := policy }) hn rfl rfl⟩

theorem register_fresh (h : ∀ v, ¬Entry s name v)
    (hv : Entry (nativeRegisterStarting s name.str serviceId pid policy).1 name v) :
    v = freshService s.nextSupervisedId serviceId pid policy name.str := by
  unfold nativeRegisterStarting at hv
  split at hv
  · exact absurd hv (h v)
  rw [findMut_none_of_no_entry h] at hv
  dsimp only at hv
  split at hv
  · exact absurd hv (h v)
  rcases mem_append.mp hv.1 with hold | hnew
  · exact absurd ⟨hold, hv.2⟩ (h v)
  · exact mem_singleton.mp hnew

end

section
variable (hs : WellFormed s) (h : Entry s name v)
include hs h

theorem Entry.restarted {pid : UInt32} (hpid : pid ≠ 0) (hprogress : s.shutdownInProgress = false)
    (hrequested : v.shutdownRequested = false) (now : UInt64) :
    Entry (noteRestart s name.str pid now).1 name
      { v with
        pid := pid, state := .restarting, restartCount := v.restartCount + 1
        nextRestartTick := now } := by
  obtain ⟨n, hfind, hn⟩ := h.findMut hs
  unfold noteRestart
  rw [hfind]
  dsimp only
  rw [if_neg hpid, if_neg (by simp [hprogress, hn, hrequested])]
  exact h.modify (fun v => { v with
    pid := pid, state := .restarting, restartCount := v.restartCount + 1, nextRestartTick := now }) hn rfl rfl

theorem Entry.findPid : ∃ n, findPid s name.str v.pid = some n ∧ s.services[n]? = some v := by
  obtain ⟨n, hfind, hn⟩ := h.findMut hs
  refine ⟨n, ?_, hn⟩
  unfold ServiceSupervisor.findPid
  rw [hfind]
  dsimp only
  have hpid : (s.services[n]?).map Service.pid = some v.pid := congrArg (Option.map Service.pid) hn
  rw [if_pos hpid]

theorem Entry.exited (hpid : v.pid ≠ 0) (code : Int) (now : UInt64) :
    Entry (nativeMarkExit s name.str v.pid code now).1 name (v.exited v.pid code now) := by
  obtain ⟨n, hfind, hn⟩ := h.findPid hs
  unfold nativeMarkExit
  rw [if_neg (by simp [hs.initialised, hpid]), hfind]
  exact h.modify (fun u => u.exited v.pid code now) hn rfl rfl

theorem Entry.markedRunning (hpid : v.pid ≠ 0) :
    Entry (nativeMarkRunning s name.str v.pid).1 name { v with state := .running } := by
  obtain ⟨n, hfind, hn⟩ := h.findPid hs
  unfold nativeMarkRunning
  rw [if_neg (by simp [hs.initialised, hpid]), hfind]
  exact h.modify (fun v => { v with state := .running }) hn rfl rfl

end

theorem Entry.beginShutdown (h : Entry s name v) :
    Entry (beginShutdown s) name { v with shutdownRequested := true } :=
  ⟨mem_map.mpr ⟨v, h.1, rfl⟩, h.2⟩

theorem entry_of_beginShutdown (h : Entry (beginShutdown s) name w) :
    ∃ v, Entry s name v ∧ w = { v with shutdownRequested := true } := by
  obtain ⟨v, hv, rfl⟩ := mem_map.mp h.1
  exact ⟨v, ⟨hv, h.2⟩, rfl⟩

theorem setRestartPolicy_cases (hs : WellFormed s) (name : CArray 32) (maxRestarts : UInt32)
    (window backoff : UInt64) :
    ((setRestartPolicy s name.str maxRestarts window backoff).2 ≠ aegisOk ∧
        (setRestartPolicy s name.str maxRestarts window backoff).1 = s) ∨
      ((setRestartPolicy s name.str maxRestarts window backoff).2 = aegisOk ∧ maxRestarts ≠ 0 ∧
        WellFormed (setRestartPolicy s name.str maxRestarts window backoff).1 ∧
        (setRestartPolicy s name.str maxRestarts window backoff).1.shutdownInProgress =
          s.shutdownInProgress ∧
        ∃ v, Entry s name v ∧ Entry (setRestartPolicy s name.str maxRestarts window backoff).1 name
          { v with
            maxRestarts := maxRestarts, restartWindowTicks := window, baseBackoffTicks := backoff }) := by
  unfold setRestartPolicy
  cases hfind : findMut s name.str with
  | none => exact .inl ⟨show aegisEinval ≠ aegisOk by decide, rfl⟩
  | some n =>
    obtain ⟨v, hn, -, hname⟩ := findMut_spec s hfind
    have hv : Entry s name v := ⟨mem_of_getElem? hn, CArray.ext hname⟩
    dsimp only
    split
    · exact .inl ⟨show aegisEinval ≠ aegisOk by decide, rfl⟩
    rename_i hgood
    rw [not_or] at hgood
    refine .inr ⟨rfl, hgood.1, ⟨hs.initialised, ?_, fun u hu => ?_⟩, rfl, v, hv, ?_⟩
    · dsimp only [Supervisor.modify]
      rw [map_modify]
      · exact hs.names
      · exact fun _ => rfl
    · rcases mem_of_modify hu with hold | ⟨u', hu', rfl⟩
      · exact hs.used u hold
      · exact hs.used u' hu'
    · exact hv.modify (fun v => { v with
        maxRestarts := maxRestarts, restartWindowTicks := window, baseBackoffTicks := backoff }) hn rfl rfl

section
variable (h : ∀ v, ¬Entry s name v) (pid : UInt32)
include h

theorem findPid_none_of_no_entry : findPid s name.str pid = none := by
  unfold findPid
  rw [findMut_none_of_no_entry h]

theorem nativeMarkExit_absent (code : Int) (now : UInt64) :
    (nativeMarkExit s name.str pid code now).1 = s := by
  unfold nativeMarkExit
  split
  · rfl
  · rw [findPid_none_of_no_entry h]

theorem nativeMarkRunning_absent : (nativeMarkRunning s name.str pid).1 = s := by
  unfold nativeMarkRunning
  split
  · rfl
  · rw [findPid_none_of_no_entry h]

end

/-! Steps that count nothing. -/

/-- The service keeps its entry but for the state and the mark of a shutdown, and stays given
up unless `revived`. -/
structure EntryKept (name : CArray 32) (revived : Prop) (s t : Supervisor) : Prop where
  table : WellFormed s → WellFormed t
  shutdown : s.shutdownInProgress = true → t.shutdownInProgress = true
  entry : ∀ v, Entry s name v → ∃ st requested,
    Entry t name { v with state := st, shutdownRequested := requested } ∧
      (v.state = .stopped → st = .stopped ∨ revived)
  back : ∀ w, Entry t name w → ∃ v, Entry s name v

variable {revived : Prop}

theorem EntryKept.same (table : WellFormed s → WellFormed t) (h : SameEntry name s t)
    (hshutdown : t.shutdownInProgress = s.shutdownInProgress) : EntryKept name revived s t :=
  ⟨table, fun hs => hshutdown.trans hs,
    fun v hv => ⟨v.state, v.shutdownRequested, (h v).mpr hv, .inl⟩, fun w hw => ⟨w, (h w).mp hw⟩⟩

theorem Touches.kept {other : CArray 32} {left : ServiceState → Prop} (h : Touches s t other left)
    (hleft : ∀ st, left st → st ≠ .empty) (hother : other ≠ name) : EntryKept name revived s t :=
  .same (h.wellFormed hleft) (h.other hother) h.shutdown

theorem EntryKept.of_services (h : t.services = s.services) (hinit : t.initialised = s.initialised)
    (hshutdown : t.shutdownInProgress = s.shutdownInProgress) : EntryKept name revived s t :=
  .same (Calm.of_services h hinit).wellFormed (.of_services h) hshutdown

theorem EntryKept.mono {revived' : Prop} (h : EntryKept name revived s t) (himp : revived → revived') :
    EntryKept name revived' s t := by
  refine ⟨h.table, h.shutdown, fun v hv => ?_, h.back⟩
  obtain ⟨st, requested, hentry, hstate⟩ := h.entry v hv
  exact ⟨st, requested, hentry, fun hs => (hstate hs).imp_right himp⟩

theorem EntryKept.beginShutdown (s : Supervisor) : EntryKept name revived s (beginShutdown s) := by
  refine ⟨(beginShutdown_calm s).wellFormed, fun _ => rfl, fun v hv => ?_, fun w hw => ?_⟩
  · exact ⟨v.state, true, hv.beginShutdown, .inl⟩
  · obtain ⟨v, hv, -⟩ := entry_of_beginShutdown hw
    exact ⟨v, hv⟩

theorem EntryKept.markedRunning (hs : WellFormed s) {pid : UInt32} (hpid : pid ≠ 0) (hrevived : revived)
    (hregistered : ∀ v, Entry s name v → v.pid = pid) :
    EntryKept name revived s (nativeMarkRunning s name.str pid).1 := by
  refine ⟨(nativeMarkRunning_touches s name pid).wellFormed fun _ => id, ?_, fun v hv => ?_, fun w hw => ?_⟩
  · exact (nativeMarkRunning_touches s name pid).shutdown.trans
  · obtain rfl := hregistered v hv
    exact ⟨.running, v.shutdownRequested, hv.markedRunning hs hpid, fun _ => .inr hrevived⟩
  · by_contra hnone
    rw [not_exists] at hnone
    rw [nativeMarkRunning_absent hnone] at hw
    exact hnone w hw

end AegisOS.ServiceSupervisor
