import AegisOS.ServiceFrame

/-! What the system calls do to one supervised service: its exits, the requests to shut
down and its policy are noted, and the supervisor's entry keeps agreeing with them. -/
namespace AegisOS.Kernel
open CString ServiceSupervisor GuardedRun Option

/-- What has happened to a service: the policy set for it, the times of its exits from the
last one back, whether a shutdown was requested, and the last time read from the clock. -/
structure History where
  policy : RestartPolicy
  exits : List Nat
  shutdown : Bool
  clock : Nat

def History.start : History := ⟨.default, [], false, 0⟩

inductive Act
  | call (c : Call)
  | setPolicy (maxRestarts : UInt32) (window backoff : UInt64)

/-- The entry that a call of `sys_exit` takes for the exiting one. -/
def exitingEntry (k : State) : Option (Fin 256) := k.core.current.bind (exiting k)

/-- A process of the service, which the supervisor knows, is about to exit. -/
def serviceExits (name : CArray 32) (k : State) : Bool :=
  (exitingEntry k).any (fun i => (k.procs i).name = name) && (find k.supervisor name.str).isSome

def History.note (h : History) (name : CArray 32) (k : State) : Call → History
  | .spawn _ _ _ later => { h with clock := later.toNat }
  | .exit _ now =>
    { h with
      clock := now.toNat
      exits := if serviceExits name k then now.toNat :: h.exits else h.exits }
  | .shutdown _ _ => { h with shutdown := h.shutdown || decide (mayShutdown k) }
  | _ => h

def act (name : CArray 32) (s : State × History) : Act → Option (State × History)
  | .call c => (dispatch s.1 c).map fun k => (k, s.2.note name s.1 c)
  | .setPolicy maxRestarts window backoff =>
    let set := setRestartPolicy s.1.supervisor name.str maxRestarts window backoff
    some ({ s.1 with supervisor := set.1 },
      if set.2 = aegisOk then
        { s.2 with policy := ⟨maxRestarts.toNat, window.toNat, backoff.toNat⟩ }
      else s.2)

def ClockKept (s : State × History) : Act → Prop
  | .call (.spawn _ _ now later) => s.2.clock ≤ now.toNat ∧ now.toNat ≤ later.toNat
  | .call (.exit _ now) => s.2.clock ≤ now.toNat
  | _ => True

/-- New processes get pids that are not zero and not in use; what a process of the service
does it does alive, and its policy is set before its first exit; and at its exits the clock
has left zero and neither the counter nor the time of the next start wraps. -/
def Unwrapped (name : CArray 32) (s : State × History) : Act → Prop
  | .setPolicy maxRestarts _ _ => s.2.exits = [] ∧ maxRestarts.toNat < 2 ^ 32 - 1
  | .call (.spawn ..) => PidFree s.1 ∧ s.1.nextPid ≠ 0
  | .call (.exit _ now) => serviceExits name s.1 = true → 0 < now.toNat ∧
      s.2.policy.dueAt (now.toNat :: s.2.exits) < 2 ^ 64 ∧
      ∀ i ∈ exitingEntry s.1, (s.1.procs i).state ≠ .zombie
  | .call (.kill pid signal) =>
    signal = 19 → ∀ i ∈ processGet s.1 pid.toUInt32, (s.1.procs i).name = name →
      (s.1.procs i).state ≠ .zombie
  | .call (.serviceReady _) =>
    ∀ i ∈ processCurrent s.1, (s.1.procs i).name = name → (s.1.procs i).state ≠ .zombie
  | .call (.bindCurrent ..) => False
  | _ => True

def PolicyMet (name : CArray 32) (s : State × History) (a : Act) : Prop :=
  ClockKept s a ∧ Unwrapped name s a

def Starts (name : CArray 32) (k k' : State) : Prop :=
  ∃ j, ¬(k.procs j).Live ∧ (k'.procs j).Live ∧ (k'.procs j).name = name

structure RestartDue (h : History) (now : UInt64) : Prop where
  running : h.shutdown = false
  backoff : h.policy.dueAt h.exits ≤ now.toNat
  limit : h.policy.count h.exits ≤ h.policy.maxRestarts

instance (s : State × History) : (a : Act) → Decidable (ClockKept s a)
  | .call (.spawn _ _ now later) =>
    inferInstanceAs (Decidable (s.2.clock ≤ now.toNat ∧ now.toNat ≤ later.toNat))
  | .call (.exit _ now) => inferInstanceAs (Decidable (s.2.clock ≤ now.toNat))
  | .setPolicy .. | .call (.serviceReady _) | .call .consoleReady | .call (.kill ..)
  | .call (.waitpid ..) | .call (.shutdown ..) | .call .yield | .call (.openFile _) | .call (.close _)
  | .call (.fileIo ..) | .call (.sockets _) | .call .other | .call .schedulerRun
  | .call (.kernelTask _) | .call (.setIdle _) | .call (.bindCurrent ..) => .isTrue trivial

instance (name : CArray 32) (s : State × History) : (a : Act) → Decidable (Unwrapped name s a)
  | .setPolicy maxRestarts _ _ =>
    inferInstanceAs (Decidable (s.2.exits = [] ∧ maxRestarts.toNat < 2 ^ 32 - 1))
  | .call (.spawn ..) => inferInstanceAs (Decidable (PidFree s.1 ∧ s.1.nextPid ≠ 0))
  | .call (.exit _ now) => inferInstanceAs (Decidable (serviceExits name s.1 = true → 0 < now.toNat ∧
      s.2.policy.dueAt (now.toNat :: s.2.exits) < 2 ^ 64 ∧ ∀ i ∈ exitingEntry s.1, _))
  | .call (.kill pid signal) => inferInstanceAs (Decidable (signal = 19 →
      ∀ i ∈ processGet s.1 pid.toUInt32, (s.1.procs i).name = name → _))
  | .call (.serviceReady _) => inferInstanceAs (Decidable (∀ i ∈ processCurrent s.1, _ → _))
  | .call (.bindCurrent ..) => .isFalse id
  | .call .consoleReady | .call (.waitpid ..) | .call (.shutdown ..) | .call .yield
  | .call (.openFile _) | .call (.close _) | .call (.fileIo ..) | .call (.sockets _) | .call .other
  | .call .schedulerRun | .call (.kernelTask _) | .call (.setIdle _) => .isTrue trivial

instance (name : CArray 32) (s : State × History) (a : Act) : Decidable (PolicyMet name s a) :=
  inferInstanceAs (Decidable (_ ∧ _))

/-! The invariant. -/

/-- The entry agrees with the history, and while the service is not given up its process is
the one recorded. -/
structure Listed (name : CArray 32) (k : State) (h : History) (v : Service) : Prop where
  tracks : Tracks h.policy h.exits v
  supervised : ∀ f ∈ k.userland.features, f.name = name → f.serviceId ≠ 0
  registered : ∀ j, (k.procs j).Alive → (k.procs j).name = name → (k.procs j).pid = v.pid
  stopped : h.policy.maxRestarts < h.policy.count h.exits →
    v.state = .stopped ∧ ∀ j, (k.procs j).Alive → (k.procs j).name ≠ name

structure Watched (name : CArray 32) (s : State × History) : Prop where
  owned : SlotsOwned s.1
  table : WellFormed s.1.supervisor
  pids : ∀ j, (s.1.procs j).Live → (s.1.procs j).name = name → (s.1.procs j).pid ≠ 0
  policy : 0 < s.2.policy.maxRestarts ∧ s.2.policy.maxRestarts < 2 ^ 32 - 1
  past : ∀ t ∈ s.2.exits, 0 < t ∧ t ≤ s.2.clock
  asked : s.2.shutdown = true → s.1.supervisor.shutdownInProgress = true
  absent : (∀ v, ¬Entry s.1.supervisor name v) → s.2.exits = [] ∧ s.2.policy = .default
  listed : ∀ v, Entry s.1.supervisor name v → Listed name s.1 s.2 v

variable {code : Int} {now : UInt64} {i : Fin 256}

section
variable {name : CArray 32} {k k' : State} {h h' : History}

theorem Watched.unmoved (hw : Watched name (k, h)) (hu : Unmoved name k k') (howned : SlotsOwned k')
    (hpolicy : h'.policy = h.policy) (hexits : h'.exits = h.exits) (hclock : h.clock ≤ h'.clock)
    (hasked : h'.shutdown = true → k'.supervisor.shutdownInProgress = true) :
    Watched name (k', h') := by
  refine ⟨howned, hu.entry.table hw.table, fun j hlive hname => ?_, ?_, fun t ht => ?_, hasked, ?_, ?_⟩
  · obtain ⟨hlive', hname', hpid, -⟩ := hu.processes j hlive hname
    exact hpid ▸ hw.pids j hlive' hname'
  · rw [hpolicy]
    exact hw.policy
  · rw [hexits] at ht
    obtain ⟨hpos, hle⟩ := hw.past t ht
    exact ⟨hpos, hle.trans hclock⟩
  · intro hnone
    rw [hexits, hpolicy]
    refine hw.absent fun v hv => ?_
    obtain ⟨st, requested, hentry, -⟩ := hu.entry.entry v hv
    exact hnone _ hentry
  · intro w hentry
    obtain ⟨v, hv⟩ := hu.entry.back w hentry
    obtain ⟨st, requested, hkept, hstate⟩ := hu.entry.entry v hv
    obtain rfl := hkept.unique (hu.entry.table hw.table) hentry
    have hl := hw.listed v hv
    refine ⟨?_, fun f hf hname => ?_, fun j halive hname => ?_, fun hover => ?_⟩
    · rw [hpolicy, hexits]
      exact ⟨hl.tracks.maxRestarts, hl.tracks.window, hl.tracks.backoff, hl.tracks.failures,
        hl.tracks.first, hl.tracks.due⟩
    · obtain ⟨g, hg, hgname, hid⟩ := hu.features f hf
      exact hid ▸ hl.supervised g hg (hgname.trans hname)
    · obtain ⟨-, hname', hpid, hback⟩ := hu.processes j halive.1 hname
      exact hpid.trans (hl.registered j (hback halive) hname')
    · rw [hpolicy, hexits] at hover
      obtain ⟨hstopped, hdead⟩ := hl.stopped hover
      refine ⟨(hstate hstopped).resolve_right ?_, fun j halive hname => ?_⟩
      · rintro ⟨j, halive, hname⟩
        exact hdead j halive hname
      · obtain ⟨-, hname', -, hback⟩ := hu.processes j halive.1 hname
        exact hdead j (hback halive) hname'

/-- The state an exit of the entry `i` leaves. -/
structure Exited (k : State) (i : Fin 256) (code : Int) (now : UInt64) (k' : State) : Prop where
  processes : ∀ name, NoneMade name k k'
  dead : (k'.procs i).state = .zombie
  userland : k'.userland = k.userland
  supervisor : k'.supervisor =
    (nativeMarkExit k.supervisor (k.procs i).name.str (k.procs i).pid code now).1

theorem processExit_cases (howned : SlotsOwned k) (hexit : processExit k code now = some k') :
    (exitingEntry k = none ∧ Unmoved name k k') ∨
      ∃ i, exitingEntry k = some i ∧ Exited k i code now k' := by
  have hquiet := processExit_quiet howned.slots.vacant hexit
  unfold exitingEntry
  rcases processExit_spec hexit with ⟨hnone, rfl⟩ | ⟨a, core, hcur, -, rfl⟩
  · rw [hnone]
    exact .inl ⟨rfl, .elsewhere rfl rfl rfl⟩
  have hmade : ∀ name, NoneMade name k (processRetire k a code now) :=
    fun name => .retire howned.slots.vacant a code now
  rw [hcur, bind_some]
  cases hi : exiting k a with
  | none =>
    have hretire : processRetire k a code now = k := by
      unfold processRetire
      rw [hi]
    rw [hretire]
    exact .inl ⟨rfl, .elsewhere rfl rfl rfl⟩
  | some i =>
    refine .inr ⟨i, rfl, fun name => (hmade name).trans (.of_procs rfl), ?_, hquiet.userland, ?_⟩
    · unfold processRetire
      rw [hi]
      rw [reparent_state, bury_procs, Function.update_self]
    · unfold processRetire
      rw [hi]
      rfl

theorem Exited.unmoved (he : Exited k i code now k')
    (hother : (k.procs i).name = name → ∀ v, ¬Entry k.supervisor name v) : Unmoved name k k' := by
  refine ⟨he.processes name, .of_features (congrArg _ he.userland), ?_⟩
  rw [he.supervisor]
  by_cases hname : (k.procs i).name = name
  · rw [hname, nativeMarkExit_absent (hother hname)]
    exact .of_services rfl rfl rfl
  · exact (nativeMarkExit_touches _ _ _ _ _).kept (fun _ hst => hst.2) hname

theorem Watched.counted {callCode : UInt64} {v : Service}
    (hw : Watched name (k, h)) (hclock : h.clock ≤ now.toNat) (hcounts : serviceExits name k = true)
    (hlive : (k.procs i).Live) (he : Exited k i code now k') (hname : (k.procs i).name = name)
    (hv : Entry k.supervisor name v) (hnotdead : (k.procs i).state ≠ .zombie) (hpos : 0 < now.toNat)
    (hfits : h.policy.dueAt (now.toNat :: h.exits) < 2 ^ 64) (howned : SlotsOwned k') :
    Watched name (k', h.note name k (.exit callCode now)) := by
  have hl := hw.listed v hv
  have hnote : h.note name k (.exit callCode now) =
      { h with clock := now.toNat, exits := now.toNat :: h.exits } := by
    simp [History.note, hcounts]
  have hpid : (k.procs i).pid = v.pid := hl.registered i ⟨hlive, hnotdead⟩ hname
  have hpidne : v.pid ≠ 0 := hpid ▸ hw.pids i hlive hname
  have hentry : Entry k'.supervisor name (v.exited v.pid code now) := by
    rw [he.supervisor, hname, hpid]
    exact hv.exited hw.table hpidne code now
  have htable : WellFormed k'.supervisor := by
    rw [he.supervisor]
    exact (nativeMarkExit_touches _ _ _ _ _).calm.wellFormed hw.table
  -- a service with a live process is not given up
  have hwithin : h.policy.count h.exits ≤ h.policy.maxRestarts := by
    by_contra hover
    exact (hl.stopped (Nat.not_le.mp hover)).2 i ⟨hlive, hnotdead⟩ hname
  have hroom : h.policy.count h.exits < 2 ^ 32 - 1 := hwithin.trans_lt hw.policy.2
  have hpast : ∀ t ∈ h.exits, 0 < t ∧ t ≤ now.toNat := fun t ht =>
    ⟨(hw.past t ht).1, (hw.past t ht).2.trans hclock⟩
  have hgone : ∀ j, (k'.procs j).Alive → (k'.procs j).name ≠ name := by
    intro j halive hj
    obtain ⟨hjlive, hjname, -, -⟩ := he.processes name j halive.1 hj
    obtain rfl := hw.owned.pids.single j i hjlive hlive (hw.pids j hjlive hjname)
      (hw.pids i hlive hname) (hjname.trans hname.symm)
    exact halive.2 he.dead
  rw [hnote]
  refine ⟨howned, htable, fun j hj hjname => ?_, hw.policy, fun t ht => ?_, fun hs => ?_, fun hnone => ?_,
    fun w hentry' => ?_⟩
  · obtain ⟨hjlive, hjname', hjpid, -⟩ := he.processes name j hj hjname
    exact hjpid ▸ hw.pids j hjlive hjname'
  · rcases List.mem_cons.mp ht with rfl | hold
    · exact ⟨hpos, le_rfl⟩
    · exact hpast t hold
  · rw [he.supervisor, (nativeMarkExit_touches _ _ _ _ _).shutdown]
    exact hw.asked hs
  · exact absurd hentry (hnone _)
  · obtain rfl := hentry.unique htable hentry'
    refine ⟨hl.tracks.exited hpast hroom hfits _ _, ?_, fun j halive hj => absurd hj (hgone j halive),
      fun hover => ⟨?_, hgone⟩⟩
    · rw [he.userland]
      exact hl.supervised
    · exact (hl.tracks.exited_stopped hpast hroom hw.policy.1 _ _).mpr hover

theorem serviceExits_spec (hcounts : serviceExits name k = true) :
    ∃ i v, exitingEntry k = some i ∧ (k.procs i).name = name ∧ Entry k.supervisor name v := by
  obtain ⟨hany, hfound⟩ := Bool.and_eq_true_iff.mp hcounts
  obtain ⟨i, hi, hname⟩ := (any_eq_true _ _).mp hany
  obtain ⟨v, hv⟩ := isSome_iff_exists.mp hfound
  exact ⟨i, v, hi, of_decide_eq_true hname, find_entry hv⟩

theorem exitingEntry_live (howned : SlotsOwned k) (hi : exitingEntry k = some i) :
    (k.procs i).Live := by
  obtain ⟨a, -, hexiting⟩ := bind_eq_some_iff.mp hi
  exact exiting_live howned.slots.vacant hexiting

section
variable (hw : Watched name (k, h))
include hw

theorem Watched.exit {code : UInt64} (hclock : h.clock ≤ now.toNat)
    (hmet : Unwrapped name (k, h) (.call (.exit code now))) (howned : SlotsOwned k')
    (hexit : sysExit k code now = some k') : Watched name (k', h.note name k (.exit code now)) := by
  have hquiet : Unmoved name k k' → serviceExits name k = false →
      Watched name (k', h.note name k (.exit code now)) := by
    intro hu hno
    refine hw.unmoved hu howned rfl ?_ hclock fun hs => hu.entry.shutdown (hw.asked hs)
    simp [History.note, hno]
  have hcases : (exitingEntry k = none ∧ Unmoved name k k') ∨
      ∃ i, exitingEntry k = some i ∧ Exited k i code.toUInt32.toInt32.toInt now k' :=
    processExit_cases hw.owned hexit
  rcases hcases with ⟨hnone, hu⟩ | ⟨i, hi, he⟩
  · exact hquiet hu (by simp [serviceExits, hnone])
  by_cases hcounts : serviceExits name k = true
  swap
  · refine hquiet (he.unmoved fun hname v hv => hcounts ?_) (by simpa using hcounts)
    simp [serviceExits, hi, hname, hv.find hw.table]
  obtain ⟨hpos, hfits, hnotdead⟩ := hmet hcounts
  obtain ⟨i', v, hi', hname, hv⟩ := serviceExits_spec hcounts
  obtain rfl := some.inj (hi.symm.trans hi')
  exact hw.counted hclock hcounts (exitingEntry_live hw.owned hi) he hname hv (hnotdead i hi) hpos hfits
    howned

theorem Watched.ready {label : Option (CArray 32)}
    (hok : Unwrapped name (k, h) (.call (.serviceReady label))) :
    Unmoved name k (sysServiceReady k label).1 := by
  rcases sysServiceReady_cases k label with heq | ⟨i, supervisor, rfl, hi, hpid, hmarked, heq⟩
  · rw [heq]
    exact .elsewhere rfl rfl rfl
  have hfeatures := Userland.markFeatureNativeRunning_sameServices k.userland
    (k.procs i).name.str (k.procs i).pid
  rw [heq]
  rcases hmarked with rfl | rfl
  · exact .of_supervisor (.of_procs rfl) hfeatures rfl
  refine ⟨.of_procs rfl, hfeatures, ?_⟩
  by_cases hlabel : (k.procs i).name = name
  · subst hlabel
    have halive : (k.procs i).Alive := ⟨(processCurrent_spec hi).choose_spec.2.1, hok i hi rfl⟩
    refine .markedRunning hw.table hpid ⟨i, halive, rfl⟩ fun v hv => ?_
    exact ((hw.listed v hv).registered i halive rfl).symm
  · exact (nativeMarkRunning_touches _ _ _).kept (fun _ => id) hlabel

/-! Setting the policy. -/

theorem Watched.setPolicy {maxRestarts : UInt32} {window backoff : UInt64}
    (hok : Unwrapped name (k, h) (.setPolicy maxRestarts window backoff))
    (hact : act name (k, h) (.setPolicy maxRestarts window backoff) = some (k', h')) :
    Watched name (k', h') := by
  obtain ⟨hunused, hroom⟩ := hok
  cases hact
  rcases setRestartPolicy_cases hw.table name maxRestarts window backoff with
    ⟨hrefused, hsame⟩ | ⟨hset, hpos, htable, hshutdown, v, hv, hentry⟩
  · rw [if_neg hrefused, hsame]
    exact hw
  have hl := hw.listed v hv
  rw [if_pos hset]
  refine ⟨hw.owned.quiet (quiet_supervisor k _), htable, hw.pids, ⟨?_, hroom⟩, hw.past, fun hs => ?_,
    fun hnone => absurd hentry (hnone _), fun w hentry' => ?_⟩
  · exact Nat.pos_of_ne_zero fun h0 => hpos (UInt32.toNat_inj.mp h0)
  · exact hshutdown.trans (hw.asked hs)
  obtain rfl := hentry.unique htable hentry'
  have htracks := hl.tracks
  rw [hunused] at htracks
  refine ⟨?_, hl.supervised, hl.registered, fun hover => ?_⟩
  · dsimp only
    rw [hunused]
    exact ⟨rfl, rfl, rfl, htracks.failures, htracks.first, htracks.due⟩
  · rw [hunused] at hover
    exact absurd hover (Nat.not_lt_zero _)

end

end

/-! Spawning a supervised service, and the runs of the system calls: its restarts keep to
its restart policy. -/
open Function Userland ElfLoader Nat

variable {j : Fin 256} {k1 k0 : State} {f : Feature} {p : CStr} {now later : UInt64}
  {v : Service} {m : Image} {path : Option (CArray 128)} {file : Option FileRead}
  {c : Call} {s s' : State × History} {a : Act}

section
variable {name : CArray 32} {k k' : State} {h h' : History}

/-! Spawning. -/

theorem processGet_child (hfree : PidFree k) (hmade : ServiceMade name k j k1) :
    ∀ k2 : State, k2.procs = k1.procs → processGet k2 k.nextPid = some j := by
  intro k2 hprocs
  have hj : (k2.procs j).pid = k.nextPid ∧ (k2.procs j).Live := by
    rw [hprocs]
    exact ⟨hmade.pid, hmade.live⟩
  cases hget : processGet k2 k.nextPid with
  | none =>
    unfold processGet at hget
    have hno := Fin.find?_eq_none_iff.mp hget j
    simp [hj] at hno
  | some i =>
    obtain ⟨hpid, hlive⟩ := processGet_spec hget
    by_cases hij : i = j
    · rw [hij]
    · rw [hprocs, hmade.others i hij] at hpid hlive
      exact absurd hpid (hfree i hlive)

theorem killed_child_dead (hfree : PidFree k) (hmade : ServiceMade name k j k1)
    (k2 : State) (hprocs : k2.procs = k1.procs) :
    ((processKill k2 k.nextPid 9).1.procs j).state = .zombie := by
  have hget := processGet_child hfree hmade k2 hprocs
  rcases processKill_cases k2 k.nextPid 9 with ⟨hnone, -⟩ | ⟨i, hi, -, hsig⟩
  · rw [hget] at hnone
    cases hnone
  obtain rfl := some.inj (hget.symm.trans hi)
  generalize (processKill k2 k.nextPid 9).1 = k3 at hsig
  cases hsig with
  | terminated => rw [destroyTask_procs, bury_procs, update_self]
  | ignored _ h9 => exact absurd rfl h9

theorem Watched.only_child
    (hw : Watched name (k, h)) (hc : Cleared k p now f) (hname : f.name = name)
    (hmade : ServiceMade name k j k1) {l : Fin 256} (hlive : (k1.procs l).Live)
    (hl : (k1.procs l).name = name) : l = j := by
  by_contra hlj
  rw [hmade.others l hlj] at hlive hl
  exact hw.owned.pids.name_free hc hlive (hw.pids l hlive hl) (hl.trans hname.symm)

theorem Watched.unseen {k2 : State} (hw : Watched name (k, h))
    (howned : SlotsOwned k2) (hpids : ∀ j, (k2.procs j).Live → (k2.procs j).name = name →
      (k2.procs j).pid ≠ 0) (hfeatures : SameServices k.userland k2.userland)
    (hsupervisor : k2.supervisor = k.supervisor) (hclock : h.clock ≤ later.toNat)
    (hdead : (∀ v, ¬Entry k.supervisor name v) ∨ ∀ j, (k2.procs j).Alive → (k2.procs j).name ≠ name) :
    Watched name (k2, { h with clock := later.toNat }) := by
  refine ⟨howned, hsupervisor ▸ hw.table, hpids, hw.policy, fun t ht => ?_, ?_, ?_, fun v hv => ?_⟩
  · obtain ⟨hpos, hle⟩ := hw.past t ht
    exact ⟨hpos, hle.trans hclock⟩
  · rw [hsupervisor]
    exact hw.asked
  · dsimp only
    rw [hsupervisor]
    exact hw.absent
  · rw [hsupervisor] at hv
    have hl := hw.listed v hv
    have hgone := hdead.resolve_left fun hnone => hnone v hv
    refine ⟨hl.tracks, fun g hg hgname => ?_, fun j halive hj => absurd hj (hgone j halive),
      fun hover => ⟨(hl.stopped hover).1, hgone⟩⟩
    obtain ⟨e, he, hename, hid⟩ := hfeatures g hg
    exact hid ▸ hl.supervised e he (hename.trans hgname)

theorem isRestart_entry (htable : WellFormed k.supervisor) (hname : f.name = name)
    (hid : f.serviceId ≠ 0) (hv : Entry k.supervisor name v) :
    isRestart k.supervisor f = true := by
  simp [isRestart, hid, hname, hv.find htable]

theorem Watched.due (hw : Watched name (k, h)) (hc : Cleared k p now f) (hname : f.name = name)
    (hv : Entry k.supervisor name v) :
    isRestart k.supervisor f = true ∧ MayRestart k.supervisor v now ∧ RestartDue h now := by
  have hl := hw.listed v hv
  have hid := hl.supervised f hc.mem hname
  have hrestart := isRestart_entry hw.table hname hid hv
  obtain ⟨w, hfind, hmay, -⟩ := hc.allowed hrestart
  rw [hname] at hfind
  obtain rfl := hv.unique hw.table (find_entry hfind)
  refine ⟨hrestart, hmay, ?_, ?_, ?_⟩
  · by_contra hasked
    have hprogress := hw.asked (Bool.not_eq_false _ ▸ hasked)
    rw [hmay.inProgress] at hprogress
    cases hprogress
  · exact hl.tracks.due.trans (UInt64.le_iff_toNat_le.mp hmay.backoff)
  · rw [← hl.tracks.failures, ← hl.tracks.maxRestarts]
    rcases hmay.limit with hzero | hle
    · have hpos := hw.policy.1
      rw [← hl.tracks.maxRestarts, hzero] at hpos
      exact absurd hpos (lt_irrefl 0)
    · exact UInt32.le_iff_toNat_le.mp hle

theorem ServiceMade.noted_services (hmade : ServiceMade name k j k1)
    (f : Feature) (p : CStr) (m : Image) :
    SameServices k.userland (k1.noted f p k.nextPid m).userland := by
  rw [← hmade.userland]
  exact noteNativeProcessSpawn_sameServices _ _ _ _ _

section
variable (hw : Watched name (k, h)) (hc : Cleared k p now f) (hname : f.name = name)
include hw hc hname

theorem Watched.only_pid (hmade : ServiceMade name k j k1) {l : Fin 256}
    (hlive : (k1.procs l).Live) (hlname : (k1.procs l).name = name) :
    (k1.procs l).pid = k.nextPid := by
  rw [hw.only_child hc hname hmade hlive hlname]
  exact hmade.pid

theorem Watched.restarted (hmade : ServiceMade name k j k1) (hpid : k.nextPid ≠ 0)
    (hv : Entry k.supervisor name v) (hclock : h.clock ≤ now.toNat)
    (hlater : now.toNat ≤ later.toNat) (hdone : (k1.registration f k.nextPid).2 = aegisOk)
    (howned : SlotsOwned { k1.noted f p k.nextPid m with
      supervisor := (noteRestart (k1.registration f k.nextPid).1 f.name.str k.nextPid later).1 }) :
    Watched name ({ k1.noted f p k.nextPid m with
      supervisor := (noteRestart (k1.registration f k.nextPid).1 f.name.str k.nextPid later).1 },
      { h with clock := later.toNat }) := by
  have hl := hw.listed v hv
  obtain ⟨-, hmay, hdue⟩ := hw.due hc hname hv
  unfold State.registration at hdone howned ⊢
  rw [hmade.supervisor, hname] at hdone howned ⊢
  obtain ⟨st, hregistered⟩ := hv.register hw.table hdone
  have hregister := nativeRegisterStarting_touches k.supervisor name f.serviceId k.nextPid
    (spawnPolicy name.str)
  have hregtable := hregister.calm.wellFormed hw.table
  have hentry := hregistered.restarted hregtable hpid (hregister.shutdown.trans hmay.inProgress)
    hmay.requested later
  have htable := (noteRestart_touches _ name k.nextPid later).calm.wellFormed hregtable
  refine ⟨howned, htable, fun l hlive hlname => ?_, hw.policy, fun t ht => ?_, fun hs => ?_,
    fun hnone => absurd hentry (hnone _), fun w hentry' => ?_⟩
  · exact (hw.only_pid hc hname hmade hlive hlname).symm ▸ hpid
  · obtain ⟨hpos, hle⟩ := hw.past t ht
    exact ⟨hpos, (hle.trans hclock).trans hlater⟩
  · rw [hdue.running] at hs
    cases hs
  · obtain rfl := hentry.unique htable hentry'
    have htracks := hl.tracks
    refine ⟨⟨htracks.maxRestarts, htracks.window, htracks.backoff, htracks.failures, htracks.first, ?_⟩,
      fun g hg hgname => ?_, fun l halive hlname => hw.only_pid hc hname hmade halive.1 hlname, fun hover => ?_⟩
    · exact hdue.backoff.trans hlater
    · obtain ⟨e, he, hename, hid⟩ := hmade.noted_services f p m g hg
      exact hid ▸ hl.supervised e he (hename.trans hgname)
    · exact absurd hdue.limit (not_le.mpr hover)

theorem Watched.registered (hid : f.serviceId ≠ 0) (hmade : ServiceMade name k j k1)
    (hpid : k.nextPid ≠ 0) (hnone : ∀ v, ¬Entry k.supervisor name v)
    (hdone : (k1.registration f k.nextPid).2 = aegisOk)
    (howned : SlotsOwned
      { k1.noted f p k.nextPid m with supervisor := (k1.registration f k.nextPid).1 }) :
    Watched name ({ k1.noted f p k.nextPid m with supervisor := (k1.registration f k.nextPid).1 },
      { h with clock := later.toNat }) := by
  obtain ⟨hexits, hpolicy⟩ := hw.absent hnone
  unfold State.registration at hdone howned ⊢
  rw [hmade.supervisor, hname] at hdone howned ⊢
  have hregister := nativeRegisterStarting_touches k.supervisor name f.serviceId k.nextPid
    (spawnPolicy name.str)
  have htable := hregister.calm.wellFormed hw.table
  refine ⟨howned, htable, fun l hlive hlname => ?_, hw.policy, fun t ht => ?_, fun hs => ?_,
    fun _ => hw.absent hnone, fun w hentry => ?_⟩
  · exact (hw.only_pid hc hname hmade hlive hlname).symm ▸ hpid
  · rw [hexits] at ht
    cases ht
  · exact hregister.shutdown.trans (hw.asked hs)
  · obtain rfl := register_fresh hnone hentry
    refine ⟨?_, fun g hg hgname => ?_, fun l halive hlname => hw.only_pid hc hname hmade halive.1 hlname, fun hover => ?_⟩
    · rw [hexits, hpolicy]
      exact ⟨rfl, rfl, rfl, rfl, rfl, zero_le _⟩
    · obtain ⟨e, he, hename, hsame⟩ := hmade.noted_services f p m g hg
      obtain ⟨n, hn⟩ := List.mem_iff_getElem?.mp he
      obtain ⟨m, hm⟩ := List.mem_iff_getElem?.mp hc.mem
      have hplace := KeyedList.index_unique hw.owned.pids.catalogue.names hn hm
        ((hename.trans hgname).trans hname.symm)
      rw [hplace] at hn
      obtain rfl := some.inj (hn.symm.trans hm)
      exact hsame ▸ hid
    · rw [hexits] at hover
      exact absurd hover (not_lt_zero _)

end

theorem Watched.spawn (hw : Watched name (k, h)) (hclock : h.clock ≤ now.toNat)
    (hlater : now.toNat ≤ later.toNat) (hfree : PidFree k) (hpid : k.nextPid ≠ 0) :
    Watched name ((sysSpawn k path file now later).1, { h with clock := later.toNat }) := by
  have howned := hw.owned.spawn path file now later
  have hpast := hclock.trans hlater
  rcases sysSpawn_service name k path file now later with hu | ⟨f, p, m, j, k1, hc, hname, hmade, hpub⟩
  · exact hw.unmoved hu howned rfl rfl hpast fun hs => hu.entry.shutdown (hw.asked hs)
  have hfeatures := hmade.noted_services f p m
  have hpids : ∀ k2 : State, NoneMade name k1 k2 → ∀ l, (k2.procs l).Live → (k2.procs l).name = name →
      l = j ∧ (k2.procs l).pid ≠ 0 := by
    intro k2 hnone l hlive hl
    obtain ⟨hlive', hl', hpid', -⟩ := hnone l hlive hl
    obtain rfl := hw.only_child hc hname hmade hlive' hl'
    rw [hpid', hmade.pid]
    exact ⟨rfl, hpid⟩
  -- a child that is killed again leaves the entry and no live process
  have hkilled : ∀ k2 : State, k2.procs = k1.procs → k2.supervisor = k.supervisor →
      SameServices k.userland k2.userland → SlotsOwned (processKill k2 k.nextPid 9).1 →
      Watched name ((processKill k2 k.nextPid 9).1, { h with clock := later.toNat }) := by
    intro k2 hprocs hsupervisor hsame howned2
    have hnone : NoneMade name k1 (processKill k2 k.nextPid 9).1 :=
      NoneMade.trans (.of_procs hprocs) (.kill fun h9 => absurd h9 (by decide))
    refine hw.unseen howned2 (fun l hlive hl => (hpids _ hnone l hlive hl).2) ?_
      ((processKill_supervisor _ _ _).trans hsupervisor) hpast (.inr fun l halive hl => ?_)
    · rw [(processKill_quiet k2 k.nextPid 9).userland]
      exact hsame
    · rw [(hpids _ hnone l halive.1 hl).1] at halive
      exact halive.2 (killed_child_dead hfree hmade k2 hprocs)
  generalize (sysSpawn k path file now later).1 = k2 at hpub howned
  cases hpub with
  | unnoted => exact hkilled _ rfl hmade.supervisor hfeatures howned
  | unsupervised hid =>
    refine hw.unseen howned (fun l hlive hl => (hpids _ (.of_procs rfl) l hlive hl).2) hfeatures
      hmade.supervisor hpast (.inl fun v hv => ?_)
    exact (hw.listed v hv).supervised f hc.mem hname hid
  | unregistered hid hfailed =>
    have hsame : (k1.registration f k.nextPid).1 = k.supervisor := by
      unfold State.registration at hfailed ⊢
      rw [hmade.supervisor, hname] at hfailed ⊢
      exact register_refused hfailed
    exact hkilled _ rfl hsame hfeatures howned
  | registered hid hdone hfirst =>
    refine hw.registered hc hname hid hmade hpid (fun v hv => ?_) hdone howned
    rw [isRestart_entry hw.table hname hid hv] at hfirst
    cases hfirst
  | restarted hid hdone hagain =>
    obtain ⟨v, hfind, -⟩ := hc.allowed hagain
    rw [hname] at hfind
    exact hw.restarted hc hname hmade hpid (find_entry hfind) hclock hlater hdone howned

/-! Runs. -/

theorem note_other (name : CArray 32) (k : State) (h : History) (hc : c.counts = false) :
    (h.note name k c).policy = h.policy ∧ (h.note name k c).exits = h.exits ∧
      (h.note name k c).clock = h.clock ∧ ((h.note name k c).shutdown = true →
        h.shutdown = true ∨ ∃ mode reason, c = .shutdown mode reason ∧ mayShutdown k) := by
  cases c with
  | spawn | exit => cases hc
  | shutdown mode reason =>
    refine ⟨rfl, rfl, rfl, fun hs => ?_⟩
    rcases Bool.or_eq_true_iff.mp hs with hold | hmay
    · exact .inl hold
    · exact .inr ⟨mode, reason, rfl, of_decide_eq_true hmay⟩
  | _ => exact ⟨rfl, rfl, rfl, .inl⟩

theorem Watched.call (hw : Watched name (k, h)) (hok : PolicyMet name (k, h) (.call c))
    (hstep : dispatch k c = some k') : Watched name (k', h.note name k c) := by
  have howned : SlotsOwned k' := by
    refine hw.owned.step ?_ hstep
    cases c with
    | bindCurrent label m slot ppid => exact hok.2
    | _ => trivial
  unfold dispatch at hstep
  split at hstep
  · cases hstep
  by_cases hc : c.counts = false
  · have hu : Unmoved name k k' := by
      refine .perform hc (fun pid signal heq => ?_) hstep
      subst heq
      exact hok.2
    obtain ⟨hpolicy, hexits, hclock, hshutdown⟩ := note_other name k h hc
    refine hw.unmoved hu howned hpolicy hexits hclock.ge fun hs => ?_
    rcases hshutdown hs with hold | ⟨mode, reason, rfl, hmay⟩
    · exact hu.entry.shutdown (hw.asked hold)
    cases hstep
    rw [sysShutdown_supervisor hmay]
    rfl
  · cases c <;> simp only [Call.counts, not_true_eq_false] at hc
    case spawn path file now later =>
      cases hstep
      exact hw.spawn hok.1.1 hok.1.2 hok.2.1 hok.2.2
    case serviceReady label =>
      cases hstep
      have hu := hw.ready hok.2
      exact hw.unmoved hu howned rfl rfl le_rfl fun hs => hu.entry.shutdown (hw.asked hs)
    case exit code now => exact hw.exit hok.1 hok.2 howned hstep
    case bindCurrent label m slot ppid => exact hok.2.elim

theorem Watched.step (hw : Watched name s) (hok : PolicyMet name s a)
    (hstep : act name s a = some s') : Watched name s' := by
  obtain ⟨k, h⟩ := s
  cases a with
  | setPolicy maxRestarts window backoff => exact hw.setPolicy hok.2 hstep
  | call c =>
    obtain ⟨k1, hdispatch, heq⟩ := map_eq_some_iff.mp hstep
    cases heq
    exact hw.call hok hdispatch

theorem Watched.given_up (hw : Watched name s)
    (hover : s.2.policy.maxRestarts < s.2.policy.count s.2.exits) (hok : PolicyMet name s a)
    (hstep : act name s a = some s') : s'.2.policy.maxRestarts < s'.2.policy.count s'.2.exits := by
  obtain ⟨k, h⟩ := s
  cases a with
  | setPolicy maxRestarts window backoff =>
    have hunused : h.exits = [] := hok.2.1
    rw [hunused] at hover
    exact absurd hover (not_lt_zero _)
  | call c =>
    obtain ⟨k1, -, heq⟩ := map_eq_some_iff.mp hstep
    cases heq
    by_cases hc : c.counts = false
    · obtain ⟨hpolicy, hexits, -⟩ := note_other name k h hc
      rw [hpolicy, hexits]
      exact hover
    cases c <;> simp only [Call.counts, not_true_eq_false] at hc
    case spawn | serviceReady | bindCurrent => exact hover
    case exit code now =>
      have hno : serviceExits name k = false := by
        rw [Bool.eq_false_iff]
        intro hcounts
        obtain ⟨i, v, hi, hname, hv⟩ := serviceExits_spec hcounts
        have hlive := exitingEntry_live hw.owned hi
        have hnotdead := (hok.2 hcounts).2.2 i hi
        exact ((hw.listed v hv).stopped hover).2 i ⟨hlive, hnotdead⟩ hname
      simpa [History.note, hno] using hover

theorem Launched.watched {f : FileRead} {i : Fin 16} {out : Loaded}
    (hl : Launched k0 f i out j k) (hunborn : Unborn k0) (hinit : k.supervisor = .init) :
    Watched name (k, .start) := by
  have hnone : ∀ v, ¬Entry k.supervisor name v := by
    rintro v ⟨hv, -⟩
    rw [hinit] at hv
    cases hv
  refine ⟨hl.slotsOwned hunborn, hinit ▸ wellFormed_init, fun l hlive _ => ?_, ?_, fun t ht => ?_,
    fun hs => ?_, fun _ => ⟨rfl, rfl⟩, fun v hv => absurd hv (hnone v)⟩
  · obtain ⟨p, hpid, -, -, -, -, hprocs⟩ := hl.procs
    rw [hunborn.nextPid] at hpid
    rw [hprocs] at hlive ⊢
    by_cases hlj : l = j
    · rw [hlj, update_self, hpid]
      decide
    · rw [update_of_ne hlj, hunborn.procs] at hlive
      exact absurd hlive processZero_not_live
  · dsimp only [History.start]
    decide
  · cases ht
  · cases hs

theorem Watched.starts (hw : Watched name (k, h)) (hv : Entry k.supervisor name v)
    (hstarts : Starts name k (sysSpawn k path file now later).1) : RestartDue h now := by
  rcases sysSpawn_service name k path file now later with hu | ⟨f, p, m, j, k1, hc, hname, -⟩
  · obtain ⟨j, hfree, hlive, hj⟩ := hstarts
    exact absurd (hu.processes j hlive hj).1 hfree
  · exact (hw.due hc hname hv).2.2

theorem Watched.entry (hw : Watched name (k, h))
    (hover : h.policy.maxRestarts < h.policy.count h.exits) : ∃ v, Entry k.supervisor name v := by
  by_contra hnone
  obtain ⟨hexits, -⟩ := hw.absent (not_exists.mp hnone)
  rw [hexits] at hover
  exact not_lt_zero _ hover

end

/-- From the launch of the first process, over every run that meets the condition: a service
the supervisor knows is started again only when no shutdown was requested, its backoff has
passed and its limit is not exceeded; and once the limit was exceeded, it is stopped and not
started any more. -/
theorem restart_policy_kept (name : CArray 32) (k0 k1 k : State) (prepared : CStr → Option UInt32)
    (image : Option FileRead) (acts : List Act) (h : History) (hunborn : Unborn k0)
    (hlaunch : launchNativePid1 k0 prepared image = some k1)
    (hrun : Run (act name) (PolicyMet name) (k1, .start) acts (k, h)) :
    (∀ path file now later, (find k.supervisor name.str).isSome = true →
      Starts name k (sysSpawn k path file now later).1 → RestartDue h now) ∧
    (h.policy.maxRestarts < h.policy.count h.exits → ∀ acts' k' h',
      Run (act name) (PolicyMet name) (k, h) acts' (k', h') →
        (∃ v, find k'.supervisor name.str = some v ∧ v.state = .stopped) ∧
        ∀ path file now later, ¬Starts name k' (sysSpawn k' path file now later).1) := by
  obtain ⟨f, i, out, j, -, hinit, hlaunched⟩ := launched_spec hlaunch
  have hstart : Watched name (k1, .start) := hlaunched.watched hunborn hinit
  have hw : Watched name (k, h) :=
    hrun.invariant (fun _ _ _ hw hok hstep => hw.step hok hstep) hstart
  refine ⟨fun path file now later hknown hstarts => ?_, fun hover acts' k' h' hrun' => ?_⟩
  · obtain ⟨v, hfind⟩ := isSome_iff_exists.mp hknown
    exact hw.starts (find_entry hfind) hstarts
  have hgone : Watched name (k', h') ∧ h'.policy.maxRestarts < h'.policy.count h'.exits :=
    hrun'.invariant
      (I := fun s => Watched name s ∧ s.2.policy.maxRestarts < s.2.policy.count s.2.exits)
      (fun _ _ _ hI hok hstep => ⟨hI.1.step hok hstep, hI.1.given_up hI.2 hok hstep⟩) ⟨hw, hover⟩
  obtain ⟨v, hv⟩ := hgone.1.entry hgone.2
  refine ⟨⟨v, hv.find hgone.1.table, ((hgone.1.listed v hv).stopped hgone.2).1⟩, ?_⟩
  intro path file now later hstarts
  exact absurd (hgone.1.starts hv hstarts).limit (not_le.mpr hgone.2)

/-! Runs of the daemon. -/

def daemonName : CArray 32 := strcopy aegisd

def spawnDaemon (now : UInt64) : Call :=
  .spawn (some (strcopy (cstr "/sbin/aegisd"))) (some ⟨plainImage, 120⟩) now now

def daemonSpawned (k : State) (now : UInt64) : State :=
  (sysSpawn k (some (strcopy (cstr "/sbin/aegisd"))) (some ⟨plainImage, 120⟩) now now).1

/-- The idle task yields to the daemon, the daemon exits, and the first process reaps it. -/
def endDaemon (pid now : UInt64) : List Act :=
  [.call .yield, .call .yield, .call (.exit 3 now), .call (.waitpid pid 0 none)]

/-- The second entry of the table is taken by a process of the daemon. -/
def DaemonStarts (k k' : State) : Prop :=
  ¬(k.procs 1).Live ∧ (k'.procs 1).Live ∧ (k'.procs 1).name = daemonName
  deriving Decidable

/-- The daemon is started again when its backoff has passed, and given up at its second
exit. -/
theorem daemon_restarted_then_stopped :
    ∃ k1 k k' h h', launchNativePid1 initTaskRunning (fun _ => some 7)
        (some ⟨plainImage, 120⟩) = some k1 ∧
      Run (act daemonName) (PolicyMet daemonName) (k1, .start)
        (.call (spawnDaemon 1) :: .setPolicy 1 1000 10 :: endDaemon 2 5) (k, h) ∧
      Starts daemonName k (daemonSpawned k 15) ∧ RestartDue h 15 ∧
      Run (act daemonName) (PolicyMet daemonName) (k, h)
        (.call (spawnDaemon 15) :: endDaemon 3 16) (k', h') ∧
      ∃ v, find k'.supervisor daemonName.str = some v ∧ v.state = .stopped := by
  have hexec : (launchNativePid1 initTaskRunning (fun _ => some 7)
      (some ⟨plainImage, 120⟩)).any (fun k1 =>
      (execute (act daemonName) (PolicyMet daemonName) (k1, .start)
        (.call (spawnDaemon 1) :: .setPolicy 1 1000 10 :: endDaemon 2 5)).any fun s =>
        decide ((find s.1.supervisor daemonName.str).isSome = true ∧
          DaemonStarts s.1 (daemonSpawned s.1 15) ∧
          (execute (act daemonName) (PolicyMet daemonName) s
            (.call (spawnDaemon 15) :: endDaemon 3 16)).any (fun s' =>
              decide (s'.2.policy.maxRestarts < s'.2.policy.count s'.2.exits)) = true)) = true := by
    decide +kernel
  obtain ⟨k1, hlaunch, hfirst⟩ := (any_eq_true _ _).mp hexec
  obtain ⟨⟨k, h⟩, hrun, hknown, hone, hsecond⟩ := Run.exists_of_execute hfirst
  obtain ⟨⟨k', h'⟩, hrun', hover⟩ := Run.exists_of_execute hsecond
  have hkept := restart_policy_kept daemonName initTaskRunning k1 k _ _ _ h
    ⟨fun _ => rfl, rfl⟩ hlaunch hrun
  have hgone := restart_policy_kept daemonName initTaskRunning k1 k' _ _ _ h'
    ⟨fun _ => rfl, rfl⟩ hlaunch (hrun.append hrun')
  exact ⟨k1, k, k', h, h', hlaunch, hrun, ⟨1, hone⟩, hkept.1 _ _ 15 15 hknown ⟨1, hone⟩, hrun',
    (hgone.2 hover [] k' h' (.nil _)).1⟩

/-- An exit at the time zero is forgotten, so that the second one counts as the first, and
a backoff that wraps is no backoff: both times the daemon is started too early. -/
theorem daemon_restarted_early : ∃ k1, launchNativePid1 initTaskRunning (fun _ => some 7)
        (some ⟨plainImage, 120⟩) = some k1 ∧
      (∃ k h, Run (act daemonName) ClockKept (k1, .start)
          (.call (spawnDaemon 0) :: endDaemon 2 0 ++ .call (spawnDaemon 10) :: endDaemon 3 10) (k, h) ∧
        h.policy = .default ∧ h.exits = [10, 0] ∧
        Starts daemonName k (daemonSpawned k 20) ∧ ¬RestartDue h 20) ∧
      ∃ k h, Run (act daemonName) ClockKept (k1, .start)
          (.call (spawnDaemon 1) :: .setPolicy 5 0xFFFFFFFFFFFFFFFF 0x8000000000000000 ::
            endDaemon 2 1 ++ .call (spawnDaemon 0x8000000000000001) ::
            endDaemon 3 0x8000000000000001) (k, h) ∧
        Starts daemonName k (daemonSpawned k 0x8000000000000001) ∧
        ¬RestartDue h 0x8000000000000001 := by
  have hexec : (launchNativePid1 initTaskRunning (fun _ => some 7)
      (some ⟨plainImage, 120⟩)).any (fun k1 =>
      ((execute (act daemonName) ClockKept (k1, .start)
        (.call (spawnDaemon 0) :: endDaemon 2 0 ++ .call (spawnDaemon 10) :: endDaemon 3 10)).any
        fun s => decide (s.2.policy = .default ∧ s.2.exits = [10, 0] ∧
          DaemonStarts s.1 (daemonSpawned s.1 20) ∧ ¬s.2.policy.dueAt s.2.exits ≤ 20)) &&
      (execute (act daemonName) ClockKept (k1, .start)
        (.call (spawnDaemon 1) :: .setPolicy 5 0xFFFFFFFFFFFFFFFF 0x8000000000000000 ::
          endDaemon 2 1 ++ .call (spawnDaemon 0x8000000000000001) ::
          endDaemon 3 0x8000000000000001)).any
        fun s => decide (DaemonStarts s.1 (daemonSpawned s.1 0x8000000000000001) ∧
          ¬s.2.policy.dueAt s.2.exits ≤ 0x8000000000000001)) = true := by
    decide +kernel
  obtain ⟨k1, hlaunch, hboth⟩ := (any_eq_true _ _).mp hexec
  obtain ⟨hzero, hwrap⟩ := (Bool.and_eq_true_iff).mp hboth
  obtain ⟨⟨k, h⟩, hrun, hpolicy, hexits, hone, hdue⟩ := Run.exists_of_execute hzero
  obtain ⟨⟨k', h'⟩, hrun', hone', hdue'⟩ := Run.exists_of_execute hwrap
  exact ⟨k1, hlaunch, ⟨k, h, hrun, hpolicy, hexits, ⟨1, hone⟩, fun hr => hdue hr.backoff⟩,
    k', h', hrun', ⟨1, hone'⟩, fun hr => hdue' hr.backoff⟩

end AegisOS.Kernel
