import AegisOS.Lib.CString
import AegisOS.Errno
import AegisOS.Lib.KeyedList
import AegisOS.Lib.GuardedRun

/-! The service supervisor (`kernel/core/service_supervisor.c`), as far as native
processes report to it. The table is the list of its used entries; the clock is
passed in. -/
namespace AegisOS.ServiceSupervisor
open CString

def supervisorServiceMax : Nat := 16
def policyRequired : UInt32 := 1
def policyRestartOnFault : UInt32 := 2
def policyControlPlane : UInt32 := 4

inductive ServiceState
  | empty | registered | starting | running | faulted | restarting | stopped
  deriving DecidableEq

inductive FaultKind
  | none | exit | pageFault | watchdog | ipc
  deriving DecidableEq

/-- The fields of a decoded exception that the supervisor looks at. -/
structure Fault where
  esr : UInt64
  far : UInt64
  elr : UInt64
  ec : UInt64
  fsc : UInt64
  fromLowerEl : Bool
  write : Bool
  isPageFault : Bool

structure FaultRecord where
  kind : FaultKind
  serviceId : UInt32
  pid : UInt32
  faultCountSnapshot : UInt32
  exitCode : Int
  fault : Fault

def FaultRecord.zero : FaultRecord := ⟨.none, 0, 0, 0, 0, ⟨0, 0, 0, 0, 0, false, false, false⟩⟩

structure Service where
  id : UInt32
  serviceId : UInt32
  pid : UInt32
  name : CArray 32
  state : ServiceState
  policy : UInt32
  restartCount : UInt32
  faultCount : UInt32
  consecutiveFailures : UInt32
  maxRestarts : UInt32
  restartWindowTicks : UInt64
  baseBackoffTicks : UInt64
  firstFailureTick : UInt64
  nextRestartTick : UInt64
  shutdownRequested : Bool
  lastExitCode : Int
  lastFault : FaultRecord

/-- What the supervisor keeps of the last fault recorded by `record_fault`. -/
structure FaultProof where
  faultProofReady : Bool
  pageFaultProofReady : Bool
  serviceMarkedFaulted : Bool
  supervisorHandoffPreserved : Bool
  lastFaultServiceId : UInt32
  lastFaultPid : UInt32
  lastFaultFar : UInt64
  lastFaultElr : UInt64
  lastFaultEsr : UInt64

structure Supervisor where
  services : List Service
  initialised : Bool
  registryReady : Bool
  servicesRunning : Bool
  runningCount : UInt32
  faultedCount : UInt32
  totalFaults : UInt32
  totalRestarts : UInt32
  restartThrottledCount : UInt32
  permanentlyFaultedCount : UInt32
  shutdownInProgress : Bool
  nextSupervisedId : UInt32
  proof : FaultProof

/-- `service_supervisor_init` -/
def Supervisor.init : Supervisor :=
  ⟨[], true, false, false, 0, 0, 0, 0, 0, 0, false, 1, ⟨false, false, false, false, 0, 0, 0, 0, 0⟩⟩

def called (name : CStr) (v : Service) : Bool := v.state ≠ .empty && v.name.str = name

def findMut (s : Supervisor) (name : CStr) : Option Nat := s.services.findIdx? (called name)

def find (s : Supervisor) (name : CStr) : Option Service := s.services.find? (called name)

def Supervisor.modify (s : Supervisor) (k : Nat) (f : Service → Service) : Supervisor :=
  { s with services := s.services.modify k f }

def down (n : UInt32) : UInt32 := if n = 0 then 0 else n - 1

def freshService (id serviceId pid policy : UInt32) (name : CStr) : Service where
  id := id
  serviceId := serviceId
  pid := pid
  name := strcopy name
  state := .starting
  policy := policy
  restartCount := 0
  faultCount := 0
  consecutiveFailures := 0
  maxRestarts := 5
  restartWindowTicks := 60 * 100
  baseBackoffTicks := 10
  firstFailureTick := 0
  nextRestartTick := 0
  shutdownRequested := false
  lastExitCode := 0
  lastFault := .zero

def nativeRegisterStarting (s : Supervisor) (name : CStr) (serviceId pid policy : UInt32) :
    Supervisor × Int :=
  if s.initialised = false ∨ name.bytes = [] ∨ pid = 0 then (s, aegisEinval)
  else
    match findMut s name with
    | some k =>
      let st := (s.services[k]?).map Service.state
      let next : ServiceState :=
        if st = some .faulted ∨ st = some .stopped then .restarting else .starting
      let running := if st = some .running then down s.runningCount else s.runningCount
      let faulted := if st = some .faulted then down s.faultedCount else s.faultedCount
      ({ s.modify k fun v =>
          { v with pid := pid, serviceId := serviceId, state := next, policy := policy } with
        runningCount := running
        faultedCount := faulted
        servicesRunning := running ≠ 0 }, aegisOk)
    | none =>
      if supervisorServiceMax ≤ s.services.length then (s, aegisEnomem)
      else
        ({ s with
          services := s.services ++ [freshService s.nextSupervisedId serviceId pid policy name]
          nextSupervisedId := s.nextSupervisedId + 1
          registryReady := true }, aegisOk)

def findPid (s : Supervisor) (name : CStr) (pid : UInt32) : Option Nat :=
  match findMut s name with
  | some k => if (s.services[k]?).map Service.pid = some pid then some k else none
  | none => none

def nativeMarkRunning (s : Supervisor) (name : CStr) (pid : UInt32) : Supervisor × Int :=
  if s.initialised = false ∨ pid = 0 then (s, aegisEinval)
  else
    match findPid s name pid with
    | none => (s, aegisEnoent)
    | some k =>
      let st := (s.services[k]?).map Service.state
      let running := if st = some .running then s.runningCount else s.runningCount + 1
      let faulted := if st = some .faulted then down s.faultedCount else s.faultedCount
      ({ s.modify k fun v => { v with state := .running } with
        runningCount := running
        faultedCount := faulted
        servicesRunning := running ≠ 0 }, aegisOk)

/-- The failure window, the backoff and the state an exit leaves in the entry. -/
def Service.exited (v : Service) (pid : UInt32) (code : Int) (now : UInt64) : Service :=
  let reset := v.firstFailureTick = 0 ∨ v.restartWindowTicks < now - v.firstFailureTick
  let failures := if reset then 1 else v.consecutiveFailures + 1
  let shift := if 6 < failures then 6 else failures - 1
  { v with
    faultCount := v.faultCount + 1
    consecutiveFailures := failures
    firstFailureTick := if reset then now else v.firstFailureTick
    nextRestartTick := now + v.baseBackoffTicks <<< shift.toUInt64
    lastExitCode := code
    lastFault :=
      { v.lastFault with kind := .exit, serviceId := v.serviceId, pid := pid, exitCode := code }
    state := if v.maxRestarts ≠ 0 ∧ v.maxRestarts < failures then .stopped else .faulted }

def nativeMarkExit (s : Supervisor) (name : CStr) (pid : UInt32) (code : Int) (now : UInt64) :
    Supervisor × Int :=
  if s.initialised = false ∨ pid = 0 then (s, aegisEinval)
  else
    match findPid s name pid with
    | none => (s, aegisEnoent)
    | some k =>
      let old := s.services[k]?
      let running :=
        if old.map Service.state = some .running then down s.runningCount else s.runningCount
      let s := s.modify k fun v => v.exited pid code now
      let stopped := (s.services[k]?).map Service.state = some .stopped
      ({ s with
        runningCount := running
        faultedCount := s.faultedCount + 1
        totalFaults := s.totalFaults + 1
        permanentlyFaultedCount :=
          if stopped then s.permanentlyFaultedCount + 1 else s.permanentlyFaultedCount
        servicesRunning := running ≠ 0 }, aegisOk)

/-- The throttle counter is the only thing a refusal changes. -/
def restartAllowed (s : Supervisor) (name : CStr) (now : UInt64) : Supervisor × Int :=
  match find s name with
  | none => (s, aegisEnoent)
  | some v =>
    if s.shutdownInProgress || v.shutdownRequested then (s, aegisEshutdown)
    else if v.policy &&& policyRestartOnFault = 0 then (s, aegisEperm)
    else if v.state = .stopped ∨ (v.maxRestarts ≠ 0 ∧ v.maxRestarts < v.consecutiveFailures) then
      (s, aegisEperm)
    else if now < v.nextRestartTick then
      ({ s with restartThrottledCount := s.restartThrottledCount + 1 }, aegisEagain)
    else (s, aegisOk)

def noteRestart (s : Supervisor) (name : CStr) (newPid : UInt32) (now : UInt64) :
    Supervisor × Int :=
  match findMut s name with
  | none => (s, aegisEinval)
  | some k =>
    if newPid = 0 then (s, aegisEinval)
    else if s.shutdownInProgress || (s.services[k]?).any Service.shutdownRequested then
      (s, aegisEshutdown)
    else
      let st := (s.services[k]?).map Service.state
      ({ s.modify k fun v =>
          { v with
            pid := newPid, state := .restarting, restartCount := v.restartCount + 1
            nextRestartTick := now } with
        faultedCount := if st = some .faulted then down s.faultedCount else s.faultedCount
        totalRestarts := s.totalRestarts + 1 }, aegisOk)

/-- A running service is marked faulted by an exception in it. -/
def recordFault (s : Supervisor) (name : CStr) (kind : FaultKind) (fault : Fault) (code : Int) :
    Supervisor × Int :=
  if s.servicesRunning = false then (s, aegisEinval)
  else
    match findMut s name with
    | none => (s, aegisEnoent)
    | some k =>
      match s.services[k]? with
      | none => (s, aegisEnoent)
      | some v =>
        if v.state ≠ .running then (s, aegisEinval)
        else if kind = .pageFault ∧ fault.isPageFault = false then (s, aegisEinval)
        else
          ({ s.modify k fun v =>
              { v with
                faultCount := v.faultCount + 1, lastExitCode := code, state := .faulted
                lastFault := ⟨kind, v.serviceId, v.pid, v.faultCount + 1, code, fault⟩ } with
            totalFaults := s.totalFaults + 1
            faultedCount := s.faultedCount + 1
            runningCount := down s.runningCount
            proof := ⟨true, kind = .pageFault && fault.isPageFault, true, true, v.serviceId, v.pid,
              fault.far, fault.elr, fault.esr⟩ }, aegisOk)

/-- `service_supervisor_set_restart_policy` -/
def setRestartPolicy (s : Supervisor) (name : CStr) (maxRestarts : UInt32)
    (restartWindowTicks baseBackoffTicks : UInt64) : Supervisor × Int :=
  match findMut s name with
  | none => (s, aegisEinval)
  | some k =>
    if maxRestarts = 0 ∨ restartWindowTicks = 0 ∨ baseBackoffTicks = 0 then (s, aegisEinval)
    else
      (s.modify k fun v =>
        { v with
          maxRestarts := maxRestarts, restartWindowTicks := restartWindowTicks
          baseBackoffTicks := baseBackoffTicks }, aegisOk)

def requestShutdown (s : Supervisor) (name : CStr) : Supervisor × Int :=
  match findMut s name with
  | none => (s, aegisEnoent)
  | some k =>
    let st := (s.services[k]?).map Service.state
    ({ s.modify k fun v => { v with shutdownRequested := true, state := .stopped } with
      runningCount := if st = some .running then down s.runningCount else s.runningCount }, aegisOk)

def beginShutdown (s : Supervisor) : Supervisor :=
  { s with
    shutdownInProgress := true
    services := s.services.map fun v => { v with shutdownRequested := true } }

/-! Which services the supervisor takes for running, and how each of its functions
changes that. -/
open KeyedList List GuardedRun Option

structure WellFormed (s : Supervisor) : Prop where
  initialised : s.initialised = true
  names : (s.services.map Service.name).Nodup
  used : ∀ v ∈ s.services, v.state ≠ .empty

theorem wellFormed_init : WellFormed .init := ⟨rfl, nodup_nil, by simp [Supervisor.init]⟩

/-- Some service of that name is recorded as running under that pid. -/
def RunningAs (s : Supervisor) (name : CArray 32) (pid : UInt32) : Prop :=
  ∃ v ∈ s.services, v.state = .running ∧ v.name = name ∧ v.pid = pid

/-- The table stays well formed and no service starts to run. -/
structure Calm (s t : Supervisor) : Prop where
  wellFormed : WellFormed s → WellFormed t
  running : ∀ name pid, RunningAs t name pid → RunningAs s name pid

theorem Calm.refl (s : Supervisor) : Calm s s := ⟨id, fun _ _ h => h⟩

variable {s t : Supervisor} {name : CStr} {pid : UInt32} {n : Nat} {v : Service}

theorem Calm.trans {u : Supervisor} (h : Calm s t) (h' : Calm t u) : Calm s u :=
  ⟨fun hs => h'.wellFormed (h.wellFormed hs), fun name pid hr => h.running name pid (h'.running name pid hr)⟩

theorem RunningAs.of_services (h : t.services = s.services)
    {name : CArray 32} (hr : RunningAs t name pid) : RunningAs s name pid := by
  rw [RunningAs, h] at hr
  exact hr

theorem Calm.of_services (h : t.services = s.services)
    (hinit : t.initialised = s.initialised) : Calm s t := by
  refine ⟨fun hs => ⟨hinit.trans hs.initialised, h ▸ hs.names, h ▸ hs.used⟩, ?_⟩
  exact fun name pid hr => hr.of_services h

section
variable {s t : Supervisor} {n : Nat} {f : Service → Service}

theorem wellFormed_modify (hs : WellFormed s) (ht : t.services = s.services.modify n f)
    (hinit : t.initialised = s.initialised) (hname : ∀ v, (f v).name = v.name)
    (hused : ∀ v, (f v).state ≠ .empty) : WellFormed t := by
  refine ⟨hinit.trans hs.initialised, ?_, ?_⟩
  · rw [ht, map_modify hname]
    exact hs.names
  intro v hv
  rw [ht] at hv
  rcases mem_of_modify hv with hold | ⟨u, -, rfl⟩
  · exact hs.used v hold
  · exact hused u

end

section
variable (s : Supervisor)

section
variable (v : Service) (pid : UInt32) (code : Int) (now : UInt64)

theorem exited_state :
    (v.exited pid code now).state = .stopped ∨ (v.exited pid code now).state = .faulted :=
  ite_eq_or_eq _ _ _

end

theorem findMut_spec (h : findMut s name = some n) :
    ∃ v, s.services[n]? = some v ∧ v.state ≠ .empty ∧ v.name.str = name := by
  obtain ⟨hn, hcalled, -⟩ := findIdx?_eq_some_iff_getElem.mp h
  refine ⟨_, getElem?_eq_getElem hn, ?_⟩
  simpa [called] using hcalled

theorem find_findMut (h : find s name = some v) :
    ∃ n, findMut s name = some n ∧ s.services[n]? = some v := by
  unfold find at h
  rw [find?_eq_bind_findIdx?_getElem?] at h
  obtain ⟨n, hn, hv⟩ := Option.bind_eq_some_iff.mp h
  exact ⟨n, hn, hv⟩

theorem findMut_none (h : findMut s name = none)
    (hv : v ∈ s.services) (hused : v.state ≠ .empty) : v.name.str ≠ name := by
  have hno := findIdx?_eq_none_iff.mp h v hv
  simpa [called, hused] using hno

theorem findPid_spec (h : findPid s name pid = some n) :
    findMut s name = some n ∧ ∃ v, s.services[n]? = some v ∧ v.name.str = name ∧ v.pid = pid := by
  unfold findPid at h
  cases hfind : findMut s name with
  | none =>
    rw [hfind] at h
    cases h
  | some m =>
    rw [hfind] at h
    dsimp only at h
    split at h
    next hpid =>
      cases h
      obtain ⟨v, hv, -, hname⟩ := findMut_spec s hfind
      rw [hv] at hpid
      exact ⟨rfl, v, hv, hname, Option.some.inj hpid⟩
    · cases h

theorem findPid_isSome (hs : WellFormed s) (hv : v ∈ s.services) :
    ∃ n, findPid s v.name.str v.pid = some n := by
  unfold findPid
  cases hfind : findMut s v.name.str with
  | none => exact absurd rfl (findMut_none s hfind hv (hs.used v hv))
  | some n =>
    obtain ⟨u, hu, -, hname⟩ := findMut_spec s hfind
    obtain ⟨m, hm⟩ := mem_iff_getElem?.mp hv
    have hidx : n = m := index_unique hs.names hu hm (CArray.ext hname)
    subst hidx
    rw [hu] at hm
    cases hm
    exact ⟨n, by simp [hu]⟩

/-- A function called for a service leaves the table, changes the service's entry or adds one
for it, which it leaves in a state as told. -/
structure Touches (s t : Supervisor) (name : CArray 32) (left : ServiceState → Prop) : Prop where
  initialised : t.initialised = s.initialised
  shutdown : t.shutdownInProgress = s.shutdownInProgress
  services : t.services = s.services ∨
    (∃ n f, findMut s name.str = some n ∧ t.services = s.services.modify n f ∧
      ∀ v, (f v).name = v.name ∧ left (f v).state) ∨
    (findMut s name.str = none ∧ ∃ v, t.services = s.services ++ [v] ∧ v.name = name ∧ left v.state)

def Resting (st : ServiceState) : Prop := st ≠ .running ∧ st ≠ .empty

section
variable (name : CArray 32) {left : ServiceState → Prop}

theorem Touches.same : Touches s s name left := ⟨rfl, rfl, .inl rfl⟩

variable {s name}

theorem Touches.wellFormed (h : Touches s t name left) (hleft : ∀ st, left st → st ≠ .empty)
    (hs : WellFormed s) : WellFormed t := by
  rcases h.services with heq | ⟨n, f, -, heq, hf⟩ | ⟨hnone, u, heq, rfl, hu⟩
  · exact (Calm.of_services heq h.initialised).wellFormed hs
  · exact wellFormed_modify hs heq h.initialised (fun v => (hf v).1) fun v => hleft _ (hf v).2
  refine ⟨h.initialised.trans hs.initialised, ?_, fun v hv => ?_⟩
  · rw [heq, map_append]
    refine nodup_append.mpr ⟨hs.names, by simp, ?_⟩
    intro a ha b hb
    obtain ⟨v, hv, rfl⟩ := mem_map.mp ha
    rw [mem_singleton.mp hb]
    exact fun hname => findMut_none s hnone hv (hs.used v hv) (congrArg CArray.str hname)
  · rw [heq] at hv
    rcases mem_append.mp hv with hold | hnew
    · exact hs.used v hold
    · exact mem_singleton.mp hnew ▸ hleft _ hu

theorem Touches.calm (h : Touches s t name Resting) : Calm s t := by
  refine ⟨h.wellFormed fun st hst => hst.2, ?_⟩
  rintro label pid ⟨v, hv, hrun, hn, hp⟩
  refine ⟨v, ?_, hrun, hn, hp⟩
  rcases h.services with heq | ⟨n, f, -, heq, hf⟩ | ⟨-, u, heq, -, hu⟩
  · exact heq ▸ hv
  · rw [heq] at hv
    rcases mem_of_modify hv with hold | ⟨u, -, rfl⟩
    · exact hold
    · exact absurd hrun (hf u).2.1
  · rw [heq] at hv
    refine (mem_append.mp hv).resolve_right fun hnew => ?_
    exact hu.1 (mem_singleton.mp hnew ▸ hrun)

variable (s name)

theorem nativeRegisterStarting_touches (serviceId pid policy : UInt32) :
    Touches s (nativeRegisterStarting s name.str serviceId pid policy).1 name Resting := by
  unfold nativeRegisterStarting
  split
  · exact .same s name
  cases hfind : findMut s name.str with
  | some n =>
    refine ⟨rfl, rfl, .inr (.inl ⟨n, _, hfind, rfl, fun v => ⟨rfl, ?_⟩⟩)⟩
    split <;> simp [Resting]
  | none =>
    dsimp only
    split
    · exact .same s name
    · exact ⟨rfl, rfl, .inr (.inr ⟨hfind, _, rfl, strcopy_str name, by simp [Resting, freshService]⟩)⟩

theorem noteRestart_touches (pid : UInt32) (now : UInt64) :
    Touches s (noteRestart s name.str pid now).1 name Resting := by
  unfold noteRestart
  cases hfind : findMut s name.str with
  | none => exact .same s name
  | some n =>
    dsimp only
    split
    · exact .same s name
    split
    · exact .same s name
    · exact ⟨rfl, rfl, .inr (.inl ⟨n, _, hfind, rfl, fun v => ⟨rfl, by simp [Resting]⟩⟩)⟩

theorem nativeMarkExit_touches (pid : UInt32) (code : Int) (now : UInt64) :
    Touches s (nativeMarkExit s name.str pid code now).1 name Resting := by
  unfold nativeMarkExit
  split
  · exact .same s name
  cases hfind : findPid s name.str pid with
  | none => exact .same s name
  | some n =>
    refine ⟨rfl, rfl, .inr (.inl ⟨n, _, (findPid_spec s hfind).1, rfl, fun v => ⟨rfl, ?_⟩⟩)⟩
    rcases exited_state v pid code now with h | h <;> rw [h] <;> simp [Resting]

theorem nativeMarkRunning_touches (pid : UInt32) :
    Touches s (nativeMarkRunning s name.str pid).1 name (· ≠ .empty) := by
  unfold nativeMarkRunning
  split
  · exact .same s name
  cases hfind : findPid s name.str pid with
  | none => exact .same s name
  | some n =>
    exact ⟨rfl, rfl, .inr (.inl ⟨n, _, (findPid_spec s hfind).1, rfl, fun v => ⟨rfl, by simp⟩⟩)⟩

end

theorem restartAllowed_calm (name : CStr) (now : UInt64) : Calm s (restartAllowed s name now).1 := by
  refine Calm.of_services ?_ ?_
  all_goals
    unfold restartAllowed
    cases find s name with
    | none => rfl
    | some v =>
      dsimp only
      split_ifs <;> rfl

theorem beginShutdown_calm : Calm s (beginShutdown s) := by
  refine ⟨fun hs => ⟨hs.initialised, ?_, ?_⟩, ?_⟩
  · simpa [beginShutdown, Function.comp_def] using hs.names
  · intro v hv
    obtain ⟨u, hu, rfl⟩ := mem_map.mp hv
    exact hs.used u hu
  · rintro name pid ⟨v, hv, hrun, hn, hp⟩
    obtain ⟨u, hu, rfl⟩ := mem_map.mp hv
    exact ⟨u, hu, hrun, hn, hp⟩

theorem nativeMarkExit_stops (hs : WellFormed s) (name : CArray 32) (hpid : pid ≠ 0)
    (code : Int) (now : UInt64) : ¬RunningAs (nativeMarkExit s name.str pid code now).1 name pid := by
  rintro ⟨v, hv, hrun, hn, hp⟩
  unfold nativeMarkExit at hv
  rw [if_neg (by simp [hs.initialised, hpid])] at hv
  cases hfind : findPid s name.str pid with
  | none =>
    rw [hfind] at hv
    subst hn hp
    obtain ⟨n, hn⟩ := findPid_isSome s hs hv
    rw [hfind] at hn
    cases hn
  | some n =>
    rw [hfind] at hv
    obtain ⟨-, u, hu, hname, -⟩ := findPid_spec s hfind
    rcases mem_modify hv with ⟨m, hne, hm⟩ | ⟨w, -, rfl⟩
    · exact hne (index_unique hs.names hm hu (hn.trans (CArray.ext hname).symm))
    · rcases exited_state w pid code now with h | h <;> rw [h] at hrun <;> cases hrun

theorem runningAs_nativeMarkRunning {name label : CArray 32} {p : UInt32}
    (h : RunningAs (nativeMarkRunning s name.str pid).1 label p) :
    RunningAs s label p ∨ label = name ∧ p = pid := by
  unfold nativeMarkRunning at h
  split at h
  · exact .inl h
  cases hfind : findPid s name.str pid with
  | none =>
    rw [hfind] at h
    exact .inl h
  | some m =>
    rw [hfind] at h
    obtain ⟨-, u, hu, hname, hpid⟩ := findPid_spec s hfind
    obtain ⟨v, hv, hrun, hn, hp⟩ := h
    rcases mem_modify hv with ⟨j, -, hj⟩ | ⟨w, hw, rfl⟩
    · exact .inl ⟨v, mem_of_getElem? hj, hrun, hn, hp⟩
    rw [hu] at hw
    cases hw
    exact .inr ⟨hn.symm.trans (CArray.ext hname), hp.symm.trans hpid⟩

end

/-! The counters of running and faulted services against the states in the table. Each
function adjusts them by hand next to the state it sets, and three of them miss a case. -/

inductive Request
  | registerStarting (name : CStr) (serviceId pid policy : UInt32)
  | markRunning (name : CStr) (pid : UInt32)
  | markExit (name : CStr) (pid : UInt32) (code : Int) (now : UInt64)
  | noteRestart (name : CStr) (newPid : UInt32) (now : UInt64)
  | recordFault (name : CStr) (kind : FaultKind) (fault : Fault) (code : Int)
  | requestShutdown (name : CStr)
  | beginShutdown

def serve (s : Supervisor) : Request → Supervisor
  | .registerStarting name serviceId pid policy =>
    (nativeRegisterStarting s name serviceId pid policy).1
  | .markRunning name pid => (nativeMarkRunning s name pid).1
  | .markExit name pid code now => (nativeMarkExit s name pid code now).1
  | .noteRestart name newPid now => (noteRestart s name newPid now).1
  | .recordFault name kind fault code => (recordFault s name kind fault code).1
  | .requestShutdown name => (requestShutdown s name).1
  | .beginShutdown => beginShutdown s

def tally (s : Supervisor) (st : ServiceState) : Nat := s.services.countP fun v => v.state = st

/-- The number of failures in the window after one more exit. -/
def failuresAfter (v : Service) (now : UInt64) : UInt32 :=
  if v.firstFailureTick = 0 ∨ v.restartWindowTicks < now - v.firstFailureTick then 1
  else v.consecutiveFailures + 1

/-- No exit is reported of a service that is faulted already or goes over its limit, no
restart of a running one is noted, and no faulted one is asked to shut down. -/
def StateCounted (s : Supervisor) : Request → Prop
  | .markExit name pid _ now =>
    ∀ n ∈ findPid s name pid, ∀ v ∈ s.services[n]?,
      v.state ≠ .faulted ∧ (v.maxRestarts ≠ 0 → failuresAfter v now ≤ v.maxRestarts)
  | .noteRestart name _ _ => ∀ n ∈ findMut s name, ∀ v ∈ s.services[n]?, v.state ≠ .running
  | .requestShutdown name => ∀ n ∈ findMut s name, ∀ v ∈ s.services[n]?, v.state ≠ .faulted
  | _ => True

instance (s : Supervisor) : (r : Request) → Decidable (StateCounted s r)
  | .markExit name pid _ _ =>
    inferInstanceAs (Decidable (∀ n ∈ findPid s name pid, ∀ v ∈ s.services[n]?, _ ∧ (_ → _)))
  | .noteRestart name _ _ => inferInstanceAs (Decidable (∀ n ∈ findMut s name, ∀ v ∈ s.services[n]?, _))
  | .requestShutdown name => inferInstanceAs (Decidable (∀ n ∈ findMut s name, ∀ v ∈ s.services[n]?, _))
  | .registerStarting _ _ _ _ | .markRunning _ _ | .recordFault _ _ _ _ | .beginShutdown =>
    .isTrue trivial

structure Counted (s : Supervisor) : Prop where
  running : s.runningCount.toNat = tally s .running
  faulted : s.faultedCount.toNat = tally s .faulted
  room : s.services.length ≤ supervisorServiceMax

/-- The counter `n` becomes `m` while one service leaves or enters the counted state. -/
def Moves (n m : UInt32) (before after : Bool) : Prop := m.toNat + before.toNat = n.toNat + after.toNat

theorem Moves.same (n : UInt32) (b : Bool) : Moves n n b b := rfl

variable {n : UInt32} {st : ServiceState} {now : UInt64} {name : CStr}

theorem Moves.down (h : 0 < n.toNat) : Moves n (down n) true false := by
  have hn : n ≠ 0 := by
    rintro rfl
    exact absurd h (by decide)
  have hle : (1 : UInt32) ≤ n := UInt32.le_iff_toNat_le.mpr h
  rw [Moves, ServiceSupervisor.down, if_neg hn, UInt32.toNat_sub_of_le _ _ hle]
  simp
  omega

theorem Moves.up (h : n.toNat < 2 ^ 32 - 1) : Moves n (n + 1) false true := by
  rw [Moves]
  simp
  omega

section
variable {s t : Supervisor} {n : Nat} {v : Service}

theorem tally_pos (hv : s.services[n]? = some v) (h : v.state = st) : 0 < tally s st :=
  countP_pos_iff.mpr ⟨v, mem_of_getElem? hv, by simpa using h⟩

theorem Counted.small (h : Counted s) (st : ServiceState) : tally s st < 2 ^ 32 - 1 := by
  have hle : tally s st ≤ s.services.length := countP_le_length
  have hroom := h.room
  unfold supervisorServiceMax at hroom
  omega

theorem Counted.modify {f : Service → Service} {b c : Bool} (h : Counted s)
    (ht : t.services = s.services.modify n f) (hv : s.services[n]? = some v)
    (hruns : decide ((f v).state = .running) = b) (hfaults : decide ((f v).state = .faulted) = c)
    (hr : Moves s.runningCount t.runningCount (v.state = .running) b)
    (hf : Moves s.faultedCount t.faultedCount (v.state = .faulted) c) : Counted t := by
  subst hruns hfaults
  have hcount : ∀ st, tally t st + (decide (v.state = st)).toNat =
      tally s st + (decide ((f v).state = st)).toNat := by
    intro st
    rw [tally, tally, ht]
    exact countP_modify hv
  have h1 := hcount .running
  have h2 := hcount .faulted
  have hrun := h.running
  have hfault := h.faulted
  unfold Moves at hr hf
  refine ⟨by omega, by omega, ?_⟩
  rw [ht, length_modify]
  exact h.room

theorem Moves.leave {c : UInt32} (hc : c.toNat = tally s st) (hv : s.services[n]? = some v) :
    Moves c (if (s.services[n]?).map Service.state = some st then ServiceSupervisor.down c else c)
      (v.state = st) false := by
  rw [hv, map_some]
  by_cases hst : v.state = st
  · rw [if_pos (congrArg some hst), decide_eq_true hst]
    exact .down (hc ▸ tally_pos hv hst)
  · rw [if_neg fun heq => hst (some.inj heq), decide_eq_false hst]
    exact .same c false

theorem Counted.registerStarting (h : Counted s) (name : CStr) (serviceId pid policy : UInt32) :
    Counted (nativeRegisterStarting s name serviceId pid policy).1 := by
  unfold nativeRegisterStarting
  split
  · exact h
  cases hfind : findMut s name with
  | some n =>
    obtain ⟨v, hv, -, -⟩ := findMut_spec s hfind
    refine h.modify rfl hv ?_ ?_ (.leave h.running hv) (.leave h.faulted hv)
    · split <;> rfl
    · dsimp only
      split <;> rfl
  | none =>
    dsimp only
    split
    · exact h
    have hnew : ∀ st, st ≠ .starting → countP (fun v => decide (v.state = st))
        (s.services ++ [freshService s.nextSupervisedId serviceId pid policy name]) = tally s st := by
      intro st hst
      rw [countP_append, countP_singleton, if_neg]
      · rfl
      · exact fun hp => hst (of_decide_eq_true hp).symm
    refine ⟨h.running.trans (hnew _ (by decide)).symm, h.faulted.trans (hnew _ (by decide)).symm, ?_⟩
    simp only [length_append, length_singleton]
    omega

theorem Counted.markRunning (h : Counted s) (name : CStr) (pid : UInt32) :
    Counted (nativeMarkRunning s name pid).1 := by
  unfold nativeMarkRunning
  split
  · exact h
  cases hfind : findPid s name pid with
  | none => exact h
  | some n =>
    obtain ⟨-, v, hv, -, -⟩ := findPid_spec s hfind
    refine h.modify rfl hv rfl rfl ?_ (.leave h.faulted hv)
    dsimp only
    rw [hv, map_some]
    by_cases hst : v.state = .running
    · rw [if_pos (congrArg some hst), decide_eq_true hst]
      exact .same _ true
    · rw [if_neg fun heq => hst (some.inj heq), decide_eq_false hst]
      exact .up (h.running ▸ h.small .running)

theorem exited_faulted (pid : UInt32) (code : Int)
    (h : v.maxRestarts ≠ 0 → failuresAfter v now ≤ v.maxRestarts) :
    (v.exited pid code now).state = .faulted := by
  refine if_neg fun hover => ?_
  exact absurd (h hover.1) (UInt32.not_le.mpr hover.2)

section
variable (h : Counted s)
include h

theorem Counted.markExit {pid : UInt32} {code : Int}
    (hok : StateCounted s (.markExit name pid code now)) :
    Counted (nativeMarkExit s name pid code now).1 := by
  unfold nativeMarkExit
  split
  · exact h
  cases hfind : findPid s name pid with
  | none => exact h
  | some n =>
    obtain ⟨-, v, hv, -, -⟩ := findPid_spec s hfind
    obtain ⟨hnot, hlimit⟩ := hok n hfind v hv
    have hnow := exited_faulted pid code hlimit
    refine h.modify rfl hv (b := false) (c := true) ?_ ?_ (.leave h.running hv) ?_
    · rw [hnow]
      rfl
    · rw [hnow]
      rfl
    · rw [decide_eq_false hnot]
      exact .up (h.faulted ▸ h.small .faulted)

theorem Counted.noteRestart {newPid : UInt32}
    (hok : StateCounted s (.noteRestart name newPid now)) :
    Counted (noteRestart s name newPid now).1 := by
  unfold ServiceSupervisor.noteRestart
  cases hfind : findMut s name with
  | none => exact h
  | some n =>
    obtain ⟨v, hv, -, -⟩ := findMut_spec s hfind
    dsimp only
    split
    · exact h
    split
    · exact h
    refine h.modify rfl hv rfl rfl ?_ (.leave h.faulted hv)
    rw [decide_eq_false (hok n hfind v hv)]
    exact .same _ false

theorem Counted.recordFault (name : CStr) (kind : FaultKind) (fault : Fault) (code : Int) :
    Counted (recordFault s name kind fault code).1 := by
  unfold ServiceSupervisor.recordFault
  split
  · exact h
  cases hfind : findMut s name with
  | none => exact h
  | some n =>
    obtain ⟨v, hv, -, -⟩ := findMut_spec s hfind
    dsimp only
    rw [hv]
    dsimp only
    split
    · exact h
    rename_i hrun
    rw [not_not] at hrun
    split
    · exact h
    refine h.modify rfl hv rfl rfl ?_ ?_
    · rw [decide_eq_true hrun]
      exact .down (h.running ▸ tally_pos hv hrun)
    · rw [hrun]
      exact .up (h.faulted ▸ h.small .faulted)

theorem Counted.requestShutdown (hok : StateCounted s (.requestShutdown name)) :
    Counted (requestShutdown s name).1 := by
  unfold ServiceSupervisor.requestShutdown
  cases hfind : findMut s name with
  | none => exact h
  | some n =>
    obtain ⟨v, hv, -, -⟩ := findMut_spec s hfind
    refine h.modify rfl hv rfl rfl (.leave h.running hv) ?_
    rw [decide_eq_false (hok n hfind v hv)]
    exact .same _ false

theorem Counted.beginShutdown : Counted (beginShutdown s) := by
  have hsame : ∀ st, tally (ServiceSupervisor.beginShutdown s) st = tally s st := by
    intro st
    rw [tally, ServiceSupervisor.beginShutdown, countP_map]
    rfl
  refine ⟨h.running.trans (hsame _).symm, h.faulted.trans (hsame _).symm, ?_⟩
  rw [ServiceSupervisor.beginShutdown, length_map]
  exact h.room

theorem Counted.serve {r : Request} (hok : StateCounted s r) : Counted (serve s r) := by
  cases r with
  | registerStarting name serviceId pid policy => exact h.registerStarting name serviceId pid policy
  | markRunning name pid => exact h.markRunning name pid
  | markExit name pid code now => exact h.markExit hok
  | noteRestart name newPid now => exact h.noteRestart hok
  | recordFault name kind fault code => exact h.recordFault name kind fault code
  | requestShutdown name => exact h.requestShutdown hok
  | beginShutdown => exact h.beginShutdown

end

theorem counted_init : Counted .init := ⟨rfl, rfl, by decide⟩

end

/-- From an initialised supervisor, in every run of requests that miss no case, both
counters are the numbers of services in the two states. -/
theorem counters_exact (s : Supervisor) (rs : List Request)
    (hrun : Run (fun s r => some (serve s r)) StateCounted .init rs s) :
    s.runningCount.toNat = tally s .running ∧ s.faultedCount.toNat = tally s .faulted := by
  have h : Counted s := hrun.invariant (I := Counted)
    (fun _ _ _ hs hok hstep => some.inj hstep ▸ hs.serve hok) counted_init
  exact ⟨h.running, h.faulted⟩

/-- A service starts, runs, exits, is restarted and runs again. -/
theorem counters_exact_after_restart : ∃ s, Run (fun s r => some (serve s r)) StateCounted .init
      [.registerStarting (cstr "netd") 4 2 2, .markRunning (cstr "netd") 2,
        .markExit (cstr "netd") 2 1 100, .registerStarting (cstr "netd") 4 3 2,
        .noteRestart (cstr "netd") 3 110, .markRunning (cstr "netd") 3] s ∧
      s.runningCount.toNat = tally s .running ∧ s.faultedCount.toNat = tally s .faulted := by
  exact Run.exists_of_execute_imp (P := fun _ => True)
    (fun s hrun _ => counters_exact s _ hrun) (by decide +kernel)

/-- Six exits in one window stop a service, which stays counted as faulted. -/
theorem stopped_service_counted_faulted : ∃ s, Run (fun s r => some (serve s r)) anyEvent .init
      ([.registerStarting (cstr "netd") 4 2 2, .markRunning (cstr "netd") 2] ++
        (range 6).flatMap fun _ =>
          [.markExit (cstr "netd") 2 1 100, .registerStarting (cstr "netd") 4 2 2]) s ∧
      s.faultedCount.toNat ≠ tally s .faulted := by
  exact Run.exists_of_execute (by decide +kernel)

end AegisOS.ServiceSupervisor
