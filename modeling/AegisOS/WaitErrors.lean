import AegisOS.Syscall

/-! Parents: a process that has ended can only be reaped by the process its entry names
as the parent, so that parent has to be there. An exit hands the children to pid 1; a
signal does not. -/
namespace AegisOS.Kernel
open CString GuardedRun Function

/-- The operations of the process layer, with the one that ends all processes but one. -/
inductive Operation
  | act (e : Event)
  | terminateAllExcept (keep : UInt32) (signal : Int)

def operate (k : State) : Operation → Option State
  | .act e => step k e
  | .terminateAllExcept keep signal => some (processTerminateAllExcept k keep signal).1

/-- The entry's parent is the kernel, pid 1 or another process that is alive. -/
def HasReaper (k : State) (i : Fin 256) : Prop :=
  (k.procs i).ppid = 0 ∨ (k.procs i).ppid = 1 ∨
    ∃ j, j ≠ i ∧ (k.procs j).pid = (k.procs i).ppid ∧ (k.procs j).Alive
  deriving Decidable

/-- The parent of a new process is the kernel, pid 1 or a process that is alive. -/
def GoodParent (k : State) (ppid : UInt32) : Prop :=
  ppid = 0 ∨ ppid = 1 ∨ ∃ j, (k.procs j).pid = ppid ∧ (k.procs j).Alive
  deriving Decidable

def Fatal (signal : Int) : Prop := signal = 9 ∨ signal = 15
  deriving Decidable

/-- No process is killed before its children, pid 1 excepted; when all but one are, the
others are children of that one, of pid 1 or of the kernel. -/
def ChildrenFirst (k : State) : Operation → Prop
  | .act (.create _ ppid) => GoodParent k ppid
  | .act (.spawnUserImage _ _ _ ppid) => GoodParent k ppid
  | .act (.bindCurrent _ _ _ ppid) => GoodParent k ppid
  | .act (.kill pid signal) =>
    Fatal signal → pid ≠ 0 → pid ≠ 1 → ∀ i ∈ processGet k pid, (k.procs i).state ≠ .zombie →
      ∀ j, j ≠ i → (k.procs j).Live → (k.procs j).ppid ≠ pid
  | .terminateAllExcept keep signal =>
    Fatal signal → ∀ i, (k.procs i).Live →
      (k.procs i).ppid = 0 ∨ (k.procs i).ppid = 1 ∨ (k.procs i).ppid = keep
  | _ => True

instance (k : State) : (o : Operation) → Decidable (ChildrenFirst k o)
  | .act (.create _ ppid) | .act (.spawnUserImage _ _ _ ppid) | .act (.bindCurrent _ _ _ ppid) =>
    inferInstanceAs (Decidable (GoodParent k ppid))
  | .act (.kill pid signal) => inferInstanceAs (Decidable (Fatal signal → pid ≠ 0 → pid ≠ 1 →
      ∀ i ∈ processGet k pid, _ → ∀ j, j ≠ i → (k.procs j).Live → _))
  | .terminateAllExcept _ signal =>
    inferInstanceAs (Decidable (Fatal signal → ∀ i, (k.procs i).Live → _))
  | .act (.exit _ _) | .act (.wait _) | .act (.waitAny _) | .act .yield | .act .schedulerRun
  | .act (.kernelTask _) | .act (.setIdle _) => .isTrue trivial

/-- Every process in use can be reaped, and a cleared entry records no task. -/
structure State.Fostered (k : State) : Prop where
  reaper : ∀ i, (k.procs i).Live → HasReaper k i
  vacant : ∀ i, ¬(k.procs i).Live → (k.procs i).task = none

variable {p : Process} {name : CStr} {ppid slot pid keep : UInt32} {m : Userland.Image}
  {signal : Int}

section
variable {k k' : State} {i j : Fin 256}

theorem HasReaper.mono (h : HasReaper k i) (hppid : (k'.procs i).ppid = (k.procs i).ppid)
    (halive : ∀ j, j ≠ i → (k.procs j).pid = (k.procs i).ppid → (k.procs j).Alive →
      (k.procs i).ppid ≠ 0 → (k.procs i).ppid ≠ 1 →
      (k'.procs j).pid = (k.procs j).pid ∧ (k'.procs j).Alive) :
    HasReaper k' i := by
  rw [HasReaper, hppid]
  by_cases h0 : (k.procs i).ppid = 0
  · exact .inl h0
  by_cases h1 : (k.procs i).ppid = 1
  · exact .inr (.inl h1)
  obtain hz | ho | ⟨j, hji, hpid, hj⟩ := h
  · exact absurd hz h0
  · exact absurd ho h1
  obtain ⟨hpid', hj'⟩ := halive j hji hpid hj h0 h1
  exact .inr (.inr ⟨j, hji, hpid'.trans hpid, hj'⟩)

section
variable (h : k.Fostered)
include h

theorem State.Fostered.of_procs (heq : k'.procs = k.procs) : k'.Fostered := by
  refine ⟨fun i hi => ?_, fun i hi => ?_⟩
  · rw [heq] at hi
    refine (h.reaper i hi).mono (by rw [heq]) fun j _ _ hj _ _ => ?_
    rw [heq]
    exact ⟨rfl, hj⟩
  · rw [heq] at hi ⊢
    exact h.vacant i hi

theorem State.Fostered.born (hfree : ¬(k.procs i).Live) (hp : p.Live)
    (hparent : GoodParent k p.ppid) (heq : k'.procs = update k.procs i p) : k'.Fostered := by
  have hself : k'.procs i = p := by rw [heq, update_self]
  have hother : ∀ j, j ≠ i → k'.procs j = k.procs j := fun j hj => by rw [heq, update_of_ne hj]
  have hne : ∀ j, (k.procs j).Alive → j ≠ i := fun j hj hji => hfree (hji ▸ hj.1)
  refine ⟨fun j hj => ?_, fun j hj => ?_⟩
  · by_cases hji : j = i
    · subst hji
      rw [HasReaper, hself]
      obtain h0 | h1 | ⟨w, hpid, hw⟩ := hparent
      · exact .inl h0
      · exact .inr (.inl h1)
      · have hwne := hne w hw
        refine .inr (.inr ⟨w, hwne, ?_⟩)
        rw [hother w hwne]
        exact ⟨hpid, hw⟩
    · rw [hother j hji] at hj
      refine (h.reaper j hj).mono (by rw [hother j hji]) fun w _ _ hw _ _ => ?_
      rw [hother w (hne w hw)]
      exact ⟨rfl, hw⟩
  · by_cases hji : j = i
    · subst hji
      rw [hself] at hj
      exact absurd hp hj
    · rw [hother j hji] at hj ⊢
      exact h.vacant j hj

theorem State.Fostered.cleared (hdead : ¬(k.procs i).Alive)
    (heq : k'.procs = update k.procs i processZero) : k'.Fostered := by
  have hself : k'.procs i = processZero := by rw [heq, update_self]
  have hother : ∀ j, j ≠ i → k'.procs j = k.procs j := fun j hj => by rw [heq, update_of_ne hj]
  refine ⟨fun j hj => ?_, fun j hj => ?_⟩
  · have hji : j ≠ i := by
      rintro rfl
      rw [hself] at hj
      exact hj rfl
    rw [hother j hji] at hj
    refine (h.reaper j hj).mono (by rw [hother j hji]) fun w _ _ hw _ _ => ?_
    rw [hother w fun hwi => hdead (hwi ▸ hw)]
    exact ⟨rfl, hw⟩
  · by_cases hji : j = i
    · rw [hji, hself]
      rfl
    · rw [hother j hji] at hj ⊢
      exact h.vacant j hj

theorem State.Fostered.birth (hparent : GoodParent k ppid) (hbirth : Birth k ppid k') :
    k'.Fostered := by
  cases hbirth with
  | refused => exact h
  | made core p hslot hp =>
    have hfree := procFindSlot_free hslot
    rcases hp with rfl | ⟨hstate, hppid, -⟩
    · exact h.cleared (fun halive => hfree halive.1) rfl
    have hlive : p.Live := by
      rw [Process.Live, hstate]
      decide
    exact h.born hfree hlive (hppid ▸ hparent) rfl

end

theorem processKill_ppid (k : State) (pid : UInt32) (signal : Int) (j : Fin 256) :
    ((processKill k pid signal).1.procs j).ppid = (k.procs j).ppid := by
  rcases processKill_cases k pid signal with ⟨-, heq⟩ | ⟨i, -, -, hsig⟩
  · rw [heq]
  obtain ⟨s, code, heq, -⟩ := hsig.procs
  by_cases hji : j = i
  · rw [heq, hji, update_self]
  · rw [hsig.other hji]

theorem processKill_alive (halive : (k.procs j).Alive)
    (hspared : Fatal signal → processGet k pid ≠ some j) :
    ((processKill k pid signal).1.procs j).Alive := by
  rcases processKill_cases k pid signal with ⟨-, heq⟩ | ⟨i, hget, -, hsig⟩
  · rw [heq]
    exact halive
  by_cases hji : j = i
  · subst hji
    generalize (processKill k pid signal).1 = k1 at hsig
    cases hsig with
    | terminated _ hfatal => exact absurd hget (hspared hfatal)
    | stopped | continued =>
      rw [State.setState, setProc_self]
      exact ⟨by simp [Process.Live], by simp⟩
    | ignored => exact halive
  · rwa [hsig.other hji]

theorem vacant_kept (h : ∀ i, ¬(k.procs i).Live → (k.procs i).task = none)
    (hkept : ∀ j, Kept (k.procs j) (k'.procs j)) :
    ∀ i, ¬(k'.procs i).Live → (k'.procs i).task = none := by
  intro i hi
  rw [(hkept i).task]
  exact h i fun hlive => hi ((hkept i).live.mpr hlive)

section
variable (h : k.Fostered)
include h

theorem State.Fostered.kill (hok : ChildrenFirst k (.act (.kill pid signal))) :
    (processKill k pid signal).1.Fostered := by
  refine ⟨fun i hi => ?_, vacant_kept h.vacant (processKill_kept k pid signal)⟩
  have hlive : (k.procs i).Live := (processKill_kept k pid signal i).live.mp hi
  refine (h.reaper i hlive).mono (processKill_ppid k pid signal i) fun j hji hpid hj h0 h1 => ?_
  refine ⟨(processKill_kept k pid signal j).pid, processKill_alive hj fun hfatal hget => ?_⟩
  -- the reaper itself is hit: then its child was to go first
  have hpid' := (processGet_spec hget).1
  rw [← hpid, hpid'] at h0 h1
  exact hok hfatal h0 h1 j hget hj.2 i (Ne.symm hji) hlive (hpid.symm.trans hpid')

theorem State.Fostered.retire (a : Nat) (code : Int) (now : UInt64) :
    (processRetire k a code now).Fostered := by
  have hkept := processRetire_kept h.vacant a code now
  refine ⟨fun j hj => ?_, vacant_kept h.vacant hkept⟩
  have hlive : (k.procs j).Live := (hkept j).live.mp hj
  revert hkept
  unfold processRetire
  cases hexit : exiting k a with
  | none => exact fun _ => h.reaper j hlive
  | some i =>
    intro hkept
    have hstate : ∀ w, w ≠ i → (k.procs w).Alive →
        (reparent (k.procs i).pid ((k.bury i code).procs w)).Alive := by
      intro w hwi hw
      rw [bury_procs, update_of_ne hwi]
      unfold reparent
      split <;> exact hw
    by_cases hchild : (k.procs j).ppid = (k.procs i).pid
    · -- a child passes to pid 1
      refine .inr (.inl ?_)
      have hburied : ((k.bury i code).procs j).ppid = (k.procs i).pid ∧
          ((k.bury i code).procs j).Live := by
        rw [bury_procs]
        by_cases hji : j = i
        · subst hji
          rw [update_self]
          exact ⟨hchild, by simp [Process.Live]⟩
        · rw [update_of_ne hji]
          exact ⟨hchild, hlive⟩
      dsimp only
      rw [reparent, if_pos hburied]
    · have hppid : (reparent (k.procs i).pid ((k.bury i code).procs j)).ppid = (k.procs j).ppid := by
        have hsame : ((k.bury i code).procs j).ppid = (k.procs j).ppid := by
          rw [bury_procs]
          by_cases hji : j = i
          · subst hji
            rw [update_self]
          · rw [update_of_ne hji]
        rw [reparent, if_neg fun hc => hchild (hsame.symm.trans hc.1), hsame]
      refine (h.reaper j hlive).mono hppid fun w _ hpid hw _ _ => ⟨(hkept w).pid, ?_⟩
      exact hstate w (fun hwi => hchild (by rw [← hpid, hwi])) hw

theorem State.Fostered.wait (pid : UInt32) : (processWait k pid).1.Fostered := by
  obtain ⟨core, runtime, userland, heq | ⟨i, -, hzombie, heq⟩⟩ := processWait_effect k pid
  · rw [heq]
    exact h.of_procs rfl
  · rw [heq]
    exact h.cleared (fun halive => halive.2 hzombie) rfl

theorem State.Fostered.act {e : Event} (hok : ChildrenFirst k (.act e))
    (hstep : step k e = some k') : k'.Fostered := by
  cases step_stepped hstep with
  | create hb | spawn hb | bind hb => exact h.birth hok hb
  | kill pid signal => exact h.kill hok
  | exit => exact (h.retire _ _ _).of_procs rfl
  | wait pid => exact h.wait pid
  | waitAny => exact h.wait _
  | idle | childless | yield | schedulerRun | kernelTask | setIdle => exact h.of_procs rfl

end

/-- Every process in use is a child of the kernel, of pid 1 or of `keep`, which is alive
if it has any. -/
def KeptByOne (keep : UInt32) (k : State) : Prop :=
  ∀ i, (k.procs i).Live → (k.procs i).ppid = 0 ∨ (k.procs i).ppid = 1 ∨
    (k.procs i).ppid = keep ∧ ∃ j, j ≠ i ∧ (k.procs j).pid = keep ∧ (k.procs j).Alive

theorem KeptByOne.kill (signal : Int) (h : KeptByOne keep k) (hne : pid ≠ keep) :
    KeptByOne keep (processKill k pid signal).1 := by
  intro i hi
  rw [processKill_ppid]
  obtain h0 | h1 | ⟨hk, j, hji, hpid, hj⟩ := h i ((processKill_kept k pid signal i).live.mp hi)
  · exact .inl h0
  · exact .inr (.inl h1)
  · refine .inr (.inr ⟨hk, j, hji, ?_⟩)
    rw [processKill_other fun heq => hne (heq.symm.trans hpid)]
    exact ⟨hpid, hj⟩

theorem State.Fostered.terminateAll (h : k.Fostered)
    (hok : ChildrenFirst k (.terminateAllExcept keep signal)) :
    (processTerminateAllExcept k keep signal).1.Fostered := by
  by_cases hfatal : Fatal signal
  · have hkept : KeptByOne keep k := by
      intro i hi
      obtain h0 | h1 | hk := hok hfatal i hi
      · exact .inl h0
      · exact .inr (.inl h1)
      · obtain h0 | h1 | ⟨j, hji, hpid, hj⟩ := h.reaper i hi
        · exact .inl h0
        · exact .inr (.inl h1)
        · exact .inr (.inr ⟨hk, j, hji, hpid.trans hk, hj⟩)
    have hall := terminateAll_induction
      (I := fun k => KeptByOne keep k ∧ ∀ i, ¬(k.procs i).Live → (k.procs i).task = none) keep signal
      (fun k pid hI hne => ⟨hI.1.kill signal hne, vacant_kept hI.2 (processKill_kept k pid signal)⟩)
      ⟨hkept, h.vacant⟩
    refine ⟨fun i hi => ?_, hall.2⟩
    obtain h0 | h1 | ⟨hk, j, hji, hpid, hj⟩ := hall.1 i hi
    · exact .inl h0
    · exact .inr (.inl h1)
    · exact .inr (.inr ⟨j, hji, hpid.trans hk.symm, hj⟩)
  · exact terminateAll_induction keep signal
      (fun k pid hI _ => hI.kill fun hf => absurd hf hfatal) h

theorem State.Fostered.operate {o : Operation} (h : k.Fostered) (hok : ChildrenFirst k o)
    (hstep : operate k o = some k') : k'.Fostered := by
  cases o with
  | act e => exact h.act hok hstep
  | terminateAllExcept keep signal =>
    cases hstep
    exact h.terminateAll hok

theorem Booted.fostered (h : Booted k) : k.Fostered := by
  refine ⟨fun i hi => ?_, fun i _ => ?_⟩
  · rw [h.procs i] at hi
    exact absurd rfl hi
  · rw [h.procs i]
    rfl

end

/-- From the booted kernel, in every run in which new processes have living parents and
no process is killed before its children, each process in use has a parent that can reap
it: the kernel, pid 1 or another living process. -/
theorem every_process_has_reaper (k k' : State) (os : List Operation) (hboot : Booted k)
    (hrun : Run operate ChildrenFirst k os k') :
    ∀ i, (k'.procs i).Live → HasReaper k' i :=
  (hrun.invariant (I := State.Fostered) (fun _ _ _ hs hok hstep => hs.operate hok hstep)
    hboot.fostered).reaper

/-- A grandchild is killed, then its parent, then all but pid 1; the dead one is reaped. -/
theorem family_ends_bottom_up : ∃ k', Run operate ChildrenFirst booted
      [.act (.create (cstr "a") 0), .act (.create (cstr "b") 1), .act (.create (cstr "c") 2),
        .act (.kill 3 9), .act (.wait 3), .act (.kill 2 15), .terminateAllExcept 1 15] k' ∧
      ∀ i, (k'.procs i).Live → HasReaper k' i := by
  refine Run.exists_of_execute_imp (P := fun _ => True) (fun k' hrun _ => ?_) (by decide +kernel)
  exact every_process_has_reaper booted k' _ booted_booted hrun

/-- The child of a killed process keeps a dead process as its parent. -/
theorem killed_parent_leaves_orphan : ∃ k', Run operate anyEvent booted
      [.act (.spawnUserImage (cstr "a") someImage 1 0), .act (.spawnUserImage (cstr "b") someImage 2 1),
        .act (.spawnUserImage (cstr "c") someImage 3 2), .act (.kill 2 9)] k' ∧
      ∃ i, (k'.procs i).Live ∧ ¬HasReaper k' i := by
  exact Run.exists_of_execute (by decide +kernel)

/-! Zombies between death and reaping. -/
open Scheduler Userland ElfLoader

/-- Entry `i` is the zombie of process `pid` with exit code `c`. -/
def ZombieOf (k : State) (i : Fin 256) (pid : UInt32) (c : Int) : Prop :=
  (k.procs i).state = .zombie ∧ (k.procs i).pid = pid ∧ (k.procs i).exitCode = c
  deriving Decidable

/-- The pid and the exit code a wait reports with `AEGIS_OK`. -/
def reported (k : State) : Event → Option (UInt32 × Int)
  | .wait pid => (processWait k pid).2.toOption.map fun code => (pid, code)
  | .waitAny parent => (processWaitAny k parent).2.toOption
  | _ => none

/-- The step is a wait that reports the zombie and clears its entry. -/
def Reaps (i : Fin 256) (pid : UInt32) (c : Int) (k : State) (e : Event) (k' : State) : Prop :=
  reported k e = some (pid, c) ∧ (k'.procs i).state = .empty

/-- No signal or exit that would change a zombie: no stop signal to one, no kill and no
exit with another code. -/
def SparesZombies (k : State) : Event → Prop
  | .kill pid signal =>
    ∀ i ∈ processGet k pid, (k.procs i).state = .zombie →
      signal ≠ 19 ∧ (signal = 9 ∨ signal = 15 → (k.procs i).exitCode = -signal)
  | .exit code _ =>
    ∀ a ∈ k.core.current, ∀ i ∈ exiting k a,
      (k.procs i).state = .zombie → (k.procs i).exitCode = code
  | _ => True

instance (k : State) : (e : Event) → Decidable (SparesZombies k e)
  | .kill pid _ => inferInstanceAs (Decidable (∀ i ∈ processGet k pid, _ → _ ∧ _))
  | .exit _ _ => inferInstanceAs (Decidable (∀ a ∈ k.core.current, ∀ i ∈ exiting k a, _ → _ = _))
  | .create _ _ | .spawnUserImage _ _ _ _ | .bindCurrent _ _ _ _ | .wait _ | .waitAny _
  | .yield | .schedulerRun | .kernelTask _ | .setIdle _ => .isTrue trivial

section
variable {k k' : State} {i : Fin 256} {pid : UInt32} {c : Int}

section
variable (h : ZombieOf k i pid c)
include h

theorem ZombieOf.live : (k.procs i).Live := by
  rw [Process.Live, h.1]
  decide

theorem ZombieOf.of_procs (heq : k'.procs i = k.procs i) : ZombieOf k' i pid c := by
  rw [ZombieOf, heq]
  exact h

theorem ZombieOf.of_core (core : Core) : ZombieOf { k with core := core } i pid c := h

theorem ZombieOf.kill {target : UInt32} {signal : Int}
    (hok : SparesZombies k (.kill target signal)) :
    ZombieOf (processKill k target signal).1 i pid c := by
  rcases processKill_cases k target signal with ⟨-, heq⟩ | ⟨j, hget, -, hsig⟩
  · rw [heq]
    exact h
  by_cases hij : i = j
  · -- the signal finds the zombie itself
    subst hij
    obtain ⟨hstop, hcode⟩ := hok i hget h.1
    generalize (processKill k target signal).1 = k1 at hsig
    cases hsig with
    | terminated _ hterm =>
      refine ⟨?_, ?_, ?_⟩
      · simp [bury_procs]
      · simp [bury_procs, h.2.1]
      · simp [bury_procs, ← hcode hterm, h.2.2]
    | stopped => exact absurd rfl hstop
    | continued hs => exact absurd (h.1.symm.trans hs) (by decide)
    | ignored => exact h
  · exact h.of_procs (hsig.other hij)

theorem ZombieOf.reparent {procs : Fin 256 → Process} {parent : UInt32} (hk : k.procs = procs)
    (hk' : k'.procs = fun j => reparent parent (procs j)) : ZombieOf k' i pid c := by
  subst hk
  rw [ZombieOf, hk']
  simp only [Kernel.reparent]
  split <;> exact h

end

theorem ZombieOf.retire {a : Nat} {code : Int} (now : UInt64) (h : ZombieOf k i pid c)
    (hok : ∀ j ∈ exiting k a, (k.procs j).state = .zombie → (k.procs j).exitCode = code) :
    ZombieOf (processRetire k a code now) i pid c := by
  unfold processRetire
  cases hexit : exiting k a with
  | none => exact h
  | some j =>
    have hbury : ZombieOf (k.bury j code) i pid c := by
      by_cases hij : i = j
      · subst hij
        refine ⟨?_, ?_, ?_⟩
        · simp [bury_procs]
        · simp [bury_procs, h.2.1]
        · simp [bury_procs, ← hok i hexit h.1, h.2.2]
      · refine h.of_procs ?_
        rw [bury_procs, Function.update_of_ne hij]
    exact hbury.reparent rfl rfl

theorem ZombieOf.wait (h : ZombieOf k i pid c) (target : UInt32) :
    ZombieOf (processWait k target).1 i pid c ∨ target = pid ∧ (processWait k target).2 = .ok c ∧
        ((processWait k target).1.procs i).state = .empty := by
  obtain ⟨core, runtime, userland, heq | ⟨j, hget, -, heq⟩⟩ := processWait_effect k target
  · rw [heq]
    exact .inl (h.of_procs rfl)
  rw [heq]
  by_cases hij : i = j
  · subst hij
    refine .inr ⟨(processGet_spec hget).1.symm.trans h.2.1, by rw [h.2.2], ?_⟩
    rw [setProc_self]
    rfl
  · exact .inl (h.of_procs (setProc_of_ne _ _ hij))

theorem ZombieOf.step {e : Event} (h : ZombieOf k i pid c) (hok : SparesZombies k e)
    (hstep : step k e = some k') : ZombieOf k' i pid c ∨ Reaps i pid c k e k' := by
  cases step_stepped hstep with
  | create hb | spawn hb | bind hb => exact .inl (h.of_procs (hb.procs h.live))
  | kill => exact .inl (h.kill hok)
  | idle => exact .inl h
  | exit core hcur => exact .inl ((h.retire _ (hok _ hcur)).of_core core)
  | wait target =>
    rcases h.wait target with hkept | ⟨rfl, hcode, hempty⟩
    · exact .inl hkept
    · exact .inr ⟨by simp [reported, hcode, Except.toOption], hempty⟩
  | childless => exact .inl h
  | @waitAny parent target hcode =>
    rcases h.wait target with hkept | ⟨rfl, hok, hempty⟩
    · exact .inl hkept
    · refine .inr ⟨?_, hempty⟩
      simp [reported, hcode, hok, Except.map, Except.toOption]
  | yield core | schedulerRun core | kernelTask core | setIdle core => exact .inl (h.of_core core)

/-- From any state: a zombie keeps its state, pid and exit code until a wait reports
them and clears the entry, in every run that sends it no stop signal and does not let
it die again with another code. -/
theorem zombies_stable_until_reaped (k k' : State) (es : List Event) (i : Fin 256) (pid : UInt32)
    (c : Int) (hzombie : ZombieOf k i pid c) (hrun : Run step SparesZombies k es k') :
    ZombieOf k' i pid c ∨ ∃ before e after k1 k2, es = before ++ e :: after ∧
      Run step SparesZombies k before k1 ∧ ZombieOf k1 i pid c ∧
      step k1 e = some k2 ∧ Reaps i pid c k1 e k2 ∧ Run step SparesZombies k2 after k' :=
  hrun.kept_until (P := fun k => ZombieOf k i pid c) (Q := Reaps i pid c)
    (fun _ _ _ hz hok hs => hz.step hok hs) hzombie

end

/-- A killed process, killed again, after a yield and a wait. -/
theorem zombie_reaped_after_second_kill :
    ∃ k k', ZombieOf k 0 1 (-9) ∧ Run step SparesZombies k [.kill 1 9, .yield, .wait 1] k' ∧
      (ZombieOf k' 0 1 (-9) ∨ ∃ before e after k1 k2,
        [.kill 1 9, .yield, .wait 1] = before ++ e :: after ∧
        Run step SparesZombies k before k1 ∧ ZombieOf k1 0 1 (-9) ∧
        step k1 e = some k2 ∧ Reaps 0 1 (-9) k1 e k2 ∧ Run step SparesZombies k2 after k') := by
  obtain ⟨k, -, hzombie, hrest⟩ : ∃ k, Run step anyEvent booted
      [.create (CString.cstr "a") 0, .kill 1 9] k ∧ ZombieOf k 0 1 (-9) ∧
      (execute step SparesZombies k [.kill 1 9, .yield, .wait 1]).any (fun _ => decide True) = true :=
    Run.exists_of_execute (by decide +kernel)
  obtain ⟨k', hrun, -⟩ := Run.exists_of_execute hrest
  exact ⟨k, k', hzombie, hrun, zombies_stable_until_reaped k k' _ 0 1 (-9) hzombie hrun⟩

/-- A killed process is stopped by the next signal, without any wait. -/
theorem zombie_stopped_by_signal : ∃ k1 k2, Run step anyEvent booted
        [.spawnUserImage (CString.cstr "a") someImage 1 0, .kill 1 9] k1 ∧
      ZombieOf k1 0 1 (-9) ∧ Run step anyEvent k1 [.kill 1 19] k2 ∧
      (k2.procs 0).state = .stopped := by
  simp only [exists_and_left]
  refine Run.exists_of_execute_imp (P := fun k => ZombieOf k 0 1 (-9) ∧
    (execute step anyEvent k [.kill 1 19]).any (fun k => decide ((k.procs 0).state = .stopped)) = true)
    (fun k _ hk => ⟨hk.1, Run.exists_of_execute hk.2⟩) (by decide +kernel)

/-! What a parent has left of a child when `sys_waitpid` returns an error. -/

/-- A child of the caller that has ended, under a pid of its own. -/
structure ZombieChild (k : State) (i : Fin 256) : Prop where
  zombie : (k.procs i).state = .zombie
  child : (k.procs i).ppid = processGetpid k
  own : processGet k (k.procs i).pid = some i

/-- The call names the child, or asks for any child and comes to this one. -/
def WaitsFor (k : State) (pid : UInt64) (i : Fin 256) : Prop :=
  if anyChild pid then firstZombie k (waitParent k (processGetpid k)) = some i
  else pid ≠ 0 ∧ pid.toUInt32 = (k.procs i).pid

def ChildKept (k : State) (i : Fin 256) (r : State × Int) : Prop :=
  r.2 < 0 → (r.1.procs i).state = .zombie ∧ (r.1.procs i).exitCode = (k.procs i).exitCode ∧
    (processWait r.1 (k.procs i).pid).2 = .ok (k.procs i).exitCode

/-- The runtime slot can be released and the exit can be noted. -/
def Reapable (k : State) (p : Process) : Prop :=
  (releaseSlot k.runtime p.runtimeSlot).2 = aegisOk ∧
    ((markFeatureNativeExited k.userland p.name.str p.pid).2 = aegisOk ∨
      (markFeatureNativeExited k.userland p.name.str p.pid).2 = aegisEnoent)
  deriving Decidable

section
variable {k : State} {i : Fin 256}

theorem releaseSlot_error {r : Runtime} {slot : UInt32}
    (h : (releaseSlot r slot).2 ≠ aegisOk) :
    ∃ rc : Int, releaseSlot r slot = (r, rc) ∧ rc < 0 ∧ rc ≠ aegisEbusy ∧ rc ≠ aegisEagain := by
  unfold releaseSlot elfLoaderReleaseRuntimeSlot at h ⊢
  by_cases h0 : slot = 0
  · rw [if_pos h0] at h
    exact absurd rfl h
  rw [if_neg h0] at h ⊢
  cases hs : slotOf slot with
  | none => exact ⟨aegisEinval, rfl, by decide, by decide, by decide⟩
  | some j =>
    rw [hs] at h
    dsimp only at h ⊢
    split
    · exact ⟨aegisEinval, rfl, by decide, by decide, by decide⟩
    rename_i hinit
    rw [if_neg hinit] at h
    split
    · exact ⟨aegisEperm, rfl, by decide, by decide, by decide⟩
    rename_i hbuiltin
    rw [if_neg hbuiltin] at h
    split
    · exact ⟨aegisEnoent, rfl, by decide, by decide, by decide⟩
    next hused =>
      rw [if_neg hused] at h
      exact absurd rfl h

theorem markExited_error {u : Catalogue} {name : CStr} {pid : UInt32}
    (h : ¬((markFeatureNativeExited u name pid).2 = aegisOk ∨
      (markFeatureNativeExited u name pid).2 = aegisEnoent)) :
    markFeatureNativeExited u name pid = (u, aegisEperm) := by
  unfold markFeatureNativeExited at h ⊢
  cases hf : findFeature u name with
  | none => simp [hf] at h
  | some j =>
    simp only [hf] at h ⊢
    split_ifs at h ⊢
    · simp at h
    · rfl
    · simp at h

theorem reap_clears (h : Reapable k (k.procs i)) :
    (k.reap i (k.procs i).pid).2 = .ok (k.procs i).exitCode ∧
      (k.reap i (k.procs i).pid).1.procs i = processZero := by
  obtain ⟨core, hfree⟩ := freeChild_eq k (k.procs i)
  obtain ⟨hrel, hmark⟩ := h
  have hnoted := not_and_or.mpr (hmark.imp not_not.mpr not_not.mpr)
  simp only [State.reap, hfree, hrel, ne_eq, not_true, if_false, if_neg hnoted]
  exact ⟨trivial, Function.update_self _ _ _⟩

theorem reap_error (h : ¬Reapable k (k.procs i)) :
    ∃ rc : Int, (k.reap i (k.procs i).pid).2 = .error rc ∧ rc < 0 ∧ rc ≠ aegisEbusy ∧
      rc ≠ aegisEagain ∧ (k.reap i (k.procs i).pid).1.procs = k.procs ∧
      ¬Reapable (k.reap i (k.procs i).pid).1 (k.procs i) := by
  obtain ⟨core, hfree⟩ := freeChild_eq k (k.procs i)
  by_cases hrel : (releaseSlot k.runtime (k.procs i).runtimeSlot).2 = aegisOk
  · have hmark := fun hm => h ⟨hrel, hm⟩
    have hnoted := markExited_error hmark
    have hbad : aegisEperm ≠ aegisOk ∧ aegisEperm ≠ aegisEnoent := by decide
    refine ⟨aegisEperm, ?_, by decide, by decide, by decide, ?_, ?_⟩
    · simp only [State.reap, hfree, hrel, ne_eq, not_true, if_false, hnoted, if_pos hbad]
    · simp only [State.reap, hfree, hrel, ne_eq, not_true, if_false, hnoted, if_pos hbad]
    · rintro ⟨hrel', hmark'⟩
      simp only [State.reap, hfree, hrel, ne_eq, not_true, if_false, hnoted, if_pos hbad] at hmark'
      exact absurd hmark' (by decide)
  · obtain ⟨rc, heq, hneg, hbusy, hagain⟩ := releaseSlot_error hrel
    rw [heq] at hrel
    refine ⟨rc, ?_, hneg, hbusy, hagain, ?_, ?_⟩
    · simp only [State.reap, hfree, heq, ne_eq, hrel, not_false_eq_true, if_true]
    · simp only [State.reap, hfree, heq, ne_eq, hrel, not_false_eq_true, if_true]
    · rintro ⟨hrel', -⟩
      simp only [State.reap, hfree, heq, ne_eq, hrel, not_false_eq_true, if_true] at hrel'

theorem processGet_congr {k' : State} (h : k'.procs = k.procs) (pid : UInt32) :
    processGet k' pid = processGet k pid := by
  unfold processGet
  rw [h]

theorem ZombieChild.processWait_eq (h : ZombieChild k i) :
    processWait k (k.procs i).pid = k.reap i (k.procs i).pid := by
  rw [processWait, h.own]
  simp [h.child, h.zombie]

theorem ZombieChild.waitChild_eq (h : ZombieChild k i) {pid : UInt64} (hcall : WaitsFor k pid i) :
    waitChild k pid = ((k.reap i (k.procs i).pid).1, match (k.reap i (k.procs i).pid).2 with
      | .ok _ => .ok (k.procs i).pid
      | .error rc => .error (if anyChild pid then rc else if rc = aegisEbusy then aegisEagain else rc)) := by
  unfold WaitsFor at hcall
  unfold waitChild
  split_ifs at hcall ⊢ with hany hzero
  · simp only [processWaitAny, hcall, h.processWait_eq]
    cases (k.reap i (k.procs i).pid).2 <;> rfl
  · exact absurd hzero hcall.1
  · cases hres : (k.reap i (k.procs i).pid).2 <;>
      simp only [hcall.2, h.processWait_eq, hres]

/-- The child is kept over errors of the call just when there are none: the pointer is good and
the child can be reaped. -/
theorem waitpid_keeps_child_iff (k : State) (i : Fin 256) (pid options : UInt64)
    (exitPtr : Option Bool) (hchild : ZombieChild k i) (hcall : WaitsFor k pid i) :
    ChildKept k i (sysWaitpid k pid options exitPtr) ↔
      exitPtr ≠ some false ∧ Reapable k (k.procs i) := by
  have hwait := hchild.waitChild_eq hcall
  by_cases hreap : Reapable k (k.procs i)
  · obtain ⟨hok, hcleared⟩ := reap_clears hreap
    rw [and_iff_left hreap]
    simp only [ChildKept, sysWaitpid, hwait, hok]
    by_cases hptr : exitPtr = some false
    · refine iff_of_false (fun h => ?_) (not_not.mpr hptr)
      rw [if_pos hptr] at h
      have hempty := (h (by decide)).1
      rw [hcleared] at hempty
      cases hempty
    · refine iff_of_true (fun h => ?_) hptr
      rw [if_neg hptr] at h
      omega
  · obtain ⟨rc, herr, hneg, hbusy, hagain, hprocs, hagainst⟩ := reap_error hreap
    refine iff_of_false (fun h => ?_) fun h => hreap h.2
    have hrc : (sysWaitpid k pid options exitPtr).2 = rc := by
      simp [sysWaitpid, hwait, herr, hbusy, hagain]
    have hstate : (sysWaitpid k pid options exitPtr).1 = (k.reap i (k.procs i).pid).1 := by
      simp only [sysWaitpid, hwait]
    have hlater := (h (by rw [hrc]; exact hneg)).2.2
    rw [hstate] at hlater
    generalize (k.reap i (k.procs i).pid).1 = k1 at hlater hprocs hagainst
    rcases processWait_cases k1 (k.procs i).pid with ⟨rc1, heq⟩ | ⟨j, hget, -, -, heq⟩
    · rw [heq] at hlater
      cases hlater
    rw [processGet_congr hprocs, hchild.own] at hget
    cases hget
    have hk1 : k1.procs i = k.procs i := by rw [hprocs]
    rw [← hk1] at hagainst hlater heq
    obtain ⟨rc1, herr1, -⟩ := reap_error hagainst
    rw [heq, herr1] at hlater
    cases hlater

end

def childEnds : List Event := [.kernelTask 1, .schedulerRun, .bindCurrent (cstr "a") someImage 1 0,
    .create (cstr "b") 1, .kill 2 9]

theorem childEnds_zombie :
    ∃ k, Run step anyEvent booted childEnds k ∧ ZombieChild k 1 ∧ WaitsFor k 2 1 ∧
      Reapable k (k.procs 1) := by
  refine Run.exists_of_execute_imp (P := fun k => (k.procs 1).state = .zombie ∧
    (k.procs 1).ppid = processGetpid k ∧ processGet k (k.procs 1).pid = some 1 ∧
    (k.procs 1).pid = 2 ∧ Reapable k (k.procs 1)) (fun k _ hk => ?_) (by decide +kernel)
  obtain ⟨hz, hc, ho, hpid, hr⟩ := hk
  refine ⟨⟨hz, hc, ho⟩, ?_, hr⟩
  rw [WaitsFor, if_neg (by decide), hpid]
  decide

theorem waitpid_without_pointer_keeps :
    ∃ k, Run step anyEvent booted childEnds k ∧ ChildKept k 1 (sysWaitpid k 2 0 none) := by
  obtain ⟨k, hrun, hz, hw, hr⟩ := childEnds_zombie
  exact ⟨k, hrun, (waitpid_keeps_child_iff k 1 2 0 none hz hw).mpr ⟨by decide, hr⟩⟩

/-- The child is reaped before its code fails to be copied out. -/
theorem waitpid_bad_pointer_loses :
    ∃ k, Run step anyEvent booted childEnds k ∧ ZombieChild k 1 ∧ WaitsFor k 2 1 ∧
      ¬ChildKept k 1 (sysWaitpid k 2 0 (some false)) := by
  obtain ⟨k, hrun, hz, hw, hr⟩ := childEnds_zombie
  refine ⟨k, hrun, hz, hw, fun h => ?_⟩
  obtain ⟨hok, hcleared⟩ := reap_clears hr
  simp only [ChildKept, sysWaitpid, hz.waitChild_eq hw, hok, if_true] at h
  have hempty := (h (by decide)).1
  rw [hcleared] at hempty
  cases hempty

end AegisOS.Kernel
