import AegisOS.SlotOwnership
import AegisOS.RestartPolicy

/-! What the system calls leave alone of one service: its processes, its features and its
entry in the supervisor's table. -/
namespace AegisOS.Userland
open CString KeyedList

def SameServices (u u' : Catalogue) : Prop :=
  ∀ f ∈ u'.features, ∃ g ∈ u.features, g.name = f.name ∧ g.serviceId = f.serviceId

theorem SameServices.of_features {u u' : Catalogue} (h : u'.features = u.features) :
    SameServices u u' := fun f hf => ⟨f, h ▸ hf, rfl, rfl⟩

theorem SameServices.trans {u u' u'' : Catalogue} (h : SameServices u u') (h' : SameServices u' u'') :
    SameServices u u'' := by
  intro f hf
  obtain ⟨g, hg, hname, hid⟩ := h' f hf
  obtain ⟨e, he, hname', hid'⟩ := h g hg
  exact ⟨e, he, hname'.trans hname, hid'.trans hid⟩

theorem SameServices.modify {u u' : Catalogue} {n : Nat} {g : Feature → Feature}
    (h : u'.features = u.features.modify n g) (hname : ∀ f, (g f).name = f.name)
    (hid : ∀ f, (g f).serviceId = f.serviceId) : SameServices u u' := by
  intro f hf
  rw [h] at hf
  rcases mem_of_modify hf with hold | ⟨e, he, rfl⟩
  · exact ⟨f, hold, rfl, rfl⟩
  · exact ⟨e, he, (hname e).symm, (hid e).symm⟩

section
variable (u : Catalogue) (name path : CStr) (pid : UInt32)

theorem noteNativeProcessSpawn_sameServices
    (m : Image) : SameServices u (noteNativeProcessSpawn u name path pid m).1 := by
  unfold noteNativeProcessSpawn
  split
  · exact .of_features rfl
  cases findFeature u name with
  | none => exact .of_features rfl
  | some n =>
    dsimp only
    cases u.features[n]? with
    | none => exact .of_features rfl
    | some f =>
      dsimp only
      split
      · exact .of_features rfl
      split
      · exact .of_features rfl
      have hmodify : ∀ u' : Catalogue,
          u'.features = u.features.modify n (fun f => { f with livePid := pid }) →
          SameServices u u' := fun u' hu' => .modify hu' (fun _ => rfl) fun _ => rfl
      split
      · exact hmodify _ rfl
      · split <;> exact hmodify _ rfl

theorem markFeatureNativeRunning_sameServices :
    SameServices u (markFeatureNativeRunning u name pid).1 := by
  unfold markFeatureNativeRunning
  cases findFeature u name with
  | none => exact .of_features rfl
  | some n =>
    dsimp only
    split
    · exact .of_features rfl
    split
    · exact .of_features rfl
    · exact .modify (setProcess_features _ _ _ _) (fun _ => rfl) fun _ => rfl

theorem markFeatureNativeExited_sameServices :
    SameServices u (markFeatureNativeExited u name pid).1 := by
  unfold markFeatureNativeExited
  cases findFeature u name with
  | none => exact .of_features rfl
  | some n =>
    dsimp only
    split
    · exact .of_features rfl
    split
    · exact .of_features rfl
    · exact .modify (setProcess_features _ _ _ _) (fun _ => rfl) fun _ => rfl

end

end AegisOS.Userland

namespace AegisOS.Kernel
open CString ServiceSupervisor Function

variable {k k' k'' : State} {name : CArray 32}

/-! Processes. -/

/-- No process of the service is made, and no dead one comes back. -/
def NoneMade (name : CArray 32) (k k' : State) : Prop :=
  ∀ j, (k'.procs j).Live → (k'.procs j).name = name → (k.procs j).Live ∧ (k.procs j).name = name ∧
    (k'.procs j).pid = (k.procs j).pid ∧ ((k'.procs j).Alive → (k.procs j).Alive)

theorem NoneMade.of_procs (h : k'.procs = k.procs) : NoneMade name k k' := by
  intro j hlive hname
  rw [h] at hlive hname
  rw [h]
  exact ⟨hlive, hname, rfl, id⟩

theorem NoneMade.trans (h : NoneMade name k k') (h' : NoneMade name k' k'') : NoneMade name k k'' := by
  intro j hlive hname
  obtain ⟨hlive', hname', hpid', halive'⟩ := h' j hlive hname
  obtain ⟨hlive'', hname'', hpid, halive⟩ := h j hlive' hname'
  exact ⟨hlive'', hname'', hpid'.trans hpid, fun ha => halive (halive' ha)⟩

theorem NoneMade.kept (hkept : ∀ j, Kept (k.procs j) (k'.procs j))
    (halive : ∀ j, (k'.procs j).name = name → (k'.procs j).Alive → (k.procs j).Alive) :
    NoneMade name k k' := fun j hlive hname =>
  ⟨(hkept j).live.mp hlive, (hkept j).name.symm.trans hname, (hkept j).pid, halive j hname⟩

theorem NoneMade.kill {pid : UInt32} {signal : Int}
    (hstop : signal = 19 → ∀ i ∈ processGet k pid, (k.procs i).name = name → (k.procs i).state ≠ .zombie) :
    NoneMade name k (processKill k pid signal).1 := by
  refine .kept (processKill_kept k pid signal) fun j hname halive => ?_
  rcases processKill_cases k pid signal with ⟨-, heq⟩ | ⟨i, hget, -, hsig⟩
  · rwa [heq] at halive
  by_cases hji : j = i
  · subst hji
    refine ⟨(processGet_spec hget).2, ?_⟩
    generalize (processKill k pid signal).1 = k1 at hsig hname halive
    cases hsig with
    | terminated =>
      rw [destroyTask_procs, bury_procs, update_self] at halive
      exact absurd rfl halive.2
    | stopped =>
      unfold State.setState at hname
      rw [setProc_self] at hname
      exact hstop rfl j hget hname
    | continued hstopped =>
      rw [hstopped]
      decide
    | ignored => exact halive.2
  · rwa [hsig.other hji] at halive

theorem reparent_state (parent : UInt32) (p : Process) : (reparent parent p).state = p.state := by
  unfold reparent
  split <;> rfl

theorem NoneMade.retire (hvacant : ∀ i, ¬(k.procs i).Live → (k.procs i).task = none) (a : Nat)
    (code : Int) (now : UInt64) : NoneMade name k (processRetire k a code now) := by
  refine .kept (processRetire_kept hvacant a code now) fun j _ halive => ?_
  unfold processRetire at halive
  cases hexit : exiting k a with
  | none => rwa [hexit] at halive
  | some i =>
    rw [hexit] at halive
    have hstate : ((k.bury i code).procs j).Alive := by
      obtain ⟨hlive, hnot⟩ := halive
      unfold Process.Live at hlive
      rw [reparent_state] at hlive hnot
      exact ⟨hlive, hnot⟩
    rw [bury_procs] at hstate
    by_cases hji : j = i
    · rw [hji, update_self] at hstate
      exact absurd rfl hstate.2
    · rwa [update_of_ne hji] at hstate

theorem NoneMade.wait (pid : UInt32) : NoneMade name k (processWait k pid).1 := by
  obtain ⟨core, runtime, userland, heq | ⟨i, -, -, heq⟩⟩ := processWait_effect k pid <;> rw [heq]
  · exact .of_procs rfl
  intro j hlive hname
  dsimp only [State.setProc] at hlive hname ⊢
  by_cases hji : j = i
  · rw [hji, update_self] at hlive
    exact absurd hlive processZero_not_live
  · rw [update_of_ne hji] at hlive hname ⊢
    exact ⟨hlive, hname, rfl, id⟩

theorem processWait_supervisor (k : State) (pid : UInt32) :
    (processWait k pid).1.supervisor = k.supervisor := by
  obtain ⟨core, runtime, userland, heq | ⟨i, -, -, heq⟩⟩ := processWait_effect k pid <;> rw [heq]
  rfl

theorem processWait_sameServices (k : State) (pid : UInt32) :
    Userland.SameServices k.userland (processWait k pid).1.userland := by
  rcases processWait_cases k pid with ⟨rc, heq⟩ | ⟨i, -, -, -, heq⟩ <;> rw [heq]
  · exact .of_features rfl
  have hkept : Userland.SameServices k.userland (k.freeChild (k.procs i)).userland :=
    .of_features (congrArg _ (freeChild_userland k _))
  have hnoted := hkept.trans (Userland.markFeatureNativeExited_sameServices
    (k.freeChild (k.procs i)).userland (k.procs i).name.str pid)
  unfold State.reap
  dsimp only
  split
  · exact hkept
  · split <;> exact hnoted

/-! Steps that count nothing for the service. -/

/-- Neither its processes nor its entry nor its features change in what counts. -/
structure Unmoved (name : CArray 32) (k k' : State) : Prop where
  processes : NoneMade name k k'
  features : Userland.SameServices k.userland k'.userland
  entry : EntryKept name (∃ j, (k.procs j).Alive ∧ (k.procs j).name = name) k.supervisor k'.supervisor

theorem Unmoved.of_supervisor (hprocs : NoneMade name k k')
    (hfeatures : Userland.SameServices k.userland k'.userland) (h : k'.supervisor = k.supervisor) :
    Unmoved name k k' :=
  ⟨hprocs, hfeatures, .of_services (congrArg _ h) (congrArg _ h) (congrArg _ h)⟩

theorem Unmoved.elsewhere (hprocs : k'.procs = k.procs) (huserland : k'.userland = k.userland)
    (h : k'.supervisor = k.supervisor) : Unmoved name k k' :=
  .of_supervisor (.of_procs hprocs) (.of_features (congrArg _ huserland)) h

theorem Unmoved.after (h : Unmoved name k' k'') (hmade : NoneMade name k k')
    (huserland : k'.userland = k.userland) (hsupervisor : k'.supervisor = k.supervisor) :
    Unmoved name k k'' := by
  have hrevived : (∃ j, (k'.procs j).Alive ∧ (k'.procs j).name = name) →
      ∃ j, (k.procs j).Alive ∧ (k.procs j).name = name := by
    rintro ⟨j, halive, hname⟩
    obtain ⟨-, hname', -, hback⟩ := hmade j halive.1 hname
    exact ⟨j, hback halive, hname'⟩
  refine ⟨hmade.trans h.processes, huserland ▸ h.features, ?_⟩
  rw [← hsupervisor]
  exact h.entry.mono hrevived

theorem Unmoved.kill {pid signal : UInt64}
    (hstop : signal = 19 → ∀ i ∈ processGet k pid.toUInt32, (k.procs i).name = name →
      (k.procs i).state ≠ .zombie) : Unmoved name k (sysKill k pid signal).1 := by
  rcases sysKill_cases k pid signal with heq | ⟨-, heq⟩ <;> rw [heq]
  · exact .elsewhere rfl rfl rfl
  refine .of_supervisor (.kill fun h19 => hstop ?_)
    (.of_features (congrArg _ (processKill_quiet k _ _).userland)) ?_
  · exact UInt64.toNat_inj.mp (by exact_mod_cast h19)
  · obtain ⟨_, _, _, _, hkill⟩ := processKill_eq k pid.toUInt32 signal.toNat
    rw [hkill]

theorem Unmoved.waitpid (pid options : UInt64) (exitPtr : Option Bool) :
    Unmoved name k (sysWaitpid k pid options exitPtr).1 := by
  rcases sysWaitpid_cases k pid options exitPtr with heq | ⟨child, heq⟩ <;> rw [heq]
  · exact .elsewhere rfl rfl rfl
  · exact .of_supervisor (.wait child) (processWait_sameServices k child) (processWait_supervisor k child)

theorem sysShutdown_supervisor {mode reason : UInt64} (h : mayShutdown k) :
    (sysShutdown k mode reason).1.supervisor = beginShutdown k.supervisor := by
  refine sysShutdown_induction (I := fun k1 => k1.supervisor = beginShutdown k.supervisor) h mode
    reason (fun _ => rfl) ?_ fun _ h1 => h1
  exact fun _ k1 pid h1 _ => (processKill_supervisor k1 pid 15).trans h1

theorem Unmoved.shutdown (mode reason : UInt64) : Unmoved name k (sysShutdown k mode reason).1 := by
  by_cases hmay : mayShutdown k
  · refine ⟨?_, .of_features (congrArg _ (sysShutdown_quiet k mode reason).userland), ?_⟩
    · refine sysShutdown_induction (I := NoneMade name k) hmay mode reason (fun _ => .of_procs rfl) ?_
        fun _ h => h.trans (.of_procs rfl)
      exact fun _ _ _ h _ => h.trans (.kill fun h19 => absurd h19 (by decide))
    · rw [sysShutdown_supervisor hmay]
      exact .beginShutdown _
  · rw [sysShutdown_denied hmay]
    exact .elsewhere rfl rfl rfl

/-- The calls that can count for a service: they make, announce or end a process. -/
def Call.counts : Call → Bool
  | .spawn .. => true
  | .serviceReady _ => true
  | .exit .. => true
  | .bindCurrent .. => true
  | _ => false

theorem Unmoved.perform {c : Call} (hc : c.counts = false)
    (hstop : ∀ pid signal, c = .kill pid signal → signal = 19 →
      ∀ i ∈ processGet k pid.toUInt32, (k.procs i).name = name → (k.procs i).state ≠ .zombie)
    (h : perform k c = some k') : Unmoved name k k' := by
  by_cases hlocal : c.isLocal = true
  · obtain ⟨_, _, _, rfl⟩ := perform_local hlocal h
    exact .elsewhere rfl rfl rfl
  cases c <;> simp only [Call.counts, Call.isLocal, not_true_eq_false, reduceCtorEq] at hc hlocal
  case kill pid signal =>
    cases h
    exact .kill (hstop pid signal rfl)
  case waitpid pid options exitPtr =>
    cases h
    exact .waitpid pid options exitPtr
  case shutdown mode reason =>
    cases h
    exact .shutdown mode reason
  case yield =>
    obtain ⟨core, -, -, rfl⟩ := yield_spec h
    exact .elsewhere rfl rfl rfl
  case schedulerRun =>
    obtain ⟨core, -, hcore⟩ := Option.bind_eq_some_iff.mp h
    rw [resumed_eq hcore]
    exact .elsewhere rfl rfl rfl
  case kernelTask | setIdle =>
    cases h
    exact .elsewhere rfl rfl rfl

/-! Spawning. -/

section
variable (k : State) (f : Userland.Feature) (path : CStr) (pid : UInt32) (m : Userland.Image)
  (restart : Bool) (now : UInt64)

def State.noted : State :=
  { k with userland := (Userland.noteNativeProcessSpawn k.userland f.name.str path pid m).1 }

def State.registration : Supervisor × Int :=
  nativeRegisterStarting k.supervisor f.name.str f.serviceId pid (spawnPolicy f.name.str)

inductive Published : State → Prop
  | unnoted : Published (processKill (k.noted f path pid m) pid 9).1
  | unsupervised : f.serviceId = 0 → Published (k.noted f path pid m)
  | unregistered : f.serviceId ≠ 0 → (k.registration f pid).2 ≠ aegisOk → Published
        (processKill { k.noted f path pid m with supervisor := (k.registration f pid).1 } pid 9).1
  | registered : f.serviceId ≠ 0 → (k.registration f pid).2 = aegisOk → restart = false →
      Published { k.noted f path pid m with supervisor := (k.registration f pid).1 }
  | restarted : f.serviceId ≠ 0 → (k.registration f pid).2 = aegisOk → restart = true →
      Published { k.noted f path pid m with
        supervisor := (noteRestart (k.registration f pid).1 f.name.str pid now).1 }

theorem publishSpawn_published :
    Published k f path pid m restart now (publishSpawn k f path pid m restart now).1 := by
  unfold publishSpawn superviseSpawn
  dsimp only
  split
  · exact .unnoted
  split
  next hid => exact .unsupervised hid
  rename_i hid
  split
  next hfailed => exact .unregistered hid hfailed
  rename_i hdone
  cases restart with
  | false => exact .registered hid (not_not.mp hdone) rfl
  | true => exact .restarted hid (not_not.mp hdone) rfl

end

theorem Published.unmoved {f : Userland.Feature} {path : CStr} {pid : UInt32} {m : Userland.Image}
    {restart : Bool} {now : UInt64} (h : Published k f path pid m restart now k')
    (hother : f.name ≠ name) : Unmoved name k k' := by
  have hfeatures : Userland.SameServices k.userland (k.noted f path pid m).userland :=
    Userland.noteNativeProcessSpawn_sameServices _ _ _ _ _
  have hregister : Touches k.supervisor (k.registration f pid).1 f.name Resting :=
    nativeRegisterStarting_touches _ _ _ _ _
  have hkill : ∀ k1 : State, k1.procs = k.procs → NoneMade name k (processKill k1 pid 9).1 :=
    fun k1 hprocs => NoneMade.trans (.of_procs hprocs) (.kill fun h9 => absurd h9 (by decide))
  cases h with
  | unnoted =>
    have hquiet := processKill_quiet (k.noted f path pid m) pid 9
    refine .of_supervisor (hkill _ rfl) ?_ (processKill_supervisor _ _ _)
    rw [hquiet.userland]
    exact hfeatures
  | unsupervised => exact .of_supervisor (.of_procs rfl) hfeatures rfl
  | unregistered =>
    have hquiet := processKill_quiet
      { k.noted f path pid m with supervisor := (k.registration f pid).1 } pid 9
    refine ⟨hkill _ rfl, ?_, ?_⟩
    · rw [hquiet.userland]
      exact hfeatures
    · rw [processKill_supervisor]
      exact hregister.kept (fun _ hst => hst.2) hother
  | registered => exact ⟨.of_procs rfl, hfeatures, hregister.kept (fun _ hst => hst.2) hother⟩
  | restarted =>
    have hnote := noteRestart_touches (k.registration f pid).1 f.name pid now
    refine ⟨.of_procs rfl, hfeatures, .same ?_ ?_ (hnote.shutdown.trans hregister.shutdown)⟩
    · exact fun hs => hnote.calm.wellFormed (hregister.calm.wellFormed hs)
    · exact fun v => (hnote.other hother v).trans (hregister.other hother v)

structure ServiceMade (name : CArray 32) (k : State) (j : Fin 256) (k' : State) : Prop where
  free : ¬(k.procs j).Live
  live : (k'.procs j).Live
  pid : (k'.procs j).pid = k.nextPid
  childName : (k'.procs j).name = name
  others : ∀ l, l ≠ j → k'.procs l = k.procs l
  userland : k'.userland = k.userland
  supervisor : k'.supervisor = k.supervisor

theorem sysSpawn_service (name : CArray 32) (k : State) (path : Option (CArray 128))
    (file : Option ElfLoader.FileRead) (now later : UInt64) :
    Unmoved name k (sysSpawn k path file now later).1 ∨
      ∃ f p m j k1, Cleared k p now f ∧ f.name = name ∧ ServiceMade name k j k1 ∧
        Published k1 f p k.nextPid m (isRestart k.supervisor f) later
          (sysSpawn k path file now later).1 := by
  rcases sysSpawn_cases k path file now later with ⟨n, rc, -, heq⟩ | ⟨p, f, rfl, hc, heq⟩
  · rw [heq]
    exact .inl ⟨.of_procs rfl, .of_features rfl, .of_services rfl rfl rfl⟩
  rw [heq]
  have hout := loadAndSpawn_outcome k f p.str file (isRestart k.supervisor f) later
  generalize loadAndSpawn k f p.str file (isRestart k.supervisor f) later = result at hout
  cases hout with
  | unloaded r rc hload hkept => exact .inl (.elsewhere rfl rfl rfl)
  | unmade g i out k1 hfile hload hocc hnot hun =>
    refine .inl (.of_supervisor (fun l hlive hname => ?_) (.of_features (congrArg _ hun.userland))
      hun.supervisor)
    have hold : (k.procs l).Live := by
      by_contra hdead
      exact hun.free l hdead hlive
    have hsame : k1.procs l = k.procs l := hun.live l hold
    rw [hsame] at hname ⊢
    exact ⟨hold, hname, rfl, id⟩
  | made g i out j k1 hfile hload hocc hmade =>
    have hpublished := publishSpawn_published k1 f p.str k.nextPid (imageOf out.info)
      (isRestart k.supervisor f) later
    have hsupervisor : k1.supervisor = k.supervisor := by
      obtain ⟨core, t, rfl⟩ := hmade.state
      rfl
    have hchild : (k1.procs j).name = f.name := hmade.childName
    by_cases hname : f.name = name
    · exact .inr ⟨f, p.str, imageOf out.info, j, k1, hc, hname,
        ⟨hmade.free, hmade.live, hmade.pid, hchild.trans hname, fun l hl => hmade.others hl,
          hmade.userland, hsupervisor⟩, hpublished⟩
    left
    have hu := hpublished.unmoved hname
    have hmadeNone : NoneMade name k k1 := by
      intro l hlive hl
      have hlj : l ≠ j := by
        rintro rfl
        exact hname (hchild.symm.trans hl)
      have hsame : k1.procs l = k.procs l := hmade.others hlj
      rw [hsame] at hlive hl ⊢
      exact ⟨hlive, hl, rfl, id⟩
    exact hu.after hmadeNone hmade.userland hsupervisor

end AegisOS.Kernel
