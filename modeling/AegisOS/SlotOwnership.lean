import AegisOS.SpawnOutcome

/-! Every used runtime slot belongs to exactly one process, over all runs of the system
calls after the launch of the first process. -/
namespace AegisOS.Kernel
open CString ServiceSupervisor GuardedRun ElfLoader Function Userland

structure SlotsHeld (k : State) : Prop where
  vacant : ∀ j, ¬(k.procs j).Live → (k.procs j).task = none
  initialised : k.runtime.loaderInitialised = true
  builtin : ∃ i, k.runtime.builtinRuntimeSlot = slotId i ∧ (k.runtime.slots i).used = true
  held : ∀ i, (k.runtime.slots i).used = true →
    ∃ j, (k.procs j).Live ∧ (k.procs j).runtimeSlot = slotId i
  used : ∀ j, (k.procs j).Live →
    ∃ i, (k.procs j).runtimeSlot = slotId i ∧ (k.runtime.slots i).used = true
  apart : ∀ j l, (k.procs j).Live → (k.procs l).Live →
    (k.procs j).runtimeSlot = (k.procs l).runtimeSlot → j = l

/-- Each feature records the pid of its one process, so that reaping that process cannot
fail behind the release of its slot. -/
structure PidsRecorded (k : State) : Prop where
  catalogue : k.userland.WellFormed
  recorded : ∀ j, (k.procs j).Live → (k.procs j).pid ≠ 0 →
    ∀ f ∈ k.userland.features, f.name = (k.procs j).name → f.livePid = (k.procs j).pid
  single : ∀ j l, (k.procs j).Live → (k.procs l).Live → (k.procs j).pid ≠ 0 → (k.procs l).pid ≠ 0 →
    (k.procs j).name = (k.procs l).name → j = l

structure SlotsOwned (k : State) : Prop where
  slots : SlotsHeld k
  pids : PidsRecorded k

variable {k k' : State}

/-! Quiet steps. -/

theorem SlotsHeld.quiet (h : SlotsHeld k) (hq : Quiet k k') : SlotsHeld k' := by
  have hlive : ∀ j, (k'.procs j).Live → (k.procs j).Live := fun j => (hq.kept j).live.mp
  refine ⟨fun j hj => ?_, ?_, ?_, fun i hi => ?_, fun j hj => ?_, fun j l hj hl heq => ?_⟩
  · rw [(hq.kept j).task]
    exact h.vacant j fun hl => hj ((hq.kept j).live.mpr hl)
  · rw [hq.runtime]
    exact h.initialised
  · rw [hq.runtime]
    exact h.builtin
  · rw [hq.runtime] at hi
    obtain ⟨j, hj, hslot⟩ := h.held i hi
    exact ⟨j, (hq.kept j).live.mpr hj, (hq.kept j).runtimeSlot.trans hslot⟩
  · obtain ⟨i, hslot, hi⟩ := h.used j (hlive j hj)
    exact ⟨i, (hq.kept j).runtimeSlot.trans hslot, hq.runtime ▸ hi⟩
  · rw [(hq.kept j).runtimeSlot, (hq.kept l).runtimeSlot] at heq
    exact h.apart j l (hlive j hj) (hlive l hl) heq

theorem PidsRecorded.fewer (h : PidsRecorded k) (huserland : k'.userland = k.userland)
    (hprocs : ∀ j, (k'.procs j).Live → (k'.procs j).pid ≠ 0 →
      (k.procs j).Live ∧ (k'.procs j).pid = (k.procs j).pid ∧ (k'.procs j).name = (k.procs j).name) :
    PidsRecorded k' := by
  refine ⟨huserland ▸ h.catalogue, fun j hj hpid f hf hname => ?_, fun j l hj hl hpj hpl hname => ?_⟩
  · obtain ⟨hold, hp, hn⟩ := hprocs j hj hpid
    rw [hp] at hpid ⊢
    exact h.recorded j hold hpid f (huserland ▸ hf) (hname.trans hn)
  · obtain ⟨hjold, hp, hn⟩ := hprocs j hj hpj
    obtain ⟨hlold, hp', hn'⟩ := hprocs l hl hpl
    exact h.single j l hjold hlold (hp ▸ hpj) (hp' ▸ hpl) (by rw [← hn, ← hn', hname])

theorem SlotsOwned.quiet (h : SlotsOwned k) (hq : Quiet k k') : SlotsOwned k' :=
  ⟨h.slots.quiet hq, h.pids.fewer hq.userland fun j hj _ =>
    ⟨(hq.kept j).live.mp hj, (hq.kept j).pid, (hq.kept j).name⟩⟩

/-! Spawning. -/

theorem SlotsOwned.unspawned (h : SlotsOwned k) (hpool : PoolKept k.runtime k'.runtime)
    (huserland : k'.userland = k.userland) (hlive : ∀ j, (k.procs j).Live → k'.procs j = k.procs j)
    (hfree : ∀ j, ¬(k.procs j).Live → ¬(k'.procs j).Live)
    (hvacant : ∀ j, ¬(k'.procs j).Live → (k'.procs j).task = none) : SlotsOwned k' := by
  have hback : ∀ j, (k'.procs j).Live → (k.procs j).Live ∧ k'.procs j = k.procs j := by
    intro j hj
    have hold : (k.procs j).Live := by
      by_contra hdead
      exact hfree j hdead hj
    exact ⟨hold, hlive j hold⟩
  refine ⟨⟨hvacant, ?_, ?_, fun i hi => ?_, fun j hj => ?_, fun j l hj hl heq => ?_⟩,
    h.pids.fewer huserland fun j hj _ => ?_⟩
  · rw [hpool.loaderInitialised]
    exact h.slots.initialised
  · rw [hpool.builtinRuntimeSlot]
    obtain ⟨i, heq, hi⟩ := h.slots.builtin
    exact ⟨i, heq, (hpool.used i).trans hi⟩
  · rw [hpool.used i] at hi
    obtain ⟨j, hj, hslot⟩ := h.slots.held i hi
    exact ⟨j, by rwa [hlive j hj], by rwa [hlive j hj]⟩
  · obtain ⟨hold, heq⟩ := hback j hj
    obtain ⟨i, hslot, hi⟩ := h.slots.used j hold
    exact ⟨i, by rwa [heq], (hpool.used i).trans hi⟩
  · rw [(hback j hj).2, (hback l hl).2] at heq
    exact h.slots.apart j l (hback j hj).1 (hback l hl).1 heq
  · obtain ⟨hold, heq⟩ := hback j hj
    exact ⟨hold, by rw [heq], by rw [heq]⟩

variable {l j : Fin 256} {i : Fin 16} {out : Loaded}

section
variable {path : CStr} {now : UInt64} {f : Feature} {g : FileRead} {i : Fin 16} {out : Loaded}
  {ppid : UInt32} {j : Fin 256}

theorem Cleared.mem (hc : Cleared k path now f) : f ∈ k.userland.features :=
  List.mem_of_find?_eq_some hc.found

theorem Cleared.imagePath (hc : Cleared k path now f) : f.imagePath.str = path := by
  have hfound := List.find?_some hc.found
  simp only [Bool.and_eq_true, decide_eq_true_eq] at hfound
  exact hfound.2

theorem SlotsHeld.spawned (h : SlotsHeld k) (hocc : Occupies k.runtime g path i out)
    (hmade : Made (k.fill i out.slot) f.name.str (imageOf out.info) (slotId i) ppid j k')
    (u : Catalogue) : SlotsHeld { k' with userland := u } := by
  have hruntime : k'.runtime = k.runtime.set i out.slot := hmade.runtime
  have hold : ∀ l, (k.procs l).Live → l ≠ j ∧ k'.procs l = k.procs l := fun l hl => hmade.old hl
  have hused : ∀ b, (k.runtime.slots b).used = true → b ≠ i ∧ (k'.runtime.slots b).used = true := by
    intro b hb
    have hne : b ≠ i := by
      rintro rfl
      rw [hocc.free] at hb
      cases hb
    exact ⟨hne, by rw [hruntime, set_of_ne _ _ hne, hb]⟩
  -- an old process holds another slot than the child
  have hother : ∀ l, (k.procs l).Live → (k.procs l).runtimeSlot ≠ slotId i := by
    intro l hl heq
    obtain ⟨b, hslot, hb⟩ := h.used l hl
    exact (hused b hb).1 (slotId_inj (hslot.symm.trans heq))
  have hcases : ∀ l, (k'.procs l).Live → l = j ∨ (k.procs l).Live ∧ k'.procs l = k.procs l := by
    intro l hl
    by_cases hlj : l = j
    · exact .inl hlj
    · have heq : k'.procs l = k.procs l := hmade.others hlj
      exact .inr ⟨heq ▸ hl, heq⟩
  refine ⟨fun l hl => hmade.vacant h.vacant hl, ?_, ?_, fun b hb => ?_, fun l hl => ?_,
    fun l m hl hm heq => ?_⟩
  · exact (congrArg Runtime.loaderInitialised hruntime).trans h.initialised
  · obtain ⟨b, heq, hb⟩ := h.builtin
    exact ⟨b, (congrArg Runtime.builtinRuntimeSlot hruntime).trans heq, (hused b hb).2⟩
  · by_cases hbi : b = i
    · exact ⟨j, hmade.live, hbi ▸ hmade.runtimeSlot⟩
    rw [hruntime, set_of_ne _ _ hbi] at hb
    obtain ⟨l, hl, hslot⟩ := h.held b hb
    refine ⟨l, ?_, ?_⟩
    · rwa [(hold l hl).2]
    · dsimp only
      rwa [(hold l hl).2]
  · rcases hcases l hl with rfl | ⟨hl, heq⟩
    · refine ⟨i, hmade.runtimeSlot, ?_⟩
      rw [hruntime, set_self, hocc.used]
    · obtain ⟨b, hslot, hb⟩ := h.used l hl
      exact ⟨b, (congrArg Process.runtimeSlot heq).trans hslot, (hused b hb).2⟩
  · rcases hcases l hl with rfl | ⟨hl, hleq⟩
    · rcases hcases m hm with rfl | ⟨hm, hmeq⟩
      · rfl
      · rw [hmade.runtimeSlot, hmeq] at heq
        exact absurd heq.symm (hother m hm)
    · rcases hcases m hm with rfl | ⟨hm, hmeq⟩
      · rw [hmade.runtimeSlot, hleq] at heq
        exact absurd heq (hother l hl)
      · rw [hleq, hmeq] at heq
        exact h.apart l m hl hm heq

section
variable (h : PidsRecorded k) (hc : Cleared k path now f)
include h hc

theorem PidsRecorded.name_free (hl : (k.procs l).Live) (hpid : (k.procs l).pid ≠ 0) :
    (k.procs l).name ≠ f.name := by
  intro hname
  have hlive := h.recorded l hl hpid f hc.mem hname.symm
  rw [hc.idle] at hlive
  exact hpid hlive.symm

theorem PidsRecorded.spawned
    (hmade : Made (k.fill i out.slot) f.name.str (imageOf out.info) (slotId i) ppid j k') :
    PidsRecorded { k' with userland := (noteNativeProcessSpawn k'.userland f.name.str path
      k.nextPid (imageOf out.info)).1 } := by
  have hpid : (k'.procs j).pid = k.nextPid := hmade.pid
  have hothers : ∀ l, l ≠ j → k'.procs l = k.procs l := fun l hl => hmade.others hl
  rw [show k'.userland = k.userland from hmade.userland]
  by_cases hzero : k.nextPid = 0
  · rw [hzero]
    -- a child with pid 0 is not recorded anywhere
    refine h.fewer rfl fun l hl hpl => ?_
    have hlj : l ≠ j := by
      rintro rfl
      exact hpl (hpid.trans hzero)
    rw [hothers l hlj] at hl ⊢
    exact ⟨hl, rfl, rfl⟩
  have hrec := noteNativeProcessSpawn_recorded h.catalogue hc.mem hc.idle
    hmade.fits.complete hzero
  rw [hc.imagePath] at hrec
  have hname : (k'.procs j).name = f.name := hmade.childName
  refine ⟨hrec.wellFormed h.catalogue, fun l hl hpl e he hename => ?_,
    fun l m hl hm hpl hpm hlm => ?_⟩
  · by_cases hlj : l = j
    · rw [hlj] at hename ⊢
      rw [hpid]
      exact hrec.named h.catalogue e he (by rw [hename, hname])
    rw [hothers l hlj] at hl hpl hename ⊢
    have hne : e.name.str ≠ f.name.str := fun heq =>
      h.name_free hc hl hpl (hename.symm.trans (CArray.ext heq))
    obtain ⟨e', he', hsame, hlive⟩ := hrec.others e he hne
    rw [← hlive]
    exact h.recorded l hl hpl e' he' (hsame.trans hename)
  · by_cases hlj : l = j
    · by_cases hmj : m = j
      · rw [hlj, hmj]
      rw [hothers m hmj] at hm hpm hlm
      rw [hlj, hname] at hlm
      exact absurd hlm.symm (h.name_free hc hm hpm)
    · rw [hothers l hlj] at hl hpl hlm
      by_cases hmj : m = j
      · rw [hmj, hname] at hlm
        exact absurd hlm (h.name_free hc hl hpl)
      · rw [hothers m hmj] at hm hpm hlm
        exact h.single l m hl hm hpl hpm hlm

end

end

theorem SlotsHeld.unmade_pool {path : CStr} {g : FileRead}
    (h : SlotsHeld k) (hocc : Occupies k.runtime g path i out) (hun : Unmade (k.fill i out.slot) k') :
    PoolKept k.runtime (elfLoaderReleaseRuntimeSlot k'.runtime (slotId i)).1 := by
  have hbuiltin : slotId i ≠ k.runtime.builtinRuntimeSlot := by
    obtain ⟨b, hb, hused⟩ := h.builtin
    rw [hb]
    intro hib
    rw [← slotId_inj hib, hocc.free] at hused
    cases hused
  rw [hun.runtime, State.fill, hocc.release, if_neg hbuiltin]
  exact poolKept_set hocc.free rfl hocc.filled.imageBase hocc.filled.stackBase

theorem SlotsOwned.spawn (h : SlotsOwned k) (path : Option (CArray 128)) (file : Option FileRead)
    (now later : UInt64) : SlotsOwned (sysSpawn k path file now later).1 := by
  rcases sysSpawn_cases k path file now later with ⟨n, rc, -, heq⟩ | ⟨p, f, rfl, hc, heq⟩
  · rw [heq]
    exact h.quiet (quiet_supervisor k _)
  rw [heq]
  have hout := loadAndSpawn_outcome k f p.str file (isRestart k.supervisor f) later
  generalize loadAndSpawn k f p.str file (isRestart k.supervisor f) later = result at hout
  cases hout with
  | unloaded r rc hload hkept =>
    exact h.unspawned hkept rfl (fun _ _ => rfl) (fun _ hj => hj) h.slots.vacant
  | unmade g i out k' hfile hload hocc hnot hun =>
    exact h.unspawned (h.slots.unmade_pool hocc hun) hun.userland hun.live hun.free
      (hun.vacant h.slots.vacant)
  | made g i out j k' hfile hload hocc hmade =>
    exact .quiet ⟨h.slots.spawned hocc hmade _, h.pids.spawned hc hmade⟩
      (publishSpawn_quiet k' f p.str k.nextPid (imageOf out.info) _ later)

/-! Announcing. -/

theorem PidsRecorded.announced {u : Catalogue} {s : Supervisor}
    (h : PidsRecorded k) (hj : (k.procs j).Live) (hpid : (k.procs j).pid ≠ 0)
    (hrec : Recorded k.userland u (k.procs j).name.str (k.procs j).pid) :
    PidsRecorded { k with userland := u, supervisor := s } := by
  refine ⟨hrec.wellFormed h.catalogue, fun l hl hpl f hf hname => ?_, h.single⟩
  by_cases hsame : f.name.str = (k.procs j).name.str
  · have hlj := h.single l j hl hj hpl hpid (hname.symm.trans (CArray.ext hsame))
    rw [hlj]
    exact hrec.named h.catalogue f hf hsame
  · obtain ⟨g, hg, hgname, hlive⟩ := hrec.others f hf hsame
    rw [← hlive]
    exact h.recorded l hl hpl g hg (hgname.trans hname)

theorem SlotsOwned.serviceReady (h : SlotsOwned k) (name : Option (CArray 32)) :
    SlotsOwned (sysServiceReady k name).1 := by
  rcases sysServiceReady_cases k name with heq | ⟨j, supervisor, -, hj, hpid, -, heq⟩
  · rwa [heq]
  rw [heq]
  obtain ⟨-, -, hlive, -⟩ := processCurrent_spec hj
  rcases markFeatureNativeRunning_cases k.userland (k.procs j).name.str
    (k.procs j).pid with hsame | hrec
  · rw [hsame]
    exact h.quiet (quiet_supervisor k supervisor)
  · exact ⟨⟨h.slots.vacant, h.slots.initialised, h.slots.builtin, h.slots.held, h.slots.used,
      h.slots.apart⟩, h.pids.announced hlive hpid hrec⟩

/-! Reaping. -/

/-- The state once the process `j` with slot `i` is reaped. -/
structure Reaped (k : State) (j : Fin 256) (i : Fin 16) (k' : State) : Prop where
  procs : k'.procs = Function.update k.procs j processZero
  slot : (k.procs j).runtimeSlot = slotId i
  builtin : slotId i ≠ k.runtime.builtinRuntimeSlot
  runtime : k'.runtime = k.runtime.set i ((k.runtime.slots i).clear false)
  userland : k'.userland = k.userland ∨ (k.procs j).pid ≠ 0 ∧
    Recorded k.userland k'.userland (k.procs j).name.str 0

theorem SlotsOwned.reap (h : SlotsOwned k) (hj : (k.procs j).Live) :
    Quiet k (k.reap j (k.procs j).pid).1 ∨ ∃ i, Reaped k j i (k.reap j (k.procs j).pid).1 := by
  obtain ⟨i, hslot, hused⟩ := h.slots.used j hj
  obtain ⟨core, hfree⟩ := freeChild_eq k (k.procs j)
  unfold State.reap
  dsimp only
  rw [hfree]
  unfold releaseSlot
  rw [hslot, if_neg (slotId_ne_zero i)]
  rw [elfLoaderReleaseRuntimeSlot_used h.slots.initialised hused]
  by_cases hbuiltin : slotId i = k.runtime.builtinRuntimeSlot
  · rw [if_pos hbuiltin, if_pos (show aegisEperm ≠ aegisOk by decide)]
    exact .inl (quiet_core k core)
  rw [if_neg hbuiltin, if_neg (by simp)]
  refine .inr ⟨i, ?_⟩
  rcases markFeatureNativeExited_cases k.userland (k.procs j).name.str (k.procs j).pid with
    ⟨hrc, hpid, hrec⟩ | ⟨heq, -⟩ | ⟨-, hpid, f, hf, hname, hlive⟩
  · rw [if_neg (by simp [hrc])]
    exact ⟨rfl, hslot, hbuiltin, rfl, .inr ⟨hpid, hrec⟩⟩
  · rw [heq, if_neg (by simp)]
    exact ⟨rfl, hslot, hbuiltin, rfl, .inl rfl⟩
  · -- the feature records another pid: not of a process in use
    exact absurd (h.pids.recorded j hj hpid f hf (CArray.ext hname)) hlive

theorem Reaped.live (h : Reaped k j i k') (hl : (k'.procs l).Live) :
    l ≠ j ∧ (k.procs l).Live ∧ k'.procs l = k.procs l := by
  have hne : l ≠ j := by
    rintro rfl
    rw [h.procs, update_self] at hl
    exact processZero_not_live hl
  have heq : k'.procs l = k.procs l := by rw [h.procs, update_of_ne hne]
  exact ⟨hne, heq ▸ hl, heq⟩

theorem SlotsHeld.reaped (h : SlotsHeld k) (hj : (k.procs j).Live)
    (hr : Reaped k j i k') : SlotsHeld k' := by
  have hkept : ∀ l b, (k.procs l).Live → l ≠ j → (k.procs l).runtimeSlot = slotId b →
      k'.runtime.slots b = k.runtime.slots b := by
    intro l b hl hne hslot
    rw [hr.runtime]
    refine set_of_ne _ _ ?_
    rintro rfl
    exact hne (h.apart l j hl hj (hslot.trans hr.slot.symm))
  refine ⟨fun l hl => ?_, ?_, ?_, fun b hb => ?_, fun l hl => ?_, fun l m hl hm heq => ?_⟩
  · by_cases hlj : l = j
    · rw [hr.procs, hlj, update_self]
      rfl
    · rw [hr.procs, update_of_ne hlj] at hl ⊢
      exact h.vacant l hl
  · rw [hr.runtime]
    exact h.initialised
  · obtain ⟨b, hb, hused⟩ := h.builtin
    have hne : b ≠ i := by
      rintro rfl
      exact hr.builtin hb.symm
    rw [hr.runtime]
    exact ⟨b, hb, by rwa [set_of_ne _ _ hne]⟩
  · have hbi : b ≠ i := by
      rintro rfl
      rw [hr.runtime, set_self] at hb
      cases hb
    rw [hr.runtime, set_of_ne _ _ hbi] at hb
    obtain ⟨l, hl, hslot⟩ := h.held b hb
    have hlj : l ≠ j := by
      rintro rfl
      exact hbi (slotId_inj (hslot.symm.trans hr.slot))
    refine ⟨l, ?_⟩
    rw [hr.procs, update_of_ne hlj]
    exact ⟨hl, hslot⟩
  · obtain ⟨hlj, hold, heq⟩ := hr.live hl
    obtain ⟨b, hslot, hb⟩ := h.used l hold
    exact ⟨b, by rwa [heq], by rwa [hkept l b hold hlj hslot]⟩
  · obtain ⟨-, hlold, hleq⟩ := hr.live hl
    obtain ⟨-, hmold, hmeq⟩ := hr.live hm
    rw [hleq, hmeq] at heq
    exact h.apart l m hlold hmold heq

theorem PidsRecorded.reaped (h : PidsRecorded k) (hj : (k.procs j).Live)
    (hr : Reaped k j i k') : PidsRecorded k' := by
  have hold : ∀ l, (k'.procs l).Live →
      (k.procs l).Live ∧ (k'.procs l).pid = (k.procs l).pid ∧ (k'.procs l).name = (k.procs l).name := by
    intro l hl
    obtain ⟨-, hl, heq⟩ := hr.live hl
    exact ⟨hl, by rw [heq], by rw [heq]⟩
  rcases hr.userland with heq | ⟨hpid, hrec⟩
  · exact h.fewer heq fun j hj _ => hold j hj
  have hfewer : PidsRecorded { k' with userland := k.userland } :=
    h.fewer rfl fun j hj _ => hold j hj
  refine ⟨hrec.wellFormed h.catalogue, fun l hl hpl f hf hname => ?_, hfewer.single⟩
  obtain ⟨hlj, hlold, heq⟩ := hr.live hl
  rw [heq] at hpl hname
  have hne : f.name.str ≠ (k.procs j).name.str := fun hsame =>
    hlj (h.single l j hlold hj hpl hpid (hname.symm.trans (CArray.ext hsame)))
  obtain ⟨g, hg, hgname, hlive⟩ := hrec.others f hf hne
  rw [heq, ← hlive]
  exact h.recorded l hlold hpl g hg (hgname.trans hname)

theorem SlotsOwned.processWait_cases (h : SlotsOwned k) (pid : UInt32) :
    Quiet k (processWait k pid).1 ∨
      ∃ j i, processGet k pid = some j ∧ (k.procs j).Live ∧ Reaped k j i (processWait k pid).1 := by
  rcases Kernel.processWait_cases k pid with ⟨rc, heq⟩ | ⟨j, hget, -, -, heq⟩ <;> rw [heq]
  · exact .inl (.refl k)
  obtain ⟨rfl, hj⟩ := processGet_spec hget
  rcases h.reap hj with hq | ⟨i, hr⟩
  · exact .inl hq
  · exact .inr ⟨j, i, hget, hj, hr⟩

theorem SlotsOwned.wait (h : SlotsOwned k) (pid : UInt32) : SlotsOwned (processWait k pid).1 := by
  rcases h.processWait_cases pid with hq | ⟨j, i, -, hj, hr⟩
  · exact h.quiet hq
  · exact ⟨h.slots.reaped hj hr, h.pids.reaped hj hr⟩

/-! Runs. -/

/-- No task is bound to an image besides the one of the first process. -/
def BoundOnce (_ : State) : Call → Prop
  | .bindCurrent .. => False
  | _ => True

instance (k : State) : (c : Call) → Decidable (BoundOnce k c)
  | .bindCurrent .. => inferInstanceAs (Decidable False)
  | .spawn .. | .serviceReady _ | .consoleReady | .kill .. | .exit .. | .waitpid .. | .shutdown ..
  | .yield | .openFile _ | .close _ | .fileIo .. | .sockets _ | .other | .schedulerRun
  | .kernelTask _ | .setIdle _ => inferInstanceAs (Decidable True)

theorem SlotsOwned.step {c : Call} (h : SlotsOwned k) (hok : BoundOnce k c)
    (hstep : dispatch k c = some k') : SlotsOwned k' := by
  unfold dispatch at hstep
  split at hstep
  · cases hstep
  by_cases hc : c.loud = false
  · exact h.quiet (perform_quiet h.slots.vacant hc hstep)
  cases c <;> simp only [Call.loud, not_true_eq_false] at hc
  case spawn path file now later =>
    cases hstep
    exact h.spawn path file now later
  case serviceReady name =>
    cases hstep
    exact h.serviceReady name
  case waitpid pid options exitPtr =>
    cases hstep
    rcases sysWaitpid_cases k pid options exitPtr with heq | ⟨child, heq⟩
    · rwa [heq]
    · rw [heq]
      exact h.wait child
  case bindCurrent => exact hok.elim

theorem Launched.slotsOwned {k0 : State} {f : FileRead}
    (h : Launched k0 f i out j k) (hunborn : Unborn k0) : SlotsOwned k := by
  obtain ⟨p, hpid, hname, hlive, hslot, -, hprocs⟩ := h.procs
  rw [hunborn.nextPid] at hpid
  have hself : k.procs j = p := by rw [hprocs, update_self]
  have honly : ∀ l, (k.procs l).Live → l = j := by
    intro l hl
    by_contra hne
    rw [hprocs, update_of_ne hne, hunborn.procs] at hl
    exact processZero_not_live hl
  have hslots : ∀ b, (k.runtime.slots b).used = true ↔ b = i := by
    intro b
    rw [h.runtime]
    by_cases hbi : b = i
    · subst hbi
      simp [firstRuntime, Runtime.set, h.loaded.used]
    · simp [firstRuntime, Runtime.set, elfLoaderInit, hbi]
  refine ⟨⟨fun l hl => ?_, ?_, ?_, fun b hb => ?_, fun l hl => ?_, fun l m hl hm _ => ?_⟩,
    ⟨h.wellFormed, fun l hl _ g hg hgname => ?_, fun l m hl hm _ _ _ => ?_⟩⟩
  · have hne : l ≠ j := by
      rintro rfl
      exact hl (hself ▸ hlive)
    rw [hprocs, update_of_ne hne, hunborn.procs]
    rfl
  · rw [h.runtime]
    rfl
  · exact ⟨i, by rw [h.runtime]; rfl, (hslots i).mpr rfl⟩
  · exact ⟨j, hself ▸ hlive, by rw [hself, (hslots b).mp hb, hslot]⟩
  · exact ⟨i, by rw [honly l hl, hself, hslot], (hslots i).mpr rfl⟩
  · rw [honly l hl, honly m hm]
  · rw [honly l hl, hself, hname] at hgname
    rw [honly l hl, hself, hpid]
    refine h.live g hg ?_
    rw [hgname]
    decide
  · rw [honly l hl, honly m hm]

/-- What owning a slot means: one holder, no other, and no other's slot cleared by
`process_wait`, whatever it returns. -/
structure SlotsExclusive (k : State) : Prop where
  holder : ∀ i, (k.runtime.slots i).used = true →
    ∃! j, (k.procs j).Live ∧ (k.procs j).runtimeSlot = slotId i
  apart : ∀ j l, (k.procs j).Live → (k.procs l).Live → (k.procs j).runtimeSlot ≠ 0 →
    (k.procs j).runtimeSlot = (k.procs l).runtimeSlot → j = l
  wait : ∀ pid j i, (k.procs j).Live → (k.procs j).runtimeSlot = slotId i →
    processGet k pid ≠ some j → (processWait k pid).1.runtime.slots i = k.runtime.slots i

theorem SlotsOwned.exclusive (h : SlotsOwned k) : SlotsExclusive k := by
  refine ⟨fun i hi => ?_, fun j l hj hl _ heq => h.slots.apart j l hj hl heq,
    fun pid j i hj hslot hget => ?_⟩
  · obtain ⟨j, hj, hslot⟩ := h.slots.held i hi
    exact ⟨j, ⟨hj, hslot⟩, fun l hl => h.slots.apart l j hl.1 hj (hl.2.trans hslot.symm)⟩
  rcases h.processWait_cases pid with hq | ⟨l, b, hget', hl, hr⟩
  · rw [hq.runtime]
  rw [hr.runtime]
  refine set_of_ne _ _ ?_
  rintro rfl
  have hjl := h.slots.apart j l hj hl (hslot.trans hr.slot.symm)
  exact hget (hjl ▸ hget')

/-- In every state the system calls reach after the launch of the first process, each
used runtime slot has exactly one process, and keeps its contents while others are reaped. -/
theorem runtime_slots_exclusive (k0 k1 k : State) (prepared : CStr → Option UInt32)
    (file : Option FileRead) (calls : List Call) (hunborn : Unborn k0)
    (hlaunch : launchNativePid1 k0 prepared file = some k1)
    (hrun : Run dispatch BoundOnce k1 calls k) : SlotsExclusive k := by
  obtain ⟨f, i, out, j, -, -, hlaunched⟩ := launched_spec hlaunch
  have howned := Run.invariant (I := SlotsOwned) (fun _ _ _ hI hok hstep => hI.step hok hstep) hrun
    (hlaunched.slotsOwned hunborn)
  exact howned.exclusive

/-- The first process spawns the daemon, ends and reaps it, and spawns it again into the
same slot. -/
theorem runtime_slot_reissued :
    ∃ k1 k, launchNativePid1 initTaskRunning (fun _ => some 7) (some ⟨plainImage, 120⟩) = some k1 ∧
      Run dispatch BoundOnce k1 [.spawn (some (strcopy (cstr "/sbin/aegisd"))) (some ⟨plainImage, 120⟩) 0 0,
        .kill 2 9, .waitpid 2 0 none,
        .spawn (some (strcopy (cstr "/sbin/aegisd"))) (some ⟨plainImage, 120⟩) 9 9] k ∧
      (k.procs 1).pid = 3 ∧ SlotsExclusive k := by
  have h : (launchNativePid1 initTaskRunning (fun _ => some 7) (some ⟨plainImage, 120⟩)).any (fun k1 =>
      (execute dispatch BoundOnce k1
        [.spawn (some (strcopy (cstr "/sbin/aegisd"))) (some ⟨plainImage, 120⟩) 0 0, .kill 2 9,
          .waitpid 2 0 none,
          .spawn (some (strcopy (cstr "/sbin/aegisd"))) (some ⟨plainImage, 120⟩) 9 9]).any
        fun k => decide ((k.procs 1).pid = 3)) = true := by decide +kernel
  obtain ⟨k1, hlaunch, hexec⟩ := (Option.any_eq_true _ _).mp h
  obtain ⟨k, hrun, hpid⟩ := Run.exists_of_execute hexec
  exact ⟨k1, k, hlaunch, hrun, hpid,
    runtime_slots_exclusive initTaskRunning k1 k _ _ _ ⟨fun _ => rfl, rfl⟩ hlaunch hrun⟩

end AegisOS.Kernel
