import AegisOS.Process

/-! Which process a task belongs to. A task is made for one process; the table may name
it only in the entry of that process. -/
namespace AegisOS.Kernel
open Scheduler Heap Function Userland CString List Option

/-- The entry `q` is in use if `p` is, with the same task and memory. -/
structure Inherits (p q : Process) : Prop where
  live : q.Live ↔ p.Live
  task : q.task = p.task
  born : q.born = p.born
  ownsStack : q.ownsStack = p.ownsStack
  stackBase : q.image.stackBase = p.image.stackBase
  runtimeSlot : q.runtimeSlot = p.runtimeSlot

/-- The linked tasks and the entries in use name each other: an entry with the address
of a linked task is the one that task was made for, and conversely. -/
structure Owned (c : Core) (procs : Fin 256 → Process) (births : Nat) : Prop where
  linked : Linked c
  owner : ∀ l ∈ c.links, ∀ i, (procs i).Live → (procs i).task = some l.addr →
    l.owner = some (procs i).born
  held : ∀ l ∈ c.links, ∀ i, (procs i).Live → l.owner = some (procs i).born →
    (procs i).task = some l.addr
  distinct : ∀ i j, (procs i).Live → (procs j).Live → (procs i).born = (procs j).born → i = j
  born : ∀ i, (procs i).Live → (procs i).born < births
  owners : ∀ l ∈ c.links, ∀ b, l.owner = some b → b < births
  ownStacks : ∀ i, (procs i).Live → (procs i).ownsStack = true →
    c.tags (procs i).image.stackBase = some (.procStack i) ∧ (procs i).runtimeSlot = 0
  vacant : ∀ i, ¬(procs i).Live → (procs i).task = none

def State.TasksOwned (k : State) : Prop := Owned k.core k.procs k.births

theorem Booted.tasksOwned {k : State} (h : Booted k) : k.TasksOwned := by
  obtain ⟨base, size, hcore⟩ := h.core
  have hdead : ∀ i, ¬(k.procs i).Live := by
    intro i hlive
    rw [h.procs i] at hlive
    exact hlive rfl
  have hlinks : k.core.links = [] := by
    rw [hcore]
    rfl
  refine ⟨hcore ▸ linked_init base size, ?_, ?_, ?_, ?_, ?_, ?_, fun i _ => by rw [h.procs i]; rfl⟩
  · simp [hlinks]
  · simp [hlinks]
  · exact fun i _ hlive => absurd hlive (hdead i)
  · exact fun i hlive => absurd hlive (hdead i)
  · simp [hlinks]
  · exact fun i hlive => absurd hlive (hdead i)

section
variable {c c' : Core} {procs procs' : Fin 256 → Process} {b b' : Nat} {i : Fin 256} {p : Process}

theorem Inherits.refl (p : Process) : Inherits p p := ⟨.rfl, rfl, rfl, rfl, rfl, rfl⟩

variable (h : Owned c procs b)
include h

section
variable (hl : Linked c') (hlinks : ∀ l ∈ c'.links, l ∈ c.links)
include hl hlinks

theorem Owned.shrink (hprocs : ∀ i, Inherits (procs i) (procs' i) ∨ procs' i = processZero)
    (hb : b ≤ b')
    (htags : ∀ x n, c.tags x = some (.procStack n) → c'.tags x = some (.procStack n)) :
    Owned c' procs' b' := by
  have hof : ∀ i, (procs' i).Live → (procs i).Live ∧ Inherits (procs i) (procs' i) := by
    intro i hlive
    rcases hprocs i with hi | hzero
    · exact ⟨hi.live.mp hlive, hi⟩
    · rw [hzero] at hlive
      exact absurd rfl hlive
  refine ⟨hl, ?_, ?_, ?_, ?_, ?_, ?_, ?_⟩
  · intro l hmem i hlive htask
    obtain ⟨hold, hi⟩ := hof i hlive
    rw [hi.born]
    exact h.owner l (hlinks l hmem) i hold (hi.task ▸ htask)
  · intro l hmem i hlive howner
    obtain ⟨hold, hi⟩ := hof i hlive
    rw [hi.task]
    exact h.held l (hlinks l hmem) i hold (hi.born ▸ howner)
  · intro i j hlive hlive' hborn
    obtain ⟨hold, hi⟩ := hof i hlive
    obtain ⟨hold', hj⟩ := hof j hlive'
    exact h.distinct i j hold hold' (by rw [← hi.born, ← hj.born, hborn])
  · intro i hlive
    obtain ⟨hold, hi⟩ := hof i hlive
    rw [hi.born]
    exact (h.born i hold).trans_le hb
  · intro l hmem x hx
    exact (h.owners l (hlinks l hmem) x hx).trans_le hb
  · intro i hlive howns
    obtain ⟨hold, hi⟩ := hof i hlive
    obtain ⟨htag, hslot⟩ := h.ownStacks i hold (hi.ownsStack ▸ howns)
    rw [hi.stackBase, hi.runtimeSlot]
    exact ⟨htags _ _ htag, hslot⟩
  · intro i hdead
    rcases hprocs i with hi | hzero
    · rw [hi.task]
      exact h.vacant i fun hold => hdead (hi.live.mpr hold)
    · rw [hzero]
      rfl

theorem Owned.of_core
    (htags : ∀ x n, c.tags x = some (.procStack n) → c'.tags x = some (.procStack n)) :
    Owned c' procs b :=
  h.shrink hl hlinks (fun i => .inl (.refl (procs i))) le_rfl htags

end

theorem Owned.grow (hl : Linked c') {l : Link} (hlinks : c'.links = c.links ++ [l])
    (htags : ∀ x tag, c.tags x = some tag → c'.tags x = some tag)
    (hfresh : ∀ i, (procs i).Live → (procs i).task ≠ some l.addr)
    (howner : ∀ x, l.owner = some x → b ≤ x ∧ x < b') (hb : b ≤ b') : Owned c' procs b' := by
  have hmem : ∀ m ∈ c'.links, m ∈ c.links ∨ m = l := by
    intro m hm
    rw [hlinks] at hm
    simpa using hm
  refine ⟨hl, ?_, ?_, h.distinct, fun i hi => (h.born i hi).trans_le hb, ?_,
    fun i hi howns => ⟨htags _ _ (h.ownStacks i hi howns).1, (h.ownStacks i hi howns).2⟩, h.vacant⟩
  · intro m hm i hlive htask
    rcases hmem m hm with hold | rfl
    · exact h.owner m hold i hlive htask
    · exact absurd htask (hfresh i hlive)
  · intro m hm i hlive hown
    rcases hmem m hm with hold | rfl
    · exact h.held m hold i hlive hown
    have := h.born i hlive
    have := (howner _ hown).1
    omega
  · intro m hm x hx
    rcases hmem m hm with hold | rfl
    · exact (h.owners m hold x hx).trans_le hb
    · exact (howner x hx).2

theorem Owned.rebind {a : Nat} (hfresh : ∀ i, (procs i).Live → (procs i).task ≠ some a) :
    Owned (c.modify a fun t => { t with owner := some b }) procs (b + 1) := by
  have hmem : ∀ m ∈ (c.modify a fun t => { t with owner := some b }).links,
      m ∈ c.links ∨ m.addr = a ∧ m.owner = some b := by
    intro m hm
    rw [links_own] at hm
    obtain ⟨l, hl, rfl⟩ := mem_map.mp hm
    by_cases heq : l.addr = a
    · exact .inr (by simp [Link.own, heq])
    · exact .inl (by simpa [Link.own, heq] using hl)
  refine ⟨own_linked h.linked a _, ?_, ?_, h.distinct, fun i hi => Nat.lt_succ_of_lt (h.born i hi),
    ?_, h.ownStacks, h.vacant⟩
  · intro m hm i hlive htask
    rcases hmem m hm with hold | ⟨rfl, -⟩
    · exact h.owner m hold i hlive htask
    · exact absurd htask (hfresh i hlive)
  · intro m hm i hlive hown
    rcases hmem m hm with hold | ⟨-, hb⟩
    · exact h.held m hold i hlive hown
    have := h.born i hlive
    have := some.inj (hown.symm.trans hb)
    omega
  · intro m hm x hx
    rcases hmem m hm with hold | ⟨-, hb⟩
    · exact Nat.lt_succ_of_lt (h.owners m hold x hx)
    · have := some.inj (hx.symm.trans hb)
      omega

theorem Owned.rebind_names (a : Nat) : ∀ l ∈ (c.modify a fun t => { t with owner := some b }).links,
      some a = some l.addr ↔ l.owner = some b := by
  intro l hl
  rw [links_own] at hl
  obtain ⟨m, hm, rfl⟩ := mem_map.mp hl
  by_cases heq : m.addr = a
  · simp [Link.own, heq]
  have hown : m.owner ≠ some b := fun hown => absurd (h.owners m hm b hown) (lt_irrefl b)
  simp only [Link.own, if_neg heq]
  exact iff_of_false (fun hsome => heq (some.inj hsome).symm) hown

theorem Owned.enter (hlive : p.Live) (hborn : p.born < b)
    (hnew : ∀ j, (procs j).Live → (procs j).born ≠ p.born)
    (htask : ∀ l ∈ c.links, p.task = some l.addr ↔ l.owner = some p.born)
    (hstack : p.ownsStack = true →
      c.tags p.image.stackBase = some (.procStack i) ∧ p.runtimeSlot = 0) :
    Owned c (update procs i p) b := by
  have hother : ∀ j, j ≠ i → update procs i p j = procs j := fun j hj => update_of_ne hj p procs
  refine ⟨h.linked, ?_, ?_, ?_, ?_, h.owners, ?_, ?_⟩
  · intro l hl j hlive ht
    by_cases hj : j = i
    · subst hj
      rw [update_self] at ht ⊢
      exact (htask l hl).mp ht
    · rw [hother j hj] at hlive ht ⊢
      exact h.owner l hl j hlive ht
  · intro l hl j hlive ho
    by_cases hj : j = i
    · subst hj
      rw [update_self] at ho ⊢
      exact (htask l hl).mpr ho
    · rw [hother j hj] at hlive ho ⊢
      exact h.held l hl j hlive ho
  · intro j j' hlive hlive' heq
    by_cases hj : j = i
    · by_cases hj' : j' = i
      · exact hj.trans hj'.symm
      subst hj
      rw [hother j' hj'] at hlive' heq
      rw [update_self] at heq
      exact absurd heq.symm (hnew j' hlive')
    · by_cases hj' : j' = i
      · subst hj'
        rw [hother j hj] at hlive heq
        rw [update_self] at heq
        exact absurd heq (hnew j hlive)
      · rw [hother j hj] at hlive heq
        rw [hother j' hj'] at hlive' heq
        exact h.distinct j j' hlive hlive' heq
  · intro j hlive
    by_cases hj : j = i
    · subst hj
      rw [update_self]
      exact hborn
    · rw [hother j hj] at hlive ⊢
      exact h.born j hlive
  · intro j hlive howns
    by_cases hj : j = i
    · subst hj
      rw [update_self] at howns ⊢
      exact hstack howns
    · rw [hother j hj] at hlive howns ⊢
      exact h.ownStacks j hlive howns
  · intro j hdead
    by_cases hj : j = i
    · subst hj
      rw [update_self] at hdead
      exact absurd hlive hdead
    · rw [hother j hj] at hdead ⊢
      exact h.vacant j hdead

theorem Owned.replace (hp : Inherits (procs i) p ∨ p = processZero) :
    Owned c (update procs i p) b := by
  refine h.shrink h.linked (fun _ hl => hl) ?_ le_rfl (fun _ _ ht => ht)
  intro j
  by_cases hj : j = i
  · subst hj
    rw [update_self]
    exact hp
  · rw [update_of_ne hj]
    exact .inl (.refl _)

theorem Owned.destroy (a : Nat) : Owned (taskDestroy c a) procs b :=
  h.of_core (taskDestroy_linked h.linked a) (fun _ hl => mem_taskDestroy_links hl)
    fun _ _ hx => taskDestroy_tags h.linked hx (by simp) (by simp)

theorem Owned.same_links (hc : Linked c' ∧ c'.links = c.links ∧ c'.tags = c.tags) :
    Owned c' procs b :=
  h.of_core hc.1 (fun _ hl => hc.2.1 ▸ hl) fun _ _ hx => hc.2.2 ▸ hx

theorem Owned.dealloc {x : Nat} (hx : c.tags x = some (.procStack i)) (hdead : ¬(procs i).Live) :
    Owned (c.dealloc x) procs b := by
  refine ⟨dealloc_linked h.linked hx, h.owner, h.held, h.distinct, h.born, h.owners, ?_, h.vacant⟩
  intro j hlive howns
  obtain ⟨htag, hslot⟩ := h.ownStacks j hlive howns
  refine ⟨?_, hslot⟩
  have hne : (procs j).image.stackBase ≠ x := by
    rintro rfl
    rw [htag] at hx
    obtain rfl : j = i := Fin.ext (by simpa using hx)
    exact hdead hlive
  simp only [Core.dealloc, update_of_ne hne, htag]

end

/-! The functions of the process layer. -/

/-- The address the next task record gets in heap `h` is not recorded in any entry in
use. -/
def FreshTask (k : State) (h : List Block) : Prop :=
  ∀ a ∈ nextTaskAddr h, ∀ i, (k.procs i).Live → (k.procs i).task ≠ some a

/-- The feature of that name, if there is one, has that live pid. -/
def FeatureAgrees (u : Catalogue) (name : CStr) (pid : UInt32) : Prop :=
  ∀ n ∈ findFeature u name, ∀ f ∈ u.features[n]?, f.livePid = pid

variable {p : Process} {pid : UInt32}

section
variable {k k' : State} {i : Fin 256}

section
variable (h : k.TasksOwned)
include h

theorem State.TasksOwned.destroyTask (task : Option Nat) : (k.destroyTask task).TasksOwned := by
  cases task with
  | none => exact h
  | some a => exact .destroy h a

theorem State.TasksOwned.setState (hlive : (k.procs i).Live) {s : ProcState} (hs : s ≠ .empty) :
    (k.setState i s).TasksOwned :=
  .replace h (.inl ⟨iff_of_true hs hlive, rfl, rfl, rfl, rfl, rfl⟩)

theorem State.TasksOwned.bury (hlive : (k.procs i).Live) (code : Int) :
    (k.bury i code).TasksOwned :=
  Owned.replace h (.inl ⟨iff_of_true (show ProcState.zombie ≠ .empty by decide) hlive,
    rfl, rfl, rfl, rfl, rfl⟩)

theorem State.TasksOwned.kill (pid : UInt32) (signal : Int) :
    (processKill k pid signal).1.TasksOwned := by
  rcases processKill_cases k pid signal with ⟨-, heq⟩ | ⟨i, hget, -, hsig⟩
  · rw [heq]
    exact h
  have hlive := (processGet_spec hget).2
  generalize (processKill k pid signal).1 = k1 at hsig
  cases hsig with
  | terminated => exact (h.bury hlive _).destroyTask _
  | stopped | continued => exact h.setState hlive (by decide)
  | ignored => exact h

theorem State.TasksOwned.retire (a : Nat) (code : Int) (now : UInt64) :
    (processRetire k a code now).TasksOwned := by
  unfold processRetire
  cases hexit : exiting k a with
  | none => exact h
  | some i =>
    have hlive := exiting_live h.vacant hexit
    have hbury := (h.bury hlive code).destroyTask (some a)
    refine .shrink hbury hbury.linked (fun _ hl => hl) ?_ le_rfl (fun _ _ ht => ht)
    intro j
    simp only [reparent]
    split
    · exact .inl ⟨.rfl, rfl, rfl, rfl, rfl, rfl⟩
    · exact .inl (.refl _)

theorem State.TasksOwned.withCore {core : Core}
    (hc : Linked core ∧ core.links = k.core.links ∧ core.tags = k.core.tags) :
    { k with core := core }.TasksOwned :=
  .same_links h hc

theorem State.TasksOwned.yield (hy : k.yield = some k') : k'.TasksOwned := by
  obtain ⟨core, switched, hcore, rfl⟩ := yield_spec hy
  exact h.withCore (schedulerYield_linked h.linked hcore)

theorem State.TasksOwned.exit {code : Int} {now : UInt64} (he : processExit k code now = some k') :
    k'.TasksOwned := by
  rcases processExit_spec he with ⟨-, rfl⟩ | ⟨a, core, -, hcore, rfl⟩
  · exact h
  · have hr := h.retire a code now
    exact hr.withCore (schedulerYield_linked hr.linked hcore)

end

theorem attachTask_owned {b : Nat} (resume : Resume) (prio : Nat)
    (h : Owned k.core k.procs b) (hbirths : k.births = b + 1) (hlive : p.Live) (hborn : p.born = b)
    (hfresh : FreshTask k k.core.heap)
    (hstack : p.ownsStack = true →
      k.core.tags p.image.stackBase = some (.procStack i) ∧ p.runtimeSlot = 0) :
    (k.attachTask i p resume prio).1.TasksOwned := by
  unfold State.attachTask
  cases hmade : taskCreate k.core resume prio (some p.born) with
  | mk core r =>
    obtain ⟨hlinked, -, hcreated⟩ := taskCreate_created h.linked hmade
    cases hcreated with
    | failed hlinks htags =>
      have hgrown : Owned core k.procs k.births :=
        h.shrink hlinked (fun _ hl => hlinks ▸ hl) (fun j => .inl (.refl _)) (by omega)
          fun _ _ hx => htags ▸ hx
      exact .replace hgrown (.inr rfl)
    | made l hlinks howner _ hdistinct htags =>
      have hunrecorded := hfresh l.addr (taskCreate_addr hmade)
      have hgrown : Owned core k.procs k.births := by
        refine h.grow hlinked hlinks htags hunrecorded ?_ (by omega)
        intro x hx
        have := some.inj (howner.symm.trans hx)
        omega
      have hnames : ∀ m ∈ core.links, some l.addr = some m.addr ↔ m.owner = some p.born := by
        intro m hm
        rw [hlinks] at hm
        rcases mem_append.mp hm with hold | hlast
        · refine iff_of_false (fun heq => hdistinct m hold (some.inj heq).symm) fun hown => ?_
          have := h.owners m hold _ hown
          omega
        · rw [mem_singleton.mp hlast]
          exact iff_of_true rfl howner
      have hentered : Owned core (update k.procs i { p with task := some l.addr }) k.births := by
        refine hgrown.enter hlive ?_ ?_ hnames fun howns => ?_
        · dsimp only
          omega
        · intro j hj
          have := h.born j hj
          dsimp only
          omega
        · exact ⟨htags _ _ (hstack howns).1, (hstack howns).2⟩
      exact hentered

theorem attachTask_none {resume : Resume} {prio : Nat} (hl : Linked k.core)
    (h : k.attachTask i p resume prio = (k', none)) :
    k'.core.tags = k.core.tags ∧ k'.procs i = processZero := by
  unfold State.attachTask at h
  cases hmade : taskCreate k.core resume prio (some p.born) with
  | mk core r =>
    rw [hmade] at h
    obtain ⟨-, -, hcreated⟩ := taskCreate_created hl hmade
    cases hcreated with
    | failed hlinks htags =>
      obtain rfl := (Prod.mk.inj h).1
      exact ⟨htags, setProc_self _ i _⟩
    | made => cases (Prod.mk.inj h).2

theorem Owned.countBirth (h : k.TasksOwned) : Owned k.core k.procs (k.births + 1) :=
  .shrink h h.linked (fun _ hl => hl) (fun _ => .inl (.refl _)) (by omega) fun _ _ hx => hx

section
variable (h : k.TasksOwned) (name : CStr)
include h

theorem State.TasksOwned.create (ppid : UInt32)
    (hfresh : ∀ got ∈ kmalloc k.core.heap procStackSize, FreshTask k got.1) :
    (processCreate k name ppid).1.TasksOwned := by
  unfold processCreate
  cases hslot : procFindSlot k with
  | none => exact h
  | some i =>
    dsimp only
    cases halloc : k.core.alloc procStackSize fun _ => .procStack i with
    | none => exact .replace (.countBirth h) (.inr rfl)
    | some got =>
      obtain ⟨core, stack⟩ := got
      have hg := alloc_granted (by decide) h.linked.backed halloc
      obtain ⟨hlinked, hlinks⟩ := hg.linked h.linked
      have hcore : Owned core k.procs k.births :=
        .of_core h hlinked (fun _ hl => hlinks ▸ hl) fun _ _ hx => hg.keeps hx
      have hheap : FreshTask k core.heap := by
        obtain ⟨got, hgot, heq⟩ := map_eq_some_iff.mp halloc
        rw [← (Prod.mk.inj heq).1]
        exact hfresh got hgot
      have howned := attachTask_owned (k := { k.countBirth with core := core })
        (p := { processInitialRecord k name ppid with
          image := ⟨0, 0, 0, stack, procStackSize⟩, ownsStack := true }) (i := i) .kernelEntry 1
        hcore rfl (show ProcState.running ≠ .empty by decide) rfl hheap fun _ => ⟨hg.self, rfl⟩
      dsimp only
      cases hmade : State.attachTask { k.countBirth with core := core } i
        { processInitialRecord k name ppid with
          image := ⟨0, 0, 0, stack, procStackSize⟩, ownsStack := true } .kernelEntry 1 with
      | mk k1 r =>
        rw [hmade] at howned
        cases r with
        | some _ => exact howned
        | none =>
          obtain ⟨htags, hzero⟩ := attachTask_none (k := { k.countBirth with core := core }) hlinked hmade
          refine .dealloc (i := i) howned ?_ ?_
          · rw [htags]
            exact hg.self
          · rw [hzero]
            exact fun hlive => hlive rfl

theorem State.TasksOwned.spawn (m : Image) (slot ppid : UInt32)
    (hfresh : FreshTask k k.core.heap) :
    (processSpawnUserImage k name m slot ppid).1.TasksOwned := by
  rcases processSpawn_cases k name m slot ppid with heq | ⟨i, -, heq⟩ <;> rw [heq]
  · exact h
  · exact attachTask_owned (k := k.countBirth) .userEntry 25 h rfl
      (show ProcState.running ≠ .empty by decide) rfl hfresh nofun

theorem State.TasksOwned.bind (m : Image) (slot ppid : UInt32) :
    (processBindCurrentUserImage k name m slot ppid).1.TasksOwned := by
  rcases processBind_cases k name m slot ppid with heq | ⟨a, i, hcur, hnone, -, heq⟩ <;> rw [heq]
  · exact h
  exact .enter (.rebind h (processCurrent_none hcur hnone))
    (show ProcState.running ≠ .empty by decide) (Nat.lt_succ_self _)
    (fun j hj => (h.born j hj).ne) (Owned.rebind_names h a) nofun

end

theorem State.TasksOwned.kernelTask (h : k.TasksOwned) (prio : Nat)
    (hfresh : FreshTask k k.core.heap) :
    { k with core := (taskCreate k.core .kernelEntry prio none).1 }.TasksOwned := by
  cases hmade : taskCreate k.core .kernelEntry prio none with
  | mk core r =>
    obtain ⟨hlinked, -, hcreated⟩ := taskCreate_created h.linked hmade
    cases hcreated with
    | failed hlinks htags => exact h.withCore ⟨hlinked, hlinks, htags⟩
    | made l hlinks howner _ _ htags =>
      refine .grow h hlinked hlinks htags (hfresh l.addr (taskCreate_addr hmade)) ?_ le_rfl
      intro x hx
      rw [howner] at hx
      cases hx

/-! Reaping. -/

theorem FeatureAgrees.exited {u : Catalogue} {name : CStr}
    (h : FeatureAgrees u name pid) :
    (markFeatureNativeExited u name pid).2 = aegisOk ∨
      (markFeatureNativeExited u name pid).2 = aegisEnoent := by
  unfold markFeatureNativeExited
  cases hfind : findFeature u name with
  | none => exact .inr rfl
  | some n =>
    dsimp only
    split
    · exact .inr rfl
    split
    next hall =>
      have hn : n < u.features.length := (findIdx?_eq_some_iff_findIdx_eq.mp hfind).1
      have hagree := h n hfind _ (getElem?_eq_getElem hn)
      rw [getElem?_eq_getElem hn] at hall
      simp [hagree] at hall
    · exact .inl rfl

theorem reap_ok (hslot : (k.procs i).runtimeSlot = 0)
    (hfeature : FeatureAgrees k.userland (k.procs i).name.str pid) :
    (k.reap i pid).2 = .ok (k.procs i).exitCode := by
  have hexited := hfeature.exited
  simp only [State.reap, releaseSlot, hslot]
  rcases hexited with hrc | hrc <;> simp [hrc]

theorem State.TasksOwned.freeChild_clear (h : k.TasksOwned) (hlive : (k.procs i).Live) :
    Owned (k.freeChild (k.procs i)).core (update k.procs i processZero) k.births := by
  have hdestroyed := h.destroyTask (k.procs i).task
  rw [State.TasksOwned, destroyTask_procs, destroyTask_births] at hdestroyed
  have hcleared := hdestroyed.replace (i := i) (.inr rfl)
  simp only [State.freeChild]
  split
  next howns =>
    refine hcleared.dealloc (i := i) (hdestroyed.ownStacks i hlive howns.1).1 ?_
    rw [update_self]
    exact fun hz => hz rfl
  · exact hcleared

theorem State.TasksOwned.reap (h : k.TasksOwned) (hlive : (k.procs i).Live)
    (hfeature : (k.procs i).ownsStack = true →
      FeatureAgrees k.userland (k.procs i).name.str pid) : (k.reap i pid).1.TasksOwned := by
  obtain ⟨runtime, userland, ⟨rc, heq⟩ | heq⟩ := reap_cases k i pid
  · -- an error leaves the entry, so its stack must not have been freed
    have howns : (k.procs i).ownsStack ≠ true := by
      intro howns
      have hok := reap_ok (h.ownStacks i hlive howns).2 (hfeature howns)
      rw [heq] at hok
      cases hok
    have hcore : (k.freeChild (k.procs i)) = k.destroyTask (k.procs i).task := by
      simp only [State.freeChild, howns, false_and, if_false, Bool.false_eq_true]
    rw [heq, hcore]
    exact h.destroyTask (k.procs i).task
  · rw [heq]
    have hcleared := h.freeChild_clear hlive
    rw [← freeChild_births k (k.procs i)] at hcleared
    simpa only [State.TasksOwned, State.setProc, freeChild_procs] using hcleared

end

end AegisOS.Kernel
