import AegisOS.Heap
import Mathlib.Data.List.Nodup

/-! The cooperative scheduler (`kernel/core/scheduler.c`) with the heap its tasks live
in. A task is named by the address of its `task_t`. Two things are recorded that the
code does not store: which process a task was made for, and what each allocated
address of the heap is used as. -/
namespace AegisOS.Scheduler
open Heap

/-- `sizeof(task_t)` -/
def taskSize : Nat := 200
def taskStackSize : Nat := 8192

inductive TaskState
  | ready | running | blocked | dead
  deriving DecidableEq

/-- Where a task goes on when it is switched to: at its entry function, behind the
`scheduler_yield` it called, or behind the one at the end of `process_exit`. -/
inductive Resume
  | kernelEntry | userEntry | yielded | exited

structure Task where
  addr : Nat
  tid : UInt32
  state : TaskState
  stackBase : Nat
  priority : Nat
  resume : Resume
  /-- The process the task was created for or bound to, by its birth number. -/
  owner : Option Nat

inductive Tag
  | task | taskStack (task : Nat) | procStack (slot : Nat)

structure Core where
  heap : List Block
  tags : Nat → Option Tag
  tasks : List Task
  current : Option Nat
  idle : Option Nat
  nextTid : UInt32

/-- `heap_init` and `scheduler_init` -/
def Core.init (base size : Nat) : Core := ⟨heapInit base size, fun _ => none, [], none, none, 1⟩

def Core.alloc (c : Core) (n : Nat) (tag : Nat → Tag) : Option (Core × Nat) :=
  (kmalloc c.heap n).map fun got =>
    ({ c with heap := got.1, tags := Function.update c.tags got.2 (some (tag got.2)) }, got.2)

def Core.dealloc (c : Core) (ptr : Nat) : Core :=
  { c with heap := kfree c.heap ptr, tags := Function.update c.tags ptr none }

def taskCreate (c : Core) (resume : Resume) (priority : Nat) (owner : Option Nat) :
    Core × Option Nat :=
  match c.alloc taskSize fun _ => .task with
  | none => (c, none)
  | some (c, t) =>
    match c.alloc taskStackSize fun _ => .taskStack t with
    | none => ({ c.dealloc t with nextTid := c.nextTid + 1 }, none)
    | some (c, stack) =>
      ({ c with
          tasks := c.tasks ++ [⟨t, c.nextTid, .ready, stack, priority, resume, owner⟩]
          nextTid := c.nextTid + 1 }, some t)

def Core.find (c : Core) (a : Nat) : Option Task := c.tasks.find? fun t => t.addr = a

def Core.modify (c : Core) (a : Nat) (f : Task → Task) : Core :=
  { c with tasks := c.tasks.map fun t => if t.addr = a then f t else t }

/-- The running task is only marked; another one is unlinked and its memory freed. -/
def taskDestroy (c : Core) (a : Nat) : Core :=
  if c.current = some a then c.modify a fun t => { t with state := .dead }
  else
    match c.find a with
    | none => c
    | some t =>
      (({ c with tasks := c.tasks.filter fun u => u.addr ≠ a }).dealloc t.stackBase).dealloc a

/-- One round of the search for the ready task of highest priority. -/
def preferred (best : Option Task) (t : Task) : Option Task :=
  if t.state = .ready then
    match best with
    | none => some t
    | some b => if b.priority < t.priority then some t else some b
  else best

def pickFirstReady (c : Core) : Option Task := c.tasks.foldl preferred none

/-- `none` is the panic for want of a ready task. -/
def schedulerRun (c : Core) : Option Core :=
  (pickFirstReady c).map fun t =>
    { c.modify t.addr fun t => { t with state := .running } with current := some t.addr }

/-- The tasks in the order the yield loop visits them: behind the current one, then
from the head of the list up to it. -/
def visiting (c : Core) (cur : Nat) : List Task :=
  let i := c.tasks.findIdx fun t => t.addr = cur
  c.tasks.drop (i + 1) ++ c.tasks.take i

/-- The first ready task that is not idle, else the idle task if it is ready. -/
def nextTask (c : Core) (cur : Nat) : Option Task :=
  let ready := (visiting c cur).filter fun t => t.state = .ready
  (ready.find? fun t => some t.addr ≠ c.idle).or (ready.find? fun t => some t.addr = c.idle)

def switchTo (c : Core) (prev next : Nat) (mark : Resume) : Core :=
  let c := c.modify prev fun t =>
    { t with state := if t.state = .running then .ready else t.state, resume := mark }
  let c := c.modify next fun t => { t with state := .running }
  { c with current := some next }

/-- `none` is the panic of a dead task without a successor; the flag says whether the
processor was given to another task. -/
def schedulerYield (c : Core) (mark : Resume) : Option (Core × Bool) :=
  match c.current with
  | none => some (c, false)
  | some cur =>
    match nextTask c cur with
    | some next => some (switchTo c cur next.addr mark, true)
    | none => if (c.find cur).map Task.state = some .dead then none else some (c, false)

def nextTaskAddr (h : List Block) : Option Nat := (kmalloc h taskSize).map Prod.snd

/-! The scheduler's list of tasks stays well formed: every linked task and its stack lie
in memory of their own, and scheduling changes neither the links nor the memory. -/
open Function List

structure Link where
  addr : Nat
  stackBase : Nat
  owner : Option Nat

def Task.link (t : Task) : Link := ⟨t.addr, t.stackBase, t.owner⟩

def Core.links (c : Core) : List Link := c.tasks.map Task.link

variable {f : Task → Task} {c c' : Core} {t : Task} {ptr x prio a cur : Nat} {tag : Tag}
  {owner r : Option Nat} {resume mark : Resume} {switched : Bool}

theorem links_modify (c : Core) (a : Nat) (h : ∀ t, (f t).link = t.link) :
    (c.modify a f).links = c.links := by
  simp only [Core.links, Core.modify, map_map]
  apply map_congr_left
  intro t _
  simp only [comp_apply]
  split
  · exact h t
  · rfl

theorem mem_links (h : t ∈ c.tasks) : t.link ∈ c.links := mem_map_of_mem h

structure Backed (c : Core) : Prop where
  ordered : Ordered c.heap
  tagged : ∀ x tag, c.tags x = some tag → Allocated c.heap x

theorem backed_init (base size : Nat) : Backed (.init base size) :=
  ⟨ordered_init base size, by simp [Core.init]⟩

structure Granted (c c' : Core) (tag : Tag) (ptr : Nat) : Prop where
  backed : Backed c'
  fresh : c.tags ptr = none
  tags : c'.tags = update c.tags ptr (some tag)
  tasks : c'.tasks = c.tasks
  current : c'.current = c.current

theorem alloc_granted {n : Nat} {tag : Nat → Tag} (hn : n < 2 ^ 32)
    (hb : Backed c) (h : c.alloc n tag = some (c', ptr)) : Granted c c' (tag ptr) ptr := by
  simp only [Core.alloc, Option.map_eq_some_iff] at h
  obtain ⟨⟨heap, p⟩, hgot, heq⟩ := h
  obtain ⟨rfl, rfl⟩ := heq
  have hg := kmalloc_grants hn hb.ordered hgot
  refine ⟨⟨hg.ordered, ?_⟩, ?_, rfl, rfl, rfl⟩
  · intro x t hx
    dsimp only at hx
    rw [hg.allocated]
    by_cases hxp : x = p
    · exact .inl hxp
    · rw [update_of_ne hxp] at hx
      exact .inr (hb.tagged x t hx)
  · by_contra hne
    obtain ⟨t, ht⟩ := Option.ne_none_iff_exists'.mp hne
    exact hg.fresh (hb.tagged p t ht)

theorem Granted.self (h : Granted c c' tag ptr) : c'.tags ptr = some tag := by
  rw [h.tags, update_self]

theorem Granted.keeps {tag' : Tag} (h : Granted c c' tag ptr)
    (hx : c.tags x = some tag') : c'.tags x = some tag' := by
  have hne : x ≠ ptr := by
    rintro rfl
    simp [h.fresh] at hx
  rw [h.tags, update_of_ne hne, hx]

theorem dealloc_backed (hb : Backed c) (ptr : Nat) : Backed (c.dealloc ptr) := by
  have hr := kfree_releases hb.ordered ptr
  refine ⟨hr.ordered, ?_⟩
  intro x t hx
  simp only [Core.dealloc] at hx ⊢
  by_cases hxp : x = ptr
  · simp [hxp] at hx
  · rw [update_of_ne hxp] at hx
    exact (hr.allocated x).mpr ⟨hb.tagged x t hx, hxp⟩

/-- The list of tasks is well formed: distinct addresses, each task and its stack in
memory of their own, and the running task among them. -/
structure Linked (c : Core) : Prop where
  backed : Backed c
  nodup : (c.links.map Link.addr).Nodup
  memory : ∀ l ∈ c.links, c.tags l.addr = some .task ∧ c.tags l.stackBase = some (.taskStack l.addr)
  current : ∀ a, c.current = some a → ∃ l ∈ c.links, l.addr = a

theorem linked_init (base size : Nat) : Linked (.init base size) :=
  ⟨backed_init base size, by simp [Core.links, Core.init], by simp [Core.links, Core.init],
    by simp [Core.init]⟩

theorem Granted.linked (hg : Granted c c' tag ptr)
    (hl : Linked c) : Linked c' ∧ c'.links = c.links := by
  have hlinks : c'.links = c.links := by simp only [Core.links, hg.tasks]
  refine ⟨⟨hg.backed, hlinks ▸ hl.nodup, ?_, ?_⟩, hlinks⟩
  · intro l hmem
    rw [hlinks] at hmem
    exact ⟨hg.keeps (hl.memory l hmem).1, hg.keeps (hl.memory l hmem).2⟩
  · rw [hg.current, hlinks]
    exact hl.current

theorem Linked.of_links (h : Linked c) (hheap : c'.heap = c.heap)
    (htags : c'.tags = c.tags) (hlinks : c'.links = c.links)
    (hcur : ∀ a, c'.current = some a → ∃ l ∈ c.links, l.addr = a) : Linked c' := by
  refine ⟨⟨hheap ▸ h.backed.ordered, ?_⟩, hlinks ▸ h.nodup, ?_, hlinks ▸ hcur⟩
  · rw [hheap, htags]
    exact h.backed.tagged
  · rw [hlinks, htags]
    exact h.memory

/-- The outcome of `task_create` as its callers see it. -/
inductive Created (c c' : Core) (owner : Option Nat) : Option Nat → Prop
  | failed : c'.links = c.links → c'.tags = c.tags → Created c c' owner none
  | made (l : Link) : c'.links = c.links ++ [l] → l.owner = owner → c.tags l.addr = none →
      (∀ m ∈ c.links, m.addr ≠ l.addr) →
      (∀ x tag, c.tags x = some tag → c'.tags x = some tag) → Created c c' owner (some l.addr)

theorem Linked.append {c1 c2 d : Core} {t stack : Nat} (hl : Linked c)
    (hg : Granted c c1 .task t) (hg2 : Granted c1 c2 (.taskStack t) stack)
    (hheap : d.heap = c2.heap) (htags : d.tags = c2.tags) (hcur : d.current = c2.current)
    (hlinks : d.links = c.links ++ [⟨t, stack, owner⟩]) :
    Linked d ∧ Created c d owner (some t) := by
  have hkeep : ∀ x tag, c.tags x = some tag → d.tags x = some tag := by
    intro x tag hx
    rw [htags]
    exact hg2.keeps (hg.keeps hx)
  have hdistinct : ∀ m ∈ c.links, m.addr ≠ t := by
    rintro m hm rfl
    have := (hl.memory m hm).1
    simp [hg.fresh] at this
  refine ⟨⟨⟨hheap ▸ hg2.backed.ordered, ?_⟩, ?_, ?_, ?_⟩,
    .made ⟨t, stack, owner⟩ hlinks rfl hg.fresh hdistinct hkeep⟩
  · rw [hheap, htags]
    exact hg2.backed.tagged
  · rw [hlinks, map_append]
    refine nodup_append.mpr ⟨hl.nodup, by simp, ?_⟩
    intro a ha b hb
    obtain ⟨m, hm, rfl⟩ := mem_map.mp ha
    rw [mem_singleton.mp hb]
    exact hdistinct m hm
  · rw [hlinks]
    intro l hmem
    cases mem_append.mp hmem with
    | inl hold => exact ⟨hkeep _ _ (hl.memory l hold).1, hkeep _ _ (hl.memory l hold).2⟩
    | inr hlast =>
      rw [mem_singleton.mp hlast, htags]
      exact ⟨hg2.keeps hg.self, hg2.self⟩
  · rw [hlinks, hcur, hg2.current, hg.current]
    intro a ha
    obtain ⟨l, hmem, heq⟩ := hl.current a ha
    exact ⟨l, mem_append_left _ hmem, heq⟩

theorem taskCreate_created (hl : Linked c) (h : taskCreate c resume prio owner = (c', r)) :
    Linked c' ∧ c'.current = c.current ∧ Created c c' owner r := by
  unfold taskCreate at h
  cases ha : c.alloc taskSize fun _ => .task with
  | none =>
    rw [ha] at h
    cases h
    exact ⟨hl, rfl, .failed rfl rfl⟩
  | some got =>
    obtain ⟨c1, t⟩ := got
    have hg := alloc_granted (by decide) hl.backed ha
    rw [ha] at h
    dsimp only at h
    cases hs : c1.alloc taskStackSize fun _ => .taskStack t with
    | none =>
      -- the record is given back, so that only the thread counter has moved
      rw [hs] at h
      cases h
      have htags : (c1.dealloc t).tags = c.tags := by
        simp only [Core.dealloc, hg.tags, update_idem]
        rw [← hg.fresh, update_eq_self]
      have hlinks : (c1.dealloc t).links = c.links := by
        simp only [Core.links, Core.dealloc, hg.tasks]
      have hb := dealloc_backed hg.backed t
      refine ⟨⟨⟨hb.ordered, hb.tagged⟩, ?_, ?_, ?_⟩, hg.current, .failed hlinks htags⟩
      · exact hlinks ▸ hl.nodup
      · intro l hmem
        rw [htags]
        exact hl.memory l (hlinks ▸ hmem)
      · intro a ha
        obtain ⟨l, hmem, heq⟩ := hl.current a (hg.current ▸ ha)
        exact ⟨l, hlinks ▸ hmem, heq⟩
    | some got =>
      obtain ⟨c2, stack⟩ := got
      have hg2 := alloc_granted (by decide) hg.backed hs
      rw [hs] at h
      cases h
      obtain ⟨hlink, hmade⟩ := hl.append (d := { c2 with
          tasks := c2.tasks ++ [⟨t, c2.nextTid, .ready, stack, prio, resume, owner⟩]
          nextTid := c2.nextTid + 1 }) hg hg2 rfl rfl rfl
        (show _ = c.links ++ [⟨t, stack, owner⟩] by
          simp [Core.links, hg2.tasks, hg.tasks, Task.link])
      exact ⟨hlink, hg2.current.trans hg.current, hmade⟩

theorem taskCreate_tasks (h : taskCreate c resume prio owner = (c', r)) :
    (r = none ∧ c'.tasks = c.tasks) ∨ ∃ t, r = some t.addr ∧ t.state = .ready ∧
      c'.tasks = c.tasks ++ [t] ∧ nextTaskAddr c.heap = some t.addr := by
  unfold taskCreate Core.alloc at h
  unfold nextTaskAddr
  cases hk : kmalloc c.heap taskSize with
  | none =>
    rw [hk] at h
    cases h
    exact .inl ⟨rfl, rfl⟩
  | some got =>
    rw [hk] at h
    dsimp only [Option.map_some] at h
    cases hs : kmalloc got.1 taskStackSize with
    | none =>
      rw [hs] at h
      cases h
      exact .inl ⟨rfl, rfl⟩
    | some _ =>
      rw [hs] at h
      cases h
      exact .inr ⟨_, rfl, rfl, rfl, rfl⟩

theorem taskCreate_addr {t : Nat}
    (h : taskCreate c resume prio owner = (c', some t)) : nextTaskAddr c.heap = some t := by
  obtain ⟨hnone, -⟩ | ⟨new, hnew, -, -, haddr⟩ := taskCreate_tasks h
  · cases hnone
  · exact haddr.trans hnew.symm

def Link.own (a : Nat) (owner : Option Nat) (l : Link) : Link :=
  if l.addr = a then { l with owner := owner } else l

theorem Link.own_addr (a : Nat) (owner : Option Nat) (l : Link) : (l.own a owner).addr = l.addr := by
  simp only [Link.own]
  split <;> rfl

theorem Link.own_stackBase (a : Nat) (owner : Option Nat) (l : Link) :
    (l.own a owner).stackBase = l.stackBase := by
  simp only [Link.own]
  split <;> rfl

theorem links_own (c : Core) (a : Nat) (owner : Option Nat) :
    (c.modify a fun t => { t with owner := owner }).links = c.links.map (.own a owner) := by
  simp only [Core.links, Core.modify, map_map]
  apply map_congr_left
  intro t _
  by_cases h : t.addr = a <;> simp [h, Link.own, Task.link]

theorem own_linked (hl : Linked c) (a : Nat) (owner : Option Nat) :
    Linked (c.modify a fun t => { t with owner := owner }) := by
  have hlinks := links_own c a owner
  refine ⟨⟨hl.backed.ordered, hl.backed.tagged⟩, ?_, ?_, ?_⟩
  · rw [hlinks, map_map, show Link.addr ∘ Link.own a owner = Link.addr from
      funext (Link.own_addr a owner)]
    exact hl.nodup
  · intro l hmem
    rw [hlinks] at hmem
    obtain ⟨m, hm, rfl⟩ := mem_map.mp hmem
    rw [Link.own_addr, Link.own_stackBase]
    exact hl.memory m hm
  · intro b hb
    obtain ⟨l, hmem, heq⟩ := hl.current b hb
    refine ⟨l.own a owner, ?_, (Link.own_addr a owner l).trans heq⟩
    rw [hlinks]
    exact mem_map_of_mem hmem

theorem dealloc_linked (hl : Linked c) {slot : Nat}
    (hx : c.tags x = some (.procStack slot)) : Linked (c.dealloc x) := by
  refine ⟨dealloc_backed hl.backed x, hl.nodup, ?_, hl.current⟩
  intro l hmem
  obtain ⟨h1, h2⟩ := hl.memory l hmem
  have hne1 : l.addr ≠ x := by
    rintro rfl
    rw [h1] at hx
    cases hx
  have hne2 : l.stackBase ≠ x := by
    rintro rfl
    rw [h2] at hx
    cases hx
  simp only [Core.dealloc]
  rw [update_of_ne hne1, update_of_ne hne2]
  exact ⟨h1, h2⟩

/-- What `task_destroy` leaves of the links: all of them if the task is running, else
those at other addresses. -/
theorem taskDestroy_links (c : Core) (a : Nat) :
    (taskDestroy c a).links =
      if c.current = some a then c.links else c.links.filter fun l => l.addr ≠ a := by
  simp only [taskDestroy]
  split
  · exact links_modify c a fun t => rfl
  cases hfind : c.find a with
  | none =>
    have hnone := find?_eq_none.mp hfind
    rw [eq_comm, filter_eq_self]
    intro l hmem
    obtain ⟨t, ht, rfl⟩ := mem_map.mp hmem
    exact decide_eq_true (by simpa [Task.link] using hnone t ht)
  | some t =>
    simp only [Core.links, Core.dealloc, filter_map]
    rfl

theorem mem_taskDestroy_links {l : Link} (h : l ∈ (taskDestroy c a).links) : l ∈ c.links := by
  rw [taskDestroy_links] at h
  split at h
  · exact h
  · exact mem_of_mem_filter h

theorem taskDestroy_current (c : Core) (a : Nat) : (taskDestroy c a).current = c.current := by
  simp only [taskDestroy]
  split
  · rfl
  · cases c.find a <;> rfl

theorem taskDestroy_tags (hl : Linked c)
    (hx : c.tags x = some tag) (htask : tag = .task → x ≠ a) (hstack : tag ≠ .taskStack a) :
    (taskDestroy c a).tags x = some tag := by
  simp only [taskDestroy]
  split
  · exact hx
  cases hfind : c.find a with
  | none => exact hx
  | some t =>
    have haddr : t.addr = a := by simpa using find?_some hfind
    have hmem := mem_links (mem_of_find?_eq_some hfind)
    have hxs : x ≠ t.stackBase := by
      rintro rfl
      have := (hl.memory t.link hmem).2
      rw [show t.link.stackBase = t.stackBase from rfl, hx] at this
      exact hstack (haddr ▸ Option.some.inj this)
    have hne : x ≠ a := by
      rintro rfl
      have := (hl.memory t.link hmem).1
      rw [show t.link.addr = x from haddr, hx] at this
      exact htask (Option.some.inj this) rfl
    simp only [Core.dealloc]
    rw [update_of_ne hne, update_of_ne hxs]
    exact hx

theorem taskDestroy_linked (hl : Linked c) (a : Nat) : Linked (taskDestroy c a) := by
  have hbacked : Backed (taskDestroy c a) := by
    simp only [taskDestroy]
    split
    · exact ⟨hl.backed.ordered, hl.backed.tagged⟩
    cases c.find a with
    | none => exact hl.backed
    | some t =>
      have hb : Backed { c with tasks := c.tasks.filter fun u => u.addr ≠ a } :=
        ⟨hl.backed.ordered, hl.backed.tagged⟩
      exact dealloc_backed (dealloc_backed hb _) _
  have hlinks := taskDestroy_links c a
  refine ⟨hbacked, ?_, ?_, ?_⟩
  · rw [hlinks]
    split
    · exact hl.nodup
    · exact (filter_sublist.map Link.addr).nodup hl.nodup
  · intro l hmem
    have hold := mem_taskDestroy_links hmem
    by_cases hcur : c.current = some a
    · simp only [taskDestroy, if_pos hcur]
      exact hl.memory l hold
    have hne : l.addr ≠ a := by
      rw [hlinks, if_neg hcur] at hmem
      simpa using (mem_filter.mp hmem).2
    obtain ⟨h1, h2⟩ := hl.memory l hold
    exact ⟨taskDestroy_tags hl h1 (fun _ => hne) (by simp),
      taskDestroy_tags hl h2 (by simp) (by simpa using hne)⟩
  · intro b hb
    rw [taskDestroy_current] at hb
    obtain ⟨l, hmem, rfl⟩ := hl.current b hb
    refine ⟨l, ?_, rfl⟩
    rw [hlinks]
    split
    · exact hmem
    rename_i hne
    refine mem_filter.mpr ⟨hmem, ?_⟩
    simp only [ne_eq, decide_eq_true_eq]
    rintro rfl
    exact hne hb

/-! Scheduling. -/

theorem preferred_cases (best : Option Task) (t : Task) :
    (preferred best t = some t ∧ t.state = .ready) ∨ preferred best t = best := by
  simp only [preferred]
  split
  next hready =>
    cases best with
    | none => exact .inl ⟨rfl, hready⟩
    | some b =>
      dsimp only
      split
      · exact .inl ⟨rfl, hready⟩
      · exact .inr rfl
  · exact .inr rfl

theorem foldl_preferred {l : List Task} {best : Option Task}
    (h : l.foldl preferred best = some t) : (t ∈ l ∧ t.state = .ready) ∨ best = some t := by
  induction l generalizing best with
  | nil => exact .inr h
  | cons u l ih =>
    cases ih h with
    | inl hmem => exact .inl ⟨mem_cons_of_mem u hmem.1, hmem.2⟩
    | inr hpref =>
      cases preferred_cases best u with
      | inl hu =>
        obtain rfl : u = t := Option.some.inj (hu.1.symm.trans hpref)
        exact .inl ⟨mem_cons_self, hu.2⟩
      | inr hbest => exact .inr (hbest.symm.trans hpref)

theorem pickFirstReady_mem (h : pickFirstReady c = some t) : t ∈ c.tasks ∧ t.state = .ready := by
  cases foldl_preferred h with
  | inl hmem => exact hmem
  | inr hnone => cases hnone

theorem mem_visiting (h : t ∈ visiting c cur) : t ∈ c.tasks := by
  cases mem_append.mp h with
  | inl hd => exact mem_of_mem_drop hd
  | inr ht => exact mem_of_mem_take ht

theorem nextTask_mem (h : nextTask c cur = some t) : t ∈ c.tasks ∧ t.state = .ready := by
  have hready : t ∈ (visiting c cur).filter fun t => t.state = .ready := by
    simp only [nextTask, Option.or_eq_some_iff] at h
    cases h with
    | inl h1 => exact mem_of_find?_eq_some h1
    | inr h2 => exact mem_of_find?_eq_some h2.2
  obtain ⟨hmem, hst⟩ := mem_filter.mp hready
  exact ⟨mem_visiting hmem, by simpa using hst⟩

theorem switchTo_links (c : Core) (prev next : Nat) (mark : Resume) :
    (switchTo c prev next mark).links = c.links := by
  refine .trans ?_ (links_modify c prev (f := fun t =>
    { t with state := if t.state = .running then .ready else t.state, resume := mark })
    fun t => rfl)
  exact links_modify _ next fun t => rfl

theorem switchTo_linked (hl : Linked c) (ht : t ∈ c.tasks) (prev : Nat)
    (mark : Resume) : Linked (switchTo c prev t.addr mark) := by
  refine hl.of_links rfl rfl (switchTo_links c prev t.addr mark) ?_
  intro a ha
  exact ⟨t.link, mem_links ht, Option.some.inj ha⟩

theorem schedulerRun_linked (hl : Linked c) (h : schedulerRun c = some c') :
    Linked c' ∧ c'.links = c.links ∧ c'.tags = c.tags := by
  simp only [schedulerRun, Option.map_eq_some_iff] at h
  obtain ⟨t, hpick, rfl⟩ := h
  have hlinks : (c.modify t.addr fun t => { t with state := .running }).links = c.links :=
    links_modify c t.addr fun t => rfl
  refine ⟨hl.of_links rfl rfl hlinks ?_, hlinks, rfl⟩
  intro a ha
  exact ⟨t.link, mem_links (pickFirstReady_mem hpick).1, Option.some.inj ha⟩

theorem schedulerYield_cases (h : schedulerYield c mark = some (c', switched)) :
    (switched = false ∧ c' = c) ∨
      (switched = true ∧ ∃ cur t, c.current = some cur ∧ t ∈ c.tasks ∧ t.state = .ready ∧
        c' = switchTo c cur t.addr mark) := by
  unfold schedulerYield at h
  cases hcur : c.current with
  | none =>
    rw [hcur] at h
    cases h
    exact .inl ⟨rfl, rfl⟩
  | some cur =>
    rw [hcur] at h
    dsimp only at h
    cases hnext : nextTask c cur with
    | none =>
      rw [hnext] at h
      dsimp only at h
      split at h
      · cases h
      · cases h
        exact .inl ⟨rfl, rfl⟩
    | some t =>
      rw [hnext] at h
      cases h
      obtain ⟨hmem, hready⟩ := nextTask_mem hnext
      exact .inr ⟨rfl, cur, t, rfl, hmem, hready, rfl⟩

theorem schedulerYield_linked (hl : Linked c) (h : schedulerYield c mark = some (c', switched)) :
    Linked c' ∧ c'.links = c.links ∧ c'.tags = c.tags := by
  rcases schedulerYield_cases h with ⟨-, rfl⟩ | ⟨-, cur, t, -, hmem, -, rfl⟩
  · exact ⟨hl, rfl, rfl⟩
  · exact ⟨switchTo_linked hl hmem cur mark, switchTo_links .., rfl⟩

/-! Which tasks can run. -/

/-- What is left alive after `task_destroy` is another task. -/
theorem mem_taskDestroy (h : t ∈ (taskDestroy c a).tasks)
    (hkept : c.current = some a → t.state ≠ .dead) : t ∈ c.tasks ∧ t.addr ≠ a := by
  unfold taskDestroy at h
  split at h
  · obtain ⟨u, hu, rfl⟩ := mem_map.mp h
    split at hkept
    · exact absurd rfl (hkept ‹_›)
    next hne =>
      rw [if_neg hne]
      exact ⟨hu, hne⟩
  · cases hfind : c.find a with
    | none =>
      rw [hfind] at h
      exact ⟨h, by simpa using find?_eq_none.mp hfind t h⟩
    | some u =>
      rw [hfind] at h
      obtain ⟨hmem, hne⟩ := mem_filter.mp h
      exact ⟨hmem, by simpa using hne⟩

theorem Linked.task_unique (h : Linked c) {u : Task} (ht : t ∈ c.tasks)
    (hu : u ∈ c.tasks) (heq : t.addr = u.addr) : t = u := by
  have hnodup : (c.tasks.map Task.addr).Nodup := by
    have := h.nodup
    rwa [Core.links, map_map] at this
  exact inj_on_of_nodup_map hnodup ht hu heq

theorem mem_modify (h : t ∈ (c.modify a f).tasks) :
    ∃ u ∈ c.tasks, (u.addr = a ∧ t = f u) ∨ (u.addr ≠ a ∧ t = u) := by
  obtain ⟨u, hu, rfl⟩ := mem_map.mp h
  refine ⟨u, hu, ?_⟩
  by_cases heq : u.addr = a
  · exact .inl ⟨heq, if_pos heq⟩
  · exact .inr ⟨heq, if_neg heq⟩

theorem mem_switchTo {prev next : Nat} (h : t ∈ (switchTo c prev next mark).tasks) :
    ∃ u ∈ c.tasks, u.addr = t.addr ∧ (t.addr = next → t.state = .running) ∧
      (t.addr ≠ next → t.state ≠ .dead → u.state ≠ .dead) := by
  obtain ⟨v, hv, hvt⟩ := mem_modify h
  obtain ⟨u, hu, huv⟩ := mem_modify hv
  refine ⟨u, hu, ?_⟩
  have hsame : u.addr = v.addr ∧ (v.state ≠ .dead → u.state ≠ .dead) := by
    rcases huv with ⟨-, rfl⟩ | ⟨-, rfl⟩
    · refine ⟨rfl, fun halive hdead => halive ?_⟩
      simp [hdead]
    · exact ⟨rfl, id⟩
  rcases hvt with ⟨hnext, rfl⟩ | ⟨hnext, rfl⟩
  · exact ⟨hsame.1, fun _ => rfl, fun hne => absurd hnext hne⟩
  · exact ⟨hsame.1, fun heq => absurd heq hnext, fun _ => hsame.2⟩

end AegisOS.Scheduler
