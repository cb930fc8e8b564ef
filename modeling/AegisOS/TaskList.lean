import AegisOS.Lib.LinkedList
import AegisOS.Scheduler
import AegisOS.Lib.GuardedRun

/-! The scheduler's list of tasks as it lies in memory (`kernel/core/scheduler.c`): every
task record holds a pointer to the next. What the heap answers is passed in; the loops
over the list run on fuel. -/
namespace AegisOS.TaskList
open LinkedList Scheduler List

/-- The part of a `task_t` the scheduler reads. -/
structure Cell where
  tid : UInt32
  state : TaskState
  priority : Nat
  stackBase : Option Nat
  next : Option Nat

structure Tasks where
  cell : Nat → Cell
  head : Option Nat
  current : Option Nat
  idle : Option Nat
  nextTid : UInt32

/-- `scheduler_init` -/
def Tasks.init (cell : Nat → Cell) : Tasks := ⟨cell, none, none, none, 1⟩

def Tasks.next (s : Tasks) (a : Nat) : Option Nat := (s.cell a).next

def Tasks.set (s : Tasks) (a : Nat) (c : Cell) : Tasks :=
  { s with cell := Function.update s.cell a c }

def Tasks.setNext (s : Tasks) (a : Nat) (p : Option Nat) : Tasks :=
  s.set a { s.cell a with next := p }

def Tasks.setState (s : Tasks) (a : Nat) (st : TaskState) : Tasks :=
  s.set a { s.cell a with state := st }

/-- What a call comes to: it runs out of fuel, panics, or returns. -/
inductive Outcome (α : Type)
  | diverged
  | panic
  | done (a : α)

def Outcome.ofOption {α : Type} : Option α → Outcome α
  | none => .diverged
  | some a => .done a

/-! Creation and destruction. -/

/-- The loop of `task_append`. -/
def lastTask (s : Tasks) (fuel p : Nat) : Option Nat := lastFrom s.next fuel p

def taskAppend (fuel : Nat) (s : Tasks) (t : Nat) : Option Tasks :=
  match s.head with
  | none => some { s with head := some t }
  | some p => (lastTask s fuel p).map fun p => s.setNext p (some t)

/-- `task` and `stack` are the answers of `kmalloc`; without a stack the record is freed
again. -/
def taskCreate (fuel : Nat) (s : Tasks) (priority : Nat) (task stack : Option Nat) :
    Option (Tasks × Option Nat) :=
  match task with
  | none => some (s, none)
  | some t =>
    let s := { s.set t ⟨s.nextTid, .ready, priority, stack, none⟩ with nextTid := s.nextTid + 1 }
    match stack with
    | none => some (s, none)
    | some _ => (taskAppend fuel s t).map fun s => (s, some t)

/-- The loop of `task_destroy`: the task, if it is linked, with the one before it. -/
def findTask (s : Tasks) (a : Nat) : Nat → Option Nat → Option Nat → Option (Option (Option Nat))
  | 0, _, _ => none
  | fuel + 1, prev, p =>
    match p with
    | none => some none
    | some q => if q = a then some (some prev) else findTask s a fuel (some q) (s.next q)

/-- The link to `a` is led past it. -/
def unlink (s : Tasks) (a : Nat) : Option Nat → Tasks
  | some prev => s.setNext prev (s.next a)
  | none => { s with head := s.next a }

def bury (s : Tasks) (a : Nat) : Tasks := s.set a { s.cell a with state := .dead, stackBase := none }

def taskDestroy (fuel : Nat) (s : Tasks) (task : Option Nat) : Option Tasks :=
  match task with
  | none => some s
  | some a =>
    if s.current = some a then some (s.setState a .dead)
    else
      (findTask s a fuel none s.head).map fun
        | none => s
        | some prev => bury (unlink s a prev) a

/-! Scheduling. -/

/-- One round of the loop of `scheduler_pick_first_ready`. -/
def better (s : Tasks) (best : Option Nat) (p : Nat) : Option Nat :=
  if (s.cell p).state ≠ .ready then best
  else
    match best with
    | none => some p
    | some b => if (s.cell b).priority < (s.cell p).priority then some p else some b

def pickFrom (s : Tasks) : Nat → Option Nat → Option Nat → Option (Option Nat)
  | 0, _, _ => none
  | fuel + 1, best, p =>
    match p with
    | none => some best
    | some p => pickFrom s fuel (better s best p) (s.next p)

def schedulerPickFirstReady (fuel : Nat) (s : Tasks) : Option (Option Nat) :=
  pickFrom s fuel none s.head

def schedulerRun (fuel : Nat) (s : Tasks) : Outcome Tasks :=
  match schedulerPickFirstReady fuel s with
  | none => .diverged
  | some none => .panic
  | some (some first) => .done ({ s with current := some first }.setState first .running)

/-- The task the cursor goes to behind `a`. -/
def after (s : Tasks) (head a : Nat) : Nat := (s.next a).getD head

/-- The loop of `scheduler_yield`: the task to switch to, if any. -/
def yieldLoop (s : Tasks) (head prev : Nat) : Nat → Nat → Option Nat → Option (Option Nat)
  | 0, _, _ => none
  | fuel + 1, cursor, fallback =>
    if cursor = prev then some fallback
    else if (s.cell cursor).state = .ready then
      if s.idle = some cursor then
        yieldLoop s head prev fuel (after s head cursor) (some cursor)
      else some (some cursor)
    else yieldLoop s head prev fuel (after s head cursor) fallback

/-- The processor passes from `prev` to `next`. -/
def switch (s : Tasks) (prev next : Nat) : Tasks :=
  let s := if (s.cell prev).state = .running then s.setState prev .ready else s
  { s.setState next .running with current := some next }

def schedulerYield (fuel : Nat) (s : Tasks) : Outcome Tasks :=
  match s.current, s.head with
  | some prev, some head =>
    match yieldLoop s head prev fuel (after s head prev) none with
    | none => .diverged
    | some none => if (s.cell prev).state = .dead then .panic else .done s
    | some (some next) => .done (switch s prev next)
  | _, _ => .done s

/-! The calls of the scheduler. -/

inductive Op
  | create (priority : Nat) (task stack : Option Nat)
  | destroy (task : Option Nat)
  | run
  | yield
  | setIdle (task : Option Nat)

def exec (fuel : Nat) (s : Tasks) : Op → Outcome Tasks
  | .create priority task stack => .ofOption ((taskCreate fuel s priority task stack).map Prod.fst)
  | .destroy task => .ofOption (taskDestroy fuel s task)
  | .run => schedulerRun fuel s
  | .yield => schedulerYield fuel s
  | .setIdle task => .done { s with idle := task }

structure Event where
  op : Op
  fuel : Nat

def step (s : Tasks) (e : Event) : Option Tasks :=
  match exec e.fuel s e.op with
  | .done s => some s
  | _ => none

/-! What the loops find. -/

/-- The loop runs out of fuel or answers `r`, and it answers when it has fuel for more than `n`
rounds. -/
def Returns {α : Type} (out : Option α) (fuel n : Nat) (r : α) : Prop :=
  out = some r ∨ out = none ∧ fuel ≤ n

namespace Returns
variable {α : Type} {out : Option α} {fuel n : Nat} {r : α}

theorem zero : Returns none 0 n r := .inr ⟨rfl, Nat.zero_le n⟩

variable (h : Returns out fuel n r)
include h

theorem step : Returns out (fuel + 1) (n + 1) r :=
  h.imp_right fun ⟨hnone, hle⟩ => ⟨hnone, Nat.succ_le_succ hle⟩

theorem mono {k : Nat} (hk : n ≤ k) : Returns out fuel k r :=
  h.imp_right fun ⟨hnone, hle⟩ => ⟨hnone, Nat.le_trans hle hk⟩

theorem map {β : Type} (f : α → β) : Returns (out.map f) fuel n (f r) := by
  rcases h with rfl | ⟨rfl, hle⟩
  · exact .inl rfl
  · exact .inr ⟨rfl, hle⟩

theorem enough (hfuel : n < fuel) : out = some r :=
  h.resolve_right fun ⟨_, hle⟩ => Nat.not_le_of_lt hfuel hle

end Returns

variable {a : Nat} {p best prev fallback : Option Nat}

section
variable {s : Tasks} {l : List Nat}

theorem lastTask_spec {q b : Nat} (h : Chain s.next (some q) (l ++ [b])) (fuel : Nat) :
    Returns (lastTask s fuel q) fuel l.length b := by
  rw [lastTask, h.lastFrom]
  split
  case isTrue => exact .inl rfl
  case isFalse hfuel => exact .inr ⟨rfl, Nat.le_of_not_lt hfuel⟩

theorem pickFrom_spec (h : Chain s.next p l) (fuel : Nat) :
    Returns (pickFrom s fuel best p) fuel l.length (l.foldl (better s) best) := by
  induction fuel generalizing best p l with
  | zero => exact .zero
  | succ fuel ih =>
    cases h with
    | nil => exact .inl rfl
    | cons hrest => exact (ih hrest).step

/-- The address before `a`, if there is one. -/
def before (prev : Option Nat) (l : List Nat) : Option Nat := (l.getLast?).or prev

theorem findTask_absent (h : Chain s.next p l) (ha : a ∉ l) (fuel : Nat) :
    Returns (findTask s a fuel prev p) fuel l.length none := by
  induction fuel generalizing prev p l with
  | zero => exact .zero
  | succ fuel ih =>
    cases h with
    | nil => exact .inl rfl
    | cons hrest =>
      obtain ⟨hba, hl⟩ := ne_and_not_mem_of_not_mem_cons ha
      simp only [findTask, if_neg hba.symm]
      exact (ih hrest hl).step

theorem findTask_present {l₁ l₂ : List Nat} (h : Chain s.next p (l₁ ++ a :: l₂)) (fuel : Nat) :
    Returns (findTask s a fuel prev p) fuel l₁.length (some (before prev l₁)) := by
  induction fuel generalizing p prev l₁ with
  | zero => exact .zero
  | succ fuel ih =>
    cases l₁ with
    | nil =>
      obtain ⟨rfl, -⟩ := h.tail
      exact .inl (by simp [findTask, before])
    | cons b l₁ =>
      have hba : b ≠ a := by
        rintro rfl
        exact h.not_mem_before (mem_cons_self)
      have hbefore : before prev (b :: l₁) = before (some b) l₁ := by
        simp only [before, getLast?_cons]
        cases l₁.getLast? <;> rfl
      obtain ⟨rfl, hrest⟩ := h.tail
      simp only [findTask, if_neg hba, hbefore]
      exact (ih hrest).step

def search (s : Tasks) : Option Nat → List Nat → Option Nat
  | fallback, [] => fallback
  | fallback, a :: l =>
    if (s.cell a).state = .ready then if s.idle = some a then search s (some a) l else some a
    else search s fallback l

theorem yieldLoop_spec {head prev c : Nat} (h : Route (after s head) c l prev) (hprev : prev ∉ l)
    (fuel : Nat) : Returns (yieldLoop s head prev fuel c fallback) fuel l.length
      (search s fallback l) := by
  induction fuel generalizing fallback c l with
  | zero => exact .zero
  | succ fuel ih =>
    cases h with
    | arrive => exact .inl (by simp [yieldLoop, search])
    | step hrest =>
      obtain ⟨hne, hl⟩ := ne_and_not_mem_of_not_mem_cons hprev
      simp only [yieldLoop, search, if_neg hne.symm]
      split
      · split
        · exact (ih hrest hl).step
        · exact .inl rfl
      · exact (ih hrest hl).step

theorem search_spec (h : search s fallback l = some a) :
    (a ∈ l ∧ (s.cell a).state = .ready) ∨ fallback = some a := by
  induction l generalizing fallback with
  | nil => exact .inr h
  | cons b l ih =>
    simp only [search] at h
    split at h
    next hready =>
      split at h
      · rcases ih h with ⟨hmem, hstate⟩ | heq
        · exact .inl ⟨mem_cons_of_mem b hmem, hstate⟩
        · cases heq
          exact .inl ⟨mem_cons_self, hready⟩
      · cases h
        exact .inl ⟨mem_cons_self, hready⟩
    · rcases ih h with ⟨hmem, hstate⟩ | heq
      · exact .inl ⟨mem_cons_of_mem b hmem, hstate⟩
      · exact .inr heq

theorem foldl_better (h : l.foldl (better s) best = some a) :
    (a ∈ l ∧ (s.cell a).state = .ready) ∨ best = some a := by
  induction l generalizing best with
  | nil => exact .inr h
  | cons b l ih =>
    rcases ih h with ⟨hmem, hstate⟩ | heq
    · exact .inl ⟨mem_cons_of_mem b hmem, hstate⟩
    unfold better at heq
    split at heq
    · exact .inr heq
    rename_i hready
    rw [not_not] at hready
    split at heq
    · cases heq
      exact .inl ⟨mem_cons_self, hready⟩
    split at heq
    · cases heq
      exact .inl ⟨mem_cons_self, hready⟩
    · exact .inr heq

end

/-! The scheduler's list stays a list: its links end, no task is linked twice, the current
task is linked, and it alone is running unless it is dead. -/
open GuardedRun Function Option

variable {s s' : Tasks} {l : List Nat}

/-! Changes of the links. -/

theorem next_set (s : Tasks) (a : Nat) (c : Cell) : (s.set a c).next = update s.next a c.next := by
  funext b
  by_cases hba : b = a <;> simp [Tasks.next, Tasks.set, hba]

theorem next_setState (s : Tasks) (a : Nat) (st : TaskState) : (s.setState a st).next = s.next := by
  rw [Tasks.setState, next_set]
  exact update_eq_self a s.next

theorem cell_set_self (s : Tasks) (a : Nat) (c : Cell) : (s.set a c).cell a = c := by
  simp [Tasks.set]

variable {a b t fuel prev head next fuel' : Nat} {m n : List Nat} {task p r : Option Nat}

theorem cell_set_of_ne (s : Tasks) (c : Cell) (h : b ≠ a) : (s.set a c).cell b = s.cell b := by
  simp [Tasks.set, h]

def Tasks.record (s : Tasks) (a : Nat) : Cell := { s.cell a with next := none }

theorem record_state (s : Tasks) (a : Nat) : (s.record a).state = (s.cell a).state := rfl

theorem record_setNext (s : Tasks) (a : Nat) (p : Option Nat) (b : Nat) :
    (s.setNext a p).record b = s.record b := by
  unfold Tasks.record Tasks.setNext
  by_cases hba : b = a
  · rw [hba, cell_set_self]
  · rw [cell_set_of_ne s _ hba]

/-- The tasks are linked in the order of `l`; besides the links nothing changed in the
records of `l`, nor in the static variables. -/
structure Relinked (s s' : Tasks) (l : List Nat) : Prop where
  chain : Chain s'.next s'.head l
  record : ∀ b ∈ l, s'.record b = s.record b
  current : s'.current = s.current
  idle : s'.idle = s.idle
  nextTid : s'.nextTid = s.nextTid

theorem taskAppend_spec (h : Chain s.next s.head l) (ht : t ∉ l) (hnext : s.next t = none) :
    ∃ s', Returns (taskAppend fuel s t) fuel l.length s' ∧ Relinked s s' (l ++ [t]) := by
  unfold taskAppend
  cases hhead : s.head with
  | none =>
    rw [hhead] at h
    cases h
    refine ⟨_, .inl rfl, .cons ?_, fun _ _ => rfl, rfl, rfl, rfl⟩
    rw [show (Tasks.next { s with head := some t }) t = none from hnext]
    exact .nil
  | some q =>
    rw [hhead] at h
    have hne : l ≠ [] := by
      rintro rfl
      cases h
    obtain ⟨m, b, rfl⟩ : ∃ m b, l = m ++ [b] := ⟨_, _, (dropLast_append_getLast hne).symm⟩
    refine ⟨_, ((lastTask_spec h fuel).map _).mono (by simp), ?_,
      fun c _ => record_setNext s b (some t) c, rfl, rfl, rfl⟩
    have happend := h.append ht hnext
    rw [← hhead] at happend
    rw [Tasks.setNext, next_set, append_assoc]
    exact happend

/-- Unlinking a task found behind `m`. -/
theorem unlink_spec (h : Chain s.next s.head (m ++ a :: n)) :
    Relinked s (unlink s a (before none m)) (m ++ n) := by
  cases hlast : m.getLast? with
  | none =>
    obtain rfl := getLast?_eq_none_iff.mp hlast
    exact ⟨h.tail.2, fun _ _ => rfl, rfl, rfl, rfl⟩
  | some b =>
    obtain ⟨m', rfl⟩ := getLast?_eq_some_iff.mp hlast
    rw [before, hlast, some_or]
    rw [append_assoc, singleton_append] at h
    rw [append_assoc, singleton_append]
    refine ⟨?_, fun c _ => record_setNext s b (s.next a) c, rfl, rfl, rfl⟩
    rw [unlink, Tasks.setNext, next_set]
    exact h.unlink

theorem taskDestroy_linked (h : Chain s.next s.head (m ++ a :: n))
    (hcur : s.current ≠ some a) :
    ∃ s', Returns (taskDestroy fuel s (some a)) fuel m.length s' ∧ Relinked s s' (m ++ n) := by
  have hrelinked := unlink_spec h
  have ha : ∀ b ∈ m ++ n, b ≠ a := by
    rintro b hb rfl
    exact (nodup_cons.mp (nodup_middle.mp h.nodup)).1 hb
  have hcell : ∀ b ∈ m ++ n, (bury (unlink s a (before none m)) a).cell b =
      (unlink s a (before none m)).cell b := fun b hb => cell_set_of_ne _ _ (ha b hb)
  unfold taskDestroy
  dsimp only
  rw [if_neg hcur]
  refine ⟨bury (unlink s a (before none m)) a, (findTask_present h fuel).map _,
    hrelinked.chain.congr fun b hb => congrArg Cell.next (hcell b hb), fun b hb => ?_,
    hrelinked.current, hrelinked.idle, hrelinked.nextTid⟩
  rw [← hrelinked.record b hb]
  unfold Tasks.record
  rw [hcell b hb]

theorem taskDestroy_unlinked (h : Chain s.next s.head l) (ha : a ∉ l) (hcur : s.current ≠ some a) :
    Returns (taskDestroy fuel s (some a)) fuel l.length s := by
  unfold taskDestroy
  dsimp only
  rw [if_neg hcur]
  exact (findTask_absent h ha fuel).map _

theorem yieldLoop_round (h : Chain s.next s.head (m ++ prev :: n)) (hhead : s.head = some head)
    (fuel : Nat) : Returns (yieldLoop s head prev fuel (after s head prev) none) fuel (n ++ m).length
      (search s none (n ++ m)) := by
  rw [hhead] at h
  exact yieldLoop_spec (h.round fun a => rfl) h.not_mem_rest fuel

/-! The invariant. -/

/-- The tasks are linked in the order of `l`, and only the current one is running. -/
structure Sound (s : Tasks) (l : List Nat) : Prop where
  chain : Chain s.next s.head l
  current : ∀ a, s.current = some a →
    a ∈ l ∧ ((s.cell a).state = .running ∨ (s.cell a).state = .dead)
  running : ∀ a ∈ l, (s.cell a).state = .running → s.current = some a

theorem Relinked.state (h : Relinked s s' l) (hb : b ∈ l) :
    (s'.cell b).state = (s.cell b).state := by
  rw [← record_state, h.record b hb, record_state]

section
variable (h : Sound s l)
include h

theorem Sound.overwrite (ht : t ∉ l) (c : Cell) (tid : UInt32) :
    Sound { s.set t c with nextTid := tid } l := by
  have hcell : ∀ b ∈ l, (s.set t c).cell b = s.cell b := fun b hb =>
    cell_set_of_ne s c fun heq => ht (heq ▸ hb)
  refine ⟨h.chain.congr fun b hb => congrArg Cell.next (hcell b hb), fun a ha => ?_,
    fun a ha hrun => ?_⟩
  · obtain ⟨hmem, hstate⟩ := h.current a ha
    rw [hcell a hmem]
    exact ⟨hmem, hstate⟩
  · rw [hcell a ha] at hrun
    exact h.running a ha hrun

theorem Sound.append (hr : Relinked s s' (l ++ [t])) (hstate : (s.cell t).state = .ready) :
    Sound s' (l ++ [t]) := by
  refine ⟨hr.chain, fun a ha => ?_, fun a ha hrun => ?_⟩
  · rw [hr.current] at ha
    obtain ⟨hmem, hcur⟩ := h.current a ha
    rw [hr.state (mem_append_left _ hmem)]
    exact ⟨mem_append_left _ hmem, hcur⟩
  rw [hr.state ha] at hrun
  rw [hr.current]
  rcases mem_append.mp ha with ha | ha
  · exact h.running a ha hrun
  · rw [mem_singleton.mp ha, hstate] at hrun
    cases hrun

theorem Sound.create (fuel priority : Nat) (stack : Option Nat)
    (hfresh : ∀ t, task = some t → t ∉ l) :
    ∃ s' r l', Returns (taskCreate fuel s priority task stack) fuel l.length (s', r) ∧ Sound s' l' ∧
      s'.current = s.current := by
  cases task with
  | none => exact ⟨s, none, l, .inl rfl, h, rfl⟩
  | some t =>
    have ht := hfresh t rfl
    have hover := h.overwrite ht ⟨s.nextTid, .ready, priority, stack, none⟩ (s.nextTid + 1)
    cases stack with
    | none => exact ⟨_, none, l, .inl rfl, hover, rfl⟩
    | some b =>
      have hcell := cell_set_self s t ⟨s.nextTid, .ready, priority, some b, none⟩
      obtain ⟨s', hret, hr⟩ := taskAppend_spec hover.chain ht (congrArg Cell.next hcell)
      exact ⟨s', some t, l ++ [t], hret.map _, hover.append hr (congrArg Cell.state hcell), hr.current⟩

theorem Sound.destroy (fuel : Nat) (task : Option Nat) :
    ∃ s' l', Returns (taskDestroy fuel s task) fuel l.length s' ∧ Sound s' l' ∧
      s'.current = s.current := by
  cases task with
  | none => exact ⟨s, l, .inl rfl, h, rfl⟩
  | some a =>
    by_cases hcur : s.current = some a
    · refine ⟨s.setState a .dead, l, ?_, ⟨?_, fun b hb => ?_, fun b hb hrun => ?_⟩, rfl⟩
      · exact .inl (if_pos hcur)
      · rw [next_setState]
        exact h.chain
      · obtain rfl := some.inj (hcur.symm.trans hb)
        refine ⟨(h.current a hcur).1, .inr ?_⟩
        rw [Tasks.setState, cell_set_self]
      · by_cases hba : b = a
        · rw [hba, Tasks.setState, cell_set_self] at hrun
          cases hrun
        · rw [Tasks.setState, cell_set_of_ne s _ hba] at hrun
          exact h.running b hb hrun
    · by_cases ha : a ∈ l
      · obtain ⟨m, n, rfl⟩ := append_of_mem ha
        obtain ⟨s', hret, hr⟩ := taskDestroy_linked h.chain hcur
        refine ⟨s', m ++ n, hret.mono (by simp), ⟨hr.chain, fun b hb => ?_, fun b hb hrun => ?_⟩, hr.current⟩
        · rw [hr.current] at hb
          obtain ⟨hmem, hstate⟩ := h.current b hb
          have hba : b ≠ a := fun heq => hcur (heq ▸ hb)
          have hmem := mem_of_ne_of_mem hba (perm_middle.mem_iff.mp hmem)
          rw [hr.state hmem]
          exact ⟨hmem, hstate⟩
        · rw [hr.state hb] at hrun
          rw [hr.current]
          exact h.running b (perm_middle.mem_iff.mpr (mem_cons_of_mem a hb)) hrun
      · exact ⟨s, l, taskDestroy_unlinked h.chain ha hcur, h, rfl⟩

theorem Sound.run (fuel : Nat) (hcur : s.current = none) :
    schedulerRun fuel s = .diverged ∧ fuel ≤ l.length ∨ schedulerRun fuel s = .panic ∨
      ∃ s', schedulerRun fuel s = .done s' ∧ Sound s' l ∧ s'.current.isSome = true := by
  unfold schedulerRun schedulerPickFirstReady
  rcases pickFrom_spec h.chain fuel with heq | ⟨heq, hle⟩
  case inr => exact .inl ⟨by rw [heq], hle⟩
  rw [heq]
  right
  cases hpick : l.foldl (better s) none with
  | none => exact .inl rfl
  | some a =>
    rcases foldl_better hpick with ⟨hmem, -⟩ | hnone
    · refine .inr ⟨_, rfl, ⟨?_, fun b hb => ?_, fun b hb hrun => ?_⟩, rfl⟩
      · rw [next_setState]
        exact h.chain
      · cases hb
        refine ⟨hmem, .inl ?_⟩
        rw [Tasks.setState, cell_set_self]
      · by_cases hba : b = a
        · rw [hba]
          rfl
        rw [Tasks.setState, cell_set_of_ne _ _ hba] at hrun
        have := h.running b hb hrun
        rw [hcur] at this
        cases this
    · cases hnone

end

theorem switch_state (b : Nat) : ((switch s prev next).cell b).state =
      if b = next then .running
      else if b = prev ∧ (s.cell b).state = .running then .ready
      else (s.cell b).state := by
  unfold switch
  dsimp only
  by_cases hbn : b = next
  · rw [hbn, Tasks.setState, cell_set_self, if_pos rfl]
  rw [Tasks.setState, cell_set_of_ne _ _ hbn, if_neg hbn]
  by_cases hbp : b = prev
  · subst hbp
    by_cases hrun : (s.cell b).state = .running
    · rw [if_pos hrun, Tasks.setState, cell_set_self, if_pos ⟨rfl, hrun⟩]
    · rw [if_neg hrun, if_neg fun h : b = b ∧ (s.cell b).state = .running => hrun h.2]
  · rw [if_neg fun h : b = prev ∧ (s.cell b).state = .running => hbp h.1]
    split
    · rw [Tasks.setState, cell_set_of_ne _ _ hbp]
    · rfl

theorem switch_chain (h : Chain s.next s.head l) :
    Chain (switch s prev next).next (switch s prev next).head l := by
  have hnext : (switch s prev next).next = s.next := by
    unfold switch
    rw [show ∀ t : Tasks, (Tasks.next { t with current := some next }) = t.next from fun _ => rfl,
      next_setState]
    split
    · exact next_setState _ _ _
    · rfl
  have hhead : (switch s prev next).head = s.head := by
    unfold switch
    split <;> rfl
  rw [hnext, hhead]
  exact h

section
variable (h : Sound s l)
include h

theorem Sound.switch (hprev : s.current = some prev) (hnext : next ∈ l) :
    Sound (TaskList.switch s prev next) l := by
  refine ⟨switch_chain h.chain, fun b hb => ?_, fun b hb hrun => ?_⟩
  · obtain rfl : next = b := some.inj hb
    refine ⟨hnext, .inl ?_⟩
    rw [switch_state, if_pos rfl]
  by_cases hbn : b = next
  · rw [hbn]
    rfl
  rw [switch_state, if_neg hbn] at hrun
  split at hrun
  · cases hrun
  next hnot =>
    have hbp := some.inj (hprev.symm.trans (h.running b hb hrun))
    exact absurd ⟨hbp.symm, hrun⟩ hnot

theorem Sound.yield (fuel : Nat) :
    schedulerYield fuel s = .diverged ∧ fuel ≤ l.length ∨ schedulerYield fuel s = .panic ∨
      ∃ s', schedulerYield fuel s = .done s' ∧ Sound s' l ∧ (s.current.isSome → s'.current.isSome) := by
  unfold schedulerYield
  cases hprev : s.current with
  | none => exact .inr (.inr ⟨s, rfl, h, by simp [hprev]⟩)
  | some prev =>
    cases hhead : s.head with
    | none => exact .inr (.inr ⟨s, rfl, h, by simp [hprev]⟩)
    | some head =>
      obtain ⟨m, n, rfl⟩ := append_of_mem (h.current prev hprev).1
      dsimp only
      rcases yieldLoop_round h.chain hhead fuel with heq | ⟨heq, hle⟩
      case inr =>
        refine .inl ⟨by rw [heq], ?_⟩
        simp only [length_append, length_cons] at hle ⊢
        omega
      rw [heq]
      right
      cases hsearch : search s none (n ++ m) with
      | none =>
        dsimp only
        split
        · exact .inl rfl
        · exact .inr ⟨s, rfl, h, by simp [hprev]⟩
      | some next =>
        rcases search_spec hsearch with ⟨hmem, -⟩ | hnone
        · have hin : next ∈ m ++ prev :: n := perm_middle.mem_iff.mpr
            (mem_cons_of_mem prev (perm_append_comm.mem_iff.mp hmem))
          exact .inr ⟨_, rfl, h.switch hprev hin, fun _ => rfl⟩
        · cases hnone

/-! Runs. -/

def Fresh (s : Tasks) (task : Option Nat) : Prop :=
  ∀ t, task = some t → ∀ l, Chain s.next s.head l → t ∉ l

def FreshRecords (s : Tasks) (e : Event) : Prop :=
  match e.op with
  | .create _ task _ => Fresh s task
  | _ => True

/-- New records are fresh, and `scheduler_run` is called before there is a current task. -/
def StartedOnce (s : Tasks) (e : Event) : Prop :=
  match e.op with
  | .create _ task _ => Fresh s task
  | .run => s.current = none
  | _ => True

theorem Sound.exec (op : Op) (hok : StartedOnce s ⟨op, fuel⟩) :
    TaskList.exec fuel s op = .diverged ∧ fuel ≤ l.length ∨ TaskList.exec fuel s op = .panic ∨
      ∃ s' l', TaskList.exec fuel s op = .done s' ∧ Sound s' l' ∧
        (op = .run ∨ s.current.isSome = true → s'.current.isSome = true) := by
  cases op with
  | create priority task stack =>
    obtain ⟨s', r, l', hret, hs, hcur⟩ :=
      h.create fuel priority stack fun t ht => hok t ht l h.chain
    simp only [TaskList.exec]
    rcases hret with heq | ⟨heq, hle⟩
    · exact .inr (.inr ⟨s', l', by rw [heq]; rfl, hs, by simp [hcur]⟩)
    · exact .inl ⟨by rw [heq]; rfl, hle⟩
  | destroy task =>
    obtain ⟨s', l', hret, hs, hcur⟩ := h.destroy fuel task
    simp only [TaskList.exec]
    rcases hret with heq | ⟨heq, hle⟩
    · exact .inr (.inr ⟨s', l', by rw [heq]; rfl, hs, by simp [hcur]⟩)
    · exact .inl ⟨by rw [heq]; rfl, hle⟩
  | run =>
    rcases h.run fuel hok with heq | heq | ⟨s', heq, hs, hcur⟩
    · exact .inl heq
    · exact .inr (.inl heq)
    · exact .inr (.inr ⟨s', l, heq, hs, fun _ => hcur⟩)
  | yield =>
    rcases h.yield fuel with heq | heq | ⟨s', heq, hs, hcur⟩
    · exact .inl heq
    · exact .inr (.inl heq)
    · exact .inr (.inr ⟨s', l, heq, hs, by simpa using hcur⟩)
  | setIdle task => exact .inr (.inr ⟨_, l, rfl, ⟨h.chain, h.current, h.running⟩, by simp⟩)

theorem Sound.step {e : Event} (hok : StartedOnce s e) (hstep : step s e = some s') :
    ∃ l', Sound s' l' ∧ (e.op = .run ∨ s.current.isSome = true → s'.current.isSome = true) := by
  unfold TaskList.step at hstep
  rcases h.exec e.op hok with ⟨heq, -⟩ | heq | ⟨t, l', heq, ht, hcur⟩ <;> rw [heq] at hstep
  · cases hstep
  · cases hstep
  · cases hstep
    exact ⟨l', ht, hcur⟩

end

theorem run_sound {es : List Event} (hrun : Run step StartedOnce s es s') (h : ∃ l, Sound s l) :
    (∃ l, Sound s' l) ∧
      ((∃ e ∈ es, e.op = .run) ∨ s.current.isSome = true → s'.current.isSome = true) := by
  induction hrun with
  | nil s => exact ⟨h, by simp⟩
  | @cons s t u e es hok hstep _ ih =>
    obtain ⟨l, hl⟩ := h
    obtain ⟨l', hl', hcur⟩ := hl.step hok hstep
    obtain ⟨hsound, hstarted⟩ := ih ⟨l', hl'⟩
    refine ⟨hsound, fun hany => hstarted ?_⟩
    rcases hany with ⟨d, hd, hop⟩ | hcurrent
    · rcases mem_cons.mp hd with rfl | hd
      · exact .inr (hcur (.inl hop))
      · exact .inl ⟨d, hd, hop⟩
    · exact .inr (hcur (.inr hcurrent))

structure OneRunning (s : Tasks) (l : List Nat) (a : Nat) : Prop where
  linked : a ∈ l
  current : s.current = some a
  alive : (s.cell a).state ≠ .dead → (s.cell a).state = .running ∧
    ∀ b ∈ l, (s.cell b).state = .running → b = a
  dead : (s.cell a).state = .dead → ∀ b ∈ l, (s.cell b).state ≠ .running

theorem Sound.oneRunning (h : Sound s l) (ha : s.current = some a) : OneRunning s l a := by
  obtain ⟨hmem, hstate⟩ := h.current a ha
  have honly : ∀ b ∈ l, (s.cell b).state = .running → b = a := fun b hb hrun =>
    some.inj ((h.running b hb hrun).symm.trans ha)
  refine ⟨hmem, ha, fun hne => ⟨hstate.resolve_right hne, honly⟩, fun hdead b hb hrun => ?_⟩
  rw [← honly b hb hrun, hrun] at hdead
  cases hdead

/-- In every state reached with `scheduler_run` called before there is a current task, the
links of the list end and no task is linked twice; once it was called, the current task is
linked and alone running unless it is dead; and every loop over the list ends. -/
theorem task_list_intact (cell : Nat → Cell) (s : Tasks) (es : List Event)
    (hrun : Run step StartedOnce (.init cell) es s) :
    ∃ l, Chain s.next s.head l ∧ l.Nodup ∧ ((∃ e ∈ es, e.op = .run) → ∃ a, OneRunning s l a) ∧
      ∀ op fuel, l.length < fuel → StartedOnce s ⟨op, fuel⟩ →
        (∃ s', exec fuel s op = .done s') ∨ exec fuel s op = .panic := by
  have hinit : Sound (.init cell) [] :=
    ⟨.nil, fun a ha => (some_ne_none a ha.symm).elim, fun a ha => (not_mem_nil ha).elim⟩
  obtain ⟨⟨l, hl⟩, hstarted⟩ := run_sound hrun ⟨[], hinit⟩
  refine ⟨l, hl.chain, hl.chain.nodup, fun hran => ?_, fun op fuel hfuel hok => ?_⟩
  · obtain ⟨a, ha⟩ := isSome_iff_exists.mp (hstarted (.inl hran))
    exact ⟨a, hl.oneRunning ha⟩
  rcases hl.exec op hok with ⟨-, hle⟩ | heq | ⟨s', -, heq, -⟩
  · exact absurd hle (Nat.not_le_of_lt hfuel)
  · exact .inr heq
  · exact .inl ⟨s', heq⟩

/-! Two tasks, the second of higher priority. -/

def twoTasks : List Event := [⟨.create 1 (some 16) (some 32), 8⟩, ⟨.create 2 (some 48) (some 64), 8⟩]

def bothLinked : Tasks where
  cell := update (update (update (fun _ => ⟨0, .dead, 0, none, none⟩)
    16 ⟨1, .ready, 1, some 32, none⟩) 48 ⟨2, .ready, 2, some 64, none⟩)
    16 ⟨1, .ready, 1, some 32, some 48⟩
  head := some 16
  current := none
  idle := none
  nextTid := 3

theorem twoTasks_run :
    Run step StartedOnce (.init fun _ => ⟨0, .dead, 0, none, none⟩) twoTasks bothLinked := by
  have hfirst : Fresh (.init fun _ => ⟨0, .dead, 0, none, none⟩) (some 16) := by
    intro t _ l hl
    rw [hl.unique .nil]
    exact not_mem_nil
  refine .cons hfirst rfl (.cons ?_ rfl (.nil _))
  intro t ht l hl
  rw [hl.unique (.cons .nil), ← some.inj ht]
  decide

theorem bothLinked_chain {s : Tasks} (hhead : s.head = some 16) (h16 : s.next 16 = some 48)
    (h48 : s.next 48 = none) : Chain s.next s.head [16, 48] := by
  rw [hhead]
  refine .cons ?_
  rw [h16]
  refine .cons ?_
  rw [h48]
  exact .nil

/-- Called a second time, `scheduler_run` leaves two tasks running. -/
theorem second_run_two_running :
    ∃ cell s es l, Run step FreshRecords (.init cell) es s ∧ Chain s.next s.head l ∧
      ∃ a ∈ l, ∃ b ∈ l, a ≠ b ∧ (s.cell a).state = .running ∧ (s.cell b).state = .running := by
  have hfresh : ∀ s e, StartedOnce s e → FreshRecords s e := by
    rintro s ⟨op, fuel⟩ hok
    cases op with
    | create priority task stack => exact hok
    | destroy | run | yield | setIdle => trivial
  have hruns := Run.append (twoTasks_run.mono hfresh)
    (.cons (e := Event.mk .run 8) trivial rfl (.cons (e := Event.mk .run 8) trivial rfl (.nil _)))
  exact ⟨_, _, _, [16, 48], hruns, bothLinked_chain rfl rfl rfl, 16, by decide, 48, by decide,
    by decide, rfl, rfl⟩

/-- Both tasks get the processor in turn. -/
theorem two_tasks_intact :
    ∃ cell s es, Run step StartedOnce (.init cell) es s ∧ (∃ e ∈ es, e.op = .run) ∧
      s.current = some 16 ∧ ∃ l, Chain s.next s.head l ∧ l.Nodup ∧
      ((∃ e ∈ es, e.op = .run) → ∃ a, OneRunning s l a) ∧
      ∀ op fuel, l.length < fuel → StartedOnce s ⟨op, fuel⟩ →
        (∃ s', exec fuel s op = .done s') ∨ exec fuel s op = .panic := by
  have hruns := Run.append twoTasks_run
    (.cons (e := Event.mk .run 8) rfl rfl (.cons (e := Event.mk .yield 8) trivial rfl (.nil _)))
  exact ⟨_, _, _, hruns, ⟨⟨.run, 8⟩, by simp [twoTasks], rfl⟩, rfl, task_list_intact _ _ _ hruns⟩

end AegisOS.TaskList
