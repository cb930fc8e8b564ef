import AegisOS.Errno
import AegisOS.Lib.GuardedRun
import AegisOS.Lib.Scan

/-! Kernel threads (`kernel/core/thread.c`). A thread is known by the task it runs on, a task by the
address of its record. The entry of a thread in the table becomes free when the thread exits, and
`kthread_join` reads the exit value from there. -/
namespace AegisOS.KernelThreads
open GuardedRun Scan Function List Option

def maxThreads : Nat := 512

structure Kthread where
  tid : UInt32
  task : Option Nat
  ownerPid : UInt32
  active : Bool
  detached : Bool
  retval : Nat

/-- `thread_table` and `next_thread_id`. -/
structure Threads where
  threadTable : Fin maxThreads → Kthread
  nextThreadId : UInt32

/-- The table at boot, after `kthread_init`. -/
def Threads.init : Threads := ⟨fun _ => ⟨0, none, 0, false, false, 0⟩, 1⟩

def Threads.set (s : Threads) (i : Fin maxThreads) (k : Kthread) : Threads :=
  { s with threadTable := update s.threadTable i k }

def freeEntry (s : Threads) : Option (Fin maxThreads) := scan fun i => !(s.threadTable i).active

/-- `task` is the answer of `task_create`. -/
def kthreadCreate (s : Threads) (task : Option Nat) (ownerPid : UInt32) : Threads × Int :=
  match freeEntry s with
  | none => (s, aegisEnomem)
  | some i =>
    match task with
    | none => (s, aegisEnomem)
    | some t =>
      ({ s.set i ⟨s.nextThreadId, some t, ownerPid, true, false, 0⟩ with
          nextThreadId := s.nextThreadId + 1 }, s.nextThreadId.toInt32.toInt)

def runningEntry (s : Threads) (current : Nat) : Option (Fin maxThreads) :=
  scan fun i => (s.threadTable i).active && (s.threadTable i).task == some current

def kthreadExit (s : Threads) (current retval : Nat) : Threads :=
  match runningEntry s current with
  | none => s
  | some i => s.set i { s.threadTable i with retval := retval, active := false }

/-- The entry `kthread_join` finds. -/
def entryOf (s : Threads) (tid : UInt32) : Option (Fin maxThreads) :=
  scan fun i => (s.threadTable i).tid == tid

/-- The end of `kthread_join`, once the entry is no longer active: the exit value. -/
def joinEntry (s : Threads) (i : Fin maxThreads) : Option (Threads × Nat) :=
  if (s.threadTable i).active then none
  else some (s.set i { s.threadTable i with active := false }, (s.threadTable i).retval)

def kthreadDetach (s : Threads) (tid : UInt32) : Threads × Int :=
  match scan fun i => (s.threadTable i).tid == tid && (s.threadTable i).active with
  | none => (s, aegisEnoent)
  | some i => (s.set i { s.threadTable i with detached := true }, aegisOk)

/-! The calls of all threads, in any order. -/

/-- A call of `kthread_join` that waits for an entry. `threads` are the tasks of the threads that
had the number `tid` when it was made. -/
structure Wait where
  caller : Nat
  tid : UInt32
  entry : Fin maxThreads
  threads : List Nat
  out : Bool

/-- A call of `kthread_join` that has returned, with what it stored at `retval`. -/
structure Outcome where
  tid : UInt32
  threads : List Nat
  out : Bool
  code : Int
  stored : Option Nat

structure System where
  threads : Threads
  waiting : List Wait
  /-- The threads made so far, by number and task. -/
  created : List (UInt32 × Nat)
  /-- What a thread has passed to `kthread_exit`. -/
  exited : Nat → Option Nat
  outcomes : List Outcome

def System.init : System := ⟨.init, [], [], fun _ => none, []⟩

inductive Event
  | create (task : Option Nat) (ownerPid : UInt32)
  | exit (current retval : Nat)
  /-- `kthread_join` is called, up to its first look at the entry. -/
  | join (caller : Nat) (tid : UInt32) (out : Bool)
  /-- The `scheduler_yield` in the loop of `kthread_join` returns. -/
  | resume (caller : Nat)
  | detach (tid : UInt32)

def System.named (s : System) (tid : UInt32) : List Nat :=
  (s.created.filter fun p => p.1 = tid).map Prod.snd

def recordCreated (s : System) (task : Option Nat) : List (UInt32 × Nat) :=
  match freeEntry s.threads, task with
  | some _, some t => (s.threads.nextThreadId, t) :: s.created
  | _, _ => s.created

def recordExit (s : System) (current retval : Nat) : Nat → Option Nat :=
  match runningEntry s.threads current with
  | none => s.exited
  | some _ => update s.exited current (some retval)

/-- What `kthread_join` does with the entry it found. -/
def joinAt (s : System) (w : Wait) : System :=
  match joinEntry s.threads w.entry with
  | none => { s with waiting := w :: s.waiting }
  | some (threads, v) =>
    { s with
      threads := threads
      outcomes := ⟨w.tid, w.threads, w.out, aegisOk, if w.out then some v else none⟩ :: s.outcomes }

/-- A new task record does not lie where a record is that was not freed, and `task_destroy` does
not free the record of the task that calls it. A caller inside `kthread_join` makes no call. -/
def step (s : System) : Event → Option System
  | .create task ownerPid =>
    if task.any fun t => t ∈ s.created.map Prod.snd then none
    else some { s with
      threads := (kthreadCreate s.threads task ownerPid).1
      created := recordCreated s task }
  | .exit current retval =>
    some { s with
      threads := kthreadExit s.threads current retval
      exited := recordExit s current retval }
  | .join caller tid out =>
    if s.waiting.any fun w => w.caller = caller then none
    else
      match entryOf s.threads tid with
      | none => some { s with outcomes := ⟨tid, s.named tid, out, aegisEnoent, none⟩ :: s.outcomes }
      | some i => some (joinAt s ⟨caller, tid, i, s.named tid, out⟩)
  | .resume caller =>
    (s.waiting.find? fun w => w.caller = caller).map fun w =>
      joinAt { s with waiting := s.waiting.filter fun w => w.caller ≠ caller } w
  | .detach tid => some { s with threads := (kthreadDetach s.threads tid).1 }

/-- Every call of `kthread_join` for a thread that has passed a value to `kthread_exit` returned
success with that value, or is still waiting and returns so as soon as its caller runs again. -/
structure Delivers (s : System) : Prop where
  returned : ∀ o ∈ s.outcomes, ∀ t ∈ o.threads, ∀ v, s.exited t = some v →
    o.code = aegisOk ∧ o.stored = if o.out then some v else none
  waits : ∀ w, (s.waiting.find? fun u => u.caller = w.caller) = some w → ∀ t ∈ w.threads, ∀ v,
    s.exited t = some v → ∃ s', step s (.resume w.caller) = some s' ∧
      s'.outcomes = ⟨w.tid, w.threads, w.out, aegisOk, if w.out then some v else none⟩ :: s.outcomes

/-- A thread is joined while its entry is still in the table, and no thread is put into an entry
that a call of `kthread_join` waits for. -/
def Kept (s : System) : Event → Prop
  | .create (some _) _ => ∀ w ∈ s.waiting, freeEntry s.threads ≠ some w.entry
  | .join _ tid _ =>
    ∀ t ∈ s.named tid, (entryOf s.threads tid).bind (fun i => (s.threads.threadTable i).task) = some t
  | _ => True

instance (s : System) : (e : Event) → Decidable (Kept s e)
  | .create (some _) _ => inferInstanceAs (Decidable (∀ w ∈ s.waiting, _ ≠ _))
  | .join _ tid _ => inferInstanceAs (Decidable (∀ t ∈ s.named tid, _ = _))
  | .create none _ | .exit _ _ | .resume _ | .detach _ => inferInstanceAs (Decidable True)

/-! What the table says of the threads. -/

structure Tracked (s : System) : Prop where
  listed : ∀ i t, (s.threads.threadTable i).task = some t → t ∈ s.created.map Prod.snd
  once : ∀ i j t, (s.threads.threadTable i).task = some t → (s.threads.threadTable j).task = some t →
    i = j
  live : ∀ i t, (s.threads.threadTable i).task = some t → (s.threads.threadTable i).active = true →
    s.exited t = none
  left : ∀ i t, (s.threads.threadTable i).task = some t → (s.threads.threadTable i).active = false →
    s.exited t = some (s.threads.threadTable i).retval
  known : ∀ t v, s.exited t = some v → t ∈ s.created.map Prod.snd
  waits : ∀ w ∈ s.waiting, ∀ t ∈ w.threads, (s.threads.threadTable w.entry).task = some t
  returned : ∀ o ∈ s.outcomes, ∀ t ∈ o.threads, ∃ v, s.exited t = some v ∧ o.code = aegisOk ∧
    o.stored = if o.out then some v else none

theorem tracked_init : Tracked .init where
  listed _ _ h := by cases h
  once _ _ _ h := by cases h
  live _ _ h := by cases h
  left _ _ h := by cases h
  known _ _ h := by cases h
  waits _ h := by cases h
  returned _ h := by cases h

variable {i : Fin maxThreads} {ts : Threads} {current v t caller : Nat} {k : Kthread} {tid : UInt32}
  {w : Wait}

section
variable {s s' : System}

theorem Threads.set_self (ts : Threads) (i : Fin maxThreads) (k : Kthread) :
    (ts.set i k).threadTable i = k := by
  simp [Threads.set]

theorem Threads.set_other (ts : Threads) {j : Fin maxThreads} (k : Kthread) (hj : j ≠ i) :
    (ts.set i k).threadTable j = ts.threadTable j := by
  simp [Threads.set, hj]

theorem runningEntry_spec (h : runningEntry ts current = some i) :
    (ts.threadTable i).active = true ∧ (ts.threadTable i).task = some current := by
  simpa using scan_holds h

/-- Leaving `kthread_join` changes nothing in the table: the entry was already free. -/
theorem joinEntry_spec {ts' : Threads} (h : joinEntry ts i = some (ts', v)) :
    ts' = ts ∧ (ts.threadTable i).active = false ∧ v = (ts.threadTable i).retval := by
  unfold joinEntry at h
  split at h
  · cases h
  rename_i hactive
  rw [Bool.not_eq_true] at hactive
  cases h
  refine ⟨?_, hactive, rfl⟩
  have hsame : { ts.threadTable i with active := false } = ts.threadTable i := by rw [← hactive]
  rw [Threads.set, hsame, update_eq_self]

theorem Tracked.enter (h : Tracked s)
    {next : UInt32} (hfresh : t ∉ s.created.map Prod.snd) (htask : k.task = some t)
    (hactive : k.active = true) (hwaits : ∀ w ∈ s.waiting, i ≠ w.entry) :
    Tracked { s with
      threads := { s.threads.set i k with nextThreadId := next }
      created := (tid, t) :: s.created } := by
  -- an entry of the new table is the new one, or an old one of another task
  have hentry : ∀ j u, ((s.threads.set i k).threadTable j).task = some u →
      (j = i ∧ u = t) ∨ (j ≠ i ∧ u ≠ t ∧ (s.threads.threadTable j).task = some u) := by
    intro j u hu
    by_cases hj : j = i
    · subst hj
      rw [Threads.set_self, htask] at hu
      exact .inl ⟨rfl, (some.inj hu).symm⟩
    · rw [Threads.set_other _ _ hj] at hu
      exact .inr ⟨hj, fun heq => hfresh (heq ▸ h.listed j u hu), hu⟩
  refine ⟨fun j u hu => ?_, fun j l u hj hl => ?_, fun j u hu hact => ?_, fun j u hu hact => ?_,
    fun u v hu => mem_cons_of_mem _ (h.known u v hu), fun w hw u hu => ?_, h.returned⟩
  · rcases hentry j u hu with ⟨-, rfl⟩ | ⟨-, -, hu⟩
    · exact mem_cons_self
    · exact mem_cons_of_mem _ (h.listed j u hu)
  · rcases hentry j u hj with ⟨rfl, rfl⟩ | ⟨-, hne, hj⟩
    · rcases hentry l u hl with ⟨rfl, -⟩ | ⟨-, hne, -⟩
      · rfl
      · exact absurd rfl hne
    · rcases hentry l u hl with ⟨-, heq⟩ | ⟨-, -, hl⟩
      · exact absurd heq hne
      · exact h.once j l u hj hl
  · rcases hentry j u hu with ⟨rfl, rfl⟩ | ⟨hj, -, hu⟩
    · exact eq_none_iff_forall_ne_some.mpr fun v hv => hfresh (h.known u v hv)
    · simp only [Threads.set_other _ _ hj] at hact
      exact h.live j u hu hact
  · rcases hentry j u hu with ⟨rfl, rfl⟩ | ⟨hj, -, hu⟩
    · simp only [Threads.set_self, hactive] at hact
      cases hact
    · simp only [Threads.set_other _ _ hj] at hact ⊢
      exact h.left j u hu hact
  · simp only [Threads.set_other _ _ (hwaits w hw).symm]
    exact h.waits w hw u hu

theorem Tracked.create (h : Tracked s) {task : Option Nat} {ownerPid : UInt32}
    (hok : Kept s (.create task ownerPid)) (hs : step s (.create task ownerPid) = some s') :
    Tracked s' := by
  simp only [step] at hs
  split at hs
  · cases hs
  rename_i hfresh
  cases hs
  cases hfree : freeEntry s.threads with
  | none => simpa only [kthreadCreate, recordCreated, hfree] using h
  | some i =>
    cases task with
    | none => simpa only [kthreadCreate, recordCreated, hfree] using h
    | some t =>
      have hnew : t ∉ s.created.map Prod.snd := fun hmem => hfresh (decide_eq_true hmem)
      simp only [kthreadCreate, recordCreated, hfree]
      refine h.enter hnew rfl rfl fun w hw heq => hok w hw ?_
      rw [hfree, heq]

/-- The tasks stay in their entries, and what was passed to `kthread_exit` stays known. -/
theorem Tracked.marked (h : Tracked s) {exited : Nat → Option Nat}
    (htask : ∀ j, (ts.threadTable j).task = (s.threads.threadTable j).task)
    (hlive : ∀ j t, (s.threads.threadTable j).task = some t → (ts.threadTable j).active = true →
      exited t = none)
    (hleft : ∀ j t, (s.threads.threadTable j).task = some t → (ts.threadTable j).active = false →
      exited t = some (ts.threadTable j).retval)
    (hknown : ∀ t v, exited t = some v → t ∈ s.created.map Prod.snd)
    (hkeep : ∀ t v, s.exited t = some v → exited t = some v) :
    Tracked { s with threads := ts, exited := exited } where
  listed j t ht := h.listed j t ((htask j).symm.trans ht)
  once j l t hj hl := h.once j l t ((htask j).symm.trans hj) ((htask l).symm.trans hl)
  live j t ht := hlive j t ((htask j).symm.trans ht)
  left j t ht := hleft j t ((htask j).symm.trans ht)
  known := hknown
  waits w hw t ht := (htask _).trans (h.waits w hw t ht)
  returned o ho t ht := by
    obtain ⟨v, hv, hcode, hstored⟩ := h.returned o ho t ht
    exact ⟨v, hkeep t v hv, hcode, hstored⟩

theorem set_congr {α : Type} (f : Kthread → α) (ts : Threads) (hk : f k = f (ts.threadTable i))
    (j : Fin maxThreads) : f ((ts.set i k).threadTable j) = f (ts.threadTable j) := by
  by_cases hj : j = i
  · rw [hj, Threads.set_self, hk]
  · rw [Threads.set_other _ _ hj]

variable (h : Tracked s)
include h

theorem Tracked.exit {retval : Nat} (hs : step s (.exit current retval) = some s') :
    Tracked s' := by
  cases hs
  cases hrun : runningEntry s.threads current with
  | none => simpa only [kthreadExit, recordExit, hrun] using h
  | some i =>
    obtain ⟨hactive, htask⟩ := runningEntry_spec hrun
    have hnone : s.exited current = none := h.live i current htask hactive
    -- the other entries are those of other tasks
    have hother : ∀ j t, j ≠ i → (s.threads.threadTable j).task = some t → t ≠ current := by
      rintro j t hj ht rfl
      exact hj (h.once j i t ht htask)
    simp only [kthreadExit, recordExit, hrun]
    refine h.marked (set_congr Kthread.task _ rfl) (fun j t ht hact => ?_) (fun j t ht hact => ?_)
      (fun t v hv => ?_) (fun t v hv => ?_)
    · by_cases hj : j = i
      · rw [hj, Threads.set_self] at hact
        cases hact
      · rw [Threads.set_other _ _ hj] at hact
        rw [update_of_ne (hother j t hj ht)]
        exact h.live j t ht hact
    · by_cases hj : j = i
      · subst hj
        obtain rfl := some.inj (htask.symm.trans ht)
        rw [update_self, Threads.set_self]
      · rw [Threads.set_other _ _ hj] at hact ⊢
        rw [update_of_ne (hother j t hj ht)]
        exact h.left j t ht hact
    · by_cases ht : t = current
      · exact ht ▸ h.listed i current htask
      · rw [update_of_ne ht] at hv
        exact h.known t v hv
    · have ht : t ≠ current := by
        rintro rfl
        rw [hnone] at hv
        cases hv
      rw [update_of_ne ht]
      exact hv

theorem Tracked.detach (tid : UInt32) :
    Tracked { s with threads := (kthreadDetach s.threads tid).1 } := by
  unfold kthreadDetach
  split
  · exact h
  rename_i i _
  have hsame {α : Type} (f : Kthread → α) := set_congr f s.threads (i := i)
    (k := { s.threads.threadTable i with detached := true })
  refine h.marked (hsame Kthread.task rfl) (fun j t ht hact => ?_) (fun j t ht hact => ?_)
    h.known fun _ _ hv => hv
  · exact h.live j t ht ((hsame Kthread.active rfl j).symm.trans hact)
  · refine (h.left j t ht ((hsame Kthread.active rfl j).symm.trans hact)).trans ?_
    exact congrArg some (hsame Kthread.retval rfl j).symm

/-- Looking at the entry of the thread, a call of `kthread_join` waits or returns its value. -/
theorem Tracked.joinAt (hw : ∀ t ∈ w.threads, (s.threads.threadTable w.entry).task = some t) :
    Tracked (joinAt s w) := by
  unfold KernelThreads.joinAt
  split
  · refine { h with waits := fun u hu t ht => ?_ }
    rcases mem_cons.mp hu with rfl | hu
    · exact hw t ht
    · exact h.waits u hu t ht
  next ts v hjoin =>
    obtain ⟨rfl, hactive, rfl⟩ := joinEntry_spec hjoin
    refine { h with returned := fun o ho t ht => ?_ }
    rcases mem_cons.mp ho with rfl | ho
    · exact ⟨_, h.left w.entry t (hw t ht) hactive, rfl, rfl⟩
    · exact h.returned o ho t ht

theorem Tracked.join {out : Bool} (hok : Kept s (.join caller tid out))
    (hs : step s (.join caller tid out) = some s') : Tracked s' := by
  simp only [step] at hs
  split at hs
  · cases hs
  simp only [Kept] at hok
  cases hentry : entryOf s.threads tid with
  | none =>
    rw [hentry] at hs hok
    cases hs
    refine { h with returned := fun o ho t ht => ?_ }
    rcases mem_cons.mp ho with rfl | ho
    · cases hok t ht
    · exact h.returned o ho t ht
  | some i =>
    rw [hentry] at hs hok
    cases hs
    exact h.joinAt hok

theorem Tracked.resume (hs : step s (.resume caller) = some s') : Tracked s' := by
  obtain ⟨w, hfind, rfl⟩ := map_eq_some_iff.mp hs
  have hrest : Tracked { s with waiting := s.waiting.filter fun w => w.caller ≠ caller } :=
    { h with waits := fun u hu => h.waits u (mem_filter.mp hu).1 }
  exact hrest.joinAt (h.waits w (mem_of_find?_eq_some hfind))

theorem tracked_step {e : Event} (hok : Kept s e) (hs : step s e = some s') : Tracked s' := by
  cases e with
  | create task ownerPid => exact h.create hok hs
  | exit current retval => exact h.exit hs
  | join caller tid out => exact h.join hok hs
  | resume caller => exact h.resume hs
  | detach tid =>
    cases hs
    exact h.detach tid

theorem Tracked.resumes (hw : (s.waiting.find? fun u => u.caller = w.caller) = some w)
    (ht : t ∈ w.threads) (hv : s.exited t = some v) :
    ∃ s', step s (.resume w.caller) = some s' ∧
      s'.outcomes = ⟨w.tid, w.threads, w.out, aegisOk, if w.out then some v else none⟩ ::
        s.outcomes := by
  have htask := h.waits w (mem_of_find?_eq_some hw) t ht
  have hactive : (s.threads.threadTable w.entry).active = false := by
    rw [← Bool.not_eq_true]
    intro hactive
    rw [h.live w.entry t htask hactive] at hv
    cases hv
  have hval := some.inj ((h.left w.entry t htask hactive).symm.trans hv)
  refine ⟨_, by rw [step, hw]; rfl, ?_⟩
  simp [KernelThreads.joinAt, joinEntry, hactive, hval]

theorem Tracked.delivers : Delivers s where
  returned o ho t ht v hv := by
    obtain ⟨v', hv', hcode, hstored⟩ := h.returned o ho t ht
    obtain rfl := some.inj (hv'.symm.trans hv)
    exact ⟨hcode, hstored⟩
  waits _ hw _ ht _ hv := h.resumes hw ht hv

end

/-- As long as threads are joined while their entry is in the table, and entries that are waited
for are left alone, `kthread_join` delivers what was passed to `kthread_exit`. -/
theorem kthread_join_delivers (s : System) (es : List Event)
    (hrun : Run step Kept .init es s) : Delivers s :=
  (hrun.invariant (fun _ _ _ h hok hs => tracked_step h hok hs) tracked_init).delivers

/-- A thread is waited for, exits with 7 and its value is delivered; a second one is joined after
its exit. -/
theorem joins_in_time :
    ∃ s, Run step Kept .init [.create (some 100) 1, .create (some 200) 1, .join 5 1 true,
        .exit 100 7, .resume 5, .exit 200 9, .join 5 2 true] s ∧
      s.outcomes.map Outcome.stored = [some 9, some 7] ∧ Delivers s := by
  exact Run.exists_of_execute_imp (P := fun s => s.outcomes.map Outcome.stored = [some 9, some 7])
    (fun s hrun hstored => ⟨hstored, kthread_join_delivers s _ hrun⟩) (by decide +kernel)

/-- A thread exits with 7, another one is created in its entry, and the first one is not found. -/
theorem exit_value_lost : ∃ s, Run step anyEvent .init
        [.create (some 100) 1, .exit 100 7, .create (some 200) 1, .join 5 1 true] s ∧
      s.outcomes = [⟨1, [100], true, aegisEnoent, none⟩] ∧ ¬Delivers s := by
  obtain ⟨s, hrun, htids, hnamed, hexit, hwaiting, houtcomes⟩ : ∃ s, Run step anyEvent .init
      [.create (some 100) 1, .exit 100 7, .create (some 200) 1] s ∧
      (∀ i, (s.threads.threadTable i).tid ≠ 1) ∧ s.named 1 = [100] ∧ s.exited 100 = some 7 ∧
      s.waiting.isEmpty ∧ s.outcomes.isEmpty := Run.exists_of_execute (by decide +kernel)
  rw [List.isEmpty_iff] at hwaiting houtcomes
  have hentry : entryOf s.threads 1 = none :=
    scan_eq_none.mpr fun i => beq_eq_false_iff_ne.mpr (htids i)
  have hjoin : step s (.join 5 1 true) =
      some { s with outcomes := [⟨1, [100], true, aegisEnoent, none⟩] } := by
    simp [step, hwaiting, hentry, hnamed, houtcomes]
  refine ⟨_, hrun.append (.single trivial hjoin), rfl, fun hdelivers => ?_⟩
  have hcode := hdelivers.returned _ List.mem_cons_self 100 List.mem_cons_self 7 hexit
  exact absurd hcode.1 (by decide)

end AegisOS.KernelThreads
