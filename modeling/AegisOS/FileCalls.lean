import AegisOS.ProcessRuns
import AegisOS.UserMemory

/-! The calls on files (`sys_open`, `sys_close`, `sys_read`, `sys_write`) in runs of the process
layer. -/
namespace AegisOS.Kernel
open FdTable GuardedRun Scheduler CString List Function

/-! Reading and writing files. What the file system and the copy to or from user memory answer is
passed in. -/

/-- The loop of `sys_read` over a file: the offset it leaves and the result. -/
def readFileLoop (vfsRead : UInt64 → UInt64 → Int) (copyToUser : UInt64 → UInt64 → Int)
    (len : UInt64) : Nat → UInt64 → UInt64 → UInt64 × Int
  | 0, done, offset => (offset, done.toNat)
  | fuel + 1, done, offset =>
    if done < len then
      let chunk := chunkOf len done
      let got := vfsRead offset chunk
      if got < 0 then (offset, if done ≠ 0 then done.toNat else got)
      else if got = 0 then (offset, done.toNat)
      else
        let n : UInt64 := .ofNat got.toNat
        if copyToUser done n ≠ aegisOk then (offset, copyToUser done n)
        else if n < chunk then (offset + n, (done + n).toNat)
        else readFileLoop vfsRead copyToUser len fuel (done + n) (offset + n)
    else (offset, done.toNat)

/-- The loop of `sys_write` over a file. -/
def writeFileLoop (vfsWrite : UInt64 → UInt64 → Int) (copyFromUser : UInt64 → UInt64 → Int)
    (len : UInt64) : Nat → UInt64 → UInt64 → UInt64 × Int
  | 0, done, offset => (offset, done.toNat)
  | fuel + 1, done, offset =>
    if done < len then
      let chunk := chunkOf len done
      if copyFromUser done chunk ≠ aegisOk then (offset, copyFromUser done chunk)
      else
        let wrote := vfsWrite offset chunk
        if wrote < 0 then (offset, if done ≠ 0 then done.toNat else wrote)
        else
          let n : UInt64 := .ofNat wrote.toNat
          if n < chunk then (offset + n, (done + n).toNat)
          else writeFileLoop vfsWrite copyFromUser len fuel (done + n) (offset + n)
    else (offset, done.toNat)

def onFile (k : State) (fd : UInt64) (forWrite : Bool) (loop : UInt64 → UInt64 × Int) :
    State × Int :=
  match fdGet k.files (processGetpid k) (intOf fd) forWrite with
  | none => (k, aegisEnoent)
  | some (t, i) =>
    let e := k.files.fds t i
    if e.object.isNone then (k, aegisEnoent)
    else
      ({ k with files := k.files.set t i { e with offset := (loop e.offset).1 } },
        (loop e.offset).2)

/-- The branch of `sys_read` for files; `rangeOk` is the check of the user's buffer. -/
def sysReadFile (k : State) (fd len : UInt64) (rangeOk : Bool) (vfsRead : UInt64 → UInt64 → Int)
    (copyToUser : UInt64 → UInt64 → Int) : State × Int :=
  if len = 0 ∨ rangeOk = false then (k, aegisEinval)
  else onFile k fd false (readFileLoop vfsRead copyToUser len len.toNat 0)

/-- The branch of `sys_write` for files. -/
def sysWriteFile (k : State) (fd len : UInt64) (rangeOk : Bool) (vfsWrite : UInt64 → UInt64 → Int)
    (copyFromUser : UInt64 → UInt64 → Int) : State × Int :=
  if len = 0 ∨ rangeOk = false then (k, aegisEinval)
  else onFile k fd true (writeFileLoop vfsWrite copyFromUser len len.toNat 0)

/-! Runs. -/

inductive FileEvent
  | process (e : Event)
  | openFile (found : Bool)
  | close (fd : UInt64)
  | read (fd len : UInt64) (rangeOk : Bool) (vfsRead copyToUser : UInt64 → UInt64 → Int)
  | write (fd len : UInt64) (rangeOk : Bool) (vfsWrite copyFromUser : UInt64 → UInt64 → Int)
  /-- The loader opens a file, reads it and closes it. -/
  | load

/-- The kernel with the number of calls that open files and the pids of the dead. -/
structure FileKernel where
  kernel : State
  opens : Nat
  dead : List UInt32

/-- The pid that a step of the process layer makes a dead one. -/
def died (k : State) : Event → Option UInt32
  | .kill pid signal =>
    if signal = 9 ∨ signal = 15 then (processGet k pid).map fun i => (k.procs i).pid else none
  | .exit _ _ => k.core.current.bind fun a => (exiting k a).map fun i => (k.procs i).pid
  | _ => none

def fileStep (S : FileKernel) : FileEvent → Option FileKernel
  | .process e =>
    (step S.kernel e).map fun k => { S with kernel := k, dead := (died S.kernel e).toList ++ S.dead }
  | .openFile found => some ⟨(sysOpen S.kernel found).1, S.opens + 1, S.dead⟩
  | .close fd => some { S with kernel := (sysClose S.kernel fd).1 }
  | .read fd len rangeOk vfsRead copyToUser =>
    some { S with kernel := (sysReadFile S.kernel fd len rangeOk vfsRead copyToUser).1 }
  | .write fd len rangeOk vfsWrite copyFromUser =>
    some { S with kernel := (sysWriteFile S.kernel fd len rangeOk vfsWrite copyFromUser).1 }
  | .load =>
    let opened := vfsOpen S.kernel.files
    some ⟨{ S.kernel with files := vfsClose opened.1 opened.2 }, S.opens + 1, S.dead⟩

def CallerAlive (S : FileKernel) : Prop := ∀ pid ∈ S.dead, ¬CalledIn S.kernel pid

/-- The callers are alive, fewer than `2 ^ 32` calls open files, and no task is made at an address
that a process in use still records. -/
def Orderly (S : FileKernel) : FileEvent → Prop
  | .process e => NoStaleTask S.kernel e
  | .openFile _ => CallerAlive S ∧ S.opens + 1 < 2 ^ 32
  | .load => S.opens + 1 < 2 ^ 32
  | _ => CallerAlive S

instance (S : FileKernel) : Decidable (CallerAlive S) :=
  decidableBAll (fun pid => ¬CalledIn S.kernel pid) S.dead

instance (S : FileKernel) : (e : FileEvent) → Decidable (Orderly S e)
  | .process e => inferInstanceAs (Decidable (NoStaleTask S.kernel e))
  | .openFile _ => inferInstanceAs (Decidable (CallerAlive S ∧ _))
  | .load => inferInstanceAs (Decidable (S.opens + 1 < 2 ^ 32))
  | .close _ | .read _ _ _ _ _ | .write _ _ _ _ _ => inferInstanceAs (Decidable (CallerAlive S))

/-- Descriptors and vnodes belong together, and to living processes. -/
structure FilesOwned (S : FileKernel) : Prop where
  sound : Sound S.kernel.files
  dead : ∀ pid ∈ S.dead, ∀ t, tableOf pid = some t → ∀ i, (S.kernel.files.fds t i).used = false
  /-- A step changes the descriptors of the process it is made in, and a signal closes those of the
  process it kills. -/
  others : ∀ e S', fileStep S e = some S' →
    ∀ t, (∀ pid, CalledIn S.kernel pid → tableOf pid ≠ some t) → ∀ i,
      S'.kernel.files.fds t i = S.kernel.files.fds t i ∨
        ∃ pid signal, e = .process (.kill pid signal) ∧ tableOf pid = some t ∧
          S'.kernel.files.fds t i = .zero

/-! What the calls do to the files. -/

variable {f f' files : Files} {pid : UInt32} {t : Fin 256} {e : Event} {k : State}

section
variable {k k' : State}

/-- What `sys_open` does. -/
inductive Opened (f : Files) (pid : UInt32) : Files → Prop
  | refused : Opened f pid f
  | closed : Opened f pid { f with nextIno := f.nextIno + 1 }
  | installed {t v : Fin 256} {i : Fin 32} (htable : tableOf pid = some t) (hclosed : f.inos v = 0)
      (hfree : (f.fds t i).used = false) :
      Opened f pid ({ f with
        inos := update f.inos v f.nextIno
        nextIno := f.nextIno + 1 }.set t i ⟨true, true, true, some v, 0⟩)

section
variable (k : State) (fd : UInt64)

theorem sysOpen_opened (found : Bool) : ∃ files, (sysOpen k found).1 = { k with files := files } ∧
      Opened k.files (processGetpid k) files := by
  unfold sysOpen
  split_ifs
  · exact ⟨k.files, rfl, .refused⟩
  rcases vfsOpen_cases k.files with heq | ⟨v, hv, heq⟩ <;> rw [heq]
  · exact ⟨k.files, rfl, .refused⟩
  rcases fdInstall_cases { k.files with
      inos := update k.files.inos v k.files.nextIno
      nextIno := k.files.nextIno + 1 } (processGetpid k) v true true with
    ⟨rc, hrc, hins⟩ | ⟨t, i, htable, hfree, hins⟩
  · simp only [hins, if_pos hrc, close_opened hv]
    exact ⟨_, rfl, .closed⟩
  have hpos : ¬((i.val : Int) + fdFirst < 0) := by
    unfold fdFirst
    omega
  simp only [hins]
  exact ⟨_, rfl, .installed htable hv hfree⟩

inductive Handled (f : Files) (pid : UInt32) : Files → Prop
  | kept : Handled f pid f
  | closed {t : Fin 256} {i : Fin 32} (htable : tableOf pid = some t)
      (hused : (f.fds t i).used = true) : Handled f pid (f.clear t i)
  | moved {t : Fin 256} {i : Fin 32} (htable : tableOf pid = some t) (offset : UInt64) :
      Handled f pid (f.set t i { f.fds t i with offset := offset })

theorem sysClose_handled : ∃ files net, (sysClose k fd).1 = { k with files := files, net := net } ∧
      Handled k.files (processGetpid k) files := by
  unfold sysClose
  split_ifs
  · exact ⟨k.files, k.net, rfl, .kept⟩
  · exact ⟨k.files, _, rfl, .kept⟩
  refine ⟨_, k.net, rfl, ?_⟩
  unfold fdClose
  cases htable : tableOf (processGetpid k) with
  | none => exact .kept
  | some t =>
    split_ifs
    · exact .kept
    cases indexOf fd.toUInt32.toInt32.toInt with
    | none => exact .kept
    | some i =>
      dsimp only
      split_ifs with hused
      · exact .closed htable hused
      · exact .kept

theorem onFile_handled (bad : Prop) [Decidable bad] (forWrite : Bool)
    (loop : UInt64 → UInt64 × Int) :
    ∃ files, (if bad then (k, aegisEinval) else onFile k fd forWrite loop).1 =
        { k with files := files } ∧ Handled k.files (processGetpid k) files := by
  by_cases hbad : bad
  · rw [if_pos hbad]
    exact ⟨k.files, rfl, .kept⟩
  rw [if_neg hbad]
  unfold onFile
  cases hget : fdGet k.files (processGetpid k) (intOf fd) forWrite with
  | none => exact ⟨k.files, rfl, .kept⟩
  | some place =>
    dsimp only
    split_ifs
    · exact ⟨k.files, rfl, .kept⟩
    · exact ⟨_, rfl, .moved (fdGet_table hget) _⟩

theorem Opened.others (h : Opened f pid f')
    (ht : tableOf pid ≠ some t) (i : Fin 32) : f'.fds t i = f.fds t i := by
  cases h with
  | refused | closed => rfl
  | installed htable _ _ => exact set_other _ _ fun heq => ht (heq.1 ▸ htable)

theorem Handled.others (h : Handled f pid f')
    (ht : tableOf pid ≠ some t) (i : Fin 32) : f'.fds t i = f.fds t i := by
  cases h with
  | kept => rfl
  | closed htable _ => exact clear_other _ fun heq => ht (heq.1 ▸ htable)
  | moved htable _ => exact set_other _ _ fun heq => ht (heq.1 ▸ htable)

theorem Birth.files_eq {k : State} {ppid : UInt32} (h : Birth k ppid k') : k'.files = k.files := by
  cases h <;> rfl

theorem destroyTask_files (task : Option Nat) : (k.destroyTask task).files = k.files := by
  obtain ⟨core, heq⟩ := destroyTask_eq k task
  rw [heq]

theorem processKill_files (pid : UInt32) (signal : Int) :
    (processKill k pid signal).1.files = match died k (.kill pid signal) with
      | some pid => fdCloseAll k.files pid
      | none => k.files := by
  rcases processKill_cases k pid signal with ⟨hnone, heq⟩ | ⟨i, hget, -, hsig⟩
  · simp only [heq, died, hnone, Option.map_none, ite_self]
  generalize (processKill k pid signal).1 = k1 at hsig ⊢
  cases hsig with
  | terminated _ hterm =>
    simp only [died, if_pos hterm, hget]
    exact destroyTask_files _ _
  | stopped | continued => rfl
  | ignored _ h9 h15 _ => simp only [died, h9, h15, or_self, if_false]

theorem processRetire_files (a : Nat) (code : Int) (now : UInt64) :
    (processRetire k a code now).files =
      match (exiting k a).map fun i => (k.procs i).pid with
      | some pid => fdCloseAll k.files pid
      | none => k.files := by
  unfold processRetire
  cases exiting k a with
  | none | some => rfl

theorem processWait_files (pid : UInt32) : (processWait k pid).1.files = k.files := by
  obtain ⟨core, runtime, userland, heq | ⟨i, -, -, heq⟩⟩ := processWait_effect k pid <;> rw [heq]
  rfl

end

theorem step_files (hstep : step k e = some k') : k'.files = match died k e with
      | some pid => fdCloseAll k.files pid
      | none => k.files := by
  cases step_stepped hstep with
  | create h | spawn h | bind h => exact h.files_eq
  | kill pid signal => exact processKill_files k pid signal
  | idle hnone => simp only [died, hnone, Option.bind_none]
  | exit core hcur =>
    simp only [died, hcur]
    exact processRetire_files k _ _ _
  | wait pid => exact processWait_files k pid
  | waitAny => exact processWait_files k _
  | childless | yield | schedulerRun | kernelTask | setIdle => rfl

end

/-! The invariant. -/

structure FileInv (S : FileKernel) : Prop where
  owned : S.kernel.TasksOwned
  sound : Sound S.kernel.files
  dead : ∀ pid ∈ S.dead, ∀ t, tableOf pid = some t → ∀ i, (S.kernel.files.fds t i).used = false
  ino : ∃ n ≤ S.opens, S.kernel.files.nextIno = .ofNat (n + 1)

section
variable {S : FileKernel}

theorem calledIn_table (h : k.TasksOwned)
    (ht : tableOf (processGetpid k) = some t) : CalledIn k (processGetpid k) := by
  cases hcur : processCurrent k with
  | none =>
    simp only [processGetpid, hcur] at ht
    cases ht
  | some i =>
    obtain ⟨hlive, hlink⟩ := h.current_iff.mp hcur
    exact ⟨i, hlive, by rw [processGetpid, hcur], hlink⟩

theorem calledIn_exiting (h : k.TasksOwned) {a : Nat} {i : Fin 256}
    (hcur : k.core.current = some a) (hexit : exiting k a = some i) :
    CalledIn k (k.procs i).pid := by
  have hlive := exiting_live h.vacant hexit
  obtain ⟨l, hl, rfl⟩ := h.linked.current a hcur
  exact ⟨i, hlive, rfl, l, hl, hcur, h.owner l hl i hlive (exiting_spec hexit)⟩

theorem FileInv.nextIno_ne (h : FileInv S) (hopens : S.opens + 1 < 2 ^ 32) :
    S.kernel.files.nextIno ≠ 0 := by
  obtain ⟨n, hn, hino⟩ := h.ino
  rw [hino]
  intro hzero
  have hnat := congrArg UInt32.toNat hzero
  rw [UInt32.toNat_ofNat'] at hnat
  simp only [UInt32.reduceToNat] at hnat
  omega

theorem ino_succ {n m : Nat} {ino : UInt32} (hn : n ≤ m) (h : ino = .ofNat (n + 1)) :
    ∃ n' ≤ m + 1, ino + 1 = .ofNat (n' + 1) := by
  refine ⟨n + 1, Nat.succ_le_succ hn, ?_⟩
  rw [h, UInt32.ofNat_add (n + 1) 1]
  rfl

section
variable (h : FileInv S)
include h

theorem FileInv.ino_later : (∃ n ≤ S.opens + 1, S.kernel.files.nextIno = .ofNat (n + 1)) ∧
      ∃ n ≤ S.opens + 1, S.kernel.files.nextIno + 1 = .ofNat (n + 1) := by
  obtain ⟨n, hn, hino⟩ := h.ino
  exact ⟨⟨n, Nat.le_succ_of_le hn, hino⟩, ino_succ hn hino⟩

theorem FileInv.opened (halive : ∀ t, tableOf pid = some t → pid ∉ S.dead)
    (hopens : S.opens + 1 < 2 ^ 32) (hopened : Opened S.kernel.files pid files) :
    FileInv ⟨{ S.kernel with files := files }, S.opens + 1, S.dead⟩ := by
  obtain ⟨hsame, hnext⟩ := h.ino_later
  cases hopened with
  | refused => exact ⟨h.owned, h.sound, h.dead, hsame⟩
  | closed => exact ⟨h.owned, h.sound.of_same rfl fun t i => ⟨rfl, rfl⟩, h.dead, hnext⟩
  | @installed t v i htable hclosed hfree =>
    refine ⟨h.owned, h.sound.install hclosed hfree (h.nextIno_ne hopens) rfl rfl, ?_, hnext⟩
    intro pid' hpid t' ht' i'
    by_cases heq : t' = t ∧ i' = i
    · obtain rfl := tableOf_inj htable (heq.1 ▸ ht')
      exact absurd hpid (halive t htable)
    · exact (congrArg FdEntry.used (set_other _ _ heq)).trans (h.dead pid' hpid t' ht' i')

theorem FileInv.handled {net : Net.Stack}
    (hhandled : Handled S.kernel.files (processGetpid S.kernel) files) :
    FileInv { S with kernel := { S.kernel with files := files, net := net } } := by
  cases hhandled with
  | kept => exact ⟨h.owned, h.sound, h.dead, h.ino⟩
  | @closed t i htable hused =>
    refine ⟨h.owned, h.sound.clear hused, fun pid hpid t' ht' i' => ?_, ?_⟩
    · by_cases heq : t' = t ∧ i' = i
      · obtain ⟨rfl, rfl⟩ := heq
        exact congrArg FdEntry.used (clear_self _ _ _)
      · exact (congrArg FdEntry.used (clear_other _ heq)).trans (h.dead pid hpid t' ht' i')
    · obtain ⟨n, hn, hino⟩ := h.ino
      exact ⟨n, hn, (clear_nextIno _ t i).trans hino⟩
  | @moved t i htable offset =>
    have hsame : ∀ t' i', ((S.kernel.files.set t i
          { S.kernel.files.fds t i with offset := offset }).fds t' i').used =
            (S.kernel.files.fds t' i').used ∧
        ((S.kernel.files.set t i { S.kernel.files.fds t i with offset := offset }).fds t' i').object =
          (S.kernel.files.fds t' i').object := by
      intro t' i'
      by_cases heq : t' = t ∧ i' = i
      · obtain ⟨rfl, rfl⟩ := heq
        rw [set_self]
        exact ⟨rfl, rfl⟩
      · rw [set_other _ _ heq]
        exact ⟨rfl, rfl⟩
    refine ⟨h.owned, h.sound.of_same rfl hsame, fun pid hpid t' ht' i' => ?_, h.ino⟩
    exact (hsame t' i').1.trans (h.dead pid hpid t' ht' i')

theorem FileInv.process (hok : NoStaleTask S.kernel e) (hstep : step S.kernel e = some k) :
    FileInv ⟨k, S.opens, (died S.kernel e).toList ++ S.dead⟩ := by
  have howned := h.owned.step hok hstep
  have hfiles := step_files hstep
  cases hdied : died S.kernel e with
  | none =>
    rw [hdied] at hfiles
    exact ⟨howned, by rw [hfiles]; exact h.sound, by rw [hfiles]; exact h.dead,
      by rw [hfiles]; exact h.ino⟩
  | some pid =>
    rw [hdied] at hfiles
    refine ⟨howned, by rw [hfiles]; exact h.sound.closeAll pid, fun pid' hpid' t ht i => ?_, ?_⟩
    · rw [hfiles]
      rcases mem_append.mp hpid' with hnew | hold
      · rw [Option.toList_some, mem_singleton] at hnew
        exact fdCloseAll_closed _ (hnew ▸ ht) i
      rcases fdCloseAll_fds S.kernel.files pid t i with heq | ⟨-, hzero⟩
      · rw [heq]
        exact h.dead pid' hold t ht i
      · rw [hzero]
        rfl
    · rw [hfiles, fdCloseAll_nextIno]
      exact h.ino

end

/-- The loader is no process, so that it has no table. -/
inductive FileStepped (S : FileKernel) : FileEvent → FileKernel → Prop
  | process {e : Event} {k : State} (h : step S.kernel e = some k) :
      FileStepped S (.process e) ⟨k, S.opens, (died S.kernel e).toList ++ S.dead⟩
  | openFile (found : Bool) {files : Files}
      (h : Opened S.kernel.files (processGetpid S.kernel) files) :
      FileStepped S (.openFile found) ⟨{ S.kernel with files := files }, S.opens + 1, S.dead⟩
  | load {files : Files} (h : Opened S.kernel.files 0 files) :
      FileStepped S .load ⟨{ S.kernel with files := files }, S.opens + 1, S.dead⟩
  | handled (e : FileEvent) {files : Files} {net : Net.Stack}
      (h : Handled S.kernel.files (processGetpid S.kernel) files) :
      FileStepped S e { S with kernel := { S.kernel with files := files, net := net } }

theorem fileStep_stepped {S' : FileKernel} {e : FileEvent} (hstep : fileStep S e = some S') :
    FileStepped S e S' := by
  cases e with
  | process e =>
    obtain ⟨k, hk, rfl⟩ := Option.map_eq_some_iff.mp hstep
    exact .process hk
  | openFile found =>
    cases hstep
    obtain ⟨files, heq, hopened⟩ := sysOpen_opened S.kernel found
    rw [heq]
    exact .openFile found hopened
  | close fd =>
    cases hstep
    obtain ⟨files, net, heq, hhandled⟩ := sysClose_handled S.kernel fd
    rw [heq]
    exact .handled _ hhandled
  | read fd len rangeOk vfsRead copyToUser =>
    cases hstep
    obtain ⟨files, heq, hhandled⟩ := onFile_handled S.kernel fd (len = 0 ∨ rangeOk = false) false
      (readFileLoop vfsRead copyToUser len len.toNat 0)
    unfold sysReadFile
    rw [heq]
    exact .handled _ hhandled
  | write fd len rangeOk vfsWrite copyFromUser =>
    cases hstep
    obtain ⟨files, heq, hhandled⟩ := onFile_handled S.kernel fd (len = 0 ∨ rangeOk = false) true
      (writeFileLoop vfsWrite copyFromUser len len.toNat 0)
    unfold sysWriteFile
    rw [heq]
    exact .handled _ hhandled
  | load =>
    cases hstep
    rcases vfsOpen_cases S.kernel.files with heq | ⟨v, hv, heq⟩
    · simp only [heq]
      exact .load .refused
    · simp only [heq, close_opened hv]
      exact .load .closed

theorem FileInv.step {S' : FileKernel} {e : FileEvent} (h : FileInv S) (hok : Orderly S e)
    (hstep : fileStep S e = some S') : FileInv S' := by
  cases fileStep_stepped hstep with
  | process hk => exact h.process hok hk
  | openFile found hopened =>
    refine h.opened (fun t ht hmem => ?_) hok.2 hopened
    exact hok.1 _ hmem (calledIn_table h.owned ht)
  | load hopened => exact h.opened (fun _ ht => by cases ht) hok hopened
  | handled _ hhandled => exact h.handled hhandled

theorem process_others {k' : State} (h : k.TasksOwned) (hstep : step k e = some k')
    (ht : ∀ pid, CalledIn k pid → tableOf pid ≠ some t) (i : Fin 32) :
    k'.files.fds t i = k.files.fds t i ∨
      ∃ pid signal, e = .kill pid signal ∧ tableOf pid = some t ∧ k'.files.fds t i = .zero := by
  have hfiles := step_files hstep
  cases hdied : died k e with
  | none =>
    rw [hdied] at hfiles
    rw [hfiles]
    exact .inl rfl
  | some pid =>
    rw [hdied] at hfiles
    rw [hfiles]
    rcases fdCloseAll_fds k.files pid t i with heq | ⟨htable, hzero⟩
    · exact .inl heq
    cases e with
    | kill pid' signal =>
      obtain ⟨-, hget⟩ := Option.ite_none_right_eq_some.mp hdied
      obtain ⟨j, hj, hpid⟩ := Option.map_eq_some_iff.mp hget
      rw [(processGet_spec hj).1] at hpid
      exact .inr ⟨pid', signal, rfl, hpid ▸ htable, hzero⟩
    | exit code now =>
      obtain ⟨a, hcur, hexit⟩ := Option.bind_eq_some_iff.mp hdied
      obtain ⟨j, hj, hpid⟩ := Option.map_eq_some_iff.mp hexit
      exact absurd htable (ht pid (hpid ▸ calledIn_exiting h hcur hj))
    | _ => cases hdied

theorem FileInv.owned_files (h : FileInv S) : FilesOwned S := by
  refine ⟨h.sound, h.dead, fun e S' hstep t ht i => ?_⟩
  -- the caller of a call on files is the process the code finds
  have hcaller : tableOf (processGetpid S.kernel) ≠ some t :=
    fun heq => ht _ (calledIn_table h.owned heq) heq
  cases fileStep_stepped hstep with
  | process hk =>
    rcases process_others h.owned hk ht i with heq | ⟨pid, signal, rfl, htable, hzero⟩
    · exact .inl heq
    · exact .inr ⟨pid, signal, rfl, htable, hzero⟩
  | openFile found hopened => exact .inl (hopened.others hcaller i)
  | load hopened => exact .inl (hopened.others nofun i)
  | handled _ hhandled => exact .inl (hhandled.others hcaller i)

end

/-- From the booted kernel with no file open. -/
theorem descriptors_owned (k : State) (hboot : Booted k) (hfds : ∀ t i, k.files.fds t i = .zero)
    (hinos : ∀ v, k.files.inos v = 0) (hino : k.files.nextIno = 1) (es : List FileEvent)
    (S : FileKernel) (hrun : Run fileStep Orderly ⟨k, 0, []⟩ es S) : FilesOwned S := by
  have hstart : FileInv ⟨k, 0, []⟩ :=
    ⟨hboot.tasksOwned, sound_empty (fun t i => by rw [hfds]; rfl) hinos, nofun, ⟨0, le_rfl, hino⟩⟩
  exact (hrun.invariant (I := FileInv) (fun _ _ _ h hok hstep => h.step hok hstep)
    hstart).owned_files

/-- Two processes open files; one writes and closes, the other is killed. -/
theorem files_of_two_processes :
    ∃ S, S.dead = [2] ∧ S.kernel.files.inos 0 = 3 ∧ S.kernel.files.inos 1 = 0 ∧ FilesOwned S := by
  obtain ⟨S, hrun, hdead, h0, h1⟩ : ∃ S, Run fileStep Orderly ⟨booted, 0, []⟩
      [.process (.spawnUserImage (cstr "a") someImage 1 0),
        .process (.spawnUserImage (cstr "b") someImage 2 1), .process .schedulerRun,
        .openFile true, .write 3 200 true (fun _ n => n.toNat) (fun _ _ => 0), .close 3,
        .process .yield, .openFile true, .process .yield, .process (.kill 2 9), .openFile true,
        .read 3 10 true (fun _ _ => 4) (fun _ _ => 0)] S ∧
      S.dead = [2] ∧ S.kernel.files.inos 0 = 3 ∧ S.kernel.files.inos 1 = 0 :=
    Run.exists_of_execute (by decide +kernel)
  exact ⟨S, hdead, h0, h1, descriptors_owned booted booted_booted (fun _ _ => rfl) (fun _ => rfl) rfl
    _ S hrun⟩

/-- A process whose task took the address of a dead one's opens a file, which goes to the table of
the dead. -/
theorem file_of_the_dead : ∃ S S', Run fileStep anyEvent ⟨booted, 0, []⟩
        [.process (.spawnUserImage (cstr "a") someImage 1 0), .process (.kill 1 9),
          .process (.spawnUserImage (cstr "b") someImage 2 0),
          .process .schedulerRun] S ∧
      CallerAlive S ∧ CalledIn S.kernel 2 ∧ S.dead = [1] ∧
      fileStep S (.openFile true) = some S' ∧ S'.dead = [1] ∧
      (S'.kernel.files.fds 1 0).used = true ∧ tableOf 1 = some 1 := by
  simp only [exists_and_left]
  exact Run.exists_of_execute (by decide +kernel)

/-! Which processes can open files: the descriptor tables are chosen by pid, and there are 256. -/

/-- A process runs that has a descriptor left, and a vnode is free. A process without a table
has no descriptor open. -/
structure CanOpen (k : State) : Prop where
  running : (processCurrent k).isSome
  vnode : ∃ v, k.files.inos v = 0
  descriptor : ∀ t, tableOf (processGetpid k) = some t → ∃ i, (k.files.fds t i).used = false

variable {pid : UInt32} {f : Files} {k : State}

theorem tableOf_some (hpos : pid ≠ 0) (hlt : pid.toNat < fdProcessSlots) :
    tableOf pid = some ⟨pid.toNat, hlt⟩ := by
  rw [tableOf, dif_pos hlt, if_neg hpos]

theorem tableOf_none (h : ¬(pid ≠ 0 ∧ pid.toNat < fdProcessSlots)) : tableOf pid = none := by
  unfold tableOf
  split_ifs with hlt hzero
  · rfl
  · exact absurd ⟨hzero, hlt⟩ h
  · rfl

theorem vfsOpen_free (h : ∃ v, f.inos v = 0) : ∃ v, f.inos v = 0 ∧
    vfsOpen f =
      ({ f with inos := Function.update f.inos v f.nextIno, nextIno := f.nextIno + 1 }, some v) := by
  obtain ⟨v, hv⟩ := h
  rcases vfsOpen_cases f with hnone | hsome
  · unfold vfsOpen at hnone
    cases hfind : Fin.find? fun v => f.inos v == 0 with
    | none =>
      have := Fin.find?_eq_none_iff.mp hfind v
      simp [hv] at this
    | some w => simp [hfind] at hnone
  · exact hsome

theorem fdInstall_free {t : Fin 256} (ht : tableOf pid = some t)
    (h : ∃ i, (f.fds t i).used = false) (v : Fin 256) (readable writable : Bool) :
    fdFirst ≤ (fdInstall f pid v readable writable).2 := by
  obtain ⟨i, hi⟩ := h
  simp only [fdInstall, ht]
  cases hfind : Fin.find? fun i => !(f.fds t i).used with
  | none =>
    have := Fin.find?_eq_none_iff.mp hfind i
    simp [hi] at this
  | some j =>
    dsimp only
    omega

/-- A process that can open a file gets a descriptor just when its pid has a table. -/
theorem open_succeeds_iff (k : State) (h : CanOpen k) : fdFirst ≤ (sysOpen k true).2 ↔
      processGetpid k ≠ 0 ∧ (processGetpid k).toNat < fdProcessSlots := by
  obtain ⟨v, -, hopen⟩ := vfsOpen_free h.vnode
  simp only [sysOpen, hopen, Bool.true_eq_false, if_false]
  by_cases hpid : processGetpid k ≠ 0 ∧ (processGetpid k).toNat < fdProcessSlots
  · have ht := tableOf_some hpid.1 hpid.2
    exact iff_of_true (fdInstall_free ht (by exact h.descriptor _ ht) v true true) hpid
  · refine iff_of_false (fun hfd => ?_) hpid
    simp only [fdInstall, tableOf_none hpid] at hfd
    exact absurd hfd (by decide)

theorem bound_task_opens : ∃ k, Run step anyEvent booted
        [.kernelTask 1, .schedulerRun, .bindCurrent (cstr "a") someImage 1 0] k ∧
      fdFirst ≤ (sysOpen k true).2 := by
  refine Run.exists_of_execute_imp (P := fun k => (processCurrent k).isSome ∧ k.files.inos 0 = 0 ∧
    processGetpid k = 1 ∧ (k.files.fds 1 0).used = false) (fun k _ hk => ?_) (by decide +kernel)
  obtain ⟨hcur, hino, hpid, hfd⟩ := hk
  have hcan : CanOpen k := by
    refine ⟨hcur, ⟨0, hino⟩, fun t ht => ⟨0, ?_⟩⟩
    rw [hpid] at ht
    cases ht
    exact hfd
  refine (open_succeeds_iff k hcan).mpr ?_
  rw [hpid]
  decide

theorem create_without_room (hzero : ∀ i, k.procs i = processZero)
    (hfull : ∀ i, k.core.alloc procStackSize (fun _ => .procStack i) = none) (name : CStr)
    (ppid : UInt32) : step k (.create name ppid) = some k.countBirth := by
  simp only [step, processCreate]
  cases hslot : procFindSlot k with
  | none =>
    unfold procFindSlot at hslot
    have hlive := Fin.find?_eq_none_iff.mp hslot 0
    rw [hzero 0] at hlive
    exact absurd hlive (by decide)
  | some i =>
    simp only [hfull i]
    rw [← hzero i]
    exact congrArg (fun procs => some { k.countBirth with procs := procs })
      (Function.update_eq_self i k.procs)

theorem creations_without_room (n : Nat) (hzero : ∀ i, k.procs i = processZero)
    (hfull : ∀ i, k.core.alloc procStackSize (fun _ => .procStack i) = none) (name : CStr)
    (ppid : UInt32) :
    Run step anyEvent k (.replicate n (.create name ppid))
      { k with nextPid := k.nextPid + .ofNat n, births := k.births + n } := by
  induction n generalizing k with
  | zero => simpa using .nil k
  | succ n ih =>
    have hrest := ih (k := k.countBirth) hzero hfull
    have hpid : k.nextPid + 1 + .ofNat n = k.nextPid + .ofNat (n + 1) := by
      rw [UInt32.ofNat_add, UInt32.add_assoc, UInt32.add_comm 1]
      rfl
    have hborn : k.births + 1 + n = k.births + (n + 1) := by omega
    simp only [State.countBirth, hpid, hborn] at hrest
    exact .cons trivial (create_without_room hzero hfull name ppid) hrest

/-- A booted kernel whose heap has room for a task but not for the stack of a process. -/
def smallHeap : State := { booted with core := .init 0x100000 0x8000 }

/-- After 255 failed creations the first process gets pid 256, which has no table. -/
theorem late_process_opens_nothing : Booted smallHeap ∧ ∃ k, Run step anyEvent smallHeap
        (.replicate 255 (.create (cstr "b") 0) ++
          [.kernelTask 1, .schedulerRun, .bindCurrent (cstr "a") someImage 1 0]) k ∧
      CanOpen k ∧ (sysOpen k true).2 = aegisEinval := by
  refine ⟨⟨⟨_, _, rfl⟩, fun _ => rfl, rfl, rfl, rfl, rfl⟩, ?_⟩
  have hfull (i : Nat) : smallHeap.core.alloc procStackSize (fun _ => .procStack i) = none := rfl
  have hfailed := creations_without_room 255 (k := smallHeap) (fun _ => rfl) hfull (cstr "b") 0
  obtain ⟨k, hrun, hcur, hino, hpid⟩ : ∃ k, Run step anyEvent
      { smallHeap with nextPid := 1 + .ofNat 255, births := 0 + 255 }
      [.kernelTask 1, .schedulerRun, .bindCurrent (cstr "a") someImage 1 0] k ∧
      (processCurrent k).isSome ∧ k.files.inos 0 = 0 ∧ processGetpid k = 256 :=
    Run.exists_of_execute (by decide +kernel)
  have hnone : tableOf (processGetpid k) = none := by
    rw [hpid]
    rfl
  refine ⟨k, hfailed.append hrun, ⟨hcur, ⟨0, hino⟩, fun t ht => ?_⟩, ?_⟩
  · rw [hnone] at ht
    cases ht
  · obtain ⟨v, -, hopen⟩ := vfsOpen_free ⟨0, hino⟩
    simp only [sysOpen, hopen, Bool.true_eq_false, if_false, fdInstall, hnone]

end AegisOS.Kernel
