import AegisOS.Errno
import Mathlib.Data.List.FinRange

/-! The per-process descriptor tables of `kernel/core/fd_table.c`. An object is the index
of an open vnode, of which only the inode number is kept: it is zero when the vnode is
closed. -/
namespace AegisOS.FdTable
open Function

def fdFirst : Int := 3
def fdProcessSlots : Nat := 256

structure FdEntry where
  used : Bool
  readable : Bool
  writable : Bool
  object : Option (Fin 256)
  offset : UInt64

def FdEntry.zero : FdEntry := ⟨false, false, false, none, 0⟩

structure Files where
  fds : Fin 256 → Fin 32 → FdEntry
  inos : Fin 256 → UInt32
  nextIno : UInt32

def tableOf (pid : UInt32) : Option (Fin 256) :=
  if h : pid.toNat < fdProcessSlots then
    if pid = 0 then none else some ⟨pid.toNat, h⟩
  else none

def indexOf (fd : Int) : Option (Fin 32) :=
  if h : (fd - fdFirst).toNat < 32 then
    if fd < fdFirst then none else some ⟨(fd - fdFirst).toNat, h⟩
  else none

def Files.set (f : Files) (t : Fin 256) (i : Fin 32) (e : FdEntry) : Files :=
  { f with fds := update f.fds t (update (f.fds t) i e) }

/-- `vfs_open` of a path below a mounted file system; the vnode index, if one is free. -/
def vfsOpen (f : Files) : Files × Option (Fin 256) :=
  match Fin.find? fun v => f.inos v == 0 with
  | none => (f, none)
  | some v => ({ f with inos := update f.inos v f.nextIno, nextIno := f.nextIno + 1 }, some v)

def vfsClose (f : Files) (object : Option (Fin 256)) : Files :=
  match object with
  | none => f
  | some v => { f with inos := update f.inos v 0 }

def fdInstall (f : Files) (pid : UInt32) (object : Fin 256) (readable writable : Bool) :
    Files × Int :=
  match tableOf pid with
  | none => (f, aegisEinval)
  | some t =>
    match Fin.find? fun i => !(f.fds t i).used with
    | none => (f, aegisEnospc)
    | some i => (f.set t i ⟨true, readable, writable, some object, 0⟩, i.val + fdFirst)

/-- The table and entry `fd_get` finds for reading or writing. -/
def fdGet (f : Files) (pid : UInt32) (fd : Int) (forWrite : Bool) : Option (Fin 256 × Fin 32) :=
  match tableOf pid, indexOf fd with
  | some t, some i =>
    let e := f.fds t i
    if e.used && (if forWrite then e.writable else e.readable) then some (t, i) else none
  | _, _ => none

def Files.clear (f : Files) (t : Fin 256) (i : Fin 32) : Files :=
  (vfsClose f (f.fds t i).object).set t i .zero

def fdClose (f : Files) (pid : UInt32) (fd : Int) : Files × Int :=
  match tableOf pid with
  | none => (f, aegisEinval)
  | some t =>
    if fd < fdFirst then (f, aegisEinval)
    else
      match indexOf fd with
      | none => (f, aegisEnoent)
      | some i => if (f.fds t i).used then (f.clear t i, aegisOk) else (f, aegisEnoent)

def fdCloseAll (f : Files) (pid : UInt32) : Files :=
  match tableOf pid with
  | none => f
  | some t => (List.finRange 32).foldl (fun f i => if (f.fds t i).used then f.clear t i else f) f

/-! Which descriptor an open vnode belongs to. -/
open List Option

/-- The used entries and the open vnodes correspond one to one. -/
structure Sound (f : Files) : Prop where
  entry : ∀ t i, (f.fds t i).used = true → ∃ v, (f.fds t i).object = some v ∧ f.inos v ≠ 0
  own : ∀ t i t' i' v, (f.fds t i).used = true → (f.fds t' i').used = true →
    (f.fds t i).object = some v → (f.fds t' i').object = some v → t = t' ∧ i = i'
  referenced : ∀ v, f.inos v ≠ 0 → ∃ t i, (f.fds t i).used = true ∧ (f.fds t i).object = some v

variable {f f' : Files} {t : Fin 256} {i : Fin 32} {v : Fin 256}

theorem set_self (f : Files) (t : Fin 256) (i : Fin 32) (e : FdEntry) : (f.set t i e).fds t i = e := by
  simp [Files.set]

variable {t' : Fin 256} {i' : Fin 32} {pid : UInt32}

theorem set_other (f : Files) (e : FdEntry) (h : ¬(t' = t ∧ i' = i)) :
    (f.set t i e).fds t' i' = f.fds t' i' := by
  by_cases ht : t' = t
  · have hi : i' ≠ i := fun hi => h ⟨ht, hi⟩
    simp [Files.set, ht, update_of_ne hi]
  · simp [Files.set, update_of_ne ht]

theorem vfsClose_fds (f : Files) (object : Option (Fin 256)) : (vfsClose f object).fds = f.fds := by
  cases object <;> rfl

theorem clear_self (f : Files) (t : Fin 256) (i : Fin 32) : (f.clear t i).fds t i = .zero :=
  set_self _ t i .zero

theorem clear_other (f : Files) (h : ¬(t' = t ∧ i' = i)) :
    (f.clear t i).fds t' i' = f.fds t' i' := by
  rw [Files.clear, set_other _ _ h, vfsClose_fds]

theorem clear_nextIno (f : Files) (t : Fin 256) (i : Fin 32) : (f.clear t i).nextIno = f.nextIno := by
  unfold Files.clear
  cases (f.fds t i).object <;> rfl

theorem sound_empty (hfds : ∀ t i, (f.fds t i).used = false) (hinos : ∀ v, f.inos v = 0) : Sound f := by
  refine ⟨fun t i h => ?_, fun t i t' i' v h => ?_, fun v h => absurd (hinos v) h⟩
  all_goals
    rw [hfds] at h
    cases h

theorem Sound.install (h : Sound f) {e : FdEntry} {ino next : UInt32} (hclosed : f.inos v = 0)
    (hfree : (f.fds t i).used = false) (hino : ino ≠ 0) (hobject : e.object = some v)
    (hused : e.used = true) :
    Sound ({ f with inos := update f.inos v ino, nextIno := next }.set t i e) := by
  have hne : ∀ t' i', (f.fds t' i').used = true → ¬(t' = t ∧ i' = i) := by
    rintro t' i' hu ⟨rfl, rfl⟩
    rw [hfree] at hu
    cases hu
  have hother : ∀ t' i' v', (f.fds t' i').used = true → (f.fds t' i').object = some v' → v' ≠ v := by
    rintro t' i' v' hu ho rfl
    obtain ⟨w, hw, hopen⟩ := h.entry t' i' hu
    rw [ho, some.injEq] at hw
    exact hopen (hw ▸ hclosed)
  refine ⟨fun t' i' hu => ?_, fun t₁ i₁ t₂ i₂ v' h₁ h₂ ho₁ ho₂ => ?_, fun v' hv' => ?_⟩
  · by_cases heq : t' = t ∧ i' = i
    · obtain ⟨rfl, rfl⟩ := heq
      rw [set_self]
      exact ⟨v, hobject, by simpa [Files.set] using hino⟩
    · rw [set_other _ _ heq] at hu ⊢
      obtain ⟨w, hw, hopen⟩ := h.entry t' i' hu
      refine ⟨w, hw, ?_⟩
      simpa only [Files.set, update_of_ne (hother t' i' w hu hw)] using hopen
  · by_cases heq₁ : t₁ = t ∧ i₁ = i
    · by_cases heq₂ : t₂ = t ∧ i₂ = i
      · exact ⟨heq₁.1.trans heq₂.1.symm, heq₁.2.trans heq₂.2.symm⟩
      rw [heq₁.1, heq₁.2, set_self, hobject] at ho₁
      rw [set_other _ _ heq₂] at h₂ ho₂
      exact absurd (some.inj ho₁).symm (hother t₂ i₂ v' h₂ ho₂)
    · rw [set_other _ _ heq₁] at h₁ ho₁
      by_cases heq₂ : t₂ = t ∧ i₂ = i
      · rw [heq₂.1, heq₂.2, set_self, hobject] at ho₂
        exact absurd (some.inj ho₂).symm (hother t₁ i₁ v' h₁ ho₁)
      · rw [set_other _ _ heq₂] at h₂ ho₂
        exact h.own t₁ i₁ t₂ i₂ v' h₁ h₂ ho₁ ho₂
  · by_cases heq : v' = v
    · exact ⟨t, i, by rw [set_self]; exact hused, by rw [set_self, heq]; exact hobject⟩
    have hold : f.inos v' ≠ 0 := by simpa only [Files.set, update_of_ne heq] using hv'
    obtain ⟨t', i', hu, ho⟩ := h.referenced v' hold
    exact ⟨t', i', by rw [set_other _ _ (hne t' i' hu)]; exact hu,
      by rw [set_other _ _ (hne t' i' hu)]; exact ho⟩

theorem Sound.clear (h : Sound f) (hused : (f.fds t i).used = true) : Sound (f.clear t i) := by
  obtain ⟨v, hobject, -⟩ := h.entry t i hused
  have hinos : (f.clear t i).inos = update f.inos v 0 := by
    simp only [Files.clear, Files.set, vfsClose, hobject]
  have hof : ∀ t' i', ((f.clear t i).fds t' i').used = true →
      ¬(t' = t ∧ i' = i) ∧ (f.clear t i).fds t' i' = f.fds t' i' := by
    intro t' i' hu
    by_cases heq : t' = t ∧ i' = i
    · obtain ⟨rfl, rfl⟩ := heq
      rw [clear_self] at hu
      cases hu
    · exact ⟨heq, clear_other f heq⟩
  refine ⟨fun t' i' hu => ?_, fun t₁ i₁ t₂ i₂ v' h₁ h₂ ho₁ ho₂ => ?_, fun v' hv' => ?_⟩
  · obtain ⟨hne, heq⟩ := hof t' i' hu
    rw [heq] at hu ⊢
    obtain ⟨w, hw, hopen⟩ := h.entry t' i' hu
    have hwv : w ≠ v := by
      rintro rfl
      exact hne (h.own t' i' t i w hu hused hw hobject)
    exact ⟨w, hw, by rw [hinos, update_of_ne hwv]; exact hopen⟩
  · have heq₁ := (hof t₁ i₁ h₁).2
    have heq₂ := (hof t₂ i₂ h₂).2
    rw [heq₁] at h₁ ho₁
    rw [heq₂] at h₂ ho₂
    exact h.own t₁ i₁ t₂ i₂ v' h₁ h₂ ho₁ ho₂
  · have hne : v' ≠ v := by
      rintro rfl
      rw [hinos, update_self] at hv'
      exact hv' rfl
    rw [hinos, update_of_ne hne] at hv'
    obtain ⟨t', i', hu, ho⟩ := h.referenced v' hv'
    have heq : ¬(t' = t ∧ i' = i) := by
      rintro ⟨rfl, rfl⟩
      rw [hobject] at ho
      exact hne (some.inj ho).symm
    exact ⟨t', i', by rw [clear_other f heq]; exact hu, by rw [clear_other f heq]; exact ho⟩

theorem Sound.of_same (h : Sound f) (hinos : f'.inos = f.inos)
    (hfds : ∀ t i, (f'.fds t i).used = (f.fds t i).used ∧ (f'.fds t i).object = (f.fds t i).object) :
    Sound f' := by
  refine ⟨fun t i => ?_, fun t i t' i' v => ?_, fun v => ?_⟩
  · rw [(hfds t i).1, (hfds t i).2, hinos]
    exact h.entry t i
  · rw [(hfds t i).1, (hfds t i).2, (hfds t' i').1, (hfds t' i').2]
    exact h.own t i t' i' v
  · intro hv
    rw [hinos] at hv
    obtain ⟨t, i, hu, ho⟩ := h.referenced v hv
    exact ⟨t, i, (hfds t i).1.trans hu, (hfds t i).2.trans ho⟩

/-! Opening and looking up. -/

theorem tableOf_inj {p q : UInt32} (hp : tableOf p = some t) (hq : tableOf q = some t) : p = q := by
  have hval : ∀ r, tableOf r = some t → r.toNat = t.val := by
    intro r hr
    unfold tableOf at hr
    split_ifs at hr
    rw [← some.inj hr]
  exact UInt32.toNat_inj.mp ((hval p hp).trans (hval q hq).symm)

theorem vfsOpen_cases (f : Files) :
    vfsOpen f = (f, none) ∨ ∃ v, f.inos v = 0 ∧ vfsOpen f =
      ({ f with inos := update f.inos v f.nextIno, nextIno := f.nextIno + 1 }, some v) := by
  unfold vfsOpen
  cases hfind : Fin.find? fun v => f.inos v == 0 with
  | none => exact .inl rfl
  | some v => exact .inr ⟨v, by simpa using Fin.eq_true_of_find?_eq_some hfind, rfl⟩

theorem close_opened (hv : f.inos v = 0) :
    vfsClose { f with inos := update f.inos v f.nextIno, nextIno := f.nextIno + 1 } (some v) =
      { f with nextIno := f.nextIno + 1 } := by
  have hback : update (update f.inos v f.nextIno) v 0 = f.inos := by
    rw [update_idem, ← hv, update_eq_self]
  simp only [vfsClose, hback]

theorem fdInstall_cases (f : Files) (pid : UInt32) (v : Fin 256) (readable writable : Bool) :
    (∃ rc, rc < 0 ∧ fdInstall f pid v readable writable = (f, rc)) ∨
      ∃ t i, tableOf pid = some t ∧ (f.fds t i).used = false ∧
        fdInstall f pid v readable writable =
          (f.set t i ⟨true, readable, writable, some v, 0⟩, i.val + fdFirst) := by
  unfold fdInstall
  cases htable : tableOf pid with
  | none => exact .inl ⟨_, einval_neg, rfl⟩
  | some t =>
    dsimp only
    cases hfind : Fin.find? fun i => !(f.fds t i).used with
    | none => exact .inl ⟨aegisEnospc, by decide, rfl⟩
    | some i => exact .inr ⟨t, i, rfl, by simpa using Fin.eq_true_of_find?_eq_some hfind, rfl⟩

theorem fdGet_table {fd : Int} {forWrite : Bool}
    (h : fdGet f pid fd forWrite = some (t, i)) : tableOf pid = some t := by
  unfold fdGet at h
  split at h
  next htable _ =>
    obtain ⟨-, heq⟩ := ite_none_right_eq_some.mp h
    rw [htable, (Prod.mk.inj (some.inj heq)).1]
  · cases h

/-! Closing all descriptors of a process. -/

/-- One round of the loop of `fd_close_all`. -/
def closeOne (t : Fin 256) (f : Files) (i : Fin 32) : Files :=
  if (f.fds t i).used then f.clear t i else f

theorem closeOne_other (f : Files) {i : Fin 32} (h : ¬(t' = t ∧ i' = i)) :
    (closeOne t f i).fds t' i' = f.fds t' i' := by
  unfold closeOne
  split_ifs
  · exact clear_other f h
  · rfl

theorem closeOne_self (f : Files) (t : Fin 256) (i : Fin 32) :
    ((closeOne t f i).fds t i).used = false ∧
      ((closeOne t f i).fds t i = f.fds t i ∨ (closeOne t f i).fds t i = .zero) := by
  unfold closeOne
  split_ifs with hused
  · rw [clear_self]
    exact ⟨rfl, .inr rfl⟩
  · exact ⟨by simpa using hused, .inl rfl⟩

theorem Sound.closeOne (h : Sound f) (t : Fin 256) (i : Fin 32) : Sound (closeOne t f i) := by
  unfold FdTable.closeOne
  split_ifs with hused
  · exact h.clear hused
  · exact h

theorem closeRounds (is : List (Fin 32)) (t : Fin 256) (f : Files) :
    (Sound f → Sound (is.foldl (closeOne t) f)) ∧
      (∀ t' i', t' ≠ t → (is.foldl (closeOne t) f).fds t' i' = f.fds t' i') ∧
      (∀ i', (is.foldl (closeOne t) f).fds t i' = f.fds t i' ∨
        (is.foldl (closeOne t) f).fds t i' = .zero) ∧
      ∀ i', i' ∈ is ∨ (f.fds t i').used = false →
        ((is.foldl (closeOne t) f).fds t i').used = false := by
  induction is generalizing f with
  | nil => exact ⟨id, fun _ _ _ => rfl, fun _ => .inl rfl, fun i' h => h.resolve_left not_mem_nil⟩
  | cons i is ih =>
    obtain ⟨hsound, hother, hself, hused⟩ := ih (closeOne t f i)
    rw [foldl_cons]
    refine ⟨fun h => hsound (h.closeOne t i), fun t' i' ht => ?_, fun i' => ?_, fun i' hi' => ?_⟩
    · rw [hother t' i' ht, closeOne_other f fun heq => ht heq.1]
    · rcases hself i' with heq | hzero
      · rw [heq]
        by_cases hi : i' = i
        · rw [hi]
          exact (closeOne_self f t i).2
        · exact .inl (closeOne_other f fun heq => hi heq.2)
      · exact .inr hzero
    · refine hused i' ?_
      by_cases hi : i' = i
      · rw [hi]
        exact .inr (closeOne_self f t i).1
      rcases hi' with hmem | hfree
      · exact .inl ((mem_cons.mp hmem).resolve_left hi)
      · rw [closeOne_other f fun heq => hi heq.2]
        exact .inr hfree

theorem fdCloseAll_eq (f : Files) (pid : UInt32) : fdCloseAll f pid = match tableOf pid with
      | none => f
      | some t => (finRange 32).foldl (closeOne t) f := rfl

theorem Sound.closeAll (h : Sound f) (pid : UInt32) : Sound (fdCloseAll f pid) := by
  rw [fdCloseAll_eq]
  cases tableOf pid with
  | none => exact h
  | some t => exact (closeRounds (finRange 32) t f).1 h

theorem fdCloseAll_fds (f : Files) (pid : UInt32) (t : Fin 256) (i : Fin 32) :
    (fdCloseAll f pid).fds t i = f.fds t i ∨
      tableOf pid = some t ∧ (fdCloseAll f pid).fds t i = .zero := by
  rw [fdCloseAll_eq]
  cases hpid : tableOf pid with
  | none => exact .inl rfl
  | some t' =>
    obtain ⟨-, hother, hself, -⟩ := closeRounds (finRange 32) t' f
    by_cases ht : t = t'
    · subst ht
      rcases hself i with heq | hzero
      · exact .inl heq
      · exact .inr ⟨rfl, hzero⟩
    · exact .inl (hother t i ht)

theorem fdCloseAll_closed (f : Files) (hpid : tableOf pid = some t) (i : Fin 32) :
    ((fdCloseAll f pid).fds t i).used = false := by
  rw [fdCloseAll_eq, hpid]
  exact (closeRounds (finRange 32) t f).2.2.2 i (.inl (mem_finRange i))

theorem fdCloseAll_nextIno (f : Files) (pid : UInt32) : (fdCloseAll f pid).nextIno = f.nextIno := by
  have hone : ∀ (f : Files) t i, (closeOne t f i).nextIno = f.nextIno := by
    intro f t i
    unfold closeOne
    split_ifs
    · exact clear_nextIno f t i
    · rfl
  have hrounds : ∀ (is : List (Fin 32)) t (f : Files),
      (is.foldl (closeOne t) f).nextIno = f.nextIno := by
    intro is t
    induction is with
    | nil => exact fun f => rfl
    | cons i is ih => exact fun f => (ih _).trans (hone f t i)
  rw [fdCloseAll_eq]
  cases tableOf pid with
  | none => rfl
  | some t => exact hrounds _ t f

end AegisOS.FdTable
