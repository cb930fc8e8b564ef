import AegisOS.FdTable
import AegisOS.Lib.CString

/-! Mount points and path resolution of the virtual file system (`fs/vfs.c`). -/
namespace AegisOS.Vfs
open CString FdTable List Option Nat

def vfsPathMax : Nat := 256

/-- A mount point; `fs` is its file system if that has operations. -/
structure Mount (F : Type) where
  path : CStr
  fs : Option F
  active : Bool

/-- The loop of `path_match_len`: how far two strings agree. -/
def commonLen : List UInt8 → List UInt8 → Nat
  | c :: cs, d :: ds => if c = d then commonLen cs ds + 1 else 0
  | _, _ => 0

def pathMatchLen (path mountPath : CStr) : Nat :=
  if mountPath.bytes = [47] then if path.bytes.head? = some 47 then 1 else 0
  else
    let len := commonLen path.bytes mountPath.bytes
    if len < mountPath.bytes.length then 0
    else if (path.bytes[len]?).all (· = 47) then len else 0

section
variable {F : Type}

/-- A round of the loop of `vfs_resolve_mount`, with the best mount so far and its length. -/
def better (path : CStr) (best : Option (Mount F) × Nat) (m : Mount F) : Option (Mount F) × Nat :=
  if m.active ∧ best.2 < pathMatchLen path m.path then (some m, pathMatchLen path m.path) else best

def vfsResolveMount (mounts : List (Mount F)) (path : CStr) : Option (Mount F) × Nat :=
  mounts.foldl (better path) (none, 0)

def dropSlash : List UInt8 → List UInt8
  | 47 :: rest => rest
  | rest => rest

/-- An open file: its vnode, its file system and the path that the file system is given. -/
structure Vnode (F : Type) where
  index : Fin 256
  fs : F
  path : List UInt8

/-- `vfs_open` -/
def vfsOpenPath (mounts : List (Mount F)) (f : Files) (path : CStr) : Files × Option (Vnode F) :=
  let best := vfsResolveMount mounts path
  match best.1.bind Mount.fs with
  | none => (f, none)
  | some fs =>
    match vfsOpen f with
    | (f', some v) => (f', some ⟨v, fs, (dropSlash (path.bytes.drop best.2)).take (vfsPathMax - 1)⟩)
    | (_, none) => (f, none)

/-- The mount path is a prefix of the path that ends where a component ends. -/
def WholePrefix (mountPath path : CStr) : Prop :=
  ∃ rest, path.bytes = mountPath.bytes ++ rest ∧
    (mountPath.bytes = [47] ∨ rest = [] ∨ rest.head? = some 47)

/-- The active mount for the path with the longest mount path, the first if there are several. -/
structure Longest (mounts : List (Mount F)) (path : CStr) (m : Mount F) : Prop where
  active : m.active = true
  whole : WholePrefix m.path path
  first : ∃ before after, mounts = before ++ m :: after ∧
    (∀ m' ∈ before, m'.active = true → WholePrefix m'.path path →
      m'.path.bytes.length < m.path.bytes.length) ∧
    ∀ m' ∈ after, m'.active = true → WholePrefix m'.path path →
      m'.path.bytes.length ≤ m.path.bytes.length

/-- The mount path starts with a slash and does not end with one, except `/`. -/
structure Mount.Proper (m : Mount F) : Prop where
  absolute : m.path.bytes.head? = some 47
  ending : m.path.bytes = [47] ∨ m.path.bytes.getLast? ≠ some 47

theorem commonLen_le (cs ds : List UInt8) : commonLen cs ds ≤ ds.length := by
  induction cs generalizing ds with
  | nil => simp [commonLen]
  | cons c cs ih =>
    cases ds with
    | nil => simp [commonLen]
    | cons d ds =>
      rw [commonLen]
      split
      · have := ih ds
        simpa using this
      · simp

theorem commonLen_eq_iff (cs ds : List UInt8) :
    commonLen cs ds = ds.length ↔ ∃ rest, cs = ds ++ rest := by
  induction cs generalizing ds with
  | nil => cases ds <;> simp [commonLen]
  | cons c cs ih =>
    cases ds with
    | nil => simp [commonLen]
    | cons d ds =>
      rw [commonLen]
      split
      next heq => simp [heq, ih ds]
      next hne => simp [hne]

theorem pathMatchLen_whole {path mountPath : CStr} (h : WholePrefix mountPath path) :
    pathMatchLen path mountPath = mountPath.bytes.length := by
  obtain ⟨rest, hpath, hend⟩ := h
  unfold pathMatchLen
  by_cases hroot : mountPath.bytes = [47]
  · simp [hroot, hpath]
  have hlen : commonLen path.bytes mountPath.bytes = mountPath.bytes.length :=
    (commonLen_eq_iff _ _).mpr ⟨rest, hpath⟩
  have hnext : path.bytes[mountPath.bytes.length]? = rest.head? := by
    rw [hpath, getElem?_append_right (Nat.le_refl _), Nat.sub_self, head?_eq_getElem?]
  simp only [if_neg hroot, hlen, hnext]
  rcases hend.resolve_left hroot with hnil | hslash
  · simp [hnil]
  · simp [hslash]

theorem pathMatchLen_pos {path mountPath : CStr} (h : 0 < pathMatchLen path mountPath) :
    WholePrefix mountPath path := by
  unfold pathMatchLen at h
  by_cases hroot : mountPath.bytes = [47]
  · rw [if_pos hroot] at h
    split at h
    next hhead =>
      obtain ⟨rest, hpath⟩ := head?_eq_some_iff.mp hhead
      exact ⟨rest, by rw [hroot, hpath]; rfl, .inl hroot⟩
    · omega
  simp only [if_neg hroot] at h
  split_ifs at h with hshort hnext
  · omega
  · have hlen := Nat.le_antisymm (commonLen_le path.bytes mountPath.bytes) (Nat.not_lt.mp hshort)
    obtain ⟨rest, hpath⟩ := (commonLen_eq_iff _ _).mp hlen
    refine ⟨rest, hpath, .inr ?_⟩
    rw [hlen, hpath, getElem?_append_right (Nat.le_refl _), Nat.sub_self] at hnext
    cases rest with
    | nil => exact .inl rfl
    | cons c rest => exact .inr (by simpa using hnext)
  · omega

structure Found (mounts : List (Mount F)) (path : CStr) (best : Option (Mount F) × Nat) : Prop where
  none_iff : best.1 = none ↔ best.2 = 0
  is : ∀ m, best.1 = some m → m.active = true ∧ best.2 = pathMatchLen path m.path ∧
    ∃ before after, mounts = before ++ m :: after ∧
      ∀ m' ∈ before, m'.active = true → pathMatchLen path m'.path < best.2
  most : ∀ m ∈ mounts, m.active = true → pathMatchLen path m.path ≤ best.2

theorem found_resolve (mounts : List (Mount F)) (path : CStr) :
    Found mounts path (vfsResolveMount mounts path) := by
  suffices h : ∀ done best, Found done path best →
      Found (done ++ mounts) path (mounts.foldl (better path) best) from
    h [] (none, 0) ⟨by simp, fun m hm => by simp at hm, fun m hm => by simp at hm⟩
  induction mounts with
  | nil => simp
  | cons m mounts ih =>
    intro done best h
    have hstep : Found (done ++ [m]) path (better path best m) := by
      unfold better
      split
      next hbetter =>
        refine ⟨by simp; omega, ?_, ?_⟩
        · intro m' hm'
          cases hm'
          exact ⟨hbetter.1, rfl, done, [], rfl,
            fun m' hm' hactive => lt_of_le_of_lt (h.most m' hm' hactive) hbetter.2⟩
        · intro m' hm' hactive
          rcases mem_append.mp hm' with hold | hnew
          · exact le_trans (h.most m' hold hactive) (le_of_lt hbetter.2)
          · rw [mem_singleton.mp hnew]
      next hnot =>
        refine ⟨h.none_iff, ?_, ?_⟩
        · intro m' hm'
          obtain ⟨hactive, hlen, before, after, rfl, hbefore⟩ := h.is m' hm'
          exact ⟨hactive, hlen, before, after ++ [m], by simp, hbefore⟩
        intro m' hm' hactive
        rcases mem_append.mp hm' with hold | hnew
        · exact h.most m' hold hactive
        · rw [mem_singleton.mp hnew] at hactive ⊢
          exact not_lt.mp fun hlt => hnot ⟨hactive, hlt⟩
    have hrest := ih (done ++ [m]) _ hstep
    rwa [append_assoc] at hrest

theorem resolve_longest {mounts : List (Mount F)} {path : CStr} {m : Mount F}
    (h : (vfsResolveMount mounts path).1 = some m) :
    Longest mounts path m ∧ (vfsResolveMount mounts path).2 = m.path.bytes.length := by
  have hfound := found_resolve mounts path
  obtain ⟨hactive, hlen, before, after, hsplit, hbefore⟩ := hfound.is m h
  have hpos : 0 < pathMatchLen path m.path := by
    rw [← hlen]
    refine pos_of_ne_zero fun h0 => ?_
    rw [hfound.none_iff.mpr h0] at h
    cases h
  have hwhole := pathMatchLen_pos hpos
  rw [pathMatchLen_whole hwhole] at hlen
  refine ⟨⟨hactive, hwhole, before, after, hsplit, ?_, ?_⟩, hlen⟩
  · intro m' hm' hactive' hwhole'
    have hless := hbefore m' hm' hactive'
    rwa [pathMatchLen_whole hwhole', hlen] at hless
  · intro m' hm' hactive' hwhole'
    have hmost := hfound.most m' (by simp [hsplit, hm']) hactive'
    rwa [pathMatchLen_whole hwhole', hlen] at hmost

theorem foldl_better_kept {path : CStr} {best : Option (Mount F) × Nat} {mounts : List (Mount F)}
    (h : ∀ m ∈ mounts, m.active = true → pathMatchLen path m.path ≤ best.2) :
    mounts.foldl (better path) best = best := by
  induction mounts with
  | nil => rfl
  | cons m mounts ih =>
    obtain ⟨hm, hrest⟩ := forall_mem_cons.mp h
    rw [foldl_cons, better, if_neg fun hb => not_lt.mpr (hm hb.1) hb.2, ih hrest]

/-- A mount that does not match counts as one of length 0. -/
theorem pathMatchLen_le {path : CStr} {m : Mount F} {n : Nat}
    (h : WholePrefix m.path path → m.path.bytes.length ≤ n) : pathMatchLen path m.path ≤ n := by
  rcases Nat.eq_zero_or_pos (pathMatchLen path m.path) with h0 | hpos
  · omega
  · rw [pathMatchLen_whole (pathMatchLen_pos hpos)]
    exact h (pathMatchLen_pos hpos)

theorem longest_iff {mounts : List (Mount F)} {path : CStr}
    (hproper : ∀ m ∈ mounts, m.active = true → m.Proper) (m : Mount F) :
    Longest mounts path m ↔ (vfsResolveMount mounts path).1 = some m := by
  refine ⟨fun h => ?_, fun h => (resolve_longest h).1⟩
  obtain ⟨hactive, hwhole, before, after, rfl, hbefore, hafter⟩ := h
  have hlen := pathMatchLen_whole hwhole
  have hless : (vfsResolveMount before path).2 < pathMatchLen path m.path := by
    rw [hlen]
    cases hbest : (vfsResolveMount before path).1 with
    | none =>
      rw [(found_resolve before path).none_iff.mp hbest, length_pos_iff]
      intro hnil
      have habs := (hproper m (by simp) hactive).absolute
      rw [hnil] at habs
      cases habs
    | some m' =>
      obtain ⟨⟨hactive', hwhole', _, _, rfl, -⟩, hlen'⟩ := resolve_longest hbest
      rw [hlen']
      exact hbefore m' (by simp) hactive' hwhole'
  unfold vfsResolveMount at hless ⊢
  rw [foldl_append, foldl_cons, better, if_pos ⟨hactive, hless⟩, foldl_better_kept]
  intro m' hm' hactive'
  rw [hlen]
  exact pathMatchLen_le (hafter m' hm' hactive')

theorem vfsOpen_none_iff (f : Files) : (vfsOpen f).2 = none ↔ ∀ v, f.inos v ≠ 0 := by
  unfold vfsOpen
  cases hfind : Fin.find? fun v => f.inos v == 0 with
  | none =>
    rw [Fin.find?_eq_none_iff] at hfind
    exact iff_of_true rfl fun v hv => by simpa [hv] using hfind v
  | some v =>
    refine iff_of_false (by simp) fun h => h v ?_
    simpa using Fin.eq_true_of_find?_eq_some hfind

/-- `vfs_open` opens the file in the file system of the longest mount path, which is given the
rest of the path as far as a vnode holds it, and fails without such a mount, without operations
of its file system or without a free vnode. -/
theorem vfs_open_longest_mount (mounts : List (Mount F)) (f : Files) (path : CStr)
    (hproper : ∀ m ∈ mounts, m.active = true → m.Proper) :
    (∀ vn, (vfsOpenPath mounts f path).2 = some vn → ∃ m, Longest mounts path m ∧
      m.fs = some vn.fs ∧
      vn.path = (dropSlash (path.bytes.drop m.path.bytes.length)).take (vfsPathMax - 1)) ∧
    ((vfsOpenPath mounts f path).2 = none ↔ (∀ m, ¬Longest mounts path m) ∨
      (∃ m, Longest mounts path m ∧ m.fs = none) ∨ ∀ v, f.inos v ≠ 0) := by
  simp only [longest_iff hproper, ← vfsOpen_none_iff f]
  cases hbest : (vfsResolveMount mounts path).1 with
  | none => simp [vfsOpenPath, hbest]
  | some m =>
    have hlen := (resolve_longest hbest).2
    cases hfs : m.fs with
    | none => simp [vfsOpenPath, hbest, hfs]
    | some fs =>
      rcases hv : vfsOpen f with ⟨f', _ | v⟩
      · simp [vfsOpenPath, hbest, hfs, hv]
      · have hopen : vfsOpenPath mounts f path = (f', some ⟨v, fs,
            (dropSlash (path.bytes.drop m.path.bytes.length)).take (vfsPathMax - 1)⟩) := by
          simp only [vfsOpenPath, hbest, bind_some, hfs, hv, hlen]
        rw [hopen]
        refine ⟨fun vn hvn => ?_, iff_of_false (by simp) (by simp [hfs])⟩
        cases hvn
        exact ⟨m, rfl, hfs, rfl⟩

end

def mountAt (path : String) (n : Nat) : Mount Nat := ⟨cstr path, some n, true⟩

def noFiles : Files := ⟨fun _ _ => .zero, fun _ => 0, 1⟩

def twoMounts : List (Mount Nat) := [mountAt "/mnt/a" 2, mountAt "/mnt" 1]

theorem mounts_resolved :
    (∃ vn m, (vfsOpenPath (twoMounts ++ [mountAt "/" 0]) noFiles (cstr "/mnt/ab")).2 = some vn ∧
      Longest (twoMounts ++ [mountAt "/" 0]) (cstr "/mnt/ab") m ∧ m.fs = some vn.fs ∧ vn.fs = 1) ∧
    (vfsOpenPath twoMounts noFiles (cstr "/mnta")).2 = none := by
  have hproper : ∀ m ∈ twoMounts ++ [mountAt "/" 0], m.active = true → m.Proper := by
    simp only [twoMounts, cons_append, nil_append, forall_mem_cons]
    exact ⟨fun _ => ⟨by decide, .inr (by decide)⟩, fun _ => ⟨by decide, .inr (by decide)⟩,
      fun _ => ⟨by decide, .inl (by decide)⟩, forall_mem_nil _⟩
  have hopen : ((vfsOpenPath (twoMounts ++ [mountAt "/" 0]) noFiles
      (cstr "/mnt/ab")).2.map Vnode.fs) = some 1 := by decide +kernel
  obtain ⟨vn, hvn, hfs⟩ := map_eq_some_iff.mp hopen
  obtain ⟨m, hm, hmfs, -⟩ := (vfs_open_longest_mount _ noFiles _ hproper).1 vn hvn
  refine ⟨⟨vn, m, hvn, hm, hmfs, hfs⟩, ?_⟩
  have hproper' : ∀ m ∈ twoMounts, m.active = true → m.Proper :=
    fun m hm => hproper m (mem_append_left _ hm)
  refine (vfs_open_longest_mount _ noFiles _ hproper').2.mpr (.inl fun m hm => ?_)
  have hnone : (vfsResolveMount twoMounts (cstr "/mnta")).1.isSome = false := by decide +kernel
  rw [(longest_iff hproper' m).mp hm] at hnone
  cases hnone

/-- A file system without operations. -/
def bareMount : Mount Nat := ⟨cstr "/", none, true⟩

def longPath : CStr := ofBytes (47 :: replicate 256 97)

/-- The rest of a long path is cut, and a mount without operations opens nothing. -/
theorem long_rest_cut : (∃ vn, (vfsOpenPath [mountAt "/" 0] noFiles longPath).2 = some vn ∧
      vn.path ≠ dropSlash (longPath.bytes.drop (mountAt "/" 0).path.bytes.length)) ∧
    Longest [bareMount] (cstr "/a") bareMount ∧
      (vfsOpenPath [bareMount] noFiles (cstr "/a")).2 = none := by
  have hopen : ((vfsOpenPath [mountAt "/" 0] noFiles longPath).2.map fun vn => vn.path.length) =
      some 255 := by decide +kernel
  have hrest : (dropSlash (longPath.bytes.drop (mountAt "/" 0).path.bytes.length)).length = 256 := by
    decide +kernel
  obtain ⟨vn, hvn, hlen⟩ := map_eq_some_iff.mp hopen
  refine ⟨⟨vn, hvn, fun heq => ?_⟩, (resolve_longest rfl).1, rfl⟩
  rw [heq, hrest] at hlen
  cases hlen

end AegisOS.Vfs
