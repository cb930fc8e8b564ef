import AegisOS.AegisFsSpec

/-! The space AegisFS uses: every write takes fresh sectors and none is ever given back. -/
namespace AegisOS.AegisFs
open ByteStore SectorWrites BlockStorage CString List Nat Function

def AllSucceed (s : Sys) : List Call → Prop
  | [] => True
  | c :: cs => (c.perform s).1 = c.len ∧ AllSucceed (c.after s) cs

def entryFor (fs : Fs) (path : CStr) : Entry :=
  match findEntry fs path with
  | some i => fs.entries i
  | none => .zero

def copySectors (fs : Fs) (c : Call) : Nat :=
  sectorsOf (newSize (entryFor fs c.path) c.offset c.len)

def copiesOf (s : Sys) : List Call → Nat
  | [] => 0
  | c :: cs => copySectors s.fs c + copiesOf (c.after s) cs

/-- The sectors of the live files other than the one at a path. -/
def otherSectors (fs : Fs) (path : CStr) : Nat :=
  ((finRange aegisfsMaxFiles).map fun i =>
    if (fs.entries i).valid ≠ 0 ∧ (fs.entries i).names (stripSlashes path) = false then
      sectorsOf (fs.entries i).size.toNat
    else 0).sum

/-- The call writes bytes to a name, and the live files after it fit the data sectors together
with one spare copy of the file. -/
structure FitsWithSpare (fs : Fs) (c : Call) : Prop where
  bytes : c.len ≠ 0
  name : (stripSlashes c.path).bytes ≠ []
  sectors : otherSectors fs c.path + copySectors fs c + copySectors fs c ≤
    fs.part.blockCount - aegisfsDataLba

/-- The file stays small, has an entry or gets one, and the partition holds the new copy beside
every copy made before. -/
def HistoryFits (s : Sys) (cs : List Call) (t : Sys) (c : Call) : Prop :=
  (c.offset + c.len) % 2 ^ 64 ≤ aegisfsMaxFileBytes ∧
    (findEntry t.fs c.path = none → ∃ i, (t.fs.entries i).valid = 0) ∧
    (aegisfsDataLba + copiesOf s cs + copySectors t.fs c) % 2 ^ 64 ≤ s.fs.part.blockCount

section
variable {fs : Fs} {dev : Device} {i : Fin aegisfsMaxFiles} {offset len : Nat} {buf : Store}

theorem persistMetadata_keeps (fs : Fs) (dev : Device) :
    (persistMetadata fs dev).2.1.part = fs.part ∧
      (persistMetadata fs dev).2.1.writable = fs.writable ∧
      (persistMetadata fs dev).2.1.sb.nextFreeLba = fs.sb.nextFreeLba ∧
      (persistMetadata fs dev).2.1.sb.fileCount = fs.sb.fileCount := by
  unfold persistMetadata
  split
  · exact ⟨rfl, rfl, rfl, rfl⟩
  dsimp only
  split
  · exact ⟨rfl, rfl, rfl, rfl⟩
  · split <;> exact ⟨rfl, rfl, rfl, rfl⟩

theorem persistMetadata_code (fs : Fs) (dev : Device) :
    (persistMetadata fs dev).1 ≠ aegisEnospc := by
  have heinval : aegisEinval ≠ aegisEnospc := by decide
  unfold persistMetadata
  split
  · exact (by decide : aegisEshutdown ≠ aegisEnospc)
  dsimp only
  split
  next rc hrc =>
    rw [blockPartitionWrite_error hrc]
    exact heinval
  split
  next rc hrc =>
    rw [blockPartitionWrite_error hrc]
    exact heinval
  · exact (by decide : aegisOk ≠ aegisEnospc)

theorem buildImage_error {rc : Int} {e : Entry} (h : buildImage fs dev e offset buf len = .error rc) :
    rc = aegisEinval := by
  unfold buildImage at h
  dsimp only at h
  split at h
  · cases h
  split at h
  next rc' hrc =>
    cases h
    unfold blockPartitionRead blockStorageRead at hrc
    split_ifs at hrc <;> cases hrc <;> rfl
  · cases h

theorem writeEntry_next (h : 0 ≤ (writeEntry fs dev i offset buf len).1) :
    (writeEntry fs dev i offset buf len).2.1.part = fs.part ∧
      (writeEntry fs dev i offset buf len).2.1.writable = fs.writable ∧
      (writeEntry fs dev i offset buf len).2.1.sb.nextFreeLba.toNat =
        fs.sb.nextFreeLba.toNat + sectorsOf (newSize (fs.entries i) offset len) := by
  simp only [writeEntry] at h ⊢
  split at h
  · exact absurd h (by decide : ¬(0 : Int) ≤ aegisEnospc)
  rename_i hroom
  rw [if_neg hroom]
  cases hbuild : buildImage fs dev (fs.entries i) offset buf len with
  | error rc =>
    simp only [hbuild, buildImage_error hbuild] at h
    exact absurd h (by decide)
  | ok image =>
    simp only [hbuild] at h ⊢
    cases hwrite : blockPartitionWrite fs.part dev fs.sb.nextFreeLba.toNat
        (sectorsOf (newSize (fs.entries i) offset len)) image with
    | error rc =>
      simp only [hwrite, blockPartitionWrite_error hwrite] at h
      exact absurd h (by decide)
    | ok data =>
      obtain ⟨hpart, hw, hnext, -⟩ := persistMetadata_keeps
        (relocate fs i (newSize (fs.entries i) offset len) image) dev
      have hbound := (blockPartitionWrite_bounds hwrite).2.1
      have hinside := fs.part.inside
      have hbounded := fs.part.bounded
      refine ⟨hpart, hw, ?_⟩
      rw [hnext]
      change (fs.sb.nextFreeLba + .ofNat _).toNat = _
      rw [UInt64.toNat_add, UInt64.toNat_ofNat', mod_eq_of_lt (a := sectorsOf _) (by omega),
        mod_eq_of_lt (by omega)]

theorem writeEntry_enospc : (writeEntry fs dev i offset buf len).1 = aegisEnospc ↔
    fs.part.blockCount <
      (fs.sb.nextFreeLba.toNat + sectorsOf (newSize (fs.entries i) offset len)) % 2 ^ 64 := by
  simp only [writeEntry]
  split
  next hfull => exact iff_of_true rfl hfull
  rename_i hroom
  refine iff_of_false ?_ hroom
  cases hbuild : buildImage fs dev (fs.entries i) offset buf len with
  | error rc =>
    simp only [buildImage_error hbuild]
    decide
  | ok image =>
    dsimp only
    cases hwrite : blockPartitionWrite fs.part dev fs.sb.nextFreeLba.toNat
        (sectorsOf (newSize (fs.entries i) offset len)) image with
    | error rc =>
      simp only [blockPartitionWrite_error hwrite]
      decide
    | ok data =>
      dsimp only
      split
      · unfold aegisEnospc
        omega
      · exact persistMetadata_code _ dev

end

section
variable {s : Sys} {c : Call}

theorem entryFor_found {fs : Fs} {path : CStr} {i : Fin aegisfsMaxFiles}
    (h : findEntry fs path = some i) : entryFor fs path = fs.entries i := by
  rw [entryFor, h]

theorem entryFor_new {fs : Fs} {path : CStr} (h : findEntry fs path = none) :
    entryFor fs path = .zero := by
  rw [entryFor, h]

theorem findEntry_strip (fs : Fs) (path : CStr) :
    findEntry fs (stripSlashes path) = findEntry fs path := by
  rw [findEntry, stripSlashes_idem, findEntry]

theorem created_newSize_zero (fs : Fs) (i : Fin aegisfsMaxFiles) (name : CStr) (offset len : Nat) :
    newSize ((created fs i name).entries i) offset len = newSize .zero offset len := by
  rw [created_entry]
  rfl

variable (hw : s.fs.writable = true)
include hw

theorem perform_cases (hlen : c.len ≠ 0) (hname : (stripSlashes c.path).bytes ≠ [])
    (hmax : (c.offset + c.len) % 2 ^ 64 ≤ aegisfsMaxFileBytes) :
    (∃ i, findEntry s.fs c.path = some i ∧
        c.perform s = writeEntry s.fs s.dev i c.offset c.buf c.len) ∨
      findEntry s.fs c.path = none ∧ ((∀ i, (s.fs.entries i).valid ≠ 0) ∧
          c.perform s = (aegisEnospc, s.fs, []) ∨
        ∃ i, (s.fs.entries i).valid = 0 ∧ c.perform s =
          writeEntry (created s.fs i (stripSlashes c.path)) s.dev i c.offset c.buf c.len) := by
  have hreq : ¬(s.fs.writable = false ∨ c.len = 0) := by simp [hw, hlen]
  have hperform : c.perform s =
      writeNamed s.fs s.dev (stripSlashes c.path) c.offset c.buf c.len := by
    rw [Call.perform, agfsWrite, if_neg hreq, if_neg (not_lt.mpr hmax)]
    exact if_neg hname
  simp only [hperform, writeNamed, findEntry_strip]
  cases hfind : findEntry s.fs c.path with
  | some i => exact .inl ⟨i, rfl, rfl⟩
  | none =>
    refine .inr ⟨rfl, ?_⟩
    rcases allocEntry_cases s.fs (stripSlashes c.path) with halloc | ⟨i, hfree, halloc⟩
    · refine .inl ⟨fun i hi => ?_, by rw [halloc]⟩
      simp only [allocEntry, Option.map_eq_none_iff, find?_eq_none] at halloc
      exact halloc i (mem_finRange i) (by simpa using hi)
    · exact .inr ⟨i, hfree, by rw [halloc]⟩

theorem after_next (h : (c.perform s).1 = c.len) :
    (c.after s).fs.part = s.fs.part ∧ (c.after s).fs.writable = true ∧
      (c.after s).fs.sb.nextFreeLba.toNat = s.fs.sb.nextFreeLba.toNat + copySectors s.fs c := by
  have hneg {rc : Int} (hrc : rc < 0) (heq : (c.perform s).1 = rc) : False := by omega
  by_cases hlen : c.len = 0
  · exact (hneg einval_neg (by rw [Call.perform, agfsWrite, if_pos (.inr hlen)])).elim
  have hreq : ¬(s.fs.writable = false ∨ c.len = 0) := by simp [hw, hlen]
  by_cases hmax : (c.offset + c.len) % 2 ^ 64 ≤ aegisfsMaxFileBytes
  swap
  · exact (hneg (by decide : aegisEnospc < 0) (by
      rw [Call.perform, agfsWrite, if_neg hreq, if_pos (not_le.mp hmax)])).elim
  by_cases hname : (stripSlashes c.path).bytes = []
  · exact (hneg einval_neg (by
      rw [Call.perform, agfsWrite, if_neg hreq, if_neg (not_lt.mpr hmax)]
      simp only [hname, if_true])).elim
  have hnonneg : 0 ≤ (c.perform s).1 := by omega
  have hfs : (c.after s).fs = (c.perform s).2.1 := rfl
  rw [hfs, copySectors]
  rcases perform_cases hw hlen hname hmax with
    ⟨i, hfind, heq⟩ | ⟨hnone, ⟨-, heq⟩ | ⟨i, -, heq⟩⟩
  · rw [heq] at hnonneg ⊢
    obtain ⟨hpart, hw', hnext⟩ := writeEntry_next hnonneg
    exact ⟨hpart, hw'.trans hw, by rw [hnext, entryFor_found hfind]⟩
  · exact (hneg (by decide : aegisEnospc < 0) (by rw [heq])).elim
  · rw [heq] at hnonneg ⊢
    obtain ⟨hpart, hw', hnext⟩ := writeEntry_next hnonneg
    refine ⟨hpart, hw'.trans hw, ?_⟩
    rw [hnext, created_newSize_zero, entryFor_new hnone]
    rfl

theorem run_next {cs : List Call} (h : AllSucceed s cs) :
    (cs.foldl Call.after s).fs.part = s.fs.part ∧ (cs.foldl Call.after s).fs.writable = true ∧
      (cs.foldl Call.after s).fs.sb.nextFreeLba.toNat =
        s.fs.sb.nextFreeLba.toNat + copiesOf s cs := by
  induction cs generalizing s with
  | nil => exact ⟨rfl, hw, rfl⟩
  | cons c cs ih =>
    obtain ⟨hpart, hw', hnext⟩ := after_next hw h.1
    obtain ⟨hpart', hw'', hnext'⟩ := ih hw' h.2
    exact ⟨hpart'.trans hpart, hw'', by rw [foldl_cons, hnext', copiesOf]; omega⟩

theorem perform_enospc (hlen : c.len ≠ 0) (hname : (stripSlashes c.path).bytes ≠ []) :
    (c.perform s).1 ≠ aegisEnospc ↔ (c.offset + c.len) % 2 ^ 64 ≤ aegisfsMaxFileBytes ∧
        (findEntry s.fs c.path = none → ∃ i, (s.fs.entries i).valid = 0) ∧
        (s.fs.sb.nextFreeLba.toNat + copySectors s.fs c) % 2 ^ 64 ≤ s.fs.part.blockCount := by
  by_cases hmax : (c.offset + c.len) % 2 ^ 64 ≤ aegisfsMaxFileBytes
  swap
  · have hreq : ¬(s.fs.writable = false ∨ c.len = 0) := by simp [hw, hlen]
    refine iff_of_false (fun h => h ?_) fun h => hmax h.1
    rw [Call.perform, agfsWrite, if_neg hreq, if_pos (not_le.mp hmax)]
  rw [and_iff_right hmax, copySectors, ← not_lt (a := s.fs.part.blockCount)]
  rcases perform_cases hw hlen hname hmax with
    ⟨i, hfind, heq⟩ | ⟨hnone, ⟨hfull, heq⟩ | ⟨i, hfree, heq⟩⟩
  · rw [heq, entryFor_found hfind, hfind, ne_eq, writeEntry_enospc]
    exact (and_iff_right fun h => by cases h).symm
  · rw [heq]
    refine iff_of_false (fun h => h rfl) fun h => ?_
    obtain ⟨i, hi⟩ := h.1 hnone
    exact hfull i hi
  · rw [heq, ne_eq, writeEntry_enospc, created_newSize_zero, entryFor_new hnone]
    exact (and_iff_right fun _ => ⟨i, hfree⟩).symm

end

theorem formatted_keeps (part : Partition) (dev : Device) :
    (formatted part dev).fs.part = part ∧ (formatted part dev).fs.writable = true ∧
      (formatted part dev).fs.sb.nextFreeLba.toNat = aegisfsDataLba := by
  obtain ⟨hpart, hw, hnext, -⟩ := persistMetadata_keeps
    ⟨part, .fresh part.blockCount, fun _ => .zero, true⟩ dev
  exact ⟨hpart, hw, by rw [formatted]; exact congrArg UInt64.toNat hnext⟩

/-- After any successful writes, a write whose files fit with a spare copy finds space just when
all the copies ever made fit with the new one. -/
theorem write_finds_space_iff (part : Partition) (dev : Device) (cs : List Call) (c : Call)
    (hcs : AllSucceed (formatted part dev) cs) :
    let t := cs.foldl Call.after (formatted part dev)
    (FitsWithSpare t.fs c → (c.perform t).1 ≠ aegisEnospc) ↔
      (FitsWithSpare t.fs c → HistoryFits (formatted part dev) cs t c) := by
  obtain ⟨hpart, hw, hnext⟩ := formatted_keeps part dev
  obtain ⟨hpart', hw', hnext'⟩ := run_next hw hcs
  refine imp_congr_right fun hfits => ?_
  rw [perform_enospc hw' hfits.bytes hfits.name, hnext', hnext, hpart', HistoryFits]

/-- A partition with two data sectors on a device of its own. -/
def twoSectors : Partition := ⟨0, 19, true, 19, by decide, by decide, by decide⟩

def twoSectorDisk : Device := ⟨19, true, fun _ => 0⟩

def writeByte : Call := ⟨cstr "a", 0, fun _ => 0, 1⟩

theorem second_byte_finds_space :
    (writeByte.perform (writeByte.after (formatted twoSectors twoSectorDisk))).1 ≠ aegisEnospc :=
  (write_finds_space_iff twoSectors twoSectorDisk [writeByte] writeByte
      ⟨by decide +kernel, trivial⟩).mpr
    (fun _ => ⟨by decide +kernel, fun h => absurd h (by decide +kernel), by decide +kernel⟩)
    ⟨by decide, by decide, by decide +kernel⟩

/-- The byte of one file is written for the third time: one live sector and one spare copy fit,
but the two copies made before are not given back. -/
theorem third_byte_without_space :
    let s := formatted twoSectors twoSectorDisk
    let t := [writeByte, writeByte].foldl Call.after s
    AllSucceed s [writeByte, writeByte] ∧ FitsWithSpare t.fs writeByte ∧
      (writeByte.perform t).1 = aegisEnospc :=
  ⟨⟨by decide +kernel, by decide +kernel, trivial⟩,
    ⟨by decide, by decide, by decide +kernel⟩, by decide +kernel⟩

/-! Names in AegisFS: an entry keeps 79 characters of a name, the lookup compares all of it. -/

/-- What is asked of the state after a write: the range reads back, a further write makes no
entry, and the file has no name but the one of the path. -/
structure NameKept (fs : Fs) (dev : Device) (path : CStr) (offset : Nat) (buf : Store)
    (len : Nat) : Prop where
  readBack : agfsRead fs dev path offset len = ((len : Int), readBytes buf 0 len)
  sameEntry : ∀ offset' buf' len',
    (agfsWrite fs dev path offset' buf' len').2.1.sb.fileCount = fs.sb.fileCount
  ownFile : ∀ other i, findEntry fs path = some i → findEntry fs other = some i →
    stripSlashes other = stripSlashes path

section
variable {fs : Fs} {dev : Device} {path : CStr} {offset len : Nat} {i : Fin aegisfsMaxFiles}
  {buf : Store}

theorem writeEntry_fileCount :
    (writeEntry fs dev i offset buf len).2.1.sb.fileCount = fs.sb.fileCount := by
  unfold writeEntry
  dsimp only
  split
  · rfl
  split
  · rfl
  split
  · rfl
  · exact (persistMetadata_keeps _ dev).2.2.2

theorem sameEntry_of_found (hl : findEntry fs path = some i) :
    (agfsWrite fs dev path offset buf len).2.1.sb.fileCount = fs.sb.fileCount := by
  unfold agfsWrite
  dsimp only
  split_ifs
  · rfl
  · rfl
  · rfl
  · rw [writeNamed_found dev hl]
    exact writeEntry_fileCount

theorem findEntry_name {other : CStr} (hl : findEntry fs path = some i)
    (hl' : findEntry fs other = some i) : stripSlashes other = stripSlashes path :=
  (lookup_names hl').2.symm.trans (lookup_names hl).2

theorem agfsRead_missing (hl : findEntry fs path = none) :
    agfsRead fs dev path offset len = (aegisEnoent, []) := by
  simp only [agfsRead, hl]

theorem agfsRead_far (hoff : 2 ^ 32 ≤ offset) : (agfsRead fs dev path offset len).1 ≤ 0 := by
  cases hl : findEntry fs path with
  | none =>
    rw [agfsRead_missing hl]
    exact (by decide : aegisEnoent ≤ 0)
  | some i =>
    have hsize := (fs.entries i).size.toNat_lt
    simp only [agfsRead, hl, if_pos (le_trans (le_of_lt hsize) hoff), le_refl]

section
variable (hs : Sound fs dev) (hl : findEntry fs path = some i) (hlen : 0 < len)
  (hmax : offset + len ≤ aegisfsMaxFileBytes) (hfit : Fits fs i offset len)
include hs hl hlen hmax hfit

theorem written_readBack :
    agfsRead (written fs dev i offset buf len) (dev.issue (allWrites fs dev i offset buf len))
        path offset len =
      ((len : Int), readBytes buf 0 len) := by
  have he := hs.entries i (lookup_names hl).1
  have hsize := written_size he hmax buf
  have hnew := newSize_eq (e := fs.entries i) hmax
  have hsectors := le_sectorsOf (newSize_small he.small hmax)
  have hl' : findEntry (written fs dev i offset buf len) path = some i :=
    (written_lookup buf _).trans hl
  rw [agfsRead_inside (written_sound hs he hmax hfit buf) hl' (by omega) (.inl hlen),
    Nat.min_eq_left (by omega)]
  congr 1
  refine readBytes_congr fun x hx => ?_
  rw [extentAddr, written_startLba, Nat.add_assoc]
  refine (medium_new hs i offset buf len (by omega)).trans ?_
  rw [newImage, blit_inside (by omega) (by omega), Nat.add_sub_cancel_left, Nat.zero_add]

theorem written_nameKept :
    NameKept (written fs dev i offset buf len) (dev.issue (allWrites fs dev i offset buf len))
      path offset buf len := by
  have hl' : findEntry (written fs dev i offset buf len) path = some i :=
    (written_lookup buf _).trans hl
  exact ⟨written_readBack hs hl hlen hmax hfit, fun _ _ _ => sameEntry_of_found hl',
    fun _ _ h h' => findEntry_name h h'⟩

end

theorem created_missing (hnone : fs.entries.lookup (stripSlashes path) = none)
    (hlong : aegisfsNameMax ≤ (stripSlashes path).bytes.length) :
    (created fs i (stripSlashes path)).entries.lookup (stripSlashes path) = none := by
  refine lookup_none.mpr fun j => ?_
  rw [created_entries]
  by_cases hj : j = i
  · subst hj
    rw [update_self, ← Bool.not_eq_true, names_iff]
    rintro ⟨-, heq⟩
    have hcut := congrArg (fun s : CStr => s.bytes.length) heq
    rw [Entry.named, ofBytes_field] at hcut
    have hshort := (strcopy (n := 79) (stripSlashes path)).fits
    unfold aegisfsNameMax at hlong
    omega
  · rw [update_of_ne hj]
    exact lookup_none.mp hnone j

end

/-- After a write that returned its length the name is kept just when the range does not wrap
and the name is short enough for an entry, or was in the directory before. -/
theorem name_kept_iff (fs : Fs) (dev : Device) (path : CStr) (offset : Nat) (buf : Store)
    (len : Nat) (hs : Sound fs dev) (hint : len < 2 ^ 31)
    (hret : (agfsWrite fs dev path offset buf len).1 = len) :
    NameKept (agfsWrite fs dev path offset buf len).2.1
        (dev.issue (agfsWrite fs dev path offset buf len).2.2) path offset buf len ↔
      offset + len < 2 ^ 64 ∧
        ((stripSlashes path).bytes.length < aegisfsNameMax ∨ findEntry fs path ≠ none) := by
  have hlen : 0 < len := by
    refine pos_of_ne_zero fun h => ?_
    rw [agfsWrite, if_pos (.inr h), h] at hret
    exact absurd hret (by decide : aegisEinval ≠ ((0 : Nat) : Int))
  by_cases hwrap : offset + len < 2 ^ 64
  swap
  · refine iff_of_false (fun h => ?_) fun h => hwrap h.1
    have hfar := le_of_eq_of_le (congrArg Prod.fst h.readBack).symm (agfsRead_far (by omega))
    omega
  rw [and_iff_right hwrap]
  have hout := agfsWrite_outcome path hs hwrap buf
  generalize agfsWrite fs dev path offset buf len = r at hret hout ⊢
  cases hout with
  | refused | noRoomForNew => exact absurd hret (by dsimp only; omega)
  | rewritten hl hin hfit =>
    refine iff_of_true (written_nameKept hs hl hlen hin.small hfit) (.inr ?_)
    rw [findEntry, hl]
    exact Option.some_ne_none _
  | @fresh i hnone hfree hin hfit =>
    by_cases hshort : (stripSlashes path).bytes.length < aegisfsNameMax
    · have hl : findEntry (created fs i (stripSlashes path)) path = some i :=
        lookup_update_new hnone ((named_names ⟨hin.named, hshort⟩).mpr rfl)
      exact iff_of_true (written_nameKept (created_sound hs i _) hl hlen hin.small hfit) (.inl hshort)
    refine iff_of_false (fun h => ?_) fun h => h.elim hshort fun h => h hnone
    have hl : findEntry (written (created fs i (stripSlashes path)) dev i offset buf len) path =
        none :=
      (written_lookup buf _).trans (created_missing hnone (not_lt.mp hshort))
    have hread := h.readBack
    rw [agfsRead_missing hl] at hread
    exact absurd (congrArg Prod.fst hread) (by
      have : aegisEnoent < 0 := by decide
      omega)

theorem short_name_kept :
    let s := formatted twoSectors twoSectorDisk
    let r := agfsWrite s.fs s.dev (cstr "a") 0 (fun _ => 7) 1
    NameKept r.2.1 (s.dev.issue r.2.2) (cstr "a") 0 (fun _ => 7) 1 :=
  (name_kept_iff _ _ _ _ _ _ (formatted_sound ⟨rfl, rfl, rfl⟩ (by decide)) (by decide)
    (by decide +kernel)).mpr ⟨by decide, .inl (by decide +kernel)⟩

def longName : CStr := ofBytes (replicate 80 97)

/-- A file with a name of 80 characters is written and cannot be read. -/
theorem long_name_lost :
    let s := formatted twoSectors twoSectorDisk
    let r := agfsWrite s.fs s.dev longName 0 (fun _ => 7) 1
    Sound s.fs s.dev ∧ r.1 = 1 ∧ ¬NameKept r.2.1 (s.dev.issue r.2.2) longName 0 (fun _ => 7) 1 := by
  refine ⟨formatted_sound ⟨rfl, rfl, rfl⟩ (by decide), by decide +kernel, fun h => ?_⟩
  have hmissing : (agfsRead (agfsWrite (formatted twoSectors twoSectorDisk).fs
      (formatted twoSectors twoSectorDisk).dev longName 0 (fun _ => 7) 1).2.1
      ((formatted twoSectors twoSectorDisk).dev.issue (agfsWrite
        (formatted twoSectors twoSectorDisk).fs (formatted twoSectors twoSectorDisk).dev longName 0
        (fun _ => 7) 1).2.2) longName 0 1).1 = aegisEnoent := by
    decide +kernel
  rw [h.readBack] at hmissing
  exact absurd hmissing (by decide)

end AegisOS.AegisFs
