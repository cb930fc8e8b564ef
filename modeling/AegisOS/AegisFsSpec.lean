import Mathlib.Data.List.DropRight
import AegisOS.AegisFs
import AegisOS.Lib.GuardedRun

/-! AegisFS as a map from names to byte strings: the abstract map, what the files of a
mounted file system are, and how lookup, allocation and writes act on them. -/
namespace AegisOS.AegisFs
open ByteStore SectorWrites BlockStorage CString Function List Option Nat

/-- The abstract file system. -/
abbrev FileMap := CStr → Option (List UInt8)

/-- Old contents with the bytes from `offset` on replaced; a gap reads as zeros. -/
def splice (old : List UInt8) (offset : Nat) (data : List UInt8) : List UInt8 :=
  readBytes (blit (ofList old) offset data.length (ofList data)) 0
    (max old.length (offset + data.length))

def contents (fs : Fs) (dev : Device) : FileMap :=
  fun name => (fs.entries.lookup name).map fun i => fileBytes fs.part dev (fs.entries i)

/-! Lookup. -/

section
variable {e : Entry} {name other path : CStr} {d : Directory} {i : Fin aegisfsMaxFiles} {fs : Fs}
  {dev : Device} {offset len : Nat}

theorem names_iff : e.names name = true ↔ e.valid ≠ 0 ∧ ofBytes e.name.val = name := by
  simp [Entry.names]

theorem lookup_names
    (h : d.lookup name = some i) : (d i).valid ≠ 0 ∧ ofBytes (d i).name.val = name :=
  names_iff.mp (find?_some (p := fun i => (d i).names name) h)

theorem lookup_none : d.lookup name = none ↔ ∀ i, (d i).names name = false := by
  simp [Directory.lookup]

theorem lookup_congr {d' : Directory}
    (h : ∀ i, (d' i).names name = (d i).names name) : d'.lookup name = d.lookup name := by
  unfold Directory.lookup
  simp only [h]

theorem lookup_update_same (h : e.names name = (d i).names name) :
    Directory.lookup (update d i e) name = d.lookup name := by
  refine lookup_congr fun j => ?_
  by_cases hj : j = i
  · subst hj
    rw [update_self, h]
  · rw [update_of_ne hj]

theorem lookup_update_new (hnone : d.lookup name = none) (h : e.names name = true) :
    Directory.lookup (update d i e) name = some i := by
  have hothers := lookup_none.mp hnone
  cases hfind : Directory.lookup (update d i e) name with
  | none =>
    have := lookup_none.mp hfind i
    simp [h] at this
  | some j =>
    have hj := names_iff.mpr (lookup_names hfind)
    by_cases hji : j = i
    · rw [hji]
    · rw [update_of_ne hji, hothers j] at hj
      simp at hj

/-! A new entry. -/

/-- `fs` with the entry `i` taken for `name`. -/
def created (fs : Fs) (i : Fin aegisfsMaxFiles) (name : CStr) : Fs :=
  { fs with
    entries := update fs.entries i (.named name)
    sb := { fs.sb with fileCount := fs.sb.fileCount + 1 } }

@[simp] theorem created_entries (fs : Fs) (i : Fin aegisfsMaxFiles) (name : CStr) :
    (created fs i name).entries = update fs.entries i (.named name) := rfl

theorem allocEntry_cases (fs : Fs) (name : CStr) : allocEntry fs name = none ∨
      ∃ i, (fs.entries i).valid = 0 ∧ allocEntry fs name = some (created fs i name, i) := by
  unfold allocEntry
  cases h : (finRange aegisfsMaxFiles).find? fun i => (fs.entries i).valid = 0 with
  | none => exact .inl rfl
  | some i => exact .inr ⟨i, by simpa using find?_some h, rfl⟩

theorem allocEntry_first (h : (fs.entries 0).valid = 0) (name : CStr) :
    allocEntry fs name = some (created fs 0 name, 0) := by
  have hrange : finRange aegisfsMaxFiles = 0 :: (finRange aegisfsMaxFiles).tail := rfl
  rw [allocEntry, hrange, find?_cons_of_pos (by simp [h])]
  rfl

structure Named (name : CStr) : Prop where
  nonempty : name.bytes ≠ []
  short : name.bytes.length < aegisfsNameMax

theorem named_names (h : Named name) : (Entry.named name).names other = true ↔ name = other := by
  have hfield : ofBytes (Entry.named name).name.val = name := by
    rw [Entry.named, ofBytes_field]
    ext1
    exact take_of_length_le (le_of_lt_succ h.short)
  rw [names_iff, hfield]
  simp [Entry.named]

theorem named_names_ne (h : Named name) (hne : other ≠ name) :
    (Entry.named name).names other = false := by
  rw [← Bool.not_eq_true, named_names h]
  exact fun heq => hne heq.symm

theorem created_sound (hs : Sound fs dev) (i : Fin aegisfsMaxFiles)
    (name : CStr) : Sound (created fs i name) dev := by
  refine ⟨hs.hosts, hs.writable, hs.dataStart, hs.room, fun j hj => ?_⟩
  by_cases h : j = i
  · subst h
    have hsize : (Entry.named name).size.toNat = 0 := rfl
    have hsectors : sectorsOf (Entry.named name).size.toNat = 0 := by simp [sectorsOf, hsize]
    exact ⟨by simp [hsize], by simp [hsize], by simp [hsize], by simp [hsectors]⟩
  · rw [created_entries, update_of_ne h] at hj ⊢
    have he := hs.entries j hj
    exact ⟨he.small, he.dataArea, he.allocated, he.padded⟩

theorem created_entry (fs : Fs) (i : Fin aegisfsMaxFiles) (name : CStr) :
    (created fs i name).entries i = Entry.named name := by
  rw [created_entries, update_self]

theorem created_newSize (fs : Fs) (i : Fin aegisfsMaxFiles) (name : CStr)
    (hmax : offset + len ≤ aegisfsMaxFileBytes) :
    newSize ((created fs i name).entries i) offset len = offset + len := by
  rw [newSize_eq hmax, created_entry]
  exact zero_max _

theorem contents_created (hname : Named name) (hfree : (fs.entries i).valid = 0)
    (hnone : fs.entries.lookup name = none) :
    contents (created fs i name) dev = update (contents fs dev) name (some []) := by
  funext other
  by_cases h : other = name
  · subst h
    have hl := lookup_update_new (i := i) hnone ((named_names hname).mpr rfl)
    rw [update_self, contents, created_entries, hl, map_some, update_self]
    rfl
  have hold : (fs.entries i).names other = false := by simp [Entry.names, hfree]
  have hnew := named_names_ne hname h
  have hl := lookup_update_same (d := fs.entries) (i := i) (hnew.trans hold.symm)
  rw [update_of_ne h, contents, contents, created_entries, hl]
  cases hfind : fs.entries.lookup other with
  | none => rw [map_none, map_none]
  | some j =>
    have hj : j ≠ i := by
      rintro rfl
      exact (lookup_names hfind).1 hfree
    rw [map_some, map_some, update_of_ne hj]
    rfl

/-! A rewritten file. -/

theorem readBytes_splice (m : Store) (base n offset len : Nat) (buf : Store) :
    readBytes (blit (fun x => if x < n then m (base + x) else 0) offset len buf) 0
        (max n (offset + len)) =
      splice (readBytes m base n) offset (readBytes buf 0 len) := by
  rw [splice, length_readBytes, length_readBytes]
  refine readBytes_congr fun x _ => ?_
  rw [zero_add]
  by_cases hin : offset ≤ x ∧ x < offset + len
  · rw [blit_inside hin.1 hin.2, blit_inside hin.1 hin.2]
    simp [ofList, readBytes, getD_eq_getElem?_getD, show x - offset < len by omega]
  rw [blit_outside (by omega), blit_outside (by omega)]
  by_cases hx : x < n
  · simp [ofList, readBytes, getD_eq_getElem?_getD, hx]
  · simp [ofList, getD_eq_getElem?_getD, hx]

section
variable {fs : Fs} {dev : Device} {i : Fin aegisfsMaxFiles} {name : CStr} {offset len : Nat}

theorem written_names (buf : Store) (other : CStr) :
    ((written fs dev i offset buf len).entries i).names other = (fs.entries i).names other := by
  change (update fs.entries i _ i).names other = _
  rw [update_self]
  rfl

theorem written_lookup (buf : Store) (other : CStr) :
    (written fs dev i offset buf len).entries.lookup other = fs.entries.lookup other := by
  refine lookup_congr fun j => ?_
  by_cases h : j = i
  · subst h
    exact written_names buf other
  · rw [written_other h]

theorem contents_written (hs : Sound fs dev) (hl : fs.entries.lookup name = some i)
    (hmax : offset + len ≤ aegisfsMaxFileBytes) (buf : Store) :
    contents (written fs dev i offset buf len) (dev.issue (allWrites fs dev i offset buf len)) =
      update (contents fs dev) name
        (some (splice ((contents fs dev name).getD []) offset (readBytes buf 0 len))) := by
  have hi := lookup_names hl
  have he := hs.entries i hi.1
  funext other
  rw [contents, written_lookup]
  by_cases h : other = name
  · subst h
    rw [update_self, hl, map_some, contents, hl, map_some]
    congr 1
    refine (written_fileBytes hs he hmax buf).trans ?_
    rw [newSize_eq hmax]
    exact readBytes_splice dev.medium (extentAddr fs.part (fs.entries i)) _ offset len buf
  rw [update_of_ne h, contents]
  cases hfind : fs.entries.lookup other with
  | none => rw [map_none, map_none]
  | some j =>
    have hj := lookup_names hfind
    have hji : j ≠ i := by
      rintro rfl
      exact h (hj.2.symm.trans hi.2)
    rw [map_some, map_some, written_other hji]
    exact congrArg some (hs.fileBytes_kept (allWrites_spares fs dev i offset buf len) hj.1)

end

theorem contents_kept {ws : List SectorWrite} (hs : Sound fs dev)
    (h : SparesData fs ws) : contents fs (dev.issue ws) = contents fs dev := by
  funext name
  rw [contents, contents]
  cases hl : fs.entries.lookup name with
  | none => rw [map_none, map_none]
  | some i => rw [map_some, map_some, hs.fileBytes_kept h (lookup_names hl).1]

/-! The whole write. -/

/-- Bytes of a file of at most 64 KiB that has a name. -/
structure InRange (name : CStr) (offset len : Nat) : Prop where
  bytes : 0 < len
  small : offset + len ≤ aegisfsMaxFileBytes
  named : name.bytes ≠ []

/-- What `agfs_write` can do. -/
inductive WriteOutcome (fs : Fs) (dev : Device) (name : CStr) (offset : Nat) (buf : Store)
    (len : Nat) : Int × Fs × List SectorWrite → Prop
  | refused {rc : Int} (hrc : rc < 0) : WriteOutcome fs dev name offset buf len (rc, fs, [])
  | noRoomForNew {rc : Int} {i : Fin aegisfsMaxFiles} (hrc : rc < 0)
      (hnone : fs.entries.lookup name = none) (hfree : (fs.entries i).valid = 0)
      (hin : InRange name offset len) (hfull : ¬ Fits (created fs i name) i offset len) :
      WriteOutcome fs dev name offset buf len (rc, created fs i name, [])
  | rewritten {i : Fin aegisfsMaxFiles} (hl : fs.entries.lookup name = some i)
      (hin : InRange name offset len) (hfit : Fits fs i offset len) :
      WriteOutcome fs dev name offset buf len
        ((len : Int), written fs dev i offset buf len, allWrites fs dev i offset buf len)
  | fresh {i : Fin aegisfsMaxFiles} (hnone : fs.entries.lookup name = none)
      (hfree : (fs.entries i).valid = 0) (hin : InRange name offset len)
      (hfit : Fits (created fs i name) i offset len) :
      WriteOutcome fs dev name offset buf len
        ((len : Int), written (created fs i name) dev i offset buf len,
          allWrites (created fs i name) dev i offset buf len)

theorem stripSlashes_idem (path : CStr) : stripSlashes (stripSlashes path) = stripSlashes path := by
  ext1
  exact dropWhile_idempotent _ _

theorem no_wrap (offset len : UInt32) : offset.toNat + len.toNat < 2 ^ 64 := by
  have := offset.toNat_lt
  have := len.toNat_lt
  omega

theorem agfsWrite_eq (dev : Device) (hw : fs.writable = true)
    (hin : InRange (stripSlashes path) offset len) (buf : Store) :
    agfsWrite fs dev path offset buf len =
      writeNamed fs dev (stripSlashes path) offset buf len := by
  have hsmall := hin.small
  have hsum : (offset + len) % 2 ^ 64 = offset + len := by
    unfold aegisfsMaxFileBytes at hsmall
    exact mod_eq_of_lt (by omega)
  have hreq : ¬ (fs.writable = false ∨ len = 0) := by
    simp [hw, ne_of_gt hin.bytes]
  rw [agfsWrite, if_neg hreq, hsum, if_neg (not_lt.mpr hsmall)]
  exact if_neg hin.named

theorem writeNamed_found (dev : Device)
    (hl : fs.entries.lookup (stripSlashes path) = some i) (offset : Nat) (buf : Store) (len : Nat) :
    writeNamed fs dev (stripSlashes path) offset buf len = writeEntry fs dev i offset buf len := by
  simp only [writeNamed, findEntry, stripSlashes_idem, hl]

theorem writeNamed_new (dev : Device) (hnone : fs.entries.lookup (stripSlashes path) = none)
    (halloc : allocEntry fs (stripSlashes path) = some (created fs i (stripSlashes path), i))
    (offset : Nat) (buf : Store) (len : Nat) :
    writeNamed fs dev (stripSlashes path) offset buf len =
      writeEntry (created fs i (stripSlashes path)) dev i offset buf len := by
  simp only [writeNamed, findEntry, stripSlashes_idem, hnone, halloc]

theorem agfsWrite_outcome (path : CStr) (hs : Sound fs dev) (hwrap : offset + len < 2 ^ 64) (buf : Store) :
    WriteOutcome fs dev (stripSlashes path) offset buf len
      (agfsWrite fs dev path offset buf len) := by
  by_cases hin : InRange (stripSlashes path) offset len
  swap
  · rw [agfsWrite, mod_eq_of_lt hwrap]
    dsimp only
    split_ifs with hreq hbig hempty
    · exact .refused (by decide)
    · exact .refused (by decide)
    · exact .refused (by decide)
    · exact absurd ⟨pos_of_ne_zero fun h => hreq (.inr h), not_lt.mp hbig, hempty⟩ hin
  have hpos := hin.bytes
  have hmax := hin.small
  rw [agfsWrite_eq dev hs.writable hin]
  cases hl : fs.entries.lookup (stripSlashes path) with
  | some i =>
    have he := hs.entries i (lookup_names hl).1
    rw [writeNamed_found dev hl]
    by_cases hfit : Fits fs i offset len
    · rw [writeEntry_fits hs he hpos hmax hfit]
      exact .rewritten hl hin hfit
    · obtain ⟨rc, hrc, heq⟩ := writeEntry_full hs he hfit buf
      rw [heq]
      exact .refused hrc
  | none =>
    rcases allocEntry_cases fs (stripSlashes path) with halloc | ⟨i, hfree, halloc⟩
    · simp only [writeNamed, findEntry, stripSlashes_idem, hl, halloc]
      exact .refused (by decide)
    have hs' := created_sound hs i (stripSlashes path)
    have he := hs'.entries i (by simp [Entry.named])
    rw [writeNamed_new dev hl halloc]
    by_cases hfit : Fits (created fs i (stripSlashes path)) i offset len
    · rw [writeEntry_fits hs' he hpos hmax hfit]
      exact .fresh hl hfree hin hfit
    · obtain ⟨rc, hrc, heq⟩ := writeEntry_full hs' he hfit buf
      rw [heq]
      exact .noRoomForNew hrc hl hfree hin hfit

/-! `agfs_write` on a device that may fail: each request to the block layer has an answer of its
own. -/

/-- What the block layer answers to the requests of a write, in their order. -/
structure Answers where
  read : Except Int Store
  data : Int
  directory : Int
  superblock : Int
  flush : Int

/-- `persist_metadata` -/
def persistWith (a : Answers) (fs : Fs) : Int × Fs :=
  if fs.writable = false then (aegisEshutdown, fs)
  else if a.directory ≠ aegisOk then (a.directory, fs.seal)
  else if a.superblock ≠ aegisOk then (a.superblock, fs.seal)
  else (a.flush, fs.seal)

/-- The answer to the write of the file's data; a request for no sectors is refused. -/
def Answers.dataCode (a : Answers) (sectors : Nat) : Int :=
  if sectors = 0 then aegisEinval else a.data

def Answers.oldImage (a : Answers) (e : Entry) : Except Int Store :=
  if e.size = 0 then .ok fun _ => 0 else a.read

def noSpace (fs : Fs) (sectors : Nat) : Prop :=
  fs.part.blockCount < (fs.sb.nextFreeLba.toNat + sectors) % 2 ^ 64

instance (fs : Fs) (sectors : Nat) : Decidable (noSpace fs sectors) := Nat.decLt _ _

def writeEntryWith (a : Answers) (fs : Fs) (i : Fin aegisfsMaxFiles) (offset : Nat) (buf : Store)
    (len : Nat) : Int × Fs :=
  let e := fs.entries i
  let size := newSize e offset len
  let sectors := sectorsOf size
  if noSpace fs sectors then (aegisEnospc, fs)
  else
    match a.oldImage e with
    | .error rc => (rc, fs)
    | .ok image =>
      if a.dataCode sectors ≠ aegisOk then (a.dataCode sectors, fs)
      else
        let r := persistWith a (relocate fs i size (blit image offset len buf))
        (if r.1 = aegisOk then (len : Int) else r.1, r.2)

def Refused (fs : Fs) (path : CStr) (offset len : Nat) : Prop :=
  fs.writable = false ∨ len = 0 ∨ aegisfsMaxFileBytes < (offset + len) % 2 ^ 64 ∨
    (stripSlashes path).bytes = []
  deriving Decidable

def agfsWriteWith (a : Answers) (fs : Fs) (path : CStr) (offset : Nat) (buf : Store) (len : Nat) :
    Int × Fs :=
  if fs.writable = false ∨ len = 0 then (aegisEinval, fs)
  else if aegisfsMaxFileBytes < (offset + len) % 2 ^ 64 then (aegisEnospc, fs)
  else if (stripSlashes path).bytes = [] then (aegisEinval, fs)
  else
    match findEntry fs path with
    | some i => writeEntryWith a fs i offset buf len
    | none =>
      match allocEntry fs (stripSlashes path) with
      | some (fs, i) => writeEntryWith a fs i offset buf len
      | none => (aegisEnospc, fs)

structure Unchanged (fs fs' : Fs) : Prop where
  fileCount : fs'.sb.fileCount = fs.sb.fileCount
  nextFreeLba : fs'.sb.nextFreeLba = fs.sb.nextFreeLba
  valid : ∀ i, (fs'.entries i).valid ≠ 0 ↔ (fs.entries i).valid ≠ 0
  extents : ∀ i, (fs.entries i).valid ≠ 0 → (fs'.entries i).startLba = (fs.entries i).startLba ∧
      (fs'.entries i).sectors = (fs.entries i).sectors ∧
      (fs'.entries i).size = (fs.entries i).size

/-- The write ends before it changes anything: it is refused, no entry is free for a new file, or
the space, the old image or the data of an existing file is missing. -/
def EndsEarly (a : Answers) (fs : Fs) (path : CStr) (offset len : Nat) : Prop :=
  Refused fs path offset len ∨
    match findEntry fs path with
    | none => ∀ i, (fs.entries i).valid ≠ 0
    | some i =>
      let sectors := sectorsOf (newSize (fs.entries i) offset len)
      noSpace fs sectors ∨ (∃ rc, a.oldImage (fs.entries i) = .error rc) ∨
        a.dataCode sectors ≠ aegisOk

section
variable {a : Answers} {fs : Fs} {i : Fin aegisfsMaxFiles} {offset len : Nat} {buf : Store}

theorem unchanged_refl (fs : Fs) : Unchanged fs fs :=
  ⟨rfl, rfl, fun _ => Iff.rfl, fun _ _ => ⟨rfl, rfl, rfl⟩⟩

theorem persistWith_kept (a : Answers) (fs : Fs) :
    (persistWith a fs).2.sb.fileCount = fs.sb.fileCount ∧
      (persistWith a fs).2.sb.nextFreeLba = fs.sb.nextFreeLba := by
  unfold persistWith
  split_ifs <;> exact ⟨rfl, rfl⟩

theorem writeEntryWith_fileCount :
    (writeEntryWith a fs i offset buf len).2.sb.fileCount = fs.sb.fileCount := by
  simp only [writeEntryWith]
  cases a.oldImage (fs.entries i) with
  | error rc => split_ifs <;> rfl
  | ok image =>
    dsimp only
    split_ifs
    · rfl
    · rfl
    · exact (persistWith_kept a _).1
    · exact (persistWith_kept a _).1

theorem writeEntryWith_moves {image : Store}
    (hspace : ¬noSpace fs (sectorsOf (newSize (fs.entries i) offset len)))
    (hold : a.oldImage (fs.entries i) = .ok image)
    (hdata : a.dataCode (sectorsOf (newSize (fs.entries i) offset len)) = aegisOk) :
    (writeEntryWith a fs i offset buf len).2.sb.nextFreeLba ≠ fs.sb.nextFreeLba := by
  have hsectors : sectorsOf (newSize (fs.entries i) offset len) ≠ 0 := by
    intro h0
    rw [Answers.dataCode, if_pos h0] at hdata
    exact absurd hdata (by decide)
  simp only [writeEntryWith, if_neg hspace, hold, hdata, ne_eq, not_true, if_false]
  rw [(persistWith_kept a _).2]
  simp only [relocate]
  generalize hn : sectorsOf (newSize (fs.entries i) offset len) = n at hsectors
  have hlt : n < 2 ^ 32 := by
    rw [← hn, sectorsOf]
    omega
  intro heq
  have hnat := congrArg UInt64.toNat heq
  rw [UInt64.toNat_add, UInt64.toNat_ofNat'] at hnat
  omega

/-- A write, in particular one that fails, changes nothing just when it ends before its first
change. -/
theorem failed_write_unchanged_iff (a : Answers) (fs : Fs) (path : CStr) (offset : Nat)
    (buf : Store) (len : Nat) :
    Unchanged fs (agfsWriteWith a fs path offset buf len).2 ↔ EndsEarly a fs path offset len := by
  by_cases hrefused : Refused fs path offset len
  · have hsame : (agfsWriteWith a fs path offset buf len).2 = fs := by
      unfold agfsWriteWith
      rcases hrefused with h | h | h | h <;> simp only [h, true_or, or_true]
      all_goals split_ifs <;> rfl
    rw [hsame]
    exact iff_of_true (unchanged_refl fs) (.inl hrefused)
  unfold EndsEarly
  rw [or_iff_right hrefused]
  simp only [Refused, not_or] at hrefused
  obtain ⟨hw, hlen, hmax, hname⟩ := hrefused
  rw [agfsWriteWith, if_neg (not_or.mpr ⟨hw, hlen⟩), if_neg hmax, if_neg hname]
  cases hfind : findEntry fs path with
  | some i =>
    dsimp only
    by_cases hspace : noSpace fs (sectorsOf (newSize (fs.entries i) offset len))
    · simp only [writeEntryWith, if_pos hspace]
      exact iff_of_true (unchanged_refl fs) (.inl hspace)
    cases hold : a.oldImage (fs.entries i) with
    | error rc =>
      simp only [writeEntryWith, if_neg hspace, hold]
      exact iff_of_true (unchanged_refl fs) (.inr (.inl ⟨rc, rfl⟩))
    | ok image =>
      by_cases hdata : a.dataCode (sectorsOf (newSize (fs.entries i) offset len)) = aegisOk
      · refine iff_of_false ?_ ?_
        · exact fun h => writeEntryWith_moves hspace hold hdata h.nextFreeLba
        rintro (h | ⟨rc, h⟩ | h)
        · exact hspace h
        · cases h
        · exact h hdata
      · simp only [writeEntryWith, if_neg hspace, hold, if_pos (show _ ≠ _ from hdata)]
        exact iff_of_true (unchanged_refl fs) (.inr (.inr hdata))
  | none =>
    rcases allocEntry_cases fs (stripSlashes path) with halloc | ⟨i, hfree, halloc⟩
    · simp only [halloc]
      refine iff_of_true (unchanged_refl fs) fun i hi => ?_
      simp only [allocEntry, Option.map_eq_none_iff, List.find?_eq_none] at halloc
      exact halloc i (List.mem_finRange i) (by simpa using hi)
    simp only [halloc]
    refine iff_of_false (fun h => ?_) (fun h => h i hfree)
    have hcount := h.fileCount
    rw [writeEntryWith_fileCount, created] at hcount
    have hnat := congrArg UInt32.toNat hcount
    simp only [UInt32.toNat_add, UInt32.reduceToNat] at hnat
    omega

end

/-- A file system without files on a partition with no data sector. -/
def fullFs : Fs :=
  ⟨⟨0, 17, true, 17, by decide, by decide, by decide⟩, .fresh 17, fun _ => .zero, true⟩

def performed : Answers := ⟨.ok fun _ => 0, 0, 0, 0, 0⟩

/-- A new file for which there is no space stays in the directory. -/
theorem file_without_space_left :
    (agfsWriteWith performed fullFs (cstr "a") 0 (fun _ => 0) 1).1 = aegisEnospc ∧
      ¬Unchanged fullFs (agfsWriteWith performed fullFs (cstr "a") 0 (fun _ => 0) 1).2 := by
  refine ⟨by decide +kernel, fun h => ?_⟩
  have hcount : (agfsWriteWith performed fullFs (cstr "a") 0 (fun _ => 0) 1).2.sb.fileCount = 1 := by
    decide +kernel
  exact absurd (hcount.symm.trans h.fileCount) (by decide)

end

/-! Reads of AegisFS, and the refinement: on a backend that performs every request, each
request from a formatted file system acts on the files as it should act on a map from
names to byte strings. -/
open GuardedRun

/-- A path that names a file: 1 to 79 characters once leading slashes are gone. -/
structure Path where
  str : CStr
  named : Named (stripSlashes str)

def Path.name (p : Path) : CStr := stripSlashes p.str

inductive Request
  | write (path : Path) (offset : UInt32) (buf : Store) (len : UInt32)
  | read (path : Path) (offset : UInt32) (len : UInt32)

structure Response where
  rc : Int
  data : List UInt8

/-- How a request acts on a map from names to byte strings. A refused write changes no
contents; it may leave its new name behind as an empty file. -/
inductive SpecStep : FileMap → Request → Response → FileMap → Prop
  | written {m : FileMap} {path : Path} {offset : UInt32} {buf : Store} {len : UInt32} :
      SpecStep m (.write path offset buf len) ⟨len.toNat, []⟩
        (update m path.name
          (some (splice ((m path.name).getD []) offset.toNat (readBytes buf 0 len.toNat))))
  | refused {m : FileMap} {path : Path} {offset : UInt32} {buf : Store} {len : UInt32} {rc : Int}
      (hrc : rc < 0) : SpecStep m (.write path offset buf len) ⟨rc, []⟩ m
  | refusedNew {m : FileMap} {path : Path} {offset : UInt32} {buf : Store} {len : UInt32} {rc : Int}
      (hrc : rc < 0) (hnew : m path.name = none) :
      SpecStep m (.write path offset buf len) ⟨rc, []⟩ (update m path.name (some []))
  | read {m : FileMap} {path : Path} {offset len : UInt32} {c : List UInt8}
      (hfile : m path.name = some c) :
      SpecStep m (.read path offset len)
        ⟨((min len.toNat (c.length - offset.toNat) : Nat) : Int),
          (c.drop offset.toNat).take len.toNat⟩ m
  | missing {m : FileMap} {path : Path} {offset len : UInt32} (hnone : m path.name = none) :
      SpecStep m (.read path offset len) ⟨aegisEnoent, []⟩ m

structure Sys where
  fs : Fs
  dev : Device

def Sys.files (s : Sys) : FileMap := contents s.fs s.dev

/-- One `agfs_write`. -/
structure Call where
  path : CStr
  offset : Nat
  buf : Store
  len : Nat

def Call.perform (c : Call) (s : Sys) : Int × Fs × List SectorWrite :=
  agfsWrite s.fs s.dev c.path c.offset c.buf c.len

def Call.after (s : Sys) (c : Call) : Sys := ⟨(c.perform s).2.1, s.dev.issue (c.perform s).2.2⟩

def Call.name (c : Call) : CStr := stripSlashes c.path

/-- What the file is after the call. -/
def Call.result (c : Call) (m : FileMap) : List UInt8 :=
  splice ((m c.name).getD []) c.offset (readBytes c.buf 0 c.len)

def serve (s : Sys) : Request → Response × Sys
  | .write path offset buf len =>
    let r := agfsWrite s.fs s.dev path.str offset.toNat buf len.toNat
    (⟨r.1, []⟩, ⟨r.2.1, s.dev.issue r.2.2⟩)
  | .read path offset len =>
    let r := agfsRead s.fs s.dev path.str offset.toNat len.toNat
    (⟨r.1, r.2⟩, s)

def step (s : Sys) (r : Request) : Option Sys := some (serve s r).2

/-- The file system `format_fs` leaves. -/
def formatted (part : Partition) (dev : Device) : Sys :=
  let r := formatFs part true dev
  ⟨r.2.1, dev.issue r.2.2⟩

/-- A read of no bytes from a sector boundary inside the file. -/
def ReadsNoSector (s : Sys) : Request → Prop
  | .write _ _ _ _ => False
  | .read path offset len =>
    len = 0 ∧ offset.toNat % 512 = 0 ∧ ∃ c, s.files path.name = some c ∧ offset.toNat < c.length

section
variable {fs : Fs} {dev : Device} {path : CStr} {offset len : Nat} {i : Fin aegisfsMaxFiles}
variable (hs : Sound fs dev) (hl : findEntry fs path = some i)
  (hoff : offset < (fs.entries i).size.toNat)
include hs hl hoff

theorem agfsRead_inside (hsect : 0 < len ∨ offset % 512 ≠ 0) :
    agfsRead fs dev path offset len = (((min len ((fs.entries i).size.toNat - offset) : Nat) : Int),
        readBytes dev.medium (extentAddr fs.part (fs.entries i) + offset)
          (min len ((fs.entries i).size.toNat - offset))) := by
  have he := hs.entries i (lookup_names hl).1
  have hpos : 0 < (fs.entries i).size.toNat := by omega
  have halloc := he.allocated hpos
  have hroom := hs.room
  have hsmall := he.small
  have hsec := sectorsOf_eq hsmall
  unfold aegisfsMaxFileBytes at hsmall
  have hinside := fs.part.inside
  have hbounded := fs.part.bounded
  generalize hsize : (fs.entries i).size.toNat = size at *
  generalize hlba : (fs.entries i).startLba.toNat = lba at *
  have hmin : (if size - offset < len then size - offset else len) = min len (size - offset) := by
    split <;> omega
  generalize hn : min len (size - offset) = n at *
  have hlast : (offset + n + 511) % 2 ^ 64 = offset + n + 511 := mod_eq_of_lt (by omega)
  have hcount : ((offset + n + 511) / 512 - offset / 512) % 2 ^ 32 =
      (offset + n + 511) / 512 - offset / 512 := mod_eq_of_lt (by omega)
  have hlbamod : (lba + offset / 512) % 2 ^ 64 = lba + offset / 512 := mod_eq_of_lt (by omega)
  have hread := blockPartitionRead_ok hs.hosts (r := lba + offset / 512)
    (c := (offset + n + 511) / 512 - offset / 512) (by omega) (by omega) (fun _ => 0)
  simp only [agfsRead, hl, hsize, hlba, if_neg (not_le.mpr hoff), hmin, hlast, hcount, hlbamod,
    if_neg (show ¬ 128 < (offset + n + 511) / 512 - offset / 512 by omega), hread]
  rw [Prod.mk.injEq]
  refine ⟨rfl, readBytes_congr fun x hx => ?_⟩
  have haddr : (fs.part.startLba + (lba + offset / 512)) * 512 + (offset % 512 + x - 0) =
      extentAddr fs.part (fs.entries i) + offset + x := by
    rw [extentAddr]
    omega
  rw [blit_inside (by omega) (by omega), haddr]

theorem agfsRead_noSector (hal : offset % 512 = 0) :
    agfsRead fs dev path offset 0 = (aegisEinval, []) := by
  have he := hs.entries i (lookup_names hl).1
  have hsmall := he.small
  unfold aegisfsMaxFileBytes at hsmall
  have hcount : ((offset + 0 + 511) % 2 ^ 64 / 512 - offset / 512) % 2 ^ 32 = 0 := by
    rw [mod_eq_of_lt (a := offset + 0 + 511) (by omega)]
    have : (offset + 0 + 511) / 512 - offset / 512 = 0 := by omega
    rw [this, zero_mod]
  simp only [agfsRead, hl, if_neg (not_le.mpr hoff), not_lt_zero, if_false, hcount,
    blockPartitionRead_zero]

end

variable {part : Partition} {dev : Device}

section
variable (hd : Hosts dev part)
include hd

theorem formatted_eq (h : aegisfsDataLba ≤ part.blockCount) :
    formatFs part true dev =
      (aegisOk, (Fs.mk part (.fresh part.blockCount) (fun _ => .zero) true).seal,
        metadataWrites (Fs.mk part (.fresh part.blockCount) (fun _ => .zero) true).seal) :=
  persistMetadata_eq _ hd rfl h

theorem formatted_hosts : Hosts (formatted part dev).dev part := hd.issue _

theorem formatted_sound (h : aegisfsDataLba ≤ part.blockCount) :
    Sound (formatted part dev).fs (formatted part dev).dev := by
  rw [formatted, formatted_eq hd h]
  refine ⟨hd.issue _, rfl, le_refl _, h, ?_⟩
  intro i hi
  exact absurd rfl hi

theorem formatted_files (h : aegisfsDataLba ≤ part.blockCount) :
    (formatted part dev).files = fun _ => none := by
  funext name
  rw [Sys.files, formatted, formatted_eq hd h, contents, lookup_none.mpr, map_none]
  intro i
  rfl

end

theorem agfsWrite_first {fs : Fs} (hs : Sound fs dev) {path : CStr}
    (hname : Named (stripSlashes path)) (hnone : fs.entries.lookup (stripSlashes path) = none)
    (hfree : (fs.entries 0).valid = 0) (len : Nat) (hlen : 0 < len)
    (hmax : len ≤ aegisfsMaxFileBytes)
    (hroom : fs.sb.nextFreeLba.toNat + sectorsOf len ≤ fs.part.blockCount) (buf : Store) :
    newSize ((created fs 0 (stripSlashes path)).entries 0) 0 len = len ∧
      agfsWrite fs dev path 0 buf len =
        ((len : Int), written (created fs 0 (stripSlashes path)) dev 0 0 buf len,
          allWrites (created fs 0 (stripSlashes path)) dev 0 0 buf len) := by
  have hs' := created_sound hs 0 (stripSlashes path)
  have hsize : newSize ((created fs 0 (stripSlashes path)).entries 0) 0 len = len := by
    rw [created_newSize fs 0 _ (by omega), zero_add]
  have he := hs'.entries 0 (by simp [Entry.named])
  have hfit : Fits (created fs 0 (stripSlashes path)) 0 0 len := by
    rw [Fits, hsize]
    exact hroom
  refine ⟨hsize, ?_⟩
  rw [agfsWrite_eq dev hs.writable ⟨hlen, by omega, hname.nonempty⟩,
    writeNamed_new dev hnone (allocEntry_first hfree _), writeEntry_fits hs' he hlen (by omega) hfit]

section
variable (hd : Hosts dev part) (h : aegisfsDataLba ≤ part.blockCount)
include hd h

theorem formatted_fs :
    (formatted part dev).fs = (Fs.mk part (.fresh part.blockCount) (fun _ => .zero) true).seal := by
  rw [formatted, formatted_eq hd h]

theorem formatted_next : (formatted part dev).fs.sb.nextFreeLba.toNat = aegisfsDataLba := by
  rw [formatted_fs hd h]
  rfl

theorem formatted_lookup (name : CStr) : (formatted part dev).fs.entries.lookup name = none :=
  lookup_none.mpr fun i => by rw [formatted_fs hd h]; rfl

end

section
variable {s : Sys} {r : Request}

section
variable (hs : Sound s.fs s.dev)
include hs

theorem after_sound {c : Call} (hwrap : c.offset + c.len < 2 ^ 64) :
    Sound (c.after s).fs (c.after s).dev := by
  have hout := agfsWrite_outcome c.path hs hwrap c.buf
  simp only [Call.after, Call.perform]
  generalize agfsWrite s.fs s.dev c.path c.offset c.buf c.len = out at hout
  cases hout with
  | refused _ => exact hs
  | noRoomForNew => exact created_sound hs _ _
  | rewritten hl hin hfit => exact written_sound hs (hs.entries _ (lookup_names hl).1) hin.small hfit _
  | @fresh i _ _ hin hfit =>
    have hs' := created_sound hs i (stripSlashes c.path)
    exact written_sound hs' (hs'.entries i (by simp [Entry.named])) hin.small hfit _

/-- A call with a name that an entry holds writes the file or is refused. -/
theorem after_files {c : Call} (hwrap : c.offset + c.len < 2 ^ 64)
    (hshort : c.name.bytes.length < aegisfsNameMax) :
    (c.perform s).1 = c.len ∧
        (c.after s).files = update s.files c.name (some (c.result s.files)) ∨
      (c.perform s).1 < 0 ∧ ((c.after s).files = s.files ∨
        s.files c.name = none ∧ (c.after s).files = update s.files c.name (some [])) := by
  have hout := agfsWrite_outcome c.path hs hwrap c.buf
  simp only [Call.after, Call.perform, Call.result, Sys.files]
  generalize agfsWrite s.fs s.dev c.path c.offset c.buf c.len = out at hout
  change WriteOutcome _ _ c.name _ _ _ _ at hout
  cases hout with
  | refused hrc => exact .inr ⟨hrc, .inl rfl⟩
  | noRoomForNew hrc hnone hfree hin _ =>
    refine .inr ⟨hrc, .inr ⟨by simp [contents, hnone], ?_⟩⟩
    rw [issue_nil, contents_created ⟨hin.named, hshort⟩ hfree hnone]
  | rewritten hl hin hfit => exact .inl ⟨rfl, contents_written hs hl hin.small _⟩
  | @fresh i hnone hfree hin hfit =>
    have hnamed : Named c.name := ⟨hin.named, hshort⟩
    have hl := lookup_update_new (i := i) hnone ((named_names hnamed).mpr rfl)
    have habsent : contents s.fs s.dev c.name = none := by simp [contents, hnone]
    refine .inl ⟨rfl, ?_⟩
    rw [contents_written (created_sound hs i c.name) hl hin.small,
      contents_created hnamed hfree hnone, update_idem, update_self, habsent]
    rfl

theorem serve_write (path : Path) (offset : UInt32) (buf : Store) (len : UInt32) :
    Sound (serve s (.write path offset buf len)).2.fs (serve s (.write path offset buf len)).2.dev ∧
      SpecStep s.files (.write path offset buf len) (serve s (.write path offset buf len)).1
        (serve s (.write path offset buf len)).2.files := by
  let c : Call := ⟨path.str, offset.toNat, buf, len.toNat⟩
  have hwrap : c.offset + c.len < 2 ^ 64 := no_wrap offset len
  refine ⟨after_sound hs hwrap, ?_⟩
  change SpecStep _ _ ⟨(c.perform s).1, []⟩ (c.after s).files
  rcases after_files hs hwrap path.named.short with ⟨hrc, hfiles⟩ | ⟨hrc, hfiles | ⟨hnone, hfiles⟩⟩
  · rw [hrc, hfiles]
    exact .written
  · rw [hfiles]
    exact .refused hrc
  · rw [hfiles]
    exact .refusedNew hrc hnone

theorem serve_noSector {path : Path} {offset len : UInt32}
    (h : ReadsNoSector s (.read path offset len)) :
    (serve s (.read path offset len)).1 = ⟨aegisEinval, []⟩ := by
  obtain ⟨rfl, hal, c, hfile, hoff⟩ := h
  obtain ⟨i, hl, rfl⟩ := map_eq_some_iff.mp hfile
  rw [fileBytes, length_readBytes] at hoff
  simp only [serve, UInt32.toNat_zero, agfsRead_noSector hs hl hoff hal]

theorem serve_read (path : Path) (offset len : UInt32) :
    SpecStep s.files (.read path offset len) (serve s (.read path offset len)).1 s.files ↔
      ¬ ReadsNoSector s (.read path offset len) := by
  by_cases hno : ReadsNoSector s (.read path offset len)
  · rw [serve_noSector hs hno]
    refine iff_of_false ?_ (not_not.mpr hno)
    intro hbad
    cases hbad
  refine iff_of_true ?_ hno
  cases hl : s.fs.entries.lookup path.name with
  | none =>
    have hfile : s.files path.name = none := by simp [Sys.files, contents, hl]
    have hfind : findEntry s.fs path.str = none := hl
    simp only [serve, agfsRead, hfind]
    exact .missing hfile
  | some i =>
    have hfind : findEntry s.fs path.str = some i := hl
    have hfile : s.files path.name = some (fileBytes s.fs.part s.dev (s.fs.entries i)) := by
      simp [Sys.files, contents, hl]
    have hspec : SpecStep s.files (.read path offset len) _ s.files := .read hfile
    rw [fileBytes, length_readBytes, readBytes_drop, readBytes_take] at hspec
    by_cases hoff : offset.toNat < (s.fs.entries i).size.toNat
    · have hsect : 0 < len.toNat ∨ offset.toNat % 512 ≠ 0 := by
        by_contra hn
        push Not at hn
        have hzero : len = 0 := by
          by_contra h
          exact absurd (toNat_pos h) (by omega)
        exact hno ⟨hzero, hn.2, _, hfile, by simpa [fileBytes] using hoff⟩
      simp only [serve, agfsRead_inside hs hfind hoff hsect]
      exact hspec
    · have hend : (s.fs.entries i).size.toNat - offset.toNat = 0 := by omega
      rw [hend, min_zero] at hspec
      simp only [serve, agfsRead, hfind, if_pos (not_lt.mp hoff)]
      exact hspec

theorem step_sound : Sound (serve s r).2.fs (serve s r).2.dev := by
  cases r with
  | write path offset buf len => exact (serve_write hs path offset buf len).1
  | read path offset len => exact hs

end

theorem run_sound {ok : Sys → Request → Prop} {t : Sys} {rs : List Request}
    (h : Run step ok s rs t) (hs : Sound s.fs s.dev) : Sound t.fs t.dev := by
  refine h.invariant (I := fun s => Sound s.fs s.dev) ?_ hs
  intro s r s' hi _ hstep
  cases hstep
  exact step_sound hi

end

/-- AegisFS refines the map along every run from a formatted partition: each request acts
as the map prescribes, except exactly the reads that come down to no sector. -/
theorem agfs_refines_fileMap {part : Partition} {dev : Device} (hd : Hosts dev part)
    (h : aegisfsDataLba ≤ part.blockCount) {rs : List Request} {s : Sys}
    (hrun : Run step anyEvent (formatted part dev) rs s) (r : Request) :
    (formatted part dev).files = (fun _ => none) ∧
      (SpecStep s.files r (serve s r).1 (serve s r).2.files ↔ ¬ ReadsNoSector s r) := by
  have hs := run_sound hrun (formatted_sound hd h)
  refine ⟨formatted_files hd h, ?_⟩
  cases r with
  | write path offset buf len =>
    exact iff_of_true (serve_write hs path offset buf len).2 (by simp [ReadsNoSector])
  | read path offset len => exact serve_read hs path offset len

/-- The path `a`. -/
def pathA : Path := ⟨cstr "a", ⟨by decide, by decide⟩⟩

def writeA : Request := .write pathA 0 (fun _ => 0) 1

theorem writeA_file {s : Sys} (hs : Sound s.fs s.dev) (hempty : s.files = fun _ => none)
    (hnone : s.fs.entries.lookup pathA.name = none) (hfree : (s.fs.entries 0).valid = 0)
    (hroom : s.fs.sb.nextFreeLba.toNat + sectorsOf 1 ≤ s.fs.part.blockCount) :
    (serve s writeA).2.files pathA.name = some [0] := by
  let c : Call := ⟨pathA.str, 0, fun _ => 0, 1⟩
  obtain ⟨-, hwrite⟩ := agfsWrite_first hs pathA.named hnone hfree 1 (by decide) (by decide)
    hroom fun _ => 0
  have hrc : (c.perform s).1 = 1 := congrArg Prod.fst hwrite
  change (c.after s).files c.name = some [0]
  rcases after_files hs (c := c) (by decide) pathA.named.short with ⟨-, hafter⟩ | ⟨hneg, -⟩
  · rw [hafter, update_self, Call.result, hempty]
    rfl
  · omega

theorem agfs_refines_after_writeA :
    ∃ s, Run step anyEvent (formatted smallConfig zeroDisk) [writeA] s ∧
      SpecStep s.files (.read pathA 0 7) (serve s (.read pathA 0 7)).1 s.files := by
  refine ⟨_, .single trivial rfl, ?_⟩
  refine (agfs_refines_fileMap zeroDisk_hosts (by decide) (.single trivial rfl)
    (.read pathA 0 7)).2.mpr ?_
  simp [ReadsNoSector]

/-- A read of no bytes at the start of a file of one byte is answered with `AEGIS_EINVAL`
where the map delivers no bytes. -/
theorem read_of_no_sector_fails :
    ∃ s, Run step anyEvent (formatted smallConfig zeroDisk) [writeA] s ∧
      s.files pathA.name = some [0] ∧
      (serve s (.read pathA 0 0)).1 = ⟨aegisEinval, []⟩ ∧
      ¬ SpecStep s.files (.read pathA 0 0) (serve s (.read pathA 0 0)).1
        (serve s (.read pathA 0 0)).2.files := by
  have hfs := formatted_fs zeroDisk_hosts (by decide)
  have hfile := writeA_file (formatted_sound zeroDisk_hosts (by decide))
    (formatted_files zeroDisk_hosts (by decide)) (formatted_lookup zeroDisk_hosts (by decide) _)
    (by rw [hfs]; rfl) (by rw [hfs]; decide)
  have hs := (serve_write (formatted_sound zeroDisk_hosts (by decide)) pathA 0 (fun _ => 0) 1).1
  have hno : ReadsNoSector (serve (formatted smallConfig zeroDisk) writeA).2 (.read pathA 0 0) :=
    ⟨rfl, rfl, [0], hfile, by decide⟩
  exact ⟨_, .single trivial rfl, hfile, serve_noSector hs hno,
    fun hspec => (serve_read hs pathA 0 0).mp hspec hno⟩

end AegisOS.AegisFs
