import AegisOS.Errno
import AegisOS.Lib.CString
import AegisOS.Lib.Reads

/-! The initial RAM file system (`fs/initramfs.c`): a CPIO archive in the newc format is walked
record by record, and every record becomes an entry that points into the archive. Memory is seen
from the start of the archive on, so that an address is an offset into it; the loop runs on fuel. -/
namespace AegisOS.Initramfs
open ByteStore CString

def initramfsMaxFiles : Nat := 256

/-- `sizeof(cpio_header_t)` -/
def headerSize : Nat := 110

/-- `initramfs_entry_t`; every entry up to `file_count` is valid. -/
structure Entry where
  name : CArray 128
  data : Nat
  size : Nat
  mode : UInt32
  isDir : Bool

/-- The value a character adds to a hexadecimal number; other characters add nothing. -/
def hexDigit (c : UInt8) : UInt32 :=
  if 48 ≤ c ∧ c ≤ 57 then (c - 48).toUInt32
  else if 97 ≤ c ∧ c ≤ 102 then (c - 97 + 10).toUInt32
  else if 65 ≤ c ∧ c ≤ 70 then (c - 65 + 10).toUInt32
  else 0

def hex8ToU32 (s : List UInt8) : UInt32 := s.foldl (fun val c => (val <<< 4) ||| hexDigit c) 0

def align4 (offset : Nat) : Nat := (offset + 3) / 4 * 4

/-! The record at an offset. -/

section
variable (mem : Store) (p : Nat)

def magicOk : Bool := readBytes mem p 6 = [48, 55, 48, 55, 48, 49]

/-- A field of the header, by the number of fields before it. -/
def field (i : Nat) : UInt32 := hex8ToU32 (readBytes mem (p + (6 + 8 * i)) 8)

def mode : UInt32 := field mem p 1
def filesize : Nat := (field mem p 6).toNat
def namesize : Nat := (field mem p 11).toNat

def nameAt : Nat := p + headerSize

def trailer : List UInt8 := [84, 82, 65, 73, 76, 69, 82, 33, 33, 33]

def isTrailer : Bool := namesize mem p = 11 ∧ readBytes mem (nameAt p) 10 = trailer

/-- `namesize > 1 || name[0] != '.'` -/
def isKept : Bool := 1 < namesize mem p ∨ mem (nameAt p) ≠ 46

def nameStart : Nat :=
  if mem (nameAt p) = 46 ∧ mem (nameAt p + 1) = 47 then nameAt p + 2 else nameAt p

/-- The loop that copies the name: up to the terminator, but at most 127 characters. -/
def copyName (n : Nat) : CArray 128 := strcopy (ofBytes (readBytes mem n 127))

def dataAt : Nat := p + align4 (headerSize + namesize mem p)

def entryAt : Entry where
  name := copyName mem (nameStart mem p)
  data := dataAt mem p
  size := filesize mem p
  mode := mode mem p
  isDir := mode mem p &&& 0x4000 ≠ 0

def nextRecord : Nat := dataAt mem p + align4 (filesize mem p)

end

/-- The loop of `initramfs_mount`; `none` is a loop that is still running. -/
def mountLoop (mem : Store) (size : Nat) : Nat → Nat → List Entry → Option (List Entry)
  | 0, _, _ => none
  | fuel + 1, p, files =>
    if p + headerSize ≤ size ∧ files.length < initramfsMaxFiles then
      if magicOk mem p = false then some files
      else if isTrailer mem p then some files
      else
        mountLoop mem size fuel (nextRecord mem p)
          (if isKept mem p then files ++ [entryAt mem p] else files)
    else some files

/-- `files` and `mounted`. -/
structure Fs where
  files : List Entry
  mounted : Bool

def Fs.init : Fs := ⟨[], false⟩

/-- A record takes 112 bytes at least, so that `size` rounds are enough. -/
def initramfsMount (fs : Fs) (mem : Store) (size : Nat) : Option (Fs × Int) :=
  if size = 0 then some (fs, aegisEinval)
  else if fs.mounted then some (fs, aegisEbusy)
  else (mountLoop mem size size 0 []).map fun files => (⟨files, true⟩, aegisOk)

def stripSlash (path : List UInt8) : List UInt8 :=
  match path with
  | 47 :: rest => rest
  | _ => path

def initramfsLookupInternal (fs : Fs) (path : CStr) : Option Entry :=
  fs.files.find? fun e => e.name.str.bytes = stripSlash path.bytes

/-- The conversion to `int` of what was read. -/
def toInt32 (n : Nat) : Int := (UInt32.ofNat n).toInt32.toInt

def initramfsRead (fs : Fs) (mem : Store) (path : CStr) (offset len : Nat) : Int × List UInt8 :=
  match initramfsLookupInternal fs path with
  | none => (aegisEnoent, [])
  | some entry =>
    if entry.size ≤ offset then (0, [])
    else
      let toRead := min len (entry.size - offset)
      (toInt32 toRead, readBytes mem (entry.data + offset) toRead)

/-! The loop ends. -/

theorem le_align4 (n : Nat) : n ≤ align4 n := by
  unfold align4
  omega

theorem nextRecord_le (mem : Store) (p : Nat) : p + 112 ≤ nextRecord mem p := by
  have hname : 112 ≤ align4 (headerSize + namesize mem p) := by
    unfold align4 headerSize
    omega
  unfold nextRecord dataAt
  omega

theorem mountLoop_ends (mem : Store) {size fuel p : Nat} (files : List Entry)
    (h : size < p + headerSize + 112 * fuel) :
    ∃ out, mountLoop mem size (fuel + 1) p files = some out := by
  induction fuel generalizing p files with
  | zero =>
    have hend : ¬(p + headerSize ≤ size ∧ files.length < initramfsMaxFiles) := by omega
    exact ⟨files, by rw [mountLoop, if_neg hend]⟩
  | succ fuel ih =>
    rw [mountLoop]
    split
    · split
      · exact ⟨_, rfl⟩
      split
      · exact ⟨_, rfl⟩
      · have hnext := nextRecord_le mem p
        exact ih _ (by omega)
    · exact ⟨_, rfl⟩

theorem initramfsMount_ends (mem : Store) {size : Nat} (hsize : size ≠ 0) :
    ∃ files, mountLoop mem size size 0 [] = some files ∧
      initramfsMount .init mem size = some (⟨files, true⟩, aegisOk) := by
  obtain ⟨n, rfl⟩ := Nat.exists_eq_succ_of_ne_zero hsize
  have hfuel : n + 1 < 0 + headerSize + 112 * n := by
    unfold headerSize
    omega
  obtain ⟨files, hfiles⟩ := mountLoop_ends mem [] hfuel
  exact ⟨files, hfiles, by simp [initramfsMount, hfiles, Fs.init]⟩

/-! Which bytes the walk through an archive reads, and where its entries point: inside the archive
exactly if every record that is reached has its name and its contents there. -/
open Reads List

/-! The reads, in the order of the source. -/

/-- How many characters are looked at before two strings differ. -/
def compared : List UInt8 → List UInt8 → Nat
  | c :: cs, d :: ds => if c = d then compared cs ds + 1 else 1
  | _, _ => 0

section
variable (mem : Store) (p : Nat)

def trailerReads : Ranges :=
  if namesize mem p = 11 then [(nameAt p, compared (readBytes mem (nameAt p) 10) trailer)] else []

/-- The test for "." looks at the name only if it has no room for more. -/
def keptReads : Ranges := if 1 < namesize mem p then [] else [(nameAt p, 1)]

/-- The test for "./", and the copy with the character that ends it. -/
def nameReads : Ranges :=
  [(nameAt p, 1)] ++ (if mem (nameAt p) = 46 then [(nameAt p + 1, 1)] else []) ++
    [(nameStart mem p, (copyName mem (nameStart mem p)).str.bytes.length + 1)]

def recordReads : Ranges :=
  [(p, headerSize)] ++ trailerReads mem p ++
    if isTrailer mem p then []
    else keptReads mem p ++ if isKept mem p then nameReads mem p else []

end

def mountReads (mem : Store) (size : Nat) : Nat → Nat → Nat → Ranges
  | 0, _, _ => []
  | fuel + 1, p, count =>
    if p + headerSize ≤ size ∧ count < initramfsMaxFiles then
      if magicOk mem p = false then [(p, 6)]
      else
        recordReads mem p ++
          if isTrailer mem p then []
          else mountReads mem size fuel (nextRecord mem p) (if isKept mem p then count + 1 else count)
    else []

def readReads (fs : Fs) (path : CStr) (offset len : Nat) : Ranges :=
  match initramfsLookupInternal fs path with
  | none => []
  | some entry =>
    if entry.size ≤ offset then [] else [(entry.data + offset, min len (entry.size - offset))]

/-- The mount ends, reads nothing but the archive, and leaves entries that lie in it, so that
nothing else can be read through them. -/
def MountSafe (mem : Store) (size : Nat) : Prop :=
  ∃ fs rc, initramfsMount .init mem size = some (fs, rc) ∧
    Below (mountReads mem size size 0 0) size ∧
    (∀ e ∈ fs.files, Below [(e.data, e.size)] size) ∧
    ∀ path offset len, Below (readReads fs path offset len) size

/-! The records that are reached. -/

def visited (mem : Store) (size : Nat) : Nat → Nat → Nat → List Nat
  | 0, _, _ => []
  | fuel + 1, p, count =>
    if p + headerSize ≤ size ∧ count < initramfsMaxFiles then
      if magicOk mem p = false then []
      else
        p :: if isTrailer mem p then []
          else visited mem size fuel (nextRecord mem p) (if isKept mem p then count + 1 else count)
    else []

/-- How far a name reaches: the ten characters of the trailer, or up to the character at which
the copy of the name ends. -/
def nameEnd (mem : Store) (p : Nat) : Nat :=
  if isTrailer mem p then nameAt p + 10
  else if isKept mem p then
    nameStart mem p + (copyName mem (nameStart mem p)).str.bytes.length + 1
  else nameAt p + 1

def isEntry (mem : Store) (p : Nat) : Bool := !isTrailer mem p && isKept mem p

/-- The name and the contents of every record that is reached lie in the archive. -/
def Fits (mem : Store) (size : Nat) : Prop :=
  ∀ p ∈ visited mem size size 0 0, nameEnd mem p ≤ size ∧
    (isEntry mem p = true → filesize mem p = 0 ∨ dataAt mem p + filesize mem p ≤ size)

section
variable {mem : Store} {p : Nat}

theorem compared_le (cs : List UInt8) {ds : List UInt8} (h : ∀ d ∈ ds, d ≠ 0) :
    compared cs ds ≤ (cs.takeWhile (· ≠ 0)).length + 1 := by
  induction cs generalizing ds with
  | nil =>
    cases ds <;> exact Nat.zero_le _
  | cons c cs ih =>
    cases ds with
    | nil => exact Nat.zero_le _
    | cons d ds =>
      rw [compared]
      split
      next heq =>
        have hd : d ≠ 0 := h d mem_cons_self
        have hrest := ih fun e he => h e (mem_cons_of_mem d he)
        rw [takeWhile_cons, if_pos (by simpa [heq] using hd), length_cons]
        omega
      · omega

theorem trailer_nonzero : ∀ c ∈ trailer, c ≠ 0 := by simp [trailer]

theorem compared_self (cs : List UInt8) : compared cs cs = cs.length := by
  induction cs with
  | nil => rfl
  | cons c cs ih => rw [compared, if_pos rfl, ih, length_cons]

theorem copyName_length (n : Nat) : (copyName mem n).str.bytes.length =
    ((readBytes mem n 127).takeWhile (· ≠ 0)).length := by
  have hlen : ((readBytes mem n 127).takeWhile (· ≠ 0)).length ≤ 127 :=
    ( takeWhile_prefix _).length_le.trans (length_readBytes ..).le
  simp only [copyName, strcopy, CStr.truncate, ofBytes, length_take]
  omega

theorem compared_dot (h : mem (nameAt p) = 46) :
    compared (readBytes mem (nameAt p) 10) trailer = 1 := by
  have hhead : readBytes mem (nameAt p) 10 = 46 :: (readBytes mem (nameAt p) 10).tail := by
    rw [← h]
    rfl
  rw [hhead]
  rfl

theorem compared_name (hdot : mem (nameAt p) ≠ 46) :
    nameAt p + compared (readBytes mem (nameAt p) 10) trailer ≤
      nameStart mem p + (copyName mem (nameStart mem p)).str.bytes.length + 1 := by
  have hstart : nameStart mem p = nameAt p := by rw [nameStart, if_neg fun h => hdot h.1]
  have hsplit : readBytes mem (nameAt p) 127 =
      readBytes mem (nameAt p) 10 ++ readBytes mem (nameAt p + 10) 117 :=
    readBytes_add mem (nameAt p) 10 117
  have hlong : ((readBytes mem (nameAt p) 10).takeWhile (· ≠ 0)).length ≤
      ((readBytes mem (nameAt p) 127).takeWhile (· ≠ 0)).length := by
    rw [hsplit, takeWhile_append]
    split
    · rw [length_append]
      have hle := ( takeWhile_prefix (fun c : UInt8 => decide (c ≠ 0))
        (l := readBytes mem (nameAt p) 10)).length_le
      omega
    · exact Nat.le_refl _
  have hle := compared_le (readBytes mem (nameAt p) 10) trailer_nonzero
  rw [hstart, copyName_length]
  omega

theorem dot_name (hdot : mem (nameAt p) = 46) :
    nameAt p + 2 ≤ nameStart mem p + (copyName mem (nameStart mem p)).str.bytes.length + 1 := by
  by_cases hslash : mem (nameAt p + 1) = 47
  · rw [nameStart, if_pos ⟨hdot, hslash⟩]
    omega
  have hstart : nameStart mem p = nameAt p := by rw [nameStart, if_neg fun h => hslash h.2]
  have hhead : readBytes mem (nameAt p) 127 = 46 :: readBytes mem (nameAt p + 1) 126 := by
    rw [← hdot]
    exact readBytes_add mem (nameAt p) 1 126
  rw [hstart, copyName_length, hhead, takeWhile_cons, if_pos (by decide), length_cons]
  omega

theorem nameAt_le (mem : Store) (p : Nat) : nameAt p ≤ nameStart mem p := by
  unfold nameStart
  split <;> omega

theorem nameReads_below {limit : Nat} : Below (nameReads mem p) limit ↔
    nameStart mem p + (copyName mem (nameStart mem p)).str.bytes.length + 1 ≤ limit := by
  have hstart := nameAt_le mem p
  unfold nameReads
  by_cases hdot : mem (nameAt p) = 46
  · have := dot_name hdot
    rw [if_pos hdot]
    simp only [below_append, below_cons, below_nil, and_true]
    omega
  · rw [if_neg hdot]
    simp only [below_append, below_cons, below_nil, and_true]
    omega

theorem recordReads_below {limit : Nat} (hheader : p + headerSize ≤ limit) :
    Below (recordReads mem p) limit ↔ nameEnd mem p ≤ limit := by
  have hfirst : Below [(p, headerSize)] limit := below_range.mpr (.inr hheader)
  unfold recordReads nameEnd
  simp only [below_append, hfirst, true_and]
  cases htrailer : isTrailer mem p with
  | true =>
    obtain ⟨hsize, hname⟩ := of_decide_eq_true htrailer
    rw [trailerReads, if_pos hsize, hname, compared_self]
    simp only [if_true, below_cons, below_nil, and_true]
    exact ⟨fun h => h.elim (fun h => absurd h (by decide)) id, .inr⟩
  | false =>
    simp only [Bool.false_eq_true, if_false]
    cases hkept : isKept mem p with
    | true =>
      simp only [if_true, below_append, nameReads_below]
      refine ⟨fun h => h.2.2, fun h => ⟨?_, ?_, h⟩⟩
      · unfold trailerReads
        split
        · refine below_range.mpr (.inr ?_)
          by_cases hdot : mem (nameAt p) = 46
          · have := dot_name hdot
            rw [compared_dot hdot]
            omega
          · exact (compared_name hdot).trans h
        · exact below_nil
      · unfold keptReads
        split
        · exact below_nil
        · have := nameAt_le mem p
          exact below_range.mpr (.inr (by omega))
    | false =>
      have hskip := of_decide_eq_false hkept
      have hsize : ¬1 < namesize mem p := fun h => hskip (.inl h)
      rw [trailerReads, if_neg (by omega), keptReads, if_neg hsize]
      simp only [Bool.false_eq_true, if_false, below_append, below_cons, below_nil, and_true,
        true_and]
      omega

end

/-! The walk. -/

section
variable {mem : Store} {size fuel p count : Nat}

theorem mountReads_below : Below (mountReads mem size fuel p count) size ↔
    ∀ q ∈ visited mem size fuel p count, nameEnd mem q ≤ size := by
  induction fuel generalizing p count with
  | zero => simp [mountReads, visited]
  | succ fuel ih =>
    rw [mountReads, visited]
    by_cases hguard : p + headerSize ≤ size ∧ count < initramfsMaxFiles
    · rw [if_pos hguard, if_pos hguard]
      by_cases hmagic : magicOk mem p = false
      · rw [if_pos hmagic, if_pos hmagic]
        have hsix : p + 6 ≤ size := by
          have := hguard.1
          unfold headerSize at this
          omega
        simp [hsix]
      · rw [if_neg hmagic, if_neg hmagic, below_append, recordReads_below hguard.1, forall_mem_cons]
        refine and_congr_right fun _ => ?_
        cases isTrailer mem p with
        | true => simp
        | false => exact ih
    · rw [if_neg hguard, if_neg hguard]
      simp

theorem mountLoop_entries {files out : List Entry}
    (h : mountLoop mem size fuel p files = some out) :
    out = files ++
      ((visited mem size fuel p files.length).filter (isEntry mem)).map (entryAt mem) := by
  induction fuel generalizing p files with
  | zero => cases h
  | succ fuel ih =>
    rw [mountLoop] at h
    rw [visited]
    split at h
    next hguard =>
      rw [if_pos hguard]
      split at h
      next hmagic =>
        cases h
        simp [hmagic]
      rename_i hmagic
      rw [if_neg hmagic]
      split at h
      next htrailer =>
        cases h
        simp [htrailer, isEntry]
      next htrailer =>
        rw [ih h]
        cases hkept : isKept mem p with
        | true | false => simp [htrailer, hkept, isEntry]
    next hguard =>
      cases h
      simp [if_neg hguard]

theorem readReads_below {fs : Fs} (h : ∀ e ∈ fs.files, Below [(e.data, e.size)] size) (path : CStr)
    (offset len : Nat) : Below (readReads fs path offset len) size := by
  unfold readReads
  split
  · exact below_nil
  rename_i entry hfind
  split
  · exact below_nil
  · have hentry := below_range.mp (h entry (mem_of_find?_eq_some hfind))
    exact below_range.mpr (by omega)

end

theorem MountSafe.record {mem : Store} {size p : Nat} (h : MountSafe mem size)
    (hp : p ∈ visited mem size size 0 0) : nameEnd mem p ≤ size ∧
      (isEntry mem p = true → filesize mem p = 0 ∨ dataAt mem p + filesize mem p ≤ size) := by
  obtain ⟨fs, rc, hfs, hreads, hfiles, -⟩ := h
  have hsize : size ≠ 0 := by
    rintro rfl
    cases hp
  obtain ⟨files, hloop, hmount⟩ := initramfsMount_ends mem hsize
  obtain ⟨rfl, -⟩ := Prod.mk.inj (Option.some.inj (hmount.symm.trans hfs))
  refine ⟨mountReads_below.mp hreads p hp, fun hentry => below_range.mp ?_⟩
  refine hfiles (entryAt mem p) ?_
  have hentries : files = _ := mountLoop_entries hloop
  rw [hentries]
  exact mem_map_of_mem (mem_filter.mpr ⟨hp, hentry⟩)

/-- An archive is mounted safely exactly if the name and the contents of every record that the walk
reaches lie in it. -/
theorem mount_safe_iff (mem : Store) (size : Nat) : MountSafe mem size ↔ Fits mem size := by
  refine ⟨fun h p hp => h.record hp, fun h => ?_⟩
  by_cases hsize : size = 0
  · subst hsize
    exact ⟨.init, aegisEinval, rfl, below_nil, fun e he => (not_mem_nil he).elim,
      fun path offset len => below_nil⟩
  obtain ⟨files, hloop, hmount⟩ := initramfsMount_ends mem hsize
  have hentries : files = _ := mountLoop_entries hloop
  have hfiles : ∀ e ∈ files, Below [(e.data, e.size)] size := by
    intro e he
    rw [hentries] at he
    obtain ⟨p, hp, rfl⟩ := mem_map.mp he
    obtain ⟨hvisited, hentry⟩ := mem_filter.mp hp
    exact below_range.mpr ((h p hvisited).2 hentry)
  exact ⟨_, _, hmount, mountReads_below.mpr fun p hp => (h p hp).1, hfiles,
    fun path offset len => readReads_below hfiles path offset len⟩

/-- A single record of 112 bytes whose header announces a file of 4096. -/
def shortArchive : Store :=
  ofList (cstr ("07070100000000000081A400000000000000000000000100000000" ++
    "000010000000000000000000000000000000000000000002" ++ "00000000" ++ "a")).bytes

/-- The entry reaches from the end of the archive on. -/
theorem short_archive_unsafe : ¬MountSafe shortArchive 112 := by
  intro h
  have hreached : 0 ∈ visited shortArchive 112 112 0 0 := by decide +kernel
  have hentry : isEntry shortArchive 0 = true := by decide +kernel
  have houtside : ¬(filesize shortArchive 0 = 0 ∨
      dataAt shortArchive 0 + filesize shortArchive 0 ≤ 112) := by decide +kernel
  exact houtside ((h.record hreached).2 hentry)

/-! The newc format on its own, and what `initramfs_mount` makes of an archive in it: the entries
are the members, "." included, and a read finds the first member of a name. -/
open List Nat Option

/-! The format. -/

def digitValue (c : UInt8) : Option Nat :=
  if 48 ≤ c.toNat ∧ c.toNat ≤ 57 then some (c.toNat - 48)
  else if 97 ≤ c.toNat ∧ c.toNat ≤ 102 then some (c.toNat - 87)
  else if 65 ≤ c.toNat ∧ c.toNat ≤ 70 then some (c.toNat - 55)
  else none

/-- The number that digits denote when they follow the digits of `n`. -/
def numeral (n : Nat) : List UInt8 → Option Nat
  | [] => some n
  | c :: s => (digitValue c).bind fun d => numeral (16 * n + d) s

structure Member where
  name : CArray 128
  mode : UInt32
  data : List UInt8

def storedName : List UInt8 → List UInt8
  | 46 :: 47 :: rest => rest
  | name => name

def Member.stored (m : Member) : List UInt8 := storedName m.name.str.bytes

/-- The header, the name and its terminator, padded to four bytes. -/
def Member.dataOffset (m : Member) : Nat := align4 (headerSize + (m.name.str.bytes.length + 1))

@[mk_iff] structure RecordAt (mem : Store) (p : Nat) (m : Member) : Prop where
  magic : readBytes mem p 6 = [48, 55, 48, 55, 48, 49]
  digits : ∀ i < 13, (numeral 0 (readBytes mem (p + (6 + 8 * i)) 8)).isSome
  mode : numeral 0 (readBytes mem (p + (6 + 8 * 1)) 8) = some m.mode.toNat
  filesize : numeral 0 (readBytes mem (p + (6 + 8 * 6)) 8) = some m.data.length
  namesize : numeral 0 (readBytes mem (p + (6 + 8 * 11)) 8) = some (m.name.str.bytes.length + 1)
  name : readBytes mem (p + headerSize) (m.name.str.bytes.length + 1) = m.name.str.bytes ++ [0]
  data : readBytes mem (p + m.dataOffset) m.data.length = m.data

instance (mem : Store) (p : Nat) (m : Member) : Decidable (RecordAt mem p m) :=
  decidable_of_iff' _ (recordAt_iff mem p m)

/-- From an offset on there are members and, inside of `size`, the trailer. -/
inductive MembersAt (mem : Store) (size : Nat) : Nat → List Member → Prop
  | trailer {p : Nat} {m : Member} (record : RecordAt mem p m) (name : m.name.str.bytes = trailer)
      (inside : p + m.dataOffset + align4 m.data.length ≤ size) : MembersAt mem size p []
  | member {p : Nat} {m : Member} {ms : List Member} (record : RecordAt mem p m)
      (name : m.name.str.bytes ≠ trailer)
      (rest : MembersAt mem size (p + m.dataOffset + align4 m.data.length) ms) :
      MembersAt mem size p (m :: ms)

structure Archive (mem : Store) (size : Nat) (ms : List Member) : Prop where
  members : MembersAt mem size 0 ms
  count : ms.length ≤ 256

/-! What a mount is for. -/

def Entry.view (mem : Store) (e : Entry) : List UInt8 × UInt32 × List UInt8 :=
  (e.name.str.bytes, e.mode, readBytes mem e.data e.size)

def Member.view (m : Member) : List UInt8 × UInt32 × List UInt8 := (m.stored, m.mode, m.data)

def Member.isDot (m : Member) : Bool := m.name.str.bytes = [46]

variable {c : UInt8} {s : List UInt8} {v n : Nat}

theorem storedName_subset {name : List UInt8} (h : c ∈ storedName name) : c ∈ name := by
  unfold storedName at h
  split at h
  · exact mem_cons_of_mem _ (mem_cons_of_mem _ h)
  · exact h

theorem Member.path_nonzero (m : Member) : ∀ c ∈ 47 :: m.stored, c ≠ 0 := by
  intro c hc
  rcases mem_cons.mp hc with rfl | hc
  · decide
  · exact m.name.str.nonzero c (storedName_subset hc)

def Member.path (m : Member) : CStr := ⟨47 :: m.stored, m.path_nonzero⟩

/-- The entries are the members other than ".", and a read of a member's path returns its bytes. -/
def Loaded (mem : Store) (size : Nat) (ms : List Member) : Prop :=
  ∃ fs, initramfsMount .init mem size = some (fs, aegisOk) ∧
    fs.files.map (Entry.view mem) = (ms.filter fun m => !m.isDot).map Member.view ∧
    ∀ m ∈ ms, m.isDot = false → ∀ offset len, initramfsRead fs mem m.path offset len =
      ((((m.data.drop offset).take len).length : Int), (m.data.drop offset).take len)

/-- No member is ".", every length is an `int`, and members of one name do not differ. -/
structure Regular (ms : List Member) : Prop where
  noDot : ∀ m ∈ ms, m.isDot = false
  short : ∀ m ∈ ms, m.data.length < 2 ^ 31
  same : ∀ m ∈ ms, ∀ m' ∈ ms, m.stored = m'.stored → m.data = m'.data

/-! Numerals. -/

theorem hexDigit_value {d : Nat} (h : digitValue c = some d) : (hexDigit c).toNat = d ∧ d < 16 := by
  have htable : ∀ n < 256, (digitValue (.ofNat n)).all fun d =>
      (hexDigit (.ofNat n)).toNat = d ∧ d < 16 := by decide +kernel
  have hc := htable c.toNat c.toNat_lt
  rw [UInt8.ofNat_toNat, h] at hc
  exact of_decide_eq_true hc

theorem shift_digit {val digit : UInt32} (hval : val.toNat < 2 ^ 28) (hdigit : digit.toNat < 16) :
    ((val <<< 4) ||| digit).toNat = 16 * val.toNat + digit.toNat := by
  have hshift : (val <<< 4).toNat = val.toNat <<< 4 := by
    rw [UInt32.toNat_shiftLeft, mod_eq_of_lt]
    · rfl
    · rw [shiftLeft_eq]
      exact mul_lt_mul_of_pos_right hval (by decide)
  rw [UInt32.toNat_or, hshift, ← shiftLeft_add_eq_or_of_lt hdigit, shiftLeft_eq]
  omega

theorem foldl_numeral {acc : UInt32} {k : Nat} (hs : k + s.length ≤ 8)
    (hacc : acc.toNat < 16 ^ k) (h : numeral acc.toNat s = some v) :
    (s.foldl (fun (val : UInt32) c => (val <<< 4) ||| hexDigit c) acc).toNat = v := by
  induction s generalizing acc k with
  | nil => exact some.inj h
  | cons c s ih =>
    obtain ⟨d, hd, hrest⟩ := bind_eq_some_iff.mp h
    obtain ⟨hdigit, hlt⟩ := hexDigit_value hd
    rw [length_cons] at hs
    have hsmall : acc.toNat < 2 ^ 28 :=
      hacc.trans_le (Nat.pow_le_pow_right (by omega) (show k ≤ 7 by omega))
    have hstep := shift_digit hsmall (hdigit ▸ hlt)
    rw [hdigit] at hstep
    refine ih (k := k + 1) (by omega) ?_ ?_
    · rw [hstep]
      omega
    · rwa [hstep]

theorem hex8ToU32_numeral (hs : s.length = 8)
    (h : numeral 0 s = some v) : (hex8ToU32 s).toNat = v :=
  foldl_numeral (k := 0) (by omega) (show (0 : UInt32).toNat < 16 ^ 0 by decide) h

/-! Names. -/

theorem storedName_eq (name : List UInt8) : storedName name =
    if name[0]? = some 46 ∧ name[1]? = some 47 then name.drop 2 else name := by
  unfold storedName
  split
  · simp
  rename_i hother
  rw [if_neg]
  rintro ⟨hdot, hslash⟩
  rcases name with _ | ⟨c, _ | ⟨d, rest⟩⟩
  · cases hdot
  · cases hslash
  · cases hdot
    cases hslash
    exact hother rest rfl

theorem storedName_length (name : List UInt8) : (storedName name).length ≤ name.length := by
  rw [storedName_eq]
  split
  · rw [length_drop]
    omega
  · exact le_refl _

theorem copyName_terminated {mem : Store} (hlen : s.length ≤ 127)
    (hnonzero : ∀ c ∈ s, c ≠ 0) (h : readBytes mem n (s.length + 1) = s ++ [0]) :
    (copyName mem n).str.bytes = s := by
  have hall : ∀ c ∈ s, (decide (c ≠ 0)) = true := fun c hc => decide_eq_true (hnonzero c hc)
  have hstr : (readBytes mem n 127).takeWhile (· ≠ 0) = s := by
    rcases Nat.lt_or_eq_of_le hlen with hlt | heq
    · obtain ⟨k, hk⟩ := Nat.exists_eq_add_of_lt hlt
      rw [show 127 = s.length + 1 + k by omega, readBytes_add, h, append_assoc,
        takeWhile_append_of_pos hall]
      simp
    · have hread := congrArg (take 127) h
      rw [readBytes_take, heq, ← heq, take_left, heq] at hread
      rw [show 127 = min 127 (127 + 1) by omega, hread]
      exact takeWhile_eq_self_iff.mpr hall
  simp only [copyName, strcopy, CStr.truncate, ofBytes]
  rw [hstr, take_of_length_le hlen]

/-! The record of a member, as the walk reads it. -/

section
variable {mem : Store} {p : Nat} {m : Member} (h : RecordAt mem p m)
include h

theorem RecordAt.magicOk_eq : magicOk mem p = true := decide_eq_true h.magic

theorem RecordAt.namesize_eq : Initramfs.namesize mem p = m.name.str.bytes.length + 1 :=
  hex8ToU32_numeral (length_readBytes ..) h.namesize

theorem RecordAt.filesize_eq : Initramfs.filesize mem p = m.data.length :=
  hex8ToU32_numeral (length_readBytes ..) h.filesize

theorem RecordAt.mode_eq : Initramfs.mode mem p = m.mode :=
  UInt32.toNat_inj.mp (hex8ToU32_numeral (length_readBytes ..) h.mode)

theorem RecordAt.dataAt_eq : dataAt mem p = p + m.dataOffset := by
  rw [dataAt, h.namesize_eq, Member.dataOffset]

theorem RecordAt.nextRecord_eq : nextRecord mem p = p + m.dataOffset + align4 m.data.length := by
  rw [nextRecord, h.dataAt_eq, h.filesize_eq]

theorem RecordAt.name_bytes :
    readBytes mem (nameAt p) m.name.str.bytes.length = m.name.str.bytes := by
  have htake := congrArg (take m.name.str.bytes.length) h.name
  rwa [readBytes_take, take_left, min_eq_left (le_succ _)] at htake

theorem RecordAt.name_get {i : Nat} (hi : i ≤ m.name.str.bytes.length) (hc : c ≠ 0) :
    mem (nameAt p + i) = c ↔ m.name.str.bytes[i]? = some c := by
  have hlen : i < (readBytes mem (p + headerSize) (m.name.str.bytes.length + 1)).length := by
    rw [length_readBytes]
    omega
  have hget : some (mem (nameAt p + i)) = (m.name.str.bytes ++ [0])[i]? := by
    rw [← h.name, getElem?_eq_getElem hlen, getElem_readBytes]
    rfl
  rcases Nat.lt_or_eq_of_le hi with hlt | rfl
  · rw [getElem?_append_left hlt] at hget
    rw [← hget, some_inj]
  · rw [getElem?_append_right (Nat.le_refl _), Nat.sub_self] at hget
    rw [some_inj.mp hget]
    exact iff_of_false hc.symm (by simp)

theorem RecordAt.isTrailer_iff : isTrailer mem p = true ↔ m.name.str.bytes = trailer := by
  have hname := h.name_bytes
  rw [isTrailer, decide_eq_true_iff, h.namesize_eq]
  constructor
  · rintro ⟨hsize, htrailer⟩
    rw [← htrailer, ← hname, succ.inj hsize]
  · intro htrailer
    rw [htrailer] at hname
    exact ⟨by rw [htrailer]; rfl, hname⟩

theorem RecordAt.isKept_eq : isKept mem p = true := by
  refine decide_eq_true ?_
  rw [h.namesize_eq]
  by_cases hempty : m.name.str.bytes = []
  · right
    intro hdot
    have := (h.name_get (zero_le _) (by decide)).mp hdot
    simp [hempty] at this
  · left
    have := length_pos_iff.mpr hempty
    omega

theorem RecordAt.dotSlash_iff : mem (nameAt p) = 46 ∧ mem (nameAt p + 1) = 47 ↔
    m.name.str.bytes[0]? = some 46 ∧ m.name.str.bytes[1]? = some 47 := by
  have hdot : mem (nameAt p) = 46 ↔ _ := h.name_get (zero_le _) (by decide)
  rw [hdot]
  refine and_congr_right fun hfirst => h.name_get ?_ (by decide)
  exact (List.getElem?_eq_some_iff.mp hfirst).1

theorem RecordAt.stored_bytes :
    readBytes mem (nameStart mem p) (m.stored.length + 1) = m.stored ++ [0] := by
  have hname : readBytes mem (nameAt p) _ = _ := h.name
  rw [nameStart, Member.stored, storedName_eq]
  by_cases hdot : m.name.str.bytes[0]? = some 46 ∧ m.name.str.bytes[1]? = some 47
  · have hlen : 2 ≤ m.name.str.bytes.length := (List.getElem?_eq_some_iff.mp hdot.2).1
    rw [if_pos hdot, if_pos (h.dotSlash_iff.mpr hdot), List.length_drop,
      ← List.drop_append_of_le_length hlen, ← hname, readBytes_drop]
    congr 1
    omega
  · rw [if_neg hdot, if_neg (mt h.dotSlash_iff.mp hdot), hname]

theorem RecordAt.copyName_eq : (copyName mem (nameStart mem p)).str.bytes = m.stored := by
  have hlen : m.stored.length ≤ 127 := (storedName_length _).trans (le_of_lt_succ m.name.fits)
  have hnonzero : ∀ c ∈ m.stored, c ≠ 0 := fun c hc => m.name.str.nonzero c (storedName_subset hc)
  exact copyName_terminated hlen hnonzero h.stored_bytes

theorem RecordAt.entryAt_view : (entryAt mem p).view mem = m.view := by
  unfold Entry.view entryAt Member.view
  rw [h.copyName_eq, h.mode_eq, h.dataAt_eq, h.filesize_eq, h.data]

end

/-! The whole archive. -/

section
variable {mem : Store} {size p : Nat} {ms : List Member}

theorem MembersAt.header_le (h : MembersAt mem size p ms) : p + headerSize ≤ size := by
  induction h with
  | trailer record name inside =>
    rename_i p m
    have := le_align4 (headerSize + (m.name.str.bytes.length + 1))
    unfold Member.dataOffset at inside
    omega
  | member record name rest ih => omega

theorem MembersAt.mountLoop_view (h : MembersAt mem size p ms) {fuel : Nat}
    {files out : List Entry} (hcount : files.length + ms.length ≤ 256)
    (hloop : mountLoop mem size fuel p files = some out) :
    out.map (Entry.view mem) = files.map (Entry.view mem) ++ ms.map Member.view := by
  induction h generalizing fuel files with
  | trailer record name inside =>
    cases fuel with
    | zero => cases hloop
    | succ fuel =>
      rw [mountLoop, record.magicOk_eq, record.isTrailer_iff.mpr name] at hloop
      simp only [if_true, ite_self, some_inj] at hloop
      rw [hloop, map_nil, append_nil]
  | member record name rest ih =>
    cases fuel with
    | zero => cases hloop
    | succ fuel =>
      rename_i p m ms
      have hguard : p + headerSize ≤ size ∧ files.length < initramfsMaxFiles := by
        refine ⟨(MembersAt.member record name rest).header_le, ?_⟩
        rw [length_cons] at hcount
        unfold initramfsMaxFiles
        omega
      have hmember : isTrailer mem p = false :=
        Bool.eq_false_iff.mpr fun htrailer => name (record.isTrailer_iff.mp htrailer)
      rw [mountLoop, if_pos hguard, record.magicOk_eq, hmember, record.isKept_eq,
        record.nextRecord_eq] at hloop
      have hrest : (files ++ [entryAt mem p]).length + ms.length ≤ 256 := by
        rw [length_append, length_singleton]
        rw [length_cons] at hcount
        omega
      have hview := ih hrest hloop
      rw [hview, map_append, map_singleton, record.entryAt_view, map_cons,
        append_assoc, singleton_append]

theorem Archive.mount (h : Archive mem size ms) : ∃ fs,
    initramfsMount .init mem size = some (fs, aegisOk) ∧
      fs.files.map (Entry.view mem) = ms.map Member.view := by
  have hsize : size ≠ 0 := by
    have := h.members.header_le
    unfold headerSize at this
    omega
  obtain ⟨files, hloop, hmount⟩ := initramfsMount_ends mem hsize
  exact ⟨_, hmount, h.members.mountLoop_view (by simpa using h.count) hloop⟩

end

/-! Reads. -/

theorem toInt32_lt (n : Nat) : toInt32 n < 2 ^ 31 := Int32.toInt_lt _

theorem toInt32_of_lt (h : n < 2 ^ 31) : toInt32 n = n := by
  rw [toInt32, UInt32.toInt32_ofNat', Int32.toInt_ofNat_of_lt h]

theorem initramfsRead_view (fs : Fs) (mem : Store) (path : CStr) (offset len : Nat) :
    initramfsRead fs mem path offset len =
      match (fs.files.map (Entry.view mem)).find? fun v => v.1 = stripSlash path.bytes with
      | none => (aegisEnoent, [])
      | some v => (toInt32 ((v.2.2.drop offset).take len).length, (v.2.2.drop offset).take len) := by
  have hfind : ((fs.files.map (Entry.view mem)).find? fun v => v.1 = stripSlash path.bytes) =
      (initramfsLookupInternal fs path).map (Entry.view mem) := find?_map
  rw [initramfsRead, hfind]
  cases initramfsLookupInternal fs path with
  | none => rfl
  | some e =>
    simp only [map_some, Entry.view, readBytes_drop, readBytes_take, length_readBytes]
    split
    next hend =>
      rw [Nat.sub_eq_zero_of_le hend, Nat.min_zero]
      rfl
    · rfl

section
variable {mem : Store} {fs : Fs} {ms : List Member} {m f : Member}

theorem read_first (hfs : fs.files.map (Entry.view mem) = ms.map Member.view)
    (hf : (ms.find? fun f => f.stored = m.stored) = some f) (offset len : Nat) :
    initramfsRead fs mem m.path offset len =
      (toInt32 ((f.data.drop offset).take len).length, (f.data.drop offset).take len) := by
  have hfind : ((ms.map Member.view).find? fun v => v.1 = stripSlash m.path.bytes) =
      some f.view := by
    rw [find?_map]
    exact congrArg (Option.map Member.view) hf
  rw [initramfsRead_view, hfs, hfind]
  rfl

theorem exists_first (hm : m ∈ ms) :
    ∃ f ∈ ms, f.stored = m.stored ∧ (ms.find? fun f => f.stored = m.stored) = some f := by
  have hsome : (ms.find? fun f => f.stored = m.stored).isSome :=
    find?_isSome.mpr ⟨m, hm, decide_eq_true rfl⟩
  obtain ⟨f, hf⟩ := isSome_iff_exists.mp hsome
  have hstored := find?_some hf
  exact ⟨f, mem_of_find?_eq_some hf, of_decide_eq_true hstored, hf⟩

/-- All bytes of a member are read only if the first member of its name has them, and their number
is an `int`. -/
theorem first_data (hf : ∀ offset len, (toInt32 ((f.data.drop offset).take len).length,
      (f.data.drop offset).take len) =
        ((((m.data.drop offset).take len).length : Int), (m.data.drop offset).take len)) :
    f.data = m.data ∧ m.data.length < 2 ^ 31 := by
  obtain ⟨hcount, hdata⟩ := Prod.mk.inj (hf 0 (f.data.length + m.data.length))
  rw [drop_zero, drop_zero, take_of_length_le (le_add_right _ _),
    take_of_length_le (le_add_left _ _)] at hdata hcount
  have hlt := toInt32_lt f.data.length
  refine ⟨hdata, ?_⟩
  rw [hcount] at hlt
  exact_mod_cast hlt

end

def hexChar (d : Nat) : UInt8 := .ofNat (if d < 10 then 48 + d else 55 + d)

def digits8 (n : Nat) : List UInt8 :=
  [7, 6, 5, 4, 3, 2, 1, 0].map fun i => hexChar (n / 16 ^ i % 16)

def header (mode filesize namesize : Nat) : List UInt8 :=
  [48, 55, 48, 55, 48, 49] ++
    [1, mode, 0, 0, 1, 0, filesize, 0, 0, 0, 0, namesize, 0].flatMap digits8

def trailerMember : Member := ⟨strcopy (ofBytes trailer), 0, []⟩

def trailerRecord : List UInt8 := header 0 0 11 ++ trailer ++ [0, 0, 0, 0]

def hiMember : Member := ⟨strcopy (ofBytes [46, 47, 104, 105]), 0x81A4, [111, 107]⟩

def yoMember : Member := ⟨strcopy (ofBytes [47, 121, 111]), 0x81A4, [110, 111, 112, 101, 33]⟩

def helloArchive : Store :=
  ofList (header 0x81A4 2 5 ++ [46, 47, 104, 105, 0, 0] ++ [111, 107, 0, 0] ++
    (header 0x81A4 5 4 ++ [47, 121, 111, 0, 0, 0] ++ [110, 111, 112, 101, 33, 0, 0, 0]) ++
    trailerRecord)

def dotMember : Member := ⟨strcopy (ofBytes [46]), 0x41ED, []⟩

def dotArchive : Store := ofList (header 0x41ED 0 2 ++ [46, 0] ++ trailerRecord)

end AegisOS.Initramfs
