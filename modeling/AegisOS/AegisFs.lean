import AegisOS.Lib.CString
import AegisOS.Lib.Crc
import AegisOS.BlockStorage

/-! The persistent file system of `fs/aegisfs.c`: superblock in sector 0, a directory of
64 entries in sectors 1 to 16, file data from sector 17 on. A write puts the whole file
into fresh sectors and then rewrites directory and superblock. Operations return their
code, the new in-memory state and the sector writes they issued. -/
namespace AegisOS.AegisFs
open ByteStore SectorWrites BlockStorage CString Crc List Function

def aegisfsMagic : UInt32 := 0x53464741
def aegisfsVersion : UInt32 := 1
def aegisfsMaxFiles : Nat := 64
def aegisfsNameMax : Nat := 80
def aegisfsDirLba : Nat := 1
def aegisfsDirSectors : Nat := 16
def aegisfsDataLba : Nat := aegisfsDirLba + aegisfsDirSectors
def aegisfsMaxFileBytes : Nat := 64 * 1024

/-- `aegisfs_superblock_t` -/
structure Superblock where
  magic : UInt32
  version : UInt32
  generation : UInt32
  fileCount : UInt32
  nextFreeLba : UInt64
  partitionBlocks : UInt64
  directoryCrc : UInt32
  flags : UInt32
  reserved : Bytes 472

/-- `aegisfs_entry_t` -/
structure Entry where
  valid : UInt32
  generation : UInt32
  startLba : UInt64
  sectors : UInt32
  size : UInt32
  dataCrc : UInt32
  name : Bytes 80
  reserved : Bytes 20

instance : NeZero aegisfsMaxFiles := ⟨by decide⟩

abbrev Directory := Fin aegisfsMaxFiles → Entry

def Superblock.encode (s : Superblock) : List UInt8 :=
  leBytes 4 s.magic.toNat ++ (leBytes 4 s.version.toNat ++ (leBytes 4 s.generation.toNat ++
  (leBytes 4 s.fileCount.toNat ++ (leBytes 8 s.nextFreeLba.toNat ++
  (leBytes 8 s.partitionBlocks.toNat ++ (leBytes 4 s.directoryCrc.toNat ++
  (leBytes 4 s.flags.toNat ++ (s.reserved.val ++ []))))))))

def Superblock.decode (bs : List UInt8) : Superblock :=
  let (magic, bs) := takeLe 4 bs
  let (version, bs) := takeLe 4 bs
  let (generation, bs) := takeLe 4 bs
  let (fileCount, bs) := takeLe 4 bs
  let (nextFreeLba, bs) := takeLe 8 bs
  let (partitionBlocks, bs) := takeLe 8 bs
  let (directoryCrc, bs) := takeLe 4 bs
  let (flags, bs) := takeLe 4 bs
  let (reserved, _) := takeBytes 472 bs
  { magic := .ofNat magic, version := .ofNat version, generation := .ofNat generation
    fileCount := .ofNat fileCount, nextFreeLba := .ofNat nextFreeLba
    partitionBlocks := .ofNat partitionBlocks, directoryCrc := .ofNat directoryCrc
    flags := .ofNat flags, reserved }

def Entry.encode (e : Entry) : List UInt8 :=
  leBytes 4 e.valid.toNat ++ (leBytes 4 e.generation.toNat ++ (leBytes 8 e.startLba.toNat ++
  (leBytes 4 e.sectors.toNat ++ (leBytes 4 e.size.toNat ++ (leBytes 4 e.dataCrc.toNat ++
  (e.name.val ++ (e.reserved.val ++ [])))))))

def Entry.decode (bs : List UInt8) : Entry :=
  let (valid, bs) := takeLe 4 bs
  let (generation, bs) := takeLe 4 bs
  let (startLba, bs) := takeLe 8 bs
  let (sectors, bs) := takeLe 4 bs
  let (size, bs) := takeLe 4 bs
  let (dataCrc, bs) := takeLe 4 bs
  let (name, bs) := takeBytes 80 bs
  let (reserved, _) := takeBytes 20 bs
  { valid := .ofNat valid, generation := .ofNat generation, startLba := .ofNat startLba
    sectors := .ofNat sectors, size := .ofNat size, dataCrc := .ofNat dataCrc, name, reserved }

/-- `g_entries` as the block layer sees it. -/
def Directory.encode (d : Directory) : List UInt8 := (ofFn fun i => (d i).encode).flatten

def Directory.decode (bs : List UInt8) : Directory :=
  fun i => .decode ((bs.drop (128 * i)).take 128)

theorem Superblock.length_encode (s : Superblock) : s.encode.length = 512 := by
  simp [encode, s.reserved.property]

theorem Entry.length_encode (e : Entry) : e.encode.length = 128 := by
  simp [encode, e.name.property, e.reserved.property]

theorem Superblock.decode_encode (s : Superblock) : decode s.encode = s := by
  have h4 (x : UInt32) : x.toNat < 256 ^ 4 := x.toNat_lt
  have h8 (x : UInt64) : x.toNat < 256 ^ 8 := x.toNat_lt
  simp only [encode, decode, takeLe_leBytes_append, h4, h8, takeBytes_append,
    UInt32.ofNat_toNat, UInt64.ofNat_toNat]

theorem Entry.decode_encode (e : Entry) : decode e.encode = e := by
  have h4 (x : UInt32) : x.toNat < 256 ^ 4 := x.toNat_lt
  have h8 (x : UInt64) : x.toNat < 256 ^ 8 := x.toNat_lt
  simp only [encode, decode, takeLe_leBytes_append, h4, h8, takeBytes_append,
    UInt32.ofNat_toNat, UInt64.ofNat_toNat]

theorem Directory.length_encode (d : Directory) : d.encode.length = 8192 := by
  rw [encode, length_flatten_chunks (k := 128) _ (by simp [Entry.length_encode]), length_ofFn]
  rfl

theorem Directory.decode_encode (d : Directory) : decode d.encode = d := by
  funext i
  have hchunk := flatten_chunk (k := 128) (.ofFn fun i => (d i).encode)
    (by simp [Entry.length_encode]) i (by simp)
  rw [decode, encode, hchunk, List.getElem_ofFn]
  exact (d i).decode_encode

def crc32 (bs : List UInt8) : UInt32 :=
  crcWith (fun c => (c >>> 1) ^^^ ((0 - (c &&& 1)) &&& 0xedb88320)) bs

structure Fs where
  part : Partition
  sb : Superblock
  entries : Directory
  writable : Bool

def Fs.seal (fs : Fs) : Fs :=
  { fs with sb := { fs.sb with directoryCrc := crc32 fs.entries.encode } }

/-- `persist_metadata`; the flush of a backend that performs every request succeeds. -/
def persistMetadata (fs : Fs) (dev : Device) : Int × Fs × List SectorWrite :=
  if fs.writable = false then (aegisEshutdown, fs, [])
  else
    let fs := fs.seal
    match blockPartitionWrite fs.part dev aegisfsDirLba aegisfsDirSectors
        (ofList fs.entries.encode) with
    | .error rc => (rc, fs, [])
    | .ok dir =>
      match blockPartitionWrite fs.part dev 0 1 (ofList fs.sb.encode) with
      | .error rc => (rc, fs, dir)
      | .ok sb => (aegisOk, fs, dir ++ sb)

def Entry.zero : Entry := ⟨0, 0, 0, 0, 0, 0, .zero 80, .zero 20⟩

/-- The superblock `format_fs` fills in for a partition of `blocks` blocks. -/
def Superblock.fresh (blocks : Nat) : Superblock where
  magic := aegisfsMagic
  version := aegisfsVersion
  generation := 1
  fileCount := 0
  nextFreeLba := .ofNat aegisfsDataLba
  partitionBlocks := .ofNat blocks
  directoryCrc := 0
  flags := 0
  reserved := .zero 472

def formatFs (part : Partition) (writable : Bool) (dev : Device) : Int × Fs × List SectorWrite :=
  persistMetadata ⟨part, .fresh part.blockCount, fun _ => .zero, writable⟩ dev

def stripSlashes (path : CStr) : CStr :=
  ⟨path.bytes.dropWhile (· = 47), fun c hc => path.nonzero c (dropWhile_subset _ hc)⟩

def Entry.names (e : Entry) (name : CStr) : Bool := e.valid ≠ 0 ∧ ofBytes e.name.val = name

def Directory.lookup (d : Directory) (name : CStr) : Option (Fin aegisfsMaxFiles) :=
  (finRange aegisfsMaxFiles).find? fun i => (d i).names name

def findEntry (fs : Fs) (path : CStr) : Option (Fin aegisfsMaxFiles) :=
  fs.entries.lookup (stripSlashes path)

/-- A zeroed entry with the name copied in, as `alloc_entry` leaves it. -/
def Entry.named (name : CStr) : Entry :=
  { Entry.zero with valid := 1, name := (strcopy name).field }

def allocEntry (fs : Fs) (name : CStr) : Option (Fs × Fin aegisfsMaxFiles) :=
  ((finRange aegisfsMaxFiles).find? fun i => (fs.entries i).valid = 0).map fun i =>
    ({ fs with
        entries := update fs.entries i (.named name)
        sb := { fs.sb with fileCount := fs.sb.fileCount + 1 } }, i)

/-- `agfs_read` with a buffer; the bytes it copied are returned beside the code. -/
def agfsRead (fs : Fs) (dev : Device) (path : CStr) (offset len : Nat) : Int × List UInt8 :=
  match findEntry fs path with
  | none => (aegisEnoent, [])
  | some i =>
    let e := fs.entries i
    let size := e.size.toNat
    if size ≤ offset then (0, [])
    else
      let len := if size - offset < len then size - offset else len
      let first := offset / 512
      let last := (offset + len + 511) % 2 ^ 64 / 512
      let sectors := (last - first) % 2 ^ 32
      if 128 < sectors then (aegisEinval, [])
      else
        match blockPartitionRead fs.part dev ((e.startLba.toNat + first) % 2 ^ 64) sectors
            (fun _ => 0) with
        | .error rc => (rc, [])
        | .ok bounce => (len, readBytes bounce (offset % 512) len)

/-- The sectors that hold `size` bytes, as 32-bit arithmetic counts them. -/
def sectorsOf (size : Nat) : Nat := (size + 511) % 2 ^ 32 / 512

/-- The image of the file after the write, built in a zeroed buffer over the old sectors. -/
def buildImage (fs : Fs) (dev : Device) (e : Entry) (offset : Nat) (buf : Store) (len : Nat) :
    Except Int Store :=
  let zeroed : Store := fun _ => 0
  if e.size = 0 then .ok (blit zeroed offset len buf)
  else
    match blockPartitionRead fs.part dev e.startLba.toNat (sectorsOf e.size.toNat) zeroed with
    | .error rc => .error rc
    | .ok image => .ok (blit image offset len buf)

def newSize (e : Entry) (offset len : Nat) : Nat :=
  let n := (offset + len) % 2 ^ 64 % 2 ^ 32
  if n < e.size.toNat then e.size.toNat else n

/-- The file system once the image has been written to fresh sectors. -/
def relocate (fs : Fs) (i : Fin aegisfsMaxFiles) (size : Nat) (image : Store) : Fs :=
  let e := fs.entries i
  let sectors := sectorsOf size
  { fs with
    entries := update fs.entries i
      { e with
        startLba := fs.sb.nextFreeLba
        sectors := .ofNat sectors
        size := .ofNat size
        generation := fs.sb.generation + 1
        dataCrc := crc32 (readBytes image 0 size) }
    sb := { fs.sb with
      generation := fs.sb.generation + 1
      nextFreeLba := fs.sb.nextFreeLba + .ofNat sectors } }

/-- The part of `agfs_write` after the entry has been found or made. -/
def writeEntry (fs : Fs) (dev : Device) (i : Fin aegisfsMaxFiles) (offset : Nat) (buf : Store)
    (len : Nat) : Int × Fs × List SectorWrite :=
  let e := fs.entries i
  let size := newSize e offset len
  let sectors := sectorsOf size
  if fs.part.blockCount < (fs.sb.nextFreeLba.toNat + sectors) % 2 ^ 64 then (aegisEnospc, fs, [])
  else
    match buildImage fs dev e offset buf len with
    | .error rc => (rc, fs, [])
    | .ok image =>
      match blockPartitionWrite fs.part dev fs.sb.nextFreeLba.toNat sectors image with
      | .error rc => (rc, fs, [])
      | .ok data =>
        let (rc, fs, ws) := persistMetadata (relocate fs i size image) dev
        (if rc = aegisOk then (len : Int) else rc, fs, data ++ ws)

/-- The part of `agfs_write` that finds the entry or makes one. -/
def writeNamed (fs : Fs) (dev : Device) (name : CStr) (offset : Nat) (buf : Store) (len : Nat) :
    Int × Fs × List SectorWrite :=
  match findEntry fs name with
  | some i => writeEntry fs dev i offset buf len
  | none =>
    match allocEntry fs name with
    | some (fs, i) => writeEntry fs dev i offset buf len
    | none => (aegisEnospc, fs, [])

/-- `agfs_write` with a buffer. -/
def agfsWrite (fs : Fs) (dev : Device) (path : CStr) (offset : Nat) (buf : Store) (len : Nat) :
    Int × Fs × List SectorWrite :=
  if fs.writable = false ∨ len = 0 then (aegisEinval, fs, [])
  else if aegisfsMaxFileBytes < (offset + len) % 2 ^ 64 then (aegisEnospc, fs, [])
  else
    let name := stripSlashes path
    if name.bytes = [] then (aegisEinval, fs, []) else writeNamed fs dev name offset buf len

/-- `aegisfs_mount_persistent`, with the results of `block_storage_find_partition`,
`block_storage_io_backend_ready` and `vfs_mount`. -/
def aegisfsMountPersistent (mounted : Option Fs) (found : Option Partition) (backendReady : Bool)
    (vfsMount : Int) (dev : Device) : Int × Option Fs × List SectorWrite :=
  match mounted, found with
  | some fs, _ => (aegisOk, some fs, [])
  | none, none => (aegisEnoent, none, [])
  | none, some part =>
    let attach (fs : Fs) (ws : List SectorWrite) : Int × Option Fs × List SectorWrite :=
      if vfsMount = aegisOk then (aegisOk, some fs, ws) else (vfsMount, none, ws)
    if (backendReady && part.writable) = false then (aegisEnosys, none, [])
    else
      match blockPartitionRead part dev 0 1 (fun _ => 0) with
      | .error rc => (rc, none, [])
      | .ok buf =>
        let sb := .decode (readBytes buf 0 512)
        if sb.magic ≠ aegisfsMagic ∨ sb.version ≠ aegisfsVersion ∨
            sb.partitionBlocks.toNat ≠ part.blockCount then
          let (rc, fs, ws) := formatFs part true dev
          if rc = aegisOk then attach fs ws else (rc, none, ws)
        else
          match blockPartitionRead part dev aegisfsDirLba aegisfsDirSectors (fun _ => 0) with
          | .error rc => (rc, none, [])
          | .ok buf =>
            let image := readBytes buf 0 8192
            if crc32 image ≠ sb.directoryCrc then (aegisEio, none, [])
            else attach ⟨part, sb, .decode image, true⟩ []

/-! What one AegisFS write does to memory and medium, and the invariant of its
allocator: the extents of the live files lie below the next free sector, and the last
sector of each is padded with zeros. -/
open Nat

/-! Sector arithmetic of files of at most 64 KiB. -/

variable {size x offset len : Nat} {dev : Device} {fs : Fs} {e : Entry} {ws : List SectorWrite}

section
variable (h : size ≤ aegisfsMaxFileBytes)
include h

theorem sectorsOf_eq : sectorsOf size = (size + 511) / 512 := by
  unfold aegisfsMaxFileBytes at h
  rw [sectorsOf, mod_eq_of_lt (by omega)]

theorem le_sectorsOf : size ≤ sectorsOf size * 512 := by
  rw [sectorsOf_eq h]
  omega

theorem sectorsOf_pos (h0 : 0 < size) : 0 < sectorsOf size := by
  rw [sectorsOf_eq h]
  omega

end

/-! Metadata. -/

def metadataWrites (fs : Fs) : List SectorWrite :=
  split (fs.part.startLba + aegisfsDirLba) aegisfsDirSectors (ofList fs.entries.encode) ++
    split fs.part.startLba 1 (ofList fs.sb.encode)

theorem persistMetadata_eq (fs : Fs) (hd : Hosts dev fs.part)
    (hw : fs.writable = true) (h : aegisfsDataLba ≤ fs.part.blockCount) :
    persistMetadata fs dev = (aegisOk, fs.seal, metadataWrites fs.seal) := by
  have hdir := blockPartitionWrite_ok (p := fs.seal.part) hd (r := aegisfsDirLba)
    (c := aegisfsDirSectors) (by decide) h (ofList fs.seal.entries.encode)
  have hpos : 0 + 1 ≤ fs.part.blockCount := fs.part.nonempty
  have hsb := blockPartitionWrite_ok (p := fs.seal.part) hd (r := 0) (c := 1) (by decide)
    hpos (ofList fs.seal.sb.encode)
  simp only [persistMetadata, hw, Bool.true_eq_false, if_false, hdir, hsb]
  rfl

theorem metadataWrites_lba {w : SectorWrite} (h : w ∈ metadataWrites fs) :
    fs.part.startLba ≤ w.lba ∧ w.lba < fs.part.startLba + aegisfsDataLba := by
  rcases List.mem_append.mp h with h | h <;> have := mem_split h
  · unfold aegisfsDataLba
    omega
  · unfold aegisfsDataLba aegisfsDirLba
    omega

/-! Files on the medium. -/

def extentAddr (part : Partition) (e : Entry) : Nat := (part.startLba + e.startLba.toNat) * 512

def fileBytes (part : Partition) (dev : Device) (e : Entry) : List UInt8 :=
  readBytes dev.medium (extentAddr part e) e.size.toNat

def oldImage (part : Partition) (dev : Device) (e : Entry) : Store :=
  fun x => if x < e.size.toNat then dev.medium (extentAddr part e + x) else 0

/-- A live extent lies in the allocated data area and its slack is zero. -/
structure EntrySound (fs : Fs) (dev : Device) (e : Entry) : Prop where
  small : e.size.toNat ≤ aegisfsMaxFileBytes
  dataArea : 0 < e.size.toNat → aegisfsDataLba ≤ e.startLba.toNat
  allocated : 0 < e.size.toNat → e.startLba.toNat + sectorsOf e.size.toNat ≤ fs.sb.nextFreeLba.toNat
  padded : ∀ x, e.size.toNat ≤ x → x < sectorsOf e.size.toNat * 512 →
    dev.medium (extentAddr fs.part e + x) = 0

structure Sound (fs : Fs) (dev : Device) : Prop where
  hosts : Hosts dev fs.part
  writable : fs.writable = true
  dataStart : aegisfsDataLba ≤ fs.sb.nextFreeLba.toNat
  room : fs.sb.nextFreeLba.toNat ≤ fs.part.blockCount
  entries : ∀ i, (fs.entries i).valid ≠ 0 → EntrySound fs dev (fs.entries i)

theorem toNat_pos {x : UInt32} (h : x ≠ 0) : 0 < x.toNat := by
  rcases Nat.eq_zero_or_pos x.toNat with h0 | h0
  · exact absurd (UInt32.toNat_inj.mp (by simpa using h0)) h
  · exact h0

theorem buildImage_eq (hs : Sound fs dev)
    (he : EntrySound fs dev e) (offset : Nat) (buf : Store) (len : Nat) :
    buildImage fs dev e offset buf len = .ok (blit (oldImage fs.part dev e) offset len buf) := by
  unfold buildImage
  by_cases h0 : e.size = 0
  · have hold : oldImage fs.part dev e = fun _ => 0 := by
      funext x
      simp [oldImage, h0]
    rw [if_pos h0, hold]
  have hpos := toNat_pos h0
  have halloc := he.allocated hpos
  have hroom := hs.room
  have hread := blockPartitionRead_ok hs.hosts (sectorsOf_pos he.small hpos)
    (Nat.le_trans halloc hroom) (fun _ => 0)
  -- what the sectors hold past the end of the file is the zero padding
  have hold : blit (fun _ => 0) 0 (sectorsOf e.size.toNat * 512)
      (fun i => dev.medium ((fs.part.startLba + e.startLba.toNat) * 512 + i)) =
      oldImage fs.part dev e := by
    funext x
    by_cases hx : x < sectorsOf e.size.toNat * 512
    · rw [blit_inside (by omega) (by omega)]
      by_cases hsz : x < e.size.toNat
      · simp [oldImage, hsz, extentAddr]
      · rw [oldImage, if_neg hsz]
        exact he.padded x (by omega) hx
    · have := le_sectorsOf he.small
      rw [blit_outside (by omega), oldImage, if_neg (by omega)]
  rw [if_neg h0]
  simp only [hread, hold]

/-! One write, from the entry on. -/

theorem newSize_eq (h : offset + len ≤ aegisfsMaxFileBytes) :
    newSize e offset len = max e.size.toNat (offset + len) := by
  unfold aegisfsMaxFileBytes at h
  rw [newSize, mod_eq_of_lt (by omega), mod_eq_of_lt (by omega)]
  split <;> omega

theorem newSize_small (he : e.size.toNat ≤ aegisfsMaxFileBytes)
    (h : offset + len ≤ aegisfsMaxFileBytes) : newSize e offset len ≤ aegisfsMaxFileBytes := by
  rw [newSize_eq h]
  exact Nat.max_le.mpr ⟨he, h⟩

def newImage (fs : Fs) (dev : Device) (i : Fin aegisfsMaxFiles) (offset : Nat) (buf : Store)
    (len : Nat) : Store :=
  blit (oldImage fs.part dev (fs.entries i)) offset len buf

def written (fs : Fs) (dev : Device) (i : Fin aegisfsMaxFiles) (offset : Nat) (buf : Store)
    (len : Nat) : Fs :=
  (relocate fs i (newSize (fs.entries i) offset len) (newImage fs dev i offset buf len)).seal

def dataWrites (fs : Fs) (dev : Device) (i : Fin aegisfsMaxFiles) (offset : Nat) (buf : Store)
    (len : Nat) : List SectorWrite :=
  split (fs.part.startLba + fs.sb.nextFreeLba.toNat)
    (sectorsOf (newSize (fs.entries i) offset len)) (newImage fs dev i offset buf len)

def allWrites (fs : Fs) (dev : Device) (i : Fin aegisfsMaxFiles) (offset : Nat) (buf : Store)
    (len : Nat) : List SectorWrite :=
  dataWrites fs dev i offset buf len ++ metadataWrites (written fs dev i offset buf len)

def Fits (fs : Fs) (i : Fin aegisfsMaxFiles) (offset len : Nat) : Prop :=
  fs.sb.nextFreeLba.toNat + sectorsOf (newSize (fs.entries i) offset len) ≤ fs.part.blockCount
  deriving Decidable

section
variable {fs : Fs} {dev : Device} {i : Fin aegisfsMaxFiles} {offset len : Nat}

section
variable (hs : Sound fs dev) (he : EntrySound fs dev (fs.entries i))
include hs he

theorem writeEntry_fits (hlen : 0 < len) (hmax : offset + len ≤ aegisfsMaxFileBytes)
    (hfit : Fits fs i offset len) (buf : Store) :
    writeEntry fs dev i offset buf len = ((len : Int), written fs dev i offset buf len,
        allWrites fs dev i offset buf len) := by
  unfold Fits at hfit
  have hinside := fs.part.inside
  have hbounded := fs.part.bounded
  have hsize : 0 < newSize (fs.entries i) offset len := by
    rw [newSize_eq hmax]
    omega
  have hsectors := sectorsOf_pos (newSize_small he.small hmax) hsize
  have hmod : (fs.sb.nextFreeLba.toNat + sectorsOf (newSize (fs.entries i) offset len)) % 2 ^ 64 =
      fs.sb.nextFreeLba.toNat + sectorsOf (newSize (fs.entries i) offset len) :=
    mod_eq_of_lt (by omega)
  have hwrite := blockPartitionWrite_ok hs.hosts hsectors hfit (newImage fs dev i offset buf len)
  have hpersist := persistMetadata_eq (relocate fs i (newSize (fs.entries i) offset len)
    (newImage fs dev i offset buf len)) hs.hosts hs.writable (le_trans hs.dataStart hs.room)
  rw [newImage] at hwrite hpersist
  simp only [writeEntry, hmod, if_neg (not_lt.mpr hfit), buildImage_eq hs he, hwrite, hpersist]
  rfl

/-- Without room nothing is issued. A sum of sectors that overflows 64 bits gets past the
test for room, and is then rejected by the partition layer. -/
theorem writeEntry_full (hfull : ¬ Fits fs i offset len) (buf : Store) :
    ∃ rc, rc < 0 ∧ writeEntry fs dev i offset buf len = (rc, fs, []) := by
  simp only [writeEntry, buildImage_eq hs he]
  split
  · exact ⟨aegisEnospc, by decide, rfl⟩
  split
  next rc hrc => exact ⟨rc, by rw [blockPartitionWrite_error hrc]; decide, rfl⟩
  next ws hws => exact absurd (blockPartitionWrite_bounds hws).2.1 hfull

end

/-- A list of writes that stays out of the allocated data sectors. -/
def SparesData (fs : Fs) (ws : List SectorWrite) : Prop :=
  ∀ w ∈ ws, w.lba < fs.part.startLba + aegisfsDataLba ∨
    fs.part.startLba + fs.sb.nextFreeLba.toNat ≤ w.lba

theorem allWrites_spares (fs : Fs) (dev : Device) (i : Fin aegisfsMaxFiles) (offset : Nat)
    (buf : Store) (len : Nat) : SparesData fs (allWrites fs dev i offset buf len) := by
  intro w hw
  rcases List.mem_append.mp hw with h | h
  · exact .inr (mem_split h).1
  · exact .inl (metadataWrites_lba h).2

theorem medium_kept (h : SparesData fs ws) (dev : Device)
    (hlo : (fs.part.startLba + aegisfsDataLba) * 512 ≤ x)
    (hhi : x < (fs.part.startLba + fs.sb.nextFreeLba.toNat) * 512) :
    (dev.issue ws).medium x = dev.medium x := by
  refine applyWrites_untouched dev.medium fun w hw => ?_
  have := h w hw
  omega

theorem medium_new (hs : Sound fs dev) (i : Fin aegisfsMaxFiles) (offset : Nat) (buf : Store)
    (len : Nat) (hx : x < sectorsOf (newSize (fs.entries i) offset len) * 512) :
    (dev.issue (allWrites fs dev i offset buf len)).medium
        ((fs.part.startLba + fs.sb.nextFreeLba.toNat) * 512 + x) =
      newImage fs dev i offset buf len x := by
  have hstart := hs.dataStart
  rw [allWrites, issue_append, issue_medium, applyWrites_untouched, issue_medium, dataWrites,
    applyWrites_split, blit_inside (by omega) (by omega)]
  · congr 1
    omega
  intro w hw
  have hlba := (metadataWrites_lba hw).2
  have hpart : (written fs dev i offset buf len).part = fs.part := rfl
  rw [hpart] at hlba
  omega

theorem EntrySound.kept {dev' : Device} (he : EntrySound fs dev e) (fs' : Fs)
    (hpart : fs'.part = fs.part) (hnext : fs.sb.nextFreeLba.toNat ≤ fs'.sb.nextFreeLba.toNat)
    (hmed : ∀ x, (fs.part.startLba + aegisfsDataLba) * 512 ≤ x →
      x < (fs.part.startLba + fs.sb.nextFreeLba.toNat) * 512 → dev'.medium x = dev.medium x) :
    EntrySound fs' dev' e ∧ fileBytes fs'.part dev' e = fileBytes fs.part dev e := by
  have hlen := le_sectorsOf he.small
  refine ⟨⟨he.small, he.dataArea, fun h => le_trans (he.allocated h) hnext, ?_⟩, ?_⟩
  · intro x hlo hhi
    have hpos : 0 < e.size.toNat := by
      by_contra h
      have h0 : e.size.toNat = 0 := by omega
      rw [h0] at hhi
      simp [sectorsOf] at hhi
    have h1 := he.dataArea hpos
    have h2 := he.allocated hpos
    rw [hpart, hmed _ (by unfold extentAddr; omega) (by unfold extentAddr; omega)]
    exact he.padded x hlo hhi
  · rw [hpart]
    refine readBytes_congr fun x hx => hmed _ ?_ ?_
    all_goals
      have h1 := he.dataArea (by omega)
      have h2 := he.allocated (by omega)
      unfold extentAddr
      omega

theorem Sound.kept (hs : Sound fs dev) (h : SparesData fs ws) : Sound fs (dev.issue ws) :=
  ⟨hs.hosts.issue ws, hs.writable, hs.dataStart, hs.room, fun i hi =>
    ((hs.entries i hi).kept fs rfl (le_refl _) fun _ => medium_kept h dev).1⟩

theorem Sound.fileBytes_kept (hs : Sound fs dev) (h : SparesData fs ws)
    (hi : (fs.entries i).valid ≠ 0) :
    fileBytes fs.part (dev.issue ws) (fs.entries i) = fileBytes fs.part dev (fs.entries i) :=
  ((hs.entries i hi).kept fs rfl (le_refl _) fun _ => medium_kept h dev).2

theorem written_next (dev : Device) (hfit : Fits fs i offset len) (buf : Store) :
    (written fs dev i offset buf len).sb.nextFreeLba.toNat =
      fs.sb.nextFreeLba.toNat + sectorsOf (newSize (fs.entries i) offset len) := by
  unfold Fits at hfit
  have hinside := fs.part.inside
  have hbounded := fs.part.bounded
  change (fs.sb.nextFreeLba + .ofNat _).toNat = _
  rw [UInt64.toNat_add, UInt64.toNat_ofNat', mod_eq_of_lt (a := sectorsOf _) (by omega),
    mod_eq_of_lt (by omega)]

theorem written_size (he : EntrySound fs dev (fs.entries i))
    (hmax : offset + len ≤ aegisfsMaxFileBytes) (buf : Store) :
    ((written fs dev i offset buf len).entries i).size.toNat = newSize (fs.entries i) offset len := by
  have hsmall := newSize_small he.small hmax
  unfold aegisfsMaxFileBytes at hsmall
  change (update fs.entries i _ i).size.toNat = _
  rw [update_self, UInt32.toNat_ofNat', mod_eq_of_lt (by omega)]

theorem written_startLba (fs : Fs) (dev : Device) (i : Fin aegisfsMaxFiles) (offset : Nat)
    (buf : Store) (len : Nat) :
    ((written fs dev i offset buf len).entries i).startLba = fs.sb.nextFreeLba := by
  change (update fs.entries i _ i).startLba = _
  rw [update_self]

theorem written_other {j : Fin aegisfsMaxFiles} (h : j ≠ i) (buf : Store) :
    (written fs dev i offset buf len).entries j = fs.entries j :=
  update_of_ne h _ _

variable (hs : Sound fs dev) (he : EntrySound fs dev (fs.entries i))
  (hmax : offset + len ≤ aegisfsMaxFileBytes)
include hs he hmax

theorem written_fileBytes (buf : Store) :
    fileBytes fs.part (dev.issue (allWrites fs dev i offset buf len))
        ((written fs dev i offset buf len).entries i) =
      readBytes (newImage fs dev i offset buf len) 0 (newSize (fs.entries i) offset len) := by
  have hlen := le_sectorsOf (newSize_small he.small hmax)
  rw [fileBytes, written_size he hmax]
  refine readBytes_congr fun x hx => ?_
  rw [extentAddr, written_startLba, medium_new hs i offset buf len (by omega), zero_add]

theorem written_entrySound (hfit : Fits fs i offset len) (buf : Store) :
    EntrySound (written fs dev i offset buf len) (dev.issue (allWrites fs dev i offset buf len))
      ((written fs dev i offset buf len).entries i) := by
  have hsize := written_size he hmax buf
  have hlba := written_startLba fs dev i offset buf len
  have hnew := newSize_eq (e := fs.entries i) hmax
  refine ⟨by rw [hsize]; exact newSize_small he.small hmax, fun _ => by rw [hlba]; exact hs.dataStart,
    fun _ => by rw [hlba, hsize, written_next dev hfit], ?_⟩
  intro x hlo hhi
  rw [hsize] at hlo hhi
  rw [extentAddr, hlba]
  refine (medium_new hs i offset buf len hhi).trans ?_
  rw [newImage, blit_outside (by omega), oldImage, if_neg (by omega)]

theorem written_sound (hfit : Fits fs i offset len) (buf : Store) :
    Sound (written fs dev i offset buf len) (dev.issue (allWrites fs dev i offset buf len)) := by
  have hnext := written_next dev hfit buf
  refine ⟨hs.hosts.issue _, hs.writable, ?_, by rw [hnext]; exact hfit, ?_⟩
  · rw [hnext]
    exact le_trans hs.dataStart (le_add_right _ _)
  intro j hj
  by_cases h : j = i
  · subst h
    exact written_entrySound hs he hmax hfit buf
  · rw [written_other h] at hj ⊢
    exact ((hs.entries j hj).kept (written fs dev i offset buf len) rfl (by omega) fun x =>
      medium_kept (allWrites_spares fs dev i offset buf len) dev).1

end

end AegisOS.AegisFs
