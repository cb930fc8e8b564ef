import AegisOS.Lib.CString
import AegisOS.Errno

/-! The ELF64 loader of `kernel/core/elf_loader.c`: validation of an image, and the copy of
its `PT_LOAD` segments into the backing of a runtime slot. An image is a byte function
with a length; addresses inside a slot are relative to the start of its backing, and
every copy is recorded, so that one which leaves the backing is visible. -/
namespace AegisOS.ElfLoader
open ByteStore CString

def pageSize : Nat := 4096
def aegisElfMaxLoadSegments : Nat := 8
def aegisElfRuntimeImageMax : Nat := 256 * 1024
def aegisElfImageBufMax : Nat := 512 * 1024
def aegisUserStackSize : Nat := 0x10000

def etExec : Nat := 2
def emAarch64 : Nat := 183
def ptLoad : Nat := 1
def pfX : Nat := 1
def pfW : Nat := 2
def pfR : Nat := 4

/-- The fields of `elf64_ehdr_t` the loader looks at. -/
structure Ehdr where
  ident : List UInt8
  eType : Nat
  eMachine : Nat
  eVersion : Nat
  eEntry : Nat
  ePhoff : Nat
  eEhsize : Nat
  ePhentsize : Nat
  ePhnum : Nat

/-- The fields of `elf64_phdr_t` the loader looks at. -/
structure Phdr where
  pType : Nat
  pFlags : Nat
  pOffset : Nat
  pVaddr : Nat
  pFilesz : Nat
  pMemsz : Nat
  pAlign : Nat
  deriving DecidableEq

/-- An unsigned little-endian field of `w` bytes at an offset of the image. -/
def fieldAt (image : Store) (offset w : Nat) : Nat := leNat (readBytes image offset w)

theorem fieldAt_lt (image : Store) (offset w : Nat) : fieldAt image offset w < 256 ^ w := by
  have h := leNat_lt (readBytes image offset w)
  rwa [length_readBytes] at h

def readEhdr (image : Store) : Ehdr where
  ident := readBytes image 0 7
  eType := fieldAt image 16 2
  eMachine := fieldAt image 18 2
  eVersion := fieldAt image 20 4
  eEntry := fieldAt image 24 8
  ePhoff := fieldAt image 32 8
  eEhsize := fieldAt image 52 2
  ePhentsize := fieldAt image 54 2
  ePhnum := fieldAt image 56 2

def readPhdr (image : Store) (offset : Nat) : Phdr where
  pType := fieldAt image offset 4
  pFlags := fieldAt image (offset + 4) 4
  pOffset := fieldAt image (offset + 8) 8
  pVaddr := fieldAt image (offset + 16) 8
  pFilesz := fieldAt image (offset + 32) 8
  pMemsz := fieldAt image (offset + 40) 8
  pAlign := fieldAt image (offset + 48) 8

/-- `ph[0] .. ph[e_phnum - 1]` -/
def programHeaders (image : Store) : List Phdr :=
  (List.range (readEhdr image).ePhnum).map fun i => readPhdr image ((readEhdr image).ePhoff + 56 * i)

def loadSegments (image : Store) : List Phdr :=
  (programHeaders image).filter fun ph => ph.pType = ptLoad

/-- `x & ~(u64)(PAGE_SIZE-1U)` -/
def pageDown (x : Nat) : Nat := x - x % pageSize

def segStart (ph : Phdr) : Nat := pageDown ph.pVaddr

def segEnd (ph : Phdr) : Nat := pageDown ((ph.pVaddr + ph.pMemsz + (pageSize - 1)) % 2 ^ 64)

def rangeContains (base size addr : Nat) : Bool :=
  let stop := (base + size) % 2 ^ 64
  size ≠ 0 ∧ base < stop ∧ base ≤ addr ∧ addr < stop

def aegisElfLoadRead : Nat := 1
def aegisElfLoadWrite : Nat := 2
def aegisElfLoadExec : Nat := 4

def elfFlagsToLoaderFlags (flags : Nat) : Nat :=
  (if flags &&& pfR ≠ 0 then aegisElfLoadRead else 0) |||
  (if flags &&& pfW ≠ 0 then aegisElfLoadWrite else 0) |||
  (if flags &&& pfX ≠ 0 then aegisElfLoadExec else 0)

/-- `aegis_elf_image_info_t` -/
structure ImageInfo where
  validated : Bool
  loadable : Bool
  path : CArray 64
  entry : Nat
  textVaddr : Nat
  textFilesz : Nat
  textMemsz : Nat
  textFlags : Nat
  textPtLoadCopied : Bool
  textPermissionsReady : Bool
  textFileBytesCopied : Nat
  textZeroBytes : Nat
  textKernelBacking : Nat
  runtimeImageBase : Nat
  runtimeImageSize : Nat
  loadSegmentCount : Nat
  runtimeEntry : Nat
  runtimeStackBase : Nat
  runtimeStackSize : Nat
  runtimeStackTop : Nat
  runtimeSlot : Nat
  phnum : Nat
  machine : Nat
  type : Nat

def ImageInfo.zero : ImageInfo :=
  ⟨false, false, strcopy .empty, 0, 0, 0, 0, 0, false, false, 0, 0, 0, 0, 0, 0, 0,
    0, 0, 0, 0, 0, 0, 0⟩

/-- The running values of the validation loop; `text` is what it stores in the info. -/
structure Scan where
  minVaddr : Nat
  maxVaddr : Nat
  entryExec : Bool
  loads : Nat
  text : Option Phdr

def Scan.start : Scan := ⟨2 ^ 64 - 1, 0, false, 0, none⟩

def scanSegment (imageLen entry : Nat) (acc : Scan) (ph : Phdr) : Except Int Scan :=
  if ph.pType ≠ ptLoad then .ok acc
  else if aegisElfMaxLoadSegments < acc.loads + 1 ∨ ph.pMemsz = 0 ∨ ph.pMemsz < ph.pFilesz then
    .error aegisEinval
  else if ph.pAlign ≠ 0 ∧ ph.pAlign &&& (ph.pAlign - 1) ≠ 0 then .error aegisEinval
  else if imageLen < (ph.pOffset + ph.pFilesz) % 2 ^ 64 ∨
      (ph.pOffset + ph.pFilesz) % 2 ^ 64 < ph.pOffset then .error aegisEinval
  else if ph.pFlags &&& (pfW ||| pfX) = pfW ||| pfX then .error aegisEperm
  else if segEnd ph ≤ segStart ph then .error aegisEinval
  else
    let isText := rangeContains ph.pVaddr ph.pMemsz entry ∧ ph.pFlags &&& pfX ≠ 0
    .ok
      { minVaddr := if segStart ph < acc.minVaddr then segStart ph else acc.minVaddr
        maxVaddr := if acc.maxVaddr < segEnd ph then segEnd ph else acc.maxVaddr
        entryExec := isText || acc.entryExec
        loads := acc.loads + 1
        text := if isText then some ph else acc.text }

def scanSegments (imageLen entry : Nat) : Scan → List Phdr → Except Int Scan
  | acc, [] => .ok acc
  | acc, ph :: phs =>
    match scanSegment imageLen entry acc ph with
    | .error rc => .error rc
    | .ok acc => scanSegments imageLen entry acc phs

/-- `elf_loader_validate_image` of an initialised loader with its three pointers set. -/
def elfLoaderValidateImage (image : Store) (imageLen : Nat) (path : Option CStr) :
    Except Int ImageInfo :=
  let eh := readEhdr image
  let phEnd := (eh.ePhoff + eh.ePhentsize * eh.ePhnum) % 2 ^ 64
  if imageLen < 64 then .error aegisEinval
  else if eh.ident ≠ [0x7f, 0x45, 0x4c, 0x46, 2, 1, 1] then .error aegisEinval
  else if eh.eType ≠ etExec ∨ eh.eMachine ≠ emAarch64 ∨ eh.eVersion ≠ 1 then .error aegisEinval
  else if eh.eEhsize ≠ 64 ∨ eh.ePhentsize ≠ 56 then .error aegisEinval
  else if eh.ePhnum = 0 ∨ aegisElfMaxLoadSegments < eh.ePhnum ∨ imageLen ≤ eh.ePhoff then
    .error aegisEinval
  else if imageLen < phEnd ∨ phEnd < eh.ePhoff then .error aegisEinval
  else
    match scanSegments imageLen eh.eEntry .start (programHeaders image) with
    | .error rc => .error rc
    | .ok scan =>
      let size := (scan.maxVaddr + 2 ^ 64 - scan.minVaddr) % 2 ^ 64
      if scan.loads = 0 ∨ scan.entryExec = false ∨ scan.minVaddr = 2 ^ 64 - 1 ∨
          aegisElfRuntimeImageMax < size then .error aegisEinval
      else
        .ok
          { ImageInfo.zero with
            phnum := eh.ePhnum
            machine := eh.eMachine
            type := eh.eType
            entry := eh.eEntry
            path := strcopy (path.getD (cstr "<memory>"))
            textVaddr := (scan.text.map Phdr.pVaddr).getD 0
            textFilesz := (scan.text.map Phdr.pFilesz).getD 0
            textMemsz := (scan.text.map Phdr.pMemsz).getD 0
            textFlags := (scan.text.map fun ph => elfFlagsToLoaderFlags ph.pFlags).getD 0
            runtimeImageSize := size
            loadSegmentCount := scan.loads
            loadable := true
            validated := true }

/-- `aegis_elf_runtime_segment_t` -/
structure RuntimeSegment where
  base : Nat
  size : Nat
  flags : Nat

/-- `aegis_elf_runtime_slot_t`; `imageBase` and `stackBase` are the addresses of its two
arrays. -/
structure RuntimeSlot where
  used : Bool
  info : ImageInfo
  imageBase : Nat
  imageBacking : Store
  stackBase : Nat
  segments : List RuntimeSegment

/-- One round of the first loop of `copy_executable_pt_load`. -/
def widen (acc : Nat × Nat) (ph : Phdr) : Nat × Nat :=
  if ph.pType = ptLoad then
    (if segStart ph < acc.1 then segStart ph else acc.1,
      if acc.2 < segEnd ph then segEnd ph else acc.2)
  else acc

def imageSpan (phs : List Phdr) : Nat × Nat := phs.foldl widen (2 ^ 64 - 1, 0)

/-- The running values of the copy loop. `stores` are the ranges of the backing that
`copy_mem` wrote. -/
structure Copy where
  backing : Store
  stores : List (Nat × Nat)
  segments : List RuntimeSegment
  copied : Nat
  zeroed : Nat

def copySegment (image : Store) (imageLen minVaddr imageBase : Nat) (acc : Copy) (ph : Phdr) :
    Except Int Copy :=
  let off := (ph.pVaddr + 2 ^ 64 - minVaddr) % 2 ^ 64
  if ph.pType ≠ ptLoad then .ok acc
  else if imageLen < (ph.pOffset + ph.pFilesz) % 2 ^ 64 then .error aegisEinval
  else if aegisElfRuntimeImageMax < (off + ph.pMemsz) % 2 ^ 64 then .error aegisEnomem
  else
    .ok
      { backing := blit acc.backing off ph.pFilesz fun i => image (ph.pOffset + i)
        stores := acc.stores ++ [(off, ph.pFilesz)]
        segments := acc.segments ++
          [⟨(imageBase + off) % 2 ^ 64, ph.pMemsz, elfFlagsToLoaderFlags ph.pFlags⟩]
        copied := (acc.copied + ph.pFilesz) % 2 ^ 64
        zeroed := (acc.zeroed + (ph.pMemsz - ph.pFilesz)) % 2 ^ 64 }

def copySegments (image : Store) (imageLen minVaddr imageBase : Nat) :
    Copy → List Phdr → Except Int Copy
  | acc, [] => .ok acc
  | acc, ph :: phs =>
    match copySegment image imageLen minVaddr imageBase acc ph with
    | .error rc => .error rc
    | .ok acc => copySegments image imageLen minVaddr imageBase acc phs

/-- What a successful copy leaves: the slot, the completed info and the stored ranges. -/
structure Loaded where
  slot : RuntimeSlot
  info : ImageInfo
  stores : List (Nat × Nat)

/-- `copy_executable_pt_load`, its pointers set. -/
def copyExecutablePtLoad (image : Store) (imageLen : Nat) (slot : RuntimeSlot) (slotId : Nat)
    (info : ImageInfo) : Except Int Loaded :=
  let span := imageSpan (programHeaders image)
  let size := (span.2 + 2 ^ 64 - span.1) % 2 ^ 64
  if info.validated = false ∨ info.loadable = false then .error aegisEinval
  else if span.1 = 2 ^ 64 - 1 ∨ aegisElfRuntimeImageMax < size then .error aegisEnomem
  else
    match copySegments image imageLen span.1 slot.imageBase ⟨fun _ => 0, [], [], 0, 0⟩
        (programHeaders image) with
    | .error rc => .error rc
    | .ok done =>
      let info :=
        { info with
          textPtLoadCopied := true
          textPermissionsReady := true
          textFileBytesCopied := done.copied
          textZeroBytes := done.zeroed
          runtimeImageBase := slot.imageBase
          runtimeImageSize := size
          textKernelBacking := slot.imageBase
          textMemsz := size
          runtimeEntry := (slot.imageBase + (info.entry + 2 ^ 64 - span.1)) % 2 ^ 64
          runtimeStackBase := slot.stackBase
          runtimeStackSize := aegisUserStackSize
          runtimeStackTop :=
            (slot.stackBase + aegisUserStackSize) % 2 ^ 64 -
              (slot.stackBase + aegisUserStackSize) % 2 ^ 64 % 16
          runtimeSlot := slotId }
      .ok
        { slot := { slot with imageBacking := done.backing, segments := done.segments, info := info }
          info := info
          stores := done.stores }

/-! Concrete images. -/

/-- The bytes of an ELF header for `phnum` program headers right behind it. -/
def ehdrBytes (entry phnum : Nat) : List UInt8 :=
  [0x7f, 0x45, 0x4c, 0x46, 2, 1, 1, 0, 0, 0, 0, 0, 0, 0, 0, 0] ++ leBytes 2 etExec ++
    leBytes 2 emAarch64 ++ leBytes 4 1 ++ leBytes 8 entry ++ leBytes 8 64 ++ leBytes 8 0 ++
    leBytes 4 0 ++ leBytes 2 64 ++ leBytes 2 56 ++ leBytes 2 phnum ++ leBytes 6 0

def phdrBytes (ph : Phdr) : List UInt8 :=
  leBytes 4 ph.pType ++ leBytes 4 ph.pFlags ++ leBytes 8 ph.pOffset ++ leBytes 8 ph.pVaddr ++
    leBytes 8 ph.pVaddr ++ leBytes 8 ph.pFilesz ++ leBytes 8 ph.pMemsz ++ leBytes 8 ph.pAlign

def codeSegment : Phdr := ⟨ptLoad, pfR ||| pfX, 0, 0x1000, 120, 0x1000, 0x1000⟩

def plainImage : Store := ofList (ehdrBytes 0x1000 1 ++ phdrBytes codeSegment)

/-! The pool of runtime slots of the ELF loader (`kernel/core/elf_loader.c`): loading a
file into a free slot and giving a slot back. -/

structure Runtime where
  slots : Fin 16 → RuntimeSlot
  loaderInitialised : Bool
  builtinRuntimeSlot : UInt32

def RuntimeSlot.clear (r : RuntimeSlot) (used : Bool) : RuntimeSlot :=
  { r with used := used, info := .zero, imageBacking := fun _ => 0, segments := [] }

def Runtime.set (r : Runtime) (i : Fin 16) (slot : RuntimeSlot) : Runtime :=
  { r with slots := Function.update r.slots i slot }

def runtimeSlotAllocate (r : Runtime) : Option (Runtime × Fin 16) :=
  (Fin.find? fun i => !(r.slots i).used).map fun i => (r.set i ((r.slots i).clear true), i)

/-- A failed copy gives the slot back. What it stored before it failed is left out: nothing reads
the slot until `runtime_slot_allocate` clears it again. -/
def loadImageIntoRuntime (r : Runtime) (image : Store) (imageLen : Nat) (path : CStr) :
    Runtime × Except Int ImageInfo :=
  match elfLoaderValidateImage image imageLen (some path) with
  | .error rc => (r, .error rc)
  | .ok info =>
    match runtimeSlotAllocate r with
    | none => (r, .error aegisEnomem)
    | some (r, i) =>
      match copyExecutablePtLoad image imageLen (r.slots i) (i.val + 1) info with
      | .error rc => (r.set i { r.slots i with used := false }, .error rc)
      | .ok done => (r.set i done.slot, .ok done.info)

/-- What the file system answers for a path: nothing, or the result of the read. -/
structure FileRead where
  bytes : Store
  result : Int

def elfLoaderLoadVfsPath (r : Runtime) (file : Option FileRead) (path : CStr) :
    Runtime × Except Int ImageInfo :=
  if r.loaderInitialised = false then (r, .error aegisEinval)
  else
    match file with
    | none => (r, .error aegisEnoent)
    | some f =>
      if f.result ≤ 0 then (r, .error aegisEinval)
      else if (aegisElfImageBufMax : Int) ≤ f.result then (r, .error aegisEnomem)
      else loadImageIntoRuntime r f.bytes f.result.toNat path

/-- `elf_loader_init` -/
def elfLoaderInit (r : Runtime) : Runtime where
  slots := fun i => { r.slots i with used := false, info := .zero }
  loaderInitialised := true
  builtinRuntimeSlot := 0

def elfLoaderLoadVfsAegisInit (r : Runtime) (file : Option FileRead) : Runtime × Except Int ImageInfo :=
  match elfLoaderLoadVfsPath r file (cstr "/sbin/aegis-init") with
  | (r, .error rc) => (r, .error rc)
  | (r, .ok info) => ({ r with builtinRuntimeSlot := info.runtimeSlot.toUInt32 }, .ok info)

def slotOf (id : UInt32) : Option (Fin 16) :=
  if h : 0 < id.toNat ∧ id.toNat ≤ 16 then some ⟨id.toNat - 1, by omega⟩ else none

def elfLoaderReleaseRuntimeSlot (r : Runtime) (id : UInt32) : Runtime × Int :=
  match slotOf id with
  | none => (r, aegisEinval)
  | some i =>
    if r.loaderInitialised = false then (r, aegisEinval)
    else if id = r.builtinRuntimeSlot then (r, aegisEperm)
    else if (r.slots i).used = false then (r, aegisEnoent)
    else (r.set i ((r.slots i).clear false), aegisOk)

/-! Where the ELF loader copies the segments of an image it accepts: inside the backing of
the slot exactly when no segment's end wraps around the 64-bit address space. -/
open List Nat

/-! The span of the segments. -/

theorem widen_bounds (acc : Nat × Nat) (ph : Phdr) :
    (widen acc ph).1 ≤ acc.1 ∧ acc.2 ≤ (widen acc ph).2 := by
  unfold widen
  split
  · constructor
    · split <;> omega
    · dsimp only
      split <;> omega
  · exact ⟨le_refl _, le_refl _⟩

variable {ph : Phdr} {phs : List Phdr} {imageLen entry minVaddr base : Nat} {image : Store}
  {info : ImageInfo}

theorem widen_load (acc : Nat × Nat) (h : ph.pType = ptLoad) :
    (widen acc ph).1 ≤ segStart ph ∧ segEnd ph ≤ (widen acc ph).2 := by
  rw [widen, if_pos h]
  constructor
  · split <;> omega
  · dsimp only
    split <;> omega

theorem foldl_widen_bounds (phs : List Phdr) (acc : Nat × Nat) :
    (phs.foldl widen acc).1 ≤ acc.1 ∧ acc.2 ≤ (phs.foldl widen acc).2 := by
  induction phs generalizing acc with
  | nil => exact ⟨le_refl _, le_refl _⟩
  | cons ph phs ih =>
    have hstep := widen_bounds acc ph
    have htail := ih (widen acc ph)
    rw [foldl_cons]
    omega

theorem foldl_widen_load (hmem : ph ∈ phs) (h : ph.pType = ptLoad) (acc : Nat × Nat) :
    (phs.foldl widen acc).1 ≤ segStart ph ∧ segEnd ph ≤ (phs.foldl widen acc).2 := by
  induction phs generalizing acc with
  | nil => cases hmem
  | cons head phs ih =>
    rw [foldl_cons]
    cases mem_cons.mp hmem with
    | inl heq =>
      subst heq
      have hstep := widen_load acc h
      have htail := foldl_widen_bounds phs (widen acc ph)
      omega
    | inr htail => exact ih htail (widen acc head)

/-! The validation loop. -/

structure Checked (ph : Phdr) : Prop where
  memsz : ph.pMemsz ≠ 0
  filesz : ph.pFilesz ≤ ph.pMemsz
  proper : segStart ph < segEnd ph

def InFile (imageLen : Nat) (ph : Phdr) : Prop :=
  (ph.pOffset + ph.pFilesz) % 2 ^ 64 ≤ imageLen ∧ ph.pOffset ≤ (ph.pOffset + ph.pFilesz) % 2 ^ 64

def IsText (entry : Nat) (ph : Phdr) : Prop :=
  rangeContains ph.pVaddr ph.pMemsz entry = true ∧ ph.pFlags &&& pfX ≠ 0

structure Scanned (imageLen entry : Nat) (acc : Scan) (phs : List Phdr) (scan : Scan) : Prop where
  span : (scan.minVaddr, scan.maxVaddr) = phs.foldl widen (acc.minVaddr, acc.maxVaddr)
  checked : ∀ ph ∈ phs, ph.pType = ptLoad → Checked ph ∧ InFile imageLen ph
  text : scan.entryExec = true →
    acc.entryExec = true ∨ ∃ ph ∈ phs, ph.pType = ptLoad ∧ IsText entry ph

theorem scanSegment_ok {acc acc' : Scan} (h : scanSegment imageLen entry acc ph = .ok acc') :
    Scanned imageLen entry acc [ph] acc' := by
  unfold scanSegment at h
  split at h
  next htype =>
    cases h
    refine ⟨by rw [foldl_cons, widen, if_neg htype, foldl_nil], fun q hq hload => ?_, .inl⟩
    exact absurd (mem_singleton.mp hq ▸ hload) htype
  rename_i htype
  rw [not_not] at htype
  split at h
  · cases h
  rename_i hsizes
  split at h
  · cases h
  split at h
  · cases h
  rename_i hfile
  split at h
  · cases h
  split at h
  · cases h
  rename_i hspan
  cases h
  push Not at hsizes
  rw [not_or, not_lt, not_lt] at hfile
  refine ⟨by rw [foldl_cons, widen, if_pos htype, foldl_nil], fun q hq _ => ?_, fun hexec => ?_⟩
  · rw [mem_singleton.mp hq]
    exact ⟨⟨hsizes.2.1, hsizes.2.2, not_le.mp hspan⟩, hfile⟩
  · rw [Bool.or_eq_true, decide_eq_true_eq] at hexec
    exact hexec.symm.imp_right fun htext => ⟨ph, mem_singleton_self ph, htype, htext⟩

theorem scanSegments_ok {acc scan : Scan} (h : scanSegments imageLen entry acc phs = .ok scan) :
    Scanned imageLen entry acc phs scan := by
  induction phs generalizing acc with
  | nil =>
    cases h
    exact ⟨rfl, nofun, .inl⟩
  | cons head phs ih =>
    unfold scanSegments at h
    split at h
    · cases h
    rename_i acc' hhead
    have hs := scanSegment_ok hhead
    have hrest := ih h
    refine ⟨hrest.span.trans (congrArg (phs.foldl widen) hs.span), ?_, fun htrue => ?_⟩
    · exact forall_mem_cons.mpr ⟨hs.checked head (mem_singleton_self head), hrest.checked⟩
    rcases hrest.text htrue with hacc | ⟨ph, hmem, htext⟩
    · refine (hs.text hacc).imp_right fun ⟨ph, hmem, htext⟩ => ⟨ph, ?_, htext⟩
      exact mem_cons.mpr (.inl (mem_singleton.mp hmem))
    · exact .inr ⟨ph, mem_cons_of_mem head hmem, htext⟩

section
variable {path : Option CStr} (h : elfLoaderValidateImage image imageLen path = .ok info)
include h

theorem validateImage_scan :
    ∃ scan, Scanned imageLen info.entry .start (programHeaders image) scan ∧
      scan.entryExec = true ∧ scan.minVaddr ≠ 2 ^ 64 - 1 ∧
      (scan.maxVaddr + 2 ^ 64 - scan.minVaddr) % 2 ^ 64 ≤ aegisElfRuntimeImageMax ∧
      info.validated = true ∧ info.loadable = true := by
  unfold elfLoaderValidateImage at h
  dsimp only at h
  iterate 6
    split at h
    · cases h
  split at h
  · cases h
  rename_i scan hscan
  split at h
  · cases h
  rename_i haccept
  push Not at haccept
  obtain ⟨-, hexec, hmin, hsize⟩ := haccept
  cases h
  exact ⟨scan, scanSegments_ok hscan, Bool.not_eq_false _ ▸ hexec, hmin, hsize, rfl, rfl⟩

theorem validateImage_ok : ∀ ph ∈ loadSegments image, Checked ph := by
  intro ph hmem
  obtain ⟨hin, hload⟩ := mem_filter.mp hmem
  obtain ⟨scan, hscan, -⟩ := validateImage_scan h
  exact (hscan.checked ph hin (of_decide_eq_true hload)).1

end

/-! The copy loop. -/

def segOffset (minVaddr : Nat) (ph : Phdr) : Nat := (ph.pVaddr + 2 ^ 64 - minVaddr) % 2 ^ 64

def segStore (minVaddr : Nat) (ph : Phdr) : Nat × Nat := (segOffset minVaddr ph, ph.pFilesz)

def segRecord (imageBase minVaddr : Nat) (ph : Phdr) : RuntimeSegment :=
  ⟨(imageBase + segOffset minVaddr ph) % 2 ^ 64, ph.pMemsz, elfFlagsToLoaderFlags ph.pFlags⟩

theorem copySegment_ok {acc acc' : Copy}
    (h : copySegment image imageLen minVaddr base acc ph = .ok acc') :
    (ph.pType ≠ ptLoad ∧ acc' = acc) ∨
      ph.pType = ptLoad ∧ acc'.stores = acc.stores ++ [segStore minVaddr ph] ∧
        acc'.segments = acc.segments ++ [segRecord base minVaddr ph] := by
  unfold copySegment at h
  dsimp only at h
  split at h
  next htype =>
    cases h
    exact .inl ⟨htype, rfl⟩
  rename_i htype
  rw [not_not] at htype
  split at h
  · cases h
  split at h
  · cases h
  cases h
  exact .inr ⟨htype, rfl, rfl⟩

theorem copySegments_ok
    {acc done : Copy} (h : copySegments image imageLen minVaddr base acc phs = .ok done) :
    done.stores = acc.stores ++ (phs.filter fun ph => ph.pType = ptLoad).map (segStore minVaddr) ∧
      done.segments =
        acc.segments ++ (phs.filter fun ph => ph.pType = ptLoad).map (segRecord base minVaddr) := by
  induction phs generalizing acc with
  | nil =>
    cases h
    simp
  | cons head phs ih =>
    unfold copySegments at h
    split at h
    · cases h
    rename_i acc' hhead
    obtain ⟨hstores, hsegments⟩ := ih h
    rw [hstores, hsegments]
    obtain ⟨htype, rfl⟩ | ⟨htype, hstore, hsegment⟩ := copySegment_ok hhead
    · simp [htype]
    · simp [htype, hstore, hsegment]

structure Filled (image : Store) (slot : RuntimeSlot) (slotId : Nat) (out : Loaded) : Prop where
  size : out.info.runtimeImageSize =
    ((imageSpan (programHeaders image)).2 + 2 ^ 64 - (imageSpan (programHeaders image)).1) % 2 ^ 64
  fits : out.info.runtimeImageSize ≤ aegisElfRuntimeImageMax
  stores : out.stores = (loadSegments image).map (segStore (imageSpan (programHeaders image)).1)
  segments : out.slot.segments =
    (loadSegments image).map (segRecord slot.imageBase (imageSpan (programHeaders image)).1)
  imageBase : out.slot.imageBase = slot.imageBase
  stackBase : out.slot.stackBase = slot.stackBase
  used : out.slot.used = slot.used
  info : out.slot.info = out.info
  slotId : out.info.runtimeSlot = slotId
  infoStack : out.info.runtimeStackBase = slot.stackBase ∧
    out.info.runtimeStackSize = aegisUserStackSize

theorem copyExecutablePtLoad_ok {slot : RuntimeSlot} {slotId : Nat} {out : Loaded}
    (h : copyExecutablePtLoad image imageLen slot slotId info = .ok out) :
    Filled image slot slotId out := by
  unfold copyExecutablePtLoad at h
  dsimp only at h
  split at h
  · cases h
  split at h
  · cases h
  rename_i hsize
  split at h
  · cases h
  rename_i done hdone
  obtain ⟨hstores, hsegments⟩ := copySegments_ok hdone
  push Not at hsize
  cases h
  exact ⟨rfl, hsize.2, hstores, hsegments, rfl, rfl, rfl, rfl, rfl, rfl, rfl⟩

/-! Arithmetic of the segments. -/

theorem pageDown_le (x : Nat) : pageDown x ≤ x := sub_le _ _

theorem segStart_le (ph : Phdr) : segStart ph ≤ ph.pVaddr := pageDown_le _

theorem segEnd_lt (ph : Phdr) : segEnd ph < 2 ^ 64 :=
  lt_of_le_of_lt (pageDown_le _) (mod_lt _ (by decide))

theorem foldl_widen_top (phs : List Phdr) {acc : Nat × Nat} (h : acc.2 < 2 ^ 64) :
    (phs.foldl widen acc).2 < 2 ^ 64 := by
  induction phs generalizing acc with
  | nil => exact h
  | cons head phs ih =>
    refine ih ?_
    have hend := segEnd_lt head
    unfold widen
    split
    · dsimp only
      split <;> omega
    · exact h

/-- A segment that ends below 2^64 and passed the span test ends at or below its rounded
end: rounding up past 2^64 gives zero, which the test rejects. -/
theorem le_segEnd (hend : ph.pVaddr + ph.pMemsz < 2 ^ 64)
    (hspan : segStart ph < segEnd ph) : ph.pVaddr + ph.pMemsz ≤ segEnd ph := by
  unfold segEnd pageDown pageSize at *
  by_cases hround : ph.pVaddr + ph.pMemsz + 4095 < 2 ^ 64
  · omega
  omega

theorem mem_programHeaders (h : ph ∈ programHeaders image) : ph.pVaddr < 2 ^ 64 := by
  obtain ⟨i, -, rfl⟩ := mem_map.mp h
  exact fieldAt_lt image _ 8

/-- Every segment lies inside the image span, which fits the backing, and so does every
store. -/
structure CopiedInside (image : Store) (out : Loaded) : Prop where
  size : out.info.runtimeImageSize ≤ aegisElfRuntimeImageMax
  lowest : ∀ ph ∈ loadSegments image, (imageSpan (programHeaders image)).1 ≤ ph.pVaddr
  filesz : ∀ ph ∈ loadSegments image,
    ph.pVaddr - (imageSpan (programHeaders image)).1 + ph.pFilesz ≤ out.info.runtimeImageSize
  memsz : ∀ ph ∈ loadSegments image,
    ph.pVaddr - (imageSpan (programHeaders image)).1 + ph.pMemsz ≤ out.info.runtimeImageSize
  stores : ∀ r ∈ out.stores, r.1 + r.2 ≤ aegisElfRuntimeImageMax

section
variable {image : Store} {imageLen slotId : Nat} {path : Option CStr} {slot : RuntimeSlot}
  {info : ImageInfo} {out : Loaded}

section
variable (hv : elfLoaderValidateImage image imageLen path = .ok info)
include hv

theorem segment_span (hph : ph ∈ loadSegments image) {span : Nat × Nat}
    (hspan : span = imageSpan (programHeaders image)) :
    span.1 ≤ segStart ph ∧ segEnd ph ≤ span.2 ∧ span.2 < 2 ^ 64 ∧ segStart ph < segEnd ph ∧
      segStart ph ≤ ph.pVaddr ∧ segOffset span.1 ph = ph.pVaddr - span.1 := by
  obtain ⟨hin, hload⟩ := mem_filter.mp hph
  have hinside : span.1 ≤ segStart ph ∧ segEnd ph ≤ span.2 :=
    hspan ▸ foldl_widen_load hin (of_decide_eq_true hload) _
  have hmax : span.2 < 2 ^ 64 := hspan ▸ foldl_widen_top _ (by decide)
  have hstart := segStart_le ph
  have hvaddr := mem_programHeaders hin
  refine ⟨hinside.1, hinside.2, hmax, (validateImage_ok hv ph hph).proper, hstart, ?_⟩
  rw [segOffset]
  omega

theorem span_around (hc : copyExecutablePtLoad image imageLen slot slotId info = .ok out)
    (hph : ph ∈ loadSegments image) :
    (imageSpan (programHeaders image)).1 ≤ ph.pVaddr ∧
      segEnd ph ≤ (imageSpan (programHeaders image)).1 + out.info.runtimeImageSize ∧
      (imageSpan (programHeaders image)).1 + out.info.runtimeImageSize < 2 ^ 64 ∧
      segOffset (imageSpan (programHeaders image)).1 ph =
        ph.pVaddr - (imageSpan (programHeaders image)).1 := by
  obtain ⟨hlow, hhigh, hmax, hproper, hstart, hoff⟩ := segment_span hv hph rfl
  have hsize := (copyExecutablePtLoad_ok hc).size
  omega

end

/-- An accepted image is copied inside the backing exactly when no segment's end wraps. -/
theorem accepted_image_inside (hv : elfLoaderValidateImage image imageLen path = .ok info)
    (hc : copyExecutablePtLoad image imageLen slot slotId info = .ok out) :
    CopiedInside image out ↔ ∀ ph ∈ loadSegments image, ph.pVaddr + ph.pMemsz < 2 ^ 64 := by
  have hfilled := copyExecutablePtLoad_ok hc
  constructor
  · intro hinside ph hph
    obtain ⟨hlow, -, htop, -⟩ := span_around hv hc hph
    have hmem := hinside.memsz ph hph
    omega
  intro hend
  have hmem : ∀ ph ∈ loadSegments image,
      ph.pVaddr - (imageSpan (programHeaders image)).1 + ph.pMemsz ≤
        out.info.runtimeImageSize := by
    intro ph hph
    obtain ⟨hlow, hhigh, -, -⟩ := span_around hv hc hph
    have hseg := le_segEnd (hend ph hph) (validateImage_ok hv ph hph).proper
    omega
  have hfile : ∀ ph ∈ loadSegments image,
      ph.pVaddr - (imageSpan (programHeaders image)).1 + ph.pFilesz ≤
        out.info.runtimeImageSize := by
    intro ph hph
    have hsizes := (validateImage_ok hv ph hph).filesz
    have := hmem ph hph
    omega
  refine ⟨hfilled.fits, fun ph hph => (span_around hv hc hph).1, hfile, hmem, fun r hr => ?_⟩
  rw [hfilled.stores] at hr
  obtain ⟨ph, hph, rfl⟩ := mem_map.mp hr
  have hoff := (span_around hv hc hph).2.2.2
  have hsize := hfile ph hph
  have hmax := hfilled.fits
  dsimp only [segStore]
  omega

end

/-! Concrete images. -/

def emptySlot : RuntimeSlot := ⟨true, .zero, 0x40000000, fun _ => 0, 0x40100000, []⟩

/-- Data at 0x1800 whose memory size brings its end round to 0x1700. -/
def wrappingSegment : Phdr := ⟨ptLoad, pfR, 176, 0x1800, 300000, 2 ^ 64 - 0x100, 0⟩

def wrappingImage : Store :=
  ofList (ehdrBytes 0x1000 2 ++ (phdrBytes codeSegment ++ phdrBytes wrappingSegment))

theorem plainImage_inside : ∃ info out, elfLoaderValidateImage plainImage 120 none = .ok info ∧
      copyExecutablePtLoad plainImage 120 emptySlot 1 info = .ok out ∧
      CopiedInside plainImage out := by
  obtain ⟨info, hv⟩ : ∃ info, elfLoaderValidateImage plainImage 120 none = .ok info := ⟨_, rfl⟩
  obtain ⟨out, hc⟩ : ∃ out, copyExecutablePtLoad plainImage 120 emptySlot 1 info = .ok out := by
    cases hv
    exact ⟨_, rfl⟩
  refine ⟨info, out, hv, hc, (accepted_image_inside hv hc).mpr fun ph hph => ?_⟩
  have hsegments : loadSegments plainImage = [codeSegment] := by decide +kernel
  rw [hsegments, mem_singleton] at hph
  subst hph
  decide

/-- The loader accepts the image of 300176 bytes and copies 300000 of them to offset 2048
of a backing of 262144 bytes. -/
theorem wrapping_segment_overruns :
    ∃ info out, elfLoaderValidateImage wrappingImage 300176 none = .ok info ∧
      copyExecutablePtLoad wrappingImage 300176 emptySlot 1 info = .ok out ∧
      (2048, 300000) ∈ out.stores ∧ aegisElfRuntimeImageMax < 2048 + 300000 ∧
      ¬ CopiedInside wrappingImage out := by
  obtain ⟨info, hv⟩ : ∃ info, elfLoaderValidateImage wrappingImage 300176 none = .ok info := ⟨_, rfl⟩
  obtain ⟨out, hc, hout⟩ : ∃ out, copyExecutablePtLoad wrappingImage 300176 emptySlot 1 info = .ok out ∧
      out.stores = [(0, 120), (2048, 300000)] := by
    cases hv
    exact ⟨_, rfl, rfl⟩
  have hstore : (2048, 300000) ∈ out.stores := by simp [hout]
  refine ⟨info, out, hv, hc, hstore, by decide, fun hinside => ?_⟩
  exact absurd (hinside.stores _ hstore) (by decide)

end AegisOS.ElfLoader
