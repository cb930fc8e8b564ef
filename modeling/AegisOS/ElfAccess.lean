import AegisOS.ElfLoader

/-! The ranges of memory that the ELF loader lets a process read and write
(`elf_loader_slot_read_range_ok`, `elf_loader_slot_write_range_ok`), and when none of the
writable ones holds executable bytes. -/
namespace AegisOS.ElfLoader
open ByteStore CString List Nat

def fullRangeInside (ptr len : UInt64) (base size : Nat) : Bool :=
  let stop := ptr + len
  let regionEnd := (base + size) % 2 ^ 64
  if ptr = 0 ∨ len = 0 ∨ size = 0 then false
  else if stop ≤ ptr ∨ regionEnd ≤ base then false
  else base ≤ ptr.toNat ∧ stop.toNat ≤ regionEnd

def runtimeSlotFromId (r : Runtime) (id : UInt32) : Option RuntimeSlot :=
  match slotOf id with
  | none => none
  | some i => if (r.slots i).used then some (r.slots i) else none

def slotRangeOk (flag : Nat) (r : Runtime) (id : UInt32) (ptr len : UInt64) : Bool :=
  match runtimeSlotFromId r id with
  | none => false
  | some slot =>
    fullRangeInside ptr len slot.info.runtimeStackBase slot.info.runtimeStackSize ||
      slot.segments.any fun seg => seg.flags &&& flag ≠ 0 && fullRangeInside ptr len seg.base seg.size

def elfLoaderSlotReadRangeOk : Runtime → UInt32 → UInt64 → UInt64 → Bool :=
  slotRangeOk aegisElfLoadRead

def elfLoaderSlotWriteRangeOk : Runtime → UInt32 → UInt64 → UInt64 → Bool :=
  slotRangeOk aegisElfLoadWrite

/-! Ranges. -/

def Within (ptr len : UInt64) (a : Nat) : Prop := ptr.toNat ≤ a ∧ a < ptr.toNat + len.toNat

def Spans (base size a : Nat) : Prop := base ≤ a ∧ a < base + size

variable {ptr len : UInt64} {a : Nat} {r : Runtime} {id : UInt32} {slot : RuntimeSlot} {ph : Phdr}

theorem fullRangeInside_spans {base size : Nat}
    (h : fullRangeInside ptr len base size = true) (ha : Within ptr len a) :
    Spans base size a := by
  unfold fullRangeInside at h
  dsimp only at h
  split at h
  · cases h
  split at h
  · cases h
  rename_i hwrap
  rw [not_or, UInt64.not_le, UInt64.lt_iff_toNat_lt, UInt64.toNat_add] at hwrap
  rw [decide_eq_true_iff, UInt64.toNat_add] at h
  have hp := ptr.toNat_lt
  have hl := len.toNat_lt
  unfold Within at ha
  unfold Spans
  omega

theorem runtimeSlotFromId_spec (h : runtimeSlotFromId r id = some slot) :
    ∃ i, slotOf id = some i ∧ (r.slots i).used = true ∧ r.slots i = slot := by
  unfold runtimeSlotFromId at h
  cases hi : slotOf id with
  | none =>
    rw [hi] at h
    cases h
  | some i =>
    rw [hi] at h
    dsimp only at h
    split at h
    next hused => exact ⟨i, rfl, hused, Option.some.inj h⟩
    · cases h

theorem slotRangeOk_spec {flag : Nat} (h : slotRangeOk flag r id ptr len = true) :
    ∃ slot, runtimeSlotFromId r id = some slot ∧
      (fullRangeInside ptr len slot.info.runtimeStackBase slot.info.runtimeStackSize = true ∨
        ∃ seg ∈ slot.segments, seg.flags &&& flag ≠ 0 ∧
          fullRangeInside ptr len seg.base seg.size = true) := by
  unfold slotRangeOk at h
  cases hslot : runtimeSlotFromId r id with
  | none =>
    rw [hslot] at h
    cases h
  | some slot =>
    rw [hslot] at h
    simpa using h

/-! Where the arrays of a slot are. -/

/-- The two arrays of a slot lie apart inside the address space. -/
structure Placed (slot : RuntimeSlot) : Prop where
  image : slot.imageBase + aegisElfRuntimeImageMax < 2 ^ 64
  stack : slot.stackBase + aegisUserStackSize < 2 ^ 64
  apart : slot.imageBase + aegisElfRuntimeImageMax ≤ slot.stackBase ∨
    slot.stackBase + aegisUserStackSize ≤ slot.imageBase

/-- A byte of `image_backing`. -/
def InImage (slot : RuntimeSlot) (a : Nat) : Prop := Spans slot.imageBase aegisElfRuntimeImageMax a

/-- A byte of `stack_backing`. -/
def InStack (slot : RuntimeSlot) (a : Nat) : Prop := Spans slot.stackBase aegisUserStackSize a

theorem Placed.not_both (h : Placed slot) (himage : InImage slot a) : ¬InStack slot a := by
  have hapart := h.apart
  unfold InImage Spans at himage
  unfold InStack Spans
  omega

section
variable {image : Store} {imageLen slotId : Nat} {path : Option CStr} {slot : RuntimeSlot}
  {info : ImageInfo} {out : Loaded}

theorem pageDown_dvd (x : Nat) : pageSize ∣ pageDown x := Nat.dvd_sub_mod x

variable (hv : elfLoaderValidateImage image imageLen path = .ok info)
  (hc : copyExecutablePtLoad image imageLen slot slotId info = .ok out)
include hv hc

theorem segOffset_lt (hph : ph ∈ loadSegments image) :
    segOffset (imageSpan (programHeaders image)).1 ph < aegisElfRuntimeImageMax := by
  obtain ⟨hlow, hhigh, -, hoff⟩ := span_around hv hc hph
  have hproper := (validateImage_ok hv ph hph).proper
  have hfits := (copyExecutablePtLoad_ok hc).fits
  obtain ⟨m, hm⟩ : pageSize ∣ segStart ph := pageDown_dvd _
  obtain ⟨n, hn⟩ : pageSize ∣ segEnd ph := pageDown_dvd _
  have hstart : ph.pVaddr < segStart ph + pageSize := by
    unfold segStart pageDown pageSize
    omega
  unfold pageSize at *
  omega

theorem segRecord_base (hp : Placed slot) (hph : ph ∈ loadSegments image) :
    (segRecord slot.imageBase (imageSpan (programHeaders image)).1 ph).base =
      slot.imageBase + (ph.pVaddr - (imageSpan (programHeaders image)).1) := by
  have hlt := segOffset_lt hv hc hph
  obtain ⟨-, -, -, hoff⟩ := span_around hv hc hph
  have himage := hp.image
  rw [segRecord, hoff]
  exact Nat.mod_eq_of_lt (by omega)

end

/-! Writable and executable bytes. -/

def Covered (slot : RuntimeSlot) (flag a : Nat) : Prop :=
  ∃ seg ∈ slot.segments, seg.flags &&& flag ≠ 0 ∧ Spans seg.base seg.size a

/-- No byte of the image is both writable and executable, and no range accepted for
writing holds an executable byte. -/
structure WriteXorExecute (slot : RuntimeSlot) : Prop where
  bytes : ∀ a, InImage slot a → ¬(Covered slot aegisElfLoadWrite a ∧ Covered slot aegisElfLoadExec a)
  ranges : ∀ (r : Runtime) (id : UInt32) (ptr len : UInt64), runtimeSlotFromId r id = some slot →
    elfLoaderSlotWriteRangeOk r id ptr len = true →
      ∀ a, Within ptr len a → InImage slot a → ¬Covered slot aegisElfLoadExec a

theorem loaderFlags_write (flags : Nat) :
    elfFlagsToLoaderFlags flags &&& aegisElfLoadWrite ≠ 0 ↔ flags &&& pfW ≠ 0 := by
  unfold elfFlagsToLoaderFlags
  split_ifs <;> simp_all [aegisElfLoadRead, aegisElfLoadWrite, aegisElfLoadExec]

theorem loaderFlags_exec (flags : Nat) :
    elfFlagsToLoaderFlags flags &&& aegisElfLoadExec ≠ 0 ↔ flags &&& pfX ≠ 0 := by
  unfold elfFlagsToLoaderFlags
  split_ifs <;> simp_all [aegisElfLoadRead, aegisElfLoadWrite, aegisElfLoadExec]

section
variable {image : Store} {imageLen slotId : Nat} {path : Option CStr} {slot : RuntimeSlot}
  {info : ImageInfo} {out : Loaded}

/-- A byte at offset `d` of the image is covered by the segments around its address. -/
theorem covered_iff (hv : elfLoaderValidateImage image imageLen path = .ok info)
    (hc : copyExecutablePtLoad image imageLen slot slotId info = .ok out) (hp : Placed slot)
    (flag d : Nat) :
    Covered out.slot flag (slot.imageBase + d) ↔
      ∃ ph ∈ loadSegments image, elfFlagsToLoaderFlags ph.pFlags &&& flag ≠ 0 ∧
        Spans ph.pVaddr ph.pMemsz ((imageSpan (programHeaders image)).1 + d) := by
  rw [Covered, (copyExecutablePtLoad_ok hc).segments]
  constructor
  · rintro ⟨seg, hseg, hflag, hspan⟩
    obtain ⟨ph, hph, rfl⟩ := List.mem_map.mp hseg
    obtain ⟨hlow, -⟩ := span_around hv hc hph
    rw [segRecord_base hv hc hp hph] at hspan
    refine ⟨ph, hph, hflag, ?_⟩
    unfold Spans segRecord at *
    dsimp only at hspan
    omega
  · rintro ⟨ph, hph, hflag, hspan⟩
    refine ⟨_, List.mem_map_of_mem hph, hflag, ?_⟩
    rw [segRecord_base hv hc hp hph]
    unfold Spans segRecord at *
    dsimp only
    omega

theorem WriteXorExecute.of_bytes (hc : copyExecutablePtLoad image imageLen slot slotId info = .ok out)
    (hp : Placed slot)
    (hbytes : ∀ a, InImage out.slot a →
      ¬(Covered out.slot aegisElfLoadWrite a ∧ Covered out.slot aegisElfLoadExec a)) :
    WriteXorExecute out.slot := by
  refine ⟨hbytes, fun r id ptr len hid hok a ha himage hexec => ?_⟩
  have hfilled := copyExecutablePtLoad_ok hc
  obtain ⟨found, hfound, hwhere⟩ := slotRangeOk_spec hok
  obtain rfl : found = out.slot := Option.some.inj (hfound.symm.trans hid)
  obtain hstack | ⟨seg, hseg, hflag, hin⟩ := hwhere
  · -- the stack lies apart from the image
    have hspan := fullRangeInside_spans hstack ha
    rw [hfilled.info, hfilled.infoStack.1, hfilled.infoStack.2] at hspan
    refine hp.not_both (a := a) ?_ hspan
    rwa [InImage, ← hfilled.imageBase]
  · exact hbytes a himage ⟨⟨seg, hseg, hflag, fullRangeInside_spans hin ha⟩, hexec⟩

/-- The bytes of an accepted image are writable or executable but not both exactly when
no writable segment meets an executable one. -/
theorem write_xor_execute_iff_segments_apart
    (hv : elfLoaderValidateImage image imageLen path = .ok info)
    (hc : copyExecutablePtLoad image imageLen slot slotId info = .ok out) (hp : Placed slot) :
    WriteXorExecute out.slot ↔
      ∀ w ∈ loadSegments image, ∀ x ∈ loadSegments image, w.pFlags &&& pfW ≠ 0 → x.pFlags &&& pfX ≠ 0 →
        w.pVaddr + w.pMemsz ≤ x.pVaddr ∨ x.pVaddr + x.pMemsz ≤ w.pVaddr := by
  have hbase := (copyExecutablePtLoad_ok hc).imageBase
  constructor
  · intro h w hw x hx hwflag hxflag
    by_contra hmeet
    -- the higher of the two starts lies in both segments
    obtain ⟨hwlow, -, -, hwoff⟩ := span_around hv hc hw
    obtain ⟨hxlow, -, -, hxoff⟩ := span_around hv hc hx
    have hwlt := segOffset_lt hv hc hw
    have hxlt := segOffset_lt hv hc hx
    have hwsize := (validateImage_ok hv w hw).memsz
    have hxsize := (validateImage_ok hv x hx).memsz
    let d := max w.pVaddr x.pVaddr - (imageSpan (programHeaders image)).1
    refine h.bytes (slot.imageBase + d) ?_ ⟨?_, ?_⟩
    · rw [InImage, hbase, Spans]
      omega
    · refine (covered_iff hv hc hp _ d).mpr ⟨w, hw, (loaderFlags_write _).mpr hwflag, ?_⟩
      unfold Spans
      omega
    · refine (covered_iff hv hc hp _ d).mpr ⟨x, hx, (loaderFlags_exec _).mpr hxflag, ?_⟩
      unfold Spans
      omega
  · intro hapart
    refine .of_bytes hc hp fun a himage hboth => ?_
    rw [InImage, hbase, Spans] at himage
    obtain ⟨d, rfl⟩ := Nat.exists_eq_add_of_le himage.1
    obtain ⟨w, hw, hwflag, hwspan⟩ := (covered_iff hv hc hp _ d).mp hboth.1
    obtain ⟨x, hx, hxflag, hxspan⟩ := (covered_iff hv hc hp _ d).mp hboth.2
    have h := hapart w hw x hx ((loaderFlags_write _).mp hwflag) ((loaderFlags_exec _).mp hxflag)
    unfold Spans at hwspan hxspan
    omega

end

/-! Concrete images. -/

theorem emptySlot_placed : Placed emptySlot := by
  constructor <;> decide

def dataSegment : Phdr := ⟨ptLoad, pfR ||| pfW, 64, 0x2000, 112, 0x800, 0⟩

def dataImage : Store := ofList (ehdrBytes 0x1000 2 ++ (phdrBytes codeSegment ++ phdrBytes dataSegment))

theorem dataImage_segments : loadSegments dataImage = [codeSegment, dataSegment] := by
  decide +kernel

theorem dataImage_write_xor_execute :
    ∃ info out, elfLoaderValidateImage dataImage 176 none = .ok info ∧
      copyExecutablePtLoad dataImage 176 emptySlot 1 info = .ok out ∧ WriteXorExecute out.slot := by
  obtain ⟨info, hv⟩ : ∃ info, elfLoaderValidateImage dataImage 176 none = .ok info := ⟨_, rfl⟩
  obtain ⟨out, hc⟩ : ∃ out, copyExecutablePtLoad dataImage 176 emptySlot 1 info = .ok out := by
    cases hv
    exact ⟨_, rfl⟩
  refine ⟨info, out, hv, hc, (write_xor_execute_iff_segments_apart hv hc emptySlot_placed).mpr ?_⟩
  rw [dataImage_segments]
  decide

def overlappingSegment : Phdr := ⟨ptLoad, pfR ||| pfW, 0, 0x1800, 0, 0x800, 0⟩

def overlappingImage : Store :=
  ofList (ehdrBytes 0x1000 2 ++ (phdrBytes codeSegment ++ phdrBytes overlappingSegment))

/-- The loader accepts the image, and a byte of its code is accepted for writing. -/
theorem code_accepted_for_writing :
    ∃ info out, elfLoaderValidateImage overlappingImage 176 none = .ok info ∧
      copyExecutablePtLoad overlappingImage 176 emptySlot 1 info = .ok out ∧
      (∀ (r : Runtime) (id : UInt32), runtimeSlotFromId r id = some out.slot →
        elfLoaderSlotWriteRangeOk r id 0x40000800 1 = true) ∧
      InImage out.slot 0x40000800 ∧ Covered out.slot aegisElfLoadExec 0x40000800 ∧
      ¬WriteXorExecute out.slot := by
  obtain ⟨info, hv⟩ : ∃ info, elfLoaderValidateImage overlappingImage 176 none = .ok info := ⟨_, rfl⟩
  obtain ⟨out, hc, hbase, hsegments⟩ :
      ∃ out, copyExecutablePtLoad overlappingImage 176 emptySlot 1 info = .ok out ∧
        out.slot.imageBase = 0x40000000 ∧
        out.slot.segments = [⟨0x40000000, 0x1000, 5⟩, ⟨0x40000800, 0x800, 3⟩] := by
    cases hv
    exact ⟨_, rfl, rfl, rfl⟩
  have himage : InImage out.slot 0x40000800 := by
    rw [InImage, hbase, Spans]
    decide
  have hexec : Covered out.slot aegisElfLoadExec 0x40000800 := by
    refine ⟨⟨0x40000000, 0x1000, 5⟩, by simp [hsegments], by decide, ?_⟩
    rw [Spans]
    decide
  have hwrite : Covered out.slot aegisElfLoadWrite 0x40000800 := by
    refine ⟨⟨0x40000800, 0x800, 3⟩, by simp [hsegments], by decide, ?_⟩
    rw [Spans]
    decide
  refine ⟨info, out, hv, hc, fun r id hid => ?_, himage, hexec, fun h => h.bytes _ himage ⟨hwrite, hexec⟩⟩
  rw [elfLoaderSlotWriteRangeOk, slotRangeOk, hid]
  dsimp only
  rw [hsegments]
  have hin : fullRangeInside 0x40000800 1 0x40000800 0x800 = true := by decide +kernel
  simp [hin, aegisElfLoadWrite]

/-! What the memory of a slot holds after an accepted image was copied into it: the bytes of the
file in the first part of each segment, zero everywhere else; and where execution starts. -/

variable {imageLen entry : Nat} {ph : Phdr} {phs : List Phdr} {image : Store}

theorem InFile.end_le (h : InFile imageLen ph)
    (hph : ph ∈ programHeaders image) : ph.pOffset + ph.pFilesz ≤ imageLen := by
  obtain ⟨i, -, rfl⟩ := mem_map.mp hph
  have hfilesz : (readPhdr image ((readEhdr image).ePhoff + 56 * i)).pFilesz < 256 ^ 8 :=
    fieldAt_lt image _ 8
  obtain ⟨hlen, hnowrap⟩ := h
  omega

structure Validated (image : Store) (imageLen : Nat) (info : ImageInfo) : Prop where
  accepted : info.validated = true ∧ info.loadable = true
  span : (imageSpan (programHeaders image)).1 ≠ 2 ^ 64 - 1 ∧
    ((imageSpan (programHeaders image)).2 + 2 ^ 64 - (imageSpan (programHeaders image)).1) % 2 ^ 64 ≤
      aegisElfRuntimeImageMax
  file : ∀ ph ∈ loadSegments image, InFile imageLen ph
  text : ∃ ph ∈ loadSegments image, IsText info.entry ph

theorem validateImage_validated {path : Option CStr}
    {info : ImageInfo} (h : elfLoaderValidateImage image imageLen path = .ok info) :
    Validated image imageLen info := by
  obtain ⟨scan, hscan, hexec, hmin, hsize, haccepted⟩ := validateImage_scan h
  have hlow : scan.minVaddr = (imageSpan (programHeaders image)).1 := congrArg Prod.fst hscan.span
  have hhigh : scan.maxVaddr = (imageSpan (programHeaders image)).2 := congrArg Prod.snd hscan.span
  rw [hlow] at hmin
  rw [hlow, hhigh] at hsize
  refine ⟨haccepted, ⟨hmin, hsize⟩, fun ph hph => ?_, ?_⟩
  · obtain ⟨hin, hload⟩ := mem_filter.mp hph
    exact (hscan.checked ph hin (of_decide_eq_true hload)).2
  · rcases hscan.text hexec with hstart | ⟨ph, hin, hload, htext⟩
    · cases hstart
    · exact ⟨ph, mem_filter.mpr ⟨hin, decide_eq_true hload⟩, htext⟩

/-! The copy. -/

def segTransfer (image : Store) (minVaddr : Nat) (ph : Phdr) : Nat × Nat × Store :=
  (segOffset minVaddr ph, ph.pFilesz, fun i => image (ph.pOffset + i))

theorem copySegments_backing (image : Store) {minVaddr : Nat} (base : Nat)
    (acc : Copy) (h : ∀ ph ∈ phs, ph.pType = ptLoad → (ph.pOffset + ph.pFilesz) % 2 ^ 64 ≤ imageLen ∧
      (segOffset minVaddr ph + ph.pMemsz) % 2 ^ 64 ≤ aegisElfRuntimeImageMax) :
    ∃ done, copySegments image imageLen minVaddr base acc phs = .ok done ∧
      done.backing = transfers acc.backing
        ((phs.filter fun ph => ph.pType = ptLoad).map (segTransfer image minVaddr)) := by
  induction phs generalizing acc with
  | nil => exact ⟨acc, rfl, rfl⟩
  | cons ph phs ih =>
    have hrest : ∀ ph ∈ phs, ph.pType = ptLoad → _ := fun q hq => h q (mem_cons_of_mem ph hq)
    unfold copySegments
    by_cases hload : ph.pType = ptLoad
    · obtain ⟨hfile, hfits⟩ := h ph mem_cons_self hload
      have hstep : copySegment image imageLen minVaddr base acc ph = .ok
          { backing := blit acc.backing (segOffset minVaddr ph) ph.pFilesz
              fun i => image (ph.pOffset + i)
            stores := acc.stores ++ [segStore minVaddr ph]
            segments := acc.segments ++ [segRecord base minVaddr ph]
            copied := (acc.copied + ph.pFilesz) % 2 ^ 64
            zeroed := (acc.zeroed + (ph.pMemsz - ph.pFilesz)) % 2 ^ 64 } := by
        unfold copySegment
        rw [if_neg (not_not.mpr hload), if_neg (not_lt.mpr hfile)]
        exact if_neg (not_lt.mpr hfits)
      rw [hstep, filter_cons, if_pos (decide_eq_true hload)]
      exact ih _ hrest
    · have hstep : copySegment image imageLen minVaddr base acc ph = .ok acc := by
        unfold copySegment
        rw [if_pos hload]
      rw [hstep, filter_cons, if_neg (by simpa using hload)]
      exact ih acc hrest

section
variable {image : Store} {imageLen slotId : Nat} {path : Option CStr} {slot : RuntimeSlot}
  {info : ImageInfo}

section
variable (hv : elfLoaderValidateImage image imageLen path = .ok info)
include hv

theorem span_of_validated (hph : ph ∈ loadSegments image) (hwrap : ph.pVaddr + ph.pMemsz ≤ 2 ^ 64) :
    (imageSpan (programHeaders image)).1 ≤ ph.pVaddr ∧
      segOffset (imageSpan (programHeaders image)).1 ph =
        ph.pVaddr - (imageSpan (programHeaders image)).1 ∧
      ph.pVaddr + ph.pMemsz ≤ (imageSpan (programHeaders image)).1 + aegisElfRuntimeImageMax := by
  obtain ⟨hlow, hhigh, hmax, hproper, hstart, hoff⟩ := segment_span hv hph rfl
  have hsize := (validateImage_validated hv).span.2
  have hend : ph.pVaddr + ph.pMemsz < 2 ^ 64 := by
    -- an end of exactly 2^64 is rounded to zero, which the validation rejects
    refine lt_of_le_of_ne hwrap fun heq => ?_
    unfold segEnd at hproper
    rw [heq] at hproper
    exact absurd hproper (not_lt.mpr (zero_le _))
  have hseg := le_segEnd hend hproper
  omega

/-- The backing holds the file bytes of the segments, and zero elsewhere. -/
structure Contents (image : Store) (imageLen minVaddr : Nat) (backing : Store) : Prop where
  file : ∀ ph ∈ loadSegments image, ∀ v, ph.pVaddr ≤ v → v < ph.pVaddr + ph.pFilesz →
    minVaddr ≤ v ∧ ph.pOffset + (v - ph.pVaddr) < imageLen ∧
      backing (v - minVaddr) = image (ph.pOffset + (v - ph.pVaddr))
  zero : ∀ v, minVaddr ≤ v →
    (∀ ph ∈ loadSegments image, ¬(ph.pVaddr ≤ v ∧ v < ph.pVaddr + ph.pFilesz)) →
      backing (v - minVaddr) = 0

/-- The segments do not wrap around the address space and do not meet. -/
structure SegmentsApart (image : Store) : Prop where
  wrap : ∀ ph ∈ loadSegments image, ph.pVaddr + ph.pMemsz ≤ 2 ^ 64
  disjoint : (loadSegments image).Pairwise fun p q =>
    p.pVaddr + p.pMemsz ≤ q.pVaddr ∨ q.pVaddr + q.pMemsz ≤ p.pVaddr

theorem transfers_contents (hapart : SegmentsApart image) :
    Contents image imageLen (imageSpan (programHeaders image)).1 (transfers (fun _ => 0)
      ((loadSegments image).map (segTransfer image (imageSpan (programHeaders image)).1))) := by
  have hspan : ∀ ph ∈ loadSegments image, _ := fun ph hph =>
    span_of_validated hv hph (hapart.wrap ph hph)
  have hsizes := fun ph hph => (validateImage_ok hv ph hph).filesz
  constructor
  · intro ph hph v hlow hhigh
    obtain ⟨hmin, hoff, -⟩ := hspan ph hph
    have hlen := ((validateImage_validated hv).file ph hph).end_le (mem_filter.mp hph).1
    have hpairs : ((loadSegments image).map (segTransfer image
        (imageSpan (programHeaders image)).1)).Pairwise
        fun t u => t.1 + t.2.1 ≤ u.1 ∨ u.1 + u.2.1 ≤ t.1 := by
      refine pairwise_map.mpr (hapart.disjoint.imp_of_mem fun {p q} hp hq h => ?_)
      have := hsizes p hp
      have := hsizes q hq
      simp only [segTransfer, (hspan p hp).2.1, (hspan q hq).2.1]
      have := (hspan p hp).1
      have := (hspan q hq).1
      omega
    refine ⟨by omega, by omega, ?_⟩
    have hinside := transfers_inside (d := fun _ => 0) (x := v - (imageSpan (programHeaders image)).1)
      hpairs (mem_map_of_mem hph) (by simp only [segTransfer, hoff]; omega)
      (by simp only [segTransfer, hoff]; omega)
    rw [hinside]
    simp only [segTransfer, hoff]
    congr 2
    omega
  · intro v hmin hnone
    refine transfers_outside fun t ht => ?_
    obtain ⟨ph, hph, rfl⟩ := mem_map.mp ht
    obtain ⟨hlow, hoff, -⟩ := hspan ph hph
    have := hnone ph hph
    simp only [segTransfer, hoff]
    omega

theorem copyExecutablePtLoad_transfers
    (hwrap : ∀ ph ∈ loadSegments image, ph.pVaddr + ph.pMemsz ≤ 2 ^ 64) (slot : RuntimeSlot)
    (slotId : Nat) :
    ∃ out, copyExecutablePtLoad image imageLen slot slotId info = .ok out ∧
      out.slot.imageBacking = transfers (fun _ => 0)
        ((loadSegments image).map (segTransfer image (imageSpan (programHeaders image)).1)) ∧
      out.info.runtimeEntry =
        (slot.imageBase + (info.entry + 2 ^ 64 - (imageSpan (programHeaders image)).1)) % 2 ^ 64 := by
  have hvalid := validateImage_validated hv
  have hfits : ∀ ph ∈ programHeaders image, ph.pType = ptLoad →
      (ph.pOffset + ph.pFilesz) % 2 ^ 64 ≤ imageLen ∧
        (segOffset (imageSpan (programHeaders image)).1 ph + ph.pMemsz) % 2 ^ 64 ≤
          aegisElfRuntimeImageMax := by
    intro ph hin hload
    have hph : ph ∈ loadSegments image := mem_filter.mpr ⟨hin, decide_eq_true hload⟩
    obtain ⟨hlow, hoff, hend⟩ := span_of_validated hv hph (hwrap ph hph)
    refine ⟨(hvalid.file ph hph).1, ?_⟩
    exact le_trans (mod_le _ _) (by omega)
  obtain ⟨done, hdone, hbacking⟩ :=
    copySegments_backing image slot.imageBase ⟨fun _ => 0, [], [], 0, 0⟩ hfits
  have haccepted : ¬(info.validated = false ∨ info.loadable = false) := by simp [hvalid.accepted]
  have hspan : ¬((imageSpan (programHeaders image)).1 = 2 ^ 64 - 1 ∨ aegisElfRuntimeImageMax <
      ((imageSpan (programHeaders image)).2 + 2 ^ 64 - (imageSpan (programHeaders image)).1) %
        2 ^ 64) := fun h => h.elim hvalid.span.1 (not_lt.mpr hvalid.span.2)
  unfold copyExecutablePtLoad
  rw [if_neg haccepted, if_neg hspan, hdone]
  exact ⟨_, rfl, hbacking, rfl⟩

end

/-- After the copy the bytes of the file stand where the segments put them, everything else is
zero, and the entry point lies in an executable segment. -/
theorem loaded_image_contents (image : Store) (imageLen : Nat) (path : Option CStr)
    (info : ImageInfo) (slot : RuntimeSlot) (slotId : Nat)
    (hv : elfLoaderValidateImage image imageLen path = .ok info) (hapart : SegmentsApart image)
    (hp : Placed slot) :
    ∃ out, copyExecutablePtLoad image imageLen slot slotId info = .ok out ∧
      Contents image imageLen (imageSpan (programHeaders image)).1 out.slot.imageBacking ∧
      Covered out.slot aegisElfLoadExec out.info.runtimeEntry := by
  obtain ⟨out, hc, hbacking, hentry⟩ := copyExecutablePtLoad_transfers hv hapart.wrap slot slotId
  refine ⟨out, hc, hbacking ▸ transfers_contents hv hapart, ?_⟩
  obtain ⟨ph, hph, hrange, hflags⟩ := (validateImage_validated hv).text
  obtain ⟨hlow, -, hend⟩ := span_of_validated hv hph (hapart.wrap ph hph)
  have hslot := hp.image
  simp only [rangeContains, decide_eq_true_eq] at hrange
  have hmod : (ph.pVaddr + ph.pMemsz) % 2 ^ 64 ≤ ph.pVaddr + ph.pMemsz := mod_le _ _
  have hwhere : out.info.runtimeEntry =
      slot.imageBase + (info.entry - (imageSpan (programHeaders image)).1) := by
    omega
  rw [hwhere, covered_iff hv hc hp]
  refine ⟨ph, hph, (loaderFlags_exec _).mpr hflags, ?_⟩
  unfold Spans
  omega

end

/-- Code and data are loaded, each with the file in front and zeros behind. -/
theorem dataImage_contents : ∃ info out, elfLoaderValidateImage dataImage 176 none = .ok info ∧
      copyExecutablePtLoad dataImage 176 emptySlot 1 info = .ok out ∧
      Contents dataImage 176 0x1000 out.slot.imageBacking ∧
      Covered out.slot aegisElfLoadExec out.info.runtimeEntry := by
  obtain ⟨info, hv⟩ : ∃ info, elfLoaderValidateImage dataImage 176 none = .ok info := ⟨_, rfl⟩
  have hmin : (imageSpan (programHeaders dataImage)).1 = 0x1000 := by decide +kernel
  have hapart : SegmentsApart dataImage := by
    constructor <;> rw [dataImage_segments]
    · decide
    · decide
  obtain ⟨out, hc, hcontents, hentry⟩ :=
    loaded_image_contents dataImage 176 none info emptySlot 1 hv hapart emptySlot_placed
  exact ⟨info, out, hv, hc, hmin ▸ hcontents, hentry⟩

/-! What loading a file and giving a slot back do to the pool of runtime slots. -/

def slotId (i : Fin 16) : UInt32 := (i.val + 1).toUInt32

theorem slotId_toNat (i : Fin 16) : (slotId i).toNat = i.val + 1 := by
  simp only [slotId, UInt32.toNat_ofNat']
  omega

theorem slotId_ne_zero (i : Fin 16) : slotId i ≠ 0 := by
  intro h
  have := slotId_toNat i
  simp [h] at this

theorem slotOf_slotId (i : Fin 16) : slotOf (slotId i) = some i := by
  unfold slotOf
  simp [slotId_toNat]

variable {i j : Fin 16} {r : Runtime} {f : FileRead} {path : CStr} {out : Loaded}

theorem slotOf_eq_some {id : UInt32} (h : slotOf id = some i) : id = slotId i := by
  unfold slotOf at h
  split at h
  · cases h
    apply UInt32.toNat_inj.mp
    rw [slotId_toNat]
    dsimp only
    omega
  · cases h

theorem slotId_inj (h : slotId i = slotId j) : i = j := by
  have := slotOf_slotId i
  rw [h, slotOf_slotId] at this
  exact (Option.some.inj this).symm

theorem set_self (r : Runtime) (i : Fin 16) (slot : RuntimeSlot) : (r.set i slot).slots i = slot := by
  simp [Runtime.set]

theorem set_of_ne (r : Runtime) (slot : RuntimeSlot) (h : j ≠ i) :
    (r.set i slot).slots j = r.slots j := by
  simp [Runtime.set, h]

theorem set_set (r : Runtime) (i : Fin 16) (slot slot' : RuntimeSlot) :
    (r.set i slot).set i slot' = r.set i slot' := by
  simp [Runtime.set]

structure PoolKept (r r' : Runtime) : Prop where
  used : ∀ i, (r'.slots i).used = (r.slots i).used
  slots : ∀ i, (r.slots i).used = true → r'.slots i = r.slots i
  imageBase : ∀ i, (r'.slots i).imageBase = (r.slots i).imageBase
  stackBase : ∀ i, (r'.slots i).stackBase = (r.slots i).stackBase
  loaderInitialised : r'.loaderInitialised = r.loaderInitialised
  builtinRuntimeSlot : r'.builtinRuntimeSlot = r.builtinRuntimeSlot

theorem PoolKept.refl (r : Runtime) : PoolKept r r :=
  ⟨fun _ => rfl, fun _ _ => rfl, fun _ => rfl, fun _ => rfl, rfl, rfl⟩

theorem poolKept_set {slot : RuntimeSlot}
    (hfree : (r.slots i).used = false) (hused : slot.used = false)
    (himage : slot.imageBase = (r.slots i).imageBase)
    (hstack : slot.stackBase = (r.slots i).stackBase) : PoolKept r (r.set i slot) := by
  refine ⟨fun j => ?_, fun j hj => ?_, fun j => ?_, fun j => ?_, rfl, rfl⟩
  · by_cases hji : j = i
    · rw [hji, set_self, hused, hfree]
    · rw [set_of_ne r slot hji]
  · exact set_of_ne r slot fun hji => by simp [hji, hfree] at hj
  · by_cases hji : j = i
    · rw [hji, set_self, himage]
    · rw [set_of_ne r slot hji]
  · by_cases hji : j = i
    · rw [hji, set_self, hstack]
    · rw [set_of_ne r slot hji]

theorem runtimeSlotAllocate_spec {r' : Runtime} (h : runtimeSlotAllocate r = some (r', i)) :
    (r.slots i).used = false ∧ r' = r.set i ((r.slots i).clear true) := by
  obtain ⟨j, hj, heq⟩ := Option.map_eq_some_iff.mp h
  obtain ⟨rfl, rfl⟩ := heq
  have hfree := Fin.eq_true_of_find?_eq_some hj
  exact ⟨by simpa using hfree, rfl⟩

/-- A loaded file: it was accepted and fills the slot, which was free. -/
structure Occupies (r : Runtime) (f : FileRead) (path : CStr) (i : Fin 16) (out : Loaded) : Prop where
  initialised : r.loaderInitialised = true
  free : (r.slots i).used = false
  accepted : ∃ info, elfLoaderValidateImage f.bytes f.result.toNat (some path) = .ok info ∧
    copyExecutablePtLoad f.bytes f.result.toNat ((r.slots i).clear true) (i.val + 1) info = .ok out

section
variable (h : Occupies r f path i out)
include h

theorem Occupies.filled : Filled f.bytes ((r.slots i).clear true) (i.val + 1) out := by
  obtain ⟨info, -, hcopy⟩ := h.accepted
  exact copyExecutablePtLoad_ok hcopy

theorem Occupies.slotId : out.info.runtimeSlot.toUInt32 = slotId i := by
  rw [h.filled.slotId, ElfLoader.slotId]

theorem Occupies.used : out.slot.used = true := h.filled.used

end

theorem loadImage_cases (r : Runtime) (f : FileRead) (path : CStr) (hr : r.loaderInitialised = true) :
    (∃ r' rc, loadImageIntoRuntime r f.bytes f.result.toNat path = (r', .error rc) ∧
      PoolKept r r') ∨
    ∃ i out, loadImageIntoRuntime r f.bytes f.result.toNat path =
      (r.set i out.slot, .ok out.info) ∧ Occupies r f path i out := by
  unfold loadImageIntoRuntime
  cases hv : elfLoaderValidateImage f.bytes f.result.toNat (some path) with
  | error rc => exact .inl ⟨r, rc, rfl, .refl r⟩
  | ok info =>
    cases ha : runtimeSlotAllocate r with
    | none => exact .inl ⟨r, _, rfl, .refl r⟩
    | some got =>
      obtain ⟨r', i⟩ := got
      obtain ⟨hfree, rfl⟩ := runtimeSlotAllocate_spec ha
      dsimp only
      rw [set_self]
      cases hc : copyExecutablePtLoad f.bytes f.result.toNat ((r.slots i).clear true) (i.val + 1) info with
      | error rc =>
        refine .inl ⟨_, rc, rfl, ?_⟩
        rw [set_set]
        exact poolKept_set hfree rfl rfl rfl
      | ok out =>
        refine .inr ⟨i, out, ?_, hr, hfree, info, hv, hc⟩
        dsimp only
        rw [set_set]

theorem elfLoaderLoadVfsPath_cases (r : Runtime) (file : Option FileRead) (path : CStr) :
    (∃ r' rc, elfLoaderLoadVfsPath r file path = (r', .error rc) ∧ PoolKept r r') ∨
    ∃ f i out, file = some f ∧ elfLoaderLoadVfsPath r file path = (r.set i out.slot, .ok out.info) ∧
      Occupies r f path i out := by
  unfold elfLoaderLoadVfsPath
  split
  · exact .inl ⟨r, _, rfl, .refl r⟩
  rename_i hr
  cases file with
  | none => exact .inl ⟨r, _, rfl, .refl r⟩
  | some f =>
    dsimp only
    split
    · exact .inl ⟨r, _, rfl, .refl r⟩
    split
    · exact .inl ⟨r, _, rfl, .refl r⟩
    rcases loadImage_cases r f path (Bool.eq_true_of_not_eq_false hr) with h | ⟨i, out, h⟩
    · exact .inl h
    · exact .inr ⟨f, i, out, rfl, h⟩

theorem elfLoaderReleaseRuntimeSlot_used (hinit : r.loaderInitialised = true)
    (hused : (r.slots i).used = true) :
    elfLoaderReleaseRuntimeSlot r (slotId i) =
      if slotId i = r.builtinRuntimeSlot then (r, aegisEperm)
      else (r.set i ((r.slots i).clear false), aegisOk) := by
  unfold elfLoaderReleaseRuntimeSlot
  rw [slotOf_slotId]
  dsimp only
  have hlive : ¬(r.slots i).used = false := by simp [hused]
  rw [if_neg (by simp [hinit]), if_neg hlive]

theorem Occupies.release (h : Occupies r f path i out) :
    elfLoaderReleaseRuntimeSlot (r.set i out.slot) (ElfLoader.slotId i) =
      if ElfLoader.slotId i = r.builtinRuntimeSlot then (r.set i out.slot, aegisEperm)
      else (r.set i (out.slot.clear false), aegisOk) := by
  have hinit : (r.set i out.slot).loaderInitialised = true := h.initialised
  have hused : ((r.set i out.slot).slots i).used = true := by
    rw [set_self]
    exact h.used
  rw [elfLoaderReleaseRuntimeSlot_used hinit hused, set_self, set_set]
  rfl

/-! The ranges accepted for a runtime slot lie in the two arrays of that slot, which are
apart from those of every other slot. -/

def InSlot (slot : RuntimeSlot) (a : Nat) : Prop := InImage slot a ∨ InStack slot a

structure Apart (r : Runtime) : Prop where
  placed : ∀ i, Placed (r.slots i)
  disjoint : ∀ i l, i ≠ l → ∀ a, InSlot (r.slots i) a → ¬InSlot (r.slots l) a

variable {slot : RuntimeSlot} {ptr len : UInt64}

theorem Apart.of_bases {r' : Runtime} (h : Apart r)
    (himage : ∀ i, (r'.slots i).imageBase = (r.slots i).imageBase)
    (hstack : ∀ i, (r'.slots i).stackBase = (r.slots i).stackBase) : Apart r' := by
  have hin : ∀ i a, InSlot (r'.slots i) a ↔ InSlot (r.slots i) a := by
    intro i a
    simp only [InSlot, InImage, InStack, himage, hstack]
  refine ⟨fun i => ?_, fun i l hne a hi hl => ?_⟩
  · obtain ⟨h1, h2, h3⟩ := h.placed i
    rw [← himage i] at h1 h3
    rw [← hstack i] at h2 h3
    exact ⟨h1, h2, h3⟩
  · exact h.disjoint i l hne a ((hin i a).mp hi) ((hin l a).mp hl)

theorem Apart.set (h : Apart r) (himage : slot.imageBase = (r.slots i).imageBase)
    (hstack : slot.stackBase = (r.slots i).stackBase) : Apart (r.set i slot) := by
  refine h.of_bases (fun b => ?_) (fun b => ?_)
  · by_cases hbi : b = i
    · rw [hbi, set_self, himage]
    · rw [set_of_ne _ _ hbi]
  · by_cases hbi : b = i
    · rw [hbi, set_self, hstack]
    · rw [set_of_ne _ _ hbi]

/-- No loadable segment reaches the top of the address space, page rounding included. -/
def Bounded (image : Store) : Prop :=
  ∀ ph ∈ loadSegments image, ph.pVaddr + ph.pMemsz + 4095 < 2 ^ 64
  deriving Decidable

def LoadedFrom (slot : RuntimeSlot) : Prop :=
  ∃ image imageLen path info empty slotId out, Bounded image ∧
    elfLoaderValidateImage image imageLen path = .ok info ∧
    copyExecutablePtLoad image imageLen empty slotId info = .ok out ∧ slot = out.slot

theorem Occupies.loadedFrom {f : FileRead} {path : CStr} {out : Loaded}
    (h : Occupies r f path i out) (hf : Bounded f.bytes) : LoadedFrom out.slot := by
  obtain ⟨info, hv, hc⟩ := h.accepted
  exact ⟨f.bytes, f.result.toNat, some path, info, _, _, out, hf, hv, hc, rfl⟩

def LoadedPool (r : Runtime) : Prop := ∀ i, (r.slots i).used = true → LoadedFrom (r.slots i)

theorem LoadedFrom.inside (h : LoadedFrom slot) (hp : Placed slot) :
    (∀ seg ∈ slot.segments, ∀ a, Spans seg.base seg.size a → InImage slot a) ∧
      slot.info.runtimeStackBase = slot.stackBase ∧ slot.info.runtimeStackSize = aegisUserStackSize := by
  obtain ⟨image, imageLen, path, info, empty, id, out, hbounded, hv, hc, rfl⟩ := h
  have hfilled := copyExecutablePtLoad_ok hc
  have hplaced : Placed empty := by
    obtain ⟨himage, hstack, hapart⟩ := hp
    rw [hfilled.imageBase] at himage hapart
    rw [hfilled.stackBase] at hstack hapart
    exact ⟨himage, hstack, hapart⟩
  have hinside := (accepted_image_inside hv hc).mpr fun ph hph => by
    have := hbounded ph hph
    omega
  refine ⟨fun seg hseg a ha => ?_, ?_, ?_⟩
  · rw [hfilled.segments] at hseg
    obtain ⟨ph, hph, rfl⟩ := List.mem_map.mp hseg
    have hbase := segRecord_base hv hc hplaced hph
    have hmem := hinside.memsz ph hph
    have hsize := hinside.size
    rw [hbase] at ha
    rw [InImage, hfilled.imageBase]
    unfold Spans segRecord at *
    dsimp only at ha
    omega
  · rw [hfilled.info, hfilled.infoStack.1, hfilled.stackBase]
  · rw [hfilled.info, hfilled.infoStack.2]

def Accepted (r : Runtime) (id : UInt32) (ptr len : UInt64) : Prop :=
  elfLoaderSlotReadRangeOk r id ptr len = true ∨ elfLoaderSlotWriteRangeOk r id ptr len = true

variable (h : LoadedPool r) (hr : Apart r)
include h hr

theorem LoadedPool.accepted {id : UInt32} (hok : Accepted r id ptr len) :
    ∃ i, slotOf id = some i ∧ (r.slots i).used = true ∧
      ((∀ a, Within ptr len a → InImage (r.slots i) a) ∨
        ∀ a, Within ptr len a → InStack (r.slots i) a) := by
  have hspec : ∀ flag, slotRangeOk flag r id ptr len = true →
      ∃ i, slotOf id = some i ∧ (r.slots i).used = true ∧
        ((∀ a, Within ptr len a → InImage (r.slots i) a) ∨
          ∀ a, Within ptr len a → InStack (r.slots i) a) := by
    intro flag hflag
    obtain ⟨slot, hslot, hwhere⟩ := slotRangeOk_spec hflag
    obtain ⟨i, hi, hused, rfl⟩ := runtimeSlotFromId_spec hslot
    obtain ⟨hsegs, hbase, hsize⟩ := (h i hused).inside (hr.placed i)
    refine ⟨i, hi, hused, ?_⟩
    rcases hwhere with hstack | ⟨seg, hseg, -, hin⟩
    · rw [hbase, hsize] at hstack
      exact .inr fun a ha => fullRangeInside_spans hstack ha
    · exact .inl fun a ha => hsegs seg hseg a (fullRangeInside_spans hin ha)
  exact hok.elim (hspec _) (hspec _)

theorem LoadedPool.accepted_inSlot (hok : Accepted r (slotId i) ptr len) {a : Nat}
    (ha : Within ptr len a) : InSlot (r.slots i) a := by
  obtain ⟨b, hb, -, hin⟩ := h.accepted hr hok
  rw [slotOf_slotId] at hb
  cases hb
  exact hin.imp (fun hin => hin a ha) (fun hin => hin a ha)

/-- What the checks of the slots promise: an accepted range lies in one array of its own
slot, and no byte is accepted for two slots. -/
structure RangesIsolated (r : Runtime) : Prop where
  inside : ∀ id ptr len, Accepted r id ptr len → ∃ i, slotOf id = some i ∧ (r.slots i).used = true ∧
      ((∀ a, Within ptr len a → InImage (r.slots i) a) ∨
        ∀ a, Within ptr len a → InStack (r.slots i) a)
  exclusive : ∀ id ptr len id' ptr' len' a, Accepted r id ptr len → Accepted r id' ptr' len' →
    Within ptr len a → Within ptr' len' a → id = id'

theorem LoadedPool.rangesIsolated : RangesIsolated r := by
  refine ⟨fun id ptr len hok => h.accepted hr hok, fun id ptr len id' ptr' len' a hok hok' ha ha' => ?_⟩
  obtain ⟨i, hi, -⟩ := h.accepted hr hok
  obtain ⟨l, hl, -⟩ := h.accepted hr hok'
  obtain rfl := slotOf_eq_some hi
  obtain rfl := slotOf_eq_some hl
  by_contra hne
  exact hr.disjoint i l (fun heq => hne (heq ▸ rfl)) a (h.accepted_inSlot hr hok ha)
    (h.accepted_inSlot hr hok' ha')

end AegisOS.ElfLoader
