import AegisOS.AegisFsSpace

/-! Crashes during an AegisFS write. The device performs single-sector writes atomically
and in issue order, so a crash leaves a prefix of them on the medium; what the next
mount makes of that is the file system before or after the interrupted write. -/
namespace AegisOS.AegisFs
open ByteStore SectorWrites BlockStorage CString GuardedRun Function List Nat Option

def directoryImage (part : Partition) (dev : Device) : List UInt8 :=
  readBytes dev.medium ((part.startLba + aegisfsDirLba) * 512) 8192

def superblockImage (part : Partition) (dev : Device) : List UInt8 :=
  readBytes dev.medium (part.startLba * 512) 512

/-- The checksum tells the directories on two media apart. -/
def Told (part : Partition) (dev dev' : Device) : Prop :=
  crc32 (directoryImage part dev') = crc32 (directoryImage part dev) →
    directoryImage part dev' = directoryImage part dev

/-- A superblock `aegisfs_mount_persistent` takes for its own. -/
structure Superblock.Recognised (sb : Superblock) (part : Partition) : Prop where
  magic : sb.magic = aegisfsMagic
  version : sb.version = aegisfsVersion
  blocks : sb.partitionBlocks.toNat = part.blockCount

structure Persisted (fs : Fs) (dev : Device) : Prop where
  superblock : superblockImage fs.part dev = fs.sb.encode
  directory : directoryImage fs.part dev = fs.entries.encode
  checksum : fs.sb.directoryCrc = crc32 fs.entries.encode
  recognised : fs.sb.Recognised fs.part

section
variable {part : Partition} {dev : Device}

theorem mount_superblock (hd : Hosts dev part) (h : aegisfsDataLba ≤ part.blockCount)
    {sb : Superblock} (hsb : superblockImage part dev = sb.encode) (hr : sb.Recognised part)
    (vfsMount : Int) :
    aegisfsMountPersistent none (some part) true vfsMount dev =
      if crc32 (directoryImage part dev) ≠ sb.directoryCrc then (aegisEio, none, [])
      else if vfsMount = aegisOk then
        (aegisOk, some ⟨part, sb, .decode (directoryImage part dev), true⟩, [])
      else (vfsMount, none, []) := by
  have hsector := blockPartitionRead_ok hd (r := 0) (c := 1) (by decide) part.nonempty
    (fun _ => 0)
  have hdir := blockPartitionRead_ok hd (r := aegisfsDirLba) (c := aegisfsDirSectors)
    (by decide) h (fun _ => 0)
  have hsuper : readBytes (blit (fun _ => 0) 0 (1 * 512)
      fun i => dev.medium ((part.startLba + 0) * 512 + i)) 0 512 = sb.encode := by
    rw [one_mul, readBytes_blit_same, ← hsb, add_zero]
    exact readBytes_congr fun i _ => by rw [zero_add]
  have himage : readBytes (blit (fun _ => 0) 0 (aegisfsDirSectors * 512)
      fun i => dev.medium ((part.startLba + aegisfsDirLba) * 512 + i)) 0 8192 =
      directoryImage part dev := by
    rw [show aegisfsDirSectors * 512 = 8192 from rfl, readBytes_blit_same]
    exact readBytes_congr fun i _ => by rw [zero_add]
  have hknown : ¬ (sb.magic ≠ aegisfsMagic ∨ sb.version ≠ aegisfsVersion ∨
      sb.partitionBlocks.toNat ≠ part.blockCount) := by
    simp [hr.magic, hr.version, hr.blocks]
  simp only [aegisfsMountPersistent, hd.partWritable, Bool.and_self, Bool.true_eq_false, if_false,
    hsector, hsuper, Superblock.decode_encode, if_neg hknown, hdir, himage]

end

variable {fs found : Fs} {vfsMount : Int} {ws : List SectorWrite} {s : Sys} {n : Nat}

/-- A mount that succeeds over the superblock of `fs` finds `fs`, provided the checksum
tells the directory on the medium from that of `fs`. -/
theorem mount_finds {dev : Device} (hs : Sound fs dev)
    (hsb : superblockImage fs.part dev = fs.sb.encode) (hr : fs.sb.Recognised fs.part)
    (hc : fs.sb.directoryCrc = crc32 fs.entries.encode)
    (hinj : crc32 (directoryImage fs.part dev) = crc32 fs.entries.encode →
      directoryImage fs.part dev = fs.entries.encode)
    (hm : aegisfsMountPersistent none (some fs.part) true vfsMount dev = (aegisOk, some found, ws)) :
    found = fs ∧ ws = [] := by
  rw [mount_superblock hs.hosts (le_trans hs.dataStart hs.room) hsb hr] at hm
  split at hm
  · cases hm
  rename_i hcrc
  rw [hc, not_not] at hcrc
  rw [hinj hcrc, Directory.decode_encode] at hm
  split at hm
  · obtain ⟨rfl, rfl⟩ := hm
    refine ⟨?_, rfl⟩
    rw [← hs.writable]
  next hne => simp [hne] at hm

theorem persisted_issue (dev : Device) (ws : List SectorWrite)
    (hr : fs.sb.Recognised fs.part) (hc : fs.sb.directoryCrc = crc32 fs.entries.encode) :
    Persisted fs (dev.issue (ws ++ metadataWrites fs)) := by
  have hsblen := fs.sb.length_encode
  have hdirlen := fs.entries.length_encode
  have hone : 1 * 512 = 512 := rfl
  have hdirsz : aegisfsDirSectors * 512 = 8192 := rfl
  rw [metadataWrites, issue_append, issue_append]
  refine ⟨?_, ?_, hc, hr⟩
  · rw [superblockImage, issue_medium, applyWrites_split, hone, readBytes_blit_same, ← hsblen,
      readBytes_ofList]
  rw [directoryImage, issue_medium, applyWrites_split, hone, readBytes_blit_disjoint, issue_medium,
    applyWrites_split, hdirsz, readBytes_blit_same, ← hdirlen, readBytes_ofList]
  unfold aegisfsDirLba
  omega

section
variable {fs : Fs} {dev : Device}

theorem superblock_untouched (h : Persisted fs dev)
    (hws : ∀ w ∈ ws, fs.part.startLba + aegisfsDirLba ≤ w.lba) :
    superblockImage fs.part (dev.issue ws) = fs.sb.encode := by
  refine (readBytes_applyWrites_untouched dev.medium fun w hw => ?_).trans h.superblock
  have := hws w hw
  unfold aegisfsDirLba at this
  omega

theorem take_append_last {α : Type*} (xs ys : List α) (h : ys.length = 1) (k : Nat) :
    (xs ++ ys).take k = xs.take k ∨ (xs ++ ys).take k = xs ++ ys := by
  by_cases hk : k ≤ xs.length
  · exact .inl (take_append_of_le_length hk)
  · exact .inr (take_of_length_le (by simp; omega))

/-- The crash points of a write through `fs₀`, which is `fs` up to a new directory entry. -/
theorem crash_write (fs₀ : Fs) {i : Fin aegisfsMaxFiles} {offset len : Nat} {buf : Store}
    (hs : Sound fs dev) (hp : Persisted fs dev) (hpart : fs₀.part = fs.part)
    (hnext : fs₀.sb.nextFreeLba = fs.sb.nextFreeLba) (hr : fs₀.sb.Recognised fs₀.part)
    (hsound : Sound (written fs₀ dev i offset buf len)
      (dev.issue (allWrites fs₀ dev i offset buf len))) (k : Nat)
    (hinj : Told fs.part dev (dev.issue ((allWrites fs₀ dev i offset buf len).take k)))
    (hm : aegisfsMountPersistent none (some fs.part) true vfsMount
      (dev.issue ((allWrites fs₀ dev i offset buf len).take k)) = (aegisOk, some found, ws)) :
    contents found ((dev.issue ((allWrites fs₀ dev i offset buf len).take k)).issue ws) =
        contents fs dev ∨
      contents found ((dev.issue ((allWrites fs₀ dev i offset buf len).take k)).issue ws) =
        contents (written fs₀ dev i offset buf len)
          (dev.issue (allWrites fs₀ dev i offset buf len)) := by
  have hall : allWrites fs₀ dev i offset buf len =
      (dataWrites fs₀ dev i offset buf len ++ split (fs.part.startLba + aegisfsDirLba)
        aegisfsDirSectors (ofList (written fs₀ dev i offset buf len).entries.encode)) ++
      split fs.part.startLba 1 (ofList (written fs₀ dev i offset buf len).sb.encode) := by
    rw [allWrites, ← hpart, append_assoc]
    rfl
  have hspare₀ := allWrites_spares fs₀ dev i offset buf len
  rcases take_append_last _ _ (length_split _ _ _) k with htake | htake
  · -- the superblock write is missing
    rw [← hall] at htake
    left
    have hspare : SparesData fs ((allWrites fs₀ dev i offset buf len).take k) := by
      intro w hw
      rw [← hpart, ← hnext]
      exact hspare₀ w (mem_of_mem_take hw)
    have hdir : ∀ w ∈ (allWrites fs₀ dev i offset buf len).take k,
        fs.part.startLba + aegisfsDirLba ≤ w.lba := by
      intro w hw
      rw [htake] at hw
      rcases mem_append.mp (mem_of_mem_take hw) with hw | hw
      · have hlba := (mem_split hw).1
        rw [hpart, hnext] at hlba
        have hstart := hs.dataStart
        unfold aegisfsDataLba at hstart
        omega
      · exact (mem_split hw).1
    obtain ⟨rfl, rfl⟩ := mount_finds (hs.kept hspare) (superblock_untouched hp hdir) hp.recognised
      hp.checksum (fun hcrc => by
        have hold := hp.directory
        rw [← hold] at hcrc ⊢
        exact hinj hcrc) hm
    rw [issue_nil, contents_kept hs hspare]
  · -- everything has been written
    rw [← hall] at htake
    right
    rw [htake] at hm ⊢
    have hp' : Persisted (written fs₀ dev i offset buf len)
        (dev.issue (allWrites fs₀ dev i offset buf len)) :=
      persisted_issue dev _ ⟨hr.magic, hr.version, hr.blocks⟩ rfl
    have hpart' : (written fs₀ dev i offset buf len).part = fs.part := hpart
    rw [← hpart'] at hm
    obtain ⟨rfl, rfl⟩ := mount_finds hsound hp'.superblock hp'.recognised hp'.checksum
      (fun _ => hp'.directory) hm
    rw [issue_nil]

end

/-! Whole runs. -/

def callStep (s : Sys) (c : Call) : Option Sys := some (c.after s)

/-- The device when a call is stopped after `k` of its sector writes. -/
def crashed (s : Sys) (c : Call) (k : Nat) : Device := s.dev.issue ((c.perform s).2.2.take k)

/-- The range does not wrap around, and a write in range that will take a new directory entry
finds the sectors it needs. -/
structure RoomIfNew (s : Sys) (c : Call) : Prop where
  wrap : c.offset + c.len < 2 ^ 64
  room : InRange c.name c.offset c.len → s.fs.entries.lookup c.name = none →
    (∃ i, (s.fs.entries i).valid = 0) →
    s.fs.sb.nextFreeLba.toNat + sectorsOf (c.offset + c.len) ≤ s.fs.part.blockCount

structure Durable (part : Partition) (s : Sys) : Prop where
  onPart : s.fs.part = part
  sound : Sound s.fs s.dev
  persisted : Persisted s.fs s.dev

section
variable {part : Partition} {dev : Device} {s : Sys}

theorem fresh_recognised (part : Partition) : (Superblock.fresh part.blockCount).Recognised part := by
  refine ⟨rfl, rfl, ?_⟩
  have := part.inside
  have := part.bounded
  change (UInt64.ofNat part.blockCount).toNat = _
  rw [UInt64.toNat_ofNat', mod_eq_of_lt (by omega)]

theorem formatted_durable (hd : Hosts dev part) (h : aegisfsDataLba ≤ part.blockCount) :
    Durable part (formatted part dev) := by
  have hr := fresh_recognised part
  refine ⟨by rw [formatted_fs hd h]; rfl, formatted_sound hd h, ?_⟩
  rw [formatted, formatted_eq hd h]
  exact persisted_issue dev [] ⟨hr.magic, hr.version, hr.blocks⟩ rfl

theorem durable_step (h : Durable part s) {c : Call} (hok : RoomIfNew s c) :
    Durable part (c.after s) := by
  have hsound := after_sound h.sound hok.wrap
  have hr := h.persisted.recognised
  have hout := agfsWrite_outcome c.path h.sound hok.wrap c.buf
  simp only [Call.after, Call.perform] at hsound ⊢
  generalize agfsWrite s.fs s.dev c.path c.offset c.buf c.len = out at hout hsound
  cases hout with
  | refused _ => exact h
  | noRoomForNew _ hnone hfree hin hfull =>
    have hroom := hok.room hin hnone ⟨_, hfree⟩
    rw [Fits, created_newSize _ _ _ hin.small] at hfull
    exact absurd hroom hfull
  | rewritten _ _ _ =>
    exact ⟨h.onPart, hsound, persisted_issue s.dev _ ⟨hr.magic, hr.version, hr.blocks⟩ rfl⟩
  | fresh _ _ _ _ =>
    exact ⟨h.onPart, hsound, persisted_issue s.dev _ ⟨hr.magic, hr.version, hr.blocks⟩ rfl⟩

theorem durable_run {cs : List Call} (hd : Hosts dev part)
    (h : aegisfsDataLba ≤ part.blockCount)
    (hrun : Run callStep RoomIfNew (formatted part dev) cs s) : Durable part s := by
  refine hrun.invariant (I := Durable part) ?_ (formatted_durable hd h)
  intro s c s' hi hok hstep
  cases hstep
  exact durable_step hi hok

theorem mount_durable (h : Durable part s)
    (hm : aegisfsMountPersistent none (some part) true vfsMount s.dev = (aegisOk, some found, ws)) :
    found = s.fs ∧ ws = [] := by
  rw [← h.onPart] at hm
  exact mount_finds h.sound h.persisted.superblock h.persisted.recognised h.persisted.checksum
    (fun _ => h.persisted.directory) hm

theorem mount_durable_ok (h : Durable part s) :
    aegisfsMountPersistent none (some part) true aegisOk s.dev = (aegisOk, some s.fs, []) := by
  obtain ⟨rfl, hs, hp⟩ := h
  rw [mount_superblock hs.hosts (le_trans hs.dataStart hs.room) hp.superblock hp.recognised,
    if_neg (by rw [hp.directory, hp.checksum]; simp), if_pos rfl, hp.directory,
    Directory.decode_encode, ← hs.writable]

/-- The sectors written before the directory change nothing that a mount reads. -/
theorem crashed_before_directory (h : Durable part s) {c : Call} {k : Nat}
    (hws : ∀ w ∈ (c.perform s).2.2.take k, part.startLba + s.fs.sb.nextFreeLba.toNat ≤ w.lba) :
    Told part s.dev (crashed s c k) ∧
      aegisfsMountPersistent none (some part) true aegisOk (crashed s c k) =
        (aegisOk, some s.fs, []) := by
  obtain ⟨rfl, hs, hp⟩ := h
  have hstart := hs.dataStart
  unfold aegisfsDataLba aegisfsDirSectors at hstart
  have hdir : directoryImage s.fs.part (crashed s c k) = directoryImage s.fs.part s.dev :=
    readBytes_applyWrites_untouched _ fun w hw => by
      have := hws w hw
      omega
  have hsb : superblockImage s.fs.part (crashed s c k) = s.fs.sb.encode :=
    superblock_untouched hp fun w hw => by
      have := hws w hw
      omega
  have hdur : Durable s.fs.part ⟨s.fs, crashed s c k⟩ :=
    ⟨rfl, hs.kept fun w hw => .inr (hws w hw), hsb, hdir.trans hp.directory, hp.checksum,
      hp.recognised⟩
  exact ⟨fun _ => hdir, mount_durable_ok hdur⟩

/-- After any run in which every new file finds its sectors, a crash at any sector boundary of
any further call and a mount that succeeds give the files before or after it. -/
theorem crash_detected {cs : List Call} (hd : Hosts dev part)
    (h : aegisfsDataLba ≤ part.blockCount)
    (hrun : Run callStep RoomIfNew (formatted part dev) cs s) (c : Call)
    (hwrap : c.offset + c.len < 2 ^ 64) (k : Nat) (hcrc : Told part s.dev (crashed s c k))
    {vfsMount : Int} {found : Fs} {ws : List SectorWrite}
    (hm : aegisfsMountPersistent none (some part) true vfsMount (crashed s c k) =
      (aegisOk, some found, ws)) :
    contents found ((crashed s c k).issue ws) = s.files ∨
      contents found ((crashed s c k).issue ws) = (c.after s).files := by
  have hdur := durable_run hd h hrun
  have hr := hdur.persisted.recognised
  have hsound := after_sound hdur.sound hwrap
  have hout := agfsWrite_outcome c.path hdur.sound hwrap c.buf
  have hnothing (hws : (c.perform s).2.2 = []) :
      contents found ((crashed s c k).issue ws) = s.files := by
    rw [crashed, hws, take_nil] at hm ⊢
    obtain ⟨rfl, rfl⟩ := mount_durable hdur hm
    rfl
  rw [← hdur.onPart] at hm hcrc
  simp only [crashed, Call.after, Call.perform] at hsound hcrc hnothing hm ⊢
  generalize agfsWrite s.fs s.dev c.path c.offset c.buf c.len = out
    at hout hsound hcrc hnothing hm
  cases hout with
  | refused | noRoomForNew => exact .inl (hnothing rfl)
  | rewritten _ _ _ => exact crash_write s.fs hdur.sound hdur.persisted rfl rfl hr hsound k hcrc hm
  | fresh _ _ _ _ =>
    exact crash_write (created s.fs _ _) hdur.sound hdur.persisted rfl rfl
      ⟨hr.magic, hr.version, hr.blocks⟩ hsound k hcrc hm

end

/-- `a` holds a zero byte, in the first of two data sectors. -/
def firstWritten : Sys := writeByte.after (formatted twoSectors twoSectorDisk)

def secondByte : Call := ⟨cstr "a", 0, fun _ => 7, 1⟩

theorem writeByte_room : RoomIfNew (formatted twoSectors twoSectorDisk) writeByte :=
  ⟨by decide, fun _ _ _ => by decide +kernel⟩

theorem secondByte_room : RoomIfNew firstWritten secondByte :=
  ⟨by decide, fun _ hnone => absurd hnone (by decide +kernel)⟩

/-- The write of a second byte stops when its data is in the other sector. -/
theorem crash_after_data :
    Run callStep RoomIfNew (formatted twoSectors twoSectorDisk) [writeByte] firstWritten ∧
      (crashed firstWritten secondByte 1).medium (18 * 512) = 7 ∧
      ∃ found, aegisfsMountPersistent none (some twoSectors) true aegisOk
          (crashed firstWritten secondByte 1) = (aegisOk, some found, []) ∧
        (contents found (crashed firstWritten secondByte 1) = firstWritten.files ∨
          contents found (crashed firstWritten secondByte 1) =
            (secondByte.after firstWritten).files) := by
  have hrun : Run callStep RoomIfNew (formatted twoSectors twoSectorDisk) [writeByte] firstWritten :=
    .single writeByte_room rfl
  have hd : Hosts twoSectorDisk twoSectors := ⟨rfl, rfl, rfl⟩
  obtain ⟨htold, hm⟩ := crashed_before_directory (c := secondByte) (k := 1)
    (durable_run hd (by decide) hrun) (by decide +kernel)
  have hfiles := crash_detected hd (by decide) hrun secondByte (by decide) 1 htold hm
  rw [issue_nil] at hfiles
  exact ⟨hrun, by decide +kernel, _, hm, hfiles⟩

/-! Reboots between the writes. -/

def remount (s : Sys) : Option Sys :=
  match aegisfsMountPersistent none (some s.fs.part) true aegisOk s.dev with
  | (_, some fs, ws) => some ⟨fs, s.dev.issue ws⟩
  | (_, none, _) => none

/-- A write, or a reboot. -/
def rebootStep (s : Sys) : Option Call → Option Sys
  | some c => callStep s c
  | none => remount s

def RoomForEach (s : Sys) (e : Option Call) : Prop := ∀ c ∈ e, RoomIfNew s c

theorem reboot_durable (h : Durable part s) : rebootStep s none = some s := by
  rw [rebootStep, remount, h.onPart, mount_durable_ok h]
  rfl

section
variable {es : List (Option Call)} {t : Sys}

theorem reboots_run (h : Durable part s) (hrun : Run rebootStep RoomForEach s es t) :
    Run callStep RoomIfNew s es.reduceOption t ∧ Durable part t := by
  induction hrun with
  | nil s => exact ⟨.nil s, h⟩
  | @cons s _ _ e _ hok hstep _ ih =>
    cases e with
    | none =>
      cases (reboot_durable h).symm.trans hstep
      exact ih h
    | some c =>
      have hroom := hok c rfl
      cases hstep
      obtain ⟨hrest, ht⟩ := ih (durable_step h hroom)
      exact ⟨.cons hroom rfl hrest, ht⟩

/-- Reboots between the writes lead to no other states, and the next mount finds each of these
as it was and writes nothing. -/
theorem reboots_invisible (hd : Hosts dev part) (h : aegisfsDataLba ≤ part.blockCount)
    (hrun : Run rebootStep RoomForEach (formatted part dev) es t) :
    Run callStep RoomIfNew (formatted part dev) es.reduceOption t ∧
      aegisfsMountPersistent none (some part) true aegisOk t.dev = (aegisOk, some t.fs, []) := by
  obtain ⟨hwrites, ht⟩ := reboots_run (formatted_durable hd h) hrun
  exact ⟨hwrites, mount_durable_ok ht⟩

end

theorem reboots_between_bytes : ∃ t,
    Run rebootStep RoomForEach (formatted twoSectors twoSectorDisk)
        [none, some writeByte, none, some secondByte] t ∧
      aegisfsMountPersistent none (some twoSectors) true aegisOk t.dev = (aegisOk, some t.fs, []) := by
  have hd : Hosts twoSectorDisk twoSectors := ⟨rfl, rfl, rfl⟩
  have hdur := formatted_durable hd (by decide)
  have hdur' : Durable twoSectors firstWritten := durable_step hdur writeByte_room
  have hnone (s : Sys) : RoomForEach s none := by simp [RoomForEach]
  have hrun : Run rebootStep RoomForEach (formatted twoSectors twoSectorDisk)
      [none, some writeByte, none, some secondByte] _ :=
    .cons (hnone _) (reboot_durable hdur) (.cons (by simpa [RoomForEach] using writeByte_room)
      (show _ = some firstWritten from rfl) (.cons (hnone _) (reboot_durable hdur')
        (.single (by simpa [RoomForEach] using secondByte_room) rfl)))
  exact ⟨_, hrun, (reboots_invisible hd (by decide) hrun).2⟩

/-! A file that exists in memory only. -/

/-- More than two sectors. -/
def writeB : Call := ⟨cstr "b", 0, fun _ => 0, 1025⟩

theorem writeB_refused (hdur : Durable twoSectors s)
    (hnext : s.fs.sb.nextFreeLba.toNat = aegisfsDataLba) (hfree : (s.fs.entries 0).valid = 0)
    (hnone : s.fs.entries.lookup writeB.name = none) :
    writeB.after s = ⟨created s.fs 0 writeB.name, s.dev⟩ := by
  have hs := created_sound hdur.sound 0 writeB.name
  have he := hs.entries 0 (by simp [created_entry, Entry.named])
  have hfit : ¬ Fits (created s.fs 0 writeB.name) 0 0 1025 := by
    have hsize := created_newSize s.fs 0 writeB.name
      (show 0 + 1025 ≤ aegisfsMaxFileBytes by decide)
    have hblocks : (created s.fs 0 writeB.name).part = twoSectors := hdur.onPart
    have hnext : (created s.fs 0 writeB.name).sb.nextFreeLba.toNat = aegisfsDataLba := hnext
    rw [Fits, hsize, hblocks, hnext]
    decide
  obtain ⟨rc, -, hfull⟩ := writeEntry_full hs he hfit (fun _ => 0)
  have hresult : writeB.perform s = (rc, created s.fs 0 writeB.name, []) := by
    refine (agfsWrite_eq s.dev hdur.sound.writable ⟨by decide, by decide, by decide⟩ _).trans ?_
    exact (writeNamed_new s.dev hnone (allocEntry_first hfree _) _ _ _).trans hfull
  rw [Call.after, hresult, issue_nil]

theorem created_keeps {name other : CStr} {i : Fin aegisfsMaxFiles}
    (hfree : (fs.entries i).valid = 0) (h : fs.entries.lookup name ≠ none) :
    (created fs i other).entries.lookup name ≠ none := by
  intro hnone
  refine h (lookup_none.mpr fun j => ?_)
  by_cases hj : j = i
  · rw [hj, ← Bool.not_eq_true, names_iff]
    exact fun hnames => hnames.1 hfree
  · have hother := lookup_none.mp hnone j
    rwa [created_entries, update_of_ne hj] at hother

theorem file_stays (hs : Sound s.fs s.dev) {name : CStr} (h : s.files name ≠ none) {c : Call}
    (hwrap : c.offset + c.len < 2 ^ 64) : (c.after s).files name ≠ none := by
  have hout := agfsWrite_outcome c.path hs hwrap c.buf
  simp only [Call.after, Call.perform, Sys.files, contents, ne_eq, map_eq_none_iff] at h ⊢
  generalize agfsWrite s.fs s.dev c.path c.offset c.buf c.len = out at hout
  cases hout with
  | refused _ => exact h
  | noRoomForNew _ _ hfree _ _ => exact created_keeps hfree h
  | rewritten _ _ _ => rwa [written_lookup]
  | fresh _ hfree _ _ =>
    rw [written_lookup]
    exact created_keeps hfree h

/-- Let the write of a new file `b` fail for lack of sectors. From then on `b` is an empty file,
but a crash before the first sector write of any later call mounts without it. -/
theorem phantom_file_lost : ∃ s, Run callStep anyEvent (formatted twoSectors twoSectorDisk)
        [writeB] s ∧
      ∀ c : Call, c.offset + c.len < 2 ^ 64 → Told twoSectors s.dev (crashed s c 0) ∧ ∃ found,
        aegisfsMountPersistent none (some twoSectors) true aegisOk (crashed s c 0) =
          (aegisOk, some found, []) ∧
        contents found (crashed s c 0) ≠ s.files ∧
        contents found (crashed s c 0) ≠ (c.after s).files := by
  have hd : Hosts twoSectorDisk twoSectors := ⟨rfl, rfl, rfl⟩
  have hdur := formatted_durable hd (by decide)
  have hnext := formatted_next hd (by decide)
  have hnone := formatted_lookup hd (by decide) writeB.name
  have hfree : ((formatted twoSectors twoSectorDisk).fs.entries 0).valid = 0 := by
    rw [formatted_fs hd (by decide)]
    rfl
  generalize formatted twoSectors twoSectorDisk = t at *
  have hs := writeB_refused hdur hnext hfree hnone
  have hbefore : contents t.fs t.dev writeB.name = none := by rw [contents, hnone, map_none]
  have hphantom : (writeB.after t).files writeB.name ≠ none := by
    have hc : contents (created t.fs 0 writeB.name) t.dev =
        update (contents t.fs t.dev) writeB.name (some []) :=
      contents_created ⟨by decide, by decide⟩ hfree hnone
    rw [hs, Sys.files, hc, update_self]
    exact some_ne_none _
  have hsound : Sound (writeB.after t).fs (writeB.after t).dev :=
    after_sound hdur.sound (by decide)
  have hdev : (writeB.after t).dev = t.dev := by rw [hs]
  refine ⟨writeB.after t, .single trivial rfl, fun c hwrap => ?_⟩
  have hcrash : crashed (writeB.after t) c 0 = t.dev := by
    rw [crashed, take_zero, issue_nil, hdev]
  rw [hcrash, hdev]
  refine ⟨fun _ => rfl, t.fs, mount_durable_ok hdur, ?_, ?_⟩
  · intro heq
    exact hphantom (by rw [← heq]; exact hbefore)
  · intro heq
    exact file_stays hsound hphantom hwrap (by rw [← heq]; exact hbefore)

end AegisOS.AegisFs
