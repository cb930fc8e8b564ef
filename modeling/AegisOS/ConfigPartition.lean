import AegisOS.AegisFsSpace
import AegisOS.UpdateProtocol

/-! AegisFS and the update metadata on one `AEGIS_CONFIG` partition. The file system
allocates upwards from sector 17 and never looks at the record in sector 96; the two
stay apart as long as no write allocates past that sector. -/
namespace AegisOS.ConfigPartition
open ByteStore SectorWrites BlockStorage CString GuardedRun Function Update AegisFs Option

structure Sys where
  fs : Fs
  u : Updater
  dev : Device
  /-- What the successful writes of the run have put into each file. -/
  expected : FileMap

inductive Event
  | write (c : Call)
  | update (op : Op)

def Sys.store (s : Sys) : AegisFs.Sys := ⟨s.fs, s.dev⟩

def step (part : Partition) (s : Sys) : Event → Option Sys
  | .write c =>
    let r := c.perform s.store
    some
      { s with
        fs := r.2.1
        dev := s.dev.issue r.2.2
        expected :=
          if r.1 = c.len then update s.expected c.name (some (c.result s.expected))
          else s.expected }
  | .update op =>
    let r := perform part s.u s.dev op
    some { s with u := r.2.1, dev := s.dev.issue r.2.2 }

/-- A fresh file system, then the first `update_init`. -/
def start (part : Partition) (dev : Device) : Sys := let f := formatted part dev
  let b := boot part f.dev
  ⟨f.fs, b.u, b.dev, fun _ => none⟩

/-- The range does not wrap around; a write in range that has its directory entry has a name that
fits it, and needs no sector past the one before the record. -/
def ClearOfRecord (s : Sys) : Event → Prop
  | .write c => c.offset + c.len < 2 ^ 64 ∧ (InRange c.name c.offset c.len →
      (s.fs.entries.lookup c.name ≠ none ∨ ∃ i, (s.fs.entries i).valid = 0) →
      c.name.bytes.length < aegisfsNameMax ∧
        s.fs.sb.nextFreeLba.toNat + copySectors s.fs c ≤ updateMetadataLba)
  | .update _ => True

/-- The files agree with what the run wrote; a refused write may have left an empty file. -/
def Agrees (expected files : FileMap) : Prop :=
  ∀ name, files name = expected name ∨ (expected name = none ∧ files name = some [])

variable {expected files : FileMap} {op : Op} {c : Call} {dev : Device}

theorem Agrees.update (h : Agrees expected files) (name : CStr) (c : Option (List UInt8)) :
    Agrees (update expected name c) (update files name c) := by
  intro other
  by_cases hn : other = name
  · subst hn
    exact .inl (by rw [update_self, update_self])
  · rw [update_of_ne hn, update_of_ne hn]
    exact h other

theorem Agrees.getD (h : Agrees expected files) (name : CStr) :
    (files name).getD [] = (expected name).getD [] := by
  rcases h name with h | ⟨he, hf⟩
  · rw [h]
  · rw [he, hf]
    rfl

/-- Both modules find their data, and the file system is below the record. -/
structure Apart (part : Partition) (s : Sys) : Prop where
  onPart : s.fs.part = part
  sound : Sound s.fs s.dev
  below : s.fs.sb.nextFreeLba.toNat ≤ updateMetadataLba
  synced : Synced part s.u s.dev
  agrees : Agrees s.expected (contents s.fs s.dev)

section
variable {part : Partition} {s s' : Sys}

theorem step_write (h : step part s (.write c) = some s') :
    s'.u = s.u ∧ s'.dev = s.dev.issue (c.perform s.store).2.2 := by
  simp only [step, some.injEq] at h
  subst h
  exact ⟨rfl, rfl⟩

theorem recordWrite_spares (h : s.fs.part = part)
    (hb : s.fs.sb.nextFreeLba.toNat ≤ updateMetadataLba) (g : UpdateState) :
    SparesData s.fs (recordWrite part g) := by
  intro w hw
  have := mem_split hw
  rw [h]
  omega

theorem apart_update (hs : HasRecordSector part) (h : Apart part s)
    (hstep : step part s (.update op) = some s') : Apart part s' := by
  obtain ⟨ws, hp, hws⟩ := perform_refines h.synced hs op
  have hspare : SparesData s.fs ws := by
    rcases hws with rfl | ⟨rfl, -⟩
    · exact recordWrite_spares h.onPart h.below _
    · exact fun w hw => absurd hw List.not_mem_nil
  have hsync := (h.synced.perform hs op).2.2
  rw [hp] at hsync
  simp only [step, hp, some.injEq] at hstep
  subst hstep
  refine ⟨h.onPart, h.sound.kept hspare, h.below, hsync, ?_⟩
  rw [contents_kept h.sound hspare]
  exact h.agrees

/-- What the file system needs of the state after a write for the record to be safe. -/
structure Below (part : Partition) (g : UpdateState) (t : AegisFs.Sys) : Prop where
  onPart : t.fs.part = part
  hosts : Hosts t.dev part
  stored : Stored part t.dev g
  next : t.fs.sb.nextFreeLba.toNat ≤ updateMetadataLba

/-- A write through `fs` that takes sectors below the record: its data lie below the
record, its metadata below the data. -/
theorem below_written (h : Apart part s) (fs : Fs) {i : Fin aegisfsMaxFiles}
    {offset len : Nat} (buf : Store) (hpart : fs.part = part)
    (hfit : Fits fs i offset len)
    (hnext : fs.sb.nextFreeLba.toNat +
      sectorsOf (newSize (fs.entries i) offset len) ≤ updateMetadataLba) :
    Below part s.u.g ⟨written fs s.dev i offset buf len,
      s.dev.issue (allWrites fs s.dev i offset buf len)⟩ := by
  refine ⟨hpart, h.synced.hosts.issue _, ?_, by rw [written_next s.dev hfit]; exact hnext⟩
  refine (readBytes_applyWrites_untouched s.dev.medium fun w hw => ?_).trans h.synced.stored
  rcases List.mem_append.mp hw with hw | hw
  · have hlba := (mem_split hw).2
    rw [hpart] at hlba
    omega
  have hlba := (metadataWrites_lba hw).2
  rw [show (written fs s.dev i offset buf len).part = part from hpart] at hlba
  unfold updateMetadataLba
  unfold aegisfsDataLba aegisfsDirLba aegisfsDirSectors at hlba
  omega

section
variable (h : Apart part s) (hok : ClearOfRecord s (.write c))
include h hok

theorem below_write : Below part s.u.g (c.after s.store) := by
  have hout := agfsWrite_outcome c.path h.sound hok.1 c.buf
  simp only [Call.after, Call.perform, Sys.store]
  generalize agfsWrite s.fs s.dev c.path c.offset c.buf c.len = out at hout
  change WriteOutcome _ _ c.name _ _ _ _ at hout
  cases hout with
  | refused | noRoomForNew => exact ⟨h.onPart, h.synced.hosts, h.synced.stored, h.below⟩
  | @rewritten i hl hin hfit =>
    have hclear := (hok.2 hin (.inl (by simp [hl]))).2
    rw [copySectors, entryFor_found hl] at hclear
    exact below_written h s.fs c.buf h.onPart hfit hclear
  | @fresh i hnone hfree hin hfit =>
    have hclear := (hok.2 hin (.inr ⟨i, hfree⟩)).2
    rw [copySectors, entryFor_new hnone] at hclear
    refine below_written h (created s.fs i c.name) c.buf h.onPart hfit ?_
    rwa [created_newSize_zero]

theorem long_name_refused (hlong : ¬c.name.bytes.length < aegisfsNameMax) :
    (c.perform s.store).1 < 0 ∧ (c.after s.store).files = s.store.files := by
  have hout := agfsWrite_outcome c.path h.sound hok.1 c.buf
  simp only [Call.after, Call.perform, Sys.store]
  generalize agfsWrite s.fs s.dev c.path c.offset c.buf c.len = out at hout
  change WriteOutcome _ _ c.name _ _ _ _ at hout
  cases hout with
  | refused hrc => exact ⟨hrc, rfl⟩
  | noRoomForNew _ _ hfree hin _ => exact absurd (hok.2 hin (.inr ⟨_, hfree⟩)).1 hlong
  | rewritten hl hin _ => exact absurd (hok.2 hin (.inl (by simp [hl]))).1 hlong
  | fresh _ hfree hin _ => exact absurd (hok.2 hin (.inr ⟨_, hfree⟩)).1 hlong

theorem agrees_write : Agrees (if (c.perform s.store).1 = c.len then
      update s.expected c.name (some (c.result s.expected)) else s.expected) (c.after s.store).files := by
  have hold : Agrees s.expected s.store.files := h.agrees
  have hneg (rc : Int) (hrc : rc < 0) : ¬ rc = c.len := by omega
  by_cases hshort : c.name.bytes.length < aegisfsNameMax
  swap
  · obtain ⟨hrc, hfiles⟩ := long_name_refused h hok hshort
    rw [if_neg (hneg _ hrc), hfiles]
    exact hold
  rcases after_files (s := s.store) h.sound hok.1 hshort with
    ⟨hrc, hfiles⟩ | ⟨hrc, hfiles | ⟨hnone, hfiles⟩⟩
  · rw [if_pos hrc, hfiles, Call.result, Call.result, hold.getD]
    exact hold.update _ _
  · rw [if_neg (hneg _ hrc), hfiles]
    exact hold
  · rw [if_neg (hneg _ hrc), hfiles]
    intro other
    by_cases hn : other = c.name
    · subst hn
      have hexp : s.expected c.name = none := by
        rcases hold c.name with he | ⟨he, -⟩
        · rw [← he, hnone]
        · exact he
      exact .inr ⟨hexp, update_self ..⟩
    · rw [update_of_ne hn]
      exact hold other

theorem apart_write (hstep : step part s (.write c) = some s') : Apart part s' := by
  obtain ⟨hpart, hhosts, hstored, hnext⟩ := below_write h hok
  simp only [step, some.injEq] at hstep
  subst hstep
  exact ⟨hpart, after_sound (s := s.store) h.sound hok.1, hnext,
    ⟨hhosts, h.synced.found, h.synced.loaded, hstored⟩, agrees_write h hok⟩

end

theorem apart_step (hs : HasRecordSector part) {e : Event} (h : Apart part s)
    (hok : ClearOfRecord s e) (hstep : step part s e = some s') : Apart part s' := by
  cases e with
  | write c => exact apart_write h hok hstep
  | update op => exact apart_update hs h hstep

theorem dataLba_le (hs : HasRecordSector part) : aegisfsDataLba ≤ part.blockCount :=
  Nat.le_trans (by decide) hs

variable (hs : HasRecordSector part) (hd : Hosts dev part)
  (hblank : accepts (recordAt part (formatted part dev).dev) = false)
include hs hd hblank

theorem apart_start : Apart part (start part dev) := by
  have hdata := dataLba_le hs
  have hsound := formatted_sound hd hdata
  have hfs := formatted_fs hd hdata
  have hpart : (formatted part dev).fs.part = part := by rw [hfs]; rfl
  have hnext : (formatted part dev).fs.sb.nextFreeLba.toNat ≤ updateMetadataLba := by
    rw [formatted_next hd hdata]
    decide
  have hhosts := formatted_hosts hd
  have hboot : (boot part (formatted part dev).dev).dev =
      (formatted part dev).dev.issue (recordWrite part blankState) := by
    rw [boot, updateInit_blank hhosts hs hblank]
  have hspare : SparesData (formatted part dev).fs
      (recordWrite part blankState) :=
    recordWrite_spares (s := start part dev) hpart hnext _
  refine ⟨hpart, ?_, hnext, (boot_synced hhosts hs hblank).2, ?_⟩
  · change Sound _ (boot part (formatted part dev).dev).dev
    rw [hboot]
    exact hsound.kept hspare
  · change Agrees _ (contents (formatted part dev).fs (boot part (formatted part dev).dev).dev)
    rw [hboot, contents_kept hsound hspare]
    intro name
    exact .inl (congrFun (formatted_files hd hdata) name)

theorem start_g : (start part dev).u.g = blankState :=
  (boot_synced (formatted_hosts hd) hs hblank).1

end

theorem read_back {fs : Fs} (hs : Sound fs dev) {path : CStr} {bytes : List UInt8} {len : Nat}
    (hfile : contents fs dev (stripSlashes path) = some bytes) (offset : Nat) (hlen : len ≠ 0) :
    agfsRead fs dev path offset len =
      (((min len (bytes.length - offset) : Nat) : Int), (bytes.drop offset).take len) := by
  obtain ⟨i, hl, rfl⟩ := map_eq_some_iff.mp hfile
  rw [fileBytes, length_readBytes, readBytes_drop, readBytes_take]
  by_cases hoff : offset < (fs.entries i).size.toNat
  · exact agfsRead_inside hs hl hoff (.inl (Nat.pos_of_ne_zero hlen))
  · have hend : (fs.entries i).size.toNat - offset = 0 := by omega
    have hfind : findEntry fs path = some i := hl
    rw [hend, Nat.min_zero]
    simp only [agfsRead, hfind, if_pos (Nat.not_lt.mp hoff)]
    rfl

/-- Along every run whose file writes stay below the record's sector, each file reads back
what was written to it and each reboot finds the record stored last. -/
theorem config_partition_shared {part : Partition} {dev : Device}
    (hs : HasRecordSector part) (hd : Hosts dev part)
    (hblank : accepts (recordAt part (formatted part dev).dev) = false)
    {es : List Event} {s : Sys} (hrun : Run (step part) ClearOfRecord (start part dev) es s) :
    (∀ path bytes offset len, s.expected (stripSlashes path) = some bytes → len ≠ 0 →
      agfsRead s.fs s.dev path offset len =
        (((min len (bytes.length - offset) : Nat) : Int), (bytes.drop offset).take len)) ∧
    recordAt part s.dev = record s.u.g ∧
    (updateInit (some part) true s.dev).2.1 = ⟨rebooted s.u.g, some part⟩ := by
  have h : Apart part s :=
    hrun.invariant (I := Apart part) (fun _ _ _ hi hok hstep => apart_step hs hi hok hstep)
      (apart_start hs hd hblank)
  refine ⟨?_, recordAt_stored h.synced.stored, ?_⟩
  · intro path bytes offset len hexp hlen
    refine read_back h.sound ?_ offset hlen
    rcases h.agrees (stripSlashes path) with heq | ⟨hnone, -⟩
    · exact heq.trans hexp
    · rw [hexp] at hnone
      cases hnone
  · obtain ⟨ws, hinit, -⟩ := updateInit_stored h.synced.hosts hs h.synced.loaded h.synced.stored
    rw [hinit]

/-! The smallest disk again. -/

theorem formatted_zeroDisk_blank :
    accepts (recordAt smallConfig (formatted smallConfig zeroDisk).dev) = false := by
  refine not_accepts_zeros fun i hi => ?_
  rw [formatted, formatted_eq zeroDisk_hosts (by decide), issue_medium,
    applyWrites_untouched]
  · rfl
  intro w hw
  have hlba : w.lba < 395264 + 17 := (metadataWrites_lba hw).2
  have hsector : (smallConfig.startLba + updateMetadataLba) * 512 = 202424320 := rfl
  omega

theorem apart_zeroDisk : Apart smallConfig (start smallConfig zeroDisk) :=
  apart_start smallConfig_sector zeroDisk_hosts formatted_zeroDisk_blank

/-- What is known once an update is staged. -/
structure Staged (s : Sys) : Prop where
  apart : Apart smallConfig s
  fs : s.fs = (formatted smallConfig zeroDisk).fs
  expected : s.expected = fun _ => none
  pending : s.u.g.pending = true

theorem stageB_staged : ∃ s, step smallConfig (start smallConfig zeroDisk) (.update stageB) = some s ∧
    Staged s := by
  have hsector := smallConfig_sector
  refine ⟨_, rfl, apart_update hsector apart_zeroDisk rfl, rfl, rfl, ?_⟩
  rw [(apart_zeroDisk.synced.perform hsector stageB).2.1,
    start_g hsector zeroDisk_hosts formatted_zeroDisk_blank]
  rfl

section
variable {s : Sys} (h : Staged s)
include h

theorem Staged.next : s.fs.sb.nextFreeLba.toNat = aegisfsDataLba := by
  rw [h.fs, formatted_next zeroDisk_hosts (by decide)]

theorem Staged.absent (path : CStr) : findEntry s.fs path = none := by
  rw [h.fs]
  exact formatted_lookup zeroDisk_hosts (by decide) _

theorem Staged.first_write {path : CStr} (hname : Named (stripSlashes path)) (len : Nat) (hlen : 0 < len)
    (hmax : len ≤ aegisfsMaxFileBytes) (buf : Store) :
    newSize ((created s.fs 0 (stripSlashes path)).entries 0) 0 len = len ∧
      agfsWrite s.fs s.dev path 0 buf len =
        ((len : Int), written (created s.fs 0 (stripSlashes path)) s.dev 0 0 buf len,
          allWrites (created s.fs 0 (stripSlashes path)) s.dev 0 0 buf len) := by
  have hfree : (s.fs.entries 0).valid = 0 := by
    rw [h.fs, formatted_fs zeroDisk_hosts (by decide)]
    rfl
  refine agfsWrite_first h.apart.sound hname (h.absent path) hfree len hlen hmax ?_ buf
  have hsectors := sectorsOf_eq hmax
  have hblocks : smallConfig.blockCount = 65536 := rfl
  unfold aegisfsMaxFileBytes at hmax
  rw [h.next, h.apart.onPart, hsectors, hblocks]
  unfold aegisfsDataLba aegisfsDirLba aegisfsDirSectors
  omega

end

theorem config_partition_small :
    ∃ s, Run (step smallConfig) ClearOfRecord (start smallConfig zeroDisk)
        [.update stageB, .write writeByte] s ∧
      agfsRead s.fs s.dev (cstr "/a") 0 7 = (1, [0]) ∧ recordAt smallConfig s.dev = record s.u.g := by
  obtain ⟨s, hstage, hs⟩ := stageB_staged
  have hclear : ClearOfRecord s (.write writeByte) := by
    refine ⟨by decide, fun _ _ => ⟨by decide, ?_⟩⟩
    rw [hs.next, copySectors, entryFor_new (hs.absent _)]
    decide
  obtain ⟨t, hstep⟩ : ∃ t, step smallConfig s (.write writeByte) = some t := ⟨_, rfl⟩
  have hrun : Run (step smallConfig) ClearOfRecord (start smallConfig zeroDisk)
      [.update stageB, .write writeByte] t := .cons trivial hstage (.single hclear hstep)
  have hrc : (writeByte.perform s.store).1 = writeByte.len :=
    congrArg Prod.fst (hs.first_write ⟨by decide, by decide⟩ 1 (by decide) (by decide) _).2
  have hexp : t.expected (stripSlashes (cstr "/a")) = some [0] := by
    simp only [step, some.injEq, if_pos hrc, hs.expected] at hstep
    subst hstep
    rfl
  obtain ⟨hread, hrecord, -⟩ := config_partition_shared smallConfig_sector zeroDisk_hosts
    formatted_zeroDisk_blank hrun
  exact ⟨t, hrun, hread _ [0] 0 7 hexp (by decide), hrecord⟩

/-- A first write of 80 zero sectors, which reaches from sector 17 to sector 96. -/
def writeOverRecord : Call := ⟨cstr "a", 0, fun _ => 0, 40960⟩

theorem writeOverRecord_medium {fs : Fs} (hs : Sound fs dev)
    (hnext : fs.sb.nextFreeLba.toNat = aegisfsDataLba)
    (hsize : newSize (fs.entries 0) 0 40960 = 40960) {i : Nat} (hi : i < 512) :
    (dev.issue (allWrites fs dev 0 0 (fun _ => 0) 40960)).medium
      ((fs.part.startLba + updateMetadataLba) * 512 + i) = 0 := by
  have hsectors : sectorsOf 40960 = 80 := rfl
  have hnew := medium_new hs 0 0 (fun _ => 0) 40960 (x := 79 * 512 + i) (by rw [hsize]; omega)
  have haddr : (fs.part.startLba + fs.sb.nextFreeLba.toNat) * 512 + (79 * 512 + i) =
      (fs.part.startLba + updateMetadataLba) * 512 + i := by
    rw [hnext]
    unfold aegisfsDataLba aegisfsDirLba aegisfsDirSectors
      updateMetadataLba
    omega
  rw [← haddr, hnew, newImage, blit_inside (by omega) (by omega)]

/-- The file's last sector is the record's: the staged update is gone after a reboot. -/
theorem write_destroys_record : ∃ s, Run (step smallConfig) anyEvent (start smallConfig zeroDisk)
        [.update stageB, .write writeOverRecord] s ∧
      s.u.g.pending = true ∧ recordAt smallConfig s.dev ≠ record s.u.g ∧
      (updateInit (some smallConfig) true s.dev).2.1.g.pending = false := by
  obtain ⟨s, hstage, hs⟩ := stageB_staged
  have hnamed : Named writeOverRecord.name := ⟨by decide, by decide⟩
  obtain ⟨hsize, hwrite⟩ := hs.first_write hnamed 40960 (by decide) (by decide) fun _ => 0
  obtain ⟨t, hstep⟩ : ∃ t, step smallConfig s (.write writeOverRecord) = some t := ⟨_, rfl⟩
  have hdev : t.dev = s.dev.issue (allWrites (created s.fs 0 writeOverRecord.name) s.dev 0 0
      (fun _ => 0) 40960) := by
    rw [(step_write hstep).2]
    exact congrArg (fun r => s.dev.issue r.2.2) hwrite
  have hblank : accepts (recordAt smallConfig t.dev) = false := by
    refine not_accepts_zeros fun i hi => ?_
    have hzero := writeOverRecord_medium (created_sound hs.apart.sound 0
      writeOverRecord.name) hs.next hsize (i := i) (by omega)
    rw [hdev]
    rw [show (created s.fs 0 _).part = smallConfig from hs.apart.onPart] at hzero
    exact hzero
  have hhosts : Hosts t.dev smallConfig := by
    rw [hdev]
    exact hs.apart.synced.hosts.issue _
  refine ⟨t, .cons trivial hstage (.single trivial hstep),
    by rw [(step_write hstep).1]; exact hs.pending, ?_, ?_⟩
  · intro heq
    rw [heq, accepts_record] at hblank
    cases hblank
  · rw [updateInit_blank hhosts smallConfig_sector hblank]
    rfl

end AegisOS.ConfigPartition
