import AegisOS.Lib.CString
import AegisOS.Lib.Crc
import AegisOS.BlockStorage
import AegisOS.Lib.GuardedRun

/-! The A/B update metadata of `kernel/core/update.c`: the in-memory state, the
512-byte checksummed record it is stored in, and the operations. Each operation
returns its code, the new state and the sector writes it issued. -/
namespace AegisOS.Update
open ByteStore SectorWrites BlockStorage CString Crc

def updateMagic : UInt32 := 0x55474541
def updateFormat : UInt32 := 1
def updateMetadataLba : Nat := 96

/-- `aegis_update_slot_t`; `raw` are the values of a stored byte that name no slot. -/
inductive Slot
  | a | b | none
  | raw (v : UInt8) (h : v ≠ 0 ∧ v ≠ 1 ∧ v ≠ 0xff)
  deriving DecidableEq

def Slot.code : Slot → UInt8
  | .a => 0
  | .b => 1
  | .none => 0xff
  | .raw v _ => v

def Slot.ofCode (v : UInt8) : Slot :=
  if ha : v = 0 then .a
  else if hb : v = 1 then .b
  else if hn : v = 0xff then .none
  else .raw v ⟨ha, hb, hn⟩

@[simp] theorem Slot.ofCode_code (s : Slot) : ofCode s.code = s := by
  cases s with
  | raw v h => simp [ofCode, code, h]
  | _ => rfl

/-- The slots `update_stage` lets through its range test. -/
theorem Slot.code_le_b {s : Slot} : ¬ Slot.b.code < s.code ↔ s = .a ∨ s = .b := by
  cases s with
  | raw v h =>
    have h0 : v.toNat ≠ 0 := fun hv => h.1 (UInt8.toNat_inj.mp (by simpa using hv))
    have h1 : v.toNat ≠ 1 := fun hv => h.2.1 (UInt8.toNat_inj.mp (by simpa using hv))
    simp [code, UInt8.lt_iff_toNat_lt]
    omega
  | _ => decide

/-- `AEGIS_UPDATE_HASH_BYTES` bytes. -/
abbrev Hash := Bytes 32

abbrev Version := CArray 32

def Version.empty : Version := strcopy .empty

/-- `aegis_update_state_t` -/
structure UpdateState where
  initialised : Bool
  metadataValid : Bool
  pending : Bool
  rollbackRequired : Bool
  activeSlot : Slot
  pendingSlot : Slot
  bootAttempts : UInt32
  maxBootAttempts : UInt32
  generation : UInt64
  activeVersion : Version
  pendingVersion : Version
  activeHash : Hash
  pendingHash : Hash

/-- `update_disk_t` -/
structure UpdateDisk where
  magic : UInt32
  format : UInt32
  crc32 : UInt32
  reserved : UInt32
  generation : UInt64
  activeSlot : UInt8
  pendingSlot : UInt8
  pending : UInt8
  rollbackRequired : UInt8
  bootAttempts : UInt32
  maxBootAttempts : UInt32
  activeVersion : Bytes 32
  pendingVersion : Bytes 32
  activeHash : Hash
  pendingHash : Hash
  pad : Bytes 348

def UpdateDisk.encode (d : UpdateDisk) : List UInt8 :=
  leBytes 4 d.magic.toNat ++ (leBytes 4 d.format.toNat ++ (leBytes 4 d.crc32.toNat ++
  (leBytes 4 d.reserved.toNat ++ (leBytes 8 d.generation.toNat ++
  (leBytes 1 d.activeSlot.toNat ++ (leBytes 1 d.pendingSlot.toNat ++
  (leBytes 1 d.pending.toNat ++ (leBytes 1 d.rollbackRequired.toNat ++
  (leBytes 4 d.bootAttempts.toNat ++ (leBytes 4 d.maxBootAttempts.toNat ++
  (d.activeVersion.val ++ (d.pendingVersion.val ++ (d.activeHash.val ++ (d.pendingHash.val ++
  (d.pad.val ++ [])))))))))))))))

def UpdateDisk.decode (bs : List UInt8) : UpdateDisk :=
  let (magic, bs) := takeLe 4 bs
  let (format, bs) := takeLe 4 bs
  let (crc, bs) := takeLe 4 bs
  let (reserved, bs) := takeLe 4 bs
  let (generation, bs) := takeLe 8 bs
  let (activeSlot, bs) := takeLe 1 bs
  let (pendingSlot, bs) := takeLe 1 bs
  let (pending, bs) := takeLe 1 bs
  let (rollbackRequired, bs) := takeLe 1 bs
  let (bootAttempts, bs) := takeLe 4 bs
  let (maxBootAttempts, bs) := takeLe 4 bs
  let (activeVersion, bs) := takeBytes 32 bs
  let (pendingVersion, bs) := takeBytes 32 bs
  let (activeHash, bs) := takeBytes 32 bs
  let (pendingHash, bs) := takeBytes 32 bs
  let (pad, _) := takeBytes 348 bs
  { magic := .ofNat magic, format := .ofNat format, crc32 := .ofNat crc
    reserved := .ofNat reserved, generation := .ofNat generation
    activeSlot := .ofNat activeSlot, pendingSlot := .ofNat pendingSlot
    pending := .ofNat pending, rollbackRequired := .ofNat rollbackRequired
    bootAttempts := .ofNat bootAttempts, maxBootAttempts := .ofNat maxBootAttempts
    activeVersion, pendingVersion, activeHash, pendingHash, pad }

theorem UpdateDisk.length_encode (d : UpdateDisk) : d.encode.length = 512 := by
  simp [encode, d.activeVersion.property, d.pendingVersion.property, d.activeHash.property,
    d.pendingHash.property, d.pad.property]

theorem UpdateDisk.decode_encode (d : UpdateDisk) : decode d.encode = d := by
  have h1 (x : UInt8) : x.toNat < 256 ^ 1 := x.toNat_lt
  have h4 (x : UInt32) : x.toNat < 256 ^ 4 := x.toNat_lt
  have h8 (x : UInt64) : x.toNat < 256 ^ 8 := x.toNat_lt
  simp only [encode, decode, takeLe_leBytes_append, h1, h4, h8, takeBytes_append,
    UInt8.ofNat_toNat, UInt32.ofNat_toNat, UInt64.ofNat_toNat]

def crc32 (bs : List UInt8) : UInt32 :=
  crcWith (fun c => (c >>> 1) ^^^ (0xedb88320 &&& (0 - (c &&& 1)))) bs

def diskCrc (d : UpdateDisk) : UInt32 := crc32 { d with crc32 := 0 }.encode

/-- The statics of `update.c`: the state and the partition found by `update_init`. -/
structure Updater where
  g : UpdateState
  part : Option Partition

def boolByte (b : Bool) : UInt8 := if b then 1 else 0

/-- The record `store` fills before it computes the checksum. -/
def recordBody (g : UpdateState) : UpdateDisk where
  magic := updateMagic
  format := updateFormat
  crc32 := 0
  reserved := 0
  generation := g.generation
  activeSlot := g.activeSlot.code
  pendingSlot := g.pendingSlot.code
  pending := boolByte g.pending
  rollbackRequired := boolByte g.rollbackRequired
  bootAttempts := g.bootAttempts
  maxBootAttempts := g.maxBootAttempts
  activeVersion := (strcopy g.activeVersion.str).field
  pendingVersion := (strcopy g.pendingVersion.str).field
  activeHash := g.activeHash
  pendingHash := g.pendingHash
  pad := .zero 348

def record (g : UpdateState) : UpdateDisk := { recordBody g with crc32 := diskCrc (recordBody g) }

/-- `store`; the flush of a backend that performs every request succeeds. -/
def store (u : Updater) (dev : Device) : Int × List SectorWrite :=
  match u.part with
  | none => (aegisEnoent, [])
  | some part =>
    match blockPartitionWrite part dev updateMetadataLba 1 (ofList (record u.g).encode) with
    | .error rc => (rc, [])
    | .ok ws => (aegisOk, ws)

def defaults : UpdateState where
  initialised := true
  metadataValid := true
  pending := false
  rollbackRequired := false
  activeSlot := .a
  pendingSlot := .none
  bootAttempts := 0
  maxBootAttempts := 3
  generation := 0
  activeVersion := strcopy (cstr "2.0.0-development")
  pendingVersion := .empty
  activeHash := .zero 32
  pendingHash := .zero 32

/-- The state `update_init` copies out of an accepted record. -/
def restore (d : UpdateDisk) : UpdateState :=
  { defaults with
    generation := d.generation
    activeSlot := .ofCode d.activeSlot
    pendingSlot := .ofCode d.pendingSlot
    pending := d.pending ≠ 0
    rollbackRequired := d.rollbackRequired ≠ 0
    bootAttempts := d.bootAttempts
    maxBootAttempts := if d.maxBootAttempts ≠ 0 then d.maxBootAttempts else 3
    activeVersion := strcopy (ofBytes d.activeVersion.val)
    pendingVersion := strcopy (ofBytes d.pendingVersion.val)
    activeHash := d.activeHash
    pendingHash := d.pendingHash }

/-- The three tests `update_init` makes on the sector it read. -/
def accepts (d : UpdateDisk) : Bool :=
  d.magic = updateMagic ∧ d.format = updateFormat ∧ diskCrc d = d.crc32

/-! What each operation makes of the state before it stores it. -/
namespace UpdateState

def expired (g : UpdateState) : UpdateState :=
  { g with rollbackRequired := true, pending := false, pendingSlot := .none
           generation := g.generation + 1 }

def staged (g : UpdateState) (slot : Slot) (version : CStr) (hash : Hash) : UpdateState :=
  { g with pending := true, rollbackRequired := false, pendingSlot := slot, bootAttempts := 0
           pendingVersion := strcopy version, pendingHash := hash
           generation := g.generation + 1 }

def attempted (g : UpdateState) : UpdateState :=
  { g with bootAttempts := g.bootAttempts + 1
           rollbackRequired := g.maxBootAttempts ≤ g.bootAttempts + 1 || g.rollbackRequired
           generation := g.generation + 1 }

def succeeded (g : UpdateState) : UpdateState :=
  { g with activeSlot := g.pendingSlot, pendingSlot := .none, pending := false
           rollbackRequired := false, bootAttempts := 0
           activeVersion := strcopy g.pendingVersion.str
           activeHash := g.pendingHash, pendingVersion := .empty
           pendingHash := .zero 32, generation := g.generation + 1 }

def rolledBack (g : UpdateState) : UpdateState :=
  { g with rollbackRequired := true, pending := false, pendingSlot := .none, bootAttempts := 0
           generation := g.generation + 1 }

end UpdateState

/-- Replace the state and `store` it, as every operation that changes it ends. -/
def commit (u : Updater) (g : UpdateState) (dev : Device) : Int × Updater × List SectorWrite :=
  let u' := { u with g := g }
  let r := store u' dev
  (r.1, u', r.2)

/-- `update_init`, with the result of `block_storage_find_partition("AEGIS_CONFIG")` and of
`block_storage_io_backend_ready()`. -/
def updateInit (found : Option Partition) (backendReady : Bool) (dev : Device) :
    Int × Updater × List SectorWrite :=
  let u : Updater := ⟨defaults, found⟩
  match found, backendReady with
  | some part, true =>
    match blockPartitionRead part dev updateMetadataLba 1 (fun _ => 0) with
    | .error _ => commit u { defaults with generation := 1 } dev
    | .ok buf =>
      let d := .decode (readBytes buf 0 512)
      if accepts d = false then commit u { defaults with generation := 1 } dev
      else
        let g := restore d
        if g.pending ∧ g.maxBootAttempts ≤ g.bootAttempts then
          -- the result of this store is ignored
          (aegisOk, (commit u g.expired dev).2)
        else (aegisOk, { u with g := g }, [])
  | _, _ => (aegisEnoent, u, [])

def updateStage (u : Updater) (slot : Slot) (version : Option CStr) (hash : Option Hash)
    (dev : Device) : Int × Updater × List SectorWrite :=
  match version, hash with
  | some version, some hash =>
    if u.g.initialised = false ∨ u.part.isNone ∨ Slot.b.code < slot.code ∨ slot = u.g.activeSlot then
      (aegisEinval, u, [])
    else commit u (u.g.staged slot version hash) dev
  | _, _ => (aegisEinval, u, [])

def updateNoteBootAttempt (u : Updater) (dev : Device) : Int × Updater × List SectorWrite :=
  if u.g.pending = false then (aegisOk, u, []) else commit u u.g.attempted dev

def updateMarkBootSuccess (u : Updater) (dev : Device) : Int × Updater × List SectorWrite :=
  if u.g.pending = false then (aegisEinval, u, []) else commit u u.g.succeeded dev

def updateRequestRollback (u : Updater) (dev : Device) : Int × Updater × List SectorWrite :=
  commit u u.g.rolledBack dev

/-! The A/B update protocol over reboots: `update_init` recovers from the medium the
state the last operation left, and the slot, version and attempt rules hold along
every run on a device with no other writer. -/
open GuardedRun

/-! The stored record. -/

theorem accepts_record (g : UpdateState) : accepts (record g) = true := by
  have hcrc : diskCrc (record g) = diskCrc (recordBody g) := rfl
  simp only [accepts, decide_eq_true_eq]
  exact ⟨rfl, rfl, hcrc⟩

theorem boolByte_eq_zero (b : Bool) : decide (boolByte b = 0) = !b := by
  cases b <;> decide

/-- The states `update_init` can hand out. -/
structure Loaded (g : UpdateState) : Prop where
  initialised : g.initialised = true
  metadataValid : g.metadataValid = true
  maxBootAttempts : g.maxBootAttempts ≠ 0

variable {g : UpdateState} {u : Updater} {part : Partition} {dev : Device}

theorem restore_record (h : Loaded g) : restore (record g) = g := by
  cases g with
  | mk =>
    obtain ⟨hi, hm, hmax⟩ := h
    subst hi hm
    simp [restore, record, recordBody, defaults, boolByte_eq_zero, strcopy_str, hmax]

/-- The sector of the metadata record, as `update_init` decodes it. -/
def recordAt (part : Partition) (dev : Device) : UpdateDisk :=
  .decode (readBytes dev.medium ((part.startLba + updateMetadataLba) * 512) 512)

theorem not_accepts_zeros {d : Store} {a : Nat} (h : ∀ i, i < 4 → d (a + i) = 0) :
    accepts (.decode (readBytes d a 512)) = false := by
  have htake : (readBytes d a 512).take 4 = [0, 0, 0, 0] := by
    have hzero : readBytes d a 4 = readBytes (fun _ => 0) 0 4 := readBytes_congr h
    rw [readBytes_take, show min 4 512 = 4 from rfl, hzero]
    rfl
  have hmagic : (UpdateDisk.decode (readBytes d a 512)).magic = 0 := by
    rw [UpdateDisk.decode]
    simp only [takeLe, htake]
    decide
  simp [accepts, hmagic, updateMagic]

/-- The record of `g` is on the medium. -/
def Stored (part : Partition) (dev : Device) (g : UpdateState) : Prop :=
  readBytes dev.medium ((part.startLba + updateMetadataLba) * 512) 512 = (record g).encode

def HasRecordSector (part : Partition) : Prop := updateMetadataLba + 1 ≤ part.blockCount

section
variable {part : Partition} {dev : Device}

theorem recordAt_stored (h : Stored part dev g) : recordAt part dev = record g := by
  rw [recordAt, h, UpdateDisk.decode_encode]

/-- The sector write `store` issues. -/
def recordWrite (part : Partition) (g : UpdateState) : List SectorWrite :=
  split (part.startLba + updateMetadataLba) 1 (ofList (record g).encode)

section
variable (hd : Hosts dev part) (hs : HasRecordSector part)
include hd hs

theorem store_eq (g : UpdateState) : store ⟨g, some part⟩ dev = (aegisOk, recordWrite part g) := by
  have hw := blockPartitionWrite_ok hd (r := updateMetadataLba) (c := 1) (by decide) hs
    (ofList (record g).encode)
  simp [store, hw, recordWrite]

theorem commit_eq (hu : u.part = some part) (g : UpdateState) :
    commit u g dev = (aegisOk, ⟨g, some part⟩, recordWrite part g) := by
  have h := store_eq hd hs g
  simp only [commit, hu, h]

end

theorem stored_recordWrite (part : Partition) (dev : Device) (g : UpdateState) :
    Stored part (dev.issue (recordWrite part g)) g := by
  have hlen := UpdateDisk.length_encode (record g)
  have hsplit := applyWrites_split dev.medium (part.startLba + updateMetadataLba) 1
    (ofList (record g).encode)
  rw [Nat.one_mul] at hsplit
  unfold Stored
  rw [issue_medium, recordWrite, hsplit, readBytes_blit_same, ← hlen, readBytes_ofList]

variable (hd : Hosts dev part) (hs : HasRecordSector part)
include hd hs

theorem readRecord : ∃ buf, blockPartitionRead part dev updateMetadataLba 1 (fun _ => 0) = .ok buf ∧
      .decode (readBytes buf 0 512) = recordAt part dev := by
  refine ⟨_, blockPartitionRead_ok hd (by decide) hs _, ?_⟩
  rw [Nat.one_mul, readBytes_blit_same]
  refine congrArg UpdateDisk.decode (readBytes_congr fun i _ => ?_)
  rw [Nat.zero_add]

/-- The state after a reboot that found the record of `g`. -/
def rebooted (g : UpdateState) : UpdateState :=
  if g.pending ∧ g.maxBootAttempts ≤ g.bootAttempts then g.expired else g

theorem updateInit_stored (hg : Loaded g) (h : Stored part dev g) :
    ∃ ws, updateInit (some part) true dev = (aegisOk, ⟨rebooted g, some part⟩, ws) ∧
      (ws = recordWrite part (rebooted g) ∨ ws = [] ∧ rebooted g = g) := by
  obtain ⟨buf, hread, hdec⟩ := readRecord hd hs
  rw [recordAt_stored h] at hdec
  simp only [updateInit, hread, hdec, accepts_record, restore_record hg, rebooted,
    commit_eq hd hs, Bool.true_eq_false, if_false]
  split
  · exact ⟨_, rfl, .inl rfl⟩
  · exact ⟨_, rfl, .inr ⟨rfl, rfl⟩⟩

/-- The state `update_init` writes over a sector that holds no record. -/
def blankState : UpdateState := { defaults with generation := 1 }

theorem updateInit_blank (h : accepts (recordAt part dev) = false) :
    updateInit (some part) true dev =
      (aegisOk, ⟨blankState, some part⟩, recordWrite part blankState) := by
  obtain ⟨buf, hread, hdec⟩ := readRecord hd hs
  simp [updateInit, hread, hdec, h, commit_eq hd hs, blankState]

end

/-! The protocol as a machine on the state alone, and its refinement by the code. -/

inductive Op
  | stage (slot : Slot) (version : Option CStr) (hash : Option Hash)
  | noteBootAttempt
  | markBootSuccess
  | requestRollback
  /-- A reboot. -/
  | init
  deriving DecidableEq

/-- One operation of `update.c`. -/
def perform (part : Partition) (u : Updater) (dev : Device) : Op → Int × Updater × List SectorWrite
  | .stage slot version hash => updateStage u slot version hash dev
  | .noteBootAttempt => updateNoteBootAttempt u dev
  | .markBootSuccess => updateMarkBootSuccess u dev
  | .requestRollback => updateRequestRollback u dev
  | .init => updateInit (some part) true dev

/-- What the operation is for: the state it leaves, had nothing to be stored. -/
def next (g : UpdateState) : Op → Int × UpdateState
  | .stage slot (some version) (some hash) =>
    if (slot = .a ∨ slot = .b) ∧ slot ≠ g.activeSlot then (aegisOk, g.staged slot version hash)
    else (aegisEinval, g)
  | .stage _ _ _ => (aegisEinval, g)
  | .noteBootAttempt => (aegisOk, if g.pending then g.attempted else g)
  | .markBootSuccess => if g.pending then (aegisOk, g.succeeded) else (aegisEinval, g)
  | .requestRollback => (aegisOk, g.rolledBack)
  | .init => (aegisOk, rebooted g)

structure Synced (part : Partition) (u : Updater) (dev : Device) : Prop where
  hosts : Hosts dev part
  found : u.part = some part
  loaded : Loaded u.g
  stored : Stored part dev u.g

section
variable (h : Synced part u dev) (hs : HasRecordSector part)
include h hs

theorem updateStage_refines (slot : Slot) (version : Option CStr) (hash : Option Hash) :
    ∃ ws, updateStage u slot version hash dev = ((next u.g (.stage slot version hash)).1,
          ⟨(next u.g (.stage slot version hash)).2, some part⟩, ws) ∧
      (ws = recordWrite part (next u.g (.stage slot version hash)).2 ∨
        ws = [] ∧ (next u.g (.stage slot version hash)).2 = u.g) := by
  have hu : u = ⟨u.g, some part⟩ := by rw [← h.found]
  have hrange := Slot.code_le_b (s := slot)
  cases version with
  | none => exact ⟨[], by simp [updateStage, next, ← hu], .inr ⟨rfl, by simp [next]⟩⟩
  | some v =>
    cases hash with
    | none => exact ⟨[], by simp [updateStage, next, ← hu], .inr ⟨rfl, by simp [next]⟩⟩
    | some k =>
      by_cases hok : (slot = .a ∨ slot = .b) ∧ slot ≠ u.g.activeSlot
      · have hnot := hrange.mpr hok.1
        rw [updateStage, if_neg (by simp [h.loaded.initialised, h.found, hnot, hok.2]),
          commit_eq h.hosts hs h.found]
        simp [next, hok]
      · refine ⟨[], ?_, .inr ⟨rfl, by simp [next, hok]⟩⟩
        have hbad : Slot.b.code < slot.code ∨ slot = u.g.activeSlot := by
          by_contra hn
          push Not at hn
          exact hok ⟨hrange.mp (by simpa using hn.1), hn.2⟩
        rw [updateStage, if_pos (.inr (.inr hbad))]
        simp [next, hok, ← hu]

theorem perform_refines (op : Op) :
    ∃ ws, perform part u dev op = ((next u.g op).1, ⟨(next u.g op).2, some part⟩, ws) ∧
      (ws = recordWrite part (next u.g op).2 ∨ ws = [] ∧ (next u.g op).2 = u.g) := by
  have hu : u = ⟨u.g, some part⟩ := by rw [← h.found]
  cases op with
  | stage slot version hash => exact updateStage_refines h hs slot version hash
  | noteBootAttempt =>
    cases hp : u.g.pending with
    | false => exact ⟨[], by simp [perform, updateNoteBootAttempt, next, hp, ← hu], by simp [next, hp]⟩
    | true =>
      exact ⟨recordWrite part u.g.attempted, by simp [perform, updateNoteBootAttempt, next, hp, commit_eq h.hosts hs h.found],
        .inl (by simp [next, hp])⟩
  | markBootSuccess =>
    cases hp : u.g.pending with
    | false => exact ⟨[], by simp [perform, updateMarkBootSuccess, next, hp, ← hu], by simp [next, hp]⟩
    | true =>
      exact ⟨recordWrite part u.g.succeeded, by simp [perform, updateMarkBootSuccess, next, hp, commit_eq h.hosts hs h.found],
        .inl (by simp [next, hp])⟩
  | requestRollback =>
    exact ⟨recordWrite part u.g.rolledBack, by simp [perform, updateRequestRollback, next, commit_eq h.hosts hs h.found],
      .inl (by simp [next])⟩
  | init => exact updateInit_stored h.hosts hs h.loaded h.stored

end

theorem next_loaded (h : Loaded g) (op : Op) : Loaded (next g op).2 := by
  obtain ⟨hi, hm, hmax⟩ := h
  cases op with
  | stage slot version hash =>
    cases version <;> cases hash <;> simp only [next] <;> try split
    all_goals exact ⟨hi, hm, hmax⟩
  | init => simp only [next, rebooted]; split <;> exact ⟨hi, hm, hmax⟩
  | requestRollback => exact ⟨hi, hm, hmax⟩
  | _ => simp only [next]; split <;> exact ⟨hi, hm, hmax⟩

theorem Synced.perform (h : Synced part u dev) (hs : HasRecordSector part) (op : Op) :
    (perform part u dev op).1 = (next u.g op).1 ∧
      (perform part u dev op).2.1 = ⟨(next u.g op).2, some part⟩ ∧
      Synced part (perform part u dev op).2.1 (dev.issue (perform part u dev op).2.2) := by
  obtain ⟨ws, hp, hws⟩ := perform_refines h hs op
  rw [hp]
  refine ⟨rfl, rfl, h.hosts.issue ws, rfl, next_loaded h.loaded op, ?_⟩
  rcases hws with rfl | ⟨rfl, hsame⟩
  · exact stored_recordWrite part dev _
  · simpa [hsame] using h.stored

/-! Runs of the update operations, with what a run has staged and attempted so far kept
beside the state, and the rules every run obeys. -/

structure Sys where
  u : Updater
  dev : Device
  /-- Boot attempts noted for a pending update since it was staged. -/
  attempts : Nat
  /-- The arguments of the last `update_stage` that succeeded. -/
  staged : Option (Slot × CStr × Hash)

/-- The history after an operation that returned `rc`. -/
def Sys.observe (s : Sys) (rc : Int) : Op → Nat × Option (Slot × CStr × Hash)
  | .stage slot (some version) (some hash) =>
    if rc = aegisOk then (0, some (slot, version, hash)) else (s.attempts, s.staged)
  | .noteBootAttempt => (if s.u.g.pending then s.attempts + 1 else s.attempts, s.staged)
  | _ => (s.attempts, s.staged)

def step (part : Partition) (s : Sys) (op : Op) : Option Sys :=
  let r := perform part s.u s.dev op
  let h := s.observe r.1 op
  some ⟨r.2.1, s.dev.issue r.2.2, h.1, h.2⟩

/-- The first boot: `update_init` on the device as it is found. -/
def boot (part : Partition) (dev : Device) : Sys :=
  let r := updateInit (some part) true dev
  ⟨r.2.1, dev.issue r.2.2, 0, none⟩

/-- A pending update is staged in a real slot other than the active one. -/
def PendingRule (g : UpdateState) : Prop :=
  g.pending → (g.pendingSlot = .a ∨ g.pendingSlot = .b) ∧ g.pendingSlot ≠ g.activeSlot

/-- The active fields change only when a pending boot succeeds, to what was staged. -/
def ActiveRule (s : Sys) (op : Op) (s' : Sys) : Prop :=
  if op = .markBootSuccess ∧ s.u.g.pending then
    ∃ slot version hash, s.staged = some (slot, version, hash) ∧ s'.u.g.activeSlot = slot ∧
      s'.u.g.activeVersion.str = version.truncate 31 ∧ s'.u.g.activeHash = hash
  else
    s'.u.g.activeSlot = s.u.g.activeSlot ∧ s'.u.g.activeVersion = s.u.g.activeVersion ∧
      s'.u.g.activeHash = s.u.g.activeHash

/-- A reboot restores the state, unless the pending update has used up its attempts. -/
def RebootRule (s s' : Sys) : Prop :=
  if s.u.g.pending ∧ s.u.g.maxBootAttempts.toNat ≤ s.attempts then s'.u.g = s.u.g.expired
  else s'.u.g = s.u.g

def AttemptFits (s : Sys) (op : Op) : Prop :=
  op = .noteBootAttempt → s.u.g.pending → s.u.g.bootAttempts.toNat + 1 < 2 ^ 32

def Op.stages : Op → Prop
  | .stage _ _ _ => True
  | _ => False

section
variable {part : Partition} {dev : Device} {s s' t : Sys} {op : Op} {ops : List Op}

theorem step_eq (h : Synced part s.u s.dev) (hs : HasRecordSector part)
    (hstep : step part s op = some s') :
    s'.u.g = (next s.u.g op).2 ∧ Synced part s'.u s'.dev ∧
      s'.attempts = (s.observe (next s.u.g op).1 op).1 ∧
      s'.staged = (s.observe (next s.u.g op).1 op).2 := by
  obtain ⟨hrc, hu, hsync⟩ := h.perform hs op
  cases hstep
  exact ⟨by rw [hu], hsync, by rw [hrc], by rw [hrc]⟩

theorem boot_synced (hd : Hosts dev part) (hs : HasRecordSector part)
    (h : accepts (recordAt part dev) = false) :
    (boot part dev).u.g = blankState ∧ Synced part (boot part dev).u (boot part dev).dev := by
  unfold boot
  rw [updateInit_blank hd hs h]
  have hl : Loaded blankState := ⟨rfl, rfl, by decide⟩
  exact ⟨rfl, hd.issue _, rfl, hl, stored_recordWrite part dev blankState⟩

/-- What the state knows of the pending update and of its history. -/
structure Tracked (s : Sys) : Prop where
  slots : PendingRule s.u.g
  staged : s.u.g.pending → ∃ slot version hash, s.staged = some (slot, version, hash) ∧
    s.u.g.pendingSlot = slot ∧ s.u.g.pendingVersion = strcopy version ∧
    s.u.g.pendingHash = hash

theorem tracked_of_not_pending (h : s.u.g.pending = false) : Tracked s :=
  ⟨by simp [PendingRule, h], by simp [h]⟩

section
variable (hi : Synced part s.u s.dev) (hs : HasRecordSector part)
include hi hs

theorem tracked_step (ht : Tracked s) (hstep : step part s op = some s') : Tracked s' := by
  obtain ⟨hg, -, -, hstaged⟩ := step_eq hi hs hstep
  -- an operation that leaves state and history alone keeps the facts about them
  have hsame (hg' : (next s.u.g op).2 = s.u.g)
      (hh : (s.observe (next s.u.g op).1 op).2 = s.staged) : Tracked s' := by
    rw [hg'] at hg
    rw [hh] at hstaged
    exact ⟨by rw [hg]; exact ht.slots, by rw [hg, hstaged]; exact ht.staged⟩
  cases op with
  | stage slot version hash =>
    cases version with
    | none => exact hsame (by simp [next]) (by simp [Sys.observe])
    | some v =>
      cases hash with
      | none => exact hsame (by simp [next]) (by simp [Sys.observe])
      | some k =>
        by_cases hok : (slot = .a ∨ slot = .b) ∧ slot ≠ s.u.g.activeSlot
        · have hn : next s.u.g (.stage slot (some v) (some k)) =
              (aegisOk, s.u.g.staged slot v k) := by simp [next, hok]
          rw [hn] at hg hstaged
          refine ⟨by rw [hg]; exact fun _ => hok, fun _ => ⟨slot, v, k, hstaged, ?_⟩⟩
          rw [hg]
          exact ⟨rfl, rfl, rfl⟩
        · exact hsame (by simp [next, hok]) (by simp [Sys.observe, next, hok, aegisEinval, aegisOk])
  | noteBootAttempt =>
    cases hp : s.u.g.pending with
    | false => exact hsame (by simp [next, hp]) (by simp [Sys.observe])
    | true =>
      have hn : (next s.u.g .noteBootAttempt).2 = s.u.g.attempted := by simp [next, hp]
      rw [hn] at hg
      exact ⟨by rw [hg]; exact ht.slots, by rw [hg, hstaged]; exact ht.staged⟩
  | markBootSuccess =>
    cases hp : s.u.g.pending with
    | false => exact hsame (by simp [next, hp]) (by simp [Sys.observe])
    | true => exact tracked_of_not_pending (by rw [hg]; simp [next, hp, UpdateState.succeeded])
  | requestRollback => exact tracked_of_not_pending (by rw [hg]; simp [next, UpdateState.rolledBack])
  | init =>
    by_cases hx : s.u.g.pending ∧ s.u.g.maxBootAttempts ≤ s.u.g.bootAttempts
    · exact tracked_of_not_pending (by rw [hg]; simp [next, rebooted, hx, UpdateState.expired])
    · exact hsame (by simp [next, rebooted, hx]) (by simp [Sys.observe])

def Counted (s : Sys) : Prop := s.u.g.pending → s.u.g.bootAttempts.toNat = s.attempts

theorem counted_step (hc : Counted s) (hok : AttemptFits s op) (hstep : step part s op = some s') :
    Counted s' := by
  obtain ⟨hg, -, hatt, -⟩ := step_eq hi hs hstep
  unfold Counted at hc ⊢
  rw [hg, hatt]
  cases op with
  | stage slot version hash =>
    cases version with
    | none => simpa [next, Sys.observe] using hc
    | some v =>
      cases hash with
      | none => simpa [next, Sys.observe] using hc
      | some k =>
        by_cases hok : (slot = .a ∨ slot = .b) ∧ slot ≠ s.u.g.activeSlot
        · simp [next, hok, Sys.observe, UpdateState.staged]
        · simpa [next, hok, Sys.observe, aegisEinval, aegisOk] using hc
  | noteBootAttempt =>
    cases hp : s.u.g.pending with
    | false => simp [next, hp]
    | true =>
      have hfits := hok rfl hp
      have hcount : (s.u.g.bootAttempts + 1).toNat = s.u.g.bootAttempts.toNat + 1 := by
        exact Nat.mod_eq_of_lt hfits
      simp [next, hp, Sys.observe, UpdateState.attempted, hcount, hc hp]
  | markBootSuccess =>
    cases hp : s.u.g.pending with
    | false => simp [next, hp]
    | true => simp [next, hp, UpdateState.succeeded]
  | requestRollback => simp [next, UpdateState.rolledBack]
  | init =>
    by_cases hx : s.u.g.pending ∧ s.u.g.maxBootAttempts ≤ s.u.g.bootAttempts
    · simp [next, rebooted, hx, UpdateState.expired]
    · simpa [next, rebooted, hx, Sys.observe] using hc

end

theorem next_active {g : UpdateState} (h : op ≠ .markBootSuccess ∨ g.pending = false) :
    (next g op).2.activeSlot = g.activeSlot ∧ (next g op).2.activeVersion = g.activeVersion ∧
      (next g op).2.activeHash = g.activeHash := by
  cases op with
  | stage slot version hash =>
    cases version with
    | none => exact ⟨rfl, rfl, rfl⟩
    | some v =>
      cases hash with
      | none => exact ⟨rfl, rfl, rfl⟩
      | some k => rw [next]; split <;> exact ⟨rfl, rfl, rfl⟩
  | noteBootAttempt => rw [next]; dsimp only; split <;> exact ⟨rfl, rfl, rfl⟩
  | markBootSuccess =>
    have hp : g.pending = false := h.resolve_left (by simp)
    simp [next, hp]
  | requestRollback => exact ⟨rfl, rfl, rfl⟩
  | init => rw [next, rebooted]; dsimp only; split <;> exact ⟨rfl, rfl, rfl⟩

section
variable (hi : Synced part s.u s.dev) (hs : HasRecordSector part)
include hi hs

theorem active_rule (ht : Tracked s) (hstep : step part s op = some s') : ActiveRule s op s' := by
  obtain ⟨hg, -, -, -⟩ := step_eq hi hs hstep
  unfold ActiveRule
  rw [hg]
  split
  next hmark =>
    obtain ⟨rfl, hp⟩ := hmark
    obtain ⟨slot, version, hash, hst, hslot, hver, hhash⟩ := ht.staged hp
    refine ⟨slot, version, hash, hst, ?_⟩
    simp only [next, hp, UpdateState.succeeded, strcopy_str]
    exact ⟨hslot, congrArg CArray.str hver, hhash⟩
  next hother =>
    apply next_active
    by_contra hn
    push Not at hn
    exact hother ⟨hn.1, by simpa using hn.2⟩

theorem reboot_rule (hc : Counted s) (hstep : step part s .init = some s') : RebootRule s s' := by
  obtain ⟨hg, -, -, -⟩ := step_eq hi hs hstep
  unfold RebootRule
  rw [hg]
  cases hp : s.u.g.pending with
  | false => simp [next, rebooted, hp]
  | true =>
    simp only [next, rebooted, hp, UInt32.le_iff_toNat_le, hc hp]
    split <;> rfl

theorem not_pending_step (hp : s.u.g.pending = false) (hop : ¬ op.stages)
    (hstep : step part s op = some s') : s'.u.g.pending = false := by
  obtain ⟨hg, -, -, -⟩ := step_eq hi hs hstep
  rw [hg]
  cases op with
  | stage slot version hash => exact absurd trivial hop
  | requestRollback => simp [next, UpdateState.rolledBack]
  | _ => simp [next, rebooted, hp]

end

theorem not_pending_run (hs : HasRecordSector part) (h : Run (step part) anyEvent s ops t)
    (hi : Synced part s.u s.dev) (hp : s.u.g.pending = false) (hops : ∀ op ∈ ops, ¬ op.stages) :
    t.u.g.pending = false := by
  induction h with
  | nil s => exact hp
  | cons _ hstep _ ih =>
    have hop := hops _ List.mem_cons_self
    exact ih (step_eq hi hs hstep).2.1 (not_pending_step hi hs hp hop hstep)
      fun op hmem => hops op (List.mem_cons_of_mem _ hmem)

/-- All the facts about a state that a run of counted attempts keeps. -/
structure Followed (part : Partition) (s : Sys) : Prop where
  synced : Synced part s.u s.dev
  tracked : Tracked s
  counted : Counted s

theorem followed_run (hs : HasRecordSector part) (hd : Hosts dev part)
    (hblank : accepts (recordAt part dev) = false)
    (h : Run (step part) AttemptFits (boot part dev) ops s) : Followed part s := by
  refine h.invariant (I := Followed part) ?_ ?_
  · intro s op s' hi hok hstep
    exact ⟨(step_eq hi.synced hs hstep).2.1, tracked_step hi.synced hs hi.tracked hstep,
      counted_step hi.synced hs hi.counted hok hstep⟩
  · obtain ⟨hg, hsync⟩ := boot_synced hd hs hblank
    have hp : (boot part dev).u.g.pending = false := by rw [hg]; rfl
    exact ⟨hsync, tracked_of_not_pending hp, by simp [Counted, hp]⟩

/-- The update protocol along every run from blank metadata in which no noted attempt
overflows the counter. -/
theorem update_protocol (hs : HasRecordSector part) (hd : Hosts dev part)
    (hblank : accepts (recordAt part dev) = false)
    (h : Run (step part) AttemptFits (boot part dev) ops s) :
    PendingRule s.u.g ∧
    (∀ op s', step part s op = some s' → ActiveRule s op s') ∧
    (∀ s', step part s .init = some s' → RebootRule s s') ∧
    (∀ s' later t, step part s .init = some s' → s.u.g.pending →
      s.u.g.maxBootAttempts.toNat ≤ s.attempts → Run (step part) anyEvent s' later t →
      (∀ op ∈ later, ¬ op.stages) → t.u.g.pending = false) := by
  have hf := followed_run hs hd hblank h
  refine ⟨hf.tracked.slots, fun op s' => active_rule hf.synced hs hf.tracked,
    fun s' => reboot_rule hf.synced hs hf.counted, ?_⟩
  intro s' later t hstep hp hmax hrun hlater
  have hreboot := reboot_rule hf.synced hs hf.counted hstep
  rw [RebootRule, if_pos ⟨hp, hmax⟩] at hreboot
  exact not_pending_run hs hrun (step_eq hf.synced hs hstep).2.1 (by rw [hreboot]; rfl) hlater

end

theorem smallConfig_sector : HasRecordSector smallConfig := by
  unfold HasRecordSector updateMetadataLba smallConfig aegisConfig
  decide

theorem zeroDisk_blank : accepts (recordAt smallConfig zeroDisk) = false :=
  not_accepts_zeros fun _ _ => rfl

/-- The arguments of a staging: slot B, an empty version and a zero hash. -/
def stageB : Op := .stage .b (some .empty) (some (.zero 32))

theorem stageB_from_boot : ∃ s, step smallConfig (boot smallConfig zeroDisk) stageB = some s ∧
    Synced smallConfig s.u s.dev ∧ s.u.g = blankState.staged .b .empty (.zero 32) := by
  obtain ⟨hg, hsync⟩ := boot_synced zeroDisk_hosts smallConfig_sector zeroDisk_blank
  obtain ⟨s, hstage⟩ : ∃ s, step smallConfig (boot smallConfig zeroDisk) stageB = some s := ⟨_, rfl⟩
  obtain ⟨hgs, hsyncs, -, -⟩ := step_eq hsync smallConfig_sector hstage
  exact ⟨s, hstage, hsyncs, by rw [hgs, hg]; rfl⟩

theorem update_protocol_staged :
    ∃ s, Run (step smallConfig) AttemptFits (boot smallConfig zeroDisk) [stageB, .noteBootAttempt] s ∧
      PendingRule s.u.g ∧ ∀ s', step smallConfig s .init = some s' → RebootRule s s' := by
  obtain ⟨s, hstage, -, hg⟩ := stageB_from_boot
  obtain ⟨t, hnote⟩ : ∃ t, step smallConfig s .noteBootAttempt = some t := ⟨_, rfl⟩
  have hfits : AttemptFits s .noteBootAttempt := fun _ _ => by rw [hg]; decide
  have hrun : Run (step smallConfig) AttemptFits (boot smallConfig zeroDisk)
      [stageB, .noteBootAttempt] t :=
    .cons (fun h => nomatch h) hstage (.single hfits hnote)
  have hrules := update_protocol smallConfig_sector zeroDisk_hosts zeroDisk_blank hrun
  exact ⟨t, hrun, hrules.1, hrules.2.2.1⟩

/-- Noting `n` attempts of a pending update. -/
theorem run_attempts {part : Partition} (hs : HasRecordSector part) (n : Nat) {s : Sys}
    (hi : Synced part s.u s.dev) (hp : s.u.g.pending = true) (h0 : s.u.g.bootAttempts = 0) :
    ∃ t, Run (step part) anyEvent s (.replicate n .noteBootAttempt) t ∧
      Synced part t.u t.dev ∧ t.u.g.pending = true ∧ t.u.g.bootAttempts = .ofNat n ∧
      t.u.g.maxBootAttempts = s.u.g.maxBootAttempts ∧ t.attempts = s.attempts + n := by
  induction n with
  | zero => exact ⟨s, .nil s, hi, hp, h0, rfl, rfl⟩
  | succ n ih =>
    obtain ⟨t, hrun, hsync, hpt, hbt, hmax, hatt⟩ := ih
    obtain ⟨t', hstep⟩ : ∃ t', step part t .noteBootAttempt = some t' := ⟨_, rfl⟩
    obtain ⟨hg, hsync', hatt', -⟩ := step_eq hsync hs hstep
    have hn : (next t.u.g .noteBootAttempt).2 = t.u.g.attempted := by simp [next, hpt]
    rw [hn] at hg
    refine ⟨t', ?_, hsync', by rw [hg]; exact hpt, ?_, by rw [hg]; exact hmax, ?_⟩
    · rw [List.replicate_succ']
      exact hrun.append (.single trivial hstep)
    · rw [hg]
      simp [UpdateState.attempted, hbt]
    · rw [hatt']
      simp [Sys.observe, hpt, hatt, Nat.add_assoc]

/-- After 2^32 noted attempts the counter reads zero again, and a reboot keeps the
update pending although its three attempts were used up long ago. -/
theorem boot_attempts_wrap :
    ∃ ops s s', Run (step smallConfig) anyEvent (boot smallConfig zeroDisk) ops s ∧
      step smallConfig s .init = some s' ∧ ¬ RebootRule s s' := by
  obtain ⟨s, hstage, hsyncs, hstaged⟩ := stageB_from_boot
  obtain ⟨t, hrun, hsynct, hpt, hbt, hmax, hatt⟩ := run_attempts smallConfig_sector (2 ^ 32)
    hsyncs (by rw [hstaged]; rfl) (by rw [hstaged]; rfl)
  obtain ⟨t', hinit⟩ : ∃ t', step smallConfig t .init = some t' := ⟨_, rfl⟩
  obtain ⟨hgt, -, -, -⟩ := step_eq hsynct smallConfig_sector hinit
  refine ⟨_, t, t', .cons trivial hstage hrun, hinit, ?_⟩
  have hthree : t.u.g.maxBootAttempts = 3 := by rw [hmax, hstaged]; rfl
  have hzero : t.u.g.bootAttempts = 0 := by rw [hbt]; rfl
  have hkept : t'.u.g = t.u.g := by
    rw [hgt]
    simp [next, rebooted, hthree, hzero]
  have hused : t.u.g.maxBootAttempts.toNat ≤ t.attempts := by
    have : (3 : UInt32).toNat = 3 := rfl
    rw [hthree]
    omega
  intro hrule
  rw [RebootRule, if_pos ⟨hpt, hused⟩, hkept] at hrule
  have hpending := congrArg UpdateState.pending hrule
  simp [hpt, UpdateState.expired] at hpending

end AegisOS.Update
