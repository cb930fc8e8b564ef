import AegisOS.Lib.SectorWrites
import AegisOS.Errno

/-! The partition layer of `kernel/core/block_storage.c` over a backend that performs
every request it is given. Reads fill a caller's buffer; writes are returned as the
single-sector writes the backend issues, so that a caller can be stopped between them. -/
namespace AegisOS.BlockStorage
open ByteStore SectorWrites

structure Device where
  blockCount : Nat
  writable : Bool
  medium : Store

/-- A partition as `block_storage_register_partition` accepts it on a device of
`deviceBlocks` blocks: non-empty and inside the device. -/
structure Partition where
  startLba : Nat
  blockCount : Nat
  writable : Bool
  deviceBlocks : Nat
  nonempty : 0 < blockCount
  inside : startLba + blockCount ≤ deviceBlocks
  bounded : deviceBlocks < 2 ^ 64

def blockStorageRead (d : Device) (lba count : Nat) (buffer : Store) : Except Int Store :=
  if count = 0 ∨ d.blockCount ≤ lba ∨ d.blockCount - lba < count then .error aegisEinval
  else .ok (blit buffer 0 (count * 512) fun i => d.medium (lba * 512 + i))

def blockStorageWrite (d : Device) (lba count : Nat) (buffer : Store) :
    Except Int (List SectorWrite) :=
  if count = 0 ∨ d.writable = false ∨ d.blockCount ≤ lba ∨ d.blockCount - lba < count then
    .error aegisEinval
  else .ok (split lba count buffer)

def blockPartitionRead (p : Partition) (d : Device) (rel count : Nat) (buffer : Store) :
    Except Int Store :=
  if p.blockCount ≤ rel ∨ p.blockCount - rel < count then .error aegisEinval
  else blockStorageRead d ((p.startLba + rel) % 2 ^ 64) count buffer

def blockPartitionWrite (p : Partition) (d : Device) (rel count : Nat) (buffer : Store) :
    Except Int (List SectorWrite) :=
  if p.writable = false ∨ p.blockCount ≤ rel ∨ p.blockCount - rel < count then
    .error aegisEinval
  else blockStorageWrite d ((p.startLba + rel) % 2 ^ 64) count buffer

def Device.issue (d : Device) (ws : List SectorWrite) : Device :=
  { d with medium := applyWrites d.medium ws }

@[simp] theorem issue_medium (d : Device) (ws : List SectorWrite) :
    (d.issue ws).medium = applyWrites d.medium ws := rfl
@[simp] theorem issue_nil (d : Device) : d.issue [] = d := rfl
theorem issue_append (d : Device) (ws vs : List SectorWrite) :
    d.issue (ws ++ vs) = (d.issue ws).issue vs := by
  simp [Device.issue, applyWrites_append]

structure Hosts (d : Device) (p : Partition) : Prop where
  blocks : d.blockCount = p.deviceBlocks
  deviceWritable : d.writable = true
  partWritable : p.writable = true

variable {d : Device} {p : Partition} {rel count r c : Nat} {buffer : Store}

theorem Hosts.issue (h : Hosts d p) (ws : List SectorWrite) : Hosts (d.issue ws) p :=
  ⟨h.blocks, h.deviceWritable, h.partWritable⟩

theorem mod_lba (p : Partition) (h : rel + count ≤ p.blockCount) :
    (p.startLba + rel) % 2 ^ 64 = p.startLba + rel := by
  have := p.inside
  have := p.bounded
  exact Nat.mod_eq_of_lt (by omega)

theorem blockPartitionRead_ok (hd : Hosts d p)
    (hc : 0 < c) (h : r + c ≤ p.blockCount) (buffer : Store) :
    blockPartitionRead p d r c buffer =
      .ok (blit buffer 0 (c * 512) fun i => d.medium ((p.startLba + r) * 512 + i)) := by
  have := p.inside
  have hb := hd.blocks
  rw [blockPartitionRead, if_neg (by omega), mod_lba p h, blockStorageRead, if_neg (by omega)]

theorem blockPartitionRead_zero (buffer : Store) :
    blockPartitionRead p d rel 0 buffer = .error aegisEinval := by
  simp [blockPartitionRead, blockStorageRead]

theorem blockPartitionWrite_ok (hd : Hosts d p)
    (hc : 0 < c) (h : r + c ≤ p.blockCount) (buffer : Store) :
    blockPartitionWrite p d r c buffer = .ok (split (p.startLba + r) c buffer) := by
  have := p.inside
  have hb := hd.blocks
  have hw := hd.partWritable
  have hdw := hd.deviceWritable
  rw [blockPartitionWrite, if_neg (by simp [hw]; omega), mod_lba p h, blockStorageWrite,
    if_neg (by simp [hdw]; omega)]

theorem blockPartitionWrite_bounds
    {ws : List SectorWrite} (h : blockPartitionWrite p d rel count buffer = .ok ws) :
    0 < count ∧ rel + count ≤ p.blockCount ∧ ws = split (p.startLba + rel) count buffer := by
  unfold blockPartitionWrite at h
  split at h
  · cases h
  have hin : rel + count ≤ p.blockCount := by omega
  rw [mod_lba p hin] at h
  unfold blockStorageWrite at h
  split at h
  · cases h
  refine ⟨by omega, hin, ?_⟩
  cases h
  rfl

theorem blockPartitionWrite_error
    {rc : Int} (h : blockPartitionWrite p d rel count buffer = .error rc) : rc = aegisEinval := by
  unfold blockPartitionWrite blockStorageWrite at h
  split at h
  · cases h
    rfl
  split at h
  · cases h
    rfl
  · cases h

/-- `AEGIS_CONFIG` as `block_storage_register_v40_flash_layout` registers it. -/
def aegisConfig (deviceBlocks : Nat) (h : 460800 ≤ deviceBlocks) (hb : deviceBlocks < 2 ^ 64) :
    Partition where
  startLba := 395264
  blockCount := 65536
  writable := true
  deviceBlocks := deviceBlocks
  nonempty := by decide
  inside := by omega
  bounded := hb

/-! The smallest disk that holds the partition, all zero. -/

def smallConfig : Partition := aegisConfig 460800 (by decide) (by decide)

def zeroDisk : Device := ⟨460800, true, fun _ => 0⟩

theorem zeroDisk_hosts : Hosts zeroDisk smallConfig := ⟨rfl, rfl, rfl⟩

end AegisOS.BlockStorage
