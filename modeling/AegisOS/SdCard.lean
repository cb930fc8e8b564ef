import AegisOS.Lib.ByteStore

/-! The block interface of the SD card driver (`hal/drivers/storage/sdcard.c`). The controller's
registers and timeouts are left out: a read or a write command moves one block. -/
namespace AegisOS.SdCard
open ByteStore

def blockSize : Nat := 512

structure Card where
  initialized : Bool
  sdhc : Bool
  medium : Store

variable {c : Card} {lba : UInt32}

def argument (c : Card) (lba block : UInt32) : UInt32 :=
  (if c.sdhc then lba else lba * 512) + (if c.sdhc then block else block * 512)

/-- The first byte of the block an argument names: cards that are not SDHC count bytes. -/
def place (c : Card) (arg : UInt32) : Nat :=
  if c.sdhc then arg.toNat * blockSize else arg.toNat

/-- The bytes read into the buffer, or `none` for the code's `-1`. -/
def storageRead (c : Card) (lba count : UInt32) : Option (List UInt8) :=
  if c.initialized = false ∨ count = 0 then none
  else
    some ((List.range count.toNat).flatMap fun block =>
      readBytes c.medium (place c (argument c lba (.ofNat block))) blockSize)

def storageWrite (c : Card) (lba count : UInt32) (buf : Store) : Card × Int :=
  if c.initialized = false ∨ count = 0 then (c, -1)
  else
    ({ c with
        medium := (List.range count.toNat).foldl (fun m block =>
          blit m (place c (argument c lba (.ofNat block))) blockSize
            fun j => buf (block * blockSize + j)) c.medium }, 0)

/-! Single blocks of the first 4 GiB. -/

theorem place_argument (c : Card) (h : lba.toNat < 2 ^ 23) :
    place c (argument c lba 0) = lba.toNat * blockSize := by
  cases hsdhc : c.sdhc with
  | true => simp [place, argument, hsdhc]
  | false =>
    simp only [place, argument, hsdhc, Bool.false_eq_true, if_false, blockSize]
    rw [UInt32.toNat_add, UInt32.toNat_mul, UInt32.toNat_mul]
    simp only [UInt32.reduceToNat]
    omega

section
variable (hinit : c.initialized = true) (h : lba.toNat < 2 ^ 23)
include hinit h

theorem storageRead_one :
    storageRead c lba 1 = some (readBytes c.medium (lba.toNat * blockSize) blockSize) := by
  rw [storageRead, if_neg (by simp [hinit])]
  simp [place_argument c h]

theorem storageWrite_one (buf : Store) :
    (storageWrite c lba 1 buf).1 =
      { c with medium := blit c.medium (lba.toNat * blockSize) blockSize buf } := by
  rw [storageWrite, if_neg (by simp [hinit])]
  simp [place_argument c h]

theorem storageRead_written (buf : Store) :
    storageRead (storageWrite c lba 1 buf).1 lba 1 = some (readBytes buf 0 blockSize) := by
  rw [storageWrite_one hinit h, storageRead_one (by exact hinit) h, readBytes_blit_same]

theorem storageRead_other {lba' : UInt32} (h' : lba'.toNat < 2 ^ 23) (hne : lba' ≠ lba)
    (buf : Store) : storageRead (storageWrite c lba 1 buf).1 lba' 1 = storageRead c lba' 1 := by
  have hne' : lba'.toNat ≠ lba.toNat := fun heq => hne (UInt32.toNat_inj.mp heq)
  rw [storageWrite_one hinit h, storageRead_one (by exact hinit) h', storageRead_one hinit h',
    readBytes_blit_disjoint (by simp only [blockSize]; omega)]

end

theorem storageWrite_initialized (c : Card) (lba count : UInt32) (buf : Store) :
    (storageWrite c lba count buf).1.initialized = c.initialized := by
  rw [storageWrite]
  split_ifs <;> rfl

end AegisOS.SdCard
