import AegisOS.Lib.ByteStore

/-! Writes to a byte store in sectors of 512 bytes. A request for several sectors is the list
of its single-sector writes in issue order; what is on the medium when the issuer stops
is what a prefix of that list leaves there. -/
namespace AegisOS.SectorWrites
open ByteStore List

structure SectorWrite where
  lba : Nat
  data : Store

/-- The single-sector writes of `count` sectors from the buffer `f`, first sector first. -/
def split (lba count : Nat) (f : Store) : List SectorWrite :=
  (range count).map fun i => ⟨lba + i, fun j => f (i * 512 + j)⟩

def applyWrite (m : Store) (w : SectorWrite) : Store := blit m (w.lba * 512) 512 w.data

def applyWrites (m : Store) (ws : List SectorWrite) : Store := ws.foldl applyWrite m

theorem applyWrites_append (m : Store) (ws vs : List SectorWrite) :
    applyWrites m (ws ++ vs) = applyWrites (applyWrites m ws) vs := by
  simp [applyWrites]

@[simp] theorem length_split (lba count : Nat) (f : Store) : (split lba count f).length = count := by
  simp [split]

theorem mem_split {lba count : Nat} {f : Store} {w : SectorWrite} (h : w ∈ split lba count f) :
    lba ≤ w.lba ∧ w.lba < lba + count := by
  obtain ⟨i, hi, rfl⟩ := mem_map.mp h
  have := mem_range.mp hi
  constructor <;> simp only <;> omega

theorem split_succ (lba count : Nat) (f : Store) :
    split lba (count + 1) f =
      split lba count f ++ [⟨lba + count, fun j => f (count * 512 + j)⟩] := by
  simp [split, range_succ]

/-- Issuing all the single-sector writes of a request stores the whole buffer. -/
theorem applyWrites_split (m : Store) (lba count : Nat) (f : Store) :
    applyWrites m (split lba count f) = blit m (lba * 512) (count * 512) f := by
  induction count with
  | zero =>
    funext x
    rw [blit_outside (by omega)]
    rfl
  | succ count ih =>
    have hlba : (lba + count) * 512 = lba * 512 + count * 512 := Nat.add_mul ..
    have hlen : (count + 1) * 512 = count * 512 + 512 := Nat.succ_mul ..
    rw [split_succ, applyWrites_append, ih, hlen, ← blit_adjacent, ← hlba]
    rfl

/-- A byte no write reaches keeps its value. -/
theorem applyWrites_untouched {ws : List SectorWrite} {x : Nat} (m : Store)
    (h : ∀ w ∈ ws, x < w.lba * 512 ∨ w.lba * 512 + 512 ≤ x) : applyWrites m ws x = m x := by
  induction ws generalizing m with
  | nil => rfl
  | cons w ws ih =>
    have htail := ih (applyWrite m w) (fun v hv => h v (mem_cons_of_mem w hv))
    calc
      applyWrites m (w :: ws) x = applyWrite m w x := htail
      _ = m x := blit_outside (h w mem_cons_self)

theorem readBytes_applyWrites_untouched {ws : List SectorWrite} {a n : Nat} (m : Store)
    (h : ∀ w ∈ ws, a + n ≤ w.lba * 512 ∨ w.lba * 512 + 512 ≤ a) :
    readBytes (applyWrites m ws) a n = readBytes m a n := by
  refine readBytes_congr fun i hi => applyWrites_untouched m fun w hw => ?_
  have := h w hw
  omega

end AegisOS.SectorWrites
