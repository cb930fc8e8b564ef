import Mathlib.Data.Nat.Digits.Lemmas
import Mathlib.Data.List.GetD

/-! Byte-addressed stores, little-endian fields and sector writes. A store is a
total function from addresses to bytes; buffers are functions with an explicit
length, so that large transfers stay symbolic. -/
namespace AegisOS.ByteStore
open List Nat

abbrev Store := Nat → UInt8

/-- The `n` bytes from address `a` on. -/
def readBytes (d : Store) (a n : Nat) : List UInt8 := (range n).map fun i => d (a + i)

/-- Overwrite `[a, a+n)` with the first `n` bytes of the buffer `f`. -/
def blit (d : Store) (a n : Nat) (f : Store) : Store :=
  fun x => if a ≤ x ∧ x < a + n then f (x - a) else d x

/-- A byte list as a buffer; what lies past its end is zero. -/
def ofList (bs : List UInt8) : Store := fun i => bs.getD i 0

@[simp] theorem length_readBytes (d : Store) (a n : Nat) : (readBytes d a n).length = n := by
  simp [readBytes]

variable {d e f : Store} {a b n x m v k : Nat} {ts : List (Nat × Nat × Store)}

theorem readBytes_congr
    (h : ∀ i, i < n → d (a + i) = e (b + i)) : readBytes d a n = readBytes e b n := by
  apply map_congr_left
  intro i hi
  exact h i (mem_range.mp hi)

theorem getElem_readBytes (d : Store) (a n i : Nat) (h : i < (readBytes d a n).length) :
    (readBytes d a n)[i] = d (a + i) := by
  simp [readBytes]

theorem blit_inside (h1 : a ≤ x) (h2 : x < a + n) : blit d a n f x = f (x - a) := by
  simp [blit, h1, h2]

theorem blit_outside (h : x < a ∨ a + n ≤ x) : blit d a n f x = d x := by
  have : ¬(a ≤ x ∧ x < a + n) := by omega
  simp [blit, this]

/-- Two adjacent transfers out of one buffer are one transfer. -/
theorem blit_adjacent (d f : Store) (a n k : Nat) :
    blit (blit d a n f) (a + n) k (fun j => f (n + j)) = blit d a (n + k) f := by
  funext x
  by_cases hlast : a + n ≤ x ∧ x < a + n + k
  · rw [blit_inside hlast.1 hlast.2, blit_inside (by omega) (by omega)]
    congr 1
    omega
  · rw [blit_outside (by omega)]
    by_cases hpre : a ≤ x ∧ x < a + n
    · rw [blit_inside hpre.1 hpre.2, blit_inside hpre.1 (by omega)]
    · rw [blit_outside (by omega), blit_outside (by omega)]

/-- A series of transfers, each given by where it starts, its length and the buffer. -/
def transfers (d : Store) (ts : List (Nat × Nat × Store)) : Store :=
  ts.foldl (fun d t => blit d t.1 t.2.1 t.2.2) d

theorem transfers_outside (h : ∀ t ∈ ts, x < t.1 ∨ t.1 + t.2.1 ≤ x) : transfers d ts x = d x := by
  induction ts generalizing d with
  | nil => rfl
  | cons t ts ih =>
    have hrest := ih (d := blit d t.1 t.2.1 t.2.2) fun u hu => h u (mem_cons_of_mem t hu)
    exact hrest.trans (blit_outside (h t mem_cons_self))

/-- An address of one of several transfers that do not meet holds the byte of its buffer. -/
theorem transfers_inside {t : Nat × Nat × Store}
    (hapart : ts.Pairwise fun t u => t.1 + t.2.1 ≤ u.1 ∨ u.1 + u.2.1 ≤ t.1) (ht : t ∈ ts)
    (hlow : t.1 ≤ x) (hhigh : x < t.1 + t.2.1) : transfers d ts x = t.2.2 (x - t.1) := by
  induction ts generalizing d with
  | nil => cases ht
  | cons u ts ih =>
    obtain ⟨hu, hrest⟩ := pairwise_cons.mp hapart
    rcases mem_cons.mp ht with rfl | ht
    · have hlater : transfers (blit d t.1 t.2.1 t.2.2) ts x = blit d t.1 t.2.1 t.2.2 x :=
        transfers_outside fun v hv => by
          have := hu v hv
          omega
      exact hlater.trans (blit_inside hlow hhigh)
    · exact ih hrest ht

theorem readBytes_blit_same (d f : Store) (a n : Nat) :
    readBytes (blit d a n f) a n = readBytes f 0 n := by
  apply readBytes_congr
  intro i hi
  rw [blit_inside (by omega) (by omega)]
  congr 1
  omega

theorem readBytes_blit_disjoint
    (h : b + m ≤ a ∨ a + n ≤ b) : readBytes (blit d a n f) b m = readBytes d b m := by
  apply readBytes_congr
  intro i hi
  exact blit_outside (by omega)

theorem readBytes_ofList (bs : List UInt8) : readBytes (ofList bs) 0 bs.length = bs := by
  apply ext_getElem
  · simp
  intro i h1 h2
  rw [getElem_readBytes]
  simp [ofList, h2]

section
variable (d : Store) (a m n : Nat)

theorem readBytes_add : readBytes d a (m + n) = readBytes d a m ++ readBytes d (a + m) n := by
  simp [readBytes, range_add, add_assoc]

/-- A list stored in front of what follows. -/
theorem readBytes_blit_front (bs : List UInt8) :
    readBytes (blit d a bs.length (ofList bs)) a (bs.length + n) =
      bs ++ readBytes d (a + bs.length) n := by
  rw [readBytes_add, readBytes_blit_same, readBytes_ofList, readBytes_blit_disjoint (.inr le_rfl)]

/-- A range that is overwritten and then gets its own bytes back. -/
theorem blit_restored (f : Store) (a n : Nat) :
    blit (blit d a n f) a n (ofList (readBytes d a n)) = d := by
  funext x
  by_cases hx : a ≤ x ∧ x < a + n
  · have hi : x - a < (readBytes d a n).length := by simp; omega
    rw [blit_inside hx.1 hx.2, ofList, getD_eq_getElem _ _ hi, getElem_readBytes]
    congr 1
    omega
  · rw [blit_outside (by omega), blit_outside (by omega)]

theorem readBytes_take : (readBytes d a n).take m = readBytes d a (min m n) := by
  simp [readBytes, ← map_take]

theorem readBytes_drop : (readBytes d a n).drop m = readBytes d (a + m) (n - m) := by
  apply ext_getElem
  · simp
  · intro i h1 h2
    simp [readBytes, add_assoc]

end

theorem readBytes_ofList_slice {bs : List UInt8} (h : a + n ≤ bs.length) :
    readBytes (ofList bs) a n = (bs.drop a).take n := by
  conv_rhs => rw [← readBytes_ofList bs]
  rw [readBytes_drop, readBytes_take, zero_add, min_eq_left (by omega)]

/-! Little-endian fields of fixed width. -/

/-- The `n` bytes of `v`, least significant first. -/
def leBytes : Nat → Nat → List UInt8
  | 0, _ => []
  | n + 1, v => .ofNat v :: leBytes n (v / 256)

/-- The value of a little-endian byte string. -/
def leNat (bs : List UInt8) : Nat := ofDigits 256 (bs.map UInt8.toNat)

@[simp] theorem length_leBytes (n v : Nat) : (leBytes n v).length = n := by
  induction n generalizing v with
  | zero => rfl
  | succ n ih => simp [leBytes, ih]

theorem leNat_cons (b : UInt8) (bs : List UInt8) : leNat (b :: bs) = b.toNat + 256 * leNat bs := by
  simp [leNat, ofDigits_cons]

theorem leNat_lt (bs : List UInt8) : leNat bs < 256 ^ bs.length := by
  have h := ofDigits_lt_base_pow_length (b := 256) (l := bs.map UInt8.toNat) (by decide)
    (by
      intro x hx
      obtain ⟨b, _, rfl⟩ := mem_map.mp hx
      exact UInt8.toNat_lt b)
  simpa [leNat] using h

theorem leNat_leBytes (h : v < 256 ^ n) : leNat (leBytes n v) = v := by
  induction n generalizing v with
  | zero =>
    have : v = 0 := by simpa using h
    simp [leBytes, leNat, this]
  | succ n ih =>
    have hdiv : v / 256 < 256 ^ n := by
      apply Nat.div_lt_of_lt_mul
      rwa [Nat.pow_succ, Nat.mul_comm] at h
    rw [leBytes, leNat_cons, ih hdiv, UInt8.toNat_ofNat']
    omega

theorem leBytes_leNat (bs : List UInt8) : leBytes bs.length (leNat bs) = bs := by
  induction bs with
  | nil => rfl
  | cons b bs ih =>
    have hb := UInt8.toNat_lt b
    have hhead : .ofNat (b.toNat + 256 * leNat bs) = b := by
      apply UInt8.toNat_inj.mp
      rw [UInt8.toNat_ofNat']
      omega
    have htail : (b.toNat + 256 * leNat bs) / 256 = leNat bs := by omega
    rw [leNat_cons, length_cons, leBytes, hhead, htail, ih]

/-- The number in the `n` bytes at `a`. -/
def readLe (d : Store) (a n : Nat) : Nat := leNat (readBytes d a n)

def writeLe (d : Store) (a n v : Nat) : Store := blit d a n (ofList (leBytes n v))

theorem readLe_lt (d : Store) (a n : Nat) : readLe d a n < 256 ^ n := by
  simpa [readLe] using leNat_lt (readBytes d a n)

theorem readLe_congr (h : ∀ x, a ≤ x → x < a + n → d x = e x) : readLe d a n = readLe e a n := by
  rw [readLe, readLe, readBytes_congr fun i hi => h (a + i) (by omega) (by omega)]

theorem readLe_writeLe (d : Store) (a : Nat) (h : v < 256 ^ n) :
    readLe (writeLe d a n v) a n = v := by
  have hbytes := readBytes_ofList (leBytes n v)
  rw [length_leBytes] at hbytes
  rw [readLe, writeLe, readBytes_blit_same, hbytes, leNat_leBytes h]

/-- A field in a byte string. -/
theorem readLe_field (pre post : List UInt8) (h : v < 256 ^ n) :
    readLe (ofList (pre ++ (leBytes n v ++ post))) pre.length n = v := by
  rw [readLe, readBytes_ofList_slice (by simp only [length_append, length_leBytes]; omega),
    drop_left, take_append_of_le_length (by simp),
    take_of_length_le (by simp), leNat_leBytes h]

/-- The fields of a block that was read into a buffer. -/
theorem readLe_readBytes (d : Store) (h : a + n ≤ m) :
    readLe (ofList (readBytes d 0 m)) a n = readLe d a n := by
  rw [readLe, readBytes_ofList_slice (by rwa [length_readBytes]), readBytes_drop, readBytes_take,
    zero_add, min_eq_left (by omega), ← readLe]

theorem writeLe_outside (h : x < a ∨ a + n ≤ x) : writeLe d a n v x = d x := blit_outside h

/-- Split a little-endian field of width `n` off a byte string. -/
def takeLe (n : Nat) (bs : List UInt8) : Nat × List UInt8 := (leNat (bs.take n), bs.drop n)

/-- A byte array of fixed size. -/
abbrev Bytes (n : Nat) := { bs : List UInt8 // bs.length = n }

def Bytes.zero (n : Nat) : Bytes n := ⟨replicate n 0, by simp⟩

/-- The first `n` bytes, with zeros where the input is too short. -/
def Bytes.ofList (n : Nat) (bs : List UInt8) : Bytes n := ⟨(bs ++ replicate n 0).take n, by simp⟩

/-- Split an array of `n` bytes off a byte string. -/
def takeBytes (n : Nat) (bs : List UInt8) : Bytes n × List UInt8 := (.ofList n bs, bs.drop n)

theorem takeLe_leBytes_append (h : v < 256 ^ n) (rest : List UInt8) :
    takeLe n (leBytes n v ++ rest) = (v, rest) := by
  have ht : (leBytes n v ++ rest).take n = leBytes n v := by
    rw [take_append_of_le_length (by simp)]
    exact take_of_length_le (by simp)
  have hd : (leBytes n v ++ rest).drop n = rest := by simp
  rw [takeLe, ht, hd, leNat_leBytes h]

theorem takeBytes_append (b : Bytes n) (rest : List UInt8) :
    takeBytes n (b.val ++ rest) = (b, rest) := by
  have hlen := b.property
  have hd : (b.val ++ rest).drop n = rest := by simp [← hlen]
  have hb : .ofList n (b.val ++ rest) = b := by
    simp [Bytes.ofList, hlen]
  rw [takeBytes, hd, hb]

variable (ls : List (List UInt8)) (h : ∀ l ∈ ls, l.length = k)
include h

theorem length_flatten_chunks : ls.flatten.length = ls.length * k := by
  induction ls with
  | nil => simp
  | cons l ls ih =>
    have hl : l.length = k := h l mem_cons_self
    have htail := ih fun m hm => h m (mem_cons_of_mem l hm)
    rw [flatten_cons, length_append, htail, hl, length_cons, succ_mul, add_comm]

/-- The chunks of a byte string glued from pieces of one length are the pieces. -/
theorem flatten_chunk (i : Nat) (hi : i < ls.length) :
    (ls.flatten.drop (k * i)).take k = ls[i] := by
  induction ls generalizing i with
  | nil => simp at hi
  | cons l ls ih =>
    have hl : l.length = k := h l mem_cons_self
    cases i with
    | zero => simp [← hl]
    | succ i =>
      have htail := ih (fun m hm => h m (mem_cons_of_mem l hm)) i (by simpa using hi)
      have hdrop : (l :: ls).flatten.drop (k * (i + 1)) = ls.flatten.drop (k * i) := by
        rw [flatten_cons, mul_succ, add_comm, ← drop_drop, ← hl, drop_left]
      rw [hdrop, htail, getElem_cons_succ]

end AegisOS.ByteStore
