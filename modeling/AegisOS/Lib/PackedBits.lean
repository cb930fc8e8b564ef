import Mathlib.Data.List.Count

/-! Bits packed eight to a byte, the number of clear bits below a bound, and the search for the
first clear bit. -/
namespace AegisOS.PackedBits
open Function List BitVec

abbrev Bits := Nat → BitVec 8

def test (b : Bits) (i : Nat) : Bool := ((b (i / 8) >>> (i % 8)) &&& 1#8) == 1#8

def set (b : Bits) (i : Nat) : Bits := update b (i / 8) (b (i / 8) ||| 1#8 <<< (i % 8))

def clear (b : Bits) (i : Nat) : Bits := update b (i / 8) (b (i / 8) &&& ~~~(1#8 <<< (i % 8)))

theorem test_eq_getLsbD (b : Bits) (i : Nat) : test b i = (b (i / 8)).getLsbD (i % 8) := by
  rw [test, and_one_eq_setWidth_ofBool_getLsbD, getLsbD_ushiftRight, Nat.add_zero]
  cases (b (i / 8)).getLsbD (i % 8) <;> decide

/-- The mask of bit `k` of a byte. -/
theorem getLsbD_mask {k m : Nat} (hm : m < 8) : (1#8 <<< k).getLsbD m = decide (m = k) := by
  by_cases hk : m = k
  · simp [hk ▸ hm, hk]
  by_cases hlt : m < k
  · simp [hlt, hk]
  · have hne : m - k ≠ 0 := by omega
    simp [hk, hne]

variable {i j n : Nat} {b b' : Bits}

theorem same_bit (hbyte : j / 8 = i / 8) : j % 8 = i % 8 ↔ j = i := by omega

theorem test_set (b : Bits) (i j : Nat) : test (set b i) j = (decide (j = i) || test b j) := by
  have hmask := getLsbD_mask (k := i % 8) (Nat.mod_lt j (by decide))
  rw [test_eq_getLsbD, test_eq_getLsbD, set]
  by_cases hbyte : j / 8 = i / 8
  · simp only [hbyte, update_self, getLsbD_or, hmask, same_bit hbyte, Bool.or_comm]
  · have hne : j ≠ i := fun h => hbyte (by rw [h])
    simp [update_of_ne hbyte, hne]

theorem test_clear (b : Bits) (i j : Nat) : test (clear b i) j = (!decide (j = i) && test b j) := by
  have hlt := Nat.mod_lt j (by decide : 8 > 0)
  have hmask := getLsbD_mask (k := i % 8) hlt
  rw [test_eq_getLsbD, test_eq_getLsbD, clear]
  by_cases hbyte : j / 8 = i / 8
  · simp only [hbyte, update_self, getLsbD_and, getLsbD_not, hmask, hlt,
      same_bit hbyte, decide_true, Bool.true_and, Bool.and_comm]
  · have hne : j ≠ i := fun h => hbyte (by rw [h])
    simp [update_of_ne hbyte, hne]

/-! Counting. -/

/-- The number of clear bits among the first `n`. -/
def clearCount (b : Bits) (n : Nat) : Nat := (range n).countP fun i => !test b i

theorem clearCount_succ (b : Bits) (n : Nat) :
    clearCount b (n + 1) = clearCount b n + if test b n then 0 else 1 := by
  rw [clearCount, range_succ, countP_append, countP_singleton]
  cases test b n <;> rfl

theorem clearCount_congr (h : ∀ i < n, test b' i = test b i) : clearCount b' n = clearCount b n :=
  countP_congr fun i hi => by rw [h i (mem_range.mp hi)]

theorem clearCount_le (b : Bits) (n : Nat) : clearCount b n ≤ n := by
  have := countP_le_length (p := fun i => !test b i) (l := range n)
  rwa [length_range] at this

/-- One clear bit becomes set. -/
theorem clearCount_one (hi : i < n) (hclear : test b i = false)
    (hset : test b' i = true) (hsame : ∀ j, j ≠ i → test b' j = test b j) :
    clearCount b' n + 1 = clearCount b n := by
  induction n with
  | zero => omega
  | succ n ih =>
    rw [clearCount_succ, clearCount_succ]
    by_cases hn : i = n
    · have hlow := clearCount_congr (n := n) fun j hj => hsame j (by omega)
      rw [← hn, hset, hclear, hn, hlow]
      simp
    · rw [hsame n (Ne.symm hn)]
      omega

theorem clearCount_set (hi : i < n) (hclear : test b i = false) :
    clearCount (set b i) n + 1 = clearCount b n := by
  refine clearCount_one hi hclear (by simp [test_set]) fun j hj => ?_
  simp [test_set, hj]

theorem clearCount_clear (hi : i < n) (hset : test b i = true) :
    clearCount (clear b i) n = clearCount b n + 1 := by
  refine (clearCount_one hi (by simp [test_clear]) hset fun j hj => ?_).symm
  simp [test_clear, hj]

/-! The search. -/

/-- The first clear bit among the `n` bits from `i` on. -/
def firstClear (b : Bits) : Nat → Nat → Option Nat
  | 0, _ => none
  | n + 1, i => if test b i = false then some i else firstClear b n (i + 1)

theorem firstClear_some (h : firstClear b n i = some j) : i ≤ j ∧ j < i + n ∧ test b j = false := by
  induction n generalizing i with
  | zero => cases h
  | succ n ih =>
    rw [firstClear] at h
    split at h
    next hclear =>
      cases h
      exact ⟨Nat.le_refl _, by omega, hclear⟩
    · obtain ⟨hle, hlt, hclear⟩ := ih h
      exact ⟨by omega, by omega, hclear⟩

theorem firstClear_none (h : firstClear b n i = none) :
    ∀ j, i ≤ j → j < i + n → test b j = true := by
  induction n generalizing i with
  | zero => intro j hle hlt; omega
  | succ n ih =>
    rw [firstClear] at h
    split at h
    · cases h
    rename_i hset
    intro j hle hlt
    by_cases hj : j = i
    · rw [hj]
      exact Bool.not_eq_false _ ▸ hset
    · exact ih h j (by omega) (by omega)

end AegisOS.PackedBits
