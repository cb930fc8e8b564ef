import Mathlib.Data.Nat.ModEq

/-! A counter that goes up through an interval and starts again at its lower end. Fewer turns than
the interval has elements never lead to the same value twice. -/
namespace AegisOS.Rotation
open Nat Function

def turn (lo hi p : Nat) : Nat := if p < hi then p + 1 else lo

variable {lo hi p : Nat}
variable (hp : lo ≤ p ∧ p ≤ hi)
include hp

theorem turn_mem : lo ≤ turn lo hi p ∧ turn lo hi p ≤ hi := by
  unfold turn
  split <;> omega

theorem iterate_turn (k : Nat) : (turn lo hi)^[k] p = lo + (p - lo + k) % (hi + 1 - lo) := by
  induction k with
  | zero =>
    have hlt : p - lo + 0 < hi + 1 - lo := by omega
    rw [iterate_zero_apply, mod_eq_of_lt hlt]
    omega
  | succ k ih =>
    have hlt : (p - lo + k) % (hi + 1 - lo) < hi + 1 - lo := mod_lt _ (by omega)
    have hsucc : (p - lo + (k + 1)) % (hi + 1 - lo) =
        ((p - lo + k) % (hi + 1 - lo) + 1) % (hi + 1 - lo) := by
      rw [mod_add_mod, add_assoc]
    rw [iterate_succ_apply', ih, hsucc, turn]
    generalize (p - lo + k) % (hi + 1 - lo) = r at hlt
    by_cases hr : lo + r < hi
    · rw [if_pos hr, mod_eq_of_lt (by omega)]
      omega
    · have hlast : r + 1 = hi + 1 - lo := by omega
      rw [if_neg hr, hlast, mod_self, add_zero]

theorem iterate_turn_injOn {j k : Nat} (hj : j < hi + 1 - lo) (hk : k < hi + 1 - lo)
    (h : (turn lo hi)^[j] p = (turn lo hi)^[k] p) : j = k := by
  rw [iterate_turn hp, iterate_turn hp] at h
  have hmod : p - lo + j ≡ p - lo + k [MOD hi + 1 - lo] := add_left_cancel h
  have hcancel : j ≡ k [MOD hi + 1 - lo] := ModEq.add_left_cancel' _ hmod
  exact hcancel.eq_of_lt_of_lt hj hk

end AegisOS.Rotation
