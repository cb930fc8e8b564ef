import Mathlib.Data.List.Range

/-! A ring of `n` slots with a head, a tail and a count, and the queue it stands for. -/
namespace AegisOS.RingBuffer
open Function List Nat
variable {α : Type*}

structure RingQueue (α : Type*) where
  slots : Nat → α
  head : Nat
  tail : Nat
  count : Nat

namespace RingQueue

def push (n : Nat) (r : RingQueue α) (a : α) : RingQueue α :=
  ⟨update r.slots r.tail a, r.head, (r.tail + 1) % n, r.count + 1⟩

def pop (n : Nat) (r : RingQueue α) : RingQueue α := { r with head := (r.head + 1) % n, count := r.count - 1 }

/-- The members of the queue, oldest first. -/
def toList (n : Nat) (r : RingQueue α) : List α :=
  (range r.count).map fun k => r.slots ((r.head + k) % n)

structure Ok (n : Nat) (r : RingQueue α) : Prop where
  head_lt : r.head < n
  tail_eq : r.tail = (r.head + r.count) % n
  count_le : r.count ≤ n

@[simp] theorem length_toList (n : Nat) (r : RingQueue α) : (r.toList n).length = r.count := by
  simp [toList]

variable {n : Nat} {r : RingQueue α}

theorem ok_empty (slots : Nat → α) (hn : 0 < n) : Ok n ⟨slots, 0, 0, 0⟩ := ⟨hn, by simp, zero_le n⟩

theorem Ok.push (h : r.Ok n) (a : α) (hroom : r.count < n) : (r.push n a).Ok n := by
  refine ⟨h.head_lt, ?_, hroom⟩
  simp only [RingQueue.push, h.tail_eq]
  rw [Nat.mod_add_mod, Nat.add_assoc]

theorem Ok.pop (h : r.Ok n) (hpos : 0 < r.count) : (r.pop n).Ok n := by
  have hle := h.count_le
  refine ⟨mod_lt _ (by omega), ?_, by simp only [RingQueue.pop]; omega⟩
  simp only [RingQueue.pop, h.tail_eq]
  rw [mod_add_mod]
  congr 1
  omega

/-- Slots of one ring that lie less than `n` apart are different. -/
theorem slot_ne {h k j : Nat} (hkj : k < j) (hj : j < n) : (h + k) % n ≠ (h + j) % n := by
  intro heq
  have hzero := sub_mod_eq_zero_of_mod_eq heq.symm
  have hle := le_of_dvd (by omega) (dvd_of_mod_eq_zero hzero)
  omega

theorem toList_push (h : r.Ok n) (a : α) (hroom : r.count < n) :
    (r.push n a).toList n = r.toList n ++ [a] := by
  simp only [toList, push, range_succ, map_append, map_cons]
  rw [h.tail_eq, update_self]
  congr 1
  refine map_congr_left fun k hk => ?_
  have hk := mem_range.mp hk
  exact update_of_ne (slot_ne hk hroom) _ _

theorem toList_pop (h : r.Ok n) (hpos : 0 < r.count) :
    r.toList n = r.slots r.head :: (r.pop n).toList n := by
  obtain ⟨c, hc⟩ : ∃ c, r.count = c + 1 := ⟨r.count - 1, by omega⟩
  simp only [toList, pop, hc, range_succ_eq_map, map_cons, map_map, Nat.add_zero, Nat.mod_eq_of_lt h.head_lt]
  congr 1
  refine map_congr_left fun k _ => ?_
  simp only [comp_apply, Nat.mod_add_mod]
  congr 2
  omega

end RingQueue

end AegisOS.RingBuffer
