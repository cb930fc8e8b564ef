import Mathlib.Logic.Basic

/-! What a piece of code reads: a list of ranges of addresses, each with its start and length, and
whether all of it lies below a limit. -/
namespace AegisOS.Reads
open List

abbrev Ranges := List (Nat × Nat)

def Below (rs : Ranges) (limit : Nat) : Prop := ∀ r ∈ rs, ∀ x, r.1 ≤ x → x < r.1 + r.2 → x < limit

variable {rs rs' : Ranges} {a n limit : Nat}

@[simp] theorem below_nil : Below [] limit := fun _ h => (not_mem_nil h).elim

@[simp] theorem below_append : Below (rs ++ rs') limit ↔ Below rs limit ∧ Below rs' limit := by
  constructor
  · exact fun h => ⟨fun r hr => h r (mem_append_left rs' hr),
      fun r hr => h r (mem_append_right rs hr)⟩
  rintro ⟨h, h'⟩ r hr
  rcases mem_append.mp hr with hr | hr
  · exact h r hr
  · exact h' r hr

theorem below_range : Below [(a, n)] limit ↔ n = 0 ∨ a + n ≤ limit := by
  constructor
  · intro h
    by_cases hn : n = 0
    · exact .inl hn
    · have hlast := h _ mem_cons_self (a + n - 1) (by dsimp only; omega) (by dsimp only; omega)
      omega
  · rintro h r hr x hlow hhigh
    obtain rfl := mem_singleton.mp hr
    omega

@[simp] theorem below_cons :
    Below ((a, n) :: rs) limit ↔ (n = 0 ∨ a + n ≤ limit) ∧ Below rs limit := by
  rw [← below_range, ← below_append, singleton_append]

end AegisOS.Reads
