import Mathlib.Data.Fin.Basic

/-! The loop that goes through an array and stops at the first index with a property. -/
namespace AegisOS.Scan

def scan : {n : Nat} → (Fin n → Bool) → Option (Fin n)
  | 0, _ => none
  | n + 1, p => if p 0 then some 0 else (scan fun i : Fin n => p i.succ).map Fin.succ

variable {n : Nat} {p : Fin n → Bool} {i : Fin n}

theorem scan_eq_none : scan p = none ↔ ∀ i, p i = false := by
  induction n with
  | zero => exact ⟨fun _ i => i.elim0, fun _ => rfl⟩
  | succ n ih =>
    rw [scan]
    cases h0 : p 0 with
    | true => exact ⟨nofun, fun h => absurd (h0.symm.trans (h 0)) (by decide)⟩
    | false =>
      rw [if_neg (by decide), Option.map_eq_none_iff, ih, Fin.forall_fin_succ]
      exact ⟨fun h => ⟨h0, h⟩, fun h => h.2⟩

theorem scan_eq_some : scan p = some i ↔ p i = true ∧ ∀ j < i, p j = false := by
  induction n with
  | zero => exact i.elim0
  | succ n ih =>
    rw [scan]
    cases h0 : p 0 with
    | true =>
      constructor
      · intro h
        cases h
        exact ⟨h0, fun j hj => absurd hj (Fin.not_lt_zero j)⟩
      · rintro ⟨-, hbefore⟩
        by_contra hne
        have hpos : 0 < i := Fin.pos_of_ne_zero fun heq => hne (heq ▸ rfl)
        exact absurd (h0.symm.trans (hbefore 0 hpos)) (by decide)
    | false =>
      rw [if_neg (by decide), Option.map_eq_some_iff]
      constructor
      · rintro ⟨k, hk, rfl⟩
        obtain ⟨hpk, hbefore⟩ := ih.mp hk
        refine ⟨hpk, fun j hj => ?_⟩
        cases j using Fin.cases with
        | zero => exact h0
        | succ j => exact hbefore j (Fin.succ_lt_succ_iff.mp hj)
      · rintro ⟨hpi, hbefore⟩
        cases i using Fin.cases with
        | zero => exact absurd (h0.symm.trans hpi) (by decide)
        | succ i =>
          exact ⟨i, ih.mpr ⟨hpi, fun j hj => hbefore j.succ (Fin.succ_lt_succ_iff.mpr hj)⟩, rfl⟩

theorem scan_holds (h : scan p = some i) : p i = true := (scan_eq_some.mp h).1

end AegisOS.Scan
