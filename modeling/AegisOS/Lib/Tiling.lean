import Mathlib.Data.List.Pairwise

/-! Intervals laid end to end. `Tiles start len a l e`: the members of `l` cover the addresses
from `a` up to `e`, each one beginning where the one before it ends. -/
namespace AegisOS.Tiling
open List
variable {α : Type*} {start len : α → Nat} {a e : Nat} {l : List α}
variable (start len) in
def Tiles : Nat → List α → Nat → Prop
  | a, [], e => a = e
  | a, b :: rest, e => start b = a ∧ Tiles (a + len b) rest e

theorem Tiles.le (h : Tiles start len a l e) : a ≤ e := by
  induction l generalizing a with
  | nil => exact Nat.le_of_eq h
  | cons b rest ih =>
    have := ih h.2
    omega

theorem tiles_append {r : List α} :
    Tiles start len a (l ++ r) e ↔ ∃ m, Tiles start len a l m ∧ Tiles start len m r e := by
  induction l generalizing a with
  | nil => simp [Tiles]
  | cons b rest ih => simp [Tiles, ih, and_assoc]

variable (h : Tiles start len a l e)
include h

theorem Tiles.within {b : α} (hb : b ∈ l) : a ≤ start b ∧ start b + len b ≤ e := by
  induction l generalizing a with
  | nil => cases hb
  | cons c rest ih =>
    cases mem_cons.mp hb with
    | inl heq =>
      have hle := h.2.le
      have hstart := h.1
      subst heq
      omega
    | inr hrest =>
      have := ih h.2 hrest
      omega

theorem Tiles.pairwise : l.Pairwise fun b c => start b + len b ≤ start c := by
  induction l generalizing a with
  | nil => exact .nil
  | cons b rest ih =>
    refine pairwise_cons.mpr ⟨fun c hc => ?_, ih h.2⟩
    have hstart := h.1
    have := (h.2.within hc).1
    omega

/-- Two different members lie apart. -/
theorem Tiles.apart {b c : α} (hb : b ∈ l) (hc : c ∈ l) (hne : b ≠ c) :
    start b + len b ≤ start c ∨ start c + len c ≤ start b := by
  have hpair : l.Pairwise fun b c => start b + len b ≤ start c ∨ start c + len c ≤ start b :=
    h.pairwise.imp Or.inl
  have : Std.Symm fun b c => start b + len b ≤ start c ∨ start c + len c ≤ start b :=
    ⟨fun _ _ => Or.symm⟩
  exact hpair.forall hb hc hne

/-- A member is known by where it begins. -/
theorem Tiles.inj (hpos : ∀ b ∈ l, 0 < len b) {b c : α} (hb : b ∈ l) (hc : c ∈ l)
    (heq : start b = start c) : b = c := by
  by_contra hne
  have hlb := hpos b hb
  have hlc := hpos c hc
  have := h.apart hb hc hne
  omega

/-- The cells of a tiling are no more than the addresses it covers. -/
theorem Tiles.length_le (hpos : ∀ b ∈ l, 0 < len b) : a + l.length ≤ e := by
  induction l generalizing a with
  | nil => exact Nat.le_of_eq h
  | cons b rest ih =>
    have hb := hpos b mem_cons_self
    have := ih h.2 fun c hc => hpos c (mem_cons_of_mem b hc)
    rw [length_cons]
    omega

end AegisOS.Tiling
