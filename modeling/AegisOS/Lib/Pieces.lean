import Mathlib.Data.List.Basic

/-! A sequence sent in pieces, each with the position of its first element. -/
namespace AegisOS.Pieces
open List
variable {α P : Type*} {pos : Nat → P} {ps qs : List (P × List α)} {xs ys : List α}

/-- The pieces one behind the other are the sequence, and each has the position of the place where
it stands in it: nothing is missing, and nothing is there twice. -/
def Laid (pos : Nat → P) (ps : List (P × List α)) (xs : List α) : Prop :=
  (ps.map Prod.snd).flatten = xs ∧
    ∀ before p after, ps = before ++ p :: after → p.1 = pos (before.map Prod.snd).flatten.length

theorem Laid.nil (pos : Nat → P) : Laid pos ([] : List (P × List α)) [] :=
  ⟨rfl, fun before p after h => by simp at h⟩

theorem Laid.single (pos : Nat → P) (xs : List α) : Laid pos [(pos 0, xs)] xs := by
  refine ⟨by simp, fun before p after h => ?_⟩
  cases before with
  | nil =>
    obtain ⟨rfl, -⟩ := cons.inj h
    rfl
  | cons q before => simp at h

theorem Laid.append (h : Laid pos ps xs) (h' : Laid (fun n => pos (xs.length + n)) qs ys) :
    Laid pos (ps ++ qs) (xs ++ ys) := by
  refine ⟨by rw [map_append, flatten_append, h.1, h'.1], fun before p after hsplit => ?_⟩
  rcases append_eq_append_iff.mp hsplit with ⟨late, rfl, hqs⟩ | ⟨early, rfl, hrest⟩
  · rw [h'.2 late p after hqs, map_append, flatten_append, h.1, length_append]
  cases early with
  | nil =>
    have hlast := h'.2 [] p after hrest.symm
    rw [append_nil] at h
    rw [hlast, h.1]
    rfl
  | cons q early =>
    obtain ⟨rfl, -⟩ := cons.inj hrest
    exact h.2 before p early rfl

end AegisOS.Pieces
