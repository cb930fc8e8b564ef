import AegisOS.Lib.LinkedList

/-! A free list whose elements are taken from its front and given back to it. Where what is held
is given back in the order opposite to that it was taken in, an operation only moves one element
between the two lists; their concatenation never changes. -/
namespace AegisOS.FreeList
open LinkedList Function List
variable {α : Type*} {free free' free'' held held' held'' : List α} {a : α}

inductive Op (α : Type*)
  | take (a : α)
  | give (a : α)
  deriving DecidableEq

variable {ops ops' : List (Op α)}

/-- The operations lead from one pair of lists, what is free and what is held, to another. -/
inductive Moves : List α → List α → List (Op α) → List α → List α → Prop
  | nil (free held : List α) : Moves free held [] free held
  | take {a : α} {free held free' held' : List α} {ops : List (Op α)} :
      Moves free (a :: held) ops free' held' → Moves (a :: free) held (.take a :: ops) free' held'
  | give {a : α} {free held free' held' : List α} {ops : List (Op α)} :
      Moves (a :: free) held ops free' held' → Moves free (a :: held) (.give a :: ops) free' held'

theorem Moves.append (h : Moves free held ops free' held') (h' : Moves free' held' ops' free'' held'') :
    Moves free held (ops ++ ops') free'' held'' := by
  induction h with
  | nil => exact h'
  | take _ ih => exact .take (ih h')
  | give _ ih => exact .give (ih h')

theorem Moves.total (h : Moves free held ops free' held') :
    held'.reverse ++ free' = held.reverse ++ free := by
  induction h with
  | nil => rfl
  | take _ ih => simpa using ih
  | give _ ih => simpa using ih

theorem Moves.free_eq (h : Moves free held ops free' held) : free' = free :=
  append_cancel_left h.total

/-- What is held after the operations; none if something was taken that was held, or given back
that was not. -/
def account [DecidableEq α] : List α → List (Op α) → Option (List α)
  | held, [] => some held
  | held, .take a :: ops => if a ∈ held then none else account (a :: held) ops
  | held, .give a :: ops => if a ∈ held then account (held.erase a) ops else none

variable (h : Moves free held ops free' held') (hnodup : (held.reverse ++ free).Nodup)
include h hnodup

theorem Moves.account [DecidableEq α] : account held ops = some held' := by
  induction h with
  | nil => rfl
  | @take a free held _ _ _ _ ih =>
    have hfresh : a ∉ held := by
      intro hmem
      rw [nodup_append] at hnodup
      exact hnodup.2.2 a (mem_reverse.mpr hmem) a mem_cons_self rfl
    rw [FreeList.account, if_neg hfresh]
    exact ih (by simpa using hnodup)
  | @give a free held _ _ _ _ ih =>
    rw [FreeList.account, if_pos mem_cons_self, erase_cons_head]
    exact ih (by simpa using hnodup)

/-- The list in memory. -/
structure Links (α : Type*) where
  next : α → Option α
  head : Option α

/-- The element at the front is unlinked, or an element is linked in front. -/
def Links.after [DecidableEq α] (f : Links α) : Op α → Links α
  | .take a => ⟨update f.next a none, f.head.bind f.next⟩
  | .give a => ⟨update f.next a f.head, some a⟩

/-- The links lead through the free elements and end. -/
def Links.Lists (f : Links α) (free : List α) : Prop := Chain f.next f.head free

theorem Moves.lists [DecidableEq α] {f : Links α} (hf : f.Lists free) :
    (ops.foldl Links.after f).Lists free' := by
  induction h generalizing f with
  | nil => exact hf
  | @take a free held _ _ _ _ ih =>
    refine ih (by simpa using hnodup) ?_
    obtain ⟨hhead, hrest⟩ := hf.tail
    have hfresh : a ∉ free := (nodup_cons.mp (nodup_append.mp hnodup).2.1).1
    show Chain (update f.next a none) (f.head.bind f.next) free
    rw [hhead]
    refine hrest.congr fun b hb => update_of_ne ?_ _ _
    rintro rfl
    exact hfresh hb
  | @give a free held _ _ _ _ ih =>
    refine ih (by simpa using hnodup) ?_
    have hfresh : a ∉ free := fun hmem =>
      (nodup_append.mp hnodup).2.2 a (by simp) a hmem rfl
    refine .cons ?_
    show Chain (update f.next a f.head) (update f.next a f.head a) free
    rw [update_self]
    refine hf.congr fun b hb => update_of_ne ?_ _ _
    rintro rfl
    exact hfresh hb

end AegisOS.FreeList
