import Mathlib.Data.List.Nodup

/-! Lists of records with distinct keys, one record of which is changed in place. -/
namespace AegisOS.KeyedList
open List
variable {α β : Type*} {l : List α} {f : α → α} {key : α → β} {m n : Nat}
variable {v : α} {p : α → Bool}

/-- A member of the changed list is an old one from another place, or the changed one. -/
theorem mem_modify (h : v ∈ l.modify n f) :
    (∃ m, m ≠ n ∧ l[m]? = some v) ∨ ∃ u, l[n]? = some u ∧ v = f u := by
  obtain ⟨m, hm⟩ := mem_iff_getElem?.mp h
  rw [getElem?_modify] at hm
  by_cases hmn : n = m
  · subst hmn
    simp only [Option.map_eq_map, Option.map_eq_some_iff] at hm
    obtain ⟨u, hu, heq⟩ := hm
    exact .inr ⟨u, hu, heq.symm⟩
  · simp only [if_neg hmn, Option.map_eq_map, Option.map_id'] at hm
    exact .inl ⟨m, fun heq => hmn heq.symm, hm⟩

theorem mem_of_modify (h : v ∈ l.modify n f) : v ∈ l ∨ ∃ u ∈ l, v = f u := by
  rcases mem_modify h with ⟨m, -, hm⟩ | ⟨u, hu, heq⟩
  · exact .inl (mem_of_getElem? hm)
  · exact .inr ⟨u, mem_of_getElem? hu, heq⟩

/-- The keys stay when the change keeps the key. -/
theorem map_modify (hkey : ∀ a, key (f a) = key a) : (l.modify n f).map key = l.map key := by
  apply ext_getElem?
  intro m
  simp only [getElem?_map, getElem?_modify]
  cases l[m]? with
  | none => simp
  | some a =>
    by_cases h : n = m
    · simp [h, hkey]
    · simp [h]

/-- A search finds the same place when the changed record answers it as before. -/
theorem findIdx?_modify (h : ∀ a, l[n]? = some a → p (f a) = p a) :
    (l.modify n f).findIdx? p = l.findIdx? p := by
  induction l generalizing n with
  | nil => simp
  | cons a l ih =>
    cases n with
    | zero =>
      have ha : p (f a) = p a := h a rfl
      simp [findIdx?_cons, ha]
    | succ n =>
      have hl := ih (n := n) fun b hb => h b (by simpa using hb)
      rw [modify_succ_cons, findIdx?_cons, findIdx?_cons, hl]

/-- A count changes by what the changed record counted before and counts now. -/
theorem countP_modify (h : l[n]? = some v) :
    (l.modify n f).countP p + (p v).toNat = l.countP p + (p (f v)).toNat := by
  induction l generalizing n with
  | nil => cases h
  | cons a l ih =>
    cases n with
    | zero =>
      obtain rfl : a = v := by simpa using h
      cases hb : p a <;> cases ha : p (f a) <;> simp [hb, ha]
    | succ n =>
      have hl := ih (n := n) (by simpa using h)
      rw [modify_succ_cons, countP_cons, countP_cons]
      omega

/-- Records with one key stand in one place. -/
theorem index_unique (hnodup : (l.map key).Nodup) {u : α} (hu : l[m]? = some u)
    (hv : l[n]? = some v) (hkey : key u = key v) : m = n := by
  have hlt : m < (l.map key).length := by
    rw [List.length_map]
    exact (List.getElem?_eq_some_iff.mp hu).1
  refine (List.getElem?_inj hlt hnodup).mp ?_
  simp only [List.getElem?_map, hu, hv, Option.map_some, hkey]

end AegisOS.KeyedList
