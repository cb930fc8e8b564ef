import Mathlib.Data.List.Nodup

/-! Singly linked lists in memory: a head pointer, and a next pointer at every address. -/
namespace AegisOS.LinkedList
open Function List Option
variable {α : Type*} {next next' : α → Option α} {p : Option α} {a b : α} {l l₁ l₂ m : List α}

/-- From the pointer on, the links lead through the addresses of the list and end. -/
inductive Chain (next : α → Option α) : Option α → List α → Prop
  | nil : Chain next none []
  | cons {a : α} {l : List α} : Chain next (next a) l → Chain next (some a) (a :: l)

theorem Chain.tail (h : Chain next p (a :: l)) : p = some a ∧ Chain next (next a) l := by
  cases h with
  | cons h => exact ⟨rfl, h⟩

/-- The list behind a pointer is determined by the links. -/
theorem Chain.unique (h : Chain next p l) (h' : Chain next p m) : l = m := by
  induction h generalizing m with
  | nil =>
    cases h' with
    | nil => rfl
  | cons _ ih =>
    cases h' with
    | cons h' => rw [ih h']

theorem Chain.congr (h : Chain next p l) (hsame : ∀ a ∈ l, next' a = next a) : Chain next' p l := by
  induction h with
  | nil => exact .nil
  | @cons a l _ ih =>
    refine .cons ?_
    rw [hsame a mem_cons_self]
    exact ih fun b hb => hsame b (mem_cons_of_mem a hb)

theorem Chain.from (h : Chain next p (l₁ ++ a :: l₂)) : Chain next (some a) (a :: l₂) := by
  induction l₁ generalizing p with
  | nil =>
    obtain ⟨rfl, -⟩ := h.tail
    exact h
  | cons b l₁ ih => exact ih h.tail.2

/-- A list that ends has no address twice: the links behind both would be the same. -/
theorem Chain.nodup (h : Chain next p l) : l.Nodup := by
  induction h with
  | nil => exact nodup_nil
  | @cons a l hl ih =>
    refine nodup_cons.mpr ⟨fun hmem => ?_, ih⟩
    obtain ⟨l₁, l₂, rfl⟩ := append_of_mem hmem
    have heq := hl.from.unique (.cons hl)
    have hlen := congrArg length heq
    simp only [length_cons, length_append] at hlen
    omega

section
variable (h : Chain next p (l₁ ++ b :: l₂))
include h

/-- The links behind one address may be changed to another list. -/
theorem Chain.splice (hsame : ∀ a ∈ l₁, next' a = next a) (hrest : Chain next' (next' b) m) :
    Chain next' p (l₁ ++ b :: m) := by
  induction l₁ generalizing p with
  | nil =>
    obtain ⟨rfl, -⟩ := h.tail
    exact .cons hrest
  | cons a l₁ ih =>
    obtain ⟨rfl, hl⟩ := h.tail
    refine .cons ?_
    rw [hsame a mem_cons_self]
    exact ih hl fun c hc => hsame c (mem_cons_of_mem a hc)

theorem Chain.not_mem_before : b ∉ l₁ := by
  intro hmem
  have hnodup := h.nodup
  rw [nodup_append] at hnodup
  exact hnodup.2.2 b hmem b mem_cons_self rfl

theorem Chain.not_mem_rest : b ∉ l₂ ++ l₁ := by
  intro hmem
  rcases mem_append.mp hmem with hmem | hmem
  · exact (nodup_cons.mp (nodup_append.mp h.nodup).2.1).1 hmem
  · exact h.not_mem_before hmem

end

section
variable [DecidableEq α]

/-- Linking a new address behind the last one. -/
theorem Chain.append (h : Chain next p (l ++ [b])) (ha : a ∉ l ++ [b]) (hnone : next a = none) :
    Chain (update next b (some a)) p (l ++ [b, a]) := by
  have hab : a ≠ b := fun heq => ha (heq ▸ by simp)
  refine h.splice (fun c hc => ?_) ?_
  · have hcb : c ≠ b := fun heq => h.not_mem_before (heq ▸ hc)
    exact update_of_ne hcb _ _
  rw [update_self]
  refine .cons ?_
  rw [update_of_ne hab, hnone]
  exact .nil

/-- Taking out an address by leading the link before it past it. -/
theorem Chain.unlink (h : Chain next p (l₁ ++ b :: a :: l₂)) :
    Chain (update next b (next a)) p (l₁ ++ b :: l₂) := by
  have hnodup := h.nodup
  refine h.splice (fun c hc => ?_) ?_
  · have hcb : c ≠ b := fun heq => h.not_mem_before (heq ▸ hc)
    exact update_of_ne hcb _ _
  rw [update_self]
  refine h.from.tail.2.tail.2.congr fun c hc => update_of_ne ?_ _ _
  rintro rfl
  have htail := (nodup_append.mp hnodup).2.1
  exact (nodup_cons.mp htail).1 (mem_cons_of_mem a hc)

end

/-! Loops over the list. -/

/-- The loop that goes to the last address. -/
def lastFrom (next : α → Option α) : Nat → α → Option α
  | 0, _ => none
  | fuel + 1, p =>
    match next p with
    | none => some p
    | some q => lastFrom next fuel q

/-- The loop that looks for an address with a property. -/
def findFrom (next : α → Option α) (P : α → Bool) : Nat → Option α → Option (Option α)
  | 0, _ => none
  | _ + 1, none => some none
  | fuel + 1, some p => if P p then some (some p) else findFrom next P fuel (next p)

theorem Chain.lastFrom (h : Chain next (some a) (l ++ [b])) (fuel : Nat) :
    lastFrom next fuel a = if l.length < fuel then some b else none := by
  induction fuel generalizing a l with
  | zero => rfl
  | succ fuel ih =>
    cases l with
    | nil =>
      obtain ⟨heq, hend⟩ := h.tail
      obtain rfl := some.inj heq
      generalize hnext : next a = q at hend
      cases hend with
      | nil => simp only [LinkedList.lastFrom, hnext, length_nil, Nat.zero_lt_succ, if_pos]
    | cons c l =>
      obtain ⟨heq, hrest⟩ := h.tail
      obtain rfl := some.inj heq
      simp only [LinkedList.lastFrom, length_cons, Nat.add_lt_add_iff_right]
      cases hnext : next a with
      | none =>
        rw [hnext] at hrest
        cases l <;> cases hrest
      | some q =>
        rw [hnext] at hrest
        exact ih hrest

theorem Chain.findFrom {P : α → Bool} {fuel : Nat} (h : Chain next p l) (hfuel : l.length < fuel) :
    findFrom next P fuel p = some (l.find? P) := by
  induction h generalizing fuel with
  | nil =>
    obtain ⟨n, rfl⟩ := Nat.exists_eq_succ_of_ne_zero (Nat.ne_of_gt hfuel)
    rfl
  | @cons a l _ ih =>
    obtain ⟨n, rfl⟩ := Nat.exists_eq_succ_of_ne_zero (Nat.ne_of_gt (Nat.zero_lt_of_lt hfuel))
    simp only [LinkedList.findFrom, find?_cons]
    cases hP : P a with
    | true => rfl
    | false => exact ih (Nat.lt_of_succ_lt_succ hfuel)

/-- Only the address before `a` is linked to it. -/
theorem Chain.find_before [DecidableEq α] (h : Chain next p (l₁ ++ b :: a :: l₂)) :
    (l₁ ++ b :: a :: l₂).find? (fun c => next c = some a) = some b := by
  have hnodup := h.nodup
  induction l₁ generalizing p with
  | nil =>
    obtain ⟨-, hb⟩ := h.tail
    rw [nil_append, find?_cons_of_pos (by simp [hb.tail.1])]
  | cons c l₁ ih =>
    obtain ⟨-, hrest⟩ := h.tail
    have hne : next c ≠ some a := by
      intro heq
      rw [heq] at hrest
      cases l₁ with
      | nil | cons =>
        obtain rfl := some.inj hrest.tail.1
        simp at hnodup
    rw [cons_append, find?_cons_of_neg (by simp [hne])]
    exact ih hrest (nodup_cons.mp hnodup).2

/-- Nothing in the list is linked to an address outside. -/
theorem Chain.find_absent [DecidableEq α] (h : Chain next p l) (ha : a ∉ l) :
    l.find? (fun c => next c = some a) = none := by
  induction h with
  | nil => rfl
  | @cons b l hl ih =>
    rw [mem_cons, not_or] at ha
    have hne : next b ≠ some a := by
      intro heq
      rw [heq] at hl
      cases l with
      | nil => cases hl
      | cons c l =>
        obtain rfl := some.inj hl.tail.1
        exact ha.2 mem_cons_self
    rw [find?_cons_of_neg (by simp [hne])]
    exact ih ha.2

/-- From one address, a successor function leads through the list to the other address. -/
inductive Route (after : α → α) : α → List α → α → Prop
  | arrive (b : α) : Route after b [] b
  | step {a b : α} {l : List α} : Route after (after a) l b → Route after a (a :: l) b

/-- Going to the next address, and from the last one to the head, leads from behind an
address once around the list and back to it. -/
theorem Chain.round {head : α} (h : Chain next (some head) (l₁ ++ b :: l₂)) {after : α → α}
    (hafter : ∀ a, after a = (next a).getD head) : Route after (after b) (l₂ ++ l₁) b := by
  -- to the last address, where the rest of the way starts at the head
  have hsuffix : ∀ {q : Option α} {l m : List α} {c : α}, Chain next q l → Route after head m c →
      Route after (q.getD head) (l ++ m) c := by
    intro q l m c hl hm
    induction hl with
    | nil => exact hm
    | @cons a l _ ih =>
      refine .step ?_
      rw [hafter]
      exact ih
  -- from the head up to the address
  have hleading : ∀ {q : Option α} {l : List α}, Chain next q (l ++ b :: l₂) →
      Route after (q.getD head) l b := by
    intro q l hl
    induction l generalizing q with
    | nil =>
      obtain ⟨rfl, -⟩ := hl.tail
      exact .arrive b
    | cons a l ih =>
      obtain ⟨rfl, hrest⟩ := hl.tail
      refine .step ?_
      rw [hafter]
      exact ih hrest
  rw [hafter]
  exact hsuffix h.from.tail.2 (hleading h)

end AegisOS.LinkedList
