import Mathlib.Data.List.Induction
import Mathlib.Data.Set.Insert

/-! Radix trees kept as tables in memory: under every index a table holds the table below
it, and the tables of the last level hold values. Several roots may stand side by side. -/
namespace AegisOS.RadixTables
open List Option
variable {α ι V : Type*}

/-- How the entries of a table read, above the last level and on it. -/
structure Tables (α ι V : Type*) where
  child : α → ι → Option α
  leaf : α → ι → Option V

variable {r' c : α} {q : List ι}

namespace Tables
variable {T T' : Tables α ι V} {roots : Set α} {d : Nat} {r a b : α} {p : List ι} {i : ι}

/-- The table under a path. -/
def walk (T : Tables α ι V) (a : α) : List ι → Option α
  | [] => some a
  | i :: p => (T.child a i).bind fun b => T.walk b p

theorem walk_concat (T : Tables α ι V) (a : α) (p : List ι) (i : ι) :
    T.walk a (p ++ [i]) = (T.walk a p).bind fun b => T.child b i := by
  induction p generalizing a with
  | nil => cases h : T.child a i <;> simp [walk, h]
  | cons j p ih => cases h : T.child a j <;> simp [walk, h, ih]

/-- The value under a path and a last index. -/
def lookup (T : Tables α ι V) (r : α) (p : List ι) (i : ι) : Option V :=
  (T.walk r p).bind fun a => T.leaf a i

/-- The tables of the first `d` levels under the roots. -/
def Live (T : Tables α ι V) (roots : Set α) (d : Nat) (a : α) : Prop :=
  ∃ r ∈ roots, ∃ p : List ι, p.length ≤ d ∧ T.walk r p = some a

/-- No table stands under two paths. -/
def Unshared (T : Tables α ι V) (roots : Set α) (d : Nat) : Prop :=
  ∀ r ∈ roots, ∀ r' ∈ roots, ∀ p p' : List ι, ∀ a, p.length ≤ d → p'.length ≤ d →
    T.walk r p = some a → T.walk r' p' = some a → r = r' ∧ p = p'

/-- The same walks lead to the same tables. -/
theorem Live.of_walk (hwalk : ∀ r ∈ roots, ∀ q : List ι, q.length ≤ d → T'.walk r q = T.walk r q) :
    T'.Live roots d a ↔ T.Live roots d a := by
  constructor <;> rintro ⟨r, hr, p, hp, hw⟩
  · exact ⟨r, hr, p, hp, hwalk r hr p hp ▸ hw⟩
  · exact ⟨r, hr, p, hp, (hwalk r hr p hp).trans hw⟩

theorem Unshared.of_walk (h : T.Unshared roots d)
    (hwalk : ∀ r ∈ roots, ∀ q : List ι, q.length ≤ d → T'.walk r q = T.walk r q) :
    T'.Unshared roots d := by
  intro r hr r' hr' p p' a hp hp' hw hw'
  rw [hwalk r hr p hp] at hw
  rw [hwalk r' hr' p' hp'] at hw'
  exact h r hr r' hr' p p' a hp hp' hw hw'

/-! Changing a value. -/

/-- `T'` is `T` with the value `v` under the path `p` and the index `i`. -/
structure Written (T T' : Tables α ι V) (roots : Set α) (d : Nat) (r : α) (p : List ι) (i : ι)
    (v : Option V) : Prop where
  root : r ∈ roots
  last : p.length = d
  value : ∀ a, T.walk r p = some a → T'.leaf a i = v
  reached : (T.walk r p).isSome = true
  same : ∀ c j, T.Live roots d c → ¬(T.walk r p = some c ∧ j = i) →
    T'.child c j = T.child c j ∧ T'.leaf c j = T.leaf c j

section
variable {v : Option V} (h : T.Written T' roots d r p i v) (hT : T.Unshared roots d)
include h hT

theorem Written.walk (hr' : r' ∈ roots) (hq : q.length ≤ d) : T'.walk r' q = T.walk r' q := by
  induction q using reverseRecOn with
  | nil => rfl
  | append_singleton q j ih =>
    rw [length_append, length_singleton] at hq
    rw [walk_concat, walk_concat, ih (by omega)]
    cases hw : T.walk r' q with
    | none => rfl
    | some c =>
      -- the changed table is on the last level, this one above it
      refine (h.same c j ⟨r', hr', q, by omega, hw⟩ fun hc => ?_).1
      have hpath := (hT r h.root r' hr' p q c h.last.le (by omega) hc.1 hw).2
      rw [← hpath, h.last] at hq
      omega

theorem Written.lookup [DecidableEq α] [DecidableEq ι] (hr' : r' ∈ roots)
    (hq : q.length = d) (j : ι) :
    T'.lookup r' q j = if r' = r ∧ q = p ∧ j = i then v else T.lookup r' q j := by
  unfold Tables.lookup
  rw [h.walk hT hr' hq.le]
  split
  next heq =>
    obtain ⟨rfl, rfl, rfl⟩ := heq
    obtain ⟨a, ha⟩ := isSome_iff_exists.mp h.reached
    rw [ha]
    exact h.value a ha
  rename_i hne
  cases hw : T.walk r' q with
  | none => rfl
  | some c =>
    refine (h.same c j ⟨r', hr', q, hq.le, hw⟩ fun hc => hne ?_).2
    obtain ⟨rfl, rfl⟩ := hT r h.root r' hr' p q c h.last.le hq.le hc.1 hw
    exact ⟨rfl, rfl, hc.2⟩

theorem Written.unshared : T'.Unshared roots d := hT.of_walk fun _ hr _ hq => h.walk hT hr hq

end

/-! Putting an empty table where none was. -/

/-- `T'` is `T` with the empty table `b` under the path `p` and the index `i`. -/
structure Linked (T T' : Tables α ι V) (roots : Set α) (d : Nat) (r : α) (p : List ι) (a : α)
    (i : ι) (b : α) : Prop where
  root : r ∈ roots
  above : p.length < d
  reached : T.walk r p = some a
  missing : T.child a i = none
  fresh : ¬T.Live roots d b
  now : T'.child a i = some b
  empty : ∀ j, T'.child b j = none ∧ T'.leaf b j = none
  same : ∀ c j, T.Live roots d c → ¬(c = a ∧ j = i) →
    T'.child c j = T.child c j ∧ T'.leaf c j = T.leaf c j

section
variable (h : T.Linked T' roots d r p a i b) (hT : T.Unshared roots d)

include h in
theorem Linked.missing_walk : T.walk r (p ++ [i]) = none := by
  rw [walk_concat, h.reached]
  exact h.missing

include h hT

theorem Linked.walk_new : T'.walk r (p ++ [i]) = some b ∧
    ∀ r' ∈ roots, ∀ q : List ι, q.length ≤ d → ¬(r' = r ∧ q = p ++ [i]) →
      T'.walk r' q = T.walk r' q := by
  have hold : ∀ r' ∈ roots, ∀ q : List ι, q.length ≤ d →
      (r' = r ∧ q = p ++ [i] ∧ T'.walk r' q = some b) ∨
      (¬(r' = r ∧ q = p ++ [i]) ∧ T'.walk r' q = T.walk r' q) := by
    intro r' hr' q hq
    induction q using reverseRecOn with
    | nil => exact .inr ⟨by simp, rfl⟩
    | append_singleton q j ih =>
      rw [length_append, length_singleton] at hq
      rw [walk_concat, walk_concat]
      rcases ih (by omega) with ⟨rfl, rfl, hw⟩ | ⟨hne, hw⟩
      · -- below the new table there is nothing, as there was nothing before
        refine .inr ⟨fun heq => ?_, ?_⟩
        · have hlen := congrArg length heq.2
          simp at hlen
        · rw [hw, h.missing_walk]
          exact (h.empty j).1
      rw [hw]
      cases hc : T.walk r' q with
      | none =>
        refine .inr ⟨?_, rfl⟩
        rintro ⟨rfl, heq⟩
        rw [(append_inj' heq rfl).1, h.reached] at hc
        cases hc
      | some c =>
        by_cases hspot : c = a ∧ j = i
        · obtain ⟨rfl, rfl⟩ := hspot
          obtain ⟨rfl, rfl⟩ := hT r h.root r' hr' p q c h.above.le (by omega) h.reached hc
          exact .inl ⟨rfl, rfl, h.now⟩
        refine .inr ⟨?_, (h.same c j ⟨r', hr', q, by omega, hc⟩ hspot).1⟩
        rintro ⟨rfl, heq⟩
        obtain ⟨rfl, hj⟩ := append_inj' heq rfl
        rw [h.reached] at hc
        exact hspot ⟨(some.inj hc).symm, singleton_inj.mp hj⟩
  constructor
  · have hlen : (p ++ [i]).length ≤ d := by
      rw [length_append, length_singleton]
      exact h.above
    rcases hold r h.root _ hlen with ⟨-, -, hw⟩ | ⟨hne, -⟩
    · exact hw
    · exact absurd ⟨rfl, rfl⟩ hne
  · intro r' hr' q hq hne
    rcases hold r' hr' q hq with ⟨hr, hq', -⟩ | ⟨-, hw⟩
    · exact absurd ⟨hr, hq'⟩ hne
    · exact hw

/-- A table reached now is the new one, or was reached before the same way. -/
theorem Linked.walk_cases (hr' : r' ∈ roots) (hq : q.length ≤ d) (hw : T'.walk r' q = some c) :
    (c = b ∧ r' = r ∧ q = p ++ [i]) ∨ (c ≠ b ∧ T.walk r' q = some c) := by
  obtain ⟨hnew, hold⟩ := h.walk_new hT
  by_cases hspot : r' = r ∧ q = p ++ [i]
  · obtain ⟨rfl, rfl⟩ := hspot
    exact .inl ⟨some.inj (hw.symm.trans hnew), rfl, rfl⟩
  rw [hold r' hr' q hq hspot] at hw
  refine .inr ⟨?_, hw⟩
  rintro rfl
  exact h.fresh ⟨r', hr', q, hq, hw⟩

theorem Linked.live (hc : T'.Live roots d c) : c = b ∨ T.Live roots d c := by
  obtain ⟨r', hr', q, hq, hw⟩ := hc
  rcases h.walk_cases hT hr' hq hw with ⟨hcb, -⟩ | ⟨-, hold⟩
  · exact .inl hcb
  · exact .inr ⟨r', hr', q, hq, hold⟩

theorem Linked.unshared : T'.Unshared roots d := by
  intro r₁ hr₁ r₂ hr₂ p₁ p₂ c hp₁ hp₂ hw₁ hw₂
  rcases h.walk_cases hT hr₁ hp₁ hw₁ with ⟨hc₁, rfl, rfl⟩ | ⟨hc₁, hold₁⟩ <;>
    rcases h.walk_cases hT hr₂ hp₂ hw₂ with ⟨hc₂, hr, hp⟩ | ⟨hc₂, hold₂⟩
  · exact ⟨hr.symm, hp.symm⟩
  · exact absurd hc₁ hc₂
  · exact absurd hc₂ hc₁
  · exact hT r₁ hr₁ r₂ hr₂ p₁ p₂ c hp₁ hp₂ hold₁ hold₂

/-- No value changes: the new table holds none. -/
theorem Linked.lookup (hr' : r' ∈ roots) (hq : q.length = d) (j : ι) :
    T'.lookup r' q j = T.lookup r' q j := by
  obtain ⟨hnew, hold⟩ := h.walk_new hT
  unfold Tables.lookup
  by_cases hspot : r' = r ∧ q = p ++ [i]
  · obtain ⟨rfl, rfl⟩ := hspot
    rw [hnew, h.missing_walk]
    exact (h.empty j).2
  rw [hold r' hr' q hq.le hspot]
  cases hw : T.walk r' q with
  | none => rfl
  | some c =>
    refine (h.same c j ⟨r', hr', q, hq.le, hw⟩ fun hc => ?_).2
    have hpath := (hT r h.root r' hr' p q a h.above.le hq.le h.reached (hc.1 ▸ hw)).2
    have hlen := h.above
    rw [hpath, hq] at hlen
    exact Nat.lt_irrefl d hlen

end

/-! A new root. -/

/-- `T'` is `T` with the empty table `b` as one more root. -/
structure Rooted (T T' : Tables α ι V) (roots : Set α) (d : Nat) (b : α) : Prop where
  fresh : ¬T.Live roots d b
  empty : ∀ j, T'.child b j = none ∧ T'.leaf b j = none
  same : ∀ c j, T.Live roots d c → T'.child c j = T.child c j ∧ T'.leaf c j = T.leaf c j

section
variable (h : T.Rooted T' roots d b)
include h

theorem Rooted.walk (hr' : r' ∈ roots) (hq : q.length ≤ d) : T'.walk r' q = T.walk r' q := by
  induction q using reverseRecOn with
  | nil => rfl
  | append_singleton q j ih =>
    rw [length_append] at hq
    rw [walk_concat, walk_concat, ih (by omega)]
    cases hw : T.walk r' q with
    | none => rfl
    | some c => exact (h.same c j ⟨r', hr', q, by omega, hw⟩).1

theorem Rooted.walk_root (hw : T'.walk b q = some c) : q = [] ∧ c = b := by
  cases q with
  | nil => exact ⟨rfl, (some.inj hw).symm⟩
  | cons j q =>
    rw [Tables.walk, (h.empty j).1] at hw
    cases hw

theorem Rooted.lookup (hr' : r' ∈ roots) (hq : q.length = d) (j : ι) :
    T'.lookup r' q j = T.lookup r' q j := by
  unfold Tables.lookup
  rw [h.walk hr' hq.le]
  cases hw : T.walk r' q with
  | none => rfl
  | some c => exact (h.same c j ⟨r', hr', q, hq.le, hw⟩).2

theorem Rooted.lookup_root (q : List ι) (j : ι) : T'.lookup b q j = none := by
  unfold Tables.lookup
  cases hw : T'.walk b q with
  | none => rfl
  | some c =>
    obtain ⟨-, rfl⟩ := h.walk_root hw
    exact (h.empty j).2

theorem Rooted.unshared (hT : T.Unshared roots d) : T'.Unshared (insert b roots) d := by
  have hold : ∀ r ∈ roots, ∀ q : List ι, q.length ≤ d → T'.walk r q ≠ some b := by
    intro r hr q hq hw
    rw [h.walk hr hq] at hw
    exact h.fresh ⟨r, hr, q, hq, hw⟩
  intro r₁ hr₁ r₂ hr₂ p₁ p₂ c hp₁ hp₂ hw₁ hw₂
  rcases hr₁ with rfl | hr₁ <;> rcases hr₂ with rfl | hr₂
  · exact ⟨rfl, (h.walk_root hw₁).1.trans (h.walk_root hw₂).1.symm⟩
  · rw [(h.walk_root hw₁).2] at hw₂
    exact absurd hw₂ (hold r₂ hr₂ p₂ hp₂)
  · rw [(h.walk_root hw₂).2] at hw₁
    exact absurd hw₁ (hold r₁ hr₁ p₁ hp₁)
  · rw [h.walk hr₁ hp₁] at hw₁
    rw [h.walk hr₂ hp₂] at hw₂
    exact hT r₁ hr₁ r₂ hr₂ p₁ p₂ c hp₁ hp₂ hw₁ hw₂

end

end Tables
end AegisOS.RadixTables
