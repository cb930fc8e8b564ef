import Mathlib.Order.Basic

/-! Open addressing with linear probing: the search from a key's first slot on, and the invariant
under which it finds every key. Removing a key keeps the invariant if the key's slot lies on no
other key's path. -/
namespace AegisOS.LinearProbing
open Function Nat Option

inductive Probe
  | vacant (idx : Nat)
  | found (idx : Nat)
  | exhausted
  deriving DecidableEq

/-- The search loop with `m` rounds left, in round `i`. -/
def probe (n start : Nat) (occupied hit : Nat → Bool) : Nat → Nat → Probe
  | 0, _ => .exhausted
  | m + 1, i =>
    if occupied ((start + i) % n) = false then .vacant ((start + i) % n)
    else if hit ((start + i) % n) = true then .found ((start + i) % n)
    else probe n start occupied hit m (i + 1)

section
variable {n start : Nat} {occupied hit : Nat → Bool}

/-- The slots of the first `d` rounds hold other keys. -/
def Passed (n start : Nat) (occupied hit : Nat → Bool) (d : Nat) : Prop :=
  ∀ i < d, occupied ((start + i) % n) = true ∧ hit ((start + i) % n) = false

/-- Where the search ends. -/
def Ends (n start : Nat) (occupied hit : Nat → Bool) (rounds : Nat) : Probe → Prop
  | .vacant idx => ∃ d < rounds, idx = (start + d) % n ∧ occupied idx = false ∧
      Passed n start occupied hit d
  | .found idx => ∃ d < rounds, idx = (start + d) % n ∧ occupied idx = true ∧ hit idx = true ∧
      Passed n start occupied hit d
  | .exhausted => Passed n start occupied hit rounds

theorem probe_ends {m i : Nat} (h : Passed n start occupied hit i) :
    Ends n start occupied hit (i + m) (probe n start occupied hit m i) := by
  induction m generalizing i with
  | zero => exact h
  | succ m ih =>
    rw [probe]
    cases hocc : occupied ((start + i) % n) with
    | false => exact ⟨i, by omega, rfl, hocc, h⟩
    | true =>
      cases hhit : hit ((start + i) % n) with
      | true => exact ⟨i, by omega, rfl, hocc, hhit, h⟩
      | false =>
        have hnext : Passed n start occupied hit (i + 1) := by
          intro j hj
          by_cases hji : j = i
          · exact hji ▸ ⟨hocc, hhit⟩
          · exact h j (by omega)
        have := ih hnext
        rwa [Nat.add_right_comm] at this

/-- Only slots that are occupied are compared. -/
theorem probe_congr {hit' : Nat → Bool} (h : ∀ i, occupied i = true → hit' i = hit i) (m i : Nat) :
    probe n start occupied hit' m i = probe n start occupied hit m i := by
  induction m generalizing i with
  | zero => rfl
  | succ m ih =>
    rw [probe, probe, ih]
    cases hocc : occupied ((start + i) % n) with
    | false => rfl
    | true => rw [h _ hocc]

end

section
variable {κ : Type*} [DecidableEq κ] {n : Nat} {start : κ → Nat} {keyAt : Nat → Option κ} {k : κ}
  {idx : Nat}
variable (n start) in
/-- The search for a key in a table. -/
def search (keyAt : Nat → Option κ) (k : κ) : Probe :=
  probe n (start k) (fun i => (keyAt i).isSome) (fun i => decide (keyAt i = some k)) n 0

variable (n start) in
/-- The slots from the key's first one up to `idx` are occupied. -/
def Reaches (keyAt : Nat → Option κ) (k : κ) (idx : Nat) : Prop :=
  ∃ d < n, idx = (start k + d) % n ∧ ∀ i < d, (keyAt ((start k + i) % n)).isSome = true

variable (n start) in
structure Probed (keyAt : Nat → Option κ) : Prop where
  reach : ∀ idx < n, ∀ k, keyAt idx = some k → Reaches n start keyAt k idx
  unique : ∀ i < n, ∀ j < n, ∀ k, keyAt i = some k → keyAt j = some k → i = j

variable (n start) in
theorem search_ends (keyAt : Nat → Option κ) (k : κ) :
    Ends n (start k) (fun i => (keyAt i).isSome) (fun i => decide (keyAt i = some k)) n
      (search n start keyAt k) := by
  have hfirst : Passed n (start k) (fun i => (keyAt i).isSome)
      (fun i => decide (keyAt i = some k)) 0 := fun i hi => absurd hi (Nat.not_lt_zero i)
  have hends := probe_ends (m := n) hfirst
  rwa [Nat.zero_add] at hends

/-- A key in the table is found. -/
theorem Probed.search_found (h : Probed n start keyAt) (hidx : idx < n) (hk : keyAt idx = some k) :
    search n start keyAt k = .found idx := by
  obtain ⟨d, hd, hslot, hpath⟩ := h.reach idx hidx k hk
  have hends := search_ends n start keyAt k
  have hnotPassed : ∀ e, Passed n (start k) (fun i => (keyAt i).isSome)
      (fun i => decide (keyAt i = some k)) e → e ≤ d := by
    intro e he
    by_contra hlt
    have hmiss := (he d (by omega)).2
    rw [← hslot] at hmiss
    exact absurd hk (of_decide_eq_false hmiss)
  cases hres : search n start keyAt k with
  | exhausted =>
    rw [hres] at hends
    have := hnotPassed n hends
    omega
  | vacant idx' =>
    rw [hres] at hends
    obtain ⟨e, -, hidx', hempty, hpassed⟩ := hends
    have hnone : keyAt idx' = none := by simpa using hempty
    rcases Nat.lt_or_eq_of_le (hnotPassed e hpassed) with hlt | rfl
    · have hsome := hpath e hlt
      rw [← hidx', hnone] at hsome
      cases hsome
    · rw [hidx', ← hslot, hk] at hnone
      cases hnone
  | found idx' =>
    rw [hres] at hends
    obtain ⟨e, he, hidx', -, hhit, -⟩ := hends
    have hlt : idx' < n := by
      rw [hidx']
      exact Nat.mod_lt _ (by omega)
    rw [h.unique idx' hlt idx hidx k (of_decide_eq_true hhit) hk]

theorem search_found_key (hres : search n start keyAt k = .found idx) :
    idx < n ∧ keyAt idx = some k := by
  have hends := search_ends n start keyAt k
  rw [hres] at hends
  obtain ⟨d, hd, hidx, -, hhit, -⟩ := hends
  exact ⟨by rw [hidx]; exact mod_lt _ (by omega), of_decide_eq_true hhit⟩

/-- A search that ends otherwise is for a key that is not there. -/
theorem Probed.absent (h : Probed n start keyAt) (hres : ∀ idx, search n start keyAt k ≠ .found idx) :
    ∀ idx < n, keyAt idx ≠ some k :=
  fun idx hidx hk => hres idx (h.search_found hidx hk)

theorem search_vacant_slot (hres : search n start keyAt k = .vacant idx) :
    idx < n ∧ keyAt idx = none ∧ Reaches n start keyAt k idx := by
  have hends := search_ends n start keyAt k
  rw [hres] at hends
  obtain ⟨d, hd, hidx, hempty, hpassed⟩ := hends
  refine ⟨by rw [hidx]; exact mod_lt _ (by omega), by simpa using hempty, d, hd, hidx, ?_⟩
  exact fun i hi => (hpassed i hi).1

/-- The new key is stored where its search ended. -/
theorem Probed.insert (h : Probed n start keyAt) (hres : search n start keyAt k = .vacant idx) :
    Probed n start (update keyAt idx (some k)) := by
  obtain ⟨hidx, hempty, d, hd, hslot, hpath⟩ := search_vacant_slot hres
  have habsent := h.absent (k := k) fun j hj => by rw [hres] at hj; cases hj
  have hmore : ∀ i, (keyAt i).isSome = true → (update keyAt idx (some k) i).isSome = true := by
    intro i hi
    by_cases heq : i = idx
    · simp [heq]
    · rwa [update_of_ne heq]
  refine ⟨fun j hj k' hk' => ?_, fun i hi j hj k' hi' hj' => ?_⟩
  · by_cases heq : j = idx
    · rw [heq, update_self, some.injEq] at hk'
      subst hk'
      exact ⟨d, hd, by rw [heq, hslot], fun i hi => hmore _ (hpath i hi)⟩
    · rw [update_of_ne heq] at hk'
      obtain ⟨e, he, hj', hpath'⟩ := h.reach j hj k' hk'
      exact ⟨e, he, hj', fun i hi => hmore _ (hpath' i hi)⟩
  · by_cases hii : i = idx
    · by_cases hjj : j = idx
      · rw [hii, hjj]
      rw [hii, update_self, some.injEq] at hi'
      rw [update_of_ne hjj, ← hi'] at hj'
      exact absurd hj' (habsent j hj)
    · rw [update_of_ne hii] at hi'
      by_cases hjj : j = idx
      · rw [hjj, update_self, some.injEq] at hj'
        rw [← hj'] at hi'
        exact absurd hi' (habsent i hi)
      · rw [update_of_ne hjj] at hj'
        exact h.unique i hi j hj k' hi' hj'

/-- The rounds from slot `a` to slot `idx`. -/
def distance (n a idx : Nat) : Nat := (idx + n - a % n) % n

theorem distance_slot {a i : Nat} (hi : i < n) : distance n a ((a + i) % n) = i := by
  have ha := mod_lt a (by omega : n > 0)
  have hsum : (a + i) % n = (a % n + i) % n := (mod_add_mod a n i).symm
  rw [distance, hsum]
  by_cases hlt : a % n + i < n
  · rw [mod_eq_of_lt hlt]
    have : a % n + i + n - a % n = i + n := by omega
    rw [this, add_mod_right, mod_eq_of_lt hi]
  · have hwrap : (a % n + i) % n = a % n + i - n := by
      rw [mod_eq_sub_mod (by omega), mod_eq_of_lt (by omega)]
    have : a % n + i - n + n - a % n = i := by omega
    rw [hwrap, this, mod_eq_of_lt hi]

variable (n start) in
/-- The slot lies on the path of no key stored elsewhere. -/
def OffPath (keyAt : Nat → Option κ) (idx : Nat) : Prop :=
  ∀ j < n, j ≠ idx → ∀ k ∈ keyAt j, distance n (start k) j ≤ distance n (start k) idx

instance (keyAt : Nat → Option κ) (idx : Nat) : Decidable (OffPath n start keyAt idx) :=
  inferInstanceAs (Decidable (∀ j < n, _))

omit [DecidableEq κ] in
theorem Probed.remove (h : Probed n start keyAt) (hoff : OffPath n start keyAt idx) :
    Probed n start (update keyAt idx none) := by
  have hsome : ∀ {j k'}, update keyAt idx none j = some k' → j ≠ idx ∧ keyAt j = some k' := by
    intro j k' hk'
    by_cases heq : j = idx
    · rw [heq, update_self] at hk'
      cases hk'
    · rw [update_of_ne heq] at hk'
      exact ⟨heq, hk'⟩
  refine ⟨fun j hj k' hk' => ?_, fun i hi j hj k' hi' hj' =>
    h.unique i hi j hj k' (hsome hi').2 (hsome hj').2⟩
  obtain ⟨hne, hk'⟩ := hsome hk'
  obtain ⟨d, hd, hslot, hpath⟩ := h.reach j hj k' hk'
  refine ⟨d, hd, hslot, fun i hi => ?_⟩
  have hdistance := hoff j hj hne k' hk'
  have hother : (start k' + i) % n ≠ idx := by
    rintro rfl
    rw [hslot, distance_slot hd, distance_slot (by omega)] at hdistance
    omega
  rw [update_of_ne hother]
  exact hpath i hi

end

end AegisOS.LinearProbing
