import AegisOS.Errno
import Mathlib.Data.List.Basic

/-! Capability tokens (`kernel/ipc/capability.c`) and the set of tokens that a process holds. -/
namespace AegisOS.Capability
open Function List

def maxCaps : Nat := 4096
def nullCap : UInt64 := 0

structure Cap where
  token : UInt64
  ownerTid : UInt32
  targetTid : UInt32
  rights : UInt64
  valid : Bool

/-- `cap_table` and `next_cap_idx`. -/
structure CapTable where
  caps : Nat → Cap
  nextCapIdx : UInt32

def CapTable.init : CapTable := ⟨fun _ => ⟨0, 0, 0, 0, false⟩, 1⟩

def capCreate (t : CapTable) (ownerTid targetTid : UInt32) (rights : UInt64) : CapTable × UInt64 :=
  if maxCaps ≤ t.nextCapIdx.toNat then (t, nullCap)
  else
    (⟨update t.caps t.nextCapIdx.toNat
        ⟨t.nextCapIdx.toUInt64, ownerTid, targetTid, rights, true⟩, t.nextCapIdx + 1⟩,
      t.nextCapIdx.toUInt64)

def capIsValid (t : CapTable) (tok : UInt64) : Bool :=
  tok ≠ 0 && decide (tok.toNat < maxCaps) && (t.caps tok.toNat).valid

def capDelegate (t : CapTable) (tok : UInt64) (targetTid : UInt32) (rights : UInt64) :
    CapTable × Int :=
  if tok = 0 ∨ maxCaps ≤ tok.toNat then (t, aegisEinval)
  else if (t.caps tok.toNat).valid = false then (t, aegisEinval)
  else
    let src := t.caps tok.toNat
    let made := capCreate t src.ownerTid targetTid (rights &&& src.rights)
    (made.1, if made.2 = nullCap then aegisEnomem else made.2.toNat)

def capRevoke (t : CapTable) (tok : UInt64) : CapTable × Int :=
  if tok = 0 ∨ maxCaps ≤ tok.toNat then (t, aegisEinval)
  else
    ({ t with
        caps := update t.caps tok.toNat { t.caps tok.toNat with valid := false } }, aegisOk)

/-! The tokens of a process. -/

/-- The first `cap_count` tokens of `cap_set`. -/
@[ext] structure CapSet where
  tokens : List UInt64
  fits : tokens.length ≤ 16

def CapSet.empty : CapSet := ⟨[], Nat.zero_le 16⟩

instance : Membership UInt64 CapSet := ⟨fun s tok => tok ∈ s.tokens⟩

instance (tok : UInt64) (s : CapSet) : Decidable (tok ∈ s) :=
  inferInstanceAs (Decidable (tok ∈ s.tokens))

theorem CapSet.push_fits (s : CapSet) (tok : UInt64) (h : s.tokens.length < 16) :
    (s.tokens ++ [tok]).length ≤ 16 := by
  rw [length_append]
  exact h

def CapSet.push (s : CapSet) (tok : UInt64) : Option CapSet :=
  if h : s.tokens.length < 16 then some ⟨s.tokens ++ [tok], s.push_fits tok h⟩ else none

/-- The last token takes the place of the first one that is `tok`. -/
def CapSet.remove (s : CapSet) (tok : UInt64) : Option CapSet :=
  match s.tokens.findIdx? (· == tok) with
  | none => none
  | some i =>
    some ⟨(s.tokens.set i (s.tokens.getLastD 0)).dropLast, by
      have := s.fits
      simp
      omega⟩

theorem CapSet.not_mem_empty (tok : UInt64) : tok ∉ CapSet.empty := not_mem_nil

variable {s s' : CapSet} {tok x : UInt64} {t' : CapTable}

theorem CapSet.mem_push (h : s.push tok = some s') : x ∈ s' ↔ x ∈ s ∨ x = tok := by
  unfold push at h
  split at h
  · cases h
    exact mem_append.trans (or_congr_right mem_singleton)
  · cases h

theorem CapSet.mem_of_mem_remove (h : s.remove tok = some s') (hx : x ∈ s') : x ∈ s := by
  unfold remove at h
  split at h
  · cases h
  rename_i i hi
  cases h
  rcases mem_or_eq_of_mem_set ((dropLast_sublist _).subset hx) with hmem | hlast
  · exact hmem
  have hlt : i < s.tokens.length := (findIdx?_eq_some_iff_findIdx_eq.mp hi).1
  have hne : s.tokens ≠ [] := by
    intro hnil
    rw [hnil] at hlt
    exact absurd hlt (Nat.not_lt_zero i)
  rw [hlast, getLastD_eq_getLast?, getLast?_eq_getLast_of_ne_nil hne]
  exact getLast_mem hne

/-! Validity. -/

def CapTable.Made (t : CapTable) : Prop :=
  ∀ tok, capIsValid t tok = true → tok.toNat < t.nextCapIdx.toNat

variable {t : CapTable} {tok : UInt64}

theorem made_init : CapTable.init.Made := by
  intro tok h
  simp [capIsValid, CapTable.init] at h

/-- A table that follows another: only tokens made since may have become valid. -/
structure Follows (t t' : CapTable) : Prop where
  next : t.nextCapIdx.toNat ≤ t'.nextCapIdx.toNat
  valid : ∀ tok, capIsValid t' tok = true → capIsValid t tok = true ∨
    t.nextCapIdx.toNat ≤ tok.toNat ∧ tok.toNat < t'.nextCapIdx.toNat

theorem Follows.refl (t : CapTable) : Follows t t := ⟨Nat.le_refl _, fun _ h => .inl h⟩

theorem capCreate_follows (t : CapTable) (ownerTid targetTid : UInt32) (rights : UInt64) :
    Follows t (capCreate t ownerTid targetTid rights).1 := by
  unfold capCreate
  split
  · exact .refl t
  rename_i hroom
  have hnext : (t.nextCapIdx + 1).toNat = t.nextCapIdx.toNat + 1 := by
    rw [UInt32.toNat_add]
    simp only [UInt32.reduceToNat, maxCaps] at hroom ⊢
    omega
  refine ⟨by rw [hnext]; omega, fun tok h => ?_⟩
  by_cases heq : tok.toNat = t.nextCapIdx.toNat
  · exact .inr ⟨Nat.le_of_eq heq.symm, by rw [hnext]; omega⟩
  · left
    simpa only [capIsValid, update_of_ne heq] using h

theorem capDelegate_follows (t : CapTable) (tok : UInt64) (targetTid : UInt32) (rights : UInt64) :
    Follows t (capDelegate t tok targetTid rights).1 := by
  unfold capDelegate
  split_ifs
  · exact .refl t
  · exact .refl t
  · exact capCreate_follows t _ _ _

theorem capRevoke_follows (t : CapTable) (tok : UInt64) : Follows t (capRevoke t tok).1 := by
  unfold capRevoke
  split_ifs
  · exact .refl t
  refine ⟨Nat.le_refl _, fun x h => .inl ?_⟩
  by_cases heq : x.toNat = tok.toNat
  · simp [capIsValid, heq] at h
  · simpa only [capIsValid, update_of_ne heq] using h

theorem CapTable.Made.follows (h : t.Made) (hf : Follows t t') : t'.Made := by
  intro tok htok
  rcases hf.valid tok htok with hold | hnew
  · exact Nat.lt_of_lt_of_le (h tok hold) hf.next
  · exact hnew.2

def CapTable.Dead (t : CapTable) (tok : UInt64) : Prop :=
  capIsValid t tok = false ∧ tok.toNat < t.nextCapIdx.toNat

theorem CapTable.Dead.follows (h : t.Dead tok) (hf : Follows t t') : t'.Dead tok := by
  refine ⟨?_, Nat.lt_of_lt_of_le h.2 hf.next⟩
  cases hvalid : capIsValid t' tok with
  | false => rfl
  | true =>
    rcases hf.valid tok hvalid with hold | hnew
    · rw [h.1] at hold
      cases hold
    · exact absurd h.2 (Nat.not_lt.mpr hnew.1)

theorem CapTable.Made.revoke (h : t.Made) (hvalid : capIsValid t tok = true) :
    (capRevoke t tok).1.Dead tok := by
  have hmade := h tok hvalid
  simp only [capIsValid, Bool.and_eq_true, decide_eq_true_eq] at hvalid
  rw [capRevoke, if_neg (by rw [not_or]; exact ⟨hvalid.1.1, Nat.not_le.mpr hvalid.1.2⟩)]
  exact ⟨by simp [capIsValid], hmade⟩

end AegisOS.Capability
