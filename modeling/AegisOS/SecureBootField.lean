import AegisOS.Lib.ByteStore
import Mathlib.Data.Int.Bitwise
import Mathlib.NumberTheory.LegendreSymbol.Basic

/-! The field arithmetic of `security/src/secure_boot.rs`: five limbs of 51 bits. The words
are signed and of 64 bits; an operation that overflows has no result. -/
namespace AegisOS.SecureBoot
open ByteStore List Nat Option

def radix : Int := 2 ^ 51

def prime : Int := 2 ^ 255 - 19

/-- The result of an operation on `i64`. -/
def word (x : Int) : Option Int := if -2 ^ 63 ≤ x ∧ x < 2 ^ 63 then some x else none

@[ext]
structure Fe where
  h0 : Int
  h1 : Int
  h2 : Int
  h3 : Int
  h4 : Int

namespace Fe

def limbs (a : Fe) : List Int := [a.h0, a.h1, a.h2, a.h3, a.h4]

def value (a : Fe) : Int := a.h0 + 2 ^ 51 * a.h1 + 2 ^ 102 * a.h2 + 2 ^ 153 * a.h3 + 2 ^ 204 * a.h4

end Fe

def feZero : Fe := ⟨0, 0, 0, 0, 0⟩

def feOne : Fe := ⟨1, 0, 0, 0, 0⟩

/-- A sum of products, from the left. -/
def dot : Int → List (Int × Int) → Option Int
  | sum, [] => some sum
  | sum, (x, y) :: rest => do
    let product ← word (x * y)
    dot (← word (sum + product)) rest

/-- One round of `fe_reduce`; `>> 51` and `& mask51` are the quotient and the remainder. -/
def carry (h : Fe) : Option Fe := do
  let h1 ← word (h.h1 + h.h0 / radix)
  let h2 ← word (h.h2 + h1 / radix)
  let h3 ← word (h.h3 + h2 / radix)
  let h4 ← word (h.h4 + h3 / radix)
  let c4 ← word (h4 / radix * 19)
  let h0 ← word (h.h0 % radix + c4)
  return ⟨h0, h1 % radix, h2 % radix, h3 % radix, h4 % radix⟩

def feReduce (h : Fe) : Option Fe := do carry (← carry h)

def feMul (a b : Fe) : Option Fe := do
  let b1_19 ← word (19 * b.h1)
  let b2_19 ← word (19 * b.h2)
  let b3_19 ← word (19 * b.h3)
  let b4_19 ← word (19 * b.h4)
  feReduce ⟨← dot 0 [(a.h0, b.h0), (a.h4, b1_19), (a.h3, b2_19), (a.h2, b3_19), (a.h1, b4_19)],
    ← dot 0 [(a.h1, b.h0), (a.h0, b.h1), (a.h4, b2_19), (a.h3, b3_19), (a.h2, b4_19)],
    ← dot 0 [(a.h2, b.h0), (a.h1, b.h1), (a.h0, b.h2), (a.h4, b3_19), (a.h3, b4_19)],
    ← dot 0 [(a.h3, b.h0), (a.h2, b.h1), (a.h1, b.h2), (a.h0, b.h3), (a.h4, b4_19)],
    ← dot 0 [(a.h4, b.h0), (a.h3, b.h1), (a.h2, b.h2), (a.h1, b.h3), (a.h0, b.h4)]⟩

theorem forall_limbs {P : Int → Prop} {a : Fe} :
    (∀ x ∈ a.limbs, P x) ↔ P a.h0 ∧ P a.h1 ∧ P a.h2 ∧ P a.h3 ∧ P a.h4 := by
  simp [Fe.limbs]

theorem word_of_bounds {x : Int} (h : -2 ^ 63 ≤ x) (h' : x < 2 ^ 63) : word x = some x :=
  if_pos ⟨h, h'⟩

theorem word_bind {α : Type} {f : Int → Option α} {x : Int} (h : -2 ^ 63 ≤ x) (h' : x < 2 ^ 63) :
    (word x).bind f = f x := by
  rw [word_of_bounds h h', bind_some]

theorem word_eq_none {x : Int} (h : 2 ^ 63 ≤ x) : word x = none := if_neg fun hx => absurd hx.2 (by omega)

/-! Carries. -/

/-- The limbs, each with the carry out of the one below it. -/
def carrying (h : Fe) : Fe :=
  let h1 := h.h1 + h.h0 / radix
  let h2 := h.h2 + h1 / radix
  let h3 := h.h3 + h2 / radix
  let h4 := h.h4 + h3 / radix
  ⟨h.h0, h1, h2, h3, h4⟩

/-- Limbs that a round of carries does not overflow. -/
def Room (h : Fe) : Prop := ∀ x ∈ (carrying h).limbs, -2 ^ 63 ≤ x ∧ x < 2 ^ 63

/-- A value with what exceeds 255 bits folded back. -/
def folded (v : Int) : Int := v % 2 ^ 255 + 19 * (v / 2 ^ 255)

theorem folded_modEq (v : Int) : folded v ≡ v [ZMOD prime] := by
  refine Int.modEq_iff_dvd.mpr ⟨v / 2 ^ 255, ?_⟩
  unfold folded prime
  omega

structure Carried (h h' : Fe) : Prop where
  value : h'.value = folded h.value
  first : h'.h0 = h.h0 % radix + 19 * (h.value / 2 ^ 255)
  digits : ∀ x ∈ [h'.h1, h'.h2, h'.h3, h'.h4], 0 ≤ x ∧ x < radix

theorem forall_digits {P : Int → Prop} {x y z w : Int} :
    (∀ v ∈ [x, y, z, w], P v) ↔ P x ∧ P y ∧ P z ∧ P w := by
  simp

theorem carry_spec {h : Fe} (hroom : Room h) : ∃ h', carry h = some h' ∧ Carried h h' := by
  obtain ⟨h0, h1, h2, h3, h4⟩ := h
  simp only [Room, carrying, forall_limbs, radix] at hroom
  unfold carry
  simp only [radix, bind_eq_bind]
  iterate 6 rw [word_bind (by omega) (by omega)]
  refine ⟨_, rfl, ?_⟩
  have hquotient : (Fe.mk h0 h1 h2 h3 h4).value / 2 ^ 255 =
      (h4 + (h3 + (h2 + (h1 + h0 / 2 ^ 51) / 2 ^ 51) / 2 ^ 51) / 2 ^ 51) / 2 ^ 51 := by
    simp only [Fe.value]
    omega
  constructor
  · simp only [Fe.value, folded]
    omega
  · rw [hquotient, mul_comm 19]
    rfl
  · simp only [forall_digits, radix]
    omega

theorem room_of_carry {h h' : Fe} (hfirst : -2 ^ 63 ≤ h.h0 ∧ h.h0 < 2 ^ 63) (hc : carry h = some h') :
    Room h := by
  simp only [carry, word, bind_eq_bind, bind_eq_some_iff, ite_none_right_eq_some] at hc
  obtain ⟨_, ⟨h1, ⟨⟩⟩, _, ⟨h2, ⟨⟩⟩, _, ⟨h3, ⟨⟩⟩, _, ⟨h4, ⟨⟩⟩, -⟩ := hc
  exact forall_limbs.mpr ⟨hfirst, h1, h2, h3, h4⟩

theorem Carried.room {h h' : Fe} (c : Carried h h') (hroom : Room h) : Room h' := by
  obtain ⟨-, hfirst, hdigits⟩ := c
  simp only [Room, carrying, forall_limbs, forall_digits, Fe.value, radix] at *
  omega

/-- The second round never overflows: the first one leaves small limbs. -/
theorem feReduce_spec {h : Fe} (hroom : Room h) :
    ∃ g f, feReduce h = some f ∧ Carried h g ∧ Carried g f := by
  obtain ⟨g, hg, hcarried⟩ := carry_spec hroom
  obtain ⟨f, hf, hcarried'⟩ := carry_spec (hcarried.room hroom)
  exact ⟨g, f, by rw [feReduce, hg]; exact hf, hcarried, hcarried'⟩

/-! Products. -/

/-- Only the whole sum counts: none of its terms is negative. -/
theorem dot_eq_word {sum : Int} (hsum : 0 ≤ sum ∧ sum < 2 ^ 63) {pairs : List (Int × Int)}
    (hpairs : ∀ p ∈ pairs, 0 ≤ p.1 * p.2) :
    dot sum pairs = word (sum + (pairs.map fun p => p.1 * p.2).sum) := by
  induction pairs generalizing sum with
  | nil =>
    rw [map_nil, sum_nil, add_zero, word_of_bounds (by omega) hsum.2]
    rfl
  | cons p rest ih =>
    obtain ⟨hp, hrest⟩ := forall_mem_cons.mp hpairs
    rw [dot, bind_eq_bind, map_cons, sum_cons, ← add_assoc]
    by_cases hlt : sum + p.1 * p.2 < 2 ^ 63
    · rw [word_bind (by omega) (by omega), word_bind (by omega) hlt, ih ⟨by omega, hlt⟩ hrest]
    · have hlater : 0 ≤ (rest.map fun p => p.1 * p.2).sum :=
        sum_nonneg (forall_mem_map.mpr hrest)
      rw [word_eq_none (x := sum + p.1 * p.2 + _) (by omega)]
      by_cases hproduct : p.1 * p.2 < 2 ^ 63
      · rw [word_bind (by omega) hproduct, word_eq_none (by omega), bind_none]
      · rw [word_eq_none (by omega), bind_none]

/-- The columns of the schoolbook product, with what exceeds 255 bits folded back. -/
def columns (a b : Fe) : Fe where
  h0 := a.h0 * b.h0 + 19 * (a.h4 * b.h1 + a.h3 * b.h2 + a.h2 * b.h3 + a.h1 * b.h4)
  h1 := a.h1 * b.h0 + a.h0 * b.h1 + 19 * (a.h4 * b.h2 + a.h3 * b.h3 + a.h2 * b.h4)
  h2 := a.h2 * b.h0 + a.h1 * b.h1 + a.h0 * b.h2 + 19 * (a.h4 * b.h3 + a.h3 * b.h4)
  h3 := a.h3 * b.h0 + a.h2 * b.h1 + a.h1 * b.h2 + a.h0 * b.h3 + 19 * (a.h4 * b.h4)
  h4 := a.h4 * b.h0 + a.h3 * b.h1 + a.h2 * b.h2 + a.h1 * b.h3 + a.h0 * b.h4

theorem columns_value (a b : Fe) : (columns a b).value ≡ a.value * b.value [ZMOD prime] := by
  refine Int.modEq_iff_dvd.mpr ⟨a.h4 * b.h1 + a.h3 * b.h2 + a.h2 * b.h3 + a.h1 * b.h4 +
    2 ^ 51 * (a.h4 * b.h2 + a.h3 * b.h3 + a.h2 * b.h4) + 2 ^ 102 * (a.h4 * b.h3 + a.h3 * b.h4) +
    2 ^ 153 * (a.h4 * b.h4), ?_⟩
  simp only [Fe.value, columns, prime]
  ring

section
variable {a b : Fe} (ha : ∀ x ∈ a.limbs, 0 ≤ x ∧ x < 2 ^ 52) (hb : ∀ y ∈ b.limbs, 0 ≤ y ∧ y < 2 ^ 52)
include ha hb

theorem columns_nonneg : ∀ x ∈ (columns a b).limbs, 0 ≤ x := by
  have hproduct : ∀ x ∈ a.limbs, ∀ y ∈ b.limbs, 0 ≤ x * y :=
    fun x hx y hy => mul_nonneg (ha x hx).1 (hb y hy).1
  simp only [forall_limbs, columns] at hproduct ⊢
  omega

theorem feMul_columns : feMul a b = (do
    let h := columns a b
    feReduce ⟨← word h.h0, ← word h.h1, ← word h.h2, ← word h.h3, ← word h.h4⟩) := by
  have hproduct : ∀ x ∈ a.limbs, ∀ y ∈ b.limbs, 0 ≤ x * y ∧ 0 ≤ x * (19 * y) := fun x hx y hy =>
    ⟨mul_nonneg (ha x hx).1 (hb y hy).1, mul_nonneg (ha x hx).1 (by have := hb y hy; omega)⟩
  simp only [forall_limbs] at hb hproduct
  unfold feMul
  simp only [bind_eq_bind]
  iterate 4 rw [word_bind (by omega) (by omega)]
  iterate 5 rw [dot_eq_word (by decide) (by simp only [forall_mem_cons]; simp [hproduct])]
  simp only [map_cons, map_nil, sum_cons, sum_nil, columns]
  ring_nf

/-- The product exists, and is one of the field, exactly when every column with the carry into it
is below 2^63. -/
theorem feMul_value : (∃ m, feMul a b = some m ∧ m.value ≡ a.value * b.value [ZMOD prime]) ↔
    ∀ x ∈ (carrying (columns a b)).limbs, x < 2 ^ 63 := by
  have hnonneg := columns_nonneg ha hb
  have hvalue := columns_value a b
  rw [feMul_columns ha hb]
  generalize columns a b = h at *
  constructor
  · rintro ⟨m, hm, -⟩
    simp only [word, bind_eq_bind, bind_eq_some_iff, ite_none_right_eq_some] at hm
    obtain ⟨_, ⟨h0, ⟨⟩⟩, _, ⟨-, ⟨⟩⟩, _, ⟨-, ⟨⟩⟩, _, ⟨-, ⟨⟩⟩, _, ⟨-, ⟨⟩⟩, hm⟩ := hm
    obtain ⟨g, hg, -⟩ := bind_eq_some_iff.mp hm
    exact fun x hx => (room_of_carry h0 hg x hx).2
  · intro hlt
    -- a column is at most what it is with the carry, and none is negative
    have hroom : Room h := by
      simp only [Room, carrying, forall_limbs, radix] at hnonneg hlt ⊢
      omega
    have hwords : ∀ x ∈ h.limbs, word x = some x := by
      simp only [carrying, forall_limbs, radix] at hnonneg hlt ⊢
      refine ⟨?_, ?_, ?_, ?_, ?_⟩ <;> exact word_of_bounds (by omega) (by omega)
    obtain ⟨g, m, hm, hg, hcarried⟩ := feReduce_spec hroom
    rw [forall_limbs] at hwords
    refine ⟨m, ?_, ?_⟩
    · simp only [hwords, bind_eq_bind]
      exact hm
    · rw [hcarried.value, hg.value]
      exact ((folded_modEq _).trans (folded_modEq _)).trans hvalue

end

/-- The first column carries into the second. -/
theorem feMul_carrying : ∃ m, feMul ⟨2 ^ 31, 2 ^ 30, 0, 0, 3⟩ ⟨2 ^ 31, 0, 0, 0, 7⟩ = some m ∧
    m.value ≡ (2 ^ 31 + 2 ^ 51 * 2 ^ 30 + 2 ^ 204 * 3) * (2 ^ 31 + 2 ^ 204 * 7) [ZMOD prime] :=
  (feMul_value (by decide) (by decide)).mpr (by decide)

/-- Two limbs of 32 bits are too much already. -/
theorem feMul_overflows : feMul ⟨2 ^ 32, 0, 0, 0, 0⟩ ⟨2 ^ 32, 0, 0, 0, 0⟩ = none := by
  decide

/-! Field elements as strings of 32 bytes (`fe_from_bytes`, `fe_to_bytes`) and the comparison
of points that rests on them. -/

/-- The closure `load` on the bytes from `i` to `j`. -/
def load (s : Bytes 32) (i j : Nat) : Int :=
  let v := leNat ((s.val.drop i).take (j - i))
  if v < 2 ^ 63 then v else v - 2 ^ 64

def feFromBytes (s : Bytes 32) : Fe where
  h0 := load s 0 7 % radix
  h1 := load s 6 13 / 2 ^ 3 % radix
  h2 := load s 12 19 / 2 ^ 6 % radix
  h3 := load s 19 26 / 2 ^ 1 % radix
  h4 := load s 24 32 / 2 ^ 12 % radix

/-- The steps of `fe_to_bytes` behind `fe_reduce`. -/
def canonical (f : Fe) : Option Fe := do
  let t ← word (19 * f.h4)
  let q := (← word (t + 2 ^ 62)) / 2 ^ 63
  let t ← word (19 * q)
  let q := (← word (f.h0 + t)) / radix
  let q := (← word (f.h1 + q)) / radix
  let q := (← word (f.h2 + q)) / radix
  let q := (← word (f.h3 + q)) / radix
  let q := (← word (f.h4 + q)) / radix
  let t ← word (19 * q)
  let h0 ← word (f.h0 + t)
  let h1 ← word (f.h1 + h0 / radix)
  let h2 ← word (f.h2 + h1 / radix)
  let h3 ← word (f.h3 + h2 / radix)
  let h4 ← word (f.h4 + h3 / radix)
  return ⟨h0 % radix, h1 % radix, h2 % radix, h3 % radix, h4 % radix⟩

/-- The cast `as u64`. -/
def unsigned (x : Int) : Nat := (x % 2 ^ 64).toNat

/-- Two parts of 64-bit words in one. -/
def joined (low high shift : Nat) : Nat := low ||| (high <<< shift) % 2 ^ 64

def packed (f : Fe) : List UInt8 :=
  [joined (unsigned f.h0) (unsigned f.h1) 51, joined (unsigned f.h1 >>> 13) (unsigned f.h2) 38,
    joined (unsigned f.h2 >>> 26) (unsigned f.h3) 25,
    joined (unsigned f.h3 >>> 39) (unsigned f.h4) 12].flatMap (leBytes 8)

def feToBytes (h : Fe) : Option (List UInt8) := do return packed (← canonical (← feReduce h))

/-- What `fe_sub` adds, which is four times the prime. -/
def p2 : Fe :=
  ⟨0xFFFFFFFFFFFDA * 2, 0xFFFFFFFFFFFFE * 2, 0xFFFFFFFFFFFFE * 2, 0xFFFFFFFFFFFFE * 2,
    0xFFFFFFFFFFFFE * 2⟩

def feSub (a b : Fe) : Option Fe := do
  return ⟨← word ((← word (a.h0 + p2.h0)) - b.h0), ← word ((← word (a.h1 + p2.h1)) - b.h1),
    ← word ((← word (a.h2 + p2.h2)) - b.h2), ← word ((← word (a.h3 + p2.h3)) - b.h3),
    ← word ((← word (a.h4 + p2.h4)) - b.h4)⟩

structure Point where
  x : Fe
  y : Fe
  z : Fe
  t : Fe

def pointIdentity : Point := ⟨feZero, feOne, feOne, feZero⟩

def pointsEqual (p q : Point) : Option Bool := do
  let lhsX ← feMul p.x q.z
  let rhsX ← feMul q.x p.z
  let lhsY ← feMul p.y q.z
  let rhsY ← feMul q.y p.z
  let dx ← feToBytes (← feSub lhsX rhsX)
  let dy ← feToBytes (← feSub lhsY rhsY)
  return dx.all (· = 0) && dy.all (· = 0)

/-! Reading. -/

theorem leNat_slice (s : List UInt8) (i n : Nat) :
    leNat ((s.drop i).take n) = leNat s / 256 ^ i % 256 ^ n := by
  have hdigits : ∀ d ∈ s.map UInt8.toNat, d < 256 := by
    intro d hd
    obtain ⟨b, -, rfl⟩ := mem_map.mp hd
    exact b.toNat_lt
  unfold leNat
  rw [map_take, map_drop, ofDigits_div_pow_eq_ofDigits_drop i (by decide) _ hdigits,
    ofDigits_mod_pow_eq_ofDigits_take n (by decide) _ fun d hd => hdigits d (mem_of_mem_drop hd)]

/-- The limbs hold all bits but the one of number 152, which no `load` covers. -/
theorem feFromBytes_value {s : Bytes 32} (htop : leNat s.val < 2 ^ 255) :
    (feFromBytes s).value = leNat s.val - 2 ^ 152 * (leNat s.val / 2 ^ 152 % 2 : Nat) := by
  simp only [feFromBytes, load, leNat_slice, Fe.value, radix]
  generalize leNat s.val = n at htop ⊢
  norm_num only
  iterate 5 rw [if_pos (by omega)]
  omega

/-! Writing. -/

def Digits (f : Fe) : Prop := ∀ x ∈ f.limbs, 0 ≤ x ∧ x < radix

/-- Two rounds of carries leave digits: the first one leaves less than two carries behind. -/
theorem feReduce_digits {h : Fe} (hlimbs : ∀ x ∈ h.limbs, -2 ^ 53 < x ∧ x < 2 ^ 53) :
    ∃ f, feReduce h = some f ∧ Digits f ∧ f.value = folded (folded h.value) := by
  have hroom : Room h := by
    simp only [Room, carrying, forall_limbs, radix] at hlimbs ⊢
    omega
  obtain ⟨g, f, hf, hcarried, hcarried'⟩ := feReduce_spec hroom
  refine ⟨f, hf, ?_, by rw [hcarried'.value, hcarried.value]⟩
  obtain ⟨-, hg0, hgdigits⟩ := hcarried
  obtain ⟨-, hf0, hfdigits⟩ := hcarried'
  simp only [Digits, forall_limbs, forall_digits, Fe.value, radix] at *
  omega

theorem canonical_of_digits {f : Fe} (hf : Digits f) : canonical f = some f := by
  obtain ⟨f0, f1, f2, f3, f4⟩ := f
  simp only [Digits, forall_limbs, radix] at hf
  have hdigit : ∀ x : Int, 0 ≤ x ∧ x < 2 ^ 51 → word x = some x ∧ x / 2 ^ 51 = 0 ∧ x % 2 ^ 51 = x := by
    intro x hx
    exact ⟨word_of_bounds (by omega) (by omega), by omega, by omega⟩
  have hguess : (19 * f4 + 2 ^ 62) / 2 ^ 63 = 0 := by omega
  have hzero : word 0 = some 0 := rfl
  unfold canonical
  simp only [bind_eq_bind]
  iterate 2 rw [word_bind (by omega) (by omega)]
  simp only [bind_some, hguess, hzero, mul_zero, add_zero, radix, hdigit _ hf.1, hdigit _ hf.2.1,
    hdigit _ hf.2.2.1, hdigit _ hf.2.2.2.1, hdigit _ hf.2.2.2.2]
  rfl

theorem joined_eq {low high shift : Nat} (hlow : low < 2 ^ shift) (hshift : shift ≤ 64) :
    joined low high shift = low + 2 ^ shift * (high % 2 ^ (64 - shift)) := by
  have hmod : (high <<< shift) % 2 ^ 64 = (high % 2 ^ (64 - shift)) <<< shift := by
    rw [Nat.shiftLeft_eq, Nat.shiftLeft_eq, ← Nat.mul_mod_mul_right, ← pow_add, Nat.sub_add_cancel hshift]
  rw [joined, hmod, Nat.or_comm, ← Nat.shiftLeft_add_eq_or_of_lt hlow, Nat.shiftLeft_eq, mul_comm, add_comm]

theorem leNat_append (a b : List UInt8) : leNat (a ++ b) = leNat a + 256 ^ a.length * leNat b := by
  rw [leNat, map_append, ofDigits_append, length_map]
  rfl

theorem packed_of_digits {f : Fe} (hf : Digits f) : packed f = leBytes 32 f.value.toNat := by
  have hunsigned : ∀ x, 0 ≤ x ∧ x < radix → unsigned x = x.toNat := fun x hx => by
    rw [unsigned, Int.emod_eq_of_lt hx.1 (hx.2.trans (by decide))]
  obtain ⟨f0, f1, f2, f3, f4⟩ := f
  obtain ⟨h0, h1, h2, h3, h4⟩ := forall_limbs.mp hf
  have hlength : (packed ⟨f0, f1, f2, f3, f4⟩).length = 32 := by simp [packed]
  have hvalue : leNat (packed ⟨f0, f1, f2, f3, f4⟩) = (Fe.value ⟨f0, f1, f2, f3, f4⟩).toNat := by
    simp only [packed, hunsigned _ h0, hunsigned _ h1, hunsigned _ h2, hunsigned _ h3, hunsigned _ h4,
      shiftRight_eq_div_pow, flatMap_cons, flatMap_nil, append_nil, leNat_append,
      length_leBytes]
    simp only [radix, Fe.value] at *
    rw [joined_eq (by omega) (by decide), joined_eq (by omega) (by decide), joined_eq (by omega) (by decide),
      joined_eq (by omega) (by decide)]
    norm_num only
    iterate 4 rw [leNat_leBytes (by omega)]
    omega
  rw [← hvalue, ← hlength, leBytes_leNat]

theorem feToBytes_eq {h : Fe} (hlimbs : ∀ x ∈ h.limbs, -2 ^ 53 < x ∧ x < 2 ^ 53) :
    0 ≤ folded (folded h.value) ∧ folded (folded h.value) < 2 ^ 255 ∧
      feToBytes h = some (leBytes 32 (folded (folded h.value)).toNat) := by
  obtain ⟨f, hf, hdigits, hvalue⟩ := feReduce_digits hlimbs
  rw [← hvalue, feToBytes, hf, bind_eq_bind, bind_some, canonical_of_digits hdigits, bind_some,
    packed_of_digits hdigits]
  simp only [Digits, forall_limbs, radix, Fe.value] at hdigits ⊢
  exact ⟨by omega, by omega, rfl⟩

theorem feToBytes_iff {h : Fe} (hlimbs : ∀ x ∈ h.limbs, -2 ^ 53 < x ∧ x < 2 ^ 53) :
    feToBytes h = some (leBytes 32 (h.value % prime).toNat) ↔
      ¬(prime ≤ folded h.value ∧ folded h.value < 2 ^ 255) := by
  obtain ⟨hnonneg, hlt, heq⟩ := feToBytes_eq hlimbs
  have hinjective : feToBytes h = some (leBytes 32 (h.value % prime).toNat) ↔
      folded (folded h.value) = h.value % prime := by
    rw [heq, some_inj]
    refine ⟨fun hbytes => ?_, fun hvalue => by rw [hvalue]⟩
    have hvalue := congrArg leNat hbytes
    unfold prime at *
    rw [leNat_leBytes (by omega), leNat_leBytes (by omega)] at hvalue
    omega
  rw [hinjective]
  simp only [forall_limbs, folded, Fe.value, prime] at *
  omega

theorem feToBytes_p2 : feToBytes p2 = some (leBytes 32 prime.toNat) := by
  decide +kernel

theorem feSub_self_of_some {a d : Fe} (h : feSub a a = some d) : d = p2 := by
  simp only [feSub, word, bind_eq_bind, bind_eq_some_iff, ite_none_right_eq_some] at h
  obtain ⟨_, ⟨-, ⟨⟩⟩, _, ⟨-, ⟨⟩⟩, _, ⟨-, ⟨⟩⟩, _, ⟨-, ⟨⟩⟩, _, ⟨-, ⟨⟩⟩,
    _, ⟨-, ⟨⟩⟩, _, ⟨-, ⟨⟩⟩, _, ⟨-, ⟨⟩⟩, _, ⟨-, ⟨⟩⟩, _, ⟨-, ⟨⟩⟩, ⟨⟩⟩ := h
  simp only [add_sub_cancel_left]

theorem feSub_self {a : Fe} (hlimbs : ∀ x ∈ a.limbs, -2 ^ 53 < x ∧ x < 2 ^ 53) :
    feSub a a = some p2 := by
  rw [forall_limbs] at hlimbs
  simp only [feSub, p2, bind_eq_bind]
  iterate 10 rw [word_bind (by omega) (by omega)]
  simp only [add_sub_cancel_left]
  rfl

/-- The two differences are those of equal products, whatever the point. -/
theorem pointsEqual_self (p : Point) : pointsEqual p p ≠ some true := by
  intro h
  simp only [pointsEqual, bind_eq_bind, bind_eq_some_iff] at h
  obtain ⟨m, hm, m', hm', _, -, _, -, d, hd, bs, hbs, _, -, _, -, heq⟩ := h
  cases hm.symm.trans hm'
  cases feSub_self_of_some hd
  cases feToBytes_p2.symm.trans hbs
  injection heq with heq
  exact absurd (Bool.and_eq_true_iff.mp heq).1 (by decide)

/-- A string is read right exactly when its bit 152 is clear. An element is written right exactly
when folding its value once does not leave the prime or one of the 18 numbers behind it. The
difference of equal elements does leave the prime, so no point is equal to itself. -/
theorem field_encoding (s : Bytes 32) (h : Fe) (p : Point) :
    (leNat s.val < 2 ^ 255 →
      ((feFromBytes s).value = leNat s.val ↔ leNat s.val / 2 ^ 152 % 2 = 0)) ∧
    ((∀ x ∈ h.limbs, -2 ^ 53 < x ∧ x < 2 ^ 53) →
      (feToBytes h = some (leBytes 32 (h.value % prime).toNat) ↔
        ¬(prime ≤ folded h.value ∧ folded h.value < 2 ^ 255)) ∧
      (do feToBytes (← feSub h h)) = some (leBytes 32 prime.toNat)) ∧
    pointsEqual p p ≠ some true := by
  refine ⟨fun htop => ?_, fun hlimbs => ⟨feToBytes_iff hlimbs, ?_⟩, pointsEqual_self p⟩
  · rw [feFromBytes_value htop]
    omega
  · rw [feSub_self hlimbs]
    exact feToBytes_p2

/-- The bits beside the lost one, and a residue below 19. -/
theorem field_encoding_beside :
    (feFromBytes (.ofList 32 (leBytes 32 (2 ^ 151 + 2 ^ 153)))).value = 2 ^ 151 + 2 ^ 153 ∧
      feToBytes ⟨18, 0, 0, 0, 0⟩ = some (leBytes 32 18) :=
  have h := field_encoding _ ⟨18, 0, 0, 0, 0⟩ pointIdentity
  ⟨(h.1 (by decide +kernel)).mpr (by decide +kernel), (h.2.1 (by decide)).1.mpr (by decide)⟩

/-- The number 2^152 is read as zero, the difference of equal elements is written as the
prime, and a point is not equal to itself. -/
theorem bit_dropped_and_zero_not_written :
    (feFromBytes (.ofList 32 (leBytes 32 (2 ^ 152)))).value = 0 ∧
      (do feToBytes (← feSub feZero feZero)) = some (leBytes 32 prime.toNat) ∧
      pointsEqual pointIdentity pointIdentity = some false := by
  decide +kernel

/-! Powers, sums and multiples in `security/src/secure_boot.rs`, over exact operations. -/
open Function

section
variable {M : Type*}

def feSq [Mul M] (a : M) : M := a * a

def fePow22523 [Mul M] (z : M) : M :=
  let t0 := feSq z
  let t1 := feSq t0
  let t1 := feSq t1
  let t1 := t1 * z
  let t0 := t0 * t1
  let t0 := feSq t0
  let t0 := t0 * t1
  let t1 := feSq^[4] (feSq t0)
  let t0 := t1 * t0
  let t1 := feSq^[9] (feSq t0)
  let t1 := t1 * t0
  let t2 := feSq^[19] (feSq t1)
  let t1 := t2 * t1
  let t1 := feSq^[9] (feSq t1)
  let t0 := t1 * t0
  let t1 := feSq^[49] (feSq t0)
  let t1 := t1 * t0
  let t2 := feSq^[99] (feSq t1)
  let t1 := t2 * t1
  let t1 := feSq^[49] (feSq t1)
  let t0 := t1 * t0
  let t0 := feSq t0
  let t0 := feSq t0
  t0 * z

variable [CommMonoid M] (z : M)

theorem feSq_pow (k : Nat) : feSq (z ^ k) = z ^ (2 * k) := by
  rw [feSq, ← pow_add, two_mul]

theorem feSq_iterate (n k : Nat) : feSq^[n] (z ^ k) = z ^ (2 ^ n * k) := by
  induction n generalizing k with
  | zero => rw [iterate_zero_apply, pow_zero, one_mul]
  | succ n ih => rw [iterate_succ_apply, feSq_pow, ih, pow_succ, mul_assoc]

theorem fePow22523_eq : fePow22523 z = z ^ (2 ^ 252 - 3) := by
  have hone : fePow22523 z = fePow22523 (z ^ 1) := by rw [pow_one]
  rw [hone]
  simp only [fePow22523, feSq_pow, feSq_iterate, ← pow_add]
  norm_num

end

/-! Multiples. -/

/-- One limb of `fe_cswap`. -/
def cswapLimb (swap f g : Int) : Int × Int :=
  let t := swap.land (f.xor g)
  (f.xor t, g.xor t)

def feCswap (f g : Fe) (swap : Int) : Fe × Fe :=
  let c0 := cswapLimb swap f.h0 g.h0
  let c1 := cswapLimb swap f.h1 g.h1
  let c2 := cswapLimb swap f.h2 g.h2
  let c3 := cswapLimb swap f.h3 g.h3
  let c4 := cswapLimb swap f.h4 g.h4
  (⟨c0.1, c1.1, c2.1, c3.1, c4.1⟩, ⟨c0.2, c1.2, c2.2, c3.2, c4.2⟩)

/-- The conditional swap of `scalar_mult`. -/
def cswapPoints (q r : Point) (swap : Int) : Point × Point :=
  let x := feCswap q.x r.x swap
  let y := feCswap q.y r.y swap
  let z := feCswap q.z r.z swap
  let t := feCswap q.t r.t swap
  (⟨x.1, y.1, z.1, t.1⟩, ⟨x.2, y.2, z.2, t.2⟩)

def scalarBit (scalar : Bytes 32) (i : Nat) : Nat :=
  (scalar.val.getD (i / 8) 0).toNat >>> (i % 8) &&& 1

section
variable (add : Point → Point → Point) (scalar : Bytes 32)

/-- The loop of `scalar_mult` from index `i - 1` down to 0. -/
def scalarLoop : Nat → Point × Point → Point × Point
  | 0, qr => qr
  | i + 1, (q, r) =>
    let (q, r) := cswapPoints q r (-scalarBit scalar i)
    scalarLoop i (cswapPoints (add q q) (add q r) (-scalarBit scalar i))

def scalarMult (point : Point) : Point := (scalarLoop add scalar 256 (pointIdentity, point)).1

end

theorem land_zero (x : Int) : Int.land 0 x = 0 := by
  cases x with
  | ofNat n => exact congrArg Int.ofNat (Nat.zero_and n)
  | negSucc n => exact congrArg Int.ofNat (Nat.eq_of_testBit_eq fun i => by simp)

theorem land_neg_one (x : Int) : Int.land (-1) x = x := by
  cases x with
  | ofNat n => exact congrArg Int.ofNat (Nat.eq_of_testBit_eq fun i => by simp)
  | negSucc n => exact congrArg Int.negSucc (Nat.zero_or n)

theorem cswapLimb_zero (f g : Int) : cswapLimb 0 f g = (f, g) := by
  rw [cswapLimb, land_zero]
  cases f <;> cases g <;> simp [Int.xor]

theorem cswapLimb_neg_one (f g : Int) : cswapLimb (-1) f g = (g, f) := by
  rw [cswapLimb, land_neg_one]
  cases f <;> cases g <;> simp [Int.xor] <;> rw [Nat.xor_left_comm, Nat.xor_self, Nat.xor_zero]

theorem cswapPoints_zero (q r : Point) : cswapPoints q r 0 = (q, r) := by
  simp only [cswapPoints, feCswap, cswapLimb_zero]

theorem cswapPoints_neg_one (q r : Point) : cswapPoints q r (-1) = (r, q) := by
  simp only [cswapPoints, feCswap, cswapLimb_neg_one]

theorem scalarBit_eq (scalar : Bytes 32) {i : Nat} (hi : i < 256) :
    scalarBit scalar i = leNat scalar.val / 2 ^ i % 2 := by
  have hbyte : (scalar.val.getD (i / 8) 0).toNat = leNat scalar.val / 256 ^ (i / 8) % 256 := by
    have hlt : i / 8 < scalar.val.length := by
      rw [scalar.2]
      omega
    have hslice := leNat_slice scalar.val (i / 8) 1
    rw [drop_eq_getElem_cons hlt, take_succ_cons, take_zero, leNat_cons] at hslice
    rw [getD_eq_getElem _ _ hlt]
    exact hslice
  have hsplit : 2 ^ i = 256 ^ (i / 8) * 2 ^ (i % 8) := by
    rw [show 256 = 2 ^ 8 from rfl, ← pow_mul, ← pow_add, Nat.div_add_mod]
  rw [scalarBit, hbyte, Nat.and_one_is_mod, Nat.shiftRight_eq_div_pow, hsplit,
    ← Nat.div_div_eq_div_mul]
  have hr : i % 8 < 8 := Nat.mod_lt _ (by decide)
  generalize leNat scalar.val / 256 ^ (i / 8) = n
  interval_cases i % 8 <;> omega

section
variable {G : Type*} [AddCommGroup G] {add : Point → Point → Point} {f : Point → G}
  (hadd : ∀ p q, f (add p q) = f p + f q)
include hadd

/-- With the bits from `i` on done, `q` is that multiple of the point and `r` the next one. -/
theorem scalarLoop_spec (scalar : Bytes 32) (g : G) (i : Nat) (hi : i ≤ 256) {q r : Point}
    (hq : f q = (leNat scalar.val / 2 ^ i) • g) (hr : f r = (leNat scalar.val / 2 ^ i + 1) • g) :
    f (scalarLoop add scalar i (q, r)).1 = leNat scalar.val • g := by
  induction i generalizing q r with
  | zero => rwa [pow_zero, Nat.div_one] at hq
  | succ i ih =>
    rw [pow_succ, ← Nat.div_div_eq_div_mul] at hq hr
    have hnext := fun q r => ih (q := q) (r := r) (Nat.le_of_lt hi)
    rw [scalarLoop, scalarBit_eq scalar hi]
    generalize leNat scalar.val / 2 ^ i = n at hq hr hnext
    rcases Nat.mod_two_eq_zero_or_one n with hbit | hbit <;> rw [hbit]
    · simp only [Nat.cast_zero, neg_zero, cswapPoints_zero]
      apply hnext
      · rw [hadd, hq, ← add_nsmul]
        congr 1
        omega
      · rw [hadd, hq, hr, ← add_nsmul]
        congr 1
        omega
    · simp only [Nat.cast_one, cswapPoints_neg_one]
      apply hnext
      · rw [hadd, hq, hr, ← add_nsmul]
        congr 1
        omega
      · rw [hadd, hr, ← add_nsmul]
        congr 1
        omega

end

/-- The swaps exchange the points or keep them. With any reading of points in a commutative group
that turns `point_add` into its sum, `scalar_mult` is the multiple. -/
theorem scalarMult_eq {G : Type*} [AddCommGroup G] (add : Point → Point → Point) (f : Point → G)
    (hadd : ∀ p q, f (add p q) = f p + f q) (hid : f pointIdentity = 0) :
    (∀ q r, cswapPoints q r 0 = (q, r) ∧ cswapPoints q r (-1) = (r, q)) ∧
    ∀ (scalar : Bytes 32) (point : Point),
      f (scalarMult add scalar point) = leNat scalar.val • f point := by
  refine ⟨fun q r => ⟨cswapPoints_zero q r, cswapPoints_neg_one q r⟩, fun scalar point => ?_⟩
  have hzero : leNat scalar.val / 2 ^ 256 = 0 := by
    have hlt := leNat_lt scalar.val
    rw [scalar.2] at hlt
    exact Nat.div_eq_of_lt hlt
  apply scalarLoop_spec hadd scalar (f point) 256 le_rfl
  · rw [hid, hzero, zero_nsmul]
  · rw [hzero, one_nsmul]

/-- The first limb, under an addition of first limbs. -/
theorem scalarMult_three :
    (scalarMult (fun p q => ⟨⟨p.x.h0 + q.x.h0, 0, 0, 0, 0⟩, feOne, feOne, feZero⟩) (.ofList 32 [3])
      ⟨⟨7, 0, 0, 0, 0⟩, feOne, feOne, feZero⟩).x.h0 = 3 • 7 :=
  (scalarMult_eq _ (fun p => p.x.h0) (fun _ _ => rfl) rfl).2 _ _

/-! Sums. -/

/-- A point in extended coordinates. -/
@[ext]
structure Extended (K : Type*) where
  x : K
  y : K
  z : K
  t : K

/-- `point_add` with exact operations; `d` is `d_const()`. -/
def pointAdd {K : Type*} [CommRing K] (d : K) (p q : Extended K) : Extended K :=
  let a := (p.y - p.x) * (q.y - q.x)
  let b := (p.y + p.x) * (q.y + q.x)
  let c := p.t * (q.t * (d + d))
  let dd := p.z * (q.z * (1 + 1))
  let e := b - a
  let f := dd - c
  let g := dd + c
  let h := b + a
  ⟨e * f, g * h, f * g, e * h⟩

section
variable {K : Type*} [Field K]

def OnCurve (d : K) (a : K × K) : Prop := -a.1 ^ 2 + a.2 ^ 2 = 1 + d * a.1 ^ 2 * a.2 ^ 2

def cross (d : K) (a b : K × K) : K := d * a.1 * b.1 * a.2 * b.2

/-- The sum of two points of the twisted Edwards curve. -/
def edwardsSum (d : K) (a b : K × K) : K × K :=
  ((a.1 * b.2 + a.2 * b.1) / (1 + cross d a b), (a.2 * b.2 + a.1 * b.1) / (1 - cross d a b))

def Extended.affine (p : Extended K) : K × K := (p.x / p.z, p.y / p.z)

structure Valid (d : K) (p : Extended K) : Prop where
  z : p.z ≠ 0
  t : p.x * p.y = p.z * p.t
  curve : OnCurve d p.affine

variable {d i e z w : K} {a b : K × K}

theorem isSquare_of_sq_eq {r s : K} (hs : s ≠ 0) (h : r ^ 2 = d * s ^ 2) : IsSquare d := by
  refine ⟨r / s, ?_⟩
  field_simp
  exact h.symm

section
variable (ha : OnCurve d a) (hb : OnCurve d b)
include ha hb

/-- Otherwise `d` is a square. -/
theorem OnCurve.cross_ne (hi : i ^ 2 = -1) (htwo : (2 : K) ≠ 0) (hd : ¬IsSquare d)
    (hsq : e ^ 2 = 1) : cross d a b ≠ e := by
  intro he
  have hne : cross d a b ≠ 0 := by
    rw [he]
    rintro rfl
    simp at hsq
  simp only [cross, mul_ne_zero_iff] at hne
  obtain ⟨⟨⟨⟨-, hx⟩, -⟩, hy⟩, hy'⟩ := hne
  rw [OnCurve] at ha hb
  rw [cross] at he
  have hroot (s : K) (hs : s ^ 2 = 1) : i * b.1 + s * b.2 = 0 := by
    by_contra hne
    have hne := mul_ne_zero (mul_ne_zero hx hy) hne
    refine hd (isSquare_of_sq_eq (r := i * a.1 + s * e * a.2) hne ?_)
    linear_combination (a.1 ^ 2 - d * a.1 ^ 2 * a.2 ^ 2 * b.1 ^ 2) * hi + (a.2 ^ 2 - 1) * hsq + ha -
      d * a.1 ^ 2 * a.2 ^ 2 * hb - (2 * s * i * a.1 * a.2 + d * a.1 * b.1 * a.2 * b.2 + e) * he +
      (e ^ 2 * a.2 ^ 2 - d * a.1 ^ 2 * a.2 ^ 2 * b.2 ^ 2) * hs
  apply mul_ne_zero htwo hy'
  linear_combination hroot 1 (one_pow 2) - hroot (-1) neg_one_sq

theorem OnCurve.sum (hplus : 1 + cross d a b ≠ 0) (hminus : 1 - cross d a b ≠ 0) :
    OnCurve d (edwardsSum d a b) := by
  have hsum : -(a.1 * b.2 + a.2 * b.1) ^ 2 * (1 - cross d a b) ^ 2 +
      (a.2 * b.2 + a.1 * b.1) ^ 2 * (1 + cross d a b) ^ 2 =
        (1 + cross d a b) ^ 2 * (1 - cross d a b) ^ 2 +
          d * (a.1 * b.2 + a.2 * b.1) ^ 2 * (a.2 * b.2 + a.1 * b.1) ^ 2 := by
    rw [OnCurve] at ha hb
    rw [cross]
    grind
  rw [OnCurve, edwardsSum]
  field_simp
  linear_combination hsum

end

def ofAffine (a : K × K) (z : K) : Extended K := ⟨a.1 * z, a.2 * z, z, a.1 * a.2 * z⟩

theorem affine_ofAffine (hz : z ≠ 0) : (ofAffine a z).affine = a := by
  rw [Extended.affine, ofAffine, mul_div_cancel_right₀ _ hz, mul_div_cancel_right₀ _ hz]

theorem OnCurve.valid (ha : OnCurve d a) (hz : z ≠ 0) : Valid d (ofAffine a z) := by
  refine ⟨hz, ?_, (affine_ofAffine hz).symm ▸ ha⟩
  simp only [ofAffine]
  ring

theorem Valid.eq_ofAffine {p : Extended K} (h : Valid d p) : p = ofAffine p.affine p.z := by
  obtain ⟨hz, ht, -⟩ := h
  ext <;> simp only [ofAffine, Extended.affine] <;> field_simp
  linear_combination -ht

theorem pointAdd_ofAffine (hplus : 1 + cross d a b ≠ 0) (hminus : 1 - cross d a b ≠ 0) :
    pointAdd d (ofAffine a z) (ofAffine b w) = ofAffine (edwardsSum d a b)
      ((2 * z * w) ^ 2 * ((1 + cross d a b) * (1 - cross d a b))) := by
  ext <;> simp only [pointAdd, ofAffine, edwardsSum]
  · field_simp
    rw [cross]
    ring
  · field_simp
    rw [cross]
    ring
  · rw [cross]
    ring
  · field_simp
    ring

end

/-- In a field of `p` elements, `p` being 1 modulo 4 as `2 ^ 255 - 19` is, with `d` not a square,
`point_add` gives the sum of any two points. -/
theorem pointAdd_edwardsSum (p : Nat) [Fact p.Prime] (hp : p % 4 = 1) (d : ZMod p)
    (hd : ¬IsSquare d) (P Q : Extended (ZMod p)) (hP : Valid d P) (hQ : Valid d Q) :
    1 + cross d P.affine Q.affine ≠ 0 ∧ 1 - cross d P.affine Q.affine ≠ 0 ∧
    Valid d (pointAdd d P Q) ∧ (pointAdd d P Q).affine = edwardsSum d P.affine Q.affine := by
  obtain ⟨i, hi⟩ := ZMod.exists_sq_eq_neg_one_iff.mpr (show p % 4 ≠ 3 by omega)
  have htwo : (2 : ZMod p) ≠ 0 := by
    intro h
    have hle := Nat.le_of_dvd two_pos ((ZMod.natCast_eq_zero_iff 2 p).mp h)
    have := (Fact.out : p.Prime).two_le
    omega
  have hne := fun e => hP.curve.cross_ne (e := e) hQ.curve (hi.trans (sq i).symm).symm htwo hd
  have hplus : 1 + cross d P.affine Q.affine ≠ 0 := fun h =>
    hne (-1) neg_one_sq (eq_neg_of_add_eq_zero_right h)
  have hminus : 1 - cross d P.affine Q.affine ≠ 0 := fun h =>
    hne 1 (one_pow 2) (sub_eq_zero.mp h).symm
  have hadd := pointAdd_ofAffine (z := P.z) (w := Q.z) hplus hminus
  rw [← hP.eq_ofAffine, ← hQ.eq_ofAffine] at hadd
  have hz := mul_ne_zero (pow_ne_zero 2 (mul_ne_zero (mul_ne_zero htwo hP.z) hQ.z))
    (mul_ne_zero hplus hminus)
  rw [hadd, affine_ofAffine hz]
  exact ⟨hplus, hminus, (hP.curve.sum hQ.curve hplus hminus).valid hz, rfl⟩

instance prime_thirteen : Fact (Nat.Prime 13) := ⟨by decide⟩

theorem pointAdd_thirteen : Valid (2 : ZMod 13) ⟨2, 4, 1, 8⟩ ∧
    (pointAdd (2 : ZMod 13) ⟨2, 4, 1, 8⟩ ⟨2, 4, 1, 8⟩).affine = edwardsSum 2 (2, 4) (2, 4) := by
  have haffine : (⟨2, 4, 1, 8⟩ : Extended (ZMod 13)).affine = (2, 4) := by decide +kernel
  have hvalid : Valid (2 : ZMod 13) ⟨2, 4, 1, 8⟩ := by
    refine ⟨by decide, by decide, ?_⟩
    rw [haffine, OnCurve]
    decide
  have hsum := (pointAdd_edwardsSum 13 rfl 2 (by decide) _ _ hvalid hvalid).2.2.2
  rw [haffine] at hsum
  exact ⟨hvalid, hsum⟩

end AegisOS.SecureBoot
