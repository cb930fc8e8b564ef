import AegisOS.Heap
import AegisOS.Lib.Tiling
import Mathlib.Data.List.Chain

/-! The block list of the kernel heap as a tiling of its region, and what `kmalloc` and `kfree`
do to it. -/
namespace AegisOS.Heap
open Tiling List Option

def Block.span (b : Block) : Nat := headerSize + b.size

/-- The blocks lie end to end from `a` to `e`. -/
def Covers (a : Nat) (l : List Block) (e : Nat) : Prop := Tiles Block.addr Block.span a l e

def Coalesced (l : List Block) : Prop := l.IsChain fun b c => ¬(b.free = true ∧ c.free = true)

structure WellFormed (base limit : Nat) (l : List Block) : Prop where
  covers : Covers base l limit
  coalesced : Coalesced l
  aligned : ∀ b ∈ l, b.addr % 8 = 0

variable {base limit a e : Nat} {l l' : List Block} {b c : Block}

theorem span_pos (b : Block) : 0 < b.span := by
  rw [Block.span, headerSize]
  omega

section
variable (h : Covers a l e) (hb : b ∈ l)
include h hb

theorem Covers.inj (hc : c ∈ l) (heq : b.addr = c.addr) : b = c :=
  Tiles.inj h (fun d _ => span_pos d) hb hc heq

theorem Covers.within : a ≤ b.addr ∧ b.addr + headerSize + b.size ≤ e := by
  have := Tiles.within h hb
  rw [Block.span] at this
  omega

theorem Covers.apart (hc : c ∈ l) (hne : b ≠ c) :
    b.addr + headerSize + b.size ≤ c.addr ∨ c.addr + headerSize + c.size ≤ b.addr := by
  have := Tiles.apart h hb hc hne
  rw [Block.span, Block.span] at this
  omega

end

theorem Covers.length_le (h : Covers a l e) : a + l.length ≤ e :=
  Tiles.length_le h fun d _ => span_pos d

theorem wellFormed_init (hsize : headerSize ≤ limit) (haligned : base % 8 = 0) :
    WellFormed base (base + limit) (heapInit base limit) := by
  refine ⟨⟨rfl, ?_⟩, isChain_singleton _, ?_⟩
  · simp only [Tiles, Block.span]
    omega
  · simpa [heapInit] using haligned

/-! Allocation. -/

/-- What `kmalloc` makes of the free block it takes. -/
def taken (b : Block) (size : Nat) : List Block :=
  if (size + headerSize + 8) % 2 ^ 64 ≤ b.size then
    [⟨b.addr, size, false⟩, ⟨b.addr + headerSize + size, b.size - size - headerSize, true⟩]
  else [⟨b.addr, b.size, false⟩]

variable {size ptr : Nat} {rest : List Block}

theorem allocFrom_cases (h : allocFrom size l = some (l', ptr)) :
    ∃ front b rest, l = front ++ b :: rest ∧ b.free = true ∧ size ≤ b.size ∧
      ptr = b.addr + headerSize ∧ l' = front ++ (taken b size ++ rest) := by
  induction l generalizing l' with
  | nil => cases h
  | cons b rest ih =>
    simp only [allocFrom] at h
    split at h
    next hfits =>
      refine ⟨[], b, rest, rfl, hfits.1, hfits.2, ?_⟩
      split at h
      next hsplit =>
        simp only [some.injEq, Prod.mk.injEq] at h
        exact ⟨h.2.symm, by rw [← h.1, taken, if_pos hsplit]; rfl⟩
      next hsplit =>
        simp only [some.injEq, Prod.mk.injEq] at h
        exact ⟨h.2.symm, by rw [← h.1, taken, if_neg hsplit]; rfl⟩
    · simp only [map_eq_some_iff] at h
      obtain ⟨⟨found, q⟩, hfound, heq⟩ := h
      obtain ⟨rfl, rfl⟩ := heq
      obtain ⟨front, c, tail, rfl, hfree, hsize, hptr, rfl⟩ := ih hfound
      exact ⟨b :: front, c, tail, rfl, hfree, hsize, hptr, rfl⟩

theorem taken_granted (hsize : size ≤ b.size) :
    ∃ c ∈ taken b size, c.free = false ∧ c.addr = b.addr ∧ size ≤ c.size := by
  unfold taken
  split
  · exact ⟨_, mem_cons_self, rfl, rfl, Nat.le_refl _⟩
  · exact ⟨_, mem_cons_self, rfl, rfl, hsize⟩

theorem taken_covers (hsize : size + headerSize + 8 < 2 ^ 64)
    (h : Covers a (b :: rest) e) : Covers a (taken b size ++ rest) e := by
  unfold taken
  split
  · refine ⟨h.1, ?_, ?_⟩
    · have := h.1
      simp only [Block.span]
      omega
    have hend : a + Block.span b = a + Block.span ⟨b.addr, size, false⟩ + Block.span
        ⟨b.addr + headerSize + size, b.size - size - headerSize, true⟩ := by
      simp only [Block.span]
      omega
    rw [← hend]
    exact h.2
  · exact h

theorem taken_coalesced (hfree : b.free = true) {front : List Block}
    (h : Coalesced (front ++ b :: rest)) : Coalesced (front ++ (taken b size ++ rest)) := by
  obtain ⟨hfront, hrest, -⟩ := isChain_append.mp h
  have htail : Coalesced (taken b size ++ rest) := by
    unfold taken
    split
    · refine IsChain.cons_cons (by simp) ?_
      cases hrest with
      | singleton => exact isChain_singleton _
      | cons_cons hnext htail => exact IsChain.cons_cons (by simpa [hfree] using hnext) htail
    · cases hrest with
      | singleton => exact isChain_singleton _
      | cons_cons hnext htail => exact IsChain.cons_cons (by simp) htail
  refine isChain_append.mpr ⟨hfront, htail, fun x _ y hy => ?_⟩
  have hbusy : y.free = false := by
    unfold taken at hy
    split at hy
    all_goals
      simp only [cons_append, head?_cons, mem_some_iff] at hy
      rw [← hy]
  simp [hbusy]

theorem taken_aligned (hsize : size % 8 = 0) (hb : b.addr % 8 = 0) :
    ∀ c ∈ taken b size, c.addr % 8 = 0 := by
  intro c hc
  unfold taken at hc
  split at hc <;> simp only [mem_cons, not_mem_nil, or_false] at hc
  · cases hc with
    | inl heq => rw [heq]; exact hb
    | inr heq =>
      rw [heq]
      simp only [headerSize]
      omega
  · rw [hc]
    exact hb

theorem allocFrom_wellFormed (hsize : size + headerSize + 8 < 2 ^ 64)
    (haligned : size % 8 = 0) (h : WellFormed base limit l)
    (ha : allocFrom size l = some (l', ptr)) : WellFormed base limit l' := by
  obtain ⟨front, b, rest, rfl, hfree, -, -, rfl⟩ := allocFrom_cases ha
  obtain ⟨m, hfront, hrest⟩ := tiles_append.mp h.covers
  refine ⟨tiles_append.mpr ⟨m, hfront, taken_covers hsize hrest⟩,
    taken_coalesced hfree h.coalesced, fun c hc => ?_⟩
  have hb : b.addr % 8 = 0 := h.aligned b (by simp)
  simp only [mem_append] at hc
  rcases hc with hc | hc | hc
  · exact h.aligned c (by simp [hc])
  · exact taken_aligned haligned hb c hc
  · exact h.aligned c (by simp [hc])

theorem allocFrom_busy (ha : allocFrom size l = some (l', ptr)) (hc : c ∈ l)
    (hbusy : c.free = false) : c ∈ l' := by
  obtain ⟨front, b, rest, rfl, hfree, -, -, rfl⟩ := allocFrom_cases ha
  have hne : c ≠ b := by
    rintro rfl
    rw [hfree] at hbusy
    cases hbusy
  simp only [mem_append, mem_cons, hne, false_or] at hc ⊢
  exact hc.imp_right Or.inr

theorem align8_spec {n : Nat} (h : n + 39 < 2 ^ 64) :
    n ≤ align8 n ∧ align8 n % 8 = 0 ∧ align8 n + headerSize + 8 < 2 ^ 64 := by
  rw [align8, headerSize]
  omega

/-! Release. -/

theorem release_covers (ptr : Nat) (h : Covers a l e) : Covers a (l.map (release ptr)) e := by
  induction l generalizing a with
  | nil => exact h
  | cons b rest ih =>
    have hspan : (release ptr b).span = b.span := by simp [Block.span]
    refine ⟨by simpa using h.1, ?_⟩
    rw [hspan]
    exact ih h.2

theorem coalesceFrom_covers (h : Covers a (b :: rest) e) : Covers a (coalesceFrom b rest) e := by
  induction rest generalizing a b with
  | nil => exact h
  | cons c rest ih =>
    simp only [coalesceFrom]
    split
    · refine ih ⟨h.1, ?_⟩
      have hspan : a + Block.span { b with size := b.size + headerSize + c.size } =
          a + b.span + c.span := by
        simp only [Block.span]
        omega
      rw [hspan]
      exact h.2.2
    · exact ⟨h.1, ih h.2⟩

theorem coalesceFrom_head (b : Block) (rest : List Block) :
    (coalesceFrom b rest).head?.map Block.free = some b.free := by
  induction rest generalizing b with
  | nil => rfl
  | cons c rest ih =>
    simp only [coalesceFrom]
    split
    · exact ih _
    · rfl

theorem coalesceFrom_coalesced (b : Block) (rest : List Block) :
    Coalesced (coalesceFrom b rest) := by
  induction rest generalizing b with
  | nil => exact isChain_singleton _
  | cons c rest ih =>
    simp only [coalesceFrom]
    split
    · exact ih _
    have hhead := coalesceFrom_head c rest
    have htail := ih c
    cases hlist : coalesceFrom c rest with
    | nil => exact isChain_singleton _
    | cons d tail =>
      rw [hlist] at hhead htail
      have hfree : d.free = c.free := by simpa using hhead
      exact IsChain.cons_cons (by rwa [hfree]) htail

theorem coalesceFrom_addr (hc : c ∈ coalesceFrom b rest) : ∃ d ∈ b :: rest, c.addr = d.addr := by
  induction rest generalizing b with
  | nil => exact ⟨b, mem_cons_self, by rw [mem_singleton.mp hc]⟩
  | cons d rest ih =>
    simp only [coalesceFrom] at hc
    split at hc
    · obtain ⟨x, hx, heq⟩ := ih hc
      cases mem_cons.mp hx with
      | inl hmerged => exact ⟨b, mem_cons_self, by rw [heq, hmerged]⟩
      | inr hrest => exact ⟨x, by simp [hrest], heq⟩
    · cases mem_cons.mp hc with
      | inl hb => exact ⟨b, mem_cons_self, by rw [hb]⟩
      | inr htail =>
        obtain ⟨x, hx, heq⟩ := ih htail
        exact ⟨x, mem_cons_of_mem b hx, heq⟩

theorem coalesceFrom_busy (hc : c ∈ b :: rest) (hbusy : c.free = false) :
    c ∈ coalesceFrom b rest := by
  induction rest generalizing b with
  | nil => exact hc
  | cons d rest ih =>
    simp only [coalesceFrom]
    simp only [mem_cons] at hc ih
    split
    next hfree =>
      have hb : c ≠ b := by rintro rfl; rw [hbusy] at hfree; exact Bool.noConfusion hfree.1
      have hd : c ≠ d := by rintro rfl; rw [hbusy] at hfree; exact Bool.noConfusion hfree.2
      exact ih (.inr (by simpa [hb, hd] using hc))
    · rw [mem_cons]
      exact hc.imp_right ih

theorem kfree_wellFormed (h : WellFormed base limit l) : WellFormed base limit (kfree l ptr) := by
  unfold kfree
  split
  · exact h
  have hcovers := release_covers ptr h.covers
  have haligned : ∀ b ∈ l.map (release ptr), b.addr % 8 = 0 := by
    intro b hb
    obtain ⟨d, hd, rfl⟩ := mem_map.mp hb
    rw [release_addr]
    exact h.aligned d hd
  cases hlist : l.map (release ptr) with
  | nil =>
    rw [hlist] at hcovers
    exact ⟨hcovers, isChain_nil, by simp [coalesce]⟩
  | cons b rest =>
    rw [hlist] at hcovers haligned
    refine ⟨coalesceFrom_covers hcovers, coalesceFrom_coalesced b rest, fun c hc => ?_⟩
    obtain ⟨d, hd, heq⟩ := coalesceFrom_addr hc
    rw [heq]
    exact haligned d hd

theorem kfree_busy (hc : c ∈ l) (hbusy : c.free = false)
    (hne : c.addr + headerSize ≠ ptr) : c ∈ kfree l ptr := by
  unfold kfree
  split
  · exact hc
  have hmem : c ∈ l.map (release ptr) := mem_map.mpr ⟨c, hc, by rw [release, if_neg hne]⟩
  cases hlist : l.map (release ptr) with
  | nil =>
    rw [hlist] at hmem
    cases hmem
  | cons b rest =>
    rw [hlist] at hmem
    exact coalesceFrom_busy hmem hbusy

end AegisOS.Heap
