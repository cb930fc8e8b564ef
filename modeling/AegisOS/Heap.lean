import Mathlib.Algebra.Group.Nat.Defs
import Mathlib.Data.List.Pairwise

/-! The first-fit kernel heap of `kernel/memory/heap.c`. The free list is the list of
all blocks in address order; a block is named by the address of its header, and the
pointer handed out lies one header behind it. -/
namespace AegisOS.Heap
open List

/-- `sizeof(block_header_t)` -/
def headerSize : Nat := 24

structure Block where
  addr : Nat
  size : Nat
  free : Bool
  deriving DecidableEq

def heapInit (base size : Nat) : List Block := [⟨base, size - headerSize, true⟩]

/-- `(size + 7) & ~(u64)7` -/
def align8 (size : Nat) : Nat := (size + 7) % 2 ^ 64 / 8 * 8

/-- The search of `kmalloc` for an aligned size, from one block of the list on. -/
def allocFrom (size : Nat) : List Block → Option (List Block × Nat)
  | [] => none
  | b :: rest =>
    if b.free = true ∧ size ≤ b.size then
      if (size + headerSize + 8) % 2 ^ 64 ≤ b.size then
        some (⟨b.addr, size, false⟩ ::
          ⟨b.addr + headerSize + size, b.size - size - headerSize, true⟩ :: rest,
          b.addr + headerSize)
      else some (⟨b.addr, b.size, false⟩ :: rest, b.addr + headerSize)
    else (allocFrom size rest).map fun found => (b :: found.1, found.2)

def kmalloc (h : List Block) (size : Nat) : Option (List Block × Nat) := allocFrom (align8 size) h

/-- The coalescing loop, standing at block `b`. -/
def coalesceFrom (b : Block) : List Block → List Block
  | [] => [b]
  | c :: rest =>
    if b.free = true ∧ c.free = true then
      coalesceFrom { b with size := b.size + headerSize + c.size } rest
    else b :: coalesceFrom c rest

def coalesce : List Block → List Block
  | [] => []
  | b :: rest => coalesceFrom b rest

/-- Mark the block behind `ptr` as free. -/
def release (ptr : Nat) (b : Block) : Block :=
  if b.addr + headerSize = ptr then { b with free := true } else b

def kfree (h : List Block) (ptr : Nat) : List Block :=
  if ptr = 0 then h else coalesce (h.map (release ptr))

/-- `b` ends where `c` begins or before. -/
def Before (b c : Block) : Prop := b.addr + headerSize + b.size ≤ c.addr

def Ordered (h : List Block) : Prop := h.Pairwise Before

/-- `ptr` was handed out and not yet freed. -/
def Allocated (h : List Block) (ptr : Nat) : Prop :=
  ∃ b ∈ h, b.free = false ∧ b.addr + headerSize = ptr

theorem ordered_init (base size : Nat) : Ordered (heapInit base size) := pairwise_singleton _ _

variable {b : Block} {rest h h' : List Block} {ptr n size : Nat}

theorem allocated_cons : Allocated (b :: rest) ptr ↔
      (b.free = false ∧ b.addr + headerSize = ptr) ∨ Allocated rest ptr := by
  simp [Allocated]

theorem align8_le (h : n + 7 < 2 ^ 64) : align8 n ≤ n + 7 := by
  rw [align8]
  omega

/-- What `kmalloc` does when it finds a block: the result is allocated now and was not
before, and nothing else changed. -/
structure Grants (h h' : List Block) (ptr : Nat) : Prop where
  ordered : Ordered h'
  fresh : ¬Allocated h ptr
  allocated : ∀ x, Allocated h' x ↔ x = ptr ∨ Allocated h x

/-- Nothing behind block `b` has its address. -/
theorem not_allocated_head (ho : Ordered (b :: rest)) : ¬Allocated rest (b.addr + headerSize) := by
  rintro ⟨c, hc, -, heq⟩
  have : Before b c := rel_of_pairwise_cons ho hc
  simp only [Before, headerSize] at this heq
  omega

theorem grants_head {rest' : List Block} (ho : Ordered (b :: rest))
    (hfree : b.free = true) (ho' : Ordered (⟨b.addr, size, false⟩ :: rest'))
    (hrest : ∀ x, Allocated rest' x ↔ Allocated rest x) :
    Grants (b :: rest) (⟨b.addr, size, false⟩ :: rest') (b.addr + headerSize) := by
  refine ⟨ho', ?_, ?_⟩
  · rw [allocated_cons]
    rintro (⟨h, -⟩ | h)
    · rw [hfree] at h
      cases h
    · exact not_allocated_head ho h
  · intro x
    rw [allocated_cons, allocated_cons, hrest x, hfree]
    simp [eq_comm]

theorem allocFrom_grants (hsize : size + headerSize + 8 < 2 ^ 64)
    (ho : Ordered h) (ha : allocFrom size h = some (h', ptr)) :
    Grants h h' ptr ∧ ∀ c, (∀ b ∈ h, Before c b) → ∀ b ∈ h', Before c b := by
  induction h generalizing h' ptr with
  | nil => cases ha
  | cons b rest ih =>
    have hrest : Ordered rest := (pairwise_cons.mp ho).2
    have hb : ∀ c ∈ rest, Before b c := (pairwise_cons.mp ho).1
    simp only [allocFrom] at ha
    split at ha
    next hfits =>
      split at ha
      · -- the tail of the block becomes a free block of its own
        rename_i hsplit
        rw [Nat.mod_eq_of_lt hsize] at hsplit
        obtain ⟨rfl, rfl⟩ := ha
        constructor
        · refine grants_head ho hfits.1 ?_ fun x => by simp [allocated_cons]
          refine pairwise_cons.mpr ⟨?_, pairwise_cons.mpr ⟨?_, hrest⟩⟩
          · intro c hc
            cases mem_cons.mp hc with
            | inl heq => simp [heq, Before]
            | inr hold =>
              have := hb c hold
              simp only [Before] at this ⊢
              omega
          · intro c hc
            have := hb c hc
            simp only [Before] at this ⊢
            omega
        · intro c hc x hx
          have hcb := hc b mem_cons_self
          simp only [mem_cons] at hx
          rcases hx with rfl | rfl | hold
          · exact hcb
          · simp only [Before] at hcb ⊢
            omega
          · exact hc x (mem_cons_of_mem b hold)
      · simp only [Option.some.injEq] at ha
        obtain ⟨rfl, rfl⟩ := ha
        constructor
        · exact grants_head ho hfits.1 (pairwise_cons.mpr ⟨hb, hrest⟩) fun _ => .rfl
        intro c hc x hx
        cases mem_cons.mp hx with
        | inl heq => exact heq ▸ hc b mem_cons_self
        | inr hold => exact hc x (mem_cons_of_mem b hold)
    · -- the search goes on behind `b`, which stays as it is
      simp only [Option.map_eq_some_iff] at ha
      obtain ⟨⟨l, q⟩, hfound, heq⟩ := ha
      obtain ⟨rfl, rfl⟩ := heq
      obtain ⟨hg, hbound⟩ := ih hrest hfound
      have hl : ∀ c ∈ l, Before b c := hbound b hb
      constructor
      · refine ⟨pairwise_cons.mpr ⟨hl, hg.ordered⟩, ?_, ?_⟩
        · rw [allocated_cons]
          rintro (⟨-, heq⟩ | hold)
          · have hq : Allocated l q := (hg.allocated q).mpr (.inl rfl)
            obtain ⟨c, hc, -, hceq⟩ := hq
            have := hl c hc
            simp only [Before, headerSize] at this heq hceq
            omega
          · exact hg.fresh hold
        · intro x
          rw [allocated_cons, allocated_cons, hg.allocated x]
          exact or_left_comm
      · intro c hc x hx
        cases mem_cons.mp hx with
        | inl heq => exact heq ▸ hc b mem_cons_self
        | inr hold => exact hbound c (fun y hy => hc y (mem_cons_of_mem b hy)) x hold

theorem kmalloc_grants (hn : n < 2 ^ 32)
    (ho : Ordered h) (ha : kmalloc h n = some (h', ptr)) : Grants h h' ptr := by
  have hle := align8_le (n := n) (by omega)
  exact (allocFrom_grants (by simp only [headerSize]; omega) ho ha).1

/-- What `kfree` does: the pointer is no longer allocated and nothing else changed. -/
structure Releases (h h' : List Block) (ptr : Nat) : Prop where
  ordered : Ordered h'
  allocated : ∀ x, Allocated h' x ↔ Allocated h x ∧ x ≠ ptr

theorem coalesceFrom_spec (b : Block) (rest : List Block) (ho : Ordered (b :: rest)) :
    Ordered (coalesceFrom b rest) ∧
      (∀ x, Allocated (coalesceFrom b rest) x ↔ Allocated (b :: rest) x) ∧
      ∀ c, Before c b → (∀ d ∈ rest, Before c d) → ∀ d ∈ coalesceFrom b rest, Before c d := by
  induction rest generalizing b with
  | nil =>
    refine ⟨ho, fun _ => .rfl, fun c hc _ d hd => ?_⟩
    rw [mem_singleton.mp hd]
    exact hc
  | cons c rest ih =>
    have hb : ∀ d ∈ c :: rest, Before b d := (pairwise_cons.mp ho).1
    have hc : Ordered (c :: rest) := (pairwise_cons.mp ho).2
    have hbc := hb c mem_cons_self
    simp only [coalesceFrom]
    split
    next hfree =>
      have hmerged : Ordered ({ b with size := b.size + headerSize + c.size } :: rest) := by
        refine pairwise_cons.mpr ⟨fun d hd => ?_, (pairwise_cons.mp hc).2⟩
        have := (pairwise_cons.mp hc).1 d hd
        simp only [Before] at this hbc ⊢
        omega
      obtain ⟨h1, h2, h3⟩ := ih _ hmerged
      refine ⟨h1, fun x => ?_, fun a hab har => h3 a hab fun d hd =>
        har d (mem_cons_of_mem c hd)⟩
      rw [h2 x]
      simp [allocated_cons, hfree.2]
    · obtain ⟨h1, h2, h3⟩ := ih c hc
      refine ⟨pairwise_cons.mpr ⟨h3 b hbc fun d hd => hb d (mem_cons_of_mem c hd), h1⟩,
        fun x => ?_, fun a hab har d hd => ?_⟩
      · rw [allocated_cons, h2 x, allocated_cons]
        simp [allocated_cons]
      cases mem_cons.mp hd with
      | inl heq => exact heq ▸ hab
      | inr hold =>
        exact h3 a (har c mem_cons_self)
          (fun e he => har e (mem_cons_of_mem c he)) d hold

@[simp] theorem release_addr (ptr : Nat) (b : Block) : (release ptr b).addr = b.addr := by
  simp only [release]
  split <;> rfl

@[simp] theorem release_size (ptr : Nat) (b : Block) : (release ptr b).size = b.size := by
  simp only [release]
  split <;> rfl

theorem ordered_release (ptr : Nat) (ho : Ordered h) : Ordered (h.map (release ptr)) := by
  rw [Ordered, pairwise_map]
  exact ho.imp fun hbc => by simpa [Before] using hbc

theorem allocated_release (ptr x : Nat) :
    Allocated (h.map (release ptr)) x ↔ Allocated h x ∧ x ≠ ptr := by
  constructor
  · rintro ⟨c, hc, hfree, heq⟩
    obtain ⟨b, hb, rfl⟩ := mem_map.mp hc
    simp only [release] at hfree heq
    split at hfree
    · cases hfree
    next hne =>
      rw [if_neg hne] at heq
      exact ⟨⟨b, hb, hfree, heq⟩, by omega⟩
  · rintro ⟨⟨b, hb, hfree, heq⟩, hne⟩
    refine ⟨release ptr b, mem_map_of_mem hb, ?_, by simpa using heq⟩
    rw [release, if_neg (by omega)]
    exact hfree

theorem kfree_releases (ho : Ordered h) (ptr : Nat) : Releases h (kfree h ptr) ptr := by
  simp only [kfree]
  split
  · refine ⟨ho, fun x => ⟨fun hx => ⟨hx, ?_⟩, fun hx => hx.1⟩⟩
    obtain ⟨b, -, -, heq⟩ := hx
    simp only [headerSize] at heq
    omega
  have ho' := ordered_release ptr ho
  cases hmap : h.map (release ptr) with
  | nil =>
    refine ⟨.nil, fun x => ?_⟩
    rw [← allocated_release, hmap]
    rfl
  | cons b rest =>
    rw [hmap] at ho'
    obtain ⟨h1, h2, -⟩ := coalesceFrom_spec b rest ho'
    exact ⟨h1, fun x => by rw [← allocated_release, hmap]; exact h2 x⟩

end AegisOS.Heap
