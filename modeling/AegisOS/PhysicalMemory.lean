import AegisOS.Errno
import AegisOS.Lib.GuardedRun
import AegisOS.Lib.PackedBits
import Mathlib.Algebra.Group.Nat.Defs
import Mathlib.Data.List.Nodup

/-! The page frame allocator (`kernel/memory/physical_memory.c`): one bit for each page of the
region and a counter of the clear ones. Addresses and counters are `u64`. -/
namespace AegisOS.PhysicalMemory
open PackedBits GuardedRun List

def pageSize : Nat := 4096
def maxPages : Nat := 1024 * 1024

structure PhysMem where
  bitmap : Bits
  physBase : Nat
  totalPages : Nat
  freePagesCount : Nat

/-- `none` is the panic. -/
def physMemInit (bitmap : Bits) (base size : Nat) : Option PhysMem :=
  let total := size / pageSize
  if maxPages < total then none
  else some ⟨fun i => if i < total / 8 then 0 else bitmap i, base, total, total⟩

def physAllocPage (s : PhysMem) : PhysMem × Nat :=
  match firstClear s.bitmap s.totalPages 0 with
  | none => (s, 0)
  | some i =>
    ({ s with
        bitmap := set s.bitmap i
        freePagesCount := (s.freePagesCount + 2 ^ 64 - 1) % 2 ^ 64 },
      (s.physBase + i * pageSize) % 2 ^ 64)

def physFreePage (s : PhysMem) (addr : Nat) : PhysMem :=
  let page := (addr + 2 ^ 64 - s.physBase) % 2 ^ 64 / pageSize
  if s.totalPages ≤ page then s
  else { s with
    bitmap := clear s.bitmap page
    freePagesCount := (s.freePagesCount + 1) % 2 ^ 64 }

def pageIndexForAddr (s : PhysMem) (addr : Nat) : Nat :=
  if addr < s.physBase then s.totalPages else (addr - s.physBase) / pageSize

/-- The loop over the pages from `i` on. -/
def reserveLoop : Nat → Nat → PhysMem → PhysMem
  | 0, _, s => s
  | n + 1, i, s =>
    reserveLoop n (i + 1)
      (if test s.bitmap i then s
      else { s with
        bitmap := set s.bitmap i
        freePagesCount := if 0 < s.freePagesCount then s.freePagesCount - 1 else 0 })

/-- `PAGE_ALIGN(base + size)` -/
def reserveEnd (base size : Nat) : Nat :=
  ((base + size) % 2 ^ 64 + pageSize - 1) % 2 ^ 64 / pageSize * pageSize

def physReserveRange (s : PhysMem) (base size : Nat) : PhysMem × Int :=
  if size = 0 then (s, aegisOk)
  else if s.totalPages = 0 then (s, aegisEinval)
  else
    let start := base / pageSize * pageSize
    let fin := reserveEnd base size
    if fin ≤ s.physBase then (s, aegisEinval)
    else
      let start := if start < s.physBase then s.physBase else start
      let first := pageIndexForAddr s start
      let last := pageIndexForAddr s (fin - 1)
      if s.totalPages ≤ first then (s, aegisEinval)
      else
        let last := if s.totalPages ≤ last then s.totalPages - 1 else last
        (reserveLoop (last + 1 - first) first s, aegisOk)

/-! Runs, with the pages handed out and the ranges reserved kept beside the allocator. -/

structure Owner where
  mem : PhysMem
  handed : List Nat
  reserved : List (Nat × Nat)

inductive Event
  | reserve (base size : Nat)
  | alloc
  | free (addr : Nat)

def step (s : Owner) : Event → Option Owner
  | .reserve base size =>
    let got := physReserveRange s.mem base size
    some { s with
      mem := got.1
      reserved := if got.2 = aegisOk then (base, size) :: s.reserved else s.reserved }
  | .alloc =>
    let got := physAllocPage s.mem
    some { s with mem := got.1, handed := if got.2 = 0 then s.handed else got.2 :: s.handed }
  | .free addr => some { s with mem := physFreePage s.mem addr, handed := s.handed.erase addr }

/-- The page at `addr` has a byte of a range that was reserved. -/
def Owner.Reserved (s : Owner) (addr : Nat) : Prop :=
  ∃ r ∈ s.reserved, 0 < r.2 ∧ r.1 < addr + pageSize ∧ addr < r.1 + r.2
  deriving Decidable

/-- `addr` is the address of a page of the region. -/
def Owner.IsPage (s : Owner) (addr : Nat) : Prop :=
  ∃ i < s.mem.totalPages, addr = s.mem.physBase + i * pageSize

/-- Any range is reserved; what is freed was handed out and not yet freed. -/
def Legal (s : Owner) : Event → Prop
  | .reserve base size => base < 2 ^ 64 ∧ size < 2 ^ 64
  | .alloc => True
  | .free addr => addr ∈ s.handed

instance (s : Owner) (e : Event) : Decidable (Legal s e) :=
  match e with
  | .reserve _ _ => inferInstanceAs (Decidable (_ ∧ _))
  | .alloc => inferInstanceAs (Decidable True)
  | .free _ => inferInstanceAs (Decidable (_ ∈ _))

/-- The range does not go round the address space, or is refused for where it begins or ends;
a page that was reserved while it was handed out is not freed. -/
def Careful (s : Owner) : Event → Prop
  | .reserve base size =>
    base + size + pageSize ≤ 2 ^ 64 ∨ reserveEnd base size ≤ s.mem.physBase ∨
      s.mem.physBase + s.mem.totalPages * pageSize ≤ base
  | .alloc => True
  | .free addr => ¬s.Reserved addr

instance (s : Owner) (e : Event) : Decidable (Careful s e) :=
  match e with
  | .reserve _ _ => inferInstanceAs (Decidable (_ ∨ _))
  | .alloc => inferInstanceAs (Decidable True)
  | .free _ => inferInstanceAs (Decidable (¬_))

/-- What is promised of the next `phys_alloc_page`. -/
def AllocSound (s : Owner) : Prop :=
  ((physAllocPage s.mem).2 ≠ 0 → s.IsPage (physAllocPage s.mem).2 ∧
      ¬s.Reserved (physAllocPage s.mem).2 ∧ (physAllocPage s.mem).2 ∉ s.handed) ∧
    ((physAllocPage s.mem).2 = 0 → ∀ addr, s.IsPage addr → s.Reserved addr ∨ addr ∈ s.handed)

/-- The region fits the address space, and the bits of a last byte that is not filled are clear
before `phys_mem_init`, which does not clear it. -/
def CleanStart (bitmap : Bits) (base size : Nat) : Prop :=
  base + size / pageSize * pageSize ≤ 2 ^ 64 ∧
    ∀ i < size / pageSize, size / pageSize / 8 * 8 ≤ i → test bitmap i = false

/-! The invariant. -/

/-- A bit is set for the pages handed out and the pages reserved, and the counter is right. -/
structure Inv (base total : Nat) (s : Owner) : Prop where
  base_eq : s.mem.physBase = base
  total_eq : s.mem.totalPages = total
  count : s.mem.freePagesCount = clearCount s.mem.bitmap total
  bits : ∀ i < total, test s.mem.bitmap i = true ↔
    base + i * pageSize ∈ s.handed ∨ s.Reserved (base + i * pageSize)
  pages : ∀ addr ∈ s.handed, ∃ i < total, addr = base + i * pageSize
  nodup : s.handed.Nodup

structure Fits (base total : Nat) : Prop where
  pos : 0 < base
  aligned : base % pageSize = 0
  few : total ≤ maxPages
  limit : base + total * pageSize ≤ 2 ^ 64

variable {base total : Nat} {s s' : Owner}

theorem page_eq_iff {i j : Nat} : base + j * pageSize = base + i * pageSize ↔ j = i := by
  rw [pageSize]
  omega

theorem alloc_cases (hfits : Fits base total) (h : Inv base total s) :
    ((physAllocPage s.mem) = (s.mem, 0) ∧ ∀ i < total, test s.mem.bitmap i = true) ∨
      ∃ i < total, test s.mem.bitmap i = false ∧ physAllocPage s.mem = ({ s.mem with
            bitmap := set s.mem.bitmap i
            freePagesCount := clearCount (set s.mem.bitmap i) total }, base + i * pageSize) := by
  rw [physAllocPage, h.total_eq]
  cases hfound : firstClear s.mem.bitmap total 0 with
  | none =>
    have hset := firstClear_none hfound
    exact .inl ⟨rfl, fun i hi => hset i (Nat.zero_le i) (by omega)⟩
  | some i =>
    obtain ⟨-, hlt, hclear⟩ := firstClear_some hfound
    have hi : i < total := by omega
    have hcount := clearCount_set hi hclear
    have hbound := clearCount_le s.mem.bitmap total
    have hfew := hfits.few
    have hlimit := hfits.limit
    refine .inr ⟨i, hi, hclear, ?_⟩
    have hcounter : (s.mem.freePagesCount + 2 ^ 64 - 1) % 2 ^ 64 =
        clearCount (set s.mem.bitmap i) total := by
      rw [h.count]
      simp only [maxPages] at hfew
      omega
    have haddr : (base + i * pageSize) % 2 ^ 64 = base + i * pageSize := by
      simp only [pageSize] at hlimit ⊢
      omega
    simp only [hcounter, haddr, h.base_eq, h.total_eq]

theorem Inv.clear_page (h : Inv base total s) {i : Nat} (hi : i < total)
    (hclear : test s.mem.bitmap i = false) :
    base + i * pageSize ∉ s.handed ∧ ¬s.Reserved (base + i * pageSize) := by
  have hnot := mt (h.bits i hi).mpr (by simp [hclear])
  exact not_or.mp hnot

section
variable (hfits : Fits base total) (h : Inv base total s)
include hfits h

theorem Inv.allocSound : AllocSound s := by
  obtain ⟨hnone, hset⟩ | ⟨i, hi, hclear, hgot⟩ := alloc_cases hfits h
  · refine ⟨fun hne => absurd (by rw [hnone]) hne, fun _ addr hpage => ?_⟩
    obtain ⟨i, hi, rfl⟩ := hpage
    rw [h.base_eq]
    rw [h.total_eq] at hi
    exact ((h.bits i hi).mp (hset i hi)).symm
  · obtain ⟨hhanded, hreserved⟩ := h.clear_page hi hclear
    have hpos := hfits.pos
    rw [AllocSound, hgot]
    refine ⟨fun _ => ⟨⟨i, by rw [h.total_eq]; exact hi, by rw [h.base_eq]⟩, hreserved, hhanded⟩,
      fun hzero => ?_⟩
    omega

theorem inv_alloc (hs : step s .alloc = some s') : Inv base total s' := by
  simp only [step, Option.some.injEq] at hs
  obtain ⟨hnone, -⟩ | ⟨i, hi, hclear, hgot⟩ := alloc_cases hfits h
  · rw [hnone] at hs
    exact hs ▸ h
  have hpos := hfits.pos
  have hne : ¬base + i * pageSize = 0 := by omega
  obtain ⟨hhanded, -⟩ := h.clear_page hi hclear
  rw [hgot, if_neg hne] at hs
  subst hs
  refine ⟨h.base_eq, h.total_eq, rfl, fun j hj => ?_, fun addr haddr => ?_,
    nodup_cons.mpr ⟨hhanded, h.nodup⟩⟩
  · have hold := h.bits j hj
    have hres : ∀ a m l, Owner.Reserved ⟨m, l, s.reserved⟩ a ↔ s.Reserved a := fun _ _ _ => .rfl
    rw [test_set, hres, mem_cons, page_eq_iff, or_assoc, ← hold]
    simp
  · cases mem_cons.mp haddr with
    | inl heq => exact ⟨i, hi, heq⟩
    | inr hold => exact h.pages addr hold

theorem inv_free {addr : Nat} (hlegal : addr ∈ s.handed) (hfree : ¬s.Reserved addr)
    (hs : step s (.free addr) = some s') : Inv base total s' := by
  simp only [step, Option.some.injEq] at hs
  obtain ⟨i, hi, rfl⟩ := h.pages addr hlegal
  have hset : test s.mem.bitmap i = true := (h.bits i hi).mpr (.inl hlegal)
  have hlimit := hfits.limit
  have hfew := hfits.few
  have hpage : (base + i * pageSize + 2 ^ 64 - s.mem.physBase) % 2 ^ 64 / pageSize = i := by
    rw [h.base_eq]
    simp only [pageSize] at hlimit hfew ⊢
    omega
  have hcount := clearCount_clear hi hset
  have hbound := clearCount_le (clear s.mem.bitmap i) total
  have hcounter : (s.mem.freePagesCount + 1) % 2 ^ 64 = clearCount (clear s.mem.bitmap i) total := by
    rw [h.count]
    simp only [maxPages] at hfew
    omega
  have hmem : physFreePage s.mem (base + i * pageSize) = { s.mem with
      bitmap := clear s.mem.bitmap i
      freePagesCount := clearCount (clear s.mem.bitmap i) total } := by
    have hin : ¬s.mem.totalPages ≤ i := by rw [h.total_eq]; omega
    simp only [physFreePage, hpage, if_neg hin, hcounter]
  rw [hmem] at hs
  subst hs
  refine ⟨h.base_eq, h.total_eq, rfl, fun j hj => ?_, fun a ha => ?_, h.nodup.erase _⟩
  · have hold := h.bits j hj
    have hres : ∀ a m l, Owner.Reserved ⟨m, l, s.reserved⟩ a ↔ s.Reserved a := fun _ _ _ => .rfl
    rw [test_clear, hres, h.nodup.mem_erase_iff, ne_eq, page_eq_iff]
    by_cases hji : j = i
    · simp [hji, hfree]
    · simp [hji, hold]
  · exact h.pages a (mem_of_mem_erase ha)

end

/-! Reserving. -/

theorem reserveLoop_spec {n i : Nat} {m : PhysMem} (hin : i + n ≤ m.totalPages)
    (hcount : m.freePagesCount = clearCount m.bitmap m.totalPages) :
    (reserveLoop n i m).physBase = m.physBase ∧ (reserveLoop n i m).totalPages = m.totalPages ∧
      (reserveLoop n i m).freePagesCount = clearCount (reserveLoop n i m).bitmap m.totalPages ∧
      ∀ j, test (reserveLoop n i m).bitmap j = true ↔
        test m.bitmap j = true ∨ i ≤ j ∧ j < i + n := by
  induction n generalizing i m with
  | zero =>
    refine ⟨rfl, rfl, hcount, fun j => ?_⟩
    have hempty : ¬(i ≤ j ∧ j < i + 0) := by omega
    simp only [reserveLoop, hempty, or_false]
  | succ n ih =>
    rw [reserveLoop]
    cases hbit : test m.bitmap i with
    | true =>
      have hrest : i + 1 + n ≤ m.totalPages := by omega
      obtain ⟨hb, ht, hc, hbits⟩ := ih hrest hcount
      refine ⟨hb, ht, hc, fun j => ?_⟩
      rw [if_pos rfl, hbits j]
      by_cases hji : j = i
      · simp [hji, hbit]
      · have : i + 1 ≤ j ∧ j < i + 1 + n ↔ i ≤ j ∧ j < i + (n + 1) := by omega
        rw [this]
    | false =>
      have hone := clearCount_set (by omega : i < m.totalPages) hbit
      have hcounter : (if 0 < m.freePagesCount then m.freePagesCount - 1 else 0) =
          clearCount (set m.bitmap i) m.totalPages := by
        rw [hcount, if_pos (by omega)]
        omega
      rw [if_neg (by simp), hcounter]
      have hrest : i + 1 + n ≤ m.totalPages := by omega
      obtain ⟨hb, ht, hc, hbits⟩ := ih (m := { m with
        bitmap := set m.bitmap i
        freePagesCount := clearCount (set m.bitmap i) m.totalPages }) hrest rfl
      refine ⟨hb, ht, hc, fun j => ?_⟩
      rw [hbits j, test_set]
      by_cases hji : j = i
      · simp [hji]
      have hrange : i + 1 ≤ j ∧ j < i + 1 + n ↔ i ≤ j ∧ j < i + (n + 1) := by omega
      have hset : (decide (j = i) || test m.bitmap j) = test m.bitmap j := by simp [hji]
      rw [hset, hrange]

section
variable {b n start : Nat} (haligned : base % pageSize = 0)
  (hstart : start = max base (b / pageSize * pageSize))
include haligned hstart

theorem range_pages (hfin : base < (b + n + 4095) / 4096 * 4096) (i : Nat) :
    (start - base) / pageSize ≤ i ∧ i ≤ ((b + n + 4095) / 4096 * 4096 - 1 - base) / pageSize ↔
      b < base + i * pageSize + pageSize ∧ base + i * pageSize < b + n := by
  simp only [pageSize] at *
  omega

theorem reserveEnd_eq (hend : ¬reserveEnd b n ≤ base)
    (hfirst : ¬total ≤ (start - base) / pageSize)
    (hcareful : b + n + pageSize ≤ 2 ^ 64 ∨ reserveEnd b n ≤ base ∨ base + total * pageSize ≤ b) :
    reserveEnd b n = (b + n + 4095) / 4096 * 4096 := by
  rcases hcareful with hnowrap | hrefused | hbehind
  · rw [reserveEnd]
    simp only [pageSize] at hnowrap ⊢
    omega
  · exact absurd hrefused hend
  · simp only [pageSize] at *
    omega

end

/-- What `phys_reserve_range` does: nothing unless it answers `AEGIS_OK`, and then it sets the
bits of the pages that meet the range. -/
theorem reserve_spec (hfits : Fits base total) (h : Inv base total s) {b n : Nat}
    (hcareful : Careful s (.reserve b n)) :
    physReserveRange s.mem b n = (s.mem, aegisEinval) ∨
      ∃ m, physReserveRange s.mem b n = (m, aegisOk) ∧ m.physBase = base ∧ m.totalPages = total ∧
        m.freePagesCount = clearCount m.bitmap total ∧
        ∀ i < total, test m.bitmap i = true ↔ test s.mem.bitmap i = true ∨
          0 < n ∧ b < base + i * pageSize + pageSize ∧ base + i * pageSize < b + n := by
  by_cases hn : n = 0
  · refine .inr ⟨s.mem, by rw [physReserveRange, if_pos hn], h.base_eq, h.total_eq, h.count,
      fun i hi => by simp [hn]⟩
  by_cases htotal : s.mem.totalPages = 0
  · exact .inl (by rw [physReserveRange, if_neg hn, if_pos htotal])
  by_cases hend : reserveEnd b n ≤ s.mem.physBase
  · exact .inl (by simp only [physReserveRange, if_neg hn, if_neg htotal, if_pos hend])
  obtain ⟨start, hif⟩ : ∃ x, x = if b / pageSize * pageSize < base then base
    else b / pageSize * pageSize := ⟨_, rfl⟩
  have hstart : start = max base (b / pageSize * pageSize) := by
    rw [hif]
    split <;> omega
  have hfirst : pageIndexForAddr s.mem start = (start - base) / pageSize := by
    rw [pageIndexForAddr, h.base_eq, if_neg (by omega)]
  rw [h.base_eq] at hend
  have hlast : pageIndexForAddr s.mem (reserveEnd b n - 1) =
      (reserveEnd b n - 1 - base) / pageSize := by
    rw [pageIndexForAddr, h.base_eq, if_neg (by omega)]
  rw [h.total_eq] at htotal
  simp only [physReserveRange, if_neg hn, h.total_eq, if_neg htotal, h.base_eq, if_neg hend,
    ← hif, hfirst, hlast]
  by_cases hbeyond : total ≤ (start - base) / pageSize
  · exact .inl (by rw [if_pos hbeyond])
  simp only [Careful, h.base_eq, h.total_eq] at hcareful
  have hround := reserveEnd_eq hfits.aligned hstart hend hbeyond hcareful
  rw [if_neg hbeyond, hround]
  have hpages := range_pages (b := b) (n := n) hfits.aligned hstart (by omega)
  generalize (start - base) / pageSize = first at hbeyond hpages ⊢
  generalize ((b + n + 4095) / 4096 * 4096 - 1 - base) / pageSize = last at hpages ⊢
  obtain ⟨stop, hstop⟩ : ∃ x, x = if total ≤ last then total - 1 else last := ⟨_, rfl⟩
  have hclip : stop = min last (total - 1) := by
    rw [hstop]
    split <;> omega
  rw [← hstop]
  have hin : first + (stop + 1 - first) ≤ s.mem.totalPages := by
    rw [h.total_eq]
    omega
  obtain ⟨hb, ht, hc, hbits⟩ := reserveLoop_spec hin (by rw [h.total_eq]; exact h.count)
  rw [h.total_eq] at ht hc
  rw [h.base_eq] at hb
  refine .inr ⟨_, rfl, hb, ht, hc, fun i hi => ?_⟩
  have hindex : first ≤ i ∧ i < first + (stop + 1 - first) ↔ first ≤ i ∧ i ≤ last := by omega
  rw [hbits i, hindex, hpages i]
  simp [Nat.pos_of_ne_zero hn]

theorem reserved_cons (m m' : PhysMem) (l l' : List Nat) (b n addr : Nat) (rs : List (Nat × Nat)) :
    Owner.Reserved ⟨m, l, (b, n) :: rs⟩ addr ↔
      (0 < n ∧ b < addr + pageSize ∧ addr < b + n) ∨ Owner.Reserved ⟨m', l', rs⟩ addr := by
  simp [Owner.Reserved]

theorem inv_reserve (hfits : Fits base total) (h : Inv base total s) {b n : Nat}
    (hcareful : Careful s (.reserve b n)) (hs : step s (.reserve b n) = some s') :
    Inv base total s' := by
  simp only [step, Option.some.injEq] at hs
  obtain hrefused | ⟨m, hgot, hb, ht, hc, hbits⟩ := reserve_spec hfits h hcareful
  · have hcode : ¬aegisEinval = aegisOk := by decide
    rw [hrefused, if_neg hcode] at hs
    exact hs ▸ h
  rw [hgot, if_pos rfl] at hs
  subst hs
  refine ⟨hb, ht, hc, fun i hi => ?_, h.pages, h.nodup⟩
  rw [hbits i hi, h.bits i hi, reserved_cons m s.mem s.handed s.handed, or_assoc]
  exact or_congr .rfl or_comm

theorem inv_step (hfits : Fits base total) (h : Inv base total s) {e : Event}
    (hlegal : Legal s e) (hcareful : Careful s e) (hs : step s e = some s') :
    Inv base total s' := by
  cases e with
  | reserve b n => exact inv_reserve hfits h hcareful hs
  | alloc => exact inv_alloc hfits h hs
  | free addr => exact inv_free hfits h hlegal hcareful hs

/-- The allocator after `phys_mem_init`. -/
def Owner.start (m : PhysMem) : Owner := ⟨m, [], []⟩

theorem inv_start {bitmap : Bits} {size : Nat} {m : PhysMem}
    (hclean : CleanStart bitmap base size) (hinit : physMemInit bitmap base size = some m) :
    Inv base (size / pageSize) (.start m) := by
  simp only [physMemInit] at hinit
  split at hinit
  · cases hinit
  simp only [Option.some.injEq] at hinit
  subst hinit
  have hclear : ∀ i < size / pageSize,
      test (fun i => if i < size / pageSize / 8 then 0 else bitmap i) i = false := by
    intro i hi
    by_cases hbyte : i / 8 < size / pageSize / 8
    · simp [test, hbyte]
    · have hbit := hclean.2 i hi (by omega)
      simpa [test, hbyte] using hbit
  refine ⟨rfl, rfl, ?_, fun i hi => ?_, by simp [Owner.start], nodup_nil⟩
  · have hall : clearCount (fun i => if i < size / pageSize / 8 then 0 else bitmap i)
        (size / pageSize) = (range (size / pageSize)).length := by
      refine countP_eq_length.mpr fun i hi => ?_
      rw [hclear i (mem_range.mp hi)]
      rfl
    rw [length_range] at hall
    exact hall.symm
  · simp only [Owner.start, Owner.Reserved, hclear i hi]
    simp

/-- In every careful run the counter is the number of clear bits, and the next allocation gives a
page of the region that is neither reserved nor handed out, or `0` when there is none. -/
theorem page_allocator_sound (bitmap : Bits) {base size : Nat} (hpos : 0 < base)
    (haligned : base % pageSize = 0) (hfew : size / pageSize ≤ maxPages)
    (hclean : CleanStart bitmap base size) {m : PhysMem}
    (hinit : physMemInit bitmap base size = some m) {es : List Event} {s : Owner}
    (hrun : Run step (fun s e => Legal s e ∧ Careful s e) (.start m) es s) :
    s.mem.freePagesCount = clearCount s.mem.bitmap s.mem.totalPages ∧ AllocSound s := by
  have hfits : Fits base (size / pageSize) := ⟨hpos, haligned, hfew, hclean.1⟩
  have hinv : Inv base (size / pageSize) s :=
    hrun.invariant (fun _ _ _ h hok hs => inv_step hfits h hok.1 hok.2 hs)
      (inv_start hclean hinit)
  exact ⟨by rw [hinv.total_eq]; exact hinv.count, hinv.allocSound hfits⟩

/-- What `phys_mem_init` makes of a region whose bitmap holds `byte` everywhere. -/
def regionOf (byte : BitVec 8) (base pages : Nat) : PhysMem :=
  ⟨fun i => if i < pages / 8 then 0 else byte, base, pages, pages⟩

theorem physMemInit_regionOf (byte : BitVec 8) (base : Nat) {pages : Nat} (h : pages ≤ maxPages) :
    physMemInit (fun _ => byte) base (pages * pageSize) = some (regionOf byte base pages) := by
  have hpages : pages * pageSize / pageSize = pages := Nat.mul_div_cancel pages (by decide)
  simp only [physMemInit, hpages, if_neg (by omega : ¬maxPages < pages), regionOf]

def carefulRun : List Event := [.reserve 8192 100, .alloc, .alloc, .free 4096]

theorem careful_run_sound : ∃ s, Run step (fun s e => Legal s e ∧ Careful s e)
    (.start (regionOf 0 4096 3)) carefulRun s ∧ s.handed = [12288] ∧
    s.mem.freePagesCount = clearCount s.mem.bitmap s.mem.totalPages ∧ AllocSound s := by
  have hclean : CleanStart (fun _ => 0) 4096 (3 * pageSize) := ⟨by decide, by decide⟩
  refine Run.exists_of_execute_imp (P := fun s => s.handed = [12288])
    (fun s hrun hend => ⟨hend, ?_⟩) (by decide +kernel)
  exact page_allocator_sound (fun _ => 0) (by decide) (by decide) (by decide) hclean
    (physMemInit_regionOf 0 4096 (by decide)) hrun

/-- A page reserved while it is in use and freed afterwards is handed out again; a range that goes
round the address space is accepted and reserves nothing; a region that does so too has a page at
address 0; and the last byte of the bitmap keeps its old bits. -/
theorem reserved_page_handed_out : (∃ s, Run step Legal (.start (regionOf 0 4096 3))
      [.alloc, .reserve 4096 4096, .free 4096] s ∧ ¬AllocSound s) ∧
    (∃ s, Run step Legal (.start (regionOf 0 4096 8))
      [.reserve 12288 (2 ^ 64 - 4096), .alloc, .alloc] s ∧ ¬AllocSound s) ∧
    (∃ s, Run step Legal (.start (regionOf 0 (2 ^ 64 - 4096) 2)) [.alloc] s ∧ ¬AllocSound s) ∧
    (regionOf 0xFF 4096 3).freePagesCount ≠ clearCount (regionOf 0xFF 4096 3).bitmap 3 := by
  have hreached (m : PhysMem) (es : List Event) (h : (execute step Legal (.start m) es).any
      (fun s => decide ((physAllocPage s.mem).2 ≠ 0 ∧ s.Reserved (physAllocPage s.mem).2)) = true) :
      ∃ s, Run step Legal (.start m) es s ∧ ¬AllocSound s :=
    Run.exists_of_execute_imp (fun s _ hend hsound => (hsound.1 hend.1).2.1 hend.2) h
  refine ⟨hreached _ _ (by decide +kernel), hreached _ _ (by decide +kernel), ?_, by decide⟩
  refine Run.exists_of_execute_imp (P := fun s => (physAllocPage s.mem).2 = 0 ∧
    s.handed = [2 ^ 64 - 4096] ∧ s.reserved = [] ∧ s.mem.totalPages = 2 ∧
    s.mem.physBase = 2 ^ 64 - 4096) (fun s _ hend h => ?_) (by decide +kernel)
  obtain ⟨hzero, hhanded, hreserved, htotal, hbase⟩ := hend
  have hpage : s.IsPage (2 ^ 64) := ⟨1, by omega, by unfold pageSize; omega⟩
  cases h.2 hzero _ hpage with
  | inl hres => simp [Owner.Reserved, hreserved] at hres
  | inr hold => simp [hhanded] at hold

end AegisOS.PhysicalMemory
