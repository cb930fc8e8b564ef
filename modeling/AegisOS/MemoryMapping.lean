import AegisOS.PhysicalMemory
import AegisOS.UserMemory
import AegisOS.PageTablesRefine

/-! `sys_mmap` and `sys_munmap` (`kernel/core/syscall.c`) on the page frame allocator and the page
tables. -/
namespace AegisOS.Kernel
open PackedBits PageTables PhysicalMemory Nat Option List

/-- The allocator and the words of memory, in which the page tables lie. -/
structure Machine where
  phys : PhysMem
  word : U64 → U64

/-- Some calls of `phys_alloc_page` in a row, with their answers. -/
def takePages : Nat → PhysMem → PhysMem × List U64
  | 0, p => (p, [])
  | n + 1, p =>
    let got := PhysicalMemory.physAllocPage p
    let rest := takePages n got.1
    (rest.1, .ofNat 64 got.2 :: rest.2)

/-- `virt_map` of one page, which asks for at most three tables. -/
def virtMapPage (root : U64) (s : Machine) (va pa : U64) (flags : BitVec 32) : Machine × Int :=
  let m : Memory := ⟨s.word, (takePages 3 s.phys).2⟩
  let mapped := (virtMap root 2 m va pa PageTables.pageSize flags).getD (m, aegisOk)
  (⟨(takePages (3 - mapped.1.pages.length) s.phys).1, mapped.1.word⟩, mapped.2)

/-- The loop of `sys_mmap` from page `i` on, with the indices of the pages obtained. -/
def mmapLoop (root : U64) (va : UInt64) (flags : BitVec 32) :
    Nat → Nat → Machine → Machine × List Nat × Int
  | 0, _, s => (s, [], aegisOk)
  | n + 1, i, s =>
    let page := firstClear s.phys.bitmap s.phys.totalPages 0
    let got := PhysicalMemory.physAllocPage s.phys
    let s := { s with phys := got.1 }
    if got.2 = 0 then (s, page.toList, aegisEnomem)
    else
      let mapped := virtMapPage root s (va + .ofNat (i * 4096)).toBitVec (.ofNat 64 got.2) flags
      if mapped.2 ≠ aegisOk then (mapped.1, page.toList, mapped.2)
      else
        let rest := mmapLoop root va flags n (i + 1) mapped.1
        (rest.1, page.toList ++ rest.2.1, rest.2.2)

def wantWrite (prot : UInt64) : Prop := prot &&& 2 ≠ 0
  deriving Decidable
def wantExec (prot : UInt64) : Prop := prot &&& 4 ≠ 0
  deriving Decidable

def mmapPages (length : UInt64) : UInt64 := (length + 4096 - 1) / 4096

/-- Where the mapping starts; without an address, in the middle of the fixed heap. -/
def mmapAddr (addr : UInt64) : UInt64 :=
  if addr ≠ 0 then addr else .ofNat (aegisUserHeapBase + aegisUserHeapSize / 2)

def mmapFlags (prot : UInt64) : BitVec 32 :=
  let flags := vmUser ||| vmRead
  let flags := if wantWrite prot ∨ prot = 0 then flags ||| vmWrite else flags
  if wantExec prot then flags ||| vmExec else flags

/-- The machine, the indices of the pages obtained, and the address or the error. -/
def sysMmap (k : State) (root : U64) (s : Machine) (addr length prot : UInt64) :
    Machine × List Nat × Except Int UInt64 :=
  if length = 0 then (s, [], .error aegisEinval)
  else if wantWrite prot ∧ wantExec prot then (s, [], .error aegisEperm)
  else
    let va := mmapAddr addr
    if va &&& (4096 - 1) ≠ 0 then (s, [], .error aegisEinval)
    else if userWriteRangeOk k va (mmapPages length * 4096) = false then (s, [], .error aegisEinval)
    else
      let out := mmapLoop root va (mmapFlags prot) (mmapPages length).toNat 0 s
      (out.1, out.2.1, if out.2.2 ≠ aegisOk then .error out.2.2 else .ok va)

/-- The unmapping loop takes one round for each page and one to stop. -/
def sysMunmap (k : State) (root : U64) (s : Machine) (addr length : UInt64) :
    Option (Machine × Int) :=
  if addr = 0 ∨ length = 0 ∨ userWriteRangeOk k addr length = false then some (s, aegisEinval)
  else
    (virtUnmap root (length.toNat / 4096 + 2) ⟨s.word, []⟩ addr.toBitVec length.toBitVec).map
      fun m => ({ s with word := m.1.word }, aegisOk)

/-! The promise of a call. -/

def translate (root : U64) (s : Machine) (va : U64) : Except Int (U64 × U64) :=
  pageTableQuery ⟨s.word, []⟩ root va

def Unmapped (root : U64) (s : Machine) (addr length : UInt64) : Prop :=
  ∀ i < (mmapPages length).toNat,
    (translate root s (mmapAddr addr + .ofNat (i * 4096)).toBitVec).isOk = false

instance (root : U64) (s : Machine) (addr length : UInt64) :
    Decidable (Unmapped root s addr length) :=
  inferInstanceAs (Decidable (∀ i < (mmapPages length).toNat, _))

/-- An error leaves the number of free pages and every translation as they were; pages that were
not mapped before can be mapped and unmapped again, and are then free. -/
structure AtomicReversible (k : State) (root : U64) (s : Machine) (addr length prot : UInt64) :
    Prop where
  atomic : (sysMmap k root s addr length prot).2.2.isOk = false →
    (sysMmap k root s addr length prot).1.phys.freePagesCount = s.phys.freePagesCount ∧
      ∀ va, translate root (sysMmap k root s addr length prot).1 va = translate root s va
  reversible : (sysMmap k root s addr length prot).2.2.isOk = true → Unmapped root s addr length →
    ∀ s' rc, sysMunmap k root (sysMmap k root s addr length prot).1 (mmapAddr addr) length =
        some (s', rc) →
      rc = aegisOk ∧ (∀ va, translate root s' va = translate root s va) ∧
        ∀ i ∈ (sysMmap k root s addr length prot).2.1, test s'.phys.bitmap i = false

def Rejected (k : State) (addr length prot : UInt64) : Prop :=
  length = 0 ∨ wantWrite prot ∧ wantExec prot ∨ mmapAddr addr &&& (4096 - 1) ≠ 0 ∨
    userWriteRangeOk k (mmapAddr addr) (mmapPages length * 4096) = false

def NoFreePage (p : PhysMem) : Prop := ∀ i < p.totalPages, test p.bitmap i = true

instance (p : PhysMem) : Decidable (NoFreePage p) :=
  inferInstanceAs (Decidable (∀ i < p.totalPages, _))

/-! Pages are only ever taken. -/

/-- `n` pages were taken between two states of the allocator. -/
structure Taken (p p' : PhysMem) (n : Nat) : Prop where
  set : ∀ i, test p.bitmap i = true → test p'.bitmap i = true
  count : (p'.freePagesCount + n) % 2 ^ 64 = p.freePagesCount % 2 ^ 64

variable {p p' p'' : PhysMem} {n n' : Nat}

theorem Taken.refl (p : PhysMem) : Taken p p 0 := ⟨fun _ h => h, rfl⟩

theorem Taken.trans (h : Taken p p' n) (h' : Taken p' p'' n') : Taken p p'' (n + n') := by
  refine ⟨fun i hi => h'.set i (h.set i hi), ?_⟩
  have hcount := h.count
  have hcount' := h'.count
  omega

theorem Taken.count_ne (h : Taken p p' n) (hpos : 0 < n) (hlt : n < 2 ^ 64) :
    p'.freePagesCount ≠ p.freePagesCount := by
  have hcount := h.count
  omega

theorem physAllocPage_taken (p : PhysMem) :
    (firstClear p.bitmap p.totalPages 0 = none ∧ PhysicalMemory.physAllocPage p = (p, 0)) ∨
      ∃ i, firstClear p.bitmap p.totalPages 0 = some i ∧
        Taken p (PhysicalMemory.physAllocPage p).1 1 ∧
        test (PhysicalMemory.physAllocPage p).1.bitmap i = true := by
  unfold PhysicalMemory.physAllocPage
  cases firstClear p.bitmap p.totalPages 0 with
  | none => exact .inl ⟨rfl, rfl⟩
  | some i =>
    refine .inr ⟨i, rfl, ⟨fun j hj => ?_, ?_⟩, ?_⟩
    · simp [test_set, hj]
    · show ((p.freePagesCount + 2 ^ 64 - 1) % 2 ^ 64 + 1) % 2 ^ 64 = _
      omega
    · simp [test_set]

theorem takePages_taken (n : Nat) (p : PhysMem) : ∃ j ≤ n, Taken p (takePages n p).1 j := by
  induction n generalizing p with
  | zero => exact ⟨0, le_rfl, .refl p⟩
  | succ n ih =>
    obtain ⟨j, hj, htaken⟩ := ih (PhysicalMemory.physAllocPage p).1
    rcases physAllocPage_taken p with ⟨-, heq⟩ | ⟨i, -, hfirst, -⟩
    · rw [heq] at htaken
      refine ⟨j, le_succ_of_le hj, ?_⟩
      simp only [takePages, heq]
      exact htaken
    · exact ⟨1 + j, by omega, hfirst.trans htaken⟩

/-- For one page two rounds of the loop of `virt_map` are enough. -/
theorem virtMap_page (root : U64) (m : Memory) (va pa : U64) (flags : BitVec 32) :
    virtMap root 2 m va pa PageTables.pageSize flags = some (pageTableMap m root va pa flags) := by
  have hva : va + 0 = va := BitVec.add_zero va
  have hpa : pa + 0 = pa := BitVec.add_zero pa
  unfold virtMap virtMapLoop
  rw [if_pos (by decide), hva, hpa]
  rcases pageTableMap m root va pa flags with ⟨m', rc⟩
  by_cases hrc : rc = aegisOk
  · subst hrc
    rfl
  · simp [hrc]

theorem virtMapPage_taken (root : U64) (s : Machine) (va pa : U64) (flags : BitVec 32) :
    ∃ j ≤ 3, Taken s.phys (virtMapPage root s va pa flags).1.phys j := by
  unfold virtMapPage
  simp only [virtMap_page]
  obtain ⟨j, hj, htaken⟩ := takePages_taken
    (3 - (pageTableMap ⟨s.word, (takePages 3 s.phys).2⟩ root va pa flags).1.pages.length) s.phys
  exact ⟨j, by omega, htaken⟩

theorem mmapLoop_taken (root : U64) (va : UInt64) (flags : BitVec 32) (n i : Nat) (s : Machine) :
    ∃ j ≤ 4 * n, Taken s.phys (mmapLoop root va flags n i s).1.phys j ∧
      (∀ a ∈ (mmapLoop root va flags n i s).2.1,
        test (mmapLoop root va flags n i s).1.phys.bitmap a = true) ∧
      (n ≠ 0 → ∀ a, firstClear s.phys.bitmap s.phys.totalPages 0 = some a →
        0 < j ∧ a ∈ (mmapLoop root va flags n i s).2.1) := by
  induction n generalizing i s with
  | zero => exact ⟨0, le_rfl, .refl _, by simp [mmapLoop], fun h => absurd rfl h⟩
  | succ n ih =>
    rcases physAllocPage_taken s.phys with ⟨hnone, heq⟩ | ⟨a, hsome, hfirst, hset⟩
    · refine ⟨0, by omega, ?_⟩
      simp only [mmapLoop, hnone, heq]
      exact ⟨.refl _, by simp, by simp⟩
    simp only [mmapLoop, hsome]
    generalize PhysicalMemory.physAllocPage s.phys = got at hfirst hset ⊢
    obtain ⟨j, hj, hmapped⟩ := virtMapPage_taken root { s with phys := got.1 }
      (va + .ofNat (i * 4096)).toBitVec (.ofNat 64 got.2) flags
    generalize virtMapPage root { s with phys := got.1 } (va + .ofNat (i * 4096)).toBitVec
      (.ofNat 64 got.2) flags = mapped at hmapped ⊢
    have hboth := hfirst.trans hmapped
    by_cases hzero : got.2 = 0
    · rw [if_pos hzero]
      exact ⟨1, by omega, hfirst, by simpa using hset, by simp⟩
    by_cases hrc : mapped.2 ≠ aegisOk
    · rw [if_neg hzero, if_pos hrc]
      exact ⟨1 + j, by omega, hboth, by simpa using hmapped.set a hset, by simp⟩
    obtain ⟨j', hj', hrest, hkept, -⟩ := ih (i + 1) mapped.1
    rw [if_neg hzero, if_neg hrc]
    refine ⟨1 + j + j', by omega, hboth.trans hrest, fun b hb => ?_, by simp⟩
    rcases List.mem_append.mp hb with hb | hb
    · have hba : b = a := by simpa using hb
      exact hba ▸ hrest.set a (hmapped.set a hset)
    · exact hkept b hb

theorem NoFreePage.firstClear_eq (h : NoFreePage p) : firstClear p.bitmap p.totalPages 0 = none := by
  cases hfirst : firstClear p.bitmap p.totalPages 0 with
  | none => rfl
  | some i =>
    obtain ⟨-, hlt, hclear⟩ := firstClear_some hfirst
    rw [h i (by omega)] at hclear
    cases hclear

theorem exists_firstClear (h : ¬NoFreePage p) :
    ∃ a, firstClear p.bitmap p.totalPages 0 = some a := by
  refine ne_none_iff_exists'.mp fun hnone => h fun i hi => ?_
  exact firstClear_none hnone i (zero_le _) (by omega)

/-! The two calls. -/

section
variable {k : State} {root : U64} {s : Machine} {addr length prot : UInt64}

theorem sysMmap_rejected (h : Rejected k addr length prot) :
    ∃ e, sysMmap k root s addr length prot = (s, [], .error e) := by
  unfold sysMmap
  dsimp only
  split_ifs with hlen hprot halign hrange
  · exact ⟨_, rfl⟩
  · exact ⟨_, rfl⟩
  · exact ⟨_, rfl⟩
  · exact ⟨_, rfl⟩
  all_goals exact absurd h (by simp only [Rejected]; tauto)

theorem sysMmap_accepted (h : ¬Rejected k addr length prot) :
    sysMmap k root s addr length prot =
      let out := mmapLoop root (mmapAddr addr) (mmapFlags prot) (mmapPages length).toNat 0 s
      (out.1, out.2.1, if out.2.2 ≠ aegisOk then .error out.2.2 else .ok (mmapAddr addr)) := by
  simp only [Rejected, not_or] at h
  obtain ⟨hlen, hprot, halign, hrange⟩ := h
  rw [sysMmap, if_neg hlen, if_neg hprot, if_neg halign, if_neg hrange]

theorem mmapPages_pos (h : ¬Rejected k addr length prot) : (mmapPages length).toNat ≠ 0 := by
  simp only [Rejected, not_or, Bool.not_eq_false] at h
  obtain ⟨-, hlen, -⟩ := (regionCheck_write k).accepted h.2.2.2
  intro hzero
  have hpages : mmapPages length = 0 := UInt64.toNat_inj.mp hzero
  rw [hpages] at hlen
  exact hlen (by decide)

theorem mmapPages_lt (length : UInt64) : (mmapPages length).toNat < 2 ^ 53 := by
  have hlt := (length + 4096 - 1).toNat_lt
  show (length + 4096 - 1).toNat / 4096 < 2 ^ 53
  omega

theorem sysMmap_noFreePage (hfree : NoFreePage s.phys) :
    ∃ e, sysMmap k root s addr length prot = (s, [], .error e) := by
  by_cases h : Rejected k addr length prot
  · exact sysMmap_rejected h
  obtain ⟨n, hn⟩ := exists_eq_succ_of_ne_zero (mmapPages_pos h)
  have hnone := hfree.firstClear_eq
  rw [sysMmap_accepted h, hn]
  simp [mmapLoop, PhysicalMemory.physAllocPage, hnone, aegisEnomem, aegisOk]

theorem virtUnmapLoop_returns {va size : U64} (hsize : size.toNat + 4096 < 2 ^ 64) {fuel : Nat}
    {m : Memory} {offset : U64} (hoffset : offset.toNat < size.toNat + 4096)
    (hfuel : size.toNat + 4096 ≤ offset.toNat + 4096 * fuel) :
    ∃ m' rc, virtUnmapLoop root va size fuel m offset = some (m', rc) := by
  induction fuel generalizing m offset with
  | zero => omega
  | succ fuel ih =>
    unfold virtUnmapLoop
    by_cases hlt : offset < size
    · have hlt' : offset.toNat < size.toNat := hlt
      have hnext : (offset + 4096).toNat = offset.toNat + 4096 := by
        exact mod_eq_of_lt (by show offset.toNat + 4096 < 2 ^ 64; omega)
      rw [if_pos hlt]
      exact ih (by omega) (by omega)
    · exact ⟨m, aegisOk, if_neg hlt⟩

/-- `sys_munmap` leaves the allocator alone. -/
theorem sysMunmap_phys {s' : Machine} {rc : Int}
    (h : sysMunmap k root s addr length = some (s', rc)) : s'.phys = s.phys := by
  unfold sysMunmap at h
  split_ifs at h
  · cases h
    rfl
  · obtain ⟨m, -, hm⟩ := map_eq_some_iff.mp h
    cases hm
    rfl

/-- At an address that starts a page `sys_munmap` returns. -/
theorem sysMunmap_returns (halign : addr &&& (4096 - 1) = 0) :
    ∃ s' rc, sysMunmap k root s addr length = some (s', rc) := by
  unfold sysMunmap
  split_ifs with hbad
  · exact ⟨_, _, rfl⟩
  simp only [not_or, Bool.not_eq_false] at hbad
  obtain ⟨hne, -, hwrap⟩ := (regionCheck_write k).accepted hbad.2.2
  have hpage : 4096 ≤ addr.toNat := by
    have hmod : addr.toNat % 4096 = 0 := by
      have := congrArg UInt64.toNat halign
      rwa [UInt64.toNat_and, show ((4096 : UInt64) - 1).toNat = 2 ^ 12 - 1 from rfl,
        and_two_pow_sub_one_eq_mod] at this
    have hne' : addr.toNat ≠ 0 := fun h => hne (UInt64.toNat_inj.mp h)
    omega
  have hsize : length.toBitVec.toNat = length.toNat := rfl
  have hzero : (0 : U64).toNat = 0 := rfl
  have hloop : ∃ m rc, virtUnmapLoop root addr.toBitVec length.toBitVec
      (length.toNat / 4096 + 2) ⟨s.word, []⟩ 0 = some (m, rc) :=
    virtUnmapLoop_returns (by omega) (by omega) (by omega)
  obtain ⟨m, rc, hloop⟩ := hloop
  exact ⟨_, _, by rw [virtUnmap, hloop]; rfl⟩

theorem AtomicReversible.of_unchanged
    (h : ∃ e, sysMmap k root s addr length prot = (s, [], .error e)) :
    AtomicReversible k root s addr length prot := by
  obtain ⟨e, he⟩ := h
  constructor
  · intro _
    rw [he]
    exact ⟨rfl, fun _ => rfl⟩
  · intro hok
    rw [he] at hok
    cases hok

end

/-- A region of `n` pages just after `phys_mem_init`, and empty tables. -/
def fresh (n : Nat) : Machine := ⟨⟨fun _ => 0, 0x400000, n, n⟩, fun _ => 0⟩

/-- Of the calls the promise is about, those keep it that end before the first page is taken: no
page taken is ever given back. -/
theorem mmap_reversible_iff (k : State) (root : U64) (s : Machine) (addr length prot : UInt64)
    (hcase : (sysMmap k root s addr length prot).2.2.isOk = false ∨ Unmapped root s addr length) :
    AtomicReversible k root s addr length prot ↔
      Rejected k addr length prot ∨ NoFreePage s.phys := by
  constructor
  · intro h
    by_contra hnot
    obtain ⟨haccepted, hfree⟩ := not_or.mp hnot
    obtain ⟨a, ha⟩ := exists_firstClear hfree
    obtain ⟨j, hj, htaken, hkept, hfirst⟩ := mmapLoop_taken root (mmapAddr addr) (mmapFlags prot)
      (mmapPages length).toNat 0 s
    obtain ⟨hpos, hmem⟩ := hfirst (mmapPages_pos haccepted) a ha
    have hpages := mmapPages_lt length
    obtain ⟨hatomic, hreversible⟩ := h
    rw [sysMmap_accepted haccepted] at hatomic hreversible hcase
    cases hok : (if (mmapLoop root (mmapAddr addr) (mmapFlags prot) (mmapPages length).toNat 0
        s).2.2 ≠ aegisOk then Except.error (mmapLoop root (mmapAddr addr) (mmapFlags prot)
        (mmapPages length).toNat 0 s).2.2 else .ok (mmapAddr addr)).isOk with
    | false => exact htaken.count_ne hpos (by omega) (hatomic hok).1
    | true =>
      have hun : Unmapped root s addr length := hcase.resolve_left (by rw [hok]; decide)
      have halign : mmapAddr addr &&& (4096 - 1) = 0 := by
        simp only [Rejected, not_or, not_not] at haccepted
        exact haccepted.2.2.1
      obtain ⟨s', rc, hs'⟩ := sysMunmap_returns halign
      have hclear := (hreversible hok hun s' rc hs').2.2 a hmem
      rw [sysMunmap_phys hs', hkept a hmem] at hclear
      cases hclear
  · rintro (h | h)
    · exact .of_unchanged (sysMmap_rejected h)
    · exact .of_unchanged (sysMmap_noFreePage h)

theorem mmap_after_last_page :
    AtomicReversible booted 0x200000 { fresh 1 with phys := (takePages 1 (fresh 1).phys).1 }
      0 4096 0 :=
  (mmap_reversible_iff _ _ _ _ _ _ (.inl (by decide +kernel))).mpr (.inr (by decide +kernel))

/-- With one page the page is taken and then there is none for a table; with four the page stays
taken when it is unmapped. -/
theorem mmap_page_lost : ¬AtomicReversible booted 0x200000 (fresh 1) 0 4096 0 ∧
      ¬AtomicReversible booted 0x200000 (fresh 4) 0 4096 0 := by
  constructor
  · intro h
    exact absurd (h.atomic (by decide +kernel)).1 (by decide +kernel)
  intro h
  have hreturns : ∃ s' rc, sysMunmap booted 0x200000
      (sysMmap booted 0x200000 (fresh 4) 0 4096 0).1 (mmapAddr 0) 4096 = some (s', rc) :=
    sysMunmap_returns (by decide)
  obtain ⟨s', rc, hs'⟩ := hreturns
  have hclear := (h.reversible (by decide +kernel) (by decide +kernel) s' rc hs').2.2 0
    (by decide +kernel)
  rw [sysMunmap_phys hs'] at hclear
  exact absurd hclear (by decide +kernel)

/-! Which addresses `sys_munmap` unmaps: it goes through the range in steps of a page from its
first byte on, whether or not a page begins there. -/

/-- The bytes of the range; addresses are translated by their lower 48 bits. -/
def Covered (addr length : UInt64) (va : U64) : Prop :=
  ∃ o < length.toNat, (addr.toNat + o) % 2 ^ 48 = va.toNat % 2 ^ 48

def Mapped (root : U64) (s : Machine) (va : U64) : Prop := (translate root s va).isOk = true

/-- Every page that the range overlaps is unmapped, and no byte outside of the range. -/
structure UnmapsRange (root : U64) (s s' : Machine) (addr length : UInt64) : Prop where
  inside : ∀ va va', Covered addr length va → vpn va' = vpn va → ¬Mapped root s' va'
  outside : ∀ va, ¬Covered addr length va → Mapped root s va → Mapped root s' va

theorem mapped_iff {root : U64} {s : Machine} {roots : List U64} (hs : Sound s.word roots)
    (hroot : root ∈ roots) (va : U64) :
    Mapped root s va ↔ (viewOf s.word roots root (vpn va)).isSome = true := by
  rw [Mapped, translate, pageTableQuery_view hs hroot, PageMap.query]
  cases viewOf s.word roots root (vpn va) <;> exact .rfl

theorem unmapPages_at (f : PageMap) (l0 va : U64) (n : Nat) (k : BitVec 36) :
    (f.unmapPages l0 va n l0 k).isSome = true ↔
      (f l0 k).isSome = true ∧ ∀ j < n, vpn (pageAt va j) ≠ k := by
  induction n with
  | zero => simp [PageMap.unmapPages]
  | succ n ih =>
    rw [PageMap.unmapPages, PageMap.set]
    by_cases hk : k = vpn (pageAt va n)
    · rw [if_pos ⟨rfl, hk⟩]
      refine iff_of_false (by simp) fun h => h.2 n (Nat.lt_succ_self n) hk.symm
    rw [if_neg fun h => hk h.2, ih]
    refine and_congr_right fun _ => ⟨fun h j hj => ?_, fun h j hj => h j (by omega)⟩
    rcases Nat.lt_succ_iff_lt_or_eq.mp hj with hlt | rfl
    · exact h j hlt
    · exact .symm hk

theorem virtUnmapLoop_endless {root va size : U64} (hsize : 2 ^ 64 < size.toNat + 4096)
    (fuel : Nat) {m : Memory} {offset : U64} (hoffset : offset.toNat % 4096 = 0) :
    virtUnmapLoop root va size fuel m offset = none := by
  induction fuel generalizing m offset with
  | zero => rfl
  | succ fuel ih =>
    have hlt : offset < size := by
      show offset.toNat < size.toNat
      omega
    rw [virtUnmapLoop, if_pos hlt]
    apply ih
    have h4096 : (4096 : U64).toNat = 4096 := rfl
    rw [BitVec.toNat_add]
    omega

section
variable {k : State} {root : U64} {s s' : Machine} {addr length : UInt64} {roots : List U64}

theorem sysMunmap_mapped (hs : Sound s.word roots) (hroot : root ∈ roots)
    (h : sysMunmap k root s addr length = some (s', aegisOk)) (va : U64) :
    Mapped root s' va ↔ Mapped root s va ∧
      ∀ j < (length.toNat + 4095) / 4096, vpn (pageAt addr.toBitVec j) ≠ vpn va := by
  unfold sysMunmap at h
  split_ifs at h with hbad
  · cases h
  obtain ⟨m, hm, heq⟩ := map_eq_some_iff.mp h
  obtain ⟨heq, -⟩ := Prod.mk.inj heq
  subst heq
  have hlen : length.toBitVec.toNat = length.toNat := rfl
  have hsize : length.toNat + 4096 ≤ 2 ^ 64 := by
    by_contra hbig
    rw [virtUnmap, virtUnmapLoop_endless (by omega) _ rfl] at hm
    cases hm
  have hstart : Leads roots ⟨s.word, []⟩
      ((viewOf s.word roots).unmapPages root addr.toBitVec 0) :=
    leads_refl hs ⟨nodup_nil, fun a ha => absurd ha not_mem_nil⟩
  have hfuel : (length.toBitVec.toNat + 4095) / 4096 - 0 < length.toNat / 4096 + 2 := by omega
  have hzero : (0 : U64).toNat = 4096 * 0 := rfl
  obtain ⟨m', hm', hleads⟩ := virtUnmapLoop_spec hroot (by omega) hstart hzero (Nat.zero_le _) hfuel
  rw [virtUnmap, hm'] at hm
  cases hm
  rw [mapped_iff hleads.sound hroot, mapped_iff hs hroot, hleads.view, unmapPages_at, hlen]

theorem vpn_eq_iff (va va' : U64) : vpn va = vpn va' ↔
    va.toNat / 4096 % 2 ^ 36 = va'.toNat / 4096 % 2 ^ 36 := by
  rw [← toNat_vpn, ← toNat_vpn, BitVec.toNat_inj]

theorem covered_pageAt {j : Nat} (hj : j < (length.toNat + 4095) / 4096) :
    Covered addr length (pageAt addr.toBitVec j) := by
  refine ⟨4096 * j, by omega, ?_⟩
  rw [pageAt, toNat_add_ofNat]
  have haddr : addr.toBitVec.toNat = addr.toNat := rfl
  omega

/-- The call unmaps exactly its range just when no mapped page lies in it only in part. -/
theorem munmap_range_iff (k : State) (root : U64) (s s' : Machine) (addr length : UInt64)
    (roots : List U64) (hs : Sound s.word roots) (hroot : root ∈ roots)
    (h : sysMunmap k root s addr length = some (s', aegisOk)) :
    UnmapsRange root s s' addr length ↔
      ∀ va va', Mapped root s va → vpn va' = vpn va → Covered addr length va →
        Covered addr length va' := by
  have hmapped := sysMunmap_mapped hs hroot h
  have hpage {va va' : U64} (hva : Mapped root s va) (heq : vpn va' = vpn va) :
      Mapped root s va' := by
    rw [mapped_iff hs hroot] at hva ⊢
    rwa [heq]
  constructor
  · intro hexact va va' hva heq hcov
    by_contra hout
    have hkept := hexact.outside va' hout (hpage hva heq)
    exact hexact.inside va va' hcov heq hkept
  intro hwhole
  constructor
  · intro va va' hcov heq hva'
    obtain ⟨hbefore, hnot⟩ := (hmapped va').mp hva'
    -- the byte of the page that the steps of the loop would come to
    have hsame : vpn (.ofNat 64 (va.toNat / 4096 * 4096 + addr.toNat % 4096)) = vpn va := by
      rw [vpn_eq_iff, BitVec.toNat_ofNat]
      omega
    obtain ⟨o, ho, hb⟩ := hwhole va _ (hpage hbefore heq.symm) hsame hcov
    rw [BitVec.toNat_ofNat] at hb
    have hstep : o % 4096 = 0 := by
      omega
    refine hnot (o / 4096) (by omega) ?_
    rw [heq, vpn_eq_iff, pageAt, toNat_add_ofNat]
    have haddr : addr.toBitVec.toNat = addr.toNat := rfl
    omega
  · intro va hout hva
    refine (hmapped va).mpr ⟨hva, fun j hj heq => hout ?_⟩
    exact hwhole _ va (hpage hva heq) heq.symm (covered_pageAt hj)

end

/-- Two pages are mapped one behind the other. -/
def mapTwoPages : PageTables.Event :=
  ⟨.virtMap (mmapAddr 0).toBitVec 0x41000000#64 8192 vmWrite, firstMap.pages, 3⟩

/-- The first of the two is unmapped, and the second stays. -/
theorem munmap_of_one_of_two : ∃ s s', sysMunmap booted firstRoot s (mmapAddr 0) 4096 =
        some (s', aegisOk) ∧
      Mapped firstRoot s (mmapAddr 0).toBitVec ∧ Mapped firstRoot s ((mmapAddr 0).toBitVec + 4096) ∧
      UnmapsRange firstRoot s s' (mmapAddr 0) 4096 := by
  have hfound : (exec firstRoot (.init firstRoot fun _ => 0) mapTwoPages).any (fun r =>
      let s : Machine := ⟨(fresh 1).phys, r.1.word⟩
      (sysMunmap booted firstRoot s (mmapAddr 0) 4096).any (fun r => r.2 == aegisOk) &&
        (translate firstRoot s (mmapAddr 0).toBitVec).isOk &&
        (translate firstRoot s ((mmapAddr 0).toBitVec + 4096)).isOk) = true := by decide +kernel
  obtain ⟨⟨p, ret⟩, hexec, hr⟩ := (any_eq_true _ _).mp hfound
  simp only [Bool.and_eq_true] at hr
  obtain ⟨⟨hrc, hfirst⟩, hsecond⟩ := hr
  obtain ⟨⟨s', rc⟩, hret, hok⟩ := (any_eq_true _ _).mp hrc
  obtain rfl := beq_iff_eq.mp hok
  have hadmitted : Admitted (.init firstRoot fun _ => 0) mapTwoPages :=
    ⟨rfl, firstMap_admitted.fresh, by decide⟩
  obtain ⟨p', ret', hexec', hintact, -⟩ := (intact_init (by decide) (by decide)).exec hadmitted
  cases hexec.symm.trans hexec'
  refine ⟨_, s', hret, hfirst, hsecond, (munmap_range_iff _ _ _ _ _ _ _ hintact.sound hintact.kernel
    hret).mpr fun va va' _ heq hcov => ?_⟩
  obtain ⟨o, ho, hb⟩ := hcov
  have haddr : (mmapAddr 0).toNat % 4096 = 0 := by decide
  have hlength : (4096 : UInt64).toNat = 4096 := rfl
  rw [vpn_eq_iff] at heq
  exact ⟨va'.toNat % 4096, by omega, by omega⟩

/-- A byte of a mapped page is unmapped, and the rest of the page goes with it. -/
theorem munmap_of_one_byte :
    ∃ s', sysMunmap booted 0x200000 (sysMmap booted 0x200000 (fresh 4) 0 4096 0).1 (mmapAddr 0) 1 =
        some (s', aegisOk) ∧
      ¬UnmapsRange 0x200000 (sysMmap booted 0x200000 (fresh 4) 0 4096 0).1 s' (mmapAddr 0) 1 := by
  have hrc : (sysMunmap booted 0x200000 (sysMmap booted 0x200000 (fresh 4) 0 4096 0).1 (mmapAddr 0)
      1).map (fun r => (r.2, (translate 0x200000 r.1 ((mmapAddr 0).toBitVec + 1)).isOk)) =
      some (aegisOk, false) := by decide +kernel
  obtain ⟨⟨s', rc⟩, hret, heq⟩ := map_eq_some_iff.mp hrc
  obtain ⟨rfl, hafter⟩ := Prod.mk.inj heq
  refine ⟨s', hret, fun h => ?_⟩
  have hkept := h.outside ((mmapAddr 0).toBitVec + 1) (by
    rintro ⟨o, ho, hb⟩
    have h0 : o = 0 := by
      have hone : (1 : UInt64).toNat = 1 := rfl
      omega
    rw [h0] at hb
    exact absurd hb (by decide)) (by unfold Mapped; decide +kernel)
  rw [Mapped, hafter] at hkept
  cases hkept

end AegisOS.Kernel
