import AegisOS.Errno
import AegisOS.Lib.GuardedRun
import Mathlib.Data.BitVec
import AegisOS.Lib.RadixTables

/-! The page tables (`kernel/memory/page_tables.c`, `kernel/memory/virtual_memory.c`) and
the roots made for user address spaces (`kernel/memory/page_isolation.c`). Memory holds
words at byte addresses, physical and virtual ones being the same in the kernel. What
`phys_alloc_page` answers is given in advance, `0` for a failure. -/
namespace AegisOS.PageTables

abbrev U64 := BitVec 64

def pageSize : U64 := 4096

def vmRead : BitVec 32 := 1 <<< 0
def vmWrite : BitVec 32 := 1 <<< 1
def vmExec : BitVec 32 := 1 <<< 2
def vmUser : BitVec 32 := 1 <<< 3
def vmGuard : BitVec 32 := 1 <<< 5

def pteValid : U64 := 1 <<< 0
def pteTable : U64 := 1 <<< 1
def ptePage : U64 := 1 <<< 1
def pteAf : U64 := 1 <<< 10
def pteShInner : U64 := 3 <<< 8
def pteMairIdx (n : U64) : U64 := n <<< 2
def pteApRwEl1 : U64 := 0 <<< 6
def pteApRwAll : U64 := 1 <<< 6
def pteApRoEl1 : U64 := 2 <<< 6
def pteApRoAll : U64 := 3 <<< 6
def ptePxn : U64 := 1 <<< 53
def pteUxn : U64 := 1 <<< 54
def pteAddrMask : U64 := 0x0000FFFFFFFFF000

def l0Shift : Nat := 39
def l1Shift : Nat := 30
def l2Shift : Nat := 21
def l3Shift : Nat := 12
def indexMask : U64 := 0x1FF

def index (shift : Nat) (va : U64) : BitVec 9 := ((va >>> shift) &&& indexMask).setWidth 9

/-- The address of `table[i]`. -/
def slot (table : U64) (i : BitVec 9) : U64 := table + 8 * i.setWidth 64

structure Memory where
  word : U64 → U64
  /-- What `phys_alloc_page` will answer. -/
  pages : List U64

def Memory.entry (m : Memory) (table : U64) (i : BitVec 9) : U64 := m.word (slot table i)

def Memory.store (m : Memory) (a w : U64) : Memory := { m with word := Function.update m.word a w }

def physAllocPage (m : Memory) : Memory × U64 :=
  match m.pages with
  | [] => (m, 0)
  | page :: pages => ({ m with pages := pages }, page)

def Memory.zeroPage (m : Memory) (page : U64) : Memory :=
  { m with word := fun a => if a - page < pageSize then 0 else m.word a }

def allocPageTable (m : Memory) : Memory × U64 :=
  let (m, page) := physAllocPage m
  if page = 0 then (m, 0) else (m.zeroPage page, page)

def pageAttrsFromFlags (flags : BitVec 32) : U64 :=
  let attrs := pteValid ||| ptePage ||| pteAf ||| pteShInner ||| pteMairIdx 0
  if flags &&& vmUser ≠ 0 then
    let attrs := if flags &&& vmWrite ≠ 0 then attrs ||| pteApRwAll else attrs ||| pteApRoAll
    let attrs := attrs ||| ptePxn
    if flags &&& vmExec = 0 then attrs ||| pteUxn else attrs
  else
    let attrs := if flags &&& vmWrite ≠ 0 then attrs ||| pteApRwEl1 else attrs ||| pteApRoEl1
    if flags &&& vmExec = 0 then attrs ||| (pteUxn ||| ptePxn) else attrs ||| pteUxn

/-- One level of `page_table_map`: the table below, made if it is missing. -/
def nextTable (m : Memory) (table : U64) (i : BitVec 9) : Memory × Option U64 :=
  if m.entry table i &&& pteValid = 0 then
    let (m, new) := allocPageTable m
    if new = 0 then (m, none)
    else
      let m := m.store (slot table i) ((new &&& pteAddrMask) ||| pteValid ||| pteTable)
      (m, some (m.entry table i &&& pteAddrMask))
  else (m, some (m.entry table i &&& pteAddrMask))

def pageTableMap (m : Memory) (l0 va pa : U64) (flags : BitVec 32) : Memory × Int :=
  if l0 = 0 then (m, aegisEinval)
  else if va &&& (pageSize - 1) ≠ 0 ∨ pa &&& (pageSize - 1) ≠ 0 then (m, aegisEinval)
  else if flags &&& vmGuard ≠ 0 then (m, aegisEinval)
  else
    match nextTable m l0 (index l0Shift va) with
    | (m, none) => (m, aegisEnomem)
    | (m, some l1) =>
      match nextTable m l1 (index l1Shift va) with
      | (m, none) => (m, aegisEnomem)
      | (m, some l2) =>
        match nextTable m l2 (index l2Shift va) with
        | (m, none) => (m, aegisEnomem)
        | (m, some l3) =>
          (m.store (slot l3 (index l3Shift va)) ((pa &&& pteAddrMask) ||| pageAttrsFromFlags flags),
            aegisOk)

def pageTableQuery (m : Memory) (l0 va : U64) : Except Int (U64 × U64) :=
  if l0 = 0 then .error aegisEinval
  else if m.entry l0 (index l0Shift va) &&& pteValid = 0 then .error aegisEnoent
  else
    let l1 := m.entry l0 (index l0Shift va) &&& pteAddrMask
    if m.entry l1 (index l1Shift va) &&& pteValid = 0 then .error aegisEnoent
    else
      let l2 := m.entry l1 (index l1Shift va) &&& pteAddrMask
      if m.entry l2 (index l2Shift va) &&& pteValid = 0 then .error aegisEnoent
      else
        let l3 := m.entry l2 (index l2Shift va) &&& pteAddrMask
        let entry := m.entry l3 (index l3Shift va)
        if entry &&& pteValid = 0 then .error aegisEnoent
        else .ok ((entry &&& pteAddrMask) ||| (va &&& (pageSize - 1)), entry)

/-! Ranges of pages under the kernel's root. -/

/-- The loop of `virt_map` from `offset` on. -/
def virtMapLoop (kernelPgtable va pa size : U64) (flags : BitVec 32) :
    Nat → Memory → U64 → Option (Memory × Int)
  | 0, _, _ => none
  | fuel + 1, m, offset =>
    if offset < size then
      match pageTableMap m kernelPgtable (va + offset) (pa + offset) flags with
      | (m, ret) =>
        if ret ≠ aegisOk then some (m, ret)
        else virtMapLoop kernelPgtable va pa size flags fuel m (offset + pageSize)
    else some (m, aegisOk)

def virtMap (kernelPgtable : U64) (fuel : Nat) (m : Memory) (va pa size : U64) (flags : BitVec 32) :
    Option (Memory × Int) :=
  virtMapLoop kernelPgtable va pa size flags fuel m 0

/-- One round of `virt_unmap`. Its own walk takes more bits of an entry for the address. -/
def unmapPage (kernelPgtable : U64) (m : Memory) (cur : U64) : Memory :=
  if m.entry kernelPgtable (index 39 cur) &&& 1 = 0 then m
  else
    let l1 := m.entry kernelPgtable (index 39 cur) &&& ~~~0xFFF
    if m.entry l1 (index 30 cur) &&& 1 = 0 then m
    else
      let l2 := m.entry l1 (index 30 cur) &&& ~~~0xFFF
      if m.entry l2 (index 21 cur) &&& 1 = 0 then m
      else
        let l3 := m.entry l2 (index 21 cur) &&& ~~~0xFFF
        m.store (slot l3 (index 12 cur)) 0

def virtUnmapLoop (kernelPgtable va size : U64) : Nat → Memory → U64 → Option (Memory × Int)
  | 0, _, _ => none
  | fuel + 1, m, offset =>
    if offset < size then
      virtUnmapLoop kernelPgtable va size fuel (unmapPage kernelPgtable m (va + offset)) (offset + 4096)
    else some (m, aegisOk)

def virtUnmap (kernelPgtable : U64) (fuel : Nat) (m : Memory) (va size : U64) :
    Option (Memory × Int) :=
  virtUnmapLoop kernelPgtable va size fuel m 0

/-! Roots. -/

def pageTableInit (kernelPgtable : U64) (m : Memory) : Memory := m.zeroPage kernelPgtable

def isoAllocZeroPage (m : Memory) : Memory × U64 :=
  let (m, page) := physAllocPage m
  if page = 0 then (m, 0) else (m.zeroPage page, page)

def isoAllocRoot (m : Memory) : Memory × Except Int U64 :=
  match isoAllocZeroPage m with
  | (m, root) =>
    if root = 0 then (m, .error aegisEnomem)
    else if root &&& (pageSize - 1) ≠ 0 then (m, .error aegisEinval)
    else (m, .ok root)

/-! Sequences of calls. -/

inductive Call
  | map (l0 va pa : U64) (flags : BitVec 32)
  | virtMap (va pa size : U64) (flags : BitVec 32)
  | virtUnmap (va size : U64)
  | allocRoot

/-- A call with the answers of `phys_alloc_page` during it and the fuel of its loop. -/
structure Event where
  call : Call
  pages : List U64
  fuel : Nat

structure Paging where
  word : U64 → U64
  roots : List U64

def Paging.init (kernelPgtable : U64) (word : U64 → U64) : Paging :=
  ⟨(pageTableInit kernelPgtable ⟨word, []⟩).word, [kernelPgtable]⟩

def exec (kernelPgtable : U64) (s : Paging) (e : Event) : Option (Paging × Int) :=
  let m : Memory := ⟨s.word, e.pages⟩
  match e.call with
  | .map l0 va pa flags =>
    let (m, ret) := pageTableMap m l0 va pa flags
    some (⟨m.word, s.roots⟩, ret)
  | .virtMap va pa size flags =>
    (PageTables.virtMap kernelPgtable e.fuel m va pa size flags).map fun (m, ret) =>
      (⟨m.word, s.roots⟩, ret)
  | .virtUnmap va size =>
    (PageTables.virtUnmap kernelPgtable e.fuel m va size).map fun (m, ret) =>
      (⟨m.word, s.roots⟩, ret)
  | .allocRoot =>
    match isoAllocRoot m with
    | (m, .error ret) => some (⟨m.word, s.roots⟩, ret)
    | (m, .ok root) => some (⟨m.word, root :: s.roots⟩, aegisOk)

def step (kernelPgtable : U64) (s : Paging) (e : Event) : Option Paging :=
  (exec kernelPgtable s e).map Prod.fst

/-! The tables under the roots form radix trees that share no table. Making a missing table
changes no translation, and writing an entry of the last level changes one. -/
open RadixTables Function List Nat Option

/-! Addresses. -/

def PageAligned (a : U64) : Prop := a.toNat % 4096 = 0
  deriving Decidable

theorem toNat_and_low (a : U64) : (a &&& (pageSize - 1)).toNat = a.toNat % 4096 := by
  have hmask : (pageSize - 1).toNat = 2 ^ 12 - 1 := by decide
  rw [BitVec.toNat_and, hmask, and_two_pow_sub_one_eq_mod]

variable {a t page new c : U64} {j : BitVec 9}

theorem and_low_eq_zero : a &&& (pageSize - 1) = 0 ↔ PageAligned a := by
  rw [← BitVec.toNat_inj, toNat_and_low]
  rfl

theorem toNat_index (shift : Nat) (va : U64) :
    (index shift va).toNat = va.toNat / 2 ^ shift % 512 := by
  have hmask : indexMask.toNat = 2 ^ 9 - 1 := by decide
  rw [index, BitVec.toNat_setWidth, BitVec.toNat_and, hmask, and_two_pow_sub_one_eq_mod,
    BitVec.toNat_ushiftRight, shiftRight_eq_div_pow, mod_mod]

theorem toNat_and_addrMask (a : U64) :
    (a &&& pteAddrMask).toNat = a.toNat % 2 ^ 48 / 2 ^ 12 * 2 ^ 12 := by
  have hmask : pteAddrMask.toNat = (2 ^ 36 - 1) <<< 12 := by decide
  rw [BitVec.toNat_and, hmask, ← shiftLeft_eq]
  apply eq_of_testBit_eq
  intro i
  rw [testBit_and, testBit_shiftLeft, testBit_shiftLeft, testBit_two_pow_sub_one,
    testBit_div_two_pow, testBit_mod_two_pow]
  by_cases h : 12 ≤ i
  · have hback : i - 12 + 12 = i := by omega
    have hiff : i - 12 < 36 ↔ i < 48 := by omega
    simp only [h, hback, hiff, decide_true, Bool.true_and]
    rw [Bool.and_comm]
  · simp [h]

theorem addrMask_aligned (a : U64) : PageAligned (a &&& pteAddrMask) := by
  unfold PageAligned
  rw [toNat_and_addrMask]
  omega

theorem and_addrMask_eq (ha : PageAligned a) (hlt : a.toNat < 2 ^ 48) : a &&& pteAddrMask = a := by
  unfold PageAligned at ha
  apply BitVec.eq_of_toNat_eq
  rw [toNat_and_addrMask]
  omega

theorem slot_inj {t' : U64} (ht : PageAligned t) (ht' : PageAligned t') {i : BitVec 9}
    (h : slot t i = slot t' j) : t = t' ∧ i = j := by
  unfold PageAligned at ht ht'
  unfold slot at h
  bv_omega

theorem slot_in_page (ht : PageAligned t) (hp : PageAligned page) (i : BitVec 9) :
    slot t i - page < pageSize ↔ t = page := by
  unfold PageAligned at ht hp
  unfold slot pageSize
  bv_omega

/-! Entries. -/

/-- What an entry of the last level says: a physical page and its attributes. -/
structure Mapping where
  page : U64
  attrs : U64

def tableOf (w : U64) : Option U64 := if w &&& pteValid = 0 then none else some (w &&& pteAddrMask)

def mappingOf (w : U64) : Option Mapping :=
  if w &&& pteValid = 0 then none else some ⟨w &&& pteAddrMask, w &&& ~~~pteAddrMask⟩

def tables (word : U64 → U64) : Tables U64 (BitVec 9) Mapping where
  child t i := tableOf (word (slot t i))
  leaf t i := mappingOf (word (slot t i))

/-- The entry `page_table_map` makes for a table. -/
def tableEntry (new : U64) : U64 := (new &&& pteAddrMask) ||| pteValid ||| pteTable

def pageEntry (pa : U64) (flags : BitVec 32) : U64 :=
  (pa &&& pteAddrMask) ||| pageAttrsFromFlags flags

theorem entry_and (a low mask : U64) : ((a &&& pteAddrMask) ||| low) &&& mask =
    (a &&& (pteAddrMask &&& mask)) ||| (low &&& mask) := by
  rw [BitVec.and_or_distrib_right, BitVec.and_assoc]

theorem tableEntry_addr (ha : PageAligned new) (hlt : new.toNat < 2 ^ 48) :
    tableEntry new &&& pteAddrMask = new := by
  rw [tableEntry, BitVec.or_assoc, entry_and, BitVec.and_self, and_addrMask_eq ha hlt,
    show (pteValid ||| pteTable) &&& pteAddrMask = 0#64 by decide, BitVec.or_zero]

theorem tableOf_tableEntry (ha : PageAligned new) (hlt : new.toNat < 2 ^ 48) :
    tableOf (tableEntry new) = some new := by
  have hvalid : tableEntry new &&& pteValid = pteValid := by
    rw [tableEntry, BitVec.or_assoc, entry_and, show pteAddrMask &&& pteValid = 0#64 by decide,
      BitVec.and_zero, BitVec.zero_or]
    decide
  rw [tableOf, hvalid, if_neg (by decide), tableEntry_addr ha hlt]

theorem attrs_valid (flags : BitVec 32) : pageAttrsFromFlags flags &&& pteValid = pteValid := by
  unfold pageAttrsFromFlags
  split_ifs <;> decide

theorem attrs_addrMask (flags : BitVec 32) : pageAttrsFromFlags flags &&& pteAddrMask = 0#64 := by
  unfold pageAttrsFromFlags
  split_ifs <;> decide

theorem attrs_not_addrMask (flags : BitVec 32) :
    pageAttrsFromFlags flags &&& ~~~pteAddrMask = pageAttrsFromFlags flags := by
  unfold pageAttrsFromFlags
  split_ifs <;> decide

theorem mappingOf_pageEntry (pa : U64) (flags : BitVec 32) :
    mappingOf (pageEntry pa flags) = some ⟨pa &&& pteAddrMask, pageAttrsFromFlags flags⟩ := by
  have hvalid : pageEntry pa flags &&& pteValid = pteValid := by
    rw [pageEntry, entry_and, show pteAddrMask &&& pteValid = 0#64 by decide, BitVec.and_zero,
      BitVec.zero_or, attrs_valid]
  have haddr : pageEntry pa flags &&& pteAddrMask = pa &&& pteAddrMask := by
    rw [pageEntry, entry_and, BitVec.and_self, attrs_addrMask, BitVec.or_zero]
  have hattrs : pageEntry pa flags &&& ~~~pteAddrMask = pageAttrsFromFlags flags := by
    rw [pageEntry, entry_and, show pteAddrMask &&& ~~~pteAddrMask = 0#64 by decide, BitVec.and_zero,
      BitVec.zero_or, attrs_not_addrMask]
  rw [mappingOf, hvalid, if_neg (by decide), haddr, hattrs]

/-- The walk of `virt_unmap` takes the same address from the entry. -/
def Formed (w : U64) : Prop := w &&& pteValid ≠ 0 → w &&& ~~~0xFFF = w &&& pteAddrMask

theorem formed_tableEntry (new : U64) : Formed (tableEntry new) := by
  intro _
  rw [tableEntry, BitVec.or_assoc, entry_and, entry_and, BitVec.and_self,
    show pteAddrMask &&& ~~~0xFFF = pteAddrMask by decide,
    show (pteValid ||| pteTable) &&& ~~~0xFFF = (pteValid ||| pteTable) &&& pteAddrMask by decide]

/-! The invariant. -/

def rootSet (roots : List U64) : Set U64 := { r | r ∈ roots }

abbrev LiveTable (word : U64 → U64) (roots : List U64) (a : U64) : Prop :=
  (tables word).Live (rootSet roots) 3 a

structure Sound (word : U64 → U64) (roots : List U64) : Prop where
  nonzero : ∀ r ∈ roots, r ≠ 0
  aligned : ∀ r ∈ roots, PageAligned r
  unshared : (tables word).Unshared (rootSet roots) 3
  formed : ∀ r ∈ roots, ∀ p : List (BitVec 9), p.length < 3 → ∀ a, (tables word).walk r p = some a →
    ∀ i, Formed (word (slot a i))

/-- The answers still to come are pages, each different from the others and no live table. -/
structure FreshPages (word : U64 → U64) (roots pages : List U64) : Prop where
  distinct : (pages.filter (· ≠ 0)).Nodup
  page : ∀ a ∈ pages, a ≠ 0 → PageAligned a ∧ a.toNat < 2 ^ 48 ∧ ¬LiveTable word roots a

section
variable {word word' : U64 → U64} {roots pages : List U64}

theorem Sound.live_aligned (h : Sound word roots) (ha : LiveTable word roots a) :
    PageAligned a := by
  obtain ⟨r, hr, p, -, hw⟩ := ha
  induction p using reverseRecOn with
  | nil =>
    rw [← some.inj hw]
    exact h.aligned r hr
  | append_singleton p i _ =>
    rw [Tables.walk_concat] at hw
    obtain ⟨b, -, hb⟩ := bind_eq_some_iff.mp hw
    simp only [tables, tableOf] at hb
    split at hb
    · cases hb
    · rw [← some.inj hb]
      exact addrMask_aligned _

theorem FreshPages.tail (h : FreshPages word roots (page :: pages)) :
    FreshPages word roots pages := by
  refine ⟨?_, fun a ha => h.page a (mem_cons_of_mem page ha)⟩
  have hdistinct := h.distinct
  rw [filter_cons] at hdistinct
  split at hdistinct
  · exact (nodup_cons.mp hdistinct).2
  · exact hdistinct

theorem FreshPages.not_mem (h : FreshPages word roots (page :: pages)) (hne : page ≠ 0) :
    page ∉ pages := by
  intro hmem
  have hdistinct := h.distinct
  rw [filter_cons, if_pos (by simpa using hne)] at hdistinct
  exact (nodup_cons.mp hdistinct).1 (mem_filter.mpr ⟨hmem, by simpa using hne⟩)

def SameLookups (roots : List U64) (word word' : U64 → U64) : Prop :=
  ∀ r ∈ roots, ∀ p : List (BitVec 9), p.length = 3 → ∀ i,
    (tables word').lookup r p i = (tables word).lookup r p i

structure Kept (roots : List U64) (m m' : Memory) : Prop where
  sound : Sound m'.word roots
  fresh : FreshPages m'.word roots m'.pages
  same : SameLookups roots m.word m'.word

variable {m m' : Memory}

theorem Kept.trans {m'' : Memory} (h : Kept roots m m') (h' : Kept roots m' m'') : Kept roots m m'' :=
  ⟨h'.sound, h'.fresh, fun r hr p hp i => (h'.same r hr p hp i).trans (h.same r hr p hp i)⟩

end

/-! Writing tables. -/

section
variable {m : Memory} {roots : List U64} {r table : U64} {p : List (BitVec 9)} {i : BitVec 9}

theorem tables_congr {word word' : U64 → U64} (h : word' (slot c j) = word (slot c j)) :
    (tables word').child c j = (tables word).child c j ∧
      (tables word').leaf c j = (tables word).leaf c j := by
  simp only [tables, h, and_self]

theorem zeroPage_slot (hp : PageAligned page) (hc : PageAligned c) (j : BitVec 9) :
    (m.zeroPage page).word (slot c j) = if c = page then 0 else m.word (slot c j) := by
  unfold Memory.zeroPage
  dsimp only
  by_cases h : c = page
  · rw [if_pos ((slot_in_page hc hp j).mpr h), if_pos h]
  · rw [if_neg fun hin => h ((slot_in_page hc hp j).mp hin), if_neg h]

section
variable (hs : Sound m.word roots) (hr : r ∈ roots) (hp : p.length = 3)
  (hw : (tables m.word).walk r p = some table) (w : U64)
include hs hr hp hw

theorem written :
    (tables m.word).Written (tables (m.store (slot table i) w).word) (rootSet roots) 3 r p i
      (mappingOf w) := by
  have htable : LiveTable m.word roots table := ⟨r, hr, p, hp.le, hw⟩
  refine ⟨hr, hp, fun a ha => ?_, by rw [hw]; rfl, fun c j hc hne => tables_congr ?_⟩
  · rw [hw] at ha
    rw [← some.inj ha]
    simp only [tables, Memory.store, update_self]
  · refine update_of_ne (fun heq => hne ?_) _ _
    obtain ⟨rfl, rfl⟩ := slot_inj (hs.live_aligned hc) (hs.live_aligned htable) heq
    exact ⟨hw, rfl⟩

theorem Sound.store_last : Sound (m.store (slot table i) w).word roots := by
  have hwritten := written (i := i) hs hr hp hw w
  refine ⟨hs.nonzero, hs.aligned, hwritten.unshared hs.unshared, fun r' hr' q hq a ha j => ?_⟩
  rw [hwritten.walk hs.unshared hr' hq.le] at ha
  have hslot : (m.store (slot table i) w).word (slot a j) = m.word (slot a j) := by
    refine update_of_ne (fun heq => ?_) _ _
    have hlive : LiveTable m.word roots a := ⟨r', hr', q, hq.le, ha⟩
    have htable : LiveTable m.word roots table := ⟨r, hr, p, hp.le, hw⟩
    obtain ⟨rfl, -⟩ := slot_inj (hs.live_aligned hlive) (hs.live_aligned htable) heq
    have hpath := (hs.unshared r' hr' r hr q p a hq.le hp.le ha hw).2
    rw [hpath, hp] at hq
    exact lt_irrefl 3 hq
  rw [hslot]
  exact hs.formed r' hr' q hq a ha j

end

theorem FreshPages.store_last (h : FreshPages m.word roots m.pages) (hs : Sound m.word roots)
    (hr : r ∈ roots) (hp : p.length = 3) (hw : (tables m.word).walk r p = some table) (w : U64) :
    FreshPages (m.store (slot table i) w).word roots m.pages := by
  have hwritten := written (i := i) hs hr hp hw w
  refine ⟨h.distinct, fun a ha hne => ?_⟩
  obtain ⟨haligned, hlt, hfresh⟩ := h.page a ha hne
  refine ⟨haligned, hlt, fun hlive => hfresh ?_⟩
  exact (Tables.Live.of_walk fun _ hr' _ hq => hwritten.walk hs.unshared hr' hq).mp hlive

/-- The table below an entry, and memory with a new one there. -/
def Memory.link (m : Memory) (table : U64) (i : BitVec 9) (new : U64) : Memory :=
  (m.zeroPage new).store (slot table i) (tableEntry new)

theorem link_slot (hnew : PageAligned new) (htable : PageAligned table)
    (hc : PageAligned c) (j : BitVec 9) :
    (m.link table i new).word (slot c j) =
      if c = table ∧ j = i then tableEntry new else if c = new then 0 else m.word (slot c j) := by
  unfold Memory.link Memory.store
  dsimp only
  by_cases h : c = table ∧ j = i
  · rw [if_pos h, h.1, h.2, update_self]
  · rw [if_neg h, update_of_ne (fun heq => h (slot_inj hc htable heq)), zeroPage_slot hnew hc]

theorem tableOf_zero : tableOf 0 = none := by decide
theorem mappingOf_zero : mappingOf 0 = none := by decide

section
variable {new : U64} (hs : Sound m.word roots) (hr : r ∈ roots) (hp : p.length < 3)
  (hw : (tables m.word).walk r p = some table) (hmissing : m.entry table i &&& pteValid = 0)
  (hnew : PageAligned new) (hlt : new.toNat < 2 ^ 48) (hfresh : ¬LiveTable m.word roots new)
include hs hr hp hw hmissing hnew hlt hfresh

theorem linked :
    (tables m.word).Linked (tables (m.link table i new).word) (rootSet roots) 3 r p table i new := by
  have hlive : LiveTable m.word roots table := ⟨r, hr, p, hp.le, hw⟩
  have htable := hs.live_aligned hlive
  have hne : new ≠ table := fun heq => hfresh (heq ▸ hlive)
  refine ⟨hr, hp, hw, if_pos hmissing, hfresh, ?_, fun j => ?_, fun c j hc hspot => tables_congr ?_⟩
  · simp only [tables]
    rw [link_slot hnew htable htable, if_pos ⟨rfl, rfl⟩, tableOf_tableEntry hnew hlt]
  · simp only [tables]
    rw [link_slot hnew htable hnew, if_neg fun h => hne h.1, if_pos rfl]
    exact ⟨tableOf_zero, mappingOf_zero⟩
  · rw [link_slot hnew htable (hs.live_aligned hc), if_neg hspot,
      if_neg fun heq : c = new => hfresh (heq ▸ hc)]

theorem Sound.link : Sound (m.link table i new).word roots := by
  have hlinked := linked hs hr hp hw hmissing hnew hlt hfresh
  have hlive : LiveTable m.word roots table := ⟨r, hr, p, hp.le, hw⟩
  have htable := hs.live_aligned hlive
  refine ⟨hs.nonzero, hs.aligned, hlinked.unshared hs.unshared, fun r' hr' q hq a ha j => ?_⟩
  have haligned : PageAligned a := by
    rcases hlinked.live hs.unshared ⟨r', hr', q, hq.le, ha⟩ with rfl | hold
    · exact hnew
    · exact hs.live_aligned hold
  rw [link_slot hnew htable haligned]
  split
  · exact formed_tableEntry new
  split
  · exact fun h => absurd rfl h
  rename_i hne
  rcases hlinked.walk_cases hs.unshared hr' hq.le ha with ⟨heq, -⟩ | ⟨-, hold⟩
  · exact absurd heq hne
  · exact hs.formed r' hr' q hq a hold j

theorem Kept.link {pages : List U64} (hpages : FreshPages m.word roots pages) (hnot : new ∉ pages) :
    Kept roots m ({ m with pages := pages }.link table i new) := by
  have hlinked := linked hs hr hp hw hmissing hnew hlt hfresh
  refine ⟨Sound.link hs hr hp hw hmissing hnew hlt hfresh,
    ⟨hpages.distinct, fun a ha hne => ?_⟩, fun r' hr' q hq j => hlinked.lookup hs.unshared hr' hq j⟩
  obtain ⟨haligned, ha48, hfa⟩ := hpages.page a ha hne
  refine ⟨haligned, ha48, fun hlive => ?_⟩
  rcases hlinked.live hs.unshared hlive with rfl | hold
  · exact hnot ha
  · exact hfa hold

end
end

/-! The level step of `page_table_map`. -/

section
variable {m : Memory} {roots : List U64} {r table : U64} {p : List (BitVec 9)}
variable (hs : Sound m.word roots) (hf : FreshPages m.word roots m.pages)
include hs hf

theorem kept_refl : Kept roots m m := ⟨hs, hf, fun _ _ _ _ _ => rfl⟩

theorem nextTable_spec (hr : r ∈ roots) (hp : p.length < 3)
    (hw : (tables m.word).walk r p = some table) (i : BitVec 9) :
    ∃ m', Kept roots m m' ∧ (nextTable m table i = (m', none) ∨
      ∃ t, nextTable m table i = (m', some t) ∧ (tables m'.word).walk r (p ++ [i]) = some t) := by
  unfold nextTable
  by_cases hvalid : m.entry table i &&& pteValid = 0
  · rw [if_pos hvalid]
    unfold allocPageTable physAllocPage
    cases hpages : m.pages with
    | nil => exact ⟨m, kept_refl hs hf, .inl rfl⟩
    | cons new pages =>
      rw [hpages] at hf
      dsimp only
      by_cases hzero : new = 0
      · rw [if_pos hzero]
        exact ⟨{ m with pages := pages }, ⟨hs, hf.tail, fun _ _ _ _ _ => rfl⟩, .inl rfl⟩
      rw [if_neg hzero]
      rw [if_neg hzero]
      obtain ⟨hnew, hlt, hfresh⟩ := hf.page new mem_cons_self hzero
      have hlinked := linked hs hr hp hw hvalid hnew hlt hfresh
      refine ⟨_, Kept.link hs hr hp hw hvalid hnew hlt hfresh hf.tail (hf.not_mem hzero),
        .inr ⟨new, ?_, (hlinked.walk_new hs.unshared).1⟩⟩
      have hentry : ({ m with pages := pages }.link table i new).entry table i = tableEntry new :=
        update_self _ _ _
      refine Prod.ext rfl (congrArg some ?_)
      exact (congrArg (· &&& pteAddrMask) hentry).trans (tableEntry_addr hnew hlt)
  · rw [if_neg hvalid]
    refine ⟨m, kept_refl hs hf, .inr ⟨_, rfl, ?_⟩⟩
    rw [Tables.walk_concat, hw]
    exact if_neg hvalid

end

end AegisOS.PageTables
