import AegisOS.PageTables

/-! The page-table code refines a map from 36-bit virtual page numbers to physical pages
with attributes, one for every root: what each call does to the map, and that a query reads
the map. -/
namespace AegisOS.PageTables
open RadixTables GuardedRun List Nat Option

/-! The map. -/

/-- `va[47:12]` -/
def vpn (va : U64) : BitVec 36 := va.extractLsb' 12 36

/-- By root and virtual page number. -/
abbrev PageMap := U64 → BitVec 36 → Option Mapping

def PageMap.set (f : PageMap) (l0 : U64) (n : BitVec 36) (x : Option Mapping) : PageMap :=
  fun l k => if l = l0 ∧ k = n then x else f l k

def answer (va : U64) : Option Mapping → Except Int (U64 × U64)
  | none => .error aegisEnoent
  | some x => .ok (x.page ||| (va &&& (pageSize - 1)), x.page ||| x.attrs)

def PageMap.query (f : PageMap) (l0 va : U64) : Except Int (U64 × U64) := answer va (f l0 (vpn va))

/-- The address of the `i`th page from `a` on. -/
def pageAt (a : U64) (i : Nat) : U64 := a + BitVec.ofNat 64 (4096 * i)

def mappingFor (pa : U64) (flags : BitVec 32) : Mapping :=
  ⟨pa &&& pteAddrMask, pageAttrsFromFlags flags⟩

/-- The first `n` pages from `va` on are mapped, one after the other. -/
def PageMap.mapRange (f : PageMap) (l0 va pa : U64) (flags : BitVec 32) : Nat → PageMap
  | 0 => f
  | n + 1 => (f.mapRange l0 va pa flags n).set l0 (vpn (pageAt va n)) (mappingFor (pageAt pa n) flags)

def PageMap.unmapRange (f : PageMap) (l0 va : U64) (size : Nat) : PageMap :=
  fun l k => if l = l0 ∧ ∃ o < size, vpn (va + BitVec.ofNat 64 o) = k then none else f l k

inductive Effect (kernelPgtable : U64) (f : PageMap) : Call → Int → PageMap → Prop
  | mapped (l0 va pa : U64) (flags : BitVec 32) :
      Effect kernelPgtable f (.map l0 va pa flags) aegisOk (f.set l0 (vpn va) (mappingFor pa flags))
  | notMapped (l0 va pa : U64) (flags : BitVec 32) (ret : Int) :
      ret = aegisEinval ∨ ret = aegisEnomem → Effect kernelPgtable f (.map l0 va pa flags) ret f
  | virtMapped (va pa size : U64) (flags : BitVec 32) :
      Effect kernelPgtable f (.virtMap va pa size flags) aegisOk
        (f.mapRange kernelPgtable va pa flags (size.toNat / 4096))
  | virtMapStopped (va pa size : U64) (flags : BitVec 32) (n : Nat) (ret : Int) :
      n < size.toNat / 4096 → ret = aegisEinval ∨ ret = aegisEnomem →
      Effect kernelPgtable f (.virtMap va pa size flags) ret (f.mapRange kernelPgtable va pa flags n)
  | virtUnmapped (va size : U64) :
      Effect kernelPgtable f (.virtUnmap va size) aegisOk (f.unmapRange kernelPgtable va size.toNat)
  | rootMade : Effect kernelPgtable f .allocRoot aegisOk f
  | noRoot (ret : Int) : ret = aegisEnomem → Effect kernelPgtable f .allocRoot ret f

/-! Addresses and page numbers. -/

/-- The indices of the tables on the way, and the last index. -/
def pathOf (va : U64) : List (BitVec 9) := [index l0Shift va, index l1Shift va, index l2Shift va]

def pageAddr (n : BitVec 36) : U64 := n.setWidth 64 <<< 12

theorem toNat_vpn (va : U64) : (vpn va).toNat = va.toNat / 4096 % 2 ^ 36 := by
  simp [vpn, BitVec.extractLsb'_toNat, shiftRight_eq_div_pow]

theorem toNat_pageAddr (n : BitVec 36) : (pageAddr n).toNat = n.toNat * 4096 := by
  simp only [pageAddr, BitVec.toNat_shiftLeft, BitVec.toNat_setWidth, shiftLeft_eq]
  omega

theorem vpn_pageAddr (n : BitVec 36) : vpn (pageAddr n) = n := by
  apply BitVec.eq_of_toNat_eq
  rw [toNat_vpn, toNat_pageAddr]
  omega

theorem indices_eq_iff (va va' : U64) :
    (pathOf va = pathOf va' ∧ index l3Shift va = index l3Shift va') ↔ vpn va = vpn va' := by
  simp only [pathOf, cons.injEq, and_true, ← BitVec.toNat_inj, toNat_index, toNat_vpn, l0Shift,
    l1Shift, l2Shift, l3Shift]
  omega

def viewOf (word : U64 → U64) (roots : List U64) : PageMap := fun l n =>
  if l ∈ roots then (tables word).lookup l (pathOf (pageAddr n)) (index l3Shift (pageAddr n))
  else none

def Paging.view (s : Paging) : PageMap := viewOf s.word s.roots

variable {l0 va offset size pa r a : U64} {m' m : Memory} {n fuel : Nat} {f : PageMap}
  {word : U64 → U64} {p : List (BitVec 9)} {i : BitVec 9} {s : Paging}

section
variable {word word' : U64 → U64} {roots : List U64}

theorem viewOf_vpn (hl : l0 ∈ roots) (va : U64) :
    viewOf word roots l0 (vpn va) = (tables word).lookup l0 (pathOf va) (index l3Shift va) := by
  obtain ⟨hpath, hlast⟩ := (indices_eq_iff (pageAddr (vpn va)) va).mpr (vpn_pageAddr _)
  rw [viewOf, if_pos hl, hpath, hlast]

theorem viewOf_same (h : SameLookups roots word word') : viewOf word' roots = viewOf word roots := by
  funext l n
  unfold viewOf
  split
  next hl => exact h l hl _ rfl _
  · rfl

theorem viewOf_set {x : Option Mapping} (hl : l0 ∈ roots)
    (h : ∀ r ∈ roots, ∀ q : List (BitVec 9), q.length = 3 → ∀ j, (tables word').lookup r q j =
      if r = l0 ∧ q = pathOf va ∧ j = index l3Shift va then x else (tables word).lookup r q j) :
    viewOf word' roots = (viewOf word roots).set l0 (vpn va) x := by
  funext l n
  unfold PageMap.set viewOf
  by_cases hmem : l ∈ roots
  · have hiff := indices_eq_iff (pageAddr n) va
    rw [vpn_pageAddr] at hiff
    rw [if_pos hmem, if_pos hmem, h l hmem _ rfl]
    simp only [hiff]
  · rw [if_neg hmem, if_neg hmem, if_neg fun heq : l = l0 ∧ n = vpn va => hmem (heq.1 ▸ hl)]

/-! Queries. -/

theorem answer_bind (va w : U64) (k : U64 → Option Mapping) :
    answer va ((tableOf w).bind k) =
      if w &&& pteValid = 0 then .error aegisEnoent else answer va (k (w &&& pteAddrMask)) := by
  unfold tableOf
  split <;> rfl

theorem answer_mappingOf (va w : U64) :
    answer va (mappingOf w) = if w &&& pteValid = 0 then .error aegisEnoent
      else .ok ((w &&& pteAddrMask) ||| (va &&& (pageSize - 1)), w) := by
  unfold mappingOf
  split
  · rfl
  · simp only [answer]
    rw [← BitVec.and_or_distrib_left, BitVec.or_not_self, BitVec.and_allOnes]

theorem pageTableQuery_view {pages : List U64} (hs : Sound word roots) (hl : l0 ∈ roots)
    (va : U64) : pageTableQuery ⟨word, pages⟩ l0 va = (viewOf word roots).query l0 va := by
  unfold PageMap.query
  rw [viewOf_vpn hl]
  unfold pageTableQuery Tables.lookup
  rw [if_neg (hs.nonzero l0 hl)]
  simp only [pathOf, Tables.walk, tables, Memory.entry, bind_assoc, bind_some,
    answer_bind, answer_mappingOf]
  rfl

end

/-! Mapping a page. -/

/-- Memory as left by a call that makes the map `f`. -/
structure Leads (roots : List U64) (m' : Memory) (f : PageMap) : Prop where
  sound : Sound m'.word roots
  fresh : FreshPages m'.word roots m'.pages
  view : viewOf m'.word roots = f

section
variable {m : Memory} {roots : List U64} {kernelPgtable : U64}

theorem Kept.leads (h : Kept roots m m') : Leads roots m' (viewOf m.word roots) :=
  ⟨h.sound, h.fresh, viewOf_same h.same⟩

section
variable (hs : Sound m.word roots) (hf : FreshPages m.word roots m.pages)
include hs hf

theorem leads_refl : Leads roots m (viewOf m.word roots) := ⟨hs, hf, rfl⟩

theorem leads_store {l3 : U64} (hl : l0 ∈ roots)
    (hw : (tables m.word).walk l0 (pathOf va) = some l3) (w : U64) :
    Leads roots (m.store (slot l3 (index l3Shift va)) w)
      ((viewOf m.word roots).set l0 (vpn va) (mappingOf w)) :=
  ⟨hs.store_last hl rfl hw w, hf.store_last hs hl rfl hw w, viewOf_set hl fun _ hr _ hq j =>
    (written hs hl rfl hw w).lookup hs.unshared hr hq j⟩

theorem pageTableMap_spec (hl : l0 = 0 ∨ l0 ∈ roots) (va pa : U64) (flags : BitVec 32) :
    (∃ m' ret, pageTableMap m l0 va pa flags = (m', ret) ∧ (ret = aegisEinval ∨ ret = aegisEnomem) ∧
      Leads roots m' (viewOf m.word roots)) ∨
    ∃ m', pageTableMap m l0 va pa flags = (m', aegisOk) ∧ l0 ∈ roots ∧ PageAligned va ∧
      PageAligned pa ∧
      Leads roots m' ((viewOf m.word roots).set l0 (vpn va) (mappingFor pa flags)) := by
  have hself := leads_refl hs hf
  unfold pageTableMap
  by_cases hzero : l0 = 0
  · rw [if_pos hzero]
    exact .inl ⟨m, _, rfl, .inl rfl, hself⟩
  rw [if_neg hzero]
  by_cases haligned : va &&& (pageSize - 1) ≠ 0 ∨ pa &&& (pageSize - 1) ≠ 0
  · rw [if_pos haligned]
    exact .inl ⟨m, _, rfl, .inl rfl, hself⟩
  rw [if_neg haligned]
  by_cases hguard : flags &&& vmGuard ≠ 0
  · rw [if_pos hguard]
    exact .inl ⟨m, _, rfl, .inl rfl, hself⟩
  rw [if_neg hguard]
  rw [not_or, not_not, not_not, and_low_eq_zero, and_low_eq_zero] at haligned
  have hroot := hl.resolve_left hzero
  obtain ⟨m1, hk1, heq | ⟨l1, heq, hw1⟩⟩ :=
    nextTable_spec (p := []) hs hf hroot (by decide) rfl (index l0Shift va) <;> rw [heq]
  · exact .inl ⟨m1, _, rfl, .inr rfl, hk1.leads⟩
  dsimp only
  obtain ⟨m2, hk2, heq | ⟨l2, heq, hw2⟩⟩ :=
    nextTable_spec hk1.sound hk1.fresh hroot (by simp) hw1 (index l1Shift va) <;> rw [heq]
  · exact .inl ⟨m2, _, rfl, .inr rfl, (hk1.trans hk2).leads⟩
  dsimp only
  obtain ⟨m3, hk3, heq | ⟨l3, heq, hw3⟩⟩ :=
    nextTable_spec hk2.sound hk2.fresh hroot (by simp) hw2 (index l2Shift va) <;> rw [heq]
  · exact .inl ⟨m3, _, rfl, .inr rfl, ((hk1.trans hk2).trans hk3).leads⟩
  have hkept := (hk1.trans hk2).trans hk3
  have hstore := leads_store hk3.sound hk3.fresh hroot hw3 (pageEntry pa flags)
  rw [hkept.leads.view, mappingOf_pageEntry] at hstore
  exact .inr ⟨_, rfl, hroot, haligned.1, haligned.2, hstore⟩

end

/-! Ranges. -/

theorem round_offset (h : offset.toNat = 4096 * n) : offset = BitVec.ofNat 64 (4096 * n) := by
  apply BitVec.eq_of_toNat_eq
  rw [h, BitVec.toNat_ofNat]
  omega

theorem round_next (hsize : size.toNat + 4096 ≤ 2 ^ 64)
    (h : offset.toNat = 4096 * n) (hlt : offset.toNat < size.toNat) :
    (offset + 4096).toNat = 4096 * (n + 1) := by
  rw [BitVec.toNat_add, h, show (4096 : U64).toNat = 4096 from rfl]
  omega

theorem virtMapLoop_spec (flags : BitVec 32) (hk : kernelPgtable ∈ roots) (hsize : PageAligned size)
    (h : Leads roots m (f.mapRange kernelPgtable va pa flags n)) (hoffset : offset.toNat = 4096 * n)
    (hn : n ≤ size.toNat / 4096) (hfuel : size.toNat / 4096 - n < fuel) :
    ∃ m' ret, virtMapLoop kernelPgtable va pa size flags fuel m offset = some (m', ret) ∧
      ((ret = aegisOk ∧ Leads roots m' (f.mapRange kernelPgtable va pa flags (size.toNat / 4096))) ∨
      ((ret = aegisEinval ∨ ret = aegisEnomem) ∧ ∃ k < size.toNat / 4096,
        Leads roots m' (f.mapRange kernelPgtable va pa flags k))) := by
  unfold PageAligned at hsize
  induction fuel generalizing m offset n with
  | zero => omega
  | succ fuel ih =>
    unfold virtMapLoop
    by_cases hlt : offset < size
    · rw [if_pos hlt]
      have hlt' : offset.toNat < size.toNat := hlt
      rcases pageTableMap_spec h.sound h.fresh (.inr hk) (va + offset) (pa + offset) flags with
        ⟨m', ret, heq, hret, hleads⟩ | ⟨m', heq, -, -, -, hleads⟩
      · have hne : ret ≠ aegisOk := by
          rcases hret with rfl | rfl <;> decide
        rw [heq]
        dsimp only
        rw [if_pos hne]
        rw [h.view] at hleads
        exact ⟨m', ret, rfl, .inr ⟨hret, n, by omega, hleads⟩⟩
      · rw [heq]
        dsimp only
        rw [if_neg (not_not.mpr rfl)]
        have hnext := round_next (by omega) hoffset hlt'
        rw [h.view, round_offset hoffset] at hleads
        exact ih (n := n + 1) hleads hnext (by omega) (by omega)
    · rw [if_neg hlt]
      have hge : size.toNat ≤ offset.toNat := not_lt.mp hlt
      have hall : n = size.toNat / 4096 := by omega
      exact ⟨m, _, rfl, .inl ⟨rfl, hall ▸ h⟩⟩

theorem addr_of_formed (hs : Sound word roots) (hr : r ∈ roots)
    (hp : p.length < 3) (hw : (tables word).walk r p = some a)
    (hvalid : ¬word (slot a i) &&& 1 = 0) :
    (tables word).walk r (p ++ [i]) = some (word (slot a i) &&& ~~~0xFFF) := by
  rw [hs.formed r hr p hp a hw i hvalid, Tables.walk_concat, hw]
  exact if_neg hvalid

theorem viewOf_unmapped (hl : l0 ∈ roots) (h : (tables word).walk l0 (pathOf va) = none) :
    viewOf word roots = (viewOf word roots).set l0 (vpn va) none := by
  refine viewOf_set hl fun r _ q _ j => ?_
  split
  next heq =>
    obtain ⟨rfl, rfl, rfl⟩ := heq
    rw [Tables.lookup, h]
    rfl
  · rfl

theorem walk_none {q : List (BitVec 9)}
    (hw : (tables word).walk r p = some a) (hinvalid : word (slot a i) &&& 1 = 0) :
    (tables word).walk r (p ++ i :: q) = none := by
  have hnone : (tables word).walk r (p ++ [i]) = none := by
    rw [Tables.walk_concat, hw]
    exact if_pos hinvalid
  induction q using reverseRecOn with
  | nil => exact hnone
  | append_singleton q j ih =>
    rw [← cons_append, ← append_assoc, Tables.walk_concat, ih]
    rfl

theorem unmapPage_spec (hs : Sound m.word roots) (hf : FreshPages m.word roots m.pages)
    (hk : kernelPgtable ∈ roots) (cur : U64) :
    Leads roots (unmapPage kernelPgtable m cur)
      ((viewOf m.word roots).set kernelPgtable (vpn cur) none) := by
  have hunmapped (h : (tables m.word).walk kernelPgtable (pathOf cur) = none) :
      Leads roots m ((viewOf m.word roots).set kernelPgtable (vpn cur) none) := by
    rw [← viewOf_unmapped hk h]
    exact leads_refl hs hf
  unfold unmapPage
  by_cases h0 : m.entry kernelPgtable (index 39 cur) &&& 1 = 0
  · rw [if_pos h0]
    exact hunmapped (walk_none (p := []) rfl h0)
  rw [if_neg h0]
  have hw1 := addr_of_formed (p := []) hs hk (by simp) rfl h0
  dsimp only
  by_cases h1 : m.entry (m.entry kernelPgtable (index 39 cur) &&& ~~~0xFFF) (index 30 cur) &&& 1 = 0
  · rw [if_pos h1]
    exact hunmapped (walk_none hw1 h1)
  rw [if_neg h1]
  have hw2 := addr_of_formed hs hk (by simp) hw1 h1
  split
  next h2 => exact hunmapped (walk_none hw2 h2)
  next h2 =>
    have hstore := leads_store hs hf hk (addr_of_formed hs hk (by simp) hw2 h2) 0
    rwa [mappingOf_zero] at hstore

/-- The first `n` pages from `va` on are unmapped, one after the other. -/
def PageMap.unmapPages (f : PageMap) (l0 va : U64) : Nat → PageMap
  | 0 => f
  | n + 1 => (f.unmapPages l0 va n).set l0 (vpn (pageAt va n)) none

theorem toNat_add_ofNat (a : U64) (n : Nat) :
    (a + BitVec.ofNat 64 n).toNat = (a.toNat + n) % 2 ^ 64 := by
  rw [BitVec.toNat_add, BitVec.toNat_ofNat, add_mod_mod]

theorem vpn_within (hva : PageAligned va) (n o : Nat) (ho : o < 4096) :
    vpn (va + BitVec.ofNat 64 (4096 * n + o)) = vpn (pageAt va n) := by
  unfold PageAligned at hva
  apply BitVec.eq_of_toNat_eq
  rw [toNat_vpn, toNat_vpn, pageAt, toNat_add_ofNat, toNat_add_ofNat]
  omega

theorem unmapPages_eq (f : PageMap) (l0 : U64) (hva : PageAligned va) (n : Nat) :
    f.unmapPages l0 va n = f.unmapRange l0 va (4096 * n) := by
  induction n with
  | zero =>
    funext l k
    exact (if_neg fun ⟨_, o, ho, _⟩ => Nat.not_lt_zero o ho).symm
  | succ n ih =>
    funext l k
    unfold PageMap.unmapPages PageMap.set
    rw [ih]
    unfold PageMap.unmapRange
    have hpages : (∃ o < 4096 * (n + 1), vpn (va + BitVec.ofNat 64 o) = k) ↔
        k = vpn (pageAt va n) ∨ ∃ o < 4096 * n, vpn (va + BitVec.ofNat 64 o) = k := by
      constructor
      · rintro ⟨o, ho, hk⟩
        by_cases hlt : o < 4096 * n
        · exact .inr ⟨o, hlt, hk⟩
        obtain ⟨r, rfl⟩ := Nat.exists_eq_add_of_le (Nat.not_lt.mp hlt)
        rw [vpn_within hva n r (by omega)] at hk
        exact .inl hk.symm
      · rintro (hk | ⟨o, ho, hk⟩)
        · exact ⟨4096 * n, by omega, hk.symm⟩
        · exact ⟨o, by omega, hk⟩
    simp only [hpages]
    by_cases hl : l = l0
    · by_cases hk : k = vpn (pageAt va n) <;> simp [hl, hk]
    · simp [hl]

theorem virtUnmapLoop_spec (hk : kernelPgtable ∈ roots) (hsize : size.toNat + 4096 ≤ 2 ^ 64)
    (h : Leads roots m (f.unmapPages kernelPgtable va n)) (hoffset : offset.toNat = 4096 * n)
    (hn : n ≤ (size.toNat + 4095) / 4096) (hfuel : (size.toNat + 4095) / 4096 - n < fuel) :
    ∃ m', virtUnmapLoop kernelPgtable va size fuel m offset = some (m', aegisOk) ∧
      Leads roots m' (f.unmapPages kernelPgtable va ((size.toNat + 4095) / 4096)) := by
  induction fuel generalizing m offset n with
  | zero => omega
  | succ fuel ih =>
    unfold virtUnmapLoop
    by_cases hlt : offset < size
    · rw [if_pos hlt]
      have hlt' : offset.toNat < size.toNat := hlt
      have hleads := unmapPage_spec h.sound h.fresh hk (va + offset)
      have hnext := round_next hsize hoffset hlt'
      rw [round_offset hoffset] at hleads hnext ⊢
      rw [h.view] at hleads
      exact ih (n := n + 1) hleads hnext (by omega) (by omega)
    · rw [if_neg hlt]
      have hge : size.toNat ≤ offset.toNat := not_lt.mp hlt
      have hall : n = (size.toNat + 4095) / 4096 := by omega
      exact ⟨m, rfl, hall ▸ h⟩

/-! Roots. -/

theorem rootSet_cons (page : U64) : rootSet (page :: roots) = insert page (rootSet roots) := by
  ext r
  simp [rootSet]

section
variable {page : U64} (hs : Sound m.word roots) (hpage : PageAligned page)
  (hfresh : ¬LiveTable m.word roots page)
include hs hpage hfresh

theorem rooted : (tables m.word).Rooted (tables (m.zeroPage page).word) (rootSet roots) 3 page := by
  refine ⟨hfresh, fun j => ?_, fun c j hc => tables_congr ?_⟩
  · simp only [tables]
    rw [zeroPage_slot hpage hpage, if_pos rfl]
    exact ⟨tableOf_zero, mappingOf_zero⟩
  · rw [zeroPage_slot hpage (hs.live_aligned hc), if_neg fun heq : c = page => hfresh (heq ▸ hc)]

theorem Sound.addRoot (hne : page ≠ 0) : Sound (m.zeroPage page).word (page :: roots) := by
  have hrooted := rooted hs hpage hfresh
  refine ⟨forall_mem_cons.mpr ⟨hne, hs.nonzero⟩, forall_mem_cons.mpr ⟨hpage, hs.aligned⟩,
    ?_, fun r hr p hp a ha i => ?_⟩
  · rw [rootSet_cons]
    exact hrooted.unshared hs.unshared
  rcases mem_cons.mp hr with rfl | hr
  · rw [(hrooted.walk_root ha).2, zeroPage_slot hpage hpage, if_pos rfl]
    exact fun h => absurd rfl h
  rw [hrooted.walk hr hp.le] at ha
  have hlive : LiveTable m.word roots a := ⟨r, hr, p, hp.le, ha⟩
  rw [zeroPage_slot hpage (hs.live_aligned hlive),
    if_neg fun heq : a = page => hfresh (heq ▸ hlive)]
  exact hs.formed r hr p hp a ha i

theorem viewOf_addRoot : viewOf (m.zeroPage page).word (page :: roots) = viewOf m.word roots := by
  have hrooted := rooted hs hpage hfresh
  funext l n
  unfold viewOf
  by_cases hl : l ∈ roots
  · rw [if_pos (mem_cons_of_mem page hl), if_pos hl]
    exact hrooted.lookup hl rfl _
  split
  next hmem =>
    rcases mem_cons.mp hmem with rfl | hmem
    · exact hrooted.lookup_root _ _
    · exact absurd hmem hl
  · rfl

end

theorem isoAllocRoot_spec (hs : Sound m.word roots) (hf : FreshPages m.word roots m.pages) :
    (∃ m', isoAllocRoot m = (m', .error aegisEnomem) ∧ m'.word = m.word) ∨
    ∃ m' root, isoAllocRoot m = (m', .ok root) ∧ Sound m'.word (root :: roots) ∧
      viewOf m'.word (root :: roots) = viewOf m.word roots := by
  unfold isoAllocRoot isoAllocZeroPage physAllocPage
  cases hpages : m.pages with
  | nil => exact .inl ⟨m, rfl, rfl⟩
  | cons page pages =>
    rw [hpages] at hf
    dsimp only
    by_cases hzero : page = 0
    · rw [if_pos hzero]
      exact .inl ⟨_, rfl, rfl⟩
    obtain ⟨hpage, -, hfresh⟩ := hf.page page mem_cons_self hzero
    rw [if_neg hzero]
    rw [if_neg hzero, if_neg (not_not.mpr (and_low_eq_zero.mpr hpage))]
    have hs' : Sound ({ m with pages := pages } : Memory).word roots := hs
    exact .inr ⟨_, page, rfl, hs'.addRoot hpage hfresh hzero, viewOf_addRoot hs' hpage hfresh⟩

end

/-! Sequences of calls. -/

def Call.Allowed (roots : List U64) : Call → Prop
  | .map l0 _ _ _ => l0 = 0 ∨ l0 ∈ roots
  | .virtMap _ _ size _ => PageAligned size
  | .virtUnmap va size => PageAligned va ∧ PageAligned size
  | .allocRoot => True

def Call.rounds : Call → Nat
  | .virtMap _ _ size _ => size.toNat / 4096
  | .virtUnmap _ size => size.toNat / 4096
  | _ => 0

/-- A root that exists, sizes of whole pages, and new pages apart from the live tables. -/
structure Admitted (s : Paging) (e : Event) : Prop where
  call : e.call.Allowed s.roots
  fresh : FreshPages s.word s.roots e.pages
  fuel : e.call.rounds < e.fuel

structure Intact (kernelPgtable : U64) (s : Paging) : Prop where
  sound : Sound s.word s.roots
  kernel : kernelPgtable ∈ s.roots

variable {kernelPgtable : U64}

theorem Leads.outcome {c : Call} {ret : Int}
    (h : Leads s.roots m' f) (hk : kernelPgtable ∈ s.roots) (he : Effect kernelPgtable s.view c ret f) :
    Intact kernelPgtable ⟨m'.word, s.roots⟩ ∧
      Effect kernelPgtable s.view c ret (Paging.view ⟨m'.word, s.roots⟩) := by
  refine ⟨⟨h.sound, hk⟩, ?_⟩
  unfold Paging.view at he ⊢
  rwa [h.view]

theorem Intact.exec {e : Event} (h : Intact kernelPgtable s) (hok : Admitted s e) :
    ∃ s' ret, PageTables.exec kernelPgtable s e = some (s', ret) ∧ Intact kernelPgtable s' ∧
      Effect kernelPgtable s.view e.call ret s'.view := by
  obtain ⟨call, pages, fuel⟩ := e
  obtain ⟨hcall, hfresh, hfuel⟩ := hok
  have hself : Leads s.roots ⟨s.word, pages⟩ s.view := leads_refl h.sound hfresh
  unfold PageTables.exec
  cases call with
  | map l0 va pa flags =>
    rcases pageTableMap_spec hself.sound hself.fresh hcall va pa flags with
      ⟨m', ret, heq, hret, hleads⟩ | ⟨m', heq, -, -, -, hleads⟩
    · exact ⟨_, ret, by simp only [heq], hleads.outcome h.kernel (.notMapped l0 va pa flags ret hret)⟩
    · exact ⟨_, aegisOk, by simp only [heq], hleads.outcome h.kernel (.mapped l0 va pa flags)⟩
  | virtMap va pa size flags =>
    have hzero : Leads s.roots ⟨s.word, pages⟩ (s.view.mapRange kernelPgtable va pa flags 0) := hself
    obtain ⟨m', ret, heq, hcase⟩ :=
      virtMapLoop_spec flags h.kernel hcall hzero BitVec.toNat_zero (zero_le _) hfuel
    refine ⟨⟨m'.word, s.roots⟩, ret, map_eq_some_iff.mpr ⟨(m', ret), heq, rfl⟩, ?_⟩
    rcases hcase with ⟨rfl, hleads⟩ | ⟨hret, k, hk, hleads⟩
    · exact hleads.outcome h.kernel (.virtMapped va pa size flags)
    · exact hleads.outcome h.kernel (.virtMapStopped va pa size flags k ret hk hret)
  | virtUnmap va size =>
    obtain ⟨hva, hsize⟩ := hcall
    have hzero : Leads s.roots ⟨s.word, pages⟩ (s.view.unmapPages kernelPgtable va 0) := hself
    have hmod : size.toNat % 4096 = 0 := hsize
    have hrounds : (size.toNat + 4095) / 4096 = size.toNat / 4096 := by omega
    have hfuel' : (size.toNat + 4095) / 4096 - 0 < fuel := by
      rw [hrounds]
      exact hfuel
    obtain ⟨m', heq, hleads⟩ :=
      virtUnmapLoop_spec h.kernel (by omega) hzero BitVec.toNat_zero (zero_le _) hfuel'
    refine ⟨⟨m'.word, s.roots⟩, aegisOk, map_eq_some_iff.mpr ⟨(m', aegisOk), heq, rfl⟩, ?_⟩
    have hwhole : 4096 * ((size.toNat + 4095) / 4096) = size.toNat := by omega
    rw [unmapPages_eq _ _ hva, hwhole] at hleads
    exact hleads.outcome h.kernel (.virtUnmapped va size)
  | allocRoot =>
    rcases isoAllocRoot_spec hself.sound hself.fresh with ⟨m', heq, hword⟩ | ⟨m', root, heq, hs, hview⟩
    · refine ⟨⟨m'.word, s.roots⟩, aegisEnomem, by simp only [heq], ?_⟩
      rw [hword]
      exact ⟨h, .noRoot _ rfl⟩
    refine ⟨⟨m'.word, root :: s.roots⟩, aegisOk, by simp only [heq],
      ⟨hs, mem_cons_of_mem root h.kernel⟩, ?_⟩
    have hsame : Paging.view ⟨m'.word, root :: s.roots⟩ = s.view := hview
    rw [hsame]
    exact .rootMade

theorem sound_empty (word : U64 → U64) : Sound word [] where
  nonzero _ h := absurd h not_mem_nil
  aligned _ h := absurd h not_mem_nil
  unshared _ h := absurd h not_mem_nil
  formed _ h := absurd h not_mem_nil

theorem not_live_nil (word : U64 → U64) (a : U64) : ¬LiveTable word [] a :=
  fun ⟨_, h, _⟩ => not_mem_nil h

theorem intact_init (hk : PageAligned kernelPgtable) (hne : kernelPgtable ≠ 0) :
    Intact kernelPgtable (.init kernelPgtable word) := by
  have hroot := Sound.addRoot (m := ⟨word, []⟩) (sound_empty word) hk (not_live_nil word _) hne
  exact ⟨hroot, mem_singleton_self kernelPgtable⟩

theorem Intact.run {t : Paging} {es : List Event} (hrun : Run (step kernelPgtable) Admitted s es t)
    (h : Intact kernelPgtable s) : Intact kernelPgtable t := by
  refine Run.invariant (fun s e s' hs hok hstep => ?_) hrun h
  obtain ⟨u, ret, heq, hu, -⟩ := hs.exec hok
  unfold step at hstep
  rw [heq] at hstep
  rwa [← some.inj hstep]

theorem query_mapped (f : PageMap) (l0 : U64) (flags : BitVec 32) (hva : PageAligned va)
    (hpa : PageAligned pa) (hlt : pa.toNat < 2 ^ 48) {o : Nat} (ho : o < 4096) :
    (f.set l0 (vpn va) (mappingFor pa flags)).query l0 (va + BitVec.ofNat 64 o) =
      .ok (pa + BitVec.ofNat 64 o, pa ||| pageAttrsFromFlags flags) := by
  have hvpn : vpn (va + BitVec.ofNat 64 o) = vpn va := by
    have hwithin := vpn_within hva 0 o ho
    simpa [pageAt] using hwithin
  have hlow : (va + BitVec.ofNat 64 o) &&& (pageSize - 1) = BitVec.ofNat 64 o := by
    unfold PageAligned at hva
    apply BitVec.eq_of_toNat_eq
    rw [toNat_and_low, toNat_add_ofNat, BitVec.toNat_ofNat]
    omega
  have hor : pa ||| BitVec.ofNat 64 o = pa + BitVec.ofNat 64 o := by
    obtain ⟨q, hq⟩ := dvd_of_mod_eq_zero hpa
    apply BitVec.eq_of_toNat_eq
    have ho12 : o < 2 ^ 12 := ho
    have hq12 : pa.toNat = 2 ^ 12 * q := hq
    rw [BitVec.toNat_or, toNat_add_ofNat, BitVec.toNat_ofNat, mod_eq_of_lt (by omega : o < 2 ^ 64),
      hq12, ← two_pow_add_eq_or_of_lt ho12]
    omega
  unfold PageMap.query PageMap.set mappingFor
  rw [hvpn, if_pos ⟨rfl, rfl⟩]
  simp only [answer]
  rw [and_addrMask_eq hpa hlt, hlow, hor]

/-- In every state reached by admitted calls a query reads the map, every further call
returns with an effect of the map, and a page just mapped is found byte by byte. -/
theorem page_tables_refine_map (kernelPgtable : U64) (word : U64 → U64) (es : List Event) (s : Paging)
    (hk : PageAligned kernelPgtable) (hne : kernelPgtable ≠ 0)
    (hrun : Run (step kernelPgtable) Admitted (.init kernelPgtable word) es s) :
    (∀ l0 ∈ s.roots, ∀ va, pageTableQuery ⟨s.word, []⟩ l0 va = s.view.query l0 va) ∧
    (∀ e, Admitted s e → ∃ s' ret, exec kernelPgtable s e = some (s', ret) ∧
      Effect kernelPgtable s.view e.call ret s'.view ∧
      ∀ l0 ∈ s'.roots, ∀ va, pageTableQuery ⟨s'.word, []⟩ l0 va = s'.view.query l0 va) ∧
    ∀ l0 va pa flags pages m', l0 ∈ s.roots → FreshPages s.word s.roots pages → pa.toNat < 2 ^ 48 →
      pageTableMap ⟨s.word, pages⟩ l0 va pa flags = (m', aegisOk) → ∀ o < 4096,
      pageTableQuery m' l0 (va + BitVec.ofNat 64 o) =
        .ok (pa + BitVec.ofNat 64 o, pa ||| pageAttrsFromFlags flags) := by
  have h := (intact_init hk hne).run hrun
  refine ⟨fun l0 hl va => pageTableQuery_view h.sound hl va, fun e hok => ?_, ?_⟩
  · obtain ⟨s', ret, heq, hs', heffect⟩ := h.exec hok
    exact ⟨s', ret, heq, heffect, fun l0 hl va => pageTableQuery_view hs'.sound hl va⟩
  intro l0 va pa flags pages m' hl hfresh hlt heq o ho
  rcases pageTableMap_spec (m := ⟨s.word, pages⟩) h.sound hfresh (.inr hl) va pa flags with
    ⟨m₁, ret, heq₁, hret, -⟩ | ⟨m₁, heq₁, -, hva, hpa, hleads⟩ <;> rw [heq₁] at heq
  · obtain ⟨-, rfl⟩ := Prod.mk.inj heq
    rcases hret with hret | hret <;> exact absurd hret (by decide)
  · cases heq
    rw [pageTableQuery_view hleads.sound hl, hleads.view, query_mapped _ _ _ hva hpa hlt ho]

/-! A page mapped at the first call, which makes three tables. -/

def firstRoot : U64 := 0x40200000#64

def firstMap : Event where
  call := .map firstRoot 0x80000000#64 0x41000000#64 vmWrite
  pages := [0x42000000#64, 0x42001000#64, 0x42002000#64]
  fuel := 1

theorem firstMap_admitted : Admitted (.init firstRoot fun _ => 0) firstMap := by
  have hlive : ∀ a, LiveTable (Paging.init firstRoot fun _ => 0).word [firstRoot] a → a = firstRoot := by
    rintro a ⟨r, hr, p, -, hw⟩
    have hrooted := rooted (m := ⟨fun _ => 0, []⟩) (sound_empty _) (by decide) (not_live_nil _ firstRoot)
    rw [mem_singleton.mp hr] at hw
    exact (hrooted.walk_root hw).2
  have hpages : ∀ a ∈ firstMap.pages, PageAligned a ∧ a.toNat < 2 ^ 48 ∧ a ≠ firstRoot := by
    simp only [firstMap, forall_mem_cons]
    exact ⟨by decide, by decide, by decide, forall_mem_nil _⟩
  refine ⟨.inr (by decide), ⟨by decide, fun a ha _ => ?_⟩, by decide⟩
  obtain ⟨haligned, hlt, hne⟩ := hpages a ha
  exact ⟨haligned, hlt, fun h => hne (hlive a h)⟩

theorem firstMap_found : ((step firstRoot (.init firstRoot fun _ => 0) firstMap).any fun s =>
      match pageTableQuery ⟨s.word, []⟩ firstRoot 0x80000123#64 with
      | .ok (pa, _) => pa == 0x41000123#64
      | .error _ => false) = true := by
  decide +kernel

/-- After the call the byte `0x123` of the page is found, and the map goes on. -/
theorem first_page_found :
    ∃ s entry, Run (step firstRoot) Admitted (.init firstRoot fun _ => 0) [firstMap] s ∧
      pageTableQuery ⟨s.word, []⟩ firstRoot 0x80000123#64 = .ok (0x41000123#64, entry) ∧
      (∀ l0 ∈ s.roots, ∀ va, pageTableQuery ⟨s.word, []⟩ l0 va = s.view.query l0 va) ∧
      (∀ e, Admitted s e → ∃ s' ret, exec firstRoot s e = some (s', ret) ∧
        Effect firstRoot s.view e.call ret s'.view ∧
        ∀ l0 ∈ s'.roots, ∀ va, pageTableQuery ⟨s'.word, []⟩ l0 va = s'.view.query l0 va) ∧
      ∀ l0 va pa flags pages m', l0 ∈ s.roots → FreshPages s.word s.roots pages → pa.toNat < 2 ^ 48 →
        pageTableMap ⟨s.word, pages⟩ l0 va pa flags = (m', aegisOk) → ∀ o < 4096,
        pageTableQuery m' l0 (va + BitVec.ofNat 64 o) =
          .ok (pa + BitVec.ofNat 64 o, pa ||| pageAttrsFromFlags flags) := by
  obtain ⟨s, hstep, hfound⟩ := (any_eq_true _ _).mp firstMap_found
  have hrun := Run.single firstMap_admitted hstep
  cases hq : pageTableQuery ⟨s.word, []⟩ firstRoot 0x80000123#64 with
  | error ret => simp [hq] at hfound
  | ok r =>
    obtain ⟨pa, entry⟩ := r
    simp only [hq, beq_iff_eq] at hfound
    exact ⟨s, entry, hrun, by rw [hq, hfound],
      page_tables_refine_map firstRoot _ _ s (by decide) (by decide) hrun⟩

end AegisOS.PageTables
