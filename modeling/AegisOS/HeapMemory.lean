import AegisOS.HeapTiling
import AegisOS.Lib.ByteStore

/-! The kernel heap as it lies in memory (`kernel/memory/heap.c`): a header in front of every
block, linked in address order. The loops run on fuel; what they leave in memory is what the
functions on block lists compute. -/
namespace AegisOS.HeapMemory
open ByteStore Heap Function List Nat

/-- `block_header_t` -/
structure Header where
  size : Nat
  free : Bool
  next : Nat

def headerAt (m : Store) (p : Nat) : Header := ⟨readLe m p 8, m (p + 8) != 0, readLe m (p + 16) 8⟩

def setSize (m : Store) (p v : Nat) : Store := writeLe m p 8 v

def setFree (m : Store) (p : Nat) (v : Bool) : Store := update m (p + 8) (if v then 1 else 0)

def setNext (m : Store) (p v : Nat) : Store := writeLe m (p + 16) 8 v

/-- The difference as a `u64`. -/
def sub64 (x y : Nat) : Nat := (x + 2 ^ 64 - y) % 2 ^ 64

structure State where
  mem : Store
  heapHead : Nat

def heapInit (m : Store) (base size : Nat) : State :=
  let m := setSize m base (sub64 size headerSize)
  let m := setFree m base true
  ⟨setNext m base 0, base⟩

/-- The search of `kmalloc`, standing at `cur`; `0` is NULL. -/
def kmallocLoop (size : Nat) : Nat → Store → Nat → Option (Store × Nat)
  | 0, _, _ => none
  | fuel + 1, m, cur =>
    if cur = 0 then some (m, 0)
    else if (headerAt m cur).free = true ∧ size ≤ (headerAt m cur).size then
      if (size + headerSize + 8) % 2 ^ 64 ≤ (headerAt m cur).size then
        let newBlock := (cur + headerSize + size) % 2 ^ 64
        let m := setSize m newBlock (sub64 (sub64 (headerAt m cur).size size) headerSize)
        let m := setFree m newBlock true
        let m := setNext m newBlock (headerAt m cur).next
        let m := setSize m cur size
        let m := setNext m cur newBlock
        some (setFree m cur false, (cur + headerSize) % 2 ^ 64)
      else some (setFree m cur false, (cur + headerSize) % 2 ^ 64)
    else kmallocLoop size fuel m (headerAt m cur).next

def kmalloc (fuel : Nat) (h : State) (size : Nat) : Option (State × Nat) :=
  (kmallocLoop (align8 size) fuel h.mem h.heapHead).map fun got => ({ h with mem := got.1 }, got.2)

/-- The coalescing loop of `kfree`, standing at `cur`. -/
def coalesceLoop : Nat → Store → Nat → Option Store
  | 0, _, _ => none
  | fuel + 1, m, cur =>
    if cur = 0 ∨ (headerAt m cur).next = 0 then some m
    else
      let next := headerAt m (headerAt m cur).next
      if (headerAt m cur).free = true ∧ next.free = true then
        let m := setSize m cur (((headerAt m cur).size + (headerSize + next.size)) % 2 ^ 64)
        coalesceLoop fuel (setNext m cur (headerAt m (headerAt m cur).next).next) cur
      else coalesceLoop fuel m (headerAt m cur).next

def kfree (fuel : Nat) (h : State) (ptr : Nat) : Option State :=
  if ptr = 0 then some h
  else
    (coalesceLoop fuel (setFree h.mem (sub64 ptr headerSize) true) h.heapHead).map fun m =>
      { h with mem := m }

/-- The copy of `krealloc`, byte by byte. -/
def copyLoop (hdr new ptr : Nat) : Nat → Store → Nat → Option Store
  | 0, _, _ => none
  | fuel + 1, m, i =>
    if i < (headerAt m hdr).size then
      copyLoop hdr new ptr fuel
        (update m ((new + i) % 2 ^ 64) (m ((ptr + i) % 2 ^ 64))) (i + 1)
    else some m

def krealloc (fuel : Nat) (h : State) (ptr newSize : Nat) : Option (State × Nat) :=
  if ptr = 0 then kmalloc fuel h newSize
  else
    let hdr := sub64 ptr headerSize
    if newSize ≤ (headerAt h.mem hdr).size then some (h, ptr)
    else
      (kmalloc fuel h newSize).bind fun got =>
        if got.2 = 0 then some (got.1, 0)
        else
          (copyLoop hdr got.2 ptr fuel got.1.mem 0).bind fun m =>
            (kfree fuel { got.1 with mem := m } ptr).map fun h => (h, got.2)

/-! Headers and writes. -/

/-- The memories agree outside the addresses from `a` up to `b`. -/
def ChangedIn (a b : Nat) (m m' : Store) : Prop := ∀ x, x < a ∨ b ≤ x → m' x = m x

variable {v a b p e size fuel : Nat} {m m' m1 : Store} {l rest : List Block}

section
variable {m m' : Store} {p q : Nat}

theorem headerAt_congr (h : ∀ x, p ≤ x → x < p + headerSize → m' x = m x) :
    headerAt m' p = headerAt m p := by
  have hsize : readLe m' p 8 = readLe m p 8 :=
    readLe_congr fun x hx hlt => h x hx (by rw [headerSize]; omega)
  have hnext : readLe m' (p + 16) 8 = readLe m (p + 16) 8 :=
    readLe_congr fun x hx hlt => h x (by omega) (by rw [headerSize]; omega)
  rw [headerAt, headerAt, hsize, hnext, h (p + 8) (by omega) (by rw [headerSize]; omega)]

theorem setSize_changed (v : Nat) : ChangedIn p (p + headerSize) m (setSize m p v) :=
  fun _ hx => writeLe_outside (by rw [headerSize] at hx; omega)

theorem setNext_changed (v : Nat) : ChangedIn p (p + headerSize) m (setNext m p v) :=
  fun _ hx => writeLe_outside (by rw [headerSize] at hx; omega)

theorem setFree_changed (v : Bool) : ChangedIn p (p + headerSize) m (setFree m p v) :=
  fun _ hx => update_of_ne (by rw [headerSize] at hx; omega) _ _

theorem headerAt_setSize (hv : v < 2 ^ 64) :
    headerAt (setSize m p v) p = { headerAt m p with size := v } := by
  have hsize : readLe (writeLe m p 8 v) p 8 = v := readLe_writeLe m p (by simpa using hv)
  have hnext : readLe (writeLe m p 8 v) (p + 16) 8 = readLe m (p + 16) 8 :=
    readLe_congr fun x hx _ => writeLe_outside (by omega)
  have hfree : writeLe m p 8 v (p + 8) = m (p + 8) := writeLe_outside (by omega)
  simp only [headerAt, setSize, hsize, hnext, hfree]

theorem headerAt_setNext (hv : v < 2 ^ 64) :
    headerAt (setNext m p v) p = { headerAt m p with next := v } := by
  have hnext : readLe (writeLe m (p + 16) 8 v) (p + 16) 8 = v :=
    readLe_writeLe m (p + 16) (by simpa using hv)
  have hsize : readLe (writeLe m (p + 16) 8 v) p 8 = readLe m p 8 :=
    readLe_congr fun x hx _ => writeLe_outside (by omega)
  have hfree : writeLe m (p + 16) 8 v (p + 8) = m (p + 8) := writeLe_outside (by omega)
  simp only [headerAt, setNext, hsize, hnext, hfree]

theorem headerAt_setFree (v : Bool) :
    headerAt (setFree m p v) p = { headerAt m p with free := v } := by
  have hsize : readLe (setFree m p v) p 8 = readLe m p 8 :=
    readLe_congr fun x hx _ => update_of_ne (by omega) _ _
  have hnext : readLe (setFree m p v) (p + 16) 8 = readLe m (p + 16) 8 :=
    readLe_congr fun x hx _ => update_of_ne (by omega) _ _
  have hfree : (setFree m p v (p + 8) != 0) = v := by cases v <;> simp [setFree]
  simp only [headerAt, hsize, hnext, hfree]

theorem ChangedIn.headerAt (h : ChangedIn a b m m')
    (hp : p + headerSize ≤ a ∨ b ≤ p) : headerAt m' p = headerAt m p :=
  headerAt_congr fun x hx hlt => h x (by omega)

theorem ChangedIn.trans {m'' : Store} (h : ChangedIn a b m m')
    (h' : ChangedIn a b m' m'') : ChangedIn a b m m'' := fun x hx => (h' x hx).trans (h x hx)

theorem ChangedIn.mono {c d : Nat} (h : ChangedIn c d m m') (hac : a ≤ c) (hdb : d ≤ b) :
    ChangedIn a b m m' := fun x hx => h x (by omega)

theorem headerAt_next_lt (m : Store) (p : Nat) : (HeapMemory.headerAt m p).next < 2 ^ 64 := by
  simpa [HeapMemory.headerAt] using readLe_lt m (p + 16) 8

end

/-- The blocks linked from `p` on are those of the list. -/
def Holds (m : Store) : Nat → List Block → Prop
  | p, [] => p = 0
  | p, b :: rest => p = b.addr ∧ p ≠ 0 ∧ (headerAt m p).size = b.size ∧
      (headerAt m p).free = b.free ∧ Holds m (headerAt m p).next rest

theorem Holds.header {b : Block} (h : Holds m p (b :: rest)) :
    headerAt m p = ⟨b.size, b.free, (headerAt m p).next⟩ := by
  rw [← h.2.2.1, ← h.2.2.2.1]

theorem Holds.cons {b : Block} {q : Nat} (hp : p = b.addr) (hne : p ≠ 0)
    (hb : headerAt m p = ⟨b.size, b.free, q⟩) (hrest : Holds m q rest) : Holds m p (b :: rest) := by
  rw [Holds, hb]
  exact ⟨hp, hne, rfl, rfl, hrest⟩

theorem Holds.congr (h : Holds m p l)
    (hsame : ∀ b ∈ l, headerAt m' b.addr = headerAt m b.addr) : Holds m' p l := by
  induction l generalizing p with
  | nil => exact h
  | cons b rest ih =>
    have hheader := h.header
    obtain ⟨rfl, hne, -, -, hrest⟩ := h
    exact .cons rfl hne ((hsame b mem_cons_self).trans hheader)
      (ih hrest fun c hc => hsame c (mem_cons_of_mem b hc))

theorem Holds.changed (h : Holds m p l)
    (hcovers : Covers b l e) (hchanged : ChangedIn a b m m') : Holds m' p l :=
  h.congr fun _ hc => hchanged.headerAt (.inr (hcovers.within hc).1)

theorem sub64_of_le {x y : Nat} (h : y ≤ x) (hx : x < 2 ^ 64) : sub64 x y = x - y := by
  rw [sub64]
  omega

theorem sub64_header (h : a + headerSize < 2 ^ 64) : sub64 (a + headerSize) headerSize = a := by
  rw [sub64_of_le (by omega) h, Nat.add_sub_cancel]

theorem behind_ne_zero (a : Nat) : ¬a + headerSize = 0 := by simp [headerSize]

/-! Allocation. -/

/-- The block at `cur` split for `size` bytes, in memory. -/
theorem split_holds {b : Block}
    (hm : Holds m b.addr (b :: rest)) (hl : Covers a (b :: rest) e) (hlimit : e ≤ 2 ^ 64)
    (hsplit : size + headerSize + 8 ≤ b.size) {m2 : Store}
    (hm1 : m1 = setNext (setFree (setSize m (b.addr + headerSize + size)
      (b.size - size - headerSize)) (b.addr + headerSize + size) true)
      (b.addr + headerSize + size) (headerAt m b.addr).next)
    (hm2 : m2 = setFree (setNext (setSize m1 b.addr size) b.addr (b.addr + headerSize + size))
      b.addr false) :
    Holds m2 b.addr (⟨b.addr, size, false⟩ ::
        ⟨b.addr + headerSize + size, b.size - size - headerSize, true⟩ :: rest) ∧
      ChangedIn b.addr (b.addr + headerSize + b.size) m m2 := by
  obtain ⟨-, hne, -, -, hrest⟩ := hm
  have hend := (hl.within mem_cons_self).2
  have hc1 : ChangedIn (b.addr + headerSize + size) (b.addr + headerSize + b.size) m m1 := by
    rw [hm1]
    exact (((setSize_changed _).trans (setFree_changed _)).trans (setNext_changed _)).mono
      (le_refl _) (by omega)
  have hc2 : ChangedIn b.addr (b.addr + headerSize) m1 m2 := by
    rw [hm2]
    exact ((setSize_changed _).trans (setNext_changed _)).trans (setFree_changed _)
  have hc : ChangedIn b.addr (b.addr + headerSize + b.size) m m2 :=
    (hc1.mono (by omega) (le_refl _)).trans (hc2.mono (le_refl _) (by omega))
  have hnew : headerAt m2 (b.addr + headerSize + size) =
      ⟨b.size - size - headerSize, true, (headerAt m b.addr).next⟩ := by
    rw [hc2.headerAt (.inr (by omega)), hm1, headerAt_setNext (headerAt_next_lt m b.addr),
      headerAt_setFree, headerAt_setSize (by omega)]
  have hold : headerAt m2 b.addr = ⟨size, false, b.addr + headerSize + size⟩ := by
    rw [hm2, headerAt_setFree, headerAt_setNext (by omega), headerAt_setSize (by omega)]
  refine ⟨.cons rfl hne hold (.cons rfl (by simp [headerSize]) hnew ?_), hc⟩
  have hstart : a = b.addr := hl.1.symm
  have htail : Covers (b.addr + headerSize + b.size) rest e := by
    have htail := hl.2
    rwa [hstart, Block.span, ← add_assoc] at htail
  exact hrest.changed htail hc

/-- The block at `cur` taken as a whole, in memory. -/
theorem take_holds {b : Block} (v : Bool)
    (hm : Holds m b.addr (b :: rest)) (hl : Covers a (b :: rest) e) :
    Holds (setFree m b.addr v) b.addr ({ b with free := v } :: rest) := by
  have hstart : a = b.addr := hl.1.symm
  refine .cons rfl hm.2.1 (by rw [headerAt_setFree, hm.header]) ?_
  refine hm.2.2.2.2.changed hl.2 ((setFree_changed (p := b.addr) v).mono (le_refl _) ?_)
  rw [Block.span]
  omega

theorem kmallocLoop_spec (hsize : size + headerSize + 8 < 2 ^ 64)
    {cur : Nat} (hlimit : e ≤ 2 ^ 64) (hfuel : l.length < fuel)
    (hm : Holds m cur l) (hl : Covers a l e) :
    (allocFrom size l = none ∧ kmallocLoop size fuel m cur = some (m, 0)) ∨
      ∃ l' m' c, allocFrom size l = some (l', c.addr + headerSize) ∧
        kmallocLoop size fuel m cur = some (m', (c.addr + headerSize) % 2 ^ 64) ∧
        Holds m' cur l' ∧ c ∈ l ∧ c.free = true ∧
        ChangedIn c.addr (c.addr + headerSize + c.size) m m' := by
  induction l generalizing a cur fuel with
  | nil =>
    cases fuel with
    | zero => simp at hfuel
    | succ fuel =>
      have hend : cur = 0 := hm
      exact .inl ⟨rfl, by rw [kmallocLoop, if_pos hend]⟩
  | cons b rest ih =>
    cases fuel with
    | zero => simp at hfuel
    | succ fuel =>
      have hheld := hm
      obtain ⟨rfl, hne, hsz, hfr, hrest⟩ := hm
      rw [kmallocLoop, if_neg hne, allocFrom, hsz, hfr]
      by_cases hfits : b.free = true ∧ size ≤ b.size
      · rw [if_pos hfits, if_pos hfits]
        have hend := (hl.within mem_cons_self).2
        right
        by_cases hsplit : (size + headerSize + 8) % 2 ^ 64 ≤ b.size
        · rw [if_pos hsplit, if_pos hsplit]
          rw [mod_eq_of_lt hsize] at hsplit
          have hnew : (b.addr + headerSize + size) % 2 ^ 64 = b.addr + headerSize + size :=
            mod_eq_of_lt (by omega)
          have hleft : sub64 (sub64 b.size size) headerSize = b.size - size - headerSize := by
            have hrest : sub64 b.size size = b.size - size := sub64_of_le (by omega) (by omega)
            rw [hrest, sub64_of_le (by omega) (by omega)]
          have hcur : ∀ v, (headerAt (setFree (setSize m (b.addr + headerSize + size) v)
              (b.addr + headerSize + size) true) b.addr).next = (headerAt m b.addr).next := by
            intro v
            rw [((setSize_changed (p := b.addr + headerSize + size) v).trans
              (setFree_changed true)).headerAt (.inl (by omega))]
          obtain ⟨hholds, hchanged⟩ := split_holds hheld hl hlimit hsplit rfl rfl
          refine ⟨_, _, b, rfl, ?_, hholds, mem_cons_self, hfits.1, hchanged⟩
          simp only [hnew, hleft, hcur]
        · rw [if_neg hsplit, if_neg hsplit]
          refine ⟨_, _, b, rfl, rfl, take_holds false hheld hl, mem_cons_self, hfits.1, ?_⟩
          exact (setFree_changed false).mono (le_refl _) (by omega)
      · rw [if_neg hfits, if_neg hfits]
        have hfuel' : rest.length < fuel := by simpa using hfuel
        obtain ⟨hnone, hloop⟩ | ⟨l', m', c, hsome, hloop, hholds, hc, hfree, hchanged⟩ :=
          ih hfuel' hrest hl.2
        · exact .inl ⟨by rw [hnone]; rfl, hloop⟩
        right
        refine ⟨b :: l', m', c, by rw [hsome]; rfl, hloop, ?_, mem_cons_of_mem b hc, hfree,
          hchanged⟩
        -- the change lies behind the block just passed
        have hbc := rel_of_pairwise_cons (Tiling.Tiles.pairwise hl) hc
        have hb : headerAt m' b.addr = headerAt m b.addr := by
          refine hchanged.headerAt (.inl ?_)
          rw [Block.span] at hbc
          omega
        exact .cons rfl hne (hb.trans hheld.header) hholds

/-! Release. -/

theorem release_holds {q : Nat} (hm : Holds m p l)
    (hapart : ∀ b ∈ l, b.addr ≠ q → b.addr + headerSize ≤ q ∨ q + headerSize ≤ b.addr) :
    Holds (setFree m q true) p (l.map (release (q + headerSize))) := by
  induction l generalizing p with
  | nil => exact hm
  | cons b rest ih =>
    have hheader := hm.header
    obtain ⟨rfl, hne, -, -, hrest⟩ := hm
    have htail := ih hrest fun c hc => hapart c (mem_cons_of_mem b hc)
    by_cases hq : b.addr = q
    · have hb : release (q + headerSize) b = { b with free := true } := by rw [release, if_pos (by rw [hq])]
      rw [map_cons, hb]
      refine .cons rfl hne ?_ htail
      rw [← hq, headerAt_setFree, hheader]
    · have hb : release (q + headerSize) b = b := by rw [release, if_neg (by omega)]
      have hsame := (setFree_changed (m := m) true).headerAt (hapart b mem_cons_self hq)
      rw [map_cons, hb]
      exact .cons rfl hne (hsame.trans hheader) htail

def HeadersChanged (l : List Block) (m m' : Store) : Prop :=
  ∀ x, (∀ b ∈ l, b.free = true → x < b.addr ∨ b.addr + headerSize ≤ x) → m' x = m x

theorem coalesceLoop_spec {b : Block}
    (hlimit : e ≤ 2 ^ 64) (hfuel : rest.length < fuel) (hm : Holds m b.addr (b :: rest))
    (hl : Covers a (b :: rest) e) : ∃ m', coalesceLoop fuel m b.addr = some m' ∧
      Holds m' b.addr (coalesceFrom b rest) ∧ HeadersChanged (b :: rest) m m' := by
  induction rest generalizing a b fuel m with
  | nil =>
    cases fuel with
    | zero => simp at hfuel
    | succ fuel =>
      have hlast : (headerAt m b.addr).next = 0 := hm.2.2.2.2
      exact ⟨m, by rw [coalesceLoop, if_pos (.inr hlast)], hm, fun _ _ => rfl⟩
  | cons c rest ih =>
    cases fuel with
    | zero => simp at hfuel
    | succ fuel =>
      have hfuel' : rest.length < fuel := by simpa using hfuel
      have hheld := hm
      obtain ⟨-, hne, hsize, hfree, hnext, hcne, hcsize, hcfree, hrest⟩ := hm
      have hstart : b.addr = a := hl.1
      have hcstart : c.addr = a + b.span := hl.2.1
      have hend := (hl.within (mem_cons_of_mem b mem_cons_self)).2
      rw [Block.span] at hcstart
      have hgo : ¬(b.addr = 0 ∨ (headerAt m b.addr).next = 0) := by
        rintro (h | h)
        · exact hne h
        · exact hcne h
      simp only [coalesceLoop, if_neg hgo, coalesceFrom]
      rw [hnext] at hcsize hcfree hrest
      rw [hnext, hsize, hfree, hcsize, hcfree]
      by_cases hboth : b.free = true ∧ c.free = true
      · rw [if_pos hboth, if_pos hboth]
        have hsum : (b.size + (headerSize + c.size)) % 2 ^ 64 = b.size + headerSize + c.size := by
          omega
        rw [hsum]
        have hc1 := setSize_changed (m := m) (p := b.addr) (b.size + headerSize + c.size)
        have hb1 := headerAt_setSize (m := m) (p := b.addr) (v := b.size + headerSize + c.size)
          (by omega)
        have hnext1 : (headerAt (setSize m b.addr (b.size + headerSize + c.size)) b.addr).next =
            c.addr := by rw [hb1]; exact hnext
        have hafter := hc1.headerAt (p := c.addr) (.inr (by omega))
        rw [hnext1, hafter]
        have hc2 := setNext_changed (m := setSize m b.addr (b.size + headerSize + c.size))
          (p := b.addr) (headerAt m c.addr).next
        have hb2 := headerAt_setNext (m := setSize m b.addr (b.size + headerSize + c.size))
          (p := b.addr) (headerAt_next_lt m c.addr)
        rw [hb1] at hb2
        have htail : Covers (a + b.span + c.span) rest e := hl.2.2
        have hcovers : Covers a ({ b with size := b.size + headerSize + c.size } :: rest) e := by
          refine ⟨hstart, ?_⟩
          have hspan : a + Block.span { b with size := b.size + headerSize + c.size } =
              a + b.span + c.span := by
            simp only [Block.span]
            omega
          rw [hspan]
          exact htail
        have hmerged : Holds (setNext (setSize m b.addr (b.size + headerSize + c.size)) b.addr
            (headerAt m c.addr).next) b.addr
            ({ b with size := b.size + headerSize + c.size } :: rest) := by
          refine .cons rfl hne (by rw [hb2, hheld.header]) (hrest.changed htail
            ((hc1.trans hc2).mono (le_refl _) ?_))
          simp only [Block.span]
          omega
        obtain ⟨m', hloop, hholds, hchanged⟩ := ih hfuel' hmerged hcovers
        refine ⟨m', hloop, hholds, fun x hx => ?_⟩
        have hxb := hx b mem_cons_self hboth.1
        rw [hchanged x, (hc1.trans hc2) x hxb]
        intro d hd hdfree
        cases mem_cons.mp hd with
        | inl heq => rw [heq]; exact hxb
        | inr hd => exact hx d (by simp [hd]) hdfree
      · rw [if_neg hboth, if_neg hboth]
        have hcheld : Holds m c.addr (c :: rest) := ⟨rfl, by rwa [← hnext], hcsize, hcfree, hrest⟩
        obtain ⟨m', hloop, hholds, hchanged⟩ := ih hfuel' hcheld hl.2
        have hb : headerAt m' b.addr = headerAt m b.addr := by
          refine headerAt_congr fun x hx hlt => hchanged x fun d hd _ => .inl ?_
          have := (Covers.within hl.2 hd).1
          rw [Block.span] at this
          omega
        refine ⟨m', hloop, ?_, fun x hx => hchanged x fun d hd => hx d (mem_cons_of_mem b hd)⟩
        exact .cons rfl hne (hb.trans hheld.header) (by rwa [hnext])

theorem kfree_spec {head base limit : Nat} {c : Block}
    (hlimit : limit ≤ 2 ^ 64) (hfuel : l.length ≤ fuel) (hm : Holds m head l)
    (hl : WellFormed base limit l) (hc : c ∈ l) (hptr : c.addr + headerSize < 2 ^ 64) :
    ∃ m', kfree fuel ⟨m, head⟩ (c.addr + headerSize) = some ⟨m', head⟩ ∧
      Holds m' head (Heap.kfree l (c.addr + headerSize)) ∧
      ∀ x, (∀ b ∈ l, b.free = true ∨ b = c → x < b.addr ∨ b.addr + headerSize ≤ x) →
        m' x = m x := by
  have hnull := behind_ne_zero c.addr
  have hreleased := release_holds (q := c.addr) hm fun b hb hne => by
    have := hl.covers.apart hb hc fun h => hne (by rw [h])
    omega
  have hcovers := release_covers (c.addr + headerSize) hl.covers
  rw [kfree, if_neg hnull, sub64_header hptr, Heap.kfree, if_neg hnull]
  cases hlist : l with
  | nil => rw [hlist] at hc; cases hc
  | cons b rest =>
    rw [hlist] at hreleased hcovers
    have hhead : head = (release (c.addr + headerSize) b).addr := hreleased.1
    have hrest : (rest.map (release (c.addr + headerSize))).length < fuel := by
      rw [hlist] at hfuel
      simpa using hfuel
    rw [hhead] at hreleased ⊢
    obtain ⟨m', hloop, hholds, hchanged⟩ := coalesceLoop_spec hlimit hrest hreleased hcovers
    refine ⟨m', by rw [hloop]; rfl, hholds, fun x hx => ?_⟩
    have hxc := hx c (by rw [← hlist]; exact hc) (.inr rfl)
    rw [hchanged x, setFree_changed true x hxc]
    intro d hd hdfree
    rw [← map_cons] at hd
    obtain ⟨d', hd', rfl⟩ := mem_map.mp hd
    rw [release_addr]
    refine hx d' hd' ?_
    by_cases heq : d'.addr + headerSize = c.addr + headerSize
    · right
      exact hl.covers.inj (by rw [hlist]; exact hd') hc (by omega)
    · rw [release, if_neg heq] at hdfree
      exact .inl hdfree

/-! The copy. -/

/-- The first `i` bytes at `ptr` have been copied to `new`. -/
def Copied (new ptr : Nat) (m m' : Store) (i : Nat) : Prop :=
  ChangedIn new (new + i) m m' ∧ ∀ j < i, m' (new + j) = m (ptr + j)

theorem copyLoop_spec {hdr new ptr n : Nat} (hsize : (headerAt m hdr).size = n)
    (hnew : new + n ≤ 2 ^ 64) (hptr : ptr + n ≤ 2 ^ 64)
    (hhdr : hdr + headerSize ≤ new ∨ new + n ≤ hdr) (hapart : ptr + n ≤ new ∨ new + n ≤ ptr)
    {i : Nat} (hi : i ≤ n) (hfuel : n < fuel + i) (hm : Copied new ptr m m1 i) :
    ∃ m', copyLoop hdr new ptr fuel m1 i = some m' ∧ Copied new ptr m m' n := by
  induction fuel generalizing i m1 with
  | zero => omega
  | succ fuel ih =>
    have hsize1 : (headerAt m1 hdr).size = n := by rw [hm.1.headerAt (by omega), hsize]
    rw [copyLoop, hsize1]
    by_cases hlt : i < n
    · rw [if_pos hlt, mod_eq_of_lt (by omega : new + i < 2 ^ 64),
        mod_eq_of_lt (by omega : ptr + i < 2 ^ 64)]
      refine ih (by omega) (by omega) ⟨fun x hx => ?_, fun j hj => ?_⟩
      · rw [update_of_ne (by omega), hm.1 x (by omega)]
      by_cases hji : j = i
      · rw [hji, update_self, hm.1 (ptr + i) (by omega)]
      · rw [update_of_ne (by omega), hm.2 j (by omega)]
    · have hdone : i = n := by omega
      rw [if_neg hlt]
      exact ⟨m1, rfl, hdone ▸ hm⟩

end AegisOS.HeapMemory
