import AegisOS.HeapMemory
import AegisOS.Lib.GuardedRun

/-! Runs of the kernel heap: any sequence of `kmalloc`, `krealloc` and `kfree`, with the callers
writing into what they were given. The bytes asked for are kept beside the heap. -/
namespace AegisOS.HeapMemory
open ByteStore Heap GuardedRun Function Option Nat

/-- The memory given to `heap_init`. -/
structure Region where
  base : Nat
  size : Nat
  mapped : 0 < base
  aligned : base % 8 = 0
  large : headerSize ≤ size
  fits : base + size ≤ 2 ^ 64

def Region.limit (r : Region) : Nat := r.base + r.size

inductive Op
  | malloc (size : Nat)
  | realloc (ptr size : Nat)
  | free (ptr : Nat)
  | write (ptr off : Nat) (v : UInt8)

/-- The heap and the live allocations with the sizes asked for. -/
structure Client where
  heap : State
  live : Nat → Option Nat

def Client.start (m : Store) (r : Region) : Client := ⟨heapInit m r.base r.size, fun _ => none⟩

def noteGrant (live : Nat → Option Nat) (ptr size : Nat) : Nat → Option Nat :=
  if ptr = 0 then live else update live ptr (some size)

variable {live : Nat → Option Nat} {ptr p n : Nat}

theorem noteGrant_self {size : Nat} (h : ptr ≠ 0) : noteGrant live ptr size ptr = some size := by
  rw [noteGrant, if_neg h, update_self]

theorem noteGrant_some {size k : Nat} (h : ptr ≠ 0)
    (hp : noteGrant live ptr size p = some k) : p = ptr ∧ size = k ∨ p ≠ ptr ∧ live p = some k := by
  rw [noteGrant, if_neg h, update_apply] at hp
  split at hp
  · exact .inl ⟨‹_›, some.inj hp⟩
  · exact .inr ⟨‹_›, hp⟩

theorem noteGrant_of_ne {size : Nat} (h : p ≠ ptr) : noteGrant live ptr size p = live p := by
  rw [noteGrant]
  split
  · rfl
  · exact update_of_ne h _ _

def perform (fuel : Nat) (s : Client) : Op → Option (Client × Nat)
  | .malloc n => (kmalloc fuel s.heap n).map fun got => (⟨got.1, noteGrant s.live got.2 n⟩, got.2)
  | .realloc p n => (krealloc fuel s.heap p n).map fun got =>
      (⟨got.1, if got.2 = 0 then s.live else
        noteGrant (update s.live p none) got.2 n⟩, got.2)
  | .free p => (kfree fuel s.heap p).map fun h => (⟨h, update s.live p none⟩, 0)
  | .write p off v => some ({ s with heap.mem := update s.heap.mem (p + off) v }, 0)

def step (fuel : Nat) (s : Client) (op : Op) : Option Client := (perform fuel s op).map Prod.fst

/-- Sizes below `2^63`, and only pointers that were returned and not yet freed. -/
def Legal (s : Client) : Op → Prop
  | .malloc n => n < 2 ^ 63
  | .realloc p n => n < 2 ^ 63 ∧ (p = 0 ∨ (s.live p).isSome = true)
  | .free p => p = 0 ∨ (s.live p).isSome = true
  | .write p off _ => (s.live p).any (fun n => off < n) = true

instance (s : Client) (op : Op) : Decidable (Legal s op) :=
  match op with
  | .malloc n => inferInstanceAs (Decidable (n < 2 ^ 63))
  | .realloc _ _ => inferInstanceAs (Decidable (_ ∧ _))
  | .free _ => inferInstanceAs (Decidable (_ ∨ _))
  | .write _ _ _ => inferInstanceAs (Decidable (_ = true))

def payload (s : Client) (p : Nat) : Nat := (headerAt s.heap.mem (p - headerSize)).size

structure Sound (r : Region) (s : Client) : Prop where
  tiled : ∃ l, Holds s.heap.mem s.heap.heapHead l ∧ Covers r.base l r.limit ∧ Coalesced l
  inside : ∀ p n, s.live p = some n → r.base + headerSize ≤ p ∧ p + payload s p ≤ r.limit
  aligned : ∀ p n, s.live p = some n → p % 8 = 0
  large : ∀ p n, s.live p = some n → n ≤ payload s p
  disjoint : ∀ p q n k, s.live p = some n → s.live q = some k → p ≠ q →
    p + payload s p ≤ q ∨ q + payload s q ≤ p

def Kept (s s' : Client) (p : Nat) : Prop :=
  s'.live p = s.live p ∧ payload s' p = payload s p ∧
    readBytes s'.heap.mem p (payload s p) = readBytes s.heap.mem p (payload s p)

/-- What a call with result `q` does to the allocations. -/
def Effect (s s' : Client) (q : Nat) : Op → Prop
  | .malloc n => (∀ p k, s.live p = some k → Kept s s' p) ∧
      (q ≠ 0 → s.live q = none ∧ s'.live q = some n)
  | .realloc p n => (∀ x k, s.live x = some k → x ≠ p ∨ q = 0 → Kept s s' x) ∧
      (q ≠ 0 → s'.live q = some n ∧ (q ≠ p → s.live q = none ∧ s'.live p = none) ∧
        (p ≠ 0 → readBytes s'.heap.mem q (min (payload s p) n) =
          readBytes s.heap.mem p (min (payload s p) n)))
  | .free p => (∀ x k, s.live x = some k → x ≠ p → Kept s s' x) ∧ s'.live p = none
  | .write p _ _ => (∀ x k, s.live x = some k → x ≠ p → Kept s s' x) ∧ s'.live = s.live

/-! The invariant behind it. -/

structure Inv (r : Region) (s : Client) (l : List Block) : Prop where
  holds : Holds s.heap.mem s.heap.heapHead l
  formed : WellFormed r.base r.limit l
  live : ∀ p n, s.live p = some n →
    ∃ c ∈ l, c.free = false ∧ p = c.addr + headerSize ∧ p < 2 ^ 64 ∧ n ≤ c.size

theorem Holds.size {m : Store} {p : Nat} {l : List Block} {c : Block} (h : Holds m p l)
    (hc : c ∈ l) : (headerAt m c.addr).size = c.size := by
  induction l generalizing p with
  | nil => cases hc
  | cons b rest ih =>
    obtain ⟨rfl, -, hsize, -, hrest⟩ := h
    cases List.mem_cons.mp hc with
    | inl heq => rw [heq, hsize]
    | inr hmem => exact ih hrest hmem

def Untouched (m m' : Store) (b : Block) : Prop :=
  ∀ x, b.addr ≤ x → x < b.addr + headerSize + b.size → m' x = m x

theorem Untouched.trans {m m' m'' : Store} {b : Block} (h : Untouched m m' b)
    (h' : Untouched m' m'' b) : Untouched m m'' b :=
  fun x hx hlt => (h' x hx hlt).trans (h x hx hlt)

section
variable {r : Region} {s s' : Client} {l l' : List Block} {m m' : Store} {c d : Block} {head : Nat}

section
variable (h : Inv r s l)
include h

theorem Inv.block (hp : s.live p = some n) :
    ∃ c ∈ l, c.free = false ∧ p = c.addr + headerSize ∧ p < 2 ^ 64 ∧ n ≤ c.size ∧
      payload s p = c.size := by
  obtain ⟨c, hc, hbusy, rfl, hlt, hn⟩ := h.live p n hp
  refine ⟨c, hc, hbusy, rfl, hlt, hn, ?_⟩
  exact h.holds.size hc

theorem Inv.null : s.live 0 = none := by
  cases hzero : s.live 0 with
  | none => rfl
  | some k =>
    obtain ⟨c, -, -, heq, -⟩ := h.live 0 k hzero
    simp [headerSize] at heq

theorem Inv.forget_null : update s.live 0 none = s.live := by
  rw [← h.null]
  exact update_eq_self 0 s.live

theorem Inv.sound : Sound r s := by
  refine ⟨⟨l, h.holds, h.formed.covers, h.formed.coalesced⟩, ?_, ?_, ?_, ?_⟩
  · intro p n hp
    obtain ⟨c, hc, -, rfl, -, -, hsize⟩ := h.block hp
    have := h.formed.covers.within hc
    omega
  · intro p n hp
    obtain ⟨c, hc, -, rfl, -⟩ := h.block hp
    have := h.formed.aligned c hc
    rw [headerSize]
    omega
  · intro p n hp
    obtain ⟨c, -, -, -, -, hn, hsize⟩ := h.block hp
    omega
  · intro p q n k hp hq hne
    obtain ⟨c, hc, -, rfl, -, -, hcsize⟩ := h.block hp
    obtain ⟨d, hd, -, rfl, -, -, hdsize⟩ := h.block hq
    have := h.formed.covers.apart hc hd fun heq => hne (by rw [heq])
    omega

theorem Inv.kept (hp : s.live p = some n) (hlive : s'.live p = s.live p)
    (huntouched : ∀ c ∈ l, c.free = false → c.addr + headerSize = p →
      Untouched s.heap.mem s'.heap.mem c) :
    Kept s s' p := by
  obtain ⟨c, hc, hbusy, rfl, -, -, hsize⟩ := h.block hp
  have hu := huntouched c hc hbusy rfl
  refine ⟨hlive, ?_, ?_⟩
  · have hheader : headerAt s'.heap.mem c.addr = headerAt s.heap.mem c.addr :=
      headerAt_congr fun x hx hlt => hu x hx (by omega)
    rw [payload, payload, Nat.add_sub_cancel, hheader]
  · refine readBytes_congr fun i hi => hu _ (by omega) ?_
    omega

end

/-! One call. -/

variable {fuel : Nat} (hfuel : r.size < fuel)

/-- What a successful `kmalloc` of `n` bytes leaves: block `c` was free, its place is block `d`. -/
structure Granted (r : Region) (m m' : Store) (head : Nat) (l l' : List Block) (c d : Block)
    (n : Nat) : Prop where
  holds : Holds m' head l'
  formed : WellFormed r.base r.limit l'
  was : c ∈ l ∧ c.free = true
  is : d ∈ l' ∧ d.free = false ∧ d.addr = c.addr ∧ n ≤ d.size
  busy : ∀ b ∈ l, b.free = false → b ∈ l' ∧ b.addr ≠ c.addr ∧ Untouched m m' b

include hfuel in
theorem kmalloc_spec (hn : n + 39 < 2 ^ 64) (h : Inv r s l) :
    kmalloc fuel s.heap n = some (s.heap, 0) ∨
      ∃ m' l' c d, kmalloc fuel s.heap n =
          some (⟨m', s.heap.heapHead⟩, (c.addr + headerSize) % 2 ^ 64) ∧
        Granted r s.heap.mem m' s.heap.heapHead l l' c d n := by
  obtain ⟨hle, haligned, hsize⟩ := align8_spec hn
  have hlength : l.length < fuel := by
    have := h.formed.covers.length_le
    simp only [Region.limit] at this
    omega
  rw [kmalloc]
  obtain ⟨-, hloop⟩ | ⟨l', m', c, halloc, hloop, hholds, hc, hfree, hchanged⟩ :=
    kmallocLoop_spec hsize r.fits hlength h.holds h.formed.covers
  · exact .inl (by rw [hloop]; rfl)
  right
  obtain ⟨front, b, rest, hl, hbfree, hbsize, hptr, hl'⟩ := allocFrom_cases halloc
  obtain ⟨d, hd, hdbusy, hdaddr, hdsize⟩ := taken_granted hbsize
  refine ⟨m', l', c, d, by rw [hloop]; rfl, hholds,
    allocFrom_wellFormed hsize haligned h.formed halloc, ⟨hc, hfree⟩,
    ⟨by simp [hl', hd], hdbusy, by omega, by omega⟩, fun x hx hbusy => ?_⟩
  have hne : x ≠ c := by
    rintro rfl
    rw [hfree] at hbusy
    cases hbusy
  have hapart := h.formed.covers.apart hx hc hne
  refine ⟨allocFrom_busy halloc hx hbusy, ?_, fun y hy hlt => hchanged y (by omega)⟩
  rw [headerSize] at hapart
  omega

theorem payload_changed (hm : Holds m p l)
    (hl : Covers r.base l r.limit) (hd : d ∈ l)
    (hchanged : ChangedIn (d.addr + headerSize) (d.addr + headerSize + d.size) m m') :
    Holds m' p l ∧ ∀ b ∈ l, b ≠ d → Untouched m m' b := by
  have hother : ∀ b ∈ l, b ≠ d → Untouched m m' b := by
    intro b hb hne x hx hlt
    have := hl.apart hb hd hne
    exact hchanged x (by omega)
  refine ⟨hm.congr fun b hb => ?_, hother⟩
  by_cases hbd : b = d
  · rw [hbd]
    exact hchanged.headerAt (.inl (le_refl _))
  · exact headerAt_congr fun x hx hlt => hother b hb hbd x hx (by omega)

include hfuel in
/-- `kfree` of a block in use. -/
theorem kfree_block (hm : Holds m head l)
    (hl : WellFormed r.base r.limit l) (hc : c ∈ l) (hptr : c.addr + headerSize < 2 ^ 64) :
    ∃ m', kfree fuel ⟨m, head⟩ (c.addr + headerSize) = some ⟨m', head⟩ ∧
      Holds m' head (Heap.kfree l (c.addr + headerSize)) ∧
      WellFormed r.base r.limit (Heap.kfree l (c.addr + headerSize)) ∧
      ∀ b ∈ l, b.free = false → b ≠ c →
        b ∈ Heap.kfree l (c.addr + headerSize) ∧ Untouched m m' b := by
  have hlength : l.length ≤ fuel := by
    have := hl.covers.length_le
    simp only [Region.limit] at this
    omega
  obtain ⟨m', hfree, hholds, hchanged⟩ := kfree_spec r.fits hlength hm hl hc hptr
  refine ⟨m', hfree, hholds, kfree_wellFormed hl, fun b hb hbusy hne => ⟨?_, ?_⟩⟩
  · refine kfree_busy hb hbusy fun heq => hne ?_
    exact hl.covers.inj hb hc (by omega)
  intro x hx hlt
  refine hchanged x fun d hd hwhich => ?_
  have hdb : b ≠ d := by
    rintro rfl
    cases hwhich with
    | inl hfree => rw [hbusy] at hfree; cases hfree
    | inr heq => exact hne heq
  have := hl.covers.apart hb hd hdb
  omega

theorem inv_start (m : Store) (r : Region) : Inv r (.start m r) (Heap.heapInit r.base r.size) := by
  have hlarge := r.large
  have hfits := r.fits
  have hmapped := r.mapped
  refine ⟨?_, wellFormed_init r.large r.aligned, fun p n hp => by cases hp⟩
  have hheader : headerAt (heapInit m r.base r.size).mem r.base = ⟨r.size - headerSize, true, 0⟩ := by
    have hsize : sub64 r.size headerSize = r.size - headerSize := sub64_of_le hlarge (by omega)
    simp only [heapInit, headerAt_setNext (v := 0) (by decide), headerAt_setFree, hsize]
    rw [headerAt_setSize (by rw [headerSize]; omega)]
  refine ⟨rfl, by simp only [Client.start, heapInit]; omega, ?_⟩
  simp only [Client.start] at hheader ⊢
  have hhead : (heapInit m r.base r.size).heapHead = r.base := rfl
  rw [hhead, hheader]
  exact ⟨rfl, rfl, rfl⟩

/-- The call returns, keeps the invariant and does what it should. -/
def Served (r : Region) (fuel : Nat) (s : Client) (op : Op) : Prop :=
  ∃ s' q l', perform fuel s op = some (s', q) ∧ Inv r s' l' ∧ Effect s s' q op

/-- The invariant after a grant, with the pointers in `live` all on busy blocks. -/
theorem inv_noteGrant (hg : Granted r m m' head l l' c d n)
    (hptr : ptr = (c.addr + headerSize) % 2 ^ 64)
    (hlive : ∀ p k, live p = some k →
      ∃ b ∈ l', b.free = false ∧ p = b.addr + headerSize ∧ p < 2 ^ 64 ∧ k ≤ b.size) :
    Inv r ⟨⟨m', head⟩, noteGrant live ptr n⟩ l' := by
  refine ⟨hg.holds, hg.formed, fun p k hp => ?_⟩
  by_cases hnull : ptr = 0
  · exact hlive p k (by simpa [noteGrant, hnull] using hp)
  obtain ⟨hpq, hk⟩ | ⟨-, hp⟩ := noteGrant_some hnull hp
  · obtain ⟨hd, hbusy, haddr, hsize⟩ := hg.is
    have hlimit := (hg.formed.covers.within hd).2
    have hfits := r.fits
    simp only [Region.limit, headerSize] at hlimit hptr
    refine ⟨d, hd, hbusy, ?_, by omega, by omega⟩
    rw [headerSize]
    omega
  · exact hlive p k hp

theorem Granted.fresh (h : Inv r s l)
    (hg : Granted r s.heap.mem m' head l l' c d n) {ptr : Nat}
    (hptr : ptr = (c.addr + headerSize) % 2 ^ 64) : s.live ptr = none := by
  cases hlive : s.live ptr with
  | none => rfl
  | some k =>
    obtain ⟨b, hb, hbusy, heq, hlt, -⟩ := h.live ptr k hlive
    have hne := (hg.busy b hb hbusy).2.1
    have hlimit := (h.formed.covers.within hg.was.1).2
    have hfits := r.fits
    simp only [Region.limit, headerSize] at hlimit heq hptr
    omega

include hfuel in
theorem malloc_served (hn : n < 2 ^ 63) (h : Inv r s l) : Served r fuel s (.malloc n) := by
  obtain hnull | ⟨m', l', c, d, hgot, hg⟩ := kmalloc_spec (n := n) hfuel (by omega) h
  · refine ⟨s, 0, l, ?_, h, fun p k hp => ⟨rfl, rfl, rfl⟩, fun hq => absurd rfl hq⟩
    rw [perform, hnull]
    rfl
  refine ⟨⟨⟨m', s.heap.heapHead⟩, noteGrant s.live ((c.addr + headerSize) % 2 ^ 64) n⟩,
    (c.addr + headerSize) % 2 ^ 64, l', by rw [perform, hgot]; rfl,
    inv_noteGrant hg rfl fun p k hp => ?_, fun p k hp => ?_,
    fun hq => ⟨hg.fresh h rfl, noteGrant_self hq⟩⟩
  · obtain ⟨b, hb, hbusy, hrest⟩ := h.live p k hp
    exact ⟨b, (hg.busy b hb hbusy).1, hbusy, hrest⟩
  refine h.kept hp ?_ fun b hb hbusy _ => (hg.busy b hb hbusy).2.2
  have hne : p ≠ (c.addr + headerSize) % 2 ^ 64 := by
    rintro rfl
    rw [hg.fresh h rfl] at hp
    cases hp
  exact noteGrant_of_ne hne

include hfuel in
theorem free_served (hp : p = 0 ∨ (s.live p).isSome = true) (h : Inv r s l) :
    Served r fuel s (.free p) := by
  by_cases hnull : p = 0
  · refine ⟨s, 0, l, ?_, h, fun x k hx _ => ⟨rfl, rfl, rfl⟩, by rw [hnull]; exact h.null⟩
    rw [perform, kfree, if_pos hnull, hnull, h.forget_null]
    rfl
  obtain ⟨k, hk⟩ := isSome_iff_exists.mp (hp.resolve_left hnull)
  obtain ⟨c, hc, hbusy, rfl, hlt, -⟩ := h.live p k hk
  obtain ⟨m', hfree, hholds, hformed, hothers⟩ := kfree_block hfuel h.holds h.formed hc hlt
  refine ⟨⟨⟨m', s.heap.heapHead⟩, update s.live (c.addr + headerSize) none⟩, 0, _,
    by rw [perform, hfree]; rfl, ⟨hholds, hformed, fun x j hx => ?_⟩, fun x j hx hne => ?_,
    by simp⟩
  · have hne : x ≠ c.addr + headerSize := by
      rintro rfl
      simp at hx
    dsimp only at hx
    rw [update_of_ne hne] at hx
    obtain ⟨b, hb, hbbusy, heq, hrest⟩ := h.live x j hx
    exact ⟨b, (hothers b hb hbbusy fun hbc => hne (by rw [heq, hbc])).1, hbbusy, heq, hrest⟩
  · refine h.kept hx (update_of_ne hne _ _) fun b hb hbbusy heq => ?_
    exact (hothers b hb hbbusy fun hbc => hne (by rw [← heq, hbc])).2

theorem write_served {off : Nat} (v : UInt8) (hp : (s.live p).any (fun k => off < k) = true)
    (h : Inv r s l) : Served r fuel s (.write p off v) := by
  obtain ⟨k, hk, hoff⟩ := (any_eq_true _ _).mp hp
  have hoff : off < k := of_decide_eq_true hoff
  obtain ⟨c, hc, hbusy, rfl, hlt, hsize⟩ := h.live p k hk
  have hchanged : ChangedIn (c.addr + headerSize) (c.addr + headerSize + c.size) s.heap.mem
      (update s.heap.mem (c.addr + headerSize + off) v) :=
    fun x hx => update_of_ne (by omega) _ _
  obtain ⟨hholds, hothers⟩ := payload_changed h.holds h.formed.covers hc hchanged
  refine ⟨_, 0, l, rfl, ⟨hholds, h.formed, h.live⟩, fun x j hx hne => ?_, rfl⟩
  exact h.kept hx rfl fun b hb _ heq => hothers b hb fun hbc => hne (by rw [← heq, hbc])

theorem krealloc_moved (hn : n + 39 < 2 ^ 64) (hfuel : r.size < fuel) (h : Inv r s l) {c : Block}
    (hc : c ∈ l) (hbusy : c.free = false) (hptr : c.addr + headerSize < 2 ^ 64)
    (hgrow : c.size < n) :
    krealloc fuel s.heap (c.addr + headerSize) n = some (s.heap, 0) ∨
      ∃ m' l' d, krealloc fuel s.heap (c.addr + headerSize) n =
          some (⟨m', s.heap.heapHead⟩, d.addr + headerSize) ∧
        Holds m' s.heap.heapHead l' ∧ WellFormed r.base r.limit l' ∧
        (d ∈ l' ∧ d.free = false ∧ n ≤ d.size ∧ d.addr + headerSize < 2 ^ 64) ∧
        (∀ b ∈ l, b.free = false → b.addr ≠ d.addr) ∧
        (∀ b ∈ l, b.free = false → b ≠ c → b ∈ l' ∧ Untouched s.heap.mem m' b) ∧
        readBytes m' (d.addr + headerSize) c.size =
          readBytes s.heap.mem (c.addr + headerSize) c.size := by
  simp only [krealloc, sub64_header hptr, h.holds.size hc,
    if_neg (not_le.mpr hgrow)]
  obtain hnone | ⟨m1, l1, b, d, hgot, hg⟩ := kmalloc_spec hfuel hn h
  · exact .inl (by rw [hnone]; rfl)
  right
  obtain ⟨hd, hdbusy, hdaddr, hdsize⟩ := hg.is
  obtain ⟨hc1, hcne, hcu⟩ := hg.busy c hc hbusy
  have hlimit := (hg.formed.covers.within hd).2
  have hclimit := hg.formed.covers.within hc1
  have hfits := r.fits
  have hcd : c ≠ d := fun heq => hcne (by rw [heq, hdaddr])
  have hapart := hg.formed.covers.apart hc1 hd hcd
  simp only [Region.limit] at hlimit hclimit
  have hq : (b.addr + headerSize) % 2 ^ 64 = d.addr + headerSize := by
    rw [← hdaddr, mod_eq_of_lt (by omega)]
  rw [hgot, hq, bind_some]
  have hsize1 : (headerAt m1 c.addr).size = c.size := hg.holds.size hc1
  have hzero : Copied (d.addr + headerSize) (c.addr + headerSize) m1 m1 0 :=
    ⟨fun _ _ => rfl, fun j hj => absurd hj (not_lt_zero j)⟩
  have hroom : c.size < fuel + 0 := by omega
  obtain ⟨m2, hcopy, hchanged, hbytes⟩ := copyLoop_spec hsize1 (by omega) (by omega) (by omega)
    (by omega) (zero_le _) hroom hzero
  obtain ⟨hholds2, hothers2⟩ := payload_changed hg.holds hg.formed.covers hd
    (hchanged.mono (le_refl _) (by omega))
  obtain ⟨m3, hfree, hholds3, hformed3, hothers3⟩ := kfree_block hfuel hholds2 hg.formed hc1 hptr
  obtain ⟨hd3, hdu⟩ := hothers3 d hd hdbusy (.symm hcd)
  refine ⟨m3, _, d, ?_, hholds3, hformed3, ⟨hd3, hdbusy, hdsize, by omega⟩, ?_, ?_, ?_⟩
  · rw [hcopy, bind_some, hfree]
    rfl
  · intro x hx hxbusy
    rw [hdaddr]
    exact (hg.busy x hx hxbusy).2.1
  · intro x hx hxbusy hxc
    obtain ⟨hx1, hxne, hxu⟩ := hg.busy x hx hxbusy
    have hxd : x ≠ d := fun heq => hxne (by rw [heq, hdaddr])
    obtain ⟨hx3, hxu3⟩ := hothers3 x hx1 hxbusy hxc
    exact ⟨hx3, (hxu.trans (hothers2 x hx1 hxd)).trans hxu3⟩
  · refine readBytes_congr fun i hi => ?_
    rw [hdu _ (by omega) (by omega), hbytes i hi, hcu _ (by omega) (by omega)]

include hfuel in
/-- `krealloc(NULL, n)` is `kmalloc(n)`. -/
theorem realloc_null_served (hn : n < 2 ^ 63) (h : Inv r s l) : Served r fuel s (.realloc 0 n) := by
  obtain ⟨s', q, l', hs', hinv, hkept, hgrant⟩ := malloc_served hfuel hn h
  refine ⟨s', q, l', ?_, hinv, fun x k hx _ => hkept x k hx, fun hq => ?_⟩
  · rw [perform, krealloc, if_pos rfl, h.forget_null, ← hs', perform]
    congr 1
    funext got
    simp only [noteGrant]
    split <;> rfl
  · obtain ⟨hfresh, hgranted⟩ := hgrant hq
    exact ⟨hgranted, fun _ => ⟨hfresh, hinv.null⟩, fun hp => absurd rfl hp⟩

theorem krealloc_fits {h : State} (hm : Holds h.mem h.heapHead l) (hc : c ∈ l)
    (hlt : c.addr + headerSize < 2 ^ 64) (hfits : n ≤ c.size) :
    krealloc fuel h (c.addr + headerSize) n = some (h, c.addr + headerSize) := by
  simp only [krealloc, if_neg (behind_ne_zero c.addr), sub64_header hlt, hm.size hc, if_pos hfits]

theorem realloc_fits_served (h : Inv r s l) (hc : c ∈ l) (hbusy : c.free = false)
    (hlt : c.addr + headerSize < 2 ^ 64) (hfits : n ≤ c.size) :
    Served r fuel s (.realloc (c.addr + headerSize) n) := by
  have hnull := behind_ne_zero c.addr
  refine ⟨⟨s.heap, noteGrant (update s.live (c.addr + headerSize) none)
    (c.addr + headerSize) n⟩, c.addr + headerSize, l, ?_, ⟨h.holds, h.formed, fun x j hx => ?_⟩,
    fun x j hx hwhich => ?_, fun _ => ⟨noteGrant_self hnull, fun hne => absurd rfl hne,
    fun _ => rfl⟩⟩
  · simp only [perform, krealloc_fits h.holds hc hlt hfits, map_some, if_neg hnull]
  · obtain ⟨hxp, hj⟩ | ⟨hxp, hx⟩ := noteGrant_some hnull hx
    · exact ⟨c, hc, hbusy, hxp, by omega, by omega⟩
    · rw [update_of_ne hxp] at hx
      exact h.live x j hx
  · have hxp : x ≠ c.addr + headerSize := hwhich.resolve_right hnull
    refine ⟨?_, rfl, rfl⟩
    dsimp only
    rw [noteGrant_of_ne hxp, update_of_ne hxp]

include hfuel in
theorem realloc_grows_served (hn : n < 2 ^ 63) (h : Inv r s l) (hc : c ∈ l)
    (hbusy : c.free = false) (hlt : c.addr + headerSize < 2 ^ 64) (hgrow : c.size < n)
    (hpayload : payload s (c.addr + headerSize) = c.size) :
    Served r fuel s (.realloc (c.addr + headerSize) n) := by
  obtain hnone | ⟨m', l', d, hgot, hholds, hformed, ⟨hd, hdbusy, hdsize, hdlt⟩, hdnew, hothers,
    hbytes⟩ := krealloc_moved (n := n) (by omega) hfuel h hc hbusy hlt hgrow
  · refine ⟨s, 0, l, ?_, h, fun x j hx _ => ⟨rfl, rfl, rfl⟩, fun hq => absurd rfl hq⟩
    rw [perform, hnone]
    rfl
  have hqnull := behind_ne_zero d.addr
  have hfresh : s.live (d.addr + headerSize) = none := by
    cases hlive : s.live (d.addr + headerSize) with
    | none => rfl
    | some j =>
      obtain ⟨b, hb, hbbusy, heq, -⟩ := h.live _ j hlive
      exact absurd (by omega) (hdnew b hb hbbusy)
  refine ⟨⟨⟨m', s.heap.heapHead⟩, noteGrant (update s.live (c.addr + headerSize) none)
    (d.addr + headerSize) n⟩, d.addr + headerSize, l', ?_, ⟨hholds, hformed, fun x j hx => ?_⟩,
    fun x j hx hwhich => ?_, fun _ => ⟨noteGrant_self hqnull, fun _ => ⟨hfresh, ?_⟩, fun _ => ?_⟩⟩
  · simp only [perform, hgot, map_some, if_neg hqnull]
  · obtain ⟨hxq, hj⟩ | ⟨-, hx⟩ := noteGrant_some hqnull hx
    · exact ⟨d, hd, hdbusy, hxq, by omega, by omega⟩
    have hxp : x ≠ c.addr + headerSize := by
      rintro rfl
      simp at hx
    rw [update_of_ne hxp] at hx
    obtain ⟨b, hb, hbbusy, heq, hrest⟩ := h.live x j hx
    exact ⟨b, (hothers b hb hbbusy fun hbc => hxp (by rw [heq, hbc])).1, hbbusy, heq, hrest⟩
  · have hxp : x ≠ c.addr + headerSize := hwhich.resolve_right hqnull
    have hxq : x ≠ d.addr + headerSize := by
      rintro rfl
      rw [hfresh] at hx
      cases hx
    refine h.kept hx ?_ fun b hb hbbusy heq =>
      (hothers b hb hbbusy fun hbc => hxp (by rw [← heq, hbc])).2
    dsimp only
    rw [noteGrant_of_ne hxq, update_of_ne hxp]
  · dsimp only
    rw [noteGrant_of_ne (by omega), update_self]
  · have hmin : min (payload s (c.addr + headerSize)) n = c.size := by omega
    rw [hmin]
    exact hbytes

include hfuel in
theorem realloc_served (hn : n < 2 ^ 63) (hp : p = 0 ∨ (s.live p).isSome = true)
    (h : Inv r s l) : Served r fuel s (.realloc p n) := by
  cases hp with
  | inl hnull => rw [hnull]; exact realloc_null_served hfuel hn h
  | inr hlive =>
    obtain ⟨k, hk⟩ := isSome_iff_exists.mp hlive
    obtain ⟨c, hc, hbusy, rfl, hlt, -, hpayload⟩ := h.block hk
    by_cases hfits : n ≤ c.size
    · exact realloc_fits_served h hc hbusy hlt hfits
    · exact realloc_grows_served hfuel hn h hc hbusy hlt (by omega) hpayload

include hfuel in
theorem legal_served {op : Op} (hop : Legal s op) (h : Inv r s l) : Served r fuel s op := by
  cases op with
  | malloc n => exact malloc_served hfuel hop h
  | realloc p n => exact realloc_served hfuel hop.1 hop.2 h
  | free p => exact free_served hfuel hop h
  | write p off v => exact write_served v hop h

end

/-- After any run from `heap_init` the blocks tile the region and the live allocations are whole;
every further call returns and does what it should. -/
theorem kernel_heap_sound (r : Region) (m : Store) {fuel : Nat} (hfuel : r.size < fuel)
    {ops : List Op} {s : Client} (hrun : Run (step fuel) Legal (.start m r) ops s) :
    Sound r s ∧ ∀ op, Legal s op → ∃ s' q, perform fuel s op = some (s', q) ∧ Effect s s' q op := by
  have hinv : ∃ l, Inv r s l := by
    refine hrun.invariant (I := fun s => ∃ l, Inv r s l) ?_ ⟨_, inv_start m r⟩
    rintro s op s' ⟨l, hl⟩ hop hstep
    obtain ⟨t, q, l', hperform, hinv, -⟩ := legal_served hfuel hop hl
    rw [step, hperform, map_some, some.injEq] at hstep
    exact ⟨l', hstep ▸ hinv⟩
  obtain ⟨l, hl⟩ := hinv
  refine ⟨hl.sound, fun op hop => ?_⟩
  obtain ⟨s', q, -, hperform, -, heffect⟩ := legal_served hfuel hop hl
  exact ⟨s', q, hperform, heffect⟩

def smallRegion : Region := ⟨4096, 512, by decide, by decide, by decide, by decide⟩

/-- Two blocks; the first is written to and then grown past the second. -/
def growingRun : List Op :=
  [.malloc 16, .malloc 8, .write 4120 3 7, .realloc 4120 40, .free 4160, .malloc 500]

theorem small_heap_sound : ∃ s, Run (step 513) Legal (.start (fun _ => 0) smallRegion)
    growingRun s ∧ s.live 4192 = some 40 ∧ s.heap.mem 4195 = 7 ∧ Sound smallRegion s := by
  refine Run.exists_of_execute_imp (P := fun s => s.live 4192 = some 40 ∧ s.heap.mem 4195 = 7)
    (fun s hrun hend => ⟨hend.1, hend.2, ?_⟩) (by decide +kernel)
  exact (kernel_heap_sound smallRegion (fun _ => 0) (by decide) hrun).1

/-! What `kmalloc` and `krealloc` hand out for any 64-bit size, also one that wraps when it is
aligned. -/
open List

/-- The pointer stands behind a header of the region, whose block has `n` bytes and ends in the
region. -/
structure Adequate (r : Region) (h : State) (q n : Nat) : Prop where
  start : r.base + headerSize ≤ q
  size : n ≤ (headerAt h.mem (q - headerSize)).size
  inside : q + (headerAt h.mem (q - headerSize)).size ≤ r.limit

def HasFree (l : List Block) : Prop := ∃ c ∈ l, c.free = true ∧ c.addr + headerSize < 2 ^ 64

section
variable {r : Region} {h h' : State} {l : List Block} {n q fuel : Nat}

theorem kmallocLoop_finds {size cur : Nat} {m m' : ByteStore.Store} (hsize : size < 2 ^ 64)
    (hm : Holds m cur l) (hret : kmallocLoop size fuel m cur = some (m', q)) :
    (m' = m ∧ q = 0 ∧ ∀ c ∈ l, c.free = true → c.size < size) ∨
      ∃ front c rest, l = front ++ c :: rest ∧ (∀ b ∈ front, b.free = true → b.size < size) ∧
        c.free = true ∧ size ≤ c.size ∧ q = (c.addr + headerSize) % 2 ^ 64 ∧
        size ≤ (headerAt m' c.addr).size ∧ (headerAt m' c.addr).size ≤ c.size := by
  induction l generalizing cur fuel with
  | nil =>
    cases fuel with
    | zero => cases hret
    | succ fuel =>
      rw [kmallocLoop, if_pos (show cur = 0 from hm)] at hret
      cases hret
      exact .inl ⟨rfl, rfl, fun c hc => absurd hc not_mem_nil⟩
  | cons b rest ih =>
    cases fuel with
    | zero => cases hret
    | succ fuel =>
      obtain ⟨rfl, hne, hsz, hfr, hrest⟩ := hm
      rw [kmallocLoop, if_neg hne, hsz, hfr] at hret
      by_cases hfits : b.free = true ∧ size ≤ b.size
      · rw [if_pos hfits] at hret
        right
        refine ⟨[], b, rest, rfl, fun x hx => absurd hx not_mem_nil, hfits.1, hfits.2, ?_⟩
        split at hret <;> cases hret
        · refine ⟨rfl, ?_⟩
          rw [headerAt_setFree, headerAt_setNext (mod_lt _ (by decide)), headerAt_setSize hsize]
          exact ⟨le_refl _, hfits.2⟩
        · rw [headerAt_setFree]
          exact ⟨rfl, by rw [hsz]; exact hfits.2, le_of_eq hsz⟩
      · rw [if_neg hfits] at hret
        have hsmall : b.free = true → b.size < size :=
          fun hfree => not_le.mp fun hle => hfits ⟨hfree, hle⟩
        obtain ⟨rfl, rfl, hnone⟩ | ⟨front, c, tail, hl, hfront, hc⟩ := ih hrest hret
        · exact .inl ⟨rfl, rfl, forall_mem_cons.mpr ⟨hsmall, hnone⟩⟩
        · exact .inr ⟨b :: front, c, tail, by rw [hl]; rfl,
            forall_mem_cons.mpr ⟨hsmall, hfront⟩, hc⟩

theorem Adequate.of_block {c : Block} (hin : r.base ≤ c.addr ∧ c.addr + headerSize + c.size ≤ r.limit)
    (hlow : n ≤ (headerAt h.mem c.addr).size) (hhigh : (headerAt h.mem c.addr).size ≤ c.size) :
    Adequate r h (c.addr + headerSize) n := by
  have hback := Nat.add_sub_cancel c.addr headerSize
  exact ⟨by omega, hback.symm ▸ hlow, by rw [hback]; omega⟩

theorem align8_le_max (hn : n ≤ 2 ^ 64 - 8) : n ≤ align8 n ∧ align8 n < 2 ^ 64 := by
  rw [align8]
  omega

theorem align8_wraps (hn : ¬n ≤ 2 ^ 64 - 8) (hlt : n < 2 ^ 64) : align8 n = 0 := by
  rw [align8]
  omega

theorem Adequate.le (hq : Adequate r h q n) : n ≤ 2 ^ 64 - 8 := by
  have h1 := hq.start
  have h2 := hq.size
  have h3 := hq.inside
  have h4 := r.fits
  rw [Region.limit] at h3
  rw [headerSize] at h1
  omega

theorem kmalloc_adequate_iff (hl : Holds h.mem h.heapHead l) (hf : WellFormed r.base r.limit l)
    (hn : n < 2 ^ 64) (hret : kmalloc fuel h n = some (h', q)) :
    (q ≠ 0 → Adequate r h' q n) ↔ n ≤ 2 ^ 64 - 8 ∨ ¬HasFree l := by
  have hfits := r.fits
  obtain ⟨⟨m', q'⟩, hloop, heq⟩ := map_eq_some_iff.mp hret
  cases heq
  have hsize : align8 n < 2 ^ 64 := by
    by_cases hmax : n ≤ 2 ^ 64 - 8
    · exact (align8_le_max hmax).2
    · rw [align8_wraps hmax hn]
      decide
  obtain ⟨-, rfl, hnone⟩ | ⟨front, c, rest, rfl, hfront, hfree, hfit, rfl, hlow, hhigh⟩ :=
    kmallocLoop_finds hsize hl hloop
  · refine iff_of_true (fun h0 => absurd rfl h0) ?_
    by_cases hmax : n ≤ 2 ^ 64 - 8
    · exact .inl hmax
    refine .inr fun ⟨c, hc, hfree, _⟩ => ?_
    have := hnone c hc hfree
    rw [align8_wraps hmax hn] at this
    omega
  have hc : c ∈ front ++ c :: rest := by simp
  have hin := hf.covers.within hc
  have hlimit : r.limit = r.base + r.size := rfl
  have hnull (htop : ¬c.addr + headerSize < 2 ^ 64) : (c.addr + headerSize) % 2 ^ 64 = 0 := by
    rw [show c.addr + headerSize = 2 ^ 64 by omega, mod_self]
  by_cases hmax : n ≤ 2 ^ 64 - 8
  · refine iff_of_true (fun h0 => ?_) (.inl hmax)
    have hq : (c.addr + headerSize) % 2 ^ 64 = c.addr + headerSize :=
      mod_eq_of_lt (not_not.mp fun htop => h0 (hnull htop))
    rw [hq]
    exact .of_block hin ((align8_le_max hmax).1.trans hlow) hhigh
  rw [or_iff_right hmax]
  by_cases htop : c.addr + headerSize < 2 ^ 64
  · refine iff_of_false (fun hgood => ?_) (not_not.mpr ⟨c, hc, hfree, htop⟩)
    have hq : (c.addr + headerSize) % 2 ^ 64 ≠ 0 := by
      rw [mod_eq_of_lt htop, headerSize]
      omega
    exact hmax (hgood hq).le
  -- the only free block ends with its header at the end of the address space
  refine iff_of_true (fun h0 => absurd (hnull htop) h0) ?_
  rintro ⟨b, hb, hbfree, hbtop⟩
  have hbc : b ≠ c := by
    rintro rfl
    exact htop hbtop
  rcases mem_append.mp hb with hb' | hb'
  · have := hfront b hb' hbfree
    rw [align8_wraps hmax hn] at this
    omega
  have htail : b ∈ rest := (mem_cons.mp hb').resolve_left hbc
  have horder := rel_of_pairwise_cons
    (pairwise_append.mp (Tiling.Tiles.pairwise hf.covers)).2.1 htail
  rw [Block.span] at horder
  omega

/-- `kmalloc` (as `krealloc` of NULL) and `krealloc` hand out enough just when the size does not
wrap or nothing is free. -/
theorem heap_adequate_iff (r : Region) (h h' : State) (l : List Block) (fuel ptr n q : Nat)
    (hl : Holds h.mem h.heapHead l) (hf : WellFormed r.base r.limit l) (hfuel : r.size < fuel)
    (hn : n < 2 ^ 64)
    (hptr : ptr = 0 ∨ ∃ c ∈ l, c.free = false ∧ ptr = c.addr + headerSize ∧ ptr < 2 ^ 64)
    (hret : krealloc fuel h ptr n = some (h', q)) :
    (q ≠ 0 → Adequate r h' q n) ↔ n ≤ 2 ^ 64 - 8 ∨ ¬HasFree l := by
  rcases hptr with rfl | ⟨c, hc, hbusy, rfl, hlt⟩
  · rw [krealloc] at hret
    exact kmalloc_adequate_iff hl hf hn hret
  have hin := hf.covers.within hc
  have hfits := r.fits
  have hlimit : r.limit = r.base + r.size := rfl
  have hcsize := hl.size hc
  have hinv : Inv r ⟨h, fun _ => none⟩ l := ⟨hl, hf, fun p n hp => by cases hp⟩
  by_cases hsmall : n ≤ c.size
  · rw [krealloc_fits hl hc hlt hsmall] at hret
    cases hret
    refine iff_of_true (fun _ => .of_block hin (hcsize ▸ hsmall) hcsize.le) (.inl ?_)
    rw [headerSize] at hin
    have := r.aligned
    omega
  by_cases hroom : n + 39 < 2 ^ 64
  · refine iff_of_true (fun h0 => ?_) (.inl (by omega))
    obtain hnull | ⟨m', l', d, hgot, hholds, hformed, ⟨hd, -, hsize, -⟩, -⟩ :=
      krealloc_moved hroom hfuel hinv hc hbusy hlt (not_le.mp hsmall)
    · rw [hnull] at hret
      cases hret
      exact absurd rfl h0
    · rw [hgot] at hret
      cases hret
      have hdsize := hholds.size hd
      exact .of_block (hformed.covers.within hd) (hdsize ▸ hsize) hdsize.le
  · simp only [krealloc, sub64_header hlt, hcsize, if_neg hsmall] at hret
    obtain ⟨⟨h1, q1⟩, hgot, hrest⟩ := bind_eq_some_iff.mp hret
    have hk := kmalloc_adequate_iff hl hf hn hgot
    by_cases hq1 : q1 = 0
    · simp only [hq1] at hrest
      cases hrest
      exact iff_of_true (fun h0 => absurd rfl h0) (hk.mp fun h0 => absurd hq1 h0)
    rw [if_neg hq1] at hrest
    obtain ⟨m2, -, hrest⟩ := bind_eq_some_iff.mp hrest
    obtain ⟨h3, -, heq⟩ := map_eq_some_iff.mp hrest
    cases heq
    by_cases hmax : n ≤ 2 ^ 64 - 8
    · -- beside the block of the pointer no block is that large
      obtain ⟨hle, hlt8⟩ := align8_le_max hmax
      obtain ⟨⟨m', q'⟩, hloop, heq⟩ := map_eq_some_iff.mp hgot
      obtain ⟨-, rfl⟩ := Prod.mk.inj heq
      obtain ⟨-, rfl, -⟩ | ⟨front, e, rest, rfl, -, hfree, hfit, -⟩ :=
        kmallocLoop_finds hlt8 hl hloop
      · exact absurd rfl hq1
      have he : e ∈ front ++ e :: rest := by simp
      have hec : e ≠ c := by
        rintro rfl
        rw [hfree] at hbusy
        cases hbusy
      have hapart := hf.covers.apart he hc hec
      have hein := hf.covers.within he
      have := r.mapped
      rw [headerSize] at hapart hein hin
      omega
    · refine iff_of_false (fun hgood => hmax (hgood hq1).le) fun hr => hmax (hk.mpr hr hq1).le

end

theorem small_size_adequate :
    ∃ h' q, krealloc 513 (heapInit (fun _ => 0) 4096 512) 0 16 = some (h', q) ∧ q ≠ 0 ∧
      Adequate smallRegion h' q 16 := by
  have hret : (krealloc 513 (heapInit (fun _ => 0) 4096 512) 0 16).map Prod.snd = some 4120 := by
    decide +kernel
  obtain ⟨⟨h', q⟩, hret, rfl⟩ := map_eq_some_iff.mp hret
  have hinv := inv_start (fun _ => 0) smallRegion
  exact ⟨h', 4120, hret, by decide, (heap_adequate_iff smallRegion _ h' _ 513 0 16 4120 hinv.holds
    hinv.formed (by decide) (by decide) (.inl rfl) hret).mpr (.inl (by decide)) (by decide)⟩

/-- The largest size is aligned to zero, and the block handed out has no byte. -/
theorem largest_size_underallocated :
    ∃ h' q, krealloc 513 (heapInit (fun _ => 0) 4096 512) 0 (2 ^ 64 - 1) = some (h', q) ∧ q ≠ 0 ∧
      ¬Adequate smallRegion h' q (2 ^ 64 - 1) := by
  have hret : (krealloc 513 (heapInit (fun _ => 0) 4096 512) 0 (2 ^ 64 - 1)).map Prod.snd =
      some 4120 := by
    decide +kernel
  obtain ⟨⟨h', q⟩, hret, rfl⟩ := map_eq_some_iff.mp hret
  exact ⟨h', 4120, hret, by decide, fun hq => absurd hq.le (by decide)⟩

end AegisOS.HeapMemory
