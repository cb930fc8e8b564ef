import AegisOS.Lib.ByteStore
import AegisOS.Lib.Scan
import AegisOS.Errno
import Mathlib.Data.Set.Card

/-! The packet buffer pool (`net/packet.c`). A buffer is named by its index in
`pkt_pool`; the pool records, beside the code's own state, every window
`[head, head + len)` a buffer was given and every range of its data array that was
stored to, so that bounds can be stated about what happened inside a call. -/
namespace AegisOS.Net
open ByteStore Function List Set

def pktMaxLen : Nat := 1514
def pktPoolSize : Nat := 64

/-- Conversion to the 16-bit fields `len` and `head`. -/
def u16 (n : Nat) : Nat := n % 65536

variable {n off : Nat}

theorem u16_of_le (h : n ≤ pktMaxLen) : u16 n = n := by
  have h' : n ≤ 1514 := h
  exact Nat.mod_eq_of_lt (by omega)

structure Pktbuf where
  len : Nat
  head : Nat
  data : Store

inductive Access
  | window (head len : Nat)
  | store (off n : Nat)
  deriving DecidableEq

def Access.Inside : Access → Prop
  | .window head len => head + len ≤ pktMaxLen
  | .store off n => off + n ≤ pktMaxLen

instance (a : Access) : Decidable a.Inside := by
  cases a <;> exact inferInstanceAs (Decidable (_ ≤ _))

structure Pool where
  bufs : Nat → Pktbuf
  freeList : List Nat
  initialized : Bool
  history : List Access

def Pool.start : Pool := ⟨fun _ => ⟨0, 0, fun _ => 0⟩, [], false, []⟩

def Pool.setWindow (p : Pool) (i head len : Nat) : Pool :=
  { p with
    bufs := update p.bufs i { p.bufs i with head := head, len := len }
    history := .window head len :: p.history }

/-- Store the first `n` bytes of `f` at offset `off` of buffer `i`. -/
def Pool.storeAt (p : Pool) (i off n : Nat) (f : Store) : Pool :=
  { p with
    bufs := update p.bufs i { p.bufs i with data := blit (p.bufs i).data off n f }
    history := .store off n :: p.history }

def Pool.storeList (p : Pool) (i off : Nat) (bs : List UInt8) : Pool :=
  p.storeAt i off bs.length (ofList bs)

/-- The bytes in the window of buffer `i`. -/
def Pool.frame (p : Pool) (i : Nat) : List UInt8 :=
  readBytes (p.bufs i).data (p.bufs i).head (p.bufs i).len

def pktbufPoolInit (p : Pool) : Pool :=
  { p with freeList := (range pktPoolSize).reverse, initialized := true }

def pktbufAlloc (p : Pool) : Pool × Option Nat :=
  let p := if p.initialized then p else pktbufPoolInit p
  match p.freeList with
  | [] => (p, none)
  | i :: rest => (({ p with freeList := rest }).setWindow i (pktMaxLen / 2) 0, some i)

def pktbufFree (p : Pool) (i : Nat) : Pool :=
  { p with
    bufs := update p.bufs i { p.bufs i with len := 0, head := 0 }
    freeList := i :: p.freeList }

/-- `none` is the null pointer the code returns. -/
def pktbufPush (p : Pool) (i bytes : Nat) : Option Pool :=
  if bytes > (p.bufs i).head then none
  else some (p.setWindow i (u16 ((p.bufs i).head - bytes)) (u16 ((p.bufs i).len + bytes)))

def pktbufPull (p : Pool) (i bytes : Nat) : Option Pool :=
  if bytes > (p.bufs i).len then none
  else some (p.setWindow i (u16 ((p.bufs i).head + bytes)) (u16 ((p.bufs i).len - bytes)))

section
variable {p q r : Pool} {i j : Nat}

@[simp] theorem setWindow_self (head len : Nat) :
    (p.setWindow i head len).bufs i = { p.bufs i with head := head, len := len } := by
  simp [Pool.setWindow]

@[simp] theorem storeAt_head (off n : Nat) (f : Store) :
    ((p.storeAt i off n f).bufs j).head = (p.bufs j).head := by
  by_cases h : j = i
  · subst h
    simp [Pool.storeAt]
  · simp [Pool.storeAt, h]

@[simp] theorem storeAt_len (off n : Nat) (f : Store) :
    ((p.storeAt i off n f).bufs j).len = (p.bufs j).len := by
  by_cases h : j = i
  · subst h
    simp [Pool.storeAt]
  · simp [Pool.storeAt, h]

@[simp] theorem storeList_head (off : Nat) (bs : List UInt8) :
    ((p.storeList i off bs).bufs j).head = (p.bufs j).head := storeAt_head _ _ _

@[simp] theorem storeList_len (off : Nat) (bs : List UInt8) :
    ((p.storeList i off bs).bufs j).len = (p.bufs j).len := storeAt_len _ _ _

/-- The free list names each buffer at most once, and every window and every store
so far lies inside the data array. -/
structure Pool.Good (p : Pool) : Prop where
  nodup : p.freeList.Nodup
  range : ∀ i ∈ p.freeList, i < pktPoolSize
  windows : ∀ i, (p.bufs i).head + (p.bufs i).len ≤ pktMaxLen
  inside : ∀ a ∈ p.history, a.Inside

/-- Buffer `i` is allocated. -/
structure Pool.Holds (p : Pool) (i : Nat) : Prop where
  initialized : p.initialized = true
  bound : i < pktPoolSize
  used : i ∉ p.freeList

theorem good_start : Pool.start.Good :=
  ⟨nodup_nil, by simp [Pool.start], by simp [Pool.start], by simp [Pool.start]⟩

/-- From `p` to `q` the pool stays good and no allocated buffer is given back. -/
def Pool.Safe (p q : Pool) : Prop := p.Good → q.Good ∧ ∀ j, p.Holds j → q.Holds j

/-- From `p` to `q` the pool stays good and only buffer `i`, held in `p`, is given back. -/
def Pool.Consumes (i : Nat) (p q : Pool) : Prop :=
  p.Good → p.Holds i → q.Good ∧ ∀ j, j ≠ i → p.Holds j → q.Holds j

theorem Pool.Safe.refl (p : Pool) : p.Safe p := fun h => ⟨h, fun _ hj => hj⟩

theorem Pool.Safe.trans (h1 : p.Safe q) (h2 : q.Safe r) : p.Safe r := by
  intro hp
  obtain ⟨hq, hold1⟩ := h1 hp
  obtain ⟨hr, hold2⟩ := h2 hq
  exact ⟨hr, fun j hj => hold2 j (hold1 j hj)⟩

theorem Pool.Safe.consumes (h1 : p.Safe q) (h2 : Pool.Consumes i q r) : Pool.Consumes i p r := by
  intro hp hi
  obtain ⟨hq, hold1⟩ := h1 hp
  obtain ⟨hr, hold2⟩ := h2 hq (hold1 i hi)
  exact ⟨hr, fun j hne hj => hold2 j hne (hold1 j hj)⟩

theorem safe_setWindow {head len : Nat} (h : head + len ≤ pktMaxLen) :
    p.Safe (p.setWindow i head len) := by
  intro hp
  refine ⟨⟨hp.nodup, hp.range, ?_, ?_⟩, fun j hj => ⟨hj.initialized, hj.bound, hj.used⟩⟩
  · intro k
    by_cases hk : k = i
    · subst hk
      simpa using h
    · simpa [Pool.setWindow, hk] using hp.windows k
  · intro a ha
    cases mem_cons.mp ha with
    | inl heq => exact heq ▸ h
    | inr hold => exact hp.inside a hold

theorem safe_storeAt {f : Store} (h : off + n ≤ pktMaxLen) : p.Safe (p.storeAt i off n f) := by
  intro hp
  refine ⟨⟨hp.nodup, hp.range, ?_, ?_⟩, fun j hj => ⟨hj.initialized, hj.bound, hj.used⟩⟩
  · intro k
    simpa using hp.windows k
  intro a ha
  cases mem_cons.mp ha with
  | inl heq => exact heq ▸ h
  | inr hold => exact hp.inside a hold

theorem safe_storeList {bs : List UInt8} (h : off + bs.length ≤ pktMaxLen) :
    p.Safe (p.storeList i off bs) := safe_storeAt h

theorem consumes_free : Pool.Consumes i p (pktbufFree p i) := by
  intro hp hi
  refine ⟨⟨nodup_cons.mpr ⟨hi.used, hp.nodup⟩, ?_, ?_, hp.inside⟩, ?_⟩
  · intro k hk
    cases mem_cons.mp hk with
    | inl heq => exact heq ▸ hi.bound
    | inr hold => exact hp.range k hold
  · intro k
    by_cases hk : k = i
    · subst hk
      simp [pktbufFree]
    · simpa [pktbufFree, hk] using hp.windows k
  · intro j hne hj
    refine ⟨hj.initialized, hj.bound, ?_⟩
    intro hmem
    cases mem_cons.mp hmem with
    | inl heq => exact hne heq
    | inr hold => exact hj.used hold

theorem safe_poolInit (h : p.initialized = false) : p.Safe (pktbufPoolInit p) := by
  intro hp
  have hnodup : (range pktPoolSize).reverse.Nodup := nodup_reverse.mpr nodup_range
  refine ⟨⟨hnodup, ?_, hp.windows, hp.inside⟩, ?_⟩
  · intro k hk
    exact mem_range.mp (mem_reverse.mp hk)
  · intro j hj
    have := hj.initialized
    simp [h] at this

/-- The pool `pktbuf_alloc` takes the buffer from. -/
theorem safe_ensureInit : p.Safe (if p.initialized then p else pktbufPoolInit p) := by
  split
  · exact .refl p
  next h => exact safe_poolInit (by simpa using h)

theorem alloc_none (h : pktbufAlloc p = (q, none)) : p.Safe q := by
  simp only [pktbufAlloc] at h
  split at h
  · cases h
    exact safe_ensureInit
  · simp at h

/-- A successful allocation: an empty window in the middle of a buffer nobody held. -/
structure Allocated (p q : Pool) (i : Nat) : Prop where
  safe : p.Safe q
  held : p.Good → q.Holds i
  fresh : p.Good → ¬p.Holds i
  head : (q.bufs i).head = pktMaxLen / 2
  len : (q.bufs i).len = 0

theorem alloc_some (h : pktbufAlloc p = (q, some i)) : Allocated p q i := by
  simp only [pktbufAlloc] at h
  split at h
  · simp at h
  rename_i k rest hlist
  obtain ⟨rfl, hk⟩ := Prod.mk.inj h
  obtain rfl := Option.some.inj hk
  have hinit : (if p.initialized = true then p else pktbufPoolInit p).initialized = true := by
    split
    · assumption
    · rfl
  have hpop : (if p.initialized = true then p else pktbufPoolInit p).Safe
      { (if p.initialized = true then p else pktbufPoolInit p) with freeList := rest } := by
    intro hp
    have hsub : ∀ j ∈ rest, j ∈ k :: rest := fun j hj => mem_cons_of_mem k hj
    have hnd : (k :: rest).Nodup := hlist ▸ hp.nodup
    refine ⟨⟨(nodup_cons.mp hnd).2, ?_, hp.windows, hp.inside⟩, ?_⟩
    · intro j hj
      exact hp.range j (hlist ▸ hsub j hj)
    · intro j hj
      exact ⟨hj.initialized, hj.bound, fun hmem => hj.used (hlist ▸ hsub j hmem)⟩
  refine ⟨(safe_ensureInit.trans hpop).trans (safe_setWindow (by decide)), ?_, ?_, ?_, ?_⟩
  · intro hp
    obtain ⟨hgood, -⟩ := safe_ensureInit hp
    have hnd : (k :: rest).Nodup := hlist ▸ hgood.nodup
    exact ⟨hinit, hgood.range k (hlist ▸ mem_cons_self), (nodup_cons.mp hnd).1⟩
  · intro hp hold
    have := (safe_ensureInit hp).2 k hold
    exact this.used (hlist ▸ mem_cons_self)
  · simp
  · simp

theorem Allocated.consumed (h : Allocated p q i) (hc : Pool.Consumes i q r) : p.Safe r := by
  intro hp
  obtain ⟨hq, hold⟩ := h.safe hp
  obtain ⟨hr, hkeep⟩ := hc hq (h.held hp)
  refine ⟨hr, fun j hj => hkeep j ?_ (hold j hj)⟩
  rintro rfl
  exact h.fresh hp hj

theorem setWindow_moved {head len : Nat} (h : head + len ≤ pktMaxLen) :
    p.Safe (p.setWindow i (u16 head) (u16 len)) ∧
      ((p.setWindow i (u16 head) (u16 len)).bufs i).head = head ∧
      ((p.setWindow i (u16 head) (u16 len)).bufs i).len = len := by
  rw [u16_of_le (by omega), u16_of_le (by omega)]
  exact ⟨safe_setWindow h, by simp, by simp⟩

theorem push_some (h : pktbufPush p i n = some q) (hp : p.Good) :
    p.Safe q ∧ (q.bufs i).head = (p.bufs i).head - n ∧ (q.bufs i).len = (p.bufs i).len + n := by
  have hw := hp.windows i
  simp only [pktbufPush] at h
  split at h <;> cases h
  exact setWindow_moved (by omega)

theorem pull_some (h : pktbufPull p i n = some q) (hp : p.Good) :
    p.Safe q ∧ (q.bufs i).head = (p.bufs i).head + n ∧ (q.bufs i).len = (p.bufs i).len - n := by
  have hw := hp.windows i
  simp only [pktbufPull] at h
  split at h <;> cases h
  exact setWindow_moved (by omega)

end

/-! The tables of the network stack that sit beside the packet path: the ARP cache
(`net/arp.c`), the routing table (`net/routing.c`), the packet filter with its
connection tracking (`net/firewall.c`) and the neighbour cache (`net/ipv6.c`).
Fields of packet headers are read as the little-endian CPU loads them. -/
open Scan

abbrev Mac := Bytes 6
abbrev Ip6 := Bytes 16

def loadBytes (d : Store) (off n : Nat) : Bytes n := ⟨readBytes d off n, by simp⟩

def loadU16 (d : Store) (off : Nat) : UInt16 := .ofNat (leNat (readBytes d off 2))

def loadU32 (d : Store) (off : Nat) : UInt32 := .ofNat (leNat (readBytes d off 4))

def bytes16 (v : UInt16) : List UInt8 := leBytes 2 v.toNat

def bytes32 (v : UInt32) : List UInt8 := leBytes 4 v.toNat

def bswap16 (v : UInt16) : UInt16 := (v >>> 8) ||| (v <<< 8)

def bswap32 (v : UInt32) : UInt32 := .ofNat (leNat (leBytes 4 v.toNat).reverse)

def be16 (v : UInt16) : List UInt8 := bytes16 (bswap16 v)

@[simp] theorem length_bytes16 (v : UInt16) : (bytes16 v).length = 2 := length_leBytes ..

@[simp] theorem length_bytes32 (v : UInt32) : (bytes32 v).length = 4 := length_leBytes ..

@[simp] theorem length_be16 (v : UInt16) : (be16 v).length = 2 := length_bytes16 _

/-- The header length, in bytes, that the IPv4 packet in the window states. -/
def Pktbuf.ihl (b : Pktbuf) : Nat := (b.data b.head &&& 0xF).toNat * 4

/-! The Internet checksum, shared by IPv4, ICMP, TCP and UDP. -/

def sumWords : List UInt8 → Nat
  | [] => 0
  | [b] => b.toNat
  | a :: b :: rest => a.toNat + 256 * b.toNat + sumWords rest

/-- The loop `while (sum >> 16) sum = (sum & 0xFFFF) + (sum >> 16)`. -/
def foldCarries : Nat → Nat → Nat
  | 0, sum => sum
  | n + 1, sum => if sum / 65536 = 0 then sum else foldCarries n (sum % 65536 + sum / 65536)

def inetChecksum (bs : List UInt8) : UInt16 :=
  ~~~ UInt16.ofNat (foldCarries 2 (sumWords bs % 2 ^ 32))

/-! ARP cache. -/

structure ArpEntry where
  ip : UInt32
  mac : Mac
  valid : Bool
  age : UInt32

structure ArpCache where
  entries : Fin 64 → ArpEntry
  ageCounter : UInt32

def arpOldest (c : ArpCache) : Fin 64 :=
  ((List.finRange 64).foldl (fun (best : UInt32 × Fin 64) i =>
    if (c.entries i).age < best.1 then ((c.entries i).age, i) else best) (0xFFFFFFFF, 0)).2

def arpCacheSet (c : ArpCache) (ip : UInt32) (mac : Mac) : ArpCache :=
  let age := c.ageCounter + 1
  match Fin.find? fun i => (c.entries i).valid && (c.entries i).ip == ip with
  | some i => ⟨update c.entries i { c.entries i with mac := mac, age := age }, age⟩
  | none =>
    match Fin.find? fun i => !(c.entries i).valid with
    | some i => ⟨update c.entries i ⟨ip, mac, true, age⟩, age⟩
    | none =>
      let i := arpOldest c
      ⟨update c.entries i { c.entries i with ip := ip, mac := mac, age := age }, age⟩

def arpCacheLookup (c : ArpCache) (ip : UInt32) : Option Mac :=
  (Fin.find? fun i => (c.entries i).valid && (c.entries i).ip == ip).map
    fun i => (c.entries i).mac

/-! Routing table, in the order of the linked list. -/

def routeMaxEntries : Nat := 128

structure Route where
  network : UInt32
  netmask : UInt32
  gateway : UInt32
  ifaceIp : UInt32
  metric : UInt32

structure RouteTable where
  routes : List Route
  routeCount : Nat

def routingLookup (t : RouteTable) (dstIp : UInt32) : Option Route :=
  (t.routes.foldl (fun (best : Option Route × UInt32 × UInt32) r =>
    if dstIp &&& r.netmask == r.network &&& r.netmask &&
        (best.2.1 < r.netmask || r.netmask == best.2.1 && r.metric < best.2.2) then
      (some r, r.netmask, r.metric)
    else best) (none, 0, 0xFFFFFFFF)).1

def routingAdd (t : RouteTable) (route : Route) : RouteTable × Int :=
  if routeMaxEntries ≤ t.routeCount then (t, -1)
  else
    match t.routes.findIdx? fun r =>
        r.network == route.network && r.netmask == route.netmask && r.gateway == route.gateway with
    | some k =>
      ({ t with routes := t.routes.modify k fun r => { r with metric := route.metric } }, 0)
    | none => (⟨route :: t.routes, t.routeCount + 1⟩, 0)

def routingDel (t : RouteTable) (network netmask : UInt32) : RouteTable × Int :=
  match t.routes.findIdx? fun r => r.network == network && r.netmask == netmask with
  | some k => ({ t with routes := t.routes.eraseIdx k }, 0)
  | none => (t, -1)

def routingSetDefault (t : RouteTable) (gateway ifaceIp : UInt32) : RouteTable × Int :=
  routingAdd t ⟨0, 0, gateway, ifaceIp, 100⟩

/-! Packet filter. -/

def fwMaxRules : Nat := 256

inductive FwAction
  | accept | drop | reject
  deriving DecidableEq

structure FwRule where
  srcIp : UInt32
  srcMask : UInt32
  dstIp : UInt32
  dstMask : UInt32
  srcPort : UInt16
  dstPort : UInt16
  protocol : UInt8
  action : FwAction

/-- The addresses, ports and protocol a packet is filtered by. -/
structure Flow where
  src : UInt32
  dst : UInt32
  sport : UInt16
  dport : UInt16
  proto : UInt8
  deriving DecidableEq

structure ConnTrack where
  flow : Flow
  state : UInt8
  lastSeen : UInt32
  active : Bool

/-- `rules` holds the linked list in its order, each rule with its index in
`rule_storage`. -/
structure Firewall where
  rules : List (Nat × FwRule)
  ruleCount : Nat
  connTable : Fin 4096 → ConnTrack
  defaultPolicy : FwAction
  enabled : Bool

def ipMatch (addr ruleIp ruleMask : UInt32) : Bool :=
  ruleIp == 0 && ruleMask == 0 || addr &&& ruleMask == ruleIp &&& ruleMask

def FwRule.matchesFlow (r : FwRule) (f : Flow) : Bool :=
  ipMatch f.src r.srcIp r.srcMask && ipMatch f.dst r.dstIp r.dstMask &&
    (r.protocol == 0 || r.protocol == f.proto) &&
    (r.srcPort == 0 || r.srcPort == f.sport) && (r.dstPort == 0 || r.dstPort == f.dport)

def Flow.reply (f : Flow) : Flow := ⟨f.dst, f.src, f.dport, f.sport, f.proto⟩

/-- The loop of `ct_lookup`. -/
def ctFind (conns : Fin 4096 → ConnTrack) (f : Flow) : Option (Fin 4096) :=
  scan fun i => (conns i).active &&
    (decide ((conns i).flow = f) || decide ((conns i).flow = f.reply))

/-- The loop of `ct_create`. -/
def ctFree (conns : Fin 4096 → ConnTrack) : Option (Fin 4096) := scan fun i => !(conns i).active

def ctLookup (fw : Firewall) (f : Flow) : Option (Fin 4096) := ctFind fw.connTable f

/-- `ct_create` followed by the caller's `ct->state = 1`; a full table is left alone. -/
def ctCreate (fw : Firewall) (f : Flow) : Firewall :=
  match ctFree fw.connTable with
  | some i =>
    let ct := fw.connTable i
    let ct := { ct with flow := f, state := 1, active := true }
    { fw with connTable := update fw.connTable i ct }
  | none => fw

/-- The flow of the IPv4 packet at offset `head`; ports are read only when the
packet is long enough for them. -/
def packetFlow (d : Store) (head len : Nat) : Flow :=
  let ihl := (d head &&& 0xF).toNat * 4
  let proto := d (head + 9)
  let ports := (proto == 6 || proto == 17) && ihl + 4 ≤ len
  let t := head + ihl
  { src := loadU32 d (head + 12)
    dst := loadU32 d (head + 16)
    sport := if ports then bswap16 (loadU16 d t) else 0
    dport := if ports then bswap16 (loadU16 d (t + 2)) else 0
    proto := proto }

/-- The loop over the rules, for a packet whose connection is tracked or not. -/
def evaluateRules (fw : Firewall) (f : Flow) (tracked : Bool) : Firewall × FwAction :=
  match fw.rules.find? fun r => r.2.matchesFlow f with
  | some r =>
    if r.2.action = .accept ∧ tracked = false then (ctCreate fw f, r.2.action)
    else (fw, r.2.action)
  | none => (fw, fw.defaultPolicy)

def firewallCheck (fw : Firewall) (b : Pktbuf) : Firewall × FwAction :=
  if !fw.enabled then (fw, .accept)
  else if b.len < 20 then (fw, fw.defaultPolicy)
  else
    let f := packetFlow b.data b.head b.len
    match ctLookup fw f with
    | some i =>
      if 1 ≤ (fw.connTable i).state then
        let ct := { fw.connTable i with lastSeen := 0 }
        ({ fw with connTable := update fw.connTable i ct }, .accept)
      else evaluateRules fw f true
    | none => evaluateRules fw f false

def firewallAddRule (fw : Firewall) (rule : FwRule) : Firewall × Int :=
  if fwMaxRules ≤ fw.ruleCount then (fw, -1)
  else
    ({ fw with rules := fw.rules ++ [(fw.ruleCount, rule)], ruleCount := fw.ruleCount + 1 }, 0)

def firewallDelRule (fw : Firewall) (ruleId : Nat) : Firewall × Int :=
  if fw.ruleCount ≤ ruleId then (fw, -1)
  else ({ fw with rules := fw.rules.filter fun r => r.1 != ruleId }, 0)

def firewallFlushRules (fw : Firewall) : Firewall := { fw with rules := [], ruleCount := 0 }

/-! Neighbour cache. -/

structure NdEntry where
  ip : Ip6
  mac : Mac
  state : UInt8
  valid : Bool

/-- Unlike the ARP cache, a full neighbour cache drops the new address. -/
def ndCacheSet (nd : Fin 64 → NdEntry) (ip : Ip6) (mac : Mac) : Fin 64 → NdEntry :=
  match Fin.find? fun i => (nd i).valid && decide ((nd i).ip = ip) with
  | some i => update nd i { nd i with mac := mac, state := 1 }
  | none =>
    match Fin.find? fun i => !(nd i).valid with
    | some i => update nd i ⟨ip, mac, 1, true⟩
    | none => nd

/-! The state of the network stack and its output path: the virtio driver's contract
(`hal/drivers/ethernet`), Ethernet, ARP, IPv4 output and ICMP (`net/*.c`). Every
function takes the whole stack and returns it with the code's result; a buffer is
passed by its pool index. -/

/-! State. -/

def frameMax : Nat := 1514
def tcpMss : Nat := 1460

/-- An element of the receive ring: descriptor, reported length and frame bytes. -/
structure RxElem where
  id : Nat
  total : Nat
  bytes : Store

/-- `rx` are the frames the device has posted and the driver has not consumed;
`tx` says of the next transmissions whether the device completes them in time. -/
structure Driver where
  ready : Bool
  queueSize : Nat
  rx : List RxElem
  tx : List Bool
  sent : List (List UInt8)

inductive TcpState
  | closed | listen | synSent | synReceived | established | finWait1 | finWait2
  | closeWait | closing | lastAck | timeWait
  deriving DecidableEq

/-- `rx` is the filled part of `rx_buf`. -/
structure TcpConn where
  localIp : UInt32
  localPort : UInt16
  remoteIp : UInt32
  remotePort : UInt16
  state : TcpState
  sndNxt : UInt32
  sndUna : UInt32
  rcvNxt : UInt32
  sndWnd : UInt16
  rcvWnd : UInt16
  rx : List UInt8
  active : Bool
  accepted : Bool

structure Tcp where
  conns : Fin 128 → TcpConn
  nextEphemeralPort : UInt16

structure UdpSocket where
  localPort : UInt16
  bound : Bool
  rx : List UInt8
  rxSrcIp : UInt32
  rxSrcPort : UInt16
  rxReady : Bool

inductive SockType
  | stream | dgram
  deriving DecidableEq

structure Socket where
  used : Bool
  ownerPid : Nat
  type : SockType
  localPort : UInt16
  remotePort : UInt16
  remoteIp : UInt32
  transportId : Int
  listening : Bool
  connected : Bool

structure Stack where
  pool : Pool
  driver : Driver
  localMac : Mac
  arp : ArpCache
  localIp : UInt32
  localNetmask : UInt32
  localGateway : UInt32
  ipIdCounter : UInt16
  routes : RouteTable
  firewall : Firewall
  nd : Fin 64 → NdEntry
  localIpv6 : Ip6
  linkLocalIpv6 : Ip6
  tcp : Tcp
  udp : Fin 64 → UdpSocket
  sockets : Fin 64 → Socket
  listeningCount : Nat
  connectedCount : Nat

def Stack.free (s : Stack) (i : Nat) : Stack := { s with pool := pktbufFree s.pool i }

def Stack.buf (s : Stack) (i : Nat) : Pktbuf := s.pool.bufs i

/-! Driver. -/

def ethernetSend (dr : Driver) (frame : List UInt8) : Driver × Int :=
  if !dr.ready || frame.length == 0 || frameMax < frame.length then (dr, aegisEinval)
  else
    let dr := { dr with sent := frame :: dr.sent }
    match dr.tx with
    | [] => (dr, aegisOk)
    | done :: rest => ({ dr with tx := rest }, if done then aegisOk else aegisEtimedout)

/-- The bytes and the length of the next frame, or the code's error. -/
def ethernetRecv (dr : Driver) : Driver × Except Int (Store × Nat) :=
  if !dr.ready then (dr, .error aegisEinval)
  else
    match dr.rx with
    | [] => (dr, .error aegisEagain)
    | e :: rest =>
      let dr := { dr with rx := rest }
      if dr.queueSize ≤ e.id ∨ e.total < 12 then (dr, .error aegisEio)
      else (dr, .ok (e.bytes, min (e.total - 12) frameMax))

/-! Ethernet and ARP. -/

def ethTypeIpv4 : UInt16 := 0x0800
def ethTypeArp : UInt16 := 0x0806
def ethTypeIpv6 : UInt16 := 0x86DD

def broadcastMac : Mac := ⟨List.replicate 6 0xFF, rfl⟩

def ethernetTx (s : Stack) (dstMac : Mac) (ethertype : UInt16) (i : Nat) : Stack × Int :=
  match pktbufPush s.pool i 14 with
  | none => (s.free i, -1)
  | some pool =>
    let hdr := dstMac.val ++ s.localMac.val ++ be16 ethertype
    let pool := pool.storeList i (pool.bufs i).head hdr
    let sent := ethernetSend s.driver (pool.frame i)
    ({ s with pool := pktbufFree pool i, driver := sent.1 }, sent.2)

def arpPacket (op : UInt16) (senderMac : Mac) (senderIp : UInt32) (targetMac : Mac)
    (targetIp : UInt32) : List UInt8 :=
  be16 1 ++ be16 0x0800 ++ [6, 4] ++ be16 op ++ senderMac.val ++ bytes32 senderIp ++
    targetMac.val ++ bytes32 targetIp

/-- The common body of the two ARP senders: `targetMac` goes into the packet and is
the frame's destination. -/
def arpSend (s : Stack) (op : UInt16) (targetIp : UInt32) (targetMac : Mac) : Stack × Int :=
  match pktbufAlloc s.pool with
  | (pool, none) => ({ s with pool := pool }, -1)
  | (pool, some i) =>
    let head := (pool.bufs i).head
    let pool := pool.setWindow i head 28
    let pool := pool.storeList i head (arpPacket op s.localMac s.localIp targetMac targetIp)
    ethernetTx { s with pool := pool } targetMac ethTypeArp i

def arpSendReply (s : Stack) (targetIp : UInt32) (targetMac : Mac) : Stack :=
  (arpSend s 2 targetIp targetMac).1

def arpSendRequest (s : Stack) (targetIp : UInt32) : Stack × Int :=
  arpSend s 1 targetIp broadcastMac

def arpRx (s : Stack) (i : Nat) : Stack :=
  let b := s.buf i
  if b.len < 28 then s.free i
  else
    let op := bswap16 (loadU16 b.data (b.head + 6))
    let senderMac := loadBytes b.data (b.head + 8) 6
    let senderIp := loadU32 b.data (b.head + 14)
    let targetIp := loadU32 b.data (b.head + 24)
    let s := { s with arp := arpCacheSet s.arp senderIp senderMac }
    let s := if op == 1 && targetIp == s.localIp then arpSendReply s senderIp senderMac else s
    s.free i

/-! IPv4 output. -/

def ipv4Header (id : UInt16) (totalLen : Nat) (proto : UInt8) (src dst : UInt32)
    (checksum : UInt16) : List UInt8 :=
  [0x45, 0] ++ be16 (.ofNat totalLen) ++ be16 id ++ [0x40, 0] ++ [64, proto] ++
    bytes16 checksum ++ bytes32 src ++ bytes32 dst

def nextHop (s : Stack) (dst : UInt32) : UInt32 :=
  if dst &&& s.localNetmask == s.localIp &&& s.localNetmask then dst
  else
    match routingLookup s.routes dst with
    | some r => if r.gateway != 0 then r.gateway else s.localGateway
    | none => s.localGateway

/-- Route the finished packet in buffer `i`: broadcast, or resolve the next hop. -/
def ipv4Output (s : Stack) (dst : UInt32) (i : Nat) : Stack × Int :=
  if dst == 0xFFFFFFFF then ethernetTx s broadcastMac ethTypeIpv4 i
  else if nextHop s dst == 0 then (s.free i, -1)
  else
    match arpCacheLookup s.arp (nextHop s dst) with
    | none => ((arpSendRequest s (nextHop s dst)).1.free i, -1)
    | some mac => ethernetTx s mac ethTypeIpv4 i

def ipv4Send (s : Stack) (dst : UInt32) (proto : UInt8) (payload : List UInt8) : Stack × Int :=
  if payload.length = 0 then (s, -1)
  else
    match pktbufAlloc s.pool with
    | (pool, none) => ({ s with pool := pool }, -1)
    | (pool, some i) =>
      let totalLen := u16 (20 + payload.length)
      let head := (pool.bufs i).head
      let sum := inetChecksum (ipv4Header s.ipIdCounter totalLen proto s.localIp dst 0)
      let pool := pool.storeList i head (ipv4Header s.ipIdCounter totalLen proto s.localIp dst sum)
      let pool := pool.storeList i (head + 20) payload
      let pool := pool.setWindow i head totalLen
      ipv4Output { s with pool := pool, ipIdCounter := s.ipIdCounter + 1 } dst i

/-! ICMP. -/

def icmpMessage (type code : UInt8) (rest : List UInt8) : List UInt8 :=
  [type, code] ++ bytes16 (inetChecksum ([type, code, 0, 0] ++ rest)) ++ rest

/-- The checksum is verified in place: zeroed, computed and put back. -/
def icmpRx (s : Stack) (i : Nat) (srcIp : UInt32) : Stack :=
  let b := s.buf i
  if b.len < 8 then s.free i
  else
    let saved := loadU16 b.data (b.head + 2)
    let zeroed := s.pool.storeList i (b.head + 2) [0, 0]
    let computed := inetChecksum (zeroed.frame i)
    let s := { s with pool := zeroed.storeList i (b.head + 2) (bytes16 saved) }
    if computed != saved then s.free i
    else if (s.buf i).data b.head == 8 then
      let replyLen := min b.len 1500
      let body := readBytes (s.buf i).data (b.head + 4) (replyLen - 4)
      (ipv4Send s srcIp 1 (icmpMessage 0 0 body)).1.free i
    else s.free i

def icmpSendEchoRequest (s : Stack) (dstIp : UInt32) (id seq : UInt16) : Stack × Int :=
  let rest := bytes32 ((id.toUInt32 <<< 16) ||| seq.toUInt32)
  let fill := (List.range 56).map fun k => UInt8.ofNat (8 + k)
  ipv4Send s dstIp 1 (icmpMessage 8 0 (rest ++ fill))

def icmpSendDestUnreachable (s : Stack) (dstIp : UInt32) (code : UInt8) (orig : List UInt8) :
    Stack × Int :=
  ipv4Send s dstIp 1 (icmpMessage 3 code ([0, 0, 0, 0] ++ orig.take 28))

/-! The ARP cache as a memory of the addresses set last. Times are counted in calls of
`arp_cache_set`, as the ages of the entries are. -/
open List Nat

def arpInit (c : ArpCache) : ArpCache :=
  { c with entries := fun i => { c.entries i with valid := false } }

/-- The cache after boot, `arp_init` and the calls, which are listed from the last one back. -/
def arpAfter : List (UInt32 × Mac) → ArpCache
  | [] => arpInit ⟨fun _ => ⟨0, .zero 6, false, 0⟩, 0⟩
  | (ip, mac) :: earlier => arpCacheSet (arpAfter earlier) ip mac

/-- The time of the last call for an address, with what it set. -/
def lastSet : List (UInt32 × Mac) → UInt32 → Option (Nat × Mac)
  | [], _ => none
  | (a, mac) :: earlier, ip => if a = ip then some (earlier.length + 1, mac) else lastSet earlier ip

def setSince (calls : List (UInt32 × Mac)) (ip : UInt32) : Set UInt32 :=
  {a | ∃ s m t n, lastSet calls ip = some (s, m) ∧ lastSet calls a = some (t, n) ∧ s < t}

/-- The address is one of the 64 distinct ones set most recently. -/
def AmongRecent (calls : List (UInt32 × Mac)) (ip : UInt32) : Prop :=
  (lastSet calls ip).isSome ∧ (setSince calls ip).ncard < 64

variable {c : ArpCache} {calls : List (UInt32 × Mac)} {ip a b : UInt32} {mac m n : Mac} {s : Nat}
  {i j : Fin 64}

theorem lastSet_spec (h : lastSet calls a = some (s, m)) : calls.reverse[s - 1]? = some (a, m) := by
  induction calls with
  | nil => cases h
  | cons call calls ih =>
    rw [lastSet] at h
    rw [List.reverse_cons]
    split at h
    next hcall =>
      cases h
      simp [← hcall]
    · rw [List.getElem?_append_left (List.getElem?_eq_some_iff.mp (ih h)).1]
      exact ih h

theorem lastSet_le (h : lastSet calls a = some (s, m)) : s ≤ calls.length := by
  have hlt := (List.getElem?_eq_some_iff.mp (lastSet_spec h)).1
  rw [List.length_reverse] at hlt
  omega

theorem lastSet_inj (ha : lastSet calls a = some (s, m)) (hb : lastSet calls b = some (s, n)) :
    a = b :=
  congrArg Prod.fst (Option.some.inj ((lastSet_spec ha).symm.trans (lastSet_spec hb)))

/-! One call. -/

theorem foldl_oldest (entries : Fin 64 → ArpEntry) (l : List (Fin 64)) (best : UInt32 × Fin 64)
    (hbest : (entries best.2).age ≤ best.1) :
    ∀ r, r = l.foldl (fun (best : UInt32 × Fin 64) i =>
      if (entries i).age < best.1 then ((entries i).age, i) else best) best →
    (entries r.2).age ≤ r.1 ∧ r.1 ≤ best.1 ∧ ∀ j ∈ l, r.1 ≤ (entries j).age := by
  induction l generalizing best with
  | nil =>
    rintro r rfl
    exact ⟨hbest, UInt32.le_refl _, nofun⟩
  | cons i l ih =>
    intro r hr
    rw [foldl_cons] at hr
    split at hr
    next hlt =>
      obtain ⟨hage, hle, hall⟩ := ih _ (UInt32.le_refl _) r hr
      exact ⟨hage, UInt32.le_trans hle (UInt32.le_of_lt hlt), forall_mem_cons.mpr ⟨hle, hall⟩⟩
    next hge =>
      obtain ⟨hage, hle, hall⟩ := ih _ hbest r hr
      exact ⟨hage, hle, forall_mem_cons.mpr ⟨UInt32.le_trans hle (UInt32.not_lt.mp hge), hall⟩⟩

theorem arpOldest_le (c : ArpCache) (j : Fin 64) :
    (c.entries (arpOldest c)).age ≤ (c.entries j).age := by
  have hmax : (c.entries 0).age ≤ 0xFFFFFFFF :=
    UInt32.le_iff_toNat_le.mpr (le_of_lt_succ (c.entries 0).age.toNat_lt)
  obtain ⟨hage, -, hall⟩ := foldl_oldest c.entries (finRange 64) (_, 0) hmax _ rfl
  exact UInt32.le_trans hage (hall j (mem_finRange j))

/-- The entry is valid and for the address. -/
def ArpCache.Has (c : ArpCache) (i : Fin 64) (ip : UInt32) : Prop :=
  (c.entries i).valid = true ∧ (c.entries i).ip = ip

theorem has_iff : ((c.entries i).valid && (c.entries i).ip == ip) = true ↔ c.Has i ip := by
  rw [Bool.and_eq_true, beq_iff_eq, ArpCache.Has]

theorem not_has (h : (Fin.find? fun i => (c.entries i).valid && (c.entries i).ip == ip) = none)
    (j : Fin 64) : ¬c.Has j ip := by
  rw [← has_iff, Fin.find?_eq_none_iff.mp h j]
  decide

/-- The entry that a call for the address writes. -/
def Written (c : ArpCache) (ip : UInt32) (i : Fin 64) : Prop :=
  c.Has i ip ∨ (∀ j, ¬c.Has j ip) ∧ ((c.entries i).valid = false ∨
    ∀ j, (c.entries j).valid = true ∧ (c.entries i).age ≤ (c.entries j).age)

theorem arpCacheSet_written (c : ArpCache) (ip : UInt32) (mac : Mac) :
    ∃ i, Written c ip i ∧ arpCacheSet c ip mac =
      ⟨update c.entries i ⟨ip, mac, true, c.ageCounter + 1⟩, c.ageCounter + 1⟩ := by
  unfold arpCacheSet
  cases hfind : Fin.find? fun i => (c.entries i).valid && (c.entries i).ip == ip with
  | some i =>
    have hi := has_iff.mp (Fin.find?_eq_some_iff.mp hfind).1
    refine ⟨i, .inl hi, ?_⟩
    rw [← hi.2, ← hi.1]
  | none =>
    cases hfree : Fin.find? fun i => !(c.entries i).valid with
    | some i =>
      have hi := (Fin.find?_eq_some_iff.mp hfree).1
      exact ⟨i, .inr ⟨not_has hfind, .inl (by simpa using hi)⟩, rfl⟩
    | none =>
      have hfull : ∀ j, (c.entries j).valid = true := by simpa using Fin.find?_eq_none_iff.mp hfree
      refine ⟨arpOldest c, .inr ⟨not_has hfind, .inr fun j => ⟨hfull j, arpOldest_le c j⟩⟩, ?_⟩
      rw [← hfull (arpOldest c)]

/-! All calls. -/

/-- The valid entries are the last calls for their addresses, and an address is lost only
while every entry is younger than its last call. -/
structure Remembers (c : ArpCache) (calls : List (UInt32 × Mac)) : Prop where
  counter : c.ageCounter.toNat = calls.length
  last : ∀ i ip, c.Has i ip → lastSet calls ip = some ((c.entries i).age.toNat, (c.entries i).mac)
  single : ∀ i j ip, c.Has i ip → c.Has j ip → i = j
  lost : ∀ ip s m, lastSet calls ip = some (s, m) →
    (∃ i, c.Has i ip) ∨ ∀ j, (c.entries j).valid = true ∧ s < (c.entries j).age.toNat

theorem has_written {age : UInt32} :
    ArpCache.Has ⟨update c.entries i ⟨ip, mac, true, age⟩, age⟩ j a ↔
      if j = i then ip = a else c.Has j a := by
  unfold ArpCache.Has
  dsimp only
  split
  next hji => rw [hji, update_self, eq_self, true_and]
  next hji => rw [update_of_ne hji]

theorem Remembers.set (h : Remembers c calls) (hroom : calls.length + 1 < 2 ^ 32) (ip : UInt32)
    (mac : Mac) : Remembers (arpCacheSet c ip mac) ((ip, mac) :: calls) := by
  obtain ⟨i, hi, heq⟩ := arpCacheSet_written c ip mac
  have hage : (c.ageCounter + 1).toNat = calls.length + 1 := by
    rw [UInt32.toNat_add, h.counter]
    exact mod_eq_of_lt hroom
  have hother : ∀ j, j ≠ i → ¬c.Has j ip := by
    intro j hji hj
    rcases hi with hi | ⟨hnone, -⟩
    · exact hji (h.single j i ip hj hi)
    · exact hnone j hj
  rw [heq]
  refine ⟨hage, fun j a hj => ?_, fun j k a hj hk => ?_, fun a s m ha => ?_⟩
  · rw [has_written] at hj
    dsimp only
    split at hj
    next hji => rw [hji, update_self, lastSet, if_pos hj, hage]
    next hji =>
      rw [update_of_ne hji, lastSet, if_neg fun hip : ip = a => hother j hji (hip ▸ hj)]
      exact h.last j a hj
  · rw [has_written] at hj hk
    split at hj <;> split at hk <;> rename_i hji hki
    · exact hji.trans hki.symm
    · exact absurd (hj ▸ hk) (hother k hki)
    · exact absurd (hk ▸ hj) (hother j hji)
    · exact h.single j k a hj hk
  · by_cases hip : ip = a
    · exact .inl ⟨i, has_written.mpr (by rwa [if_pos rfl])⟩
    rw [lastSet, if_neg hip] at ha
    have hyounger : (∀ j, j ≠ i → (c.entries j).valid = true ∧ s < (c.entries j).age.toNat) →
        ∀ j, (update c.entries i ⟨ip, mac, true, c.ageCounter + 1⟩ j).valid = true ∧
          s < (update c.entries i ⟨ip, mac, true, c.ageCounter + 1⟩ j).age.toNat := by
      intro hall j
      by_cases hji : j = i
      · rw [hji, update_self]
        exact ⟨rfl, hage ▸ lt_succ_of_le (lastSet_le ha)⟩
      · rw [update_of_ne hji]
        exact hall j hji
    rcases h.lost a s m ha with ⟨j, hj⟩ | hall
    · by_cases hji : j = i
      · subst hji
        rcases hi with hi | ⟨-, hfree | hmin⟩
        · exact absurd (hi.2.symm.trans hj.2) hip
        · rw [hj.1] at hfree
          cases hfree
        · refine .inr (hyounger fun k hkj => ⟨(hmin k).1, ?_⟩)
          cases (h.last j a hj).symm.trans ha
          refine lt_of_le_of_ne (UInt32.le_iff_toNat_le.mp (hmin k).2) fun hsame => hkj ?_
          have hk := h.last k _ ⟨(hmin k).1, rfl⟩
          rw [← hsame] at hk
          exact h.single k j a ⟨(hmin k).1, lastSet_inj hk ha⟩ hj
      · exact .inl ⟨j, has_written.mpr (by rwa [if_neg hji])⟩
    · exact .inr (hyounger fun k _ => hall k)

theorem remembers_arpAfter (hlen : calls.length < 2 ^ 32) : Remembers (arpAfter calls) calls := by
  induction calls with
  | nil => exact ⟨rfl, fun _ _ h => (by cases h.1), fun _ _ _ h => (by cases h.1), nofun⟩
  | cons call calls ih => exact (ih (lt_of_succ_lt hlen)).set hlen call.1 call.2

theorem Remembers.recent (h : Remembers c calls) (hi : c.Has i ip) : AmongRecent calls ip := by
  have hlast := h.last i ip hi
  refine ⟨by rw [hlast]; rfl, ?_⟩
  have hsub : setSince calls ip ⊆ (fun j => (c.entries j).ip) '' {i}ᶜ := by
    rintro a ⟨s, m, t, n, hs, ht, hlt⟩
    cases hlast.symm.trans hs
    rcases h.lost a t n ht with ⟨j, hj⟩ | hall
    · refine ⟨j, ?_, hj.2⟩
      rintro rfl
      cases (h.last j a hj).symm.trans ht
      exact lt_irrefl _ hlt
    · exact absurd (hall i).2 hlt.asymm
  calc (setSince calls ip).ncard
      ≤ ((fun j => (c.entries j).ip) '' {i}ᶜ).ncard := ncard_le_ncard hsub
    _ ≤ ({i}ᶜ : Set (Fin 64)).ncard := ncard_image_le
    _ < 64 := by
      have hcard := ncard_add_ncard_compl ({i} : Set (Fin 64))
      rw [ncard_singleton, card_fin] at hcard
      omega

theorem not_amongRecent {f : Fin 64 → UInt32} (hf : Injective f)
    (hsub : Set.range f ⊆ setSince calls ip) : ¬AmongRecent calls ip := by
  rintro ⟨-, hfew⟩
  have : Finite UInt32 := .of_injective UInt32.toFin fun _ _ => UInt32.toFin_inj.mp
  have hcard := ncard_le_ncard hsub
  rw [← image_univ, ncard_image_of_injective _ hf, ncard_univ, card_fin] at hcard
  exact not_lt.mpr hcard hfew

theorem Remembers.forgotten (h : Remembers c calls) (hnone : ∀ i, ¬c.Has i ip) :
    ¬AmongRecent calls ip := by
  intro hrecent
  obtain ⟨⟨s, m⟩, hs⟩ := Option.isSome_iff_exists.mp hrecent.1
  have hall := (h.lost ip s m hs).resolve_left fun ⟨i, hi⟩ => hnone i hi
  refine not_amongRecent (f := fun j => (c.entries j).ip) (fun i j heq => ?_) ?_ hrecent
  · exact h.single i j _ ⟨(hall i).1, heq⟩ ⟨(hall j).1, rfl⟩
  · rintro _ ⟨j, rfl⟩
    exact ⟨s, m, _, _, hs, h.last j _ ⟨(hall j).1, rfl⟩, (hall j).2⟩

open Classical in
theorem arp_keeps_recent (calls : List (UInt32 × Mac)) (hlen : calls.length < 2 ^ 32) :
    (∀ i j, ((arpAfter calls).entries i).valid = true → ((arpAfter calls).entries j).valid = true →
        ((arpAfter calls).entries i).ip = ((arpAfter calls).entries j).ip → i = j) ∧
      ∀ ip, arpCacheLookup (arpAfter calls) ip =
        if AmongRecent calls ip then (lastSet calls ip).map Prod.snd else none := by
  have h := remembers_arpAfter hlen
  refine ⟨fun i j hi hj heq => h.single i j _ ⟨hi, heq⟩ ⟨hj, rfl⟩, fun ip => ?_⟩
  unfold arpCacheLookup
  cases hfind : Fin.find? fun i =>
      ((arpAfter calls).entries i).valid && ((arpAfter calls).entries i).ip == ip with
  | some i =>
    have hi := has_iff.mp (Fin.find?_eq_some_iff.mp hfind).1
    rw [if_pos (h.recent hi), h.last i ip hi]
    rfl
  | none =>
    rw [if_neg (h.forgotten (not_has hfind))]
    rfl

/-- One call for each of the addresses 1 to 65, listed from the last one back, with a hardware
address of its own. -/
def sixtyFiveCalls : List (UInt32 × Mac) :=
  ((range 65).map fun n => (UInt32.ofNat (n + 1), ⟨[2, 0, 0, 0, 0, .ofNat n], rfl⟩)).reverse

theorem lastSet_sixtyFiveCalls : ∀ k : Fin 65, lastSet sixtyFiveCalls (.ofNat (k.val + 1)) =
    some (k.val + 1, ⟨[2, 0, 0, 0, 0, .ofNat k], rfl⟩) := by
  decide +kernel

/-- The 65th address takes the place of the first. -/
theorem oldest_address_evicted : arpCacheLookup (arpAfter sixtyFiveCalls) 1 = none ∧
    arpCacheLookup (arpAfter sixtyFiveCalls) 65 = some ⟨[2, 0, 0, 0, 0, 64], rfl⟩ := by
  have hfirst : ¬AmongRecent sixtyFiveCalls 1 := by
    refine not_amongRecent (f := fun k => .ofNat (k.val + 2)) (by decide +kernel) ?_
    rintro _ ⟨k, rfl⟩
    exact ⟨_, _, _, _, lastSet_sixtyFiveCalls 0, lastSet_sixtyFiveCalls k.succ, by simp⟩
  have hlast : AmongRecent sixtyFiveCalls 65 := by
    have hnone : setSince sixtyFiveCalls 65 = ∅ := by
      refine eq_empty_of_forall_notMem ?_
      rintro a ⟨s, m, t, n, hs, ht, hlt⟩
      cases (lastSet_sixtyFiveCalls 64).symm.trans hs
      exact absurd (lastSet_le ht) (not_le.mpr hlt)
    refine ⟨Option.isSome_of_eq_some (lastSet_sixtyFiveCalls 64), ?_⟩
    rw [hnone, ncard_empty]
    decide
  have hlookup := (arp_keeps_recent sixtyFiveCalls (by decide)).2
  rw [hlookup, hlookup, if_neg hfirst, if_pos hlast]
  exact ⟨rfl, congrArg (Option.map Prod.snd) (lastSet_sixtyFiveCalls 64)⟩

end AegisOS.Net
