import AegisOS.NetTransport
import Mathlib.Data.Nat.Bitwise

/-! Which packets reach the transports past the packet filter. The input path is run with a
record of what happens to the packet; without the record it is the input path. -/
namespace AegisOS.Net
open ByteStore AegisOS.Scan List

inductive Transport
  | icmp | tcp | udp

/-- What happens to a packet of the network layer on its way in. -/
inductive Sight
  | checked (b : Pktbuf) (verdict : FwAction)
  | processed (t : Transport) (b : Pktbuf)

/-- Whatever a transport processes was checked before and accepted. -/
def Guarded (seen : List Sight) : Prop :=
  ∀ before t b after, seen = before ++ .processed t b :: after → .checked b .accept ∈ before

/-! The input path with its record. -/

def ipv4DispatchSeen (b : Pktbuf) (s : Stack) (i : Nat) (proto : UInt8) (srcIp : UInt32) :
    Stack × List Sight :=
  if proto == 1 then (icmpRx s i srcIp, [.processed .icmp b])
  else if proto == 6 then (tcpRx s i srcIp, [.processed .tcp b])
  else if proto == 17 then (udpRx s i srcIp, [.processed .udp b])
  else (s.free i, [])

def ipv4AcceptSeen (s : Stack) (i ihl : Nat) : Stack × List Sight :=
  let b := s.buf i
  let saved := loadU16 b.data (b.head + 10)
  let zeroed := s.pool.storeList i (b.head + 10) [0, 0]
  let computed := inetChecksum (readBytes (zeroed.bufs i).data b.head ihl)
  let s := { s with pool := zeroed.storeList i (b.head + 10) (bytes16 saved) }
  let b := s.buf i
  if computed != saved then (s.free i, [])
  else if !ipv4ForUs s (loadU32 b.data (b.head + 16)) then (s.free i, [])
  else
    let checked := firewallCheck s.firewall b
    let s := { s with firewall := checked.1 }
    if checked.2 = .drop then (s.free i, [.checked b checked.2])
    else
      let window := s.pool.setWindow i (u16 (b.head + ihl)) (u16 (b.len - ihl))
      let rest := ipv4DispatchSeen b { s with pool := window } i (b.data (b.head + 9))
        (loadU32 b.data (b.head + 12))
      (rest.1, .checked b checked.2 :: rest.2)

def ipv4RxSeen (s : Stack) (i : Nat) : Stack × List Sight :=
  let b := s.buf i
  if b.len < 20 then (s.free i, [])
  else if b.data b.head >>> 4 != 4 then (s.free i, [])
  else
    let ihl := (b.data b.head &&& 0xF).toNat * 4
    if ihl < 20 ∨ b.len < ihl then (s.free i, []) else ipv4AcceptSeen s i ihl

def ipv6RxSeen (s : Stack) (i : Nat) : Stack × List Sight :=
  let b := s.buf i
  if b.len < 40 then (s.free i, [])
  else if ¬ipv6Accepts s b.data b.head then (s.free i, [])
  else
    let next := b.data (b.head + 6)
    let srcAddr := loadBytes b.data (b.head + 8) 16
    let s := { s with
      pool := s.pool.setWindow i (u16 (b.head + 40)) (ipv6PayloadLen b.data b.head) }
    if next == 6 then (tcpRx s i 0, [.processed .tcp b])
    else if next == 17 then (udpRx s i 0, [.processed .udp b])
    else if next == 58 then (icmpv6Handle s i srcAddr, [])
    else (s.free i, [])

def ethernetRxSeen (s : Stack) (i : Nat) : Stack × List Sight :=
  let b := s.buf i
  match pktbufPull s.pool i 14 with
  | none => (s.free i, [])
  | some pool =>
    let et := bswap16 (loadU16 b.data (b.head + 12))
    let s := { s with pool := pool }
    if et == ethTypeIpv4 then ipv4RxSeen s i
    else if et == ethTypeArp then (arpRx s i, [])
    else if et == ethTypeIpv6 then ipv6RxSeen s i
    else (s.free i, [])

section
variable (b : Pktbuf) (s : Stack) (i : Nat)

theorem ipv4DispatchSeen_fst (proto : UInt8) (srcIp : UInt32) :
    (ipv4DispatchSeen b s i proto srcIp).1 = ipv4Dispatch s i proto srcIp := by
  simp only [ipv4DispatchSeen, ipv4Dispatch, apply_ite Prod.fst]

theorem ipv4AcceptSeen_fst (ihl : Nat) : (ipv4AcceptSeen s i ihl).1 = ipv4Accept s i ihl := by
  simp only [ipv4AcceptSeen, ipv4Accept, apply_ite Prod.fst, ipv4DispatchSeen_fst]

theorem ipv4RxSeen_fst : (ipv4RxSeen s i).1 = ipv4Rx s i := by
  simp only [ipv4RxSeen, ipv4Rx, apply_ite Prod.fst, ipv4AcceptSeen_fst]

theorem ipv6RxSeen_fst : (ipv6RxSeen s i).1 = ipv6Rx s i := by
  simp only [ipv6RxSeen, ipv6Rx, apply_ite Prod.fst]

theorem ethernetRxSeen_fst : (ethernetRxSeen s i).1 = ethernetRx s i := by
  unfold ethernetRxSeen ethernetRx
  cases pktbufPull s.pool i 14 with
  | none => rfl
  | some pool => simp only [apply_ite Prod.fst, ipv4RxSeen_fst, ipv6RxSeen_fst]

end

/-! The verdict of the filter. -/

def Firewall.Established (fw : Firewall) (f : Flow) : Prop :=
  (ctLookup fw f).any (fun i => 1 ≤ (fw.connTable i).state) = true
  deriving Decidable

def Firewall.ruling (fw : Firewall) (f : Flow) : FwAction :=
  ((fw.rules.find? fun r => r.2.matchesFlow f).map fun r => r.2.action).getD fw.defaultPolicy

theorem evaluateRules_verdict (fw : Firewall) (f : Flow) (tracked : Bool) :
    (evaluateRules fw f tracked).2 = fw.ruling f := by
  rw [evaluateRules, Firewall.ruling]
  cases fw.rules.find? fun r => r.2.matchesFlow f with
  | none => rfl
  | some r =>
    dsimp only
    split <;> rfl

variable {b : Pktbuf} {s : Stack} {i : Nat}

theorem firewallCheck_verdict {fw : Firewall} (hon : fw.enabled = true)
    (hlen : ¬b.len < 20) : (firewallCheck fw b).2 =
      if fw.Established (packetFlow b.data b.head b.len) then .accept
      else fw.ruling (packetFlow b.data b.head b.len) := by
  have henabled : ¬(!fw.enabled) = true := by simp [hon]
  rw [firewallCheck, if_neg henabled, if_neg hlen]
  obtain hfound | ⟨i, hfound⟩ := Option.eq_none_or_eq_some
    (ctLookup fw (packetFlow b.data b.head b.len))
  · have hnot : ¬fw.Established (packetFlow b.data b.head b.len) := by
      simp [Firewall.Established, hfound]
    rw [if_neg hnot, ← evaluateRules_verdict fw _ false]
    simp only [hfound]
  by_cases hstate : 1 ≤ (fw.connTable i).state
  · have hheld : fw.Established (packetFlow b.data b.head b.len) := by
      simp [Firewall.Established, hfound, hstate]
    rw [if_pos hheld]
    simp only [hfound, if_pos hstate]
  · have hnot : ¬fw.Established (packetFlow b.data b.head b.len) := by
      simp [Firewall.Established, hfound, hstate]
    rw [if_neg hnot, ← evaluateRules_verdict fw _ true]
    simp only [hfound, if_neg hstate]

/-! What the record holds, from the packet as it came in. -/

def transportOf (proto : UInt8) : Option Transport :=
  if proto == 1 then some .icmp
  else if proto == 6 then some .tcp
  else if proto == 17 then some .udp
  else none

/-- The tests `ipv4_rx` makes before it asks the filter. -/
def ipv4Accepts (s : Stack) (b : Pktbuf) : Prop :=
  20 ≤ b.len ∧ b.data b.head >>> 4 = 4 ∧ 20 ≤ (b.data b.head &&& 0xF).toNat * 4 ∧
    (b.data b.head &&& 0xF).toNat * 4 ≤ b.len ∧
    inetChecksum (readBytes (blit b.data (b.head + 10) 2 (ofList [0, 0])) b.head
      ((b.data b.head &&& 0xF).toNat * 4)) = loadU16 b.data (b.head + 10) ∧
    ipv4ForUs s (loadU32 b.data (b.head + 16)) = true
  deriving Decidable

theorem checksum_restored (p : Pool) (i off : Nat) :
    ((p.storeList i off [0, 0]).storeList i off (bytes16 (loadU16 (p.bufs i).data off))).bufs i =
      p.bufs i := by
  have hfield : bytes16 (loadU16 (p.bufs i).data off) = readBytes (p.bufs i).data off 2 := by
    have hlt : leNat (readBytes (p.bufs i).data off 2) < 2 ^ 16 := by
      simpa using leNat_lt (readBytes (p.bufs i).data off 2)
    have hback := leBytes_leNat (readBytes (p.bufs i).data off 2)
    rw [length_readBytes] at hback
    rw [bytes16, loadU16, UInt16.toNat_ofNat', Nat.mod_eq_of_lt hlt, hback]
  have hdata := blit_restored (p.bufs i).data (ofList [0, 0]) off 2
  simp only [Pool.storeList, Pool.storeAt, hfield, length_readBytes, Function.update_self,
    length_cons, length_nil, hdata]

section
variable (b : Pktbuf) (s : Stack) (i : Nat)

theorem ipv4DispatchSeen_snd (proto : UInt8) (srcIp : UInt32) :
    (ipv4DispatchSeen b s i proto srcIp).2 =
      (transportOf proto).toList.map fun t => .processed t b := by
  simp only [ipv4DispatchSeen, transportOf]
  split
  · rfl
  split
  · rfl
  · split <;> rfl

def askedSeen (b : Pktbuf) (verdict : FwAction) : List Sight :=
  .checked b verdict ::
    if verdict = .drop then []
    else (transportOf (b.data (b.head + 9))).toList.map fun t => .processed t b

theorem ipv4AcceptSeen_snd (ihl : Nat) : (ipv4AcceptSeen s i ihl).2 =
    if inetChecksum (readBytes (blit (s.buf i).data ((s.buf i).head + 10) 2 (ofList [0, 0]))
          (s.buf i).head ihl) = loadU16 (s.buf i).data ((s.buf i).head + 10) ∧
        ipv4ForUs s (loadU32 (s.buf i).data ((s.buf i).head + 16)) = true then
      askedSeen (s.buf i) (firewallCheck s.firewall (s.buf i)).2
    else [] := by
  have hrestored := checksum_restored s.pool i ((s.pool.bufs i).head + 10)
  have hzeroed : ((s.pool.storeList i ((s.pool.bufs i).head + 10) [0, 0]).bufs i).data =
      blit (s.pool.bufs i).data ((s.pool.bufs i).head + 10) 2 (ofList [0, 0]) := by
    simp [Pool.storeList, Pool.storeAt]
  have hforUs : ∀ pool dst, ipv4ForUs { s with pool := pool } dst = ipv4ForUs s dst :=
    fun _ _ => rfl
  simp only [ipv4AcceptSeen, Stack.buf, hzeroed, hrestored, hforUs,
    ipv4DispatchSeen_snd, askedSeen]
  obtain ⟨computed, hcomputed⟩ : ∃ c, c = inetChecksum (readBytes
    (blit (s.pool.bufs i).data ((s.pool.bufs i).head + 10) 2 (ofList [0, 0]))
    (s.pool.bufs i).head ihl) := ⟨_, rfl⟩
  simp only [← hcomputed]
  by_cases hsum : computed = loadU16 (s.pool.bufs i).data ((s.pool.bufs i).head + 10)
  · by_cases hus : ipv4ForUs s (loadU32 (s.pool.bufs i).data ((s.pool.bufs i).head + 16)) = true
    · by_cases hdrop : (firewallCheck s.firewall (s.pool.bufs i)).2 = .drop
      all_goals simp [hsum, hus, hdrop]
    · simp [hsum, hus]
  · simp [hsum]

theorem ipv4RxSeen_snd : (ipv4RxSeen s i).2 =
    if ipv4Accepts s (s.buf i) then askedSeen (s.buf i) (firewallCheck s.firewall (s.buf i)).2
    else [] := by
  simp only [ipv4RxSeen, ipv4Accepts, apply_ite Prod.snd, ipv4AcceptSeen_snd]
  obtain ⟨ihl, hihl⟩ : ∃ n, n = ((s.buf i).data (s.buf i).head &&& 0xF).toNat * 4 := ⟨_, rfl⟩
  simp only [← hihl]
  by_cases hlen : (s.buf i).len < 20
  · simp [hlen]
  have hlong : 20 ≤ (s.buf i).len := by omega
  by_cases hversion : (s.buf i).data (s.buf i).head >>> 4 = 4
  · by_cases hfits : 20 ≤ ihl ∧ ihl ≤ (s.buf i).len
    · have hnot : ¬(ihl < 20 ∨ (s.buf i).len < ihl) := by omega
      simp only [hlen, hversion, hlong, hfits, hnot, bne_self_eq_false, Bool.false_eq_true,
        if_false, true_and]
    · have hbad : ihl < 20 ∨ (s.buf i).len < ihl := by omega
      have hnot : ∀ p, ¬(20 ≤ ihl ∧ ihl ≤ (s.buf i).len ∧ p) := fun _ h => hfits ⟨h.1, h.2.1⟩
      simp only [hlen, hversion, hlong, hbad, hnot, bne_self_eq_false, Bool.false_eq_true,
        if_false, if_true, true_and]
  · simp [hversion]

theorem ipv6RxSeen_snd : (ipv6RxSeen s i).2 =
    if 40 ≤ (s.buf i).len ∧ ipv6Accepts s (s.buf i).data (s.buf i).head then
      if (s.buf i).data ((s.buf i).head + 6) = 6 then [.processed .tcp (s.buf i)]
      else if (s.buf i).data ((s.buf i).head + 6) = 17 then [.processed .udp (s.buf i)]
      else []
    else [] := by
  simp only [ipv6RxSeen, apply_ite Prod.snd]
  by_cases hlen : (s.buf i).len < 40
  · have hshort : ¬40 ≤ (s.buf i).len := by omega
    simp [hlen]
  have hlong : 40 ≤ (s.buf i).len := by omega
  by_cases haccepts : ipv6Accepts s (s.buf i).data (s.buf i).head
  · simp [hlen, haccepts]
  · simp [hlen, haccepts]

theorem guarded_nil : Guarded [] := by
  intro before t b after hseen
  simp at hseen

theorem not_guarded_processed (t : Transport) (b : Pktbuf) : ¬Guarded [.processed t b] := by
  intro h
  have hmem := h [] t b [] rfl
  simp at hmem

theorem guarded_checked (verdict : FwAction) : Guarded [.checked b verdict] := by
  intro before t c after hseen
  cases before with
  | nil | cons => simp at hseen

end

theorem guarded_askedSeen {verdict : FwAction} : Guarded (askedSeen b verdict) ↔
    ¬(verdict = .reject ∧ (transportOf (b.data (b.head + 9))).isSome) := by
  unfold askedSeen
  cases hproto : transportOf (b.data (b.head + 9)) with
  | none => simpa using guarded_checked b verdict
  | some t =>
    cases verdict with
    | drop => simpa using guarded_checked b .drop
    | accept =>
      have hseen : Guarded [.checked b .accept, .processed t b] := by
        intro before u c after h
        cases before with
        | nil => simp at h
        | cons first before =>
          cases before with
          | nil =>
            simp only [cons_append, nil_append, cons.injEq, Sight.processed.injEq]
              at h
            simp [← h.1, h.2.1.2]
          | cons second before => simp at h
      simpa using hseen
    | reject =>
      have hseen : ¬Guarded [.checked b .reject, .processed t b] := by
        intro h
        have hmem := h [.checked b .reject] t b [] rfl
        simp at hmem
      simpa using hseen

/-! The packets that pass unguarded. -/

/-- The packet behind a header of `n` bytes. -/
def Pktbuf.behind (b : Pktbuf) (n : Nat) : Pktbuf :=
  { b with head := u16 (b.head + n), len := u16 (b.len - n) }

def Smuggled (s : Stack) (b : Pktbuf) : Prop :=
  (40 ≤ b.len ∧ ipv6Accepts s b.data b.head) ∧ (b.data (b.head + 6) = 6 ∨ b.data (b.head + 6) = 17)
  deriving Decidable

/-- A packet of the version 4 for one of the transports that the rules reject. -/
def Spared (s : Stack) (b : Pktbuf) : Prop :=
  ipv4Accepts s b ∧ ¬s.firewall.Established (packetFlow b.data b.head b.len) ∧
    s.firewall.ruling (packetFlow b.data b.head b.len) = .reject ∧
    (transportOf (b.data (b.head + 9))).isSome = true
  deriving Decidable

def Pktbuf.etherType (b : Pktbuf) : UInt16 := bswap16 (loadU16 b.data (b.head + 12))

/-- The frames whose packet reaches a transport without the filter's consent. -/
def Unguarded (s : Stack) (b : Pktbuf) : Prop :=
  14 ≤ b.len ∧ (b.etherType = ethTypeIpv4 ∧ Spared s (b.behind 14) ∨
      b.etherType = ethTypeIpv6 ∧ Smuggled s (b.behind 14))
  deriving Decidable

theorem ipv4RxSeen_guarded (hon : s.firewall.enabled = true) :
    Guarded (ipv4RxSeen s i).2 ↔ ¬Spared s (s.buf i) := by
  rw [ipv4RxSeen_snd, Spared]
  by_cases haccepts : ipv4Accepts s (s.buf i)
  · have hlen : ¬(s.buf i).len < 20 := by have := haccepts.1; omega
    rw [if_pos haccepts, guarded_askedSeen, firewallCheck_verdict hon hlen]
    by_cases hheld : s.firewall.Established
        (packetFlow (s.buf i).data (s.buf i).head (s.buf i).len)
    · simp [hheld]
    · simp [haccepts, hheld]
  · simp [haccepts, guarded_nil]

theorem ipv6RxSeen_guarded : Guarded (ipv6RxSeen s i).2 ↔ ¬Smuggled s (s.buf i) := by
  rw [ipv6RxSeen_snd, Smuggled]
  by_cases haccepts : 40 ≤ (s.buf i).len ∧ ipv6Accepts s (s.buf i).data (s.buf i).head
  · by_cases htcp : (s.buf i).data ((s.buf i).head + 6) = 6
    · simp [htcp, haccepts, not_guarded_processed]
    by_cases hudp : (s.buf i).data ((s.buf i).head + 6) = 17
    · simp [hudp, haccepts, not_guarded_processed]
    · simp [htcp, hudp, guarded_nil]
  · simp [haccepts, guarded_nil]

/-- The state `ethernet_rx` hands on. -/
theorem pktbufPull_behind {n : Nat} (hlen : n ≤ (s.buf i).len) :
    ∃ pool, pktbufPull s.pool i n = some pool ∧
      ({ s with pool := pool } : Stack).buf i = (s.buf i).behind n := by
  have hlong : ¬(s.pool.bufs i).len < n := by simpa [Stack.buf] using hlen
  refine ⟨s.pool.setWindow i (u16 ((s.pool.bufs i).head + n)) (u16 ((s.pool.bufs i).len - n)),
    ?_, ?_⟩
  · rw [pktbufPull, if_neg hlong]
  · simp [Stack.buf, Pktbuf.behind]

theorem ethernetRxSeen_guarded (hon : s.firewall.enabled = true) :
    Guarded (ethernetRxSeen s i).2 ↔ ¬Unguarded s (s.buf i) := by
  by_cases hlen : 14 ≤ (s.buf i).len
  · obtain ⟨pool, hpull, hbehind⟩ := pktbufPull_behind hlen
    have hipv4 := ipv4RxSeen_guarded (s := { s with pool := pool }) (i := i) hon
    have hipv6 := ipv6RxSeen_guarded (s := { s with pool := pool }) (i := i)
    rw [hbehind] at hipv4 hipv6
    have hspared : ∀ b, Spared { s with pool := pool } b = Spared s b := fun _ => rfl
    have hsmuggled : ∀ b, Smuggled { s with pool := pool } b = Smuggled s b := fun _ => rfl
    rw [hspared] at hipv4
    rw [hsmuggled] at hipv6
    have htype : bswap16 (loadU16 (s.buf i).data ((s.buf i).head + 12)) = (s.buf i).etherType := rfl
    simp only [ethernetRxSeen, hpull, Unguarded, hlen, true_and, htype]
    by_cases h4 : (s.buf i).etherType = ethTypeIpv4
    · have hother : ¬ethTypeIpv4 = ethTypeIpv6 := by decide
      simp [h4, hother, hipv4]
    by_cases harp : (s.buf i).etherType = ethTypeArp
    · have hother : ¬ethTypeArp = ethTypeIpv4 ∧ ¬ethTypeArp = ethTypeIpv6 := by decide
      simp [harp, hother, guarded_nil]
    by_cases h6 : (s.buf i).etherType = ethTypeIpv6
    · have hother : ¬ethTypeIpv6 = ethTypeIpv4 ∧ ¬ethTypeIpv6 = ethTypeArp := by decide
      simp [h6, hother, hipv6]
    · simp [h4, harp, h6, guarded_nil]
  · have hnone : pktbufPull s.pool i 14 = none := if_pos (by simpa [Stack.buf] using hlen)
    simp [ethernetRxSeen, hnone, Unguarded, hlen, guarded_nil]

/-- Every transport is guarded for just the frames that are none of the two kinds: a packet of
the version 6 is never shown to the filter, and a packet it rejects goes on like an accepted one. -/
theorem transports_guarded_iff (s : Stack) (i : Nat) (hon : s.firewall.enabled = true) :
    (ethernetRxSeen s i).1 = ethernetRx s i ∧
      (Guarded (ethernetRxSeen s i).2 ↔ ¬Unguarded s (s.buf i)) :=
  ⟨ethernetRxSeen_fst s i, ethernetRxSeen_guarded hon⟩

def received (frame : List UInt8) (policy : FwAction) : Stack :=
  { quiet with
    pool := { Pool.start with bufs := fun _ => ⟨frame.length, 0, ofList frame⟩ }
    firewall := { quiet.firewall with defaultPolicy := policy } }

def udpFrame : List UInt8 := replicate 12 0xFF ++ [0x08, 0x00] ++
    [0x45, 0, 0, 28, 0, 0, 0, 0, 64, 17, 112, 209, 10, 0, 0, 1, 255, 255, 255, 255] ++
    [0, 9, 0, 7, 0, 8, 0, 0]

def udp6Frame : List UInt8 := replicate 12 0xFF ++ [0x86, 0xDD] ++ [0, 0, 0, 0x60, 0, 8, 17, 255] ++
    replicate 16 0xFE ++ [0xFF, 2] ++ replicate 13 0 ++ [1] ++ [0, 9, 0, 7, 0, 8, 0, 0]

theorem received_not_established (frame : List UInt8) (policy : FwAction) (f : Flow) :
    ¬(received frame policy).firewall.Established f := by
  have hnone : ctLookup (received frame policy).firewall f = none := scan_eq_none.mpr fun _ => rfl
  simp [Firewall.Established, hnone]

/-- The packet behind the Ethernet header of a received frame. -/
def packetOf (frame : List UInt8) (policy : FwAction) : Pktbuf :=
  ((received frame policy).buf 0).behind 14

theorem accepted_frame_guarded :
    ipv4Accepts (received udpFrame .accept) (packetOf udpFrame .accept) ∧
      Guarded (ethernetRxSeen (received udpFrame .accept) 0).2 := by
  refine ⟨by decide +kernel, (transports_guarded_iff _ 0 rfl).2.mpr ?_⟩
  rintro ⟨-, ⟨-, -, -, hrejected, -⟩ | ⟨htype, -⟩⟩
  · exact absurd hrejected (by decide +kernel)
  · exact absurd htype (by decide +kernel)

theorem frames_pass_unguarded : ¬Guarded (ethernetRxSeen (received udp6Frame .drop) 0).2 ∧
    ¬Guarded (ethernetRxSeen (received udpFrame .reject) 0).2 := by
  refine ⟨fun h => (ethernetRxSeen_guarded rfl).mp h (by decide +kernel),
    fun h => (ethernetRxSeen_guarded rfl).mp h ?_⟩
  have hspared : Spared (received udpFrame .reject) (packetOf udpFrame .reject) :=
    ⟨by decide +kernel, received_not_established _ _ _, by decide +kernel, by decide +kernel⟩
  exact ⟨by decide +kernel, .inl ⟨by decide +kernel, hspared⟩⟩

/-! The destinations that `ipv4_rx` takes for its own. -/

/-- The address of the interface, the broadcast address, or that of the subnet. -/
def Addressed (ip mask dst : UInt32) : Prop :=
  dst = ip ∨ dst = 0xFFFFFFFF ∨ dst &&& mask = ip &&& mask ∧ dst &&& ~~~mask = ~~~mask ∧ ~~~mask ≠ 0

def Pktbuf.dst (b : Pktbuf) : UInt32 := loadU32 b.data (b.head + 16)

def PassedOn (s : Stack) (i : Nat) : Prop := ∃ t b, .processed t b ∈ (ipv4RxSeen s i).2

/-- The packet passes the tests of `ipv4_rx` other than that of its destination, and its protocol
is known. -/
structure Deliverable (s : Stack) (b : Pktbuf) : Prop where
  header : 20 ≤ b.len ∧ b.data b.head >>> 4 = 4
  length : 20 ≤ (b.data b.head &&& 0xF).toNat * 4 ∧ (b.data b.head &&& 0xF).toNat * 4 ≤ b.len
  checksum : inetChecksum (readBytes (blit b.data (b.head + 10) 2 (ofList [0, 0])) b.head
    ((b.data b.head &&& 0xF).toNat * 4)) = loadU16 b.data (b.head + 10)
  filter : (firewallCheck s.firewall b).2 ≠ .drop
  protocol : (transportOf (b.data (b.head + 9))).isSome = true

theorem accepts_iff (s : Stack) (b : Pktbuf) : Deliverable s b ∧ ipv4ForUs s b.dst = true ↔
    ipv4Accepts s b ∧ (firewallCheck s.firewall b).2 ≠ .drop ∧
      (transportOf (b.data (b.head + 9))).isSome = true := by
  constructor
  · rintro ⟨⟨hheader, hlength, hsum, hfilter, hproto⟩, hus⟩
    exact ⟨⟨hheader.1, hheader.2, hlength.1, hlength.2, hsum, hus⟩, hfilter, hproto⟩
  · rintro ⟨⟨hlen, hversion, hshort, hlong, hsum, hus⟩, hfilter, hproto⟩
    exact ⟨⟨⟨hlen, hversion⟩, ⟨hshort, hlong⟩, hsum, hfilter, hproto⟩, hus⟩

theorem passedOn_iff (s : Stack) (i : Nat) : PassedOn s i ↔
    Deliverable s (s.buf i) ∧ ipv4ForUs s (s.buf i).dst = true := by
  rw [accepts_iff, PassedOn, ipv4RxSeen_snd]
  by_cases haccepts : ipv4Accepts s (s.buf i)
  swap
  · simp [haccepts]
  by_cases hdrop : (firewallCheck s.firewall (s.buf i)).2 = .drop
  · simp [askedSeen, haccepts, hdrop]
  · simp [askedSeen, haccepts, hdrop, Option.isSome_iff_exists]

/-- The filter is wrong for exactly the packets that it passes on for their host part alone: it is
all ones, or empty, in a network that is not that of the interface. -/
theorem destination_filter_iff (s : Stack) (i : Nat) :
    (PassedOn s i → Addressed s.localIp s.localNetmask (s.buf i).dst) ↔
      (Deliverable s (s.buf i) → (s.buf i).dst &&& ~~~s.localNetmask = ~~~s.localNetmask →
        (s.buf i).dst = s.localIp ∨ (s.buf i).dst = 0xFFFFFFFF ∨
          (s.buf i).dst &&& s.localNetmask = s.localIp &&& s.localNetmask ∧
            ~~~s.localNetmask ≠ 0) := by
  rw [passedOn_iff]
  simp only [ipv4ForUs, Bool.or_eq_true, beq_iff_eq]
  constructor
  · intro h hdeliver hones
    rcases h ⟨hdeliver, .inr hones⟩ with hip | hall | ⟨hnet, -, hbits⟩
    · exact .inl hip
    · exact .inr (.inl hall)
    · exact .inr (.inr ⟨hnet, hbits⟩)
  · rintro h ⟨hdeliver, (hip | hall) | hones⟩
    · exact .inl hip
    · exact .inr (.inl hall)
    rcases h hdeliver hones with hip | hall | ⟨hnet, hbits⟩
    · exact .inl hip
    · exact .inr (.inl hall)
    · exact .inr (.inr ⟨hnet, hones, hbits⟩)

/-- A datagram without payload. -/
def headerTo (dst : UInt32) : Pktbuf :=
  ⟨20, 0, ofList (ipv4Header 0 20 17 0 dst (inetChecksum (ipv4Header 0 20 17 0 dst 0)))⟩

def receiverOf (ip mask dst : UInt32) : Stack :=
  { quiet with
    localIp := ip, localNetmask := mask
    firewall := { quiet.firewall with enabled := false }
    pool := { Pool.start with bufs := fun _ => headerTo dst } }

/-- On 10.0.0.1/24 a packet for 192.168.1.255 is passed on. -/
theorem foreign_broadcast_passed : PassedOn (receiverOf 0x0100000A 0x00FFFFFF 0xFF01A8C0) 0 ∧
      ((receiverOf 0x0100000A 0x00FFFFFF 0xFF01A8C0).buf 0).dst = 0xFF01A8C0 ∧
      ¬Addressed 0x0100000A 0x00FFFFFF 0xFF01A8C0 :=
  ⟨(passedOn_iff _ _).mpr ⟨⟨by decide +kernel, by decide +kernel, by decide +kernel,
    by decide +kernel, by decide +kernel⟩, by decide +kernel⟩, by decide +kernel,
    by unfold Addressed; decide⟩

end AegisOS.Net
