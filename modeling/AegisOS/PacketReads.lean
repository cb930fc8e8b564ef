import AegisOS.FirewallGuard
import AegisOS.PacketRuns

/-! Frames as `network_poll` receives them, and how `ethernet_rx` and `ipv4_rx` pass them on. -/
namespace AegisOS.Net
open ByteStore Stack Nat List

/-- Buffer `i` holds a frame as `network_poll` receives it: from the middle of the data array on, of
any length up to the largest the driver hands over. -/
structure Stack.HoldsFrame (s : Stack) (i : Nat) : Prop where
  head : (s.buf i).head = pktMaxLen / 2
  len : (s.buf i).len ≤ frameMax

/-- A packet of the version 4 that `ipv4_rx` passes on. -/
def Ipv4Passes (s : Stack) (b : Pktbuf) : Prop :=
  ipv4Accepts s b ∧ (firewallCheck s.firewall b).2 ≠ .drop

/-- The stack as `ipv4_rx` hands it to the transport. -/
def ipv4Handed (s : Stack) (i : Nat) : Stack :=
  let b := s.buf i
  let saved := loadU16 b.data (b.head + 10)
  let zeroed := s.pool.storeList i (b.head + 10) [0, 0]
  let s := { s with pool := zeroed.storeList i (b.head + 10) (bytes16 saved) }
  let b := s.buf i
  let s := { s with firewall := (firewallCheck s.firewall b).1 }
  { s with pool := s.pool.setWindow i (u16 (b.head + b.ihl)) (u16 (b.len - b.ihl)) }

/-- The stack as `ethernet_rx` hands it on. -/
def ethernetHanded (s : Stack) (i : Nat) : Stack :=
  { s with pool := s.pool.setWindow i (u16 ((s.buf i).head + 14)) (u16 ((s.buf i).len - 14)) }

section
variable {s : Stack} {i : Nat}

theorem ethernetHanded_buf : (ethernetHanded s i).buf i = (s.buf i).behind 14 := by
  simp [ethernetHanded, buf, Pktbuf.behind]

theorem ipv4Handed_buf : (ipv4Handed s i).buf i = (s.buf i).behind (s.buf i).ihl := by
  have hrestored := checksum_restored s.pool i ((s.pool.bufs i).head + 10)
  simp only [ipv4Handed, buf, hrestored, setWindow_self, Pktbuf.behind]

theorem pull_handed (h : 14 ≤ (s.buf i).len) : pktbufPull s.pool i 14 =
    some (ethernetHanded s i).pool := by
  have hlong : ¬(s.pool.bufs i).len < 14 := not_lt.mpr h
  rw [pktbufPull, if_neg hlong]
  rfl

theorem ethernetRx_handed (h : 14 ≤ (s.buf i).len) : ethernetRx s i =
    if (s.buf i).etherType = ethTypeIpv4 then ipv4Rx (ethernetHanded s i) i
    else if (s.buf i).etherType = ethTypeArp then arpRx (ethernetHanded s i) i
    else if (s.buf i).etherType = ethTypeIpv6 then ipv6Rx (ethernetHanded s i) i
    else (ethernetHanded s i).free i := by
  have htype : bswap16 (loadU16 (s.buf i).data ((s.buf i).head + 12)) = (s.buf i).etherType := rfl
  rw [ethernetRx, pull_handed h]
  simp only [beq_iff_eq]
  rfl

theorem ipv4Rx_passes (h : Ipv4Passes s (s.buf i)) : ipv4Rx s i =
    ipv4Dispatch (ipv4Handed s i) i ((s.buf i).data ((s.buf i).head + 9))
      (loadU32 (s.buf i).data ((s.buf i).head + 12)) := by
  obtain ⟨⟨hlen, hversion, hihl, hfits, hsum, hus⟩, hdrop⟩ := h
  have hrestored : ((s.pool.storeList i ((s.pool.bufs i).head + 10) [0, 0]).storeList i
      ((s.pool.bufs i).head + 10) (bytes16 (loadU16 (s.pool.bufs i).data
        ((s.pool.bufs i).head + 10)))).bufs i = s.pool.bufs i := checksum_restored ..
  have hzeroed : ((s.pool.storeList i ((s.pool.bufs i).head + 10) [0, 0]).bufs i).data =
      blit (s.pool.bufs i).data ((s.pool.bufs i).head + 10) 2 (ofList [0, 0]) := by
    simp [Pool.storeList, Pool.storeAt]
  have hhead : ¬(((s.buf i).data (s.buf i).head &&& 0xF).toNat * 4 < 20 ∨
      (s.buf i).len < ((s.buf i).data (s.buf i).head &&& 0xF).toNat * 4) := by omega
  have hus' : ∀ pool, ipv4ForUs { s with pool := pool }
      (loadU32 (s.buf i).data ((s.buf i).head + 16)) = true := fun _ => hus
  simp only [buf] at *
  rw [ipv4Rx]
  simp only [buf, not_lt.mpr hlen, hversion, hhead, bne_self_eq_false, Bool.false_eq_true, if_false]
  rw [ipv4Accept]
  simp only [buf, hzeroed, hrestored, hsum, hus', hdrop, bne_self_eq_false, Bool.not_true,
    Bool.false_eq_true, if_false, ipv4Handed, Pktbuf.ihl]

theorem Stack.HoldsFrame.behind (h : s.HoldsFrame i) :
    ((s.buf i).behind 14).head = (s.buf i).head + 14 ∧
      ((s.buf i).behind 14).len = (s.buf i).len - 14 ∧ (s.buf i).head + (s.buf i).len < 65536 := by
  have hhead := h.head
  have hlen : (s.buf i).len ≤ 1514 := h.len
  have hmiddle : pktMaxLen / 2 = 757 := rfl
  refine ⟨mod_eq_of_lt ?_, mod_eq_of_lt ?_, ?_⟩ <;> omega

end

/-- A stack without rules that has just received a frame from an address it accepts. -/
def framed (frame : List UInt8) : Stack :=
  { quiet with
    pool := { Pool.start with
      bufs := fun _ => ⟨frame.length, pktMaxLen / 2, fun x => ofList frame (x - pktMaxLen / 2)⟩ }
    firewall := { quiet.firewall with defaultPolicy := .accept } }

theorem framed_holds (frame : List UInt8) (h : frame.length ≤ frameMax) (i : Nat) :
    (framed frame).HoldsFrame i := ⟨rfl, h⟩

theorem framed_accepts (frame : List UInt8) (b : Pktbuf) :
    (firewallCheck (framed frame).firewall b).2 ≠ .drop := by
  have hfirewall : (framed frame).firewall = (received [] .accept).firewall := rfl
  have hon : ¬(!(received [] .accept).firewall.enabled) = true := by decide
  rw [hfirewall]
  by_cases hlen : b.len < 20
  · rw [firewallCheck, if_neg hon, if_pos hlen]
    decide
  have hruling : (received [] .accept).firewall.ruling (packetFlow b.data b.head b.len) =
      .accept := rfl
  rw [firewallCheck_verdict rfl hlen, if_neg (received_not_established [] .accept _), hruling]
  decide

/-! What the transports get of an IPv4 packet. `ipv4_rx` passes on all the bytes the driver counted,
whatever the header says of the packet's length. -/

def Pktbuf.totalLen (b : Pktbuf) : Nat := (bswap16 (loadU16 b.data (b.head + 2))).toNat

def Transport.rx : Transport → Stack → Nat → UInt32 → Stack
  | .icmp => icmpRx
  | .tcp => tcpRx
  | .udp => udpRx

/-- The frame `b` carries an IPv4 packet that goes on to the transport `t`. -/
def HandsTo (s : Stack) (b : Pktbuf) (t : Transport) : Prop :=
  14 ≤ b.len ∧ b.etherType = ethTypeIpv4 ∧ Ipv4Passes s (b.behind 14) ∧
    transportOf ((b.behind 14).data ((b.behind 14).head + 9)) = some t

def transportStack (s : Stack) (i : Nat) : Stack := ipv4Handed (ethernetHanded s i) i

/-- The transport sees the payload of the packet `p`, as long as the header says, and nothing else. -/
structure SeesPayload (s : Stack) (i : Nat) (p : Pktbuf) : Prop where
  length : (s.buf i).len + p.ihl = p.totalLen
  bytes : s.pool.frame i = readBytes p.data (p.head + p.ihl) (p.totalLen - p.ihl)

/-- The packet `p` ends with the TCP header. -/
def NoData (p : Pktbuf) : Prop := p.totalLen = p.ihl + (segmentOf (p.behind p.ihl)).dataOff

/-- Delivery of the frame in buffer `i` is exact. -/
def DeliversPayload (s : Stack) (i : Nat) : Prop :=
  ∀ t, HandsTo s (s.buf i) t → SeesPayload (transportStack s i) i ((s.buf i).behind 14) ∧
      (t = .tcp → NoData ((s.buf i).behind 14) →
        ∀ k, ((ethernetRx s i).tcp.conns k).rx <+: (s.tcp.conns k).rx)

section
variable {s : Stack} {i : Nat} {t : Transport}

theorem dispatch_transport {proto : UInt8} (h : transportOf proto = some t) (s : Stack) (i : Nat)
    (srcIp : UInt32) : ipv4Dispatch s i proto srcIp = t.rx s i srcIp := by
  unfold transportOf at h
  unfold ipv4Dispatch
  split at h
  next h1 =>
    rw [if_pos h1]
    cases h
    rfl
  rename_i h1
  rw [if_neg h1]
  split at h
  next h6 =>
    rw [if_pos h6]
    cases h
    rfl
  rename_i h6
  rw [if_neg h6]
  split at h
  next h17 =>
    rw [if_pos h17]
    cases h
    rfl
  · cases h

theorem ethernetRx_transport (h : HandsTo s (s.buf i) t) : ethernetRx s i =
    t.rx (transportStack s i) i
      (loadU32 ((s.buf i).behind 14).data (((s.buf i).behind 14).head + 12)) := by
  obtain ⟨hlen, htype, hpass, hproto⟩ := h
  have hpass' : Ipv4Passes (ethernetHanded s i) ((ethernetHanded s i).buf i) := by
    rw [ethernetHanded_buf]
    exact hpass
  rw [ethernetRx_handed hlen, if_pos htype, ipv4Rx_passes hpass', ethernetHanded_buf,
    dispatch_transport hproto]
  rfl

theorem tcpRx_tcp (s : Stack) (i : Nat) (srcIp : UInt32) :
    (tcpRx s i srcIp).tcp = (s.tcp.rx s.localIp (s.buf i) srcIp).1 := by
  rw [tcpRx_runs]
  exact reacted_tcp s _

theorem ethernetRx_tcp (h : HandsTo s (s.buf i) .tcp) :
    (ethernetRx s i).tcp = (s.tcp.rx s.localIp ((transportStack s i).buf i)
      (loadU32 ((s.buf i).behind 14).data (((s.buf i).behind 14).head + 12))).1 := by
  rw [ethernetRx_transport h, Transport.rx, tcpRx_tcp]
  rfl

theorem transportStack_buf : (transportStack s i).buf i =
    ((s.buf i).behind 14).behind ((s.buf i).behind 14).ihl := by
  rw [transportStack, ipv4Handed_buf, ethernetHanded_buf]

theorem rx_of_no_data {t : Tcp} {b : Pktbuf} {localIp srcIp : UInt32}
    (h : payloadLen (segmentOf b) b = 0) (k : Fin 128) :
    ((t.rx localIp b srcIp).1.conns k).rx <+: (t.conns k).rx := by
  have hset : ∀ (l : Fin 128) (c : TcpConn), c.rx <+: (t.conns l).rx →
      ((t.set l c).conns k).rx <+: (t.conns k).rx := by
    intro l c hc
    by_cases hk : k = l
    · subst hk
      simpa [Tcp.set] using hc
    · simp [Tcp.set, hk]
  rcases rx_cases t localIp b srcIp with hsame | ⟨-, l, -, -, -, -, hopened⟩ |
    ⟨l, c, acked, -, -, hreaction, hcall⟩
  · rw [hsame]
  · rw [hopened]
    exact hset l _ nil_prefix
  · rw [hcall]
    refine hset l c ?_
    cases hreaction with
    | data _ _ hsome => exact absurd hsome (by omega)
    | connected | confirmed | noted | fin | finAcked | gone => exact prefix_refl _

end

theorem transportStack_window {s : Stack} {i : Nat} (hframe : s.HoldsFrame i)
    (h : Ipv4Passes s ((s.buf i).behind 14)) :
    ((transportStack s i).buf i).len + ((s.buf i).behind 14).ihl = ((s.buf i).behind 14).len ∧
      ((transportStack s i).buf i).head =
        ((s.buf i).behind 14).head + ((s.buf i).behind 14).ihl := by
  obtain ⟨hhead, hlen, hbound⟩ := hframe.behind
  obtain ⟨hlong, -, -, hfits, -⟩ := h.1
  have hfits' : ((s.buf i).behind 14).ihl ≤ ((s.buf i).behind 14).len := hfits
  have hwindow : (((s.buf i).behind 14).behind ((s.buf i).behind 14).ihl).len =
      ((s.buf i).behind 14).len - ((s.buf i).behind 14).ihl := Nat.mod_eq_of_lt (by omega)
  have hstart : (((s.buf i).behind 14).behind ((s.buf i).behind 14).ihl).head =
      ((s.buf i).behind 14).head + ((s.buf i).behind 14).ihl := Nat.mod_eq_of_lt (by omega)
  rw [transportStack_buf, hstart]
  exact ⟨by omega, rfl⟩

theorem delivers_iff {s : Stack} {i : Nat} (hframe : s.HoldsFrame i) :
    DeliversPayload s i ↔ ((∃ t, HandsTo s (s.buf i) t) →
        ((s.buf i).behind 14).totalLen = ((s.buf i).behind 14).len) := by
  constructor
  · rintro hexact ⟨t, ht⟩
    obtain ⟨hlen, -⟩ := transportStack_window hframe ht.2.2.1
    exact (hexact t ht).1.length.symm.trans hlen
  intro htotal t ht
  obtain ⟨hlen, hhead⟩ := transportStack_window hframe ht.2.2.1
  have hequal := htotal ⟨t, ht⟩
  refine ⟨⟨hlen.trans hequal.symm, ?_⟩, ?_⟩
  · have hsize : ((transportStack s i).buf i).len =
        ((s.buf i).behind 14).totalLen - ((s.buf i).behind 14).ihl := by omega
    have hdata : ((transportStack s i).buf i).data = ((s.buf i).behind 14).data := by
      rw [transportStack_buf]
      rfl
    rw [← hsize, ← hhead, ← hdata]
    rfl
  · rintro rfl hnodata k
    have hpayload : payloadLen (segmentOf ((transportStack s i).buf i))
        ((transportStack s i).buf i) = 0 := by
      unfold NoData at hnodata
      rw [← transportStack_buf] at hnodata
      have hoff : ((transportStack s i).buf i).len =
          (segmentOf ((transportStack s i).buf i)).dataOff := by omega
      rw [payloadLen, hoff, Nat.add_sub_cancel]
      rfl
    rw [ethernetRx_tcp ht]
    exact rx_of_no_data hpayload k

/-- Delivery is exact for just the frames that carry nothing behind the packet, and nothing less
than it. -/
theorem payload_exact_iff (s : Stack) (i : Nat) (hframe : s.HoldsFrame i) :
    DeliversPayload s i ↔ ((∃ t, HandsTo s (s.buf i) t) →
        ((s.buf i).behind 14).totalLen = ((s.buf i).behind 14).len) := delivers_iff hframe

/-- A datagram in a frame of its own length. -/
theorem datagram_delivered : (framed udpFrame).HoldsFrame 0 ∧
    HandsTo (framed udpFrame) ((framed udpFrame).buf 0) .udp ∧ DeliversPayload (framed udpFrame) 0 := by
  have hframe := framed_holds udpFrame (by decide) 0
  have hpasses : Ipv4Passes (framed udpFrame) (((framed udpFrame).buf 0).behind 14) :=
    ⟨by decide +kernel, framed_accepts udpFrame _⟩
  refine ⟨hframe, ⟨by decide +kernel, by decide +kernel, hpasses, rfl⟩, ?_⟩
  exact (payload_exact_iff (framed udpFrame) 0 hframe).mpr fun _ => by decide +kernel

/-- An acknowledgement without data from 10.0.0.1, port 9, to port 80, padded to the 60 bytes of the
shortest Ethernet frame. -/
def paddedAck : List UInt8 :=
  replicate 12 0xFF ++ [0x08, 0x00] ++
    [0x45, 0, 0, 40, 0, 0, 0, 0, 64, 6, 112, 208, 10, 0, 0, 1, 255, 255, 255, 255] ++
    [0, 9, 0, 80, 0, 0, 0, 5, 0, 0, 3, 0xE9, 0x50, 0x10, 0xFF, 0xFF, 0, 0, 0, 0] ++
    replicate 6 0

/-- The stack with a connection that waits for the sequence number 5. -/
def serving : Stack :=
  { framed paddedAck with
    tcp := ⟨fun k => if k.val = 0 then
        ⟨0, 80, 0x0100000A, 9, .established, 1001, 1001, 5, 65535, 65535, [], true, false⟩
      else quiet.tcp.conns k, 49152⟩ }

/-- The padding is taken for six bytes of data. -/
theorem padding_received : serving.HoldsFrame 0 ∧ paddedAck.length = 60 ∧
    HandsTo serving (serving.buf 0) .tcp ∧ NoData ((serving.buf 0).behind 14) ∧
    ((ethernetRx serving 0).tcp.conns 0).rx = [0, 0, 0, 0, 0, 0] ∧ ¬DeliversPayload serving 0 := by
  have hframe : serving.HoldsFrame 0 := ⟨rfl, by decide⟩
  have hpasses : Ipv4Passes serving ((serving.buf 0).behind 14) :=
    ⟨by decide +kernel, framed_accepts paddedAck _⟩
  have hhands : HandsTo serving (serving.buf 0) .tcp :=
    ⟨by decide +kernel, by decide +kernel, hpasses, rfl⟩
  refine ⟨hframe, rfl, hhands, by unfold NoData; decide +kernel, ?_, fun h => ?_⟩
  · rw [ethernetRx_tcp hhands, transportStack_buf]
    decide +kernel
  · exact absurd ((delivers_iff hframe).mp h ⟨_, hhands⟩) (by decide +kernel)

def polling : Stack := { serving with driver.rx := [⟨0, 72, ofList paddedAck⟩] }

/-- `n` bytes from the offset `off` of the data array on. -/
structure ByteRange where
  off : Nat
  n : Nat

def ByteRange.Inside (r : ByteRange) (head len : Nat) : Prop :=
  ∀ k < r.n, head ≤ r.off + k ∧ r.off + k < head + len

def Within (rs : List ByteRange) (head len : Nat) : Prop := ∀ r ∈ rs, r.Inside head len

/-! The reads of each function. -/

def arpRxReads (s : Stack) (b : Pktbuf) : List ByteRange :=
  if b.len < 28 then []
  else
    [⟨b.head + 6, 2⟩, ⟨b.head + 14, 4⟩, ⟨b.head + 8, 6⟩] ++
      if bswap16 (loadU16 b.data (b.head + 6)) = 1 then
        ⟨b.head + 24, 4⟩ :: if loadU32 b.data (b.head + 24) = s.localIp then
          [⟨b.head + 14, 4⟩, ⟨b.head + 8, 6⟩]
        else []
      else []

def firewallCheckReads (fw : Firewall) (b : Pktbuf) : List ByteRange :=
  if fw.enabled = false ∨ b.len < 20 then []
  else
    [⟨b.head, 1⟩, ⟨b.head + 12, 4⟩, ⟨b.head + 16, 4⟩, ⟨b.head + 9, 1⟩] ++
      if (b.data (b.head + 9) = 6 ∨ b.data (b.head + 9) = 17) ∧ b.ihl + 4 ≤ b.len then
        [⟨b.head + b.ihl, 2⟩, ⟨b.head + b.ihl + 2, 2⟩]
      else []

/-- The checksum goes over the whole window, and an echo request is copied. -/
def icmpRxReads (b : Pktbuf) : List ByteRange :=
  if b.len < 8 then []
  else
    ⟨b.head + 2, 2⟩ :: ⟨b.head, b.len⟩ ::
      if inetChecksum (readBytes (blit b.data (b.head + 2) 2 (ofList [0, 0])) b.head b.len) =
          loadU16 b.data (b.head + 2) then
        ⟨b.head, 1⟩ :: if b.data b.head = 8 then [⟨b.head, min b.len 1500⟩] else []
      else []

/-- Only data in order for an established connection is copied. -/
def TakesData (c : TcpConn) (g : Segment) (b : Pktbuf) : Prop :=
  c.state = .established ∧ hasFlag g.flags tcpFin = false ∧ hasFlag g.flags tcpAck = true ∧
    0 < payloadLen g b ∧ g.seq = c.rcvNxt
  deriving Decidable

def tcpRxReads (t : Tcp) (b : Pktbuf) (srcIp : UInt32) : List ByteRange :=
  if b.len < 20 then []
  else
    let g := segmentOf b
    [⟨b.head, 2⟩, ⟨b.head + 2, 2⟩, ⟨b.head + 4, 4⟩, ⟨b.head + 8, 4⟩, ⟨b.head + 13, 1⟩,
      ⟨b.head + 12, 1⟩] ++
      match tcpFindConn t srcIp g.srcPort g.dstPort with
      | none => []
      | some k =>
        if TakesData (t.conns k) g b then
          [⟨b.head + g.dataOff, min (payloadLen g b) (8192 - (t.conns k).rx.length)⟩]
        else []

/-- The payload length is the 16-bit difference of the length field and the header. -/
def udpPayloadLen (b : Pktbuf) : Nat := (bswap16 (loadU16 b.data (b.head + 4)) - 8).toNat

def udpReceiver (s : Stack) (b : Pktbuf) : Option (Fin 64) :=
  Fin.find? fun k => (s.udp k).bound &&
    (s.udp k).localPort == bswap16 (loadU16 b.data (b.head + 2))

def udpRxReads (s : Stack) (b : Pktbuf) : List ByteRange :=
  if b.len < 8 then []
  else
    [⟨b.head + 2, 2⟩, ⟨b.head, 2⟩, ⟨b.head + 4, 2⟩] ++
      match udpReceiver s b with
      | none => []
      | some _ => [⟨b.head + 8, min (udpPayloadLen b) udpRxBufSize⟩]

def ipv4DispatchReads (s : Stack) (b : Pktbuf) (proto : UInt8) (srcIp : UInt32) : List ByteRange :=
  if proto = 1 then icmpRxReads b
  else if proto = 6 then tcpRxReads s.tcp b srcIp
  else if proto = 17 then udpRxReads s b
  else []

def ipv4RxReads (s : Stack) (b : Pktbuf) : List ByteRange :=
  if b.len < 20 then []
  else
    ⟨b.head, 1⟩ ::
      if b.data b.head >>> 4 ≠ 4 ∨ b.ihl < 20 ∨ b.len < b.ihl then []
      else
        ⟨b.head + 10, 2⟩ :: ⟨b.head, b.ihl⟩ ::
          if inetChecksum (readBytes (blit b.data (b.head + 10) 2 (ofList [0, 0])) b.head b.ihl) ≠
              loadU16 b.data (b.head + 10) then []
          else
            ⟨b.head + 16, 4⟩ ::
              if ipv4ForUs s (loadU32 b.data (b.head + 16)) = false then []
              else
                firewallCheckReads s.firewall b ++
                  if (firewallCheck s.firewall b).2 = .drop then []
                  else
                    ⟨b.head + 9, 1⟩ :: ⟨b.head + 12, 4⟩ ::
                      ipv4DispatchReads s (b.behind b.ihl) (b.data (b.head + 9))
                        (loadU32 b.data (b.head + 12))

/-- The window of the transport over IPv6, as long as the header says. -/
def Pktbuf.ipv6Payload (b : Pktbuf) : Pktbuf :=
  { b with head := u16 (b.head + 40), len := ipv6PayloadLen b.data b.head }

/-- What TCP and UDP read of a packet that `ipv6_rx` passes on to them. -/
def ipv6TransportReads (s : Stack) (b : Pktbuf) : List ByteRange :=
  if b.len < 40 ∨ ¬ipv6Accepts s b.data b.head then []
  else if b.data (b.head + 6) = 6 then tcpRxReads s.tcp b.ipv6Payload 0
  else if b.data (b.head + 6) = 17 then udpRxReads s b.ipv6Payload
  else []

def ethernetRxReads (s : Stack) (b : Pktbuf) : List ByteRange :=
  if b.len < 14 then []
  else
    ⟨b.head + 12, 2⟩ ::
      if b.etherType = ethTypeIpv4 then ipv4RxReads s (b.behind 14)
      else if b.etherType = ethTypeArp then arpRxReads s (b.behind 14)
      else if b.etherType = ethTypeIpv6 then ipv6TransportReads s (b.behind 14)
      else []

/-! The packets that announce more than there is. Of the window, `present` bytes were received. -/

def TcpOverrun (t : Tcp) (b : Pktbuf) (srcIp : UInt32) (present : Nat) : Prop :=
  20 ≤ b.len ∧ (present < 14 ∨
    ∃ k, tcpFindConn t srcIp (segmentOf b).srcPort (segmentOf b).dstPort = some k ∧
      TakesData (t.conns k) (segmentOf b) b ∧ (t.conns k).rx.length < 8192 ∧
      present < (segmentOf b).dataOff + min (payloadLen (segmentOf b) b)
        (8192 - (t.conns k).rx.length))

def UdpOverrun (s : Stack) (b : Pktbuf) (present : Nat) : Prop :=
  8 ≤ b.len ∧ (present < 6 ∨ ((udpReceiver s b).isSome = true ∧ 0 < udpPayloadLen b ∧
    present < 8 + min (udpPayloadLen b) udpRxBufSize))

def Ipv4Overrun (s : Stack) (b : Pktbuf) : Prop :=
  Ipv4Passes s b ∧ (b.data (b.head + 9) = 6 ∧
        TcpOverrun s.tcp (b.behind b.ihl) (loadU32 b.data (b.head + 12)) (b.len - b.ihl) ∨
      b.data (b.head + 9) = 17 ∧ UdpOverrun s (b.behind b.ihl) (b.len - b.ihl))

def Ipv6Overrun (s : Stack) (b : Pktbuf) : Prop :=
  (40 ≤ b.len ∧ ipv6Accepts s b.data b.head) ∧
    (b.data (b.head + 6) = 6 ∧ TcpOverrun s.tcp b.ipv6Payload 0 (b.len - 40) ∨
      b.data (b.head + 6) = 17 ∧ UdpOverrun s b.ipv6Payload (b.len - 40))

def FrameOverrun (s : Stack) (b : Pktbuf) : Prop :=
  14 ≤ b.len ∧ (b.etherType = ethTypeIpv4 ∧ Ipv4Overrun s (b.behind 14) ∨
      b.etherType = ethTypeIpv6 ∧ Ipv6Overrun s (b.behind 14))

/-! Ranges. -/

section
variable {r : ByteRange} {rs rs' : List ByteRange} {head len : Nat}

theorem inside_iff : r.Inside head len ↔ r.n = 0 ∨ head ≤ r.off ∧ r.off + r.n ≤ head + len := by
  constructor
  · intro h
    by_cases hn : r.n = 0
    · exact .inl hn
    have hfirst := h 0 (by omega)
    have hlast := h (r.n - 1) (by omega)
    exact .inr (by omega)
  · intro h k hk
    omega

@[simp] theorem within_nil : Within [] head len := nofun

@[simp] theorem within_cons :
    Within (r :: rs) head len ↔ r.Inside head len ∧ Within rs head len := forall_mem_cons

@[simp] theorem within_append :
    Within (rs ++ rs') head len ↔ Within rs head len ∧ Within rs' head len :=
  forall_mem_append

theorem inside_of_le (hlow : head ≤ r.off) (hhigh : r.off + r.n ≤ head + len) :
    r.Inside head len := inside_iff.mpr (.inr ⟨hlow, hhigh⟩)

end

/-! Reads inside the window. -/

variable {t : Tcp} {srcIp : UInt32} {s : Stack} {b : Pktbuf}

section
variable {s : Stack} {b : Pktbuf} {head len : Nat}

section
variable (hlow : head ≤ b.head) (hhigh : b.head + b.len ≤ head + len)
include hlow hhigh

theorem field_inside (off n : Nat) (h : off + n ≤ b.len) :
    (⟨b.head + off, n⟩ : ByteRange).Inside head len :=
  inside_of_le (show head ≤ b.head + off by omega) (show b.head + off + n ≤ head + len by omega)

theorem arpRx_within : Within (arpRxReads s b) head len := by
  unfold arpRxReads
  split
  · exact within_nil
  have hfits : ∀ off n, off + n ≤ 28 → (⟨b.head + off, n⟩ : ByteRange).Inside head len :=
    fun off n h => field_inside hlow hhigh off n (by omega)
  rw [within_append]
  constructor
  · simp [hfits]
  split
  · rw [within_cons]
    refine ⟨hfits 24 4 (by decide), ?_⟩
    split
    · simp [hfits]
    · exact within_nil
  · exact within_nil

end

theorem firewallCheck_within (fw : Firewall) (hlow : head ≤ b.head)
    (hhigh : b.head + b.len ≤ head + len) : Within (firewallCheckReads fw b) head len := by
  unfold firewallCheckReads
  split
  · exact within_nil
  have hfits := field_inside hlow hhigh
  rw [within_append]
  constructor
  · simp only [within_cons, within_nil, and_true]
    exact ⟨hfits 0 1 (by omega), hfits 12 4 (by omega), hfits 16 4 (by omega), hfits 9 1 (by omega)⟩
  · split
    · simp only [within_cons, within_nil, and_true]
      exact ⟨hfits b.ihl 2 (by omega), hfits (b.ihl + 2) 2 (by omega)⟩
    · exact within_nil

theorem icmpRx_within (hlow : head ≤ b.head) (hhigh : b.head + b.len ≤ head + len) :
    Within (icmpRxReads b) head len := by
  have hfits := field_inside hlow hhigh
  unfold icmpRxReads
  split
  · exact within_nil
  rw [within_cons, within_cons]
  refine ⟨hfits 2 2 (by omega), hfits 0 b.len (by omega), ?_⟩
  split
  · rw [within_cons]
    refine ⟨hfits 0 1 (by omega), ?_⟩
    split
    · simp only [within_cons, within_nil, and_true]
      exact hfits 0 _ (by omega)
    · exact within_nil
  · exact within_nil

section
variable (present : Nat) (hlow : head ≤ b.head) (hhigh : b.head + present = head + len)
include hlow hhigh

theorem tcpRx_within_iff :
    Within (tcpRxReads t b srcIp) head len ↔ ¬TcpOverrun t b srcIp present := by
  unfold tcpRxReads TcpOverrun
  by_cases hshort : b.len < 20
  · have hnot : ¬20 ≤ b.len := not_le.mpr hshort
    simp [hshort]
  have hlong : 20 ≤ b.len := not_lt.mp hshort
  have hheader : Within [⟨b.head, 2⟩, ⟨b.head + 2, 2⟩, ⟨b.head + 4, 4⟩, ⟨b.head + 8, 4⟩,
      ⟨b.head + 13, 1⟩, ⟨b.head + 12, 1⟩] head len ↔ ¬present < 14 := by
    simp only [within_cons, within_nil, and_true, inside_iff]
    omega
  rw [if_neg hshort]
  rw [within_append, hheader]
  simp only [hlong, true_and]
  cases hfind : tcpFindConn t srcIp (segmentOf b).srcPort (segmentOf b).dstPort with
  | none => simp
  | some k =>
    by_cases htakes : TakesData (t.conns k) (segmentOf b) b
    · have hsome := htakes.2.2.2.1
      simp only [htakes, if_true, within_cons, within_nil, and_true, inside_iff,
        Option.some.injEq, exists_eq_left', true_and]
      omega
    · simp [htakes]

theorem udpRx_within_iff : Within (udpRxReads s b) head len ↔ ¬UdpOverrun s b present := by
  unfold udpRxReads UdpOverrun
  by_cases hshort : b.len < 8
  · simp [hshort]
  have hlong : 8 ≤ b.len := not_lt.mp hshort
  have hheader : Within [⟨b.head + 2, 2⟩, ⟨b.head, 2⟩, ⟨b.head + 4, 2⟩] head len ↔
      ¬present < 6 := by
    simp only [within_cons, within_nil, and_true, inside_iff]
    omega
  rw [if_neg hshort, within_append, hheader]
  simp only [hlong, true_and]
  cases udpReceiver s b with
  | none => simp
  | some k =>
    have hsize : udpRxBufSize = 4096 := rfl
    simp only [within_cons, within_nil, and_true, inside_iff, Option.isSome_some, true_and]
    omega

end

theorem not_passes_drop (h : (firewallCheck s.firewall b).2 = .drop) : ¬Ipv4Passes s b :=
  fun hpass => hpass.2 h

theorem ipv4Dispatch_within_iff (hpass : Ipv4Passes s b) (hlow : head ≤ b.head)
    (hhigh : b.head + b.len = head + len) (hbound : b.head + b.len < 65536) :
    Within (ipv4DispatchReads s (b.behind b.ihl) (b.data (b.head + 9))
      (loadU32 b.data (b.head + 12))) head len ↔ ¬Ipv4Overrun s b := by
  have hfit : b.ihl ≤ b.len := hpass.1.2.2.2.1
  have hhead : (b.behind b.ihl).head = b.head + b.ihl := mod_eq_of_lt (by omega)
  have hlen : (b.behind b.ihl).len = b.len - b.ihl := mod_eq_of_lt (by omega)
  unfold ipv4DispatchReads Ipv4Overrun
  rw [and_iff_right hpass]
  split
  next hproto =>
    refine iff_of_true (icmpRx_within (by omega) (by omega)) ?_
    rw [hproto]
    simp
  split
  next hproto =>
    rw [tcpRx_within_iff (b.len - b.ihl) (by omega) (by omega), hproto]
    simp
  split
  next hproto =>
    rw [udpRx_within_iff (b.len - b.ihl) (by omega) (by omega), hproto]
    simp
  next htcp hudp => simp [htcp, hudp]

variable (hlow : head ≤ b.head) (hhigh : b.head + b.len = head + len)
  (hbound : b.head + b.len < 65536)
include hlow hhigh hbound

theorem ipv4Rx_within_iff : Within (ipv4RxReads s b) head len ↔ ¬Ipv4Overrun s b := by
  have hfits := field_inside hlow hhigh.le
  have hstart : ∀ n ≤ b.len, (⟨b.head, n⟩ : ByteRange).Inside head len :=
    fun n h => hfits 0 n (by omega)
  -- a packet that is not passed on is read no further than its header
  have hstop : ¬Ipv4Passes s b → ¬Ipv4Overrun s b := fun h hover => h hover.1
  unfold ipv4RxReads
  split
  · exact iff_of_true within_nil (hstop fun h => absurd h.1.1 (by omega))
  rw [within_cons, and_iff_right (hstart 1 (by omega))]
  split
  next hbad =>
    refine iff_of_true within_nil (hstop fun h => ?_)
    obtain ⟨-, hversion, hihl, hfit, -⟩ := h.1
    rcases hbad with hbad | hbad | hbad
    · exact hbad hversion
    · exact absurd hihl (not_le.mpr hbad)
    · exact absurd hfit (not_le.mpr hbad)
  rename_i hheader
  obtain ⟨hversion, hihl, hfit⟩ : b.data b.head >>> 4 = 4 ∧ 20 ≤ b.ihl ∧ b.ihl ≤ b.len := by
    simpa only [not_or, not_not, not_lt] using hheader
  rw [within_cons, within_cons, and_iff_right (hfits 10 2 (by omega)),
    and_iff_right (hstart b.ihl hfit)]
  split
  next hsum => exact iff_of_true within_nil (hstop fun h => hsum h.1.2.2.2.2.1)
  rename_i hsum
  rw [within_cons, and_iff_right (hfits 16 4 (by omega))]
  split
  next hus =>
    refine iff_of_true within_nil (hstop fun h => ?_)
    exact absurd (hus.symm.trans h.1.2.2.2.2.2) (by decide)
  rename_i hus
  rw [within_append, and_iff_right (firewallCheck_within s.firewall hlow hhigh.le)]
  split
  next hdrop => exact iff_of_true within_nil (hstop (not_passes_drop hdrop))
  rename_i hdrop
  have hpass : Ipv4Passes s b := by
    refine ⟨⟨by omega, hversion, hihl, hfit, not_not.mp hsum, ?_⟩, hdrop⟩
    simpa using hus
  rw [within_cons, within_cons, and_iff_right (hfits 9 1 (by omega)),
    and_iff_right (hfits 12 4 (by omega))]
  exact ipv4Dispatch_within_iff hpass hlow hhigh hbound

theorem ipv6Transport_within_iff : Within (ipv6TransportReads s b) head len ↔ ¬Ipv6Overrun s b := by
  unfold ipv6TransportReads Ipv6Overrun
  by_cases haccepts : 40 ≤ b.len ∧ ipv6Accepts s b.data b.head
  · have hnot : ¬(b.len < 40 ∨ ¬ipv6Accepts s b.data b.head) := by
      rintro (h | h)
      · omega
      · exact h haccepts.2
    have hhead : b.ipv6Payload.head = b.head + 40 := mod_eq_of_lt (by omega)
    rw [if_neg hnot, and_iff_right haccepts]
    split
    next hproto =>
      rw [tcpRx_within_iff (b.len - 40) (by omega) (by omega), hproto]
      simp
    split
    next hproto =>
      rw [udpRx_within_iff (b.len - 40) (by omega) (by omega), hproto]
      simp
    next htcp hudp => simp [htcp, hudp]
  · have hbad : b.len < 40 ∨ ¬ipv6Accepts s b.data b.head := by
      by_contra hgood
      simp only [not_or, not_not, not_lt] at hgood
      exact haccepts hgood
    rw [if_pos hbad]
    exact iff_of_true within_nil fun h => haccepts h.1

end

theorem ethernetRx_within_iff {i : Nat} (hframe : s.HoldsFrame i) :
    Within (ethernetRxReads s (s.buf i)) (s.buf i).head (s.buf i).len ↔
      ¬FrameOverrun s (s.buf i) := by
  obtain ⟨hhead, hlen, hbound⟩ := hframe.behind
  unfold ethernetRxReads FrameOverrun
  by_cases hshort : (s.buf i).len < 14
  · simp [hshort]
  have hlong : 14 ≤ (s.buf i).len := not_lt.mp hshort
  have htype : (⟨(s.buf i).head + 12, 2⟩ : ByteRange).Inside (s.buf i).head (s.buf i).len :=
    inside_of_le (le_add_right _ _) (show (s.buf i).head + 12 + 2 ≤ _ by omega)
  rw [if_neg hshort, within_cons, and_iff_right htype, and_iff_right hlong]
  split
  next h4 =>
    have hother : ¬ethTypeIpv4 = ethTypeIpv6 := by decide
    rw [ipv4Rx_within_iff (by omega) (by omega) (by omega), h4]
    simp [hother]
  rename_i h4
  split
  next harp =>
    have hother : ¬ethTypeArp = ethTypeIpv6 := by decide
    refine iff_of_true (arpRx_within (by omega) (by omega)) ?_
    rintro (h | h)
    · exact h4 h.1
    · exact hother (harp.symm.trans h.1)
  · split
    next h6 =>
      have hother : ¬ethTypeIpv6 = ethTypeIpv4 := by decide
      rw [ipv6Transport_within_iff (by omega) (by omega) (by omega), h6]
      simp [hother]
    next h6 => simp [h4, h6]

/-! Nothing else counts: what TCP and UDP do with a packet is settled by the bytes listed. -/

def Agree (rs : List ByteRange) (d e : Store) : Prop :=
  ∀ r ∈ rs, ∀ k < r.n, d (r.off + k) = e (r.off + k)

section
variable {rs : List ByteRange} {d e : Store} {a : Nat}

section
variable (h : Agree rs d e)
include h

theorem Agree.bytes {n : Nat} (hmem : ⟨a, n⟩ ∈ rs) : readBytes d a n = readBytes e a n :=
  readBytes_congr fun k hk => h _ hmem k hk

theorem Agree.byte (hmem : ⟨a, 1⟩ ∈ rs) : d a = e a := h _ hmem 0 one_pos

theorem Agree.load16 (hmem : ⟨a, 2⟩ ∈ rs) : loadU16 d a = loadU16 e a := by
  rw [loadU16, loadU16, h.bytes hmem]

theorem Agree.load32 (hmem : ⟨a, 4⟩ ∈ rs) : loadU32 d a = loadU32 e a := by
  rw [loadU32, loadU32, h.bytes hmem]

end

theorem segmentOf_listed
    (h : Agree [⟨b.head, 2⟩, ⟨b.head + 2, 2⟩, ⟨b.head + 4, 4⟩, ⟨b.head + 8, 4⟩, ⟨b.head + 13, 1⟩,
      ⟨b.head + 12, 1⟩] b.data e) : segmentOf { b with data := e } = segmentOf b := by
  simp only [segmentOf]
  rw [h.load16 (a := b.head) (by simp), h.load16 (a := b.head + 2) (by simp),
    h.load32 (a := b.head + 4) (by simp), h.load32 (a := b.head + 8) (by simp),
    h.byte (a := b.head + 13) (by simp), h.byte (a := b.head + 12) (by simp)]

theorem dataInput_listed {k : Fin 128} {g : Segment}
    (h : 0 < payloadLen g b ∧ g.seq = (t.conns k).rcvNxt →
      takenBytes (t.conns k) g { b with data := e } = takenBytes (t.conns k) g b) :
    t.dataInput k g { b with data := e } = t.dataInput k g b := by
  have hlen : payloadLen g { b with data := e } = payloadLen g b := rfl
  have htaken : ∀ b, takenBytes { t.conns k with sndUna := g.ack } g b =
      takenBytes (t.conns k) g b := fun _ => rfl
  unfold Tcp.dataInput
  simp only [hlen, htaken]
  by_cases horder : 0 < payloadLen g b ∧ g.seq = (t.conns k).rcvNxt
  · rw [if_pos horder, if_pos horder, h horder]
  · rw [if_neg horder, if_neg horder]

end

/-- Every read of a received frame is inside the bytes the driver delivered, except for the frames
whose TCP or UDP packet announces more than there is and is copied from. -/
theorem reads_inside_iff (s : Stack) (i : Nat) (hframe : s.HoldsFrame i) :
    (∀ r ∈ ethernetRxReads s (s.buf i), r.Inside (s.buf i).head (s.buf i).len) ↔
      ¬FrameOverrun s (s.buf i) := ethernetRx_within_iff hframe

/-- The datagram of `udpFrame` to the closed port 7 is read no further than it goes. -/
theorem closed_port_read_inside : (framed udpFrame).HoldsFrame 0 ∧
    ∀ r ∈ ethernetRxReads (framed udpFrame) ((framed udpFrame).buf 0), r.Inside 757 42 := by
  have hframe := framed_holds udpFrame (by decide) 0
  refine ⟨hframe, (reads_inside_iff (framed udpFrame) 0 hframe).mpr ?_⟩
  rintro ⟨-, ⟨-, -, ⟨hproto, -⟩ | ⟨-, -, hshort | ⟨hopen, -⟩⟩⟩ | ⟨htype, -⟩⟩
  · exact absurd hproto (by decide +kernel)
  · exact absurd hshort (by decide +kernel)
  · exact absurd hopen (by decide +kernel)
  · exact absurd htype (by decide +kernel)

def lyingFrame : List UInt8 := replicate 12 0xFF ++ [0x08, 0x00] ++
    [0x45, 0, 0, 28, 0, 0, 0, 0, 64, 17, 112, 209, 10, 0, 0, 1, 255, 255, 255, 255] ++
    [0, 9, 0, 7, 0, 100, 0, 0]

def echoServer : Stack :=
  { framed lyingFrame with
    udp := fun k => if k.val = 0 then ⟨7, true, [], 0, 0, false⟩ else quiet.udp k }

/-- The 92 bytes the length field promises are copied to the socket from behind the frame. -/
theorem datagram_read_past_frame : echoServer.HoldsFrame 0 ∧
    ¬∀ r ∈ ethernetRxReads echoServer (echoServer.buf 0),
      r.Inside (echoServer.buf 0).head (echoServer.buf 0).len := by
  have hframe : echoServer.HoldsFrame 0 := ⟨rfl, by decide⟩
  have hpasses : Ipv4Passes echoServer ((echoServer.buf 0).behind 14) :=
    ⟨by decide +kernel, framed_accepts lyingFrame _⟩
  refine ⟨hframe, fun h => (ethernetRx_within_iff hframe).mp h ?_⟩
  exact ⟨by decide +kernel, .inl ⟨by decide +kernel, hpasses,
    .inr ⟨by decide +kernel, by decide +kernel, .inr (by decide +kernel)⟩⟩⟩

end AegisOS.Net
