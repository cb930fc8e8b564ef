import AegisOS.TcpMachine
import AegisOS.Lib.GuardedRun

/-! Stores into packet buffers. `pktbuf_alloc` places the window in the middle of the
data array, so only `pktMaxLen / 2` bytes of payload fit behind it; each function of
the packet path is shown to stay inside the array whenever what it is given fits, and
to give back exactly the buffers it took. -/
namespace AegisOS.Net
open ByteStore List Stack

/-- What an address check or the receive loop reads of the stack. -/
def Stack.env (s : Stack) : Ip6 × Ip6 × List RxElem × Nat × Bool :=
  (s.localIpv6, s.linkLocalIpv6, s.driver.rx, s.driver.queueSize, s.driver.ready)

/-- The pool stays good, held buffers stay held, the environment is untouched. -/
structure Keeps (s t : Stack) : Prop where
  pool : s.pool.Safe t.pool
  env : t.env = s.env

/-- As `Keeps`, but buffer `i` is given back. -/
structure Gives (i : Nat) (s t : Stack) : Prop where
  pool : Pool.Consumes i s.pool t.pool
  env : t.env = s.env

variable {s t u : Stack} {i : Nat}

theorem Keeps.refl (s : Stack) : Keeps s s := ⟨.refl s.pool, rfl⟩

theorem Keeps.trans (h1 : Keeps s t) (h2 : Keeps t u) : Keeps s u :=
  ⟨h1.pool.trans h2.pool, h2.env.trans h1.env⟩

theorem Keeps.gives (h1 : Keeps s t) (h2 : Gives i t u) : Gives i s u :=
  ⟨h1.pool.consumes h2.pool, h2.env.trans h1.env⟩

theorem free_gives (s : Stack) (i : Nat) : Gives i s (s.free i) := ⟨consumes_free, rfl⟩

theorem Gives.after (h : Gives i t u) (hp : s.pool.Safe t.pool) (he : t.env = s.env) :
    Gives i s u := ⟨hp.consumes h.pool, h.env.trans he⟩

theorem setConn_keeps (s : Stack) (k : Fin 128) (c : TcpConn) : Keeps s (s.setConn k c) :=
  ⟨.refl _, rfl⟩

/-! Output. -/

theorem ethernetSend_env (dr : Driver) (frame : List UInt8) : (ethernetSend dr frame).1.rx = dr.rx ∧
      (ethernetSend dr frame).1.queueSize = dr.queueSize ∧
      (ethernetSend dr frame).1.ready = dr.ready := by
  simp only [ethernetSend]
  split
  · exact ⟨rfl, rfl, rfl⟩
  · split <;> exact ⟨rfl, rfl, rfl⟩

theorem ethernetTx_gives (s : Stack) (mac : Mac) (et : UInt16) (i : Nat) :
    Gives i s (ethernetTx s mac et i).1 := by
  simp only [ethernetTx]
  split
  · exact free_gives s i
  rename_i pool hpush
  constructor
  · intro hp hi
    obtain ⟨hsafe, hhead, hlen⟩ := push_some hpush hp
    have hw := (hsafe hp).1.windows i
    have hstore : pool.Safe (pool.storeList i (pool.bufs i).head
        (mac.val ++ s.localMac.val ++ be16 et)) := by
      apply safe_storeList
      have hl : (mac.val ++ s.localMac.val ++ be16 et).length = 14 := by
        simp [mac.property, s.localMac.property]
      omega
    exact (hsafe.trans hstore).consumes consumes_free hp hi
  · simp [env, ethernetSend_env]

theorem length_arpPacket (op : UInt16) (m1 m2 : Mac) (a1 a2 : UInt32) :
    (arpPacket op m1 a1 m2 a2).length = 28 := by
  simp [arpPacket, m1.property, m2.property]

variable {pool : Pool} {data : List UInt8}

theorem keeps_of_alloc (halloc : pktbufAlloc s.pool = (pool, some i))
    (h : (pool.bufs i).head = pktMaxLen / 2 → Gives i { s with pool := pool } t) :
    Keeps s t := by
  have ha := alloc_some halloc
  exact ⟨ha.consumed (h ha.head).pool, (h ha.head).env⟩

theorem keeps_of_noAlloc (halloc : pktbufAlloc s.pool = (pool, none)) :
    Keeps s { s with pool := pool } := ⟨alloc_none halloc, rfl⟩

section
variable (s : Stack) (dst : UInt32) (id seq : UInt16)

theorem arpSend_keeps (op : UInt16) (ip : UInt32) (mac : Mac) :
    Keeps s (arpSend s op ip mac).1 := by
  simp only [arpSend]
  split
  next halloc => exact keeps_of_noAlloc halloc
  rename_i halloc
  refine keeps_of_alloc halloc fun hhead => ?_
  simp only [hhead]
  refine (ethernetTx_gives _ _ _ _).after ?_ rfl
  refine (safe_setWindow (by decide)).trans (safe_storeList ?_)
  rw [length_arpPacket]
  decide

theorem ipv4Output_gives (i : Nat) : Gives i s (ipv4Output s dst i).1 := by
  simp only [ipv4Output]
  split
  · exact ethernetTx_gives ..
  split
  · exact free_gives s i
  split
  · exact (arpSend_keeps ..).gives (free_gives ..)
  · exact ethernetTx_gives ..

theorem length_ipv4Header (n : Nat) (proto : UInt8) (src dst : UInt32)
    (sum : UInt16) : (ipv4Header id n proto src dst sum).length = 20 := by
  simp [ipv4Header]

theorem ipv4Send_keeps (proto : UInt8) {payload : List UInt8}
    (h : payload.length ≤ 737) : Keeps s (ipv4Send s dst proto payload).1 := by
  simp only [ipv4Send]
  split
  · exact .refl s
  split
  next halloc => exact keeps_of_noAlloc halloc
  rename_i halloc
  refine keeps_of_alloc halloc fun hhead => ?_
  have htotal : u16 (20 + payload.length) = 20 + payload.length :=
    u16_of_le (by simp only [pktMaxLen]; omega)
  simp only [hhead, htotal]
  refine (ipv4Output_gives _ _ _).after ?_ rfl
  refine (safe_storeList ?_).trans ((safe_storeList ?_).trans (safe_setWindow ?_))
  · rw [length_ipv4Header]
    decide
  · simp only [pktMaxLen]
    omega
  · simp only [pktMaxLen]
    omega

/-! ICMP. -/

theorem length_icmpMessage (type code : UInt8) (rest : List UInt8) :
    (icmpMessage type code rest).length = 4 + rest.length := by
  simp [icmpMessage]
  omega

theorem safe_restamp {p : Pool} {off : Nat} {x y : List UInt8} (h : off + 2 ≤ pktMaxLen)
    (hx : x.length = 2) (hy : y.length = 2) :
    p.Safe ((p.storeList i off x).storeList i off y) :=
  (safe_storeList (hx ▸ h)).trans (safe_storeList (hy ▸ h))

theorem icmpRx_gives (i : Nat) (src : UInt32) (h : (s.buf i).len ≤ 737) :
    s.pool.Good → Gives i s (icmpRx s i src) := by
  intro hp
  have hw : (s.buf i).head + (s.buf i).len ≤ pktMaxLen := hp.windows i
  simp only [icmpRx]
  split
  · exact free_gives s i
  have hstamp : (s.buf i).head + 2 + 2 ≤ pktMaxLen := by omega
  split
  · exact (free_gives _ i).after (safe_restamp hstamp rfl (length_bytes16 _)) rfl
  split
  · refine ((ipv4Send_keeps _ _ _ ?_).gives (free_gives _ i)).after
      (safe_restamp hstamp rfl (length_bytes16 _)) rfl
    rw [length_icmpMessage, length_readBytes]
    omega
  · exact (free_gives _ i).after (safe_restamp hstamp rfl (length_bytes16 _)) rfl

theorem icmpSendEchoRequest_keeps : Keeps s (icmpSendEchoRequest s dst id seq).1 := by
  apply ipv4Send_keeps
  simp [length_icmpMessage]

theorem icmpSendDestUnreachable_keeps (code : UInt8)
    (orig : List UInt8) : Keeps s (icmpSendDestUnreachable s dst code orig).1 := by
  apply ipv4Send_keeps
  simp only [length_icmpMessage, length_append, length_cons, length_nil, length_take]
  omega

/-! TCP and UDP. -/

theorem length_tcpSegment (c : TcpConn) (flags : UInt8) (data : List UInt8) :
    (tcpSegment c flags data).length = 20 + data.length := by
  simp [tcpSegment, tcpHeader]
  omega

theorem tcpSendSegment_keeps (k : Fin 128) (flags : UInt8)
    (h : data.length ≤ 717) : Keeps s (tcpSendSegment s k flags data).1 := by
  refine (setConn_keeps s k _).trans (ipv4Send_keeps _ _ _ ?_)
  rw [length_tcpSegment]
  omega

theorem handOn_keeps {out : List Outgoing} (h : ∀ o ∈ out, o.data = []) :
    Keeps s (s.handOn out) := by
  induction out generalizing s with
  | nil => exact .refl s
  | cons o out ih =>
    refine Keeps.trans (ipv4Send_keeps s _ 6 ?_) (ih _ fun o' ho => h o' (.tail o ho))
    rw [length_tcpSegment, h o (.head out)]
    decide

/-- Whatever TCP does, if the segments it hands on carry no data. -/
theorem reacted_keeps {r : Tcp × List Outgoing} (h : ∀ o ∈ r.2, o.data = []) :
    Keeps s (s.reacted r) := by
  have htcp : Keeps s { s with tcp := r.1 } := ⟨.refl _, rfl⟩
  exact htcp.trans (handOn_keeps _ h)

end

section
variable (s : Stack) (k : Fin 128) (b : Pktbuf)

theorem tcpRx_gives (i : Nat) (src : UInt32) : Gives i s (tcpRx s i src) := by
  rw [tcpRx_runs]
  refine (reacted_keeps s ?_).gives (free_gives _ i)
  rcases rx_cases s.tcp s.localIp (s.buf i) src with
    heq | ⟨l, k, -, -, -, -, heq⟩ | ⟨k, c, acked, -, -, -, heq⟩
  · simp [heq]
  · simp [heq]
  · cases acked <;> simp [heq]

theorem udpRx_gives (i : Nat) (src : UInt32) : Gives i s (udpRx s i src) := by
  simp only [udpRx]
  split
  · exact free_gives s i
  split
  · exact (free_gives _ i).after (.refl _) rfl
  · exact free_gives s i

theorem udpSend_keeps (dst : UInt32) (dport sport : UInt16)
    (h : data.length ≤ 729) : Keeps s (udpSend s dst dport sport data).1 := by
  simp only [udpSend]
  split
  · exact .refl s
  apply ipv4Send_keeps
  have htotal : u16 (8 + data.length) = 8 + data.length :=
    u16_of_le (by simp only [pktMaxLen]; omega)
  rw [length_take]
  omega

theorem tcpConnect_keeps (ip : UInt32) (port : UInt16) : Keeps s (tcpConnect s ip port).1 := by
  simp only [tcpConnect_runs]
  refine reacted_keeps s ?_
  unfold Tcp.connect
  cases s.tcp.alloc with
  | none | some => simp [Tcp.emit]

theorem tcpSendLoop_keeps (data : List UInt8) (h : data.length ≤ 717) :
    Keeps s (tcpSendLoop s k data) := by
  fun_induction tcpSendLoop s k data with
  | case1 s => exact .refl s
  | case2 s data hne ih =>
    refine (tcpSendSegment_keeps _ _ _ ?_).trans (ih ?_)
    · simp only [length_take]
      omega
    · simp only [length_drop]
      omega

theorem tcpSendIdLoop_keeps (data : List UInt8)
    (h : data.length ≤ 717) : Keeps s (tcpSendIdLoop s k data).1 := by
  have htake (d : List UInt8) (hd : d.length ≤ 717) : (d.take tcpMss).length ≤ 717 := by
    simp only [length_take]
    omega
  fun_induction tcpSendIdLoop s k data with
  | case1 s => exact .refl s
  | case2 s data hne sent hok ih =>
    refine (tcpSendSegment_keeps _ _ _ (htake data h)).trans (ih ?_)
    simp only [length_drop]
    omega
  | case3 s data hne sent hfail => exact tcpSendSegment_keeps _ _ _ (htake data h)

theorem tcpSend_keeps (lport : UInt16) (ip : UInt32) (rport : UInt16)
    (h : data.length ≤ 717) : Keeps s (tcpSend s lport ip rport data).1 := by
  unfold tcpSend
  cases tcpFindConn s.tcp ip rport lport with
  | none => exact .refl s
  | some k =>
    dsimp only
    split
    · exact tcpSendLoop_keeps s k data h
    · exact .refl s

theorem tcpSendId_keeps (id : Int) (h : data.length ≤ 717) : Keeps s (tcpSendId s id data).1 := by
  simp only [tcpSendId]
  split
  · exact .refl s
  split
  · exact .refl s
  · exact tcpSendIdLoop_keeps s _ data h

theorem closeConn_bare (t : Tcp) : ∀ o ∈ (t.closeConn k).2, o.data = [] := by
  unfold Tcp.closeConn
  dsimp only
  split <;> simp [Tcp.emit]

theorem tcpCloseConn_keeps : Keeps s (tcpCloseConn s k).1 := by
  rw [tcpCloseConn_runs]
  exact reacted_keeps s (closeConn_bare k s.tcp)

theorem tcpClose_keeps (lport : UInt16) (ip : UInt32) (rport : UInt16) :
    Keeps s (tcpClose s lport ip rport).1 := by
  unfold tcpClose
  cases tcpFindConn s.tcp ip rport lport with
  | none => exact .refl s
  | some k => exact tcpCloseConn_keeps s k

theorem tcpCloseId_keeps (id : Int) : Keeps s (tcpCloseId s id).1 := by
  rw [tcpCloseId_runs]
  refine reacted_keeps s ?_
  unfold Tcp.close
  split
  · simp
  dsimp only
  split_ifs
  · simp
  · simp
  · exact closeConn_bare _ s.tcp

theorem udpUnbind_keeps (id : Int) : Keeps s (udpUnbind s id) := by
  simp only [udpUnbind]
  split <;> exact ⟨.refl _, rfl⟩

/-! Input. -/

theorem ipv4Dispatch_gives (i : Nat) (proto : UInt8) (src : UInt32)
    (h : (s.buf i).len ≤ 737) (hp : s.pool.Good) : Gives i s (ipv4Dispatch s i proto src) := by
  simp only [ipv4Dispatch]
  split
  · exact icmpRx_gives s i src h hp
  split
  · exact tcpRx_gives s i src
  split
  · exact udpRx_gives s i src
  · exact free_gives s i

/-- The window behind a header of `ihl` bytes has the same end. -/
theorem ipv4Accept_gives (i ihl : Nat) (h : (s.buf i).len ≤ 757)
    (hihl : 20 ≤ ihl) (hlen : ihl ≤ (s.buf i).len) (hp : s.pool.Good) :
    Gives i s (ipv4Accept s i ihl) := by
  have hw : (s.buf i).head + (s.buf i).len ≤ pktMaxLen := hp.windows i
  have hstamp : s.pool.Safe ((s.pool.storeList i ((s.buf i).head + 10) [0, 0]).storeList i
      ((s.buf i).head + 10) (bytes16 (loadU16 (s.buf i).data ((s.buf i).head + 10)))) :=
    safe_restamp (by omega) rfl (length_bytes16 _)
  simp only [ipv4Accept]
  split
  · exact (free_gives _ i).after hstamp rfl
  split
  · exact (free_gives _ i).after hstamp rfl
  split
  · exact (free_gives _ i).after hstamp rfl
  simp only [buf, storeList_head, storeList_len]
  have hhead : u16 ((s.pool.bufs i).head + ihl) = (s.buf i).head + ihl :=
    u16_of_le (by simp only [buf] at *; omega)
  have hrest : u16 ((s.pool.bufs i).len - ihl) = (s.buf i).len - ihl :=
    u16_of_le (by simp only [buf] at *; omega)
  rw [hhead, hrest]
  have hsafe := hstamp.trans
    (safe_setWindow (i := i) (show (s.buf i).head + ihl + ((s.buf i).len - ihl) ≤ pktMaxLen by
      omega))
  refine (ipv4Dispatch_gives _ i _ _ ?_ ?_).after hsafe rfl
  · simp only [buf, setWindow_self]
    simp only [buf] at h
    omega
  · exact (hsafe hp).1

theorem ipv4Rx_gives (i : Nat) (h : (s.buf i).len ≤ 757) (hp : s.pool.Good) :
    Gives i s (ipv4Rx s i) := by
  simp only [ipv4Rx]
  split
  · exact free_gives s i
  split
  · exact free_gives s i
  split
  · exact free_gives s i
  · exact ipv4Accept_gives s i _ h (by omega) (by omega) hp

theorem arpRx_gives (i : Nat) : Gives i s (arpRx s i) := by
  simp only [arpRx]
  split
  · exact free_gives s i
  split
  · exact ((arpSend_keeps ..).gives (free_gives _ i)).after (.refl _) rfl
  · exact (free_gives _ i).after (.refl _) rfl

theorem icmpv6EchoReply_keeps (h : b.len ≤ 757) : Keeps s (icmpv6EchoReply s b) := by
  simp only [icmpv6EchoReply]
  split
  next halloc => exact keeps_of_noAlloc halloc
  rename_i halloc
  refine keeps_of_alloc halloc fun hhead => ?_
  have hcopy : pktMaxLen / 2 + min b.len pktMaxLen ≤ pktMaxLen := by
    simp only [pktMaxLen]
    omega
  simp only [hhead]
  refine (ethernetTx_gives _ _ _ _).after ?_ rfl
  exact (safe_storeAt hcopy).trans ((safe_setWindow hcopy).trans
    ((safe_storeList (by decide)).trans (safe_storeList (by decide))))

theorem icmpv6Handle_gives (i : Nat) (src : Ip6) (h : (s.buf i).len ≤ 757) :
    Gives i s (icmpv6Handle s i src) := by
  simp only [icmpv6Handle]
  split
  · exact free_gives s i
  split
  · exact (icmpv6EchoReply_keeps s _ h).gives (free_gives _ i)
  split
  · split
    · exact (free_gives _ i).after (.refl _) rfl
    · exact free_gives s i
  split
  · split
    · exact (free_gives _ i).after (.refl _) rfl
    · exact free_gives s i
  · exact free_gives s i

/-- The length field of an accepted IPv6 packet at offset `off` of `d` leaves its
window, moved to `head`, inside the array. -/
def Ipv6Fits (s : Stack) (head : Nat) (d : Store) (off : Nat) : Prop :=
  ipv6Accepts s d off →
    head + 40 + ipv6PayloadLen d off ≤ pktMaxLen ∧ ipv6PayloadLen d off ≤ pktMaxLen / 2

theorem ipv6Rx_gives (i : Nat)
    (h : 40 ≤ (s.buf i).len → Ipv6Fits s (s.buf i).head (s.buf i).data (s.buf i).head) :
    Gives i s (ipv6Rx s i) := by
  simp only [ipv6Rx]
  split
  · exact free_gives s i
  split
  · exact free_gives s i
  rename_i hlen hacc
  obtain ⟨hend, hhalf⟩ := h (by omega) (by simpa using hacc)
  have hhead : u16 ((s.buf i).head + 40) = (s.buf i).head + 40 := u16_of_le (by omega)
  rw [hhead]
  have hsafe : s.pool.Safe (s.pool.setWindow i ((s.buf i).head + 40)
      (ipv6PayloadLen (s.buf i).data (s.buf i).head)) := safe_setWindow hend
  split
  · exact (tcpRx_gives _ i _).after hsafe rfl
  split
  · exact (udpRx_gives _ i _).after hsafe rfl
  split
  · refine (icmpv6Handle_gives _ i _ ?_).after hsafe rfl
    simp only [buf, setWindow_self]
    exact hhalf
  · exact (free_gives _ i).after hsafe rfl

/-- A frame of `len` bytes at offset `off` of `d` that the stack can take in a window
starting at `head`. -/
structure FrameFits (s : Stack) (head len : Nat) (d : Store) (off : Nat) : Prop where
  short : len ≤ pktMaxLen / 2
  ipv6 : bswap16 (loadU16 d (off + 12)) = ethTypeIpv6 → 54 ≤ len →
    Ipv6Fits s (head + 14) d (off + 14)

theorem ethernetRx_gives (i : Nat)
    (h : FrameFits s (s.buf i).head (s.buf i).len (s.buf i).data (s.buf i).head)
    (hp : s.pool.Good) : Gives i s (ethernetRx s i) := by
  have hshort : (s.buf i).len ≤ 757 := h.short
  simp only [ethernetRx]
  split
  · exact free_gives s i
  rename_i pool hpull
  obtain ⟨hsafe, hhead, hlen⟩ := pull_some hpull hp
  have hdata : (pool.bufs i).data = (s.buf i).data := by
    simp only [pktbufPull] at hpull
    split at hpull
    · simp at hpull
    · rw [← Option.some.inj hpull]
      simp [buf]
  split
  · refine (ipv4Rx_gives _ i ?_ ?_).after hsafe rfl
    · simp only [buf] at *
      omega
    · exact (hsafe hp).1
  split
  · exact (arpRx_gives _ i).after hsafe rfl
  split
  next het =>
    refine (ipv6Rx_gives _ i ?_).after hsafe rfl
    intro h40
    simp only [buf, hhead] at *
    rw [hdata]
    exact h.ipv6 (by simpa using het) (by omega)
  · exact (free_gives _ i).after hsafe rfl

end

/-! Runs of the network stack: the receive poll, the socket calls and the theorem that
no store into a packet buffer leaves its data array as long as every frame and every
payload fits behind the middle of a buffer. -/
open GuardedRun Nat

variable {s t : Stack}

/-! The receive poll. -/

/-- The addresses `ipv6_rx` compares with. -/
def Stack.addrs (s : Stack) : Ip6 × Ip6 := (s.localIpv6, s.linkLocalIpv6)

variable {d e : Store} {a b len : Nat}

theorem ipv6Accepts_congr (h : t.addrs = s.addrs) (hread : ∀ k, k < 40 → d (a + k) = e (b + k)) :
    ipv6Accepts t d a ↔ ipv6Accepts s e b := by
  simp only [Stack.addrs, Prod.mk.injEq] at h
  have hfirst : loadU32 d a = loadU32 e b := by
    rw [loadU32, loadU32, readBytes_congr fun k hk => hread k (by omega)]
  have hdst : loadBytes d (a + 24) 16 = loadBytes e (b + 24) 16 := by
    apply Subtype.ext
    apply readBytes_congr
    intro k hk
    rw [add_assoc, add_assoc, hread (24 + k) (by omega)]
  simp only [ipv6Accepts, hfirst, hdst, h.1, h.2, hread 24 (by omega)]

theorem ipv6PayloadLen_congr (hread : ∀ k, k < 40 → d (a + k) = e (b + k)) :
    ipv6PayloadLen d a = ipv6PayloadLen e b := by
  have hload : loadU16 d (a + 4) = loadU16 e (b + 4) := by
    rw [loadU16, loadU16, readBytes_congr]
    intro k hk
    rw [add_assoc, add_assoc, hread (4 + k) (by omega)]
  rw [ipv6PayloadLen, ipv6PayloadLen, hload]

theorem FrameFits.copied {head : Nat} (h : FrameFits s head len e b)
    (haddr : t.addrs = s.addrs) (hread : ∀ k, k < len → d (a + k) = e (b + k)) :
    FrameFits t head len d a := by
  refine ⟨h.short, ?_⟩
  intro het h54
  have htype : loadU16 d (a + 12) = loadU16 e (b + 12) := by
    rw [loadU16, loadU16, readBytes_congr]
    intro k hk
    rw [add_assoc, add_assoc, hread (12 + k) (by omega)]
  have hread' : ∀ k, k < 40 → d (a + 14 + k) = e (b + 14 + k) := by
    intro k hk
    rw [add_assoc, add_assoc, hread (14 + k) (by omega)]
  have hfit := h.ipv6 (htype ▸ het) h54
  simp only [Ipv6Fits] at hfit ⊢
  rw [ipv6Accepts_congr haddr hread', ipv6PayloadLen_congr hread']
  exact hfit

/-- The frame the driver would hand over for a ring element fits. -/
def ElemFits (s : Stack) (e : RxElem) : Prop :=
  e.id < s.driver.queueSize → 12 ≤ e.total →
    FrameFits s (pktMaxLen / 2) (min (e.total - 12) frameMax) e.bytes 0

theorem ElemFits.congr (haddr : t.addrs = s.addrs)
    (hsize : t.driver.queueSize = s.driver.queueSize) {e : RxElem} (h : ElemFits s e) :
    ElemFits t e := by
  intro hid htotal
  have hs := h (hsize ▸ hid) htotal
  refine ⟨hs.short, fun het h54 => ?_⟩
  have hfit := hs.ipv6 het h54
  simp only [Ipv6Fits] at hfit ⊢
  rw [ipv6Accepts_congr haddr (fun k _ => rfl)]
  exact hfit

theorem ethernetRecv_ok {dr dr' : Driver} {bytes : Store}
    (h : ethernetRecv dr = (dr', .ok (bytes, len))) :
    ∃ e rest, dr.rx = e :: rest ∧ e.id < dr.queueSize ∧ 12 ≤ e.total ∧
      dr' = { dr with rx := rest } ∧ bytes = e.bytes ∧ len = min (e.total - 12) frameMax := by
  unfold ethernetRecv at h
  split at h
  · simp at h
  cases hrx : dr.rx with
  | nil => simp [hrx] at h
  | cons e rest =>
    simp only [hrx] at h
    split at h
    · simp at h
    next hbad =>
      obtain ⟨rfl, rfl, rfl⟩ := h
      exact ⟨e, rest, rfl, by omega, by omega, rfl, rfl, rfl⟩

theorem blit_read {f : Store} {m n k : Nat} (hk : k < n) : blit d m n f (m + k) = f (0 + k) := by
  rw [blit_inside (by omega) (by omega)]
  congr 1
  omega

/-- What a round that does not end the loop leaves for the next one. -/
structure Polled (s t : Stack) : Prop where
  addrs : t.addrs = s.addrs
  queueSize : t.driver.queueSize = s.driver.queueSize
  rx : t.driver.rx = s.driver.rx.tail

theorem Polled.of_env {r : Stack} (h : t.env = r.env) (hr : Polled s r) : Polled s t := by
  simp only [Stack.env, Prod.mk.injEq] at h
  refine ⟨.trans ?_ hr.addrs, h.2.2.2.1.trans hr.queueSize, h.2.2.1.trans hr.rx⟩
  rw [Stack.addrs, Stack.addrs, h.1, h.2.1]

theorem pollReceive_spec {i : Nat} (hp : s.pool.Good) (hhead : (s.buf i).head = pktMaxLen / 2)
    (h : ∀ e rest, s.driver.rx = e :: rest → ElemFits s e) :
    Pool.Consumes i s.pool (pollReceive s i).1.pool ∧
      ((pollReceive s i).2 = true → Polled s (pollReceive s i).1) := by
  unfold pollReceive
  cases hrecv : ethernetRecv s.driver with
  | mk driver res =>
    cases res with
    | error e => exact ⟨consumes_free, by simp⟩
    | ok frame =>
      obtain ⟨bytes, len⟩ := frame
      obtain ⟨e, rest, hrx, hid, htotal, hdriver, hbytes, hlen⟩ := ethernetRecv_ok hrecv
      have hfit := h e rest hrx hid htotal
      rw [← hbytes, ← hlen] at hfit
      have hend : pktMaxLen / 2 + len ≤ pktMaxLen := by
        have := hfit.short
        omega
      rw [hhead]
      have hsafe : s.pool.Safe
          ((s.pool.storeAt i (pktMaxLen / 2) len bytes).setWindow i (pktMaxLen / 2) len) :=
        (safe_storeAt hend).trans (safe_setWindow hend)
      have hframe : FrameFits s (pktMaxLen / 2) len
          (blit (s.buf i).data (pktMaxLen / 2) len bytes) (pktMaxLen / 2) :=
        hfit.copied rfl fun k hk => blit_read hk
      have hgive := ethernetRx_gives { s with
        driver := driver
        pool := (s.pool.storeAt i (pktMaxLen / 2) len bytes).setWindow i (pktMaxLen / 2) len } i
        (by
          simp only [Stack.buf, setWindow_self, Pool.storeAt, Function.update_self]
          exact ⟨hframe.short, hframe.ipv6⟩)
        (hsafe hp).1
      refine ⟨hsafe.consumes hgive.pool, fun _ => ?_⟩
      exact .of_env hgive.env ⟨rfl, by rw [hdriver], by rw [hdriver, hrx, tail_cons]⟩

theorem pollOnce_spec (hp : s.pool.Good)
    (h : ∀ e rest, s.driver.rx = e :: rest → ElemFits s e) :
    s.pool.Safe (pollOnce s).1.pool ∧ ((pollOnce s).2 = true → Polled s (pollOnce s).1) := by
  unfold pollOnce
  cases halloc : pktbufAlloc s.pool with
  | mk pool got =>
    cases got with
    | none => exact ⟨alloc_none halloc, by simp⟩
    | some i =>
      have ha := alloc_some halloc
      obtain ⟨hpool, hnext⟩ := pollReceive_spec (s := { s with pool := pool }) (ha.safe hp).1
        ha.head (fun e rest hrx => by refine .congr ?_ ?_ (h e rest hrx) <;> rfl)
      exact ⟨ha.consumed hpool, fun hgo => ⟨(hnext hgo).addrs, (hnext hgo).queueSize,
        (hnext hgo).rx⟩⟩

theorem pollLoop_safe (n : Nat) (s : Stack) (h : ∀ e ∈ s.driver.rx.take n, ElemFits s e) :
    s.pool.Safe (pollLoop n s).pool := by
  induction n generalizing s with
  | zero => exact .refl _
  | succ n ih =>
    intro hp
    obtain ⟨hsafe, hnext⟩ := pollOnce_spec hp fun e rest hrx => h e (by simp [hrx])
    simp only [pollLoop]
    split
    next hgo =>
      refine hsafe.trans (ih _ fun e he => ?_) hp
      have hpolled := hnext hgo
      refine (h e ?_).congr hpolled.addrs hpolled.queueSize
      rw [hpolled.rx] at he
      cases hrx : s.driver.rx with
      | nil => simp [hrx] at he
      | cons x xs =>
        simp only [hrx, tail_cons] at he
        simp [he]
    · exact hsafe hp

theorem networkPoll_safe (h : ∀ e ∈ s.driver.rx.take 32, ElemFits s e) :
    s.pool.Safe (networkPoll s).pool := pollLoop_safe 32 s h

/-! Sockets. -/

section
variable (s : Stack) (owner : Nat) (fd : Int) (ip : UInt32) (port : UInt16)

@[simp] theorem setSocket_pool (n : Fin 64) (k : Socket) : (s.setSocket n k).pool = s.pool := rfl

theorem noteConnected_pool (n : Fin 64) : (noteConnected s n).pool = s.pool := by
  simp only [noteConnected]
  split <;> rfl

theorem netSocketCreate_pool (type : Nat) : (netSocketCreate s owner type).1.pool = s.pool := by
  unfold netSocketCreate
  cases sockTypeOf type with
  | none => rfl
  | some t =>
    dsimp only
    split
    · rfl
    · cases Fin.find? fun n => !(s.sockets n).used with
      | none | some => rfl

theorem closeTransport_keeps (k : Socket) : Keeps s (closeTransport s k) := by
  simp only [closeTransport]
  split
  · exact .refl s
  split
  · exact udpUnbind_keeps ..
  · exact tcpCloseId_keeps ..

theorem closeSocket_safe (n : Fin 64) : s.pool.Safe (closeSocket s n).pool := by
  have hpool : (closeSocket s n).pool = (closeTransport s (s.sockets n)).pool := by
    simp only [closeSocket]
    split <;> split <;> rfl
  exact hpool ▸ (closeTransport_keeps s _).pool

theorem netSocketClose_safe : s.pool.Safe (netSocketClose s owner fd).1.pool := by
  unfold netSocketClose
  cases socketLookup s owner fd with
  | none => exact .refl _
  | some n => exact closeSocket_safe s n

theorem netSocketCloseAll_safe : s.pool.Safe (netSocketCloseAll s owner).pool := by
  unfold netSocketCloseAll
  generalize finRange 64 = ns
  induction ns generalizing s with
  | nil => exact .refl _
  | cons n ns ih =>
    rw [foldl_cons]
    refine Pool.Safe.trans ?_ (ih _)
    split
    · exact closeSocket_safe s n
    · exact .refl _

theorem netSocketBind_pool : (netSocketBind s owner fd port).1.pool = s.pool := by
  have hbound : (udpBind s port).1.pool = s.pool := by
    unfold udpBind
    split <;> rfl
  unfold netSocketBind
  cases socketLookup s owner fd with
  | none => rfl
  | some n =>
    dsimp only
    split
    · rfl
    split
    · rfl
    cases (s.sockets n).type with
    | stream => rfl
    | dgram => exact hbound

theorem tcpListen_pool : (tcpListen s port).1.pool = s.pool := by
  unfold tcpListen tcpAllocConn
  cases Fin.find? fun k => !(s.tcp.conns k).active with
  | none | some => rfl

theorem netSocketListen_pool : (netSocketListen s owner fd).1.pool = s.pool := by
  unfold netSocketListen
  cases socketLookup s owner fd with
  | none => rfl
  | some n =>
    dsimp only
    split
    · rfl
    · split <;> rw [setSocket_pool, tcpListen_pool]

theorem tcpAccept_pool (id : Int) : (tcpAccept s id).1.pool = s.pool := by
  rw [tcpAccept_runs]

theorem netSocketAccept_pool : (netSocketAccept s owner fd).1.pool =
    match socketLookup s owner fd with
    | none => s.pool
    | some n => if (s.sockets n).listening = false then s.pool else (networkPoll s).pool := by
  unfold netSocketAccept
  cases socketLookup s owner fd with
  | none => rfl
  | some n =>
    have haccept := tcpAccept_pool (networkPoll s) (s.sockets n).transportId
    have hcreate := (netSocketCreate_pool
      (tcpAccept (networkPoll s) (s.sockets n).transportId).1 owner 1).trans haccept
    dsimp only
    split
    · rfl
    split
    · exact haccept
    split
    · exact hcreate
    · split <;> exact hcreate

theorem netSocketAccept_safe (h : ∀ e ∈ s.driver.rx.take 32, ElemFits s e) :
    s.pool.Safe (netSocketAccept s owner fd).1.pool := by
  rw [netSocketAccept_pool]
  cases socketLookup s owner fd with
  | none => exact .refl _
  | some n =>
    dsimp only
    split
    · exact .refl _
    · exact networkPoll_safe h

theorem netSocketConnect_safe : s.pool.Safe (netSocketConnect s owner fd ip port).1.pool := by
  unfold netSocketConnect
  cases socketLookup s owner fd with
  | none => exact .refl _
  | some n =>
    dsimp only
    split
    · exact .refl _
    split
    all_goals
      rw [setSocket_pool]
      exact (tcpConnect_keeps s ip port).pool

/-- The payload a socket's protocol can put behind the middle of a buffer. -/
def sockRoom : SockType → Nat
  | .stream => 717
  | .dgram => 729

theorem netSocketSend_safe (data : List UInt8)
    (h : ∀ n, socketLookup s owner fd = some n → data.length ≤ sockRoom (s.sockets n).type) :
    s.pool.Safe (netSocketSend s owner fd data).1.pool := by
  unfold netSocketSend
  cases hfound : socketLookup s owner fd with
  | none => exact .refl _
  | some n =>
    have hroom := h n hfound
    dsimp only
    split
    · exact .refl _
    cases htype : (s.sockets n).type with
    | dgram =>
      rw [htype] at hroom
      dsimp only
      split
      · exact .refl _
      · exact (udpSend_keeps s _ _ _ hroom).pool
    | stream =>
      rw [htype] at hroom
      rw [← noteConnected_pool s n]
      exact (tcpSendId_keeps _ _ hroom).pool

theorem udpRecv_pool (id : Int) (n : Nat) : (udpRecv s id n).1.pool = s.pool := by
  unfold udpRecv
  split
  · rfl
  · dsimp only
    split <;> rfl

theorem tcpRecvId_pool (id : Int) (n : Nat) : (tcpRecvId s id n).1.pool = s.pool := by
  rw [tcpRecvId_runs]

theorem netSocketRecv_pool (len : Nat) : (netSocketRecv s owner fd len).1.pool =
    match socketLookup s owner fd with
    | none => s.pool
    | some _ => if len = 0 then s.pool else (networkPoll s).pool := by
  unfold netSocketRecv
  cases socketLookup s owner fd with
  | none => rfl
  | some n =>
    dsimp only
    split
    · rfl
    cases ((networkPoll s).sockets n).type with
    | dgram =>
      have hread := udpRecv_pool (networkPoll s) ((networkPoll s).sockets n).transportId
        (min len 65535)
      generalize udpRecv _ _ _ = got at hread ⊢
      rcases got with ⟨t, _ | _⟩ <;> exact hread
    | stream =>
      have hread := tcpRecvId_pool (networkPoll s) ((networkPoll s).sockets n).transportId
        (min len 65535)
      generalize tcpRecvId _ _ _ = got at hread ⊢
      rcases got with ⟨t, _ | _⟩ <;> exact hread

theorem netSocketRecv_safe (len : Nat) (h : ∀ e ∈ s.driver.rx.take 32, ElemFits s e) :
    s.pool.Safe (netSocketRecv s owner fd len).1.pool := by
  rw [netSocketRecv_pool]
  cases socketLookup s owner fd with
  | none => exact .refl _
  | some n =>
    dsimp only
    split
    · exact .refl _
    · exact networkPoll_safe h

end

/-! Runs. -/

/-- What keeps a call inside the buffers: frames of at most half a buffer whose IPv6
length field does not reach past it, payloads that fit behind the middle with their
headers, and buffers that the caller holds. -/
def Fits (s : Stack) : Event → Prop
  | .poll => ∀ e ∈ s.driver.rx.take 32, ElemFits s e
  | .accept _ _ => ∀ e ∈ s.driver.rx.take 32, ElemFits s e
  | .recv _ _ _ => ∀ e ∈ s.driver.rx.take 32, ElemFits s e
  | .push i _ => s.pool.Holds i
  | .pull i _ => s.pool.Holds i
  | .free i => s.pool.Holds i
  | .ethernetTx _ _ i => s.pool.Holds i
  | .ethernetRx i =>
    s.pool.Holds i ∧ FrameFits s (s.buf i).head (s.buf i).len (s.buf i).data (s.buf i).head
  | .ipv4Send _ _ payload => payload.length ≤ 737
  | .udpSend _ _ _ data => data.length ≤ 729
  | .tcpSend _ _ _ data => data.length ≤ 717
  | .send owner fd data =>
    ∀ n, socketLookup s owner fd = some n → data.length ≤ sockRoom (s.sockets n).type
  | _ => True

theorem good_withPool {q : Option Pool} (h : ∀ p, q = some p → p.Good) (hp : s.pool.Good) :
    (s.withPool q).pool.Good := by
  cases q with
  | none => exact hp
  | some p => exact h p rfl

theorem perform_good (e : Event) (hok : Fits s e) (hp : s.pool.Good) : (perform s e).pool.Good := by
  cases e with
  | poll => exact (networkPoll_safe hok hp).1
  | alloc =>
    cases halloc : pktbufAlloc s.pool with
    | mk pool got =>
      simp only [perform, halloc]
      cases got with
      | none => exact (alloc_none halloc hp).1
      | some i => exact ((alloc_some halloc).safe hp).1
  | push i n => exact good_withPool (fun p hpush => ((push_some hpush hp).1 hp).1) hp
  | pull i n => exact good_withPool (fun p hpull => ((pull_some hpull hp).1 hp).1) hp
  | free i => exact (consumes_free hp hok).1
  | ethernetRx i => exact ((ethernetRx_gives s i hok.2 hp).pool hp hok.1).1
  | ethernetTx mac et i => exact ((ethernetTx_gives s mac et i).pool hp hok).1
  | arpRequest ip => exact ((arpSend_keeps s _ _ _).pool hp).1
  | ipv4Send dst proto payload => exact ((ipv4Send_keeps s dst proto hok).pool hp).1
  | echoRequest dst id seq => exact ((icmpSendEchoRequest_keeps s dst id seq).pool hp).1
  | destUnreachable dst code orig =>
    exact ((icmpSendDestUnreachable_keeps s dst code orig).pool hp).1
  | udpSend dst dport sport data => exact ((udpSend_keeps s dst dport sport hok).pool hp).1
  | tcpSend lport ip rport data =>
    simp only [perform]
    exact ((tcpSend_keeps s lport ip rport hok).pool hp).1
  | tcpClose lport ip rport =>
    simp only [perform]
    exact ((tcpClose_keeps s lport ip rport).pool hp).1
  | create owner type =>
    have hpool : (perform s (.create owner type)).pool = s.pool := netSocketCreate_pool s owner type
    exact hpool ▸ hp
  | bind owner fd port =>
    have hpool : (perform s (.bind owner fd port)).pool = s.pool :=
      netSocketBind_pool s owner fd port
    exact hpool ▸ hp
  | listen owner fd =>
    have hpool : (perform s (.listen owner fd)).pool = s.pool := netSocketListen_pool s owner fd
    exact hpool ▸ hp
  | accept owner fd => exact (netSocketAccept_safe s owner fd hok hp).1
  | connect owner fd ip port => exact (netSocketConnect_safe s owner fd ip port hp).1
  | send owner fd data => exact (netSocketSend_safe s owner fd data hok hp).1
  | recv owner fd len => exact (netSocketRecv_safe s owner fd len hok hp).1
  | close owner fd => exact (netSocketClose_safe s owner fd hp).1
  | closeAll owner => exact (netSocketCloseAll_safe s owner hp).1
  | device | setAddr | setAddr6 | routeAdd | routeDel | routeSetDefault | ruleAdd => exact hp
  | ruleDel | ruleFlush => exact hp

theorem run_good {es : List Event} (h : Run step Fits s es t) (hp : s.pool.Good) :
    t.pool.Good := by
  refine h.invariant (I := fun s => s.pool.Good) ?_ hp
  intro s e s' hp hok hstep
  rw [← Option.some.inj hstep]
  exact perform_good e hok hp

/-- From the unused pool, whatever the tables hold: in every run whose frames and
payloads fit, every byte ever stored in a packet buffer and every window a buffer was
given lies inside its data array. -/
theorem packet_stores_inside (s t : Stack) (es : List Event) (hstart : s.pool = .start)
    (h : Run step Fits s es t) :
    (∀ a ∈ t.pool.history, a.Inside) ∧
      ∀ i, t.pool.Holds i → (t.buf i).head + (t.buf i).len ≤ pktMaxLen := by
  have hgood := run_good h (hstart ▸ good_start)
  exact ⟨hgood.inside, fun i _ => hgood.windows i⟩

/-- A ring element with an all-zero frame of `n` bytes. -/
def zeroFrame (n : Nat) : RxElem := ⟨0, 12 + n, fun _ => 0⟩

theorem zeroFrame_fits (s : Stack) (n : Nat) (h : n ≤ pktMaxLen / 2) :
    ElemFits s (zeroFrame n) := by
  intro _ _
  have hzero : bswap16 (loadU16 (fun _ => 0) 12) ≠ ethTypeIpv6 := by decide
  refine ⟨?_, fun het => absurd het hzero⟩
  simp only [zeroFrame]
  omega

theorem packet_stores_inside_broadcast : ∃ t, Run step Fits quiet
        [.device [zeroFrame 60] [], .poll, .udpSend 0xFFFFFFFF 67 68 [1, 2, 3], .alloc] t ∧
      (∀ a ∈ t.pool.history, a.Inside) ∧
      ∀ i, t.pool.Holds i → (t.buf i).head + (t.buf i).len ≤ pktMaxLen := by
  have hrun : ∃ t, Run step Fits quiet
      [.device [zeroFrame 60] [], .poll, .udpSend 0xFFFFFFFF 67 68 [1, 2, 3], .alloc] t := by
    refine ⟨_, .cons trivial rfl (.cons ?_ rfl (.cons ?_ rfl (.cons trivial rfl (.nil _))))⟩
    · intro e he
      obtain rfl : e = zeroFrame 60 := by simpa [perform, quiet] using he
      exact zeroFrame_fits _ 60 (by decide)
    · show [1, 2, 3].length ≤ 729
      decide
  obtain ⟨t, ht⟩ := hrun
  exact ⟨t, ht, packet_stores_inside quiet t _ rfl ht⟩

/-- A frame of the driver's full length: the receive path stores 1514 bytes from
offset 757 on. -/
theorem full_frame_overruns : ∃ t, Run step anyEvent quiet [.device [zeroFrame 1514] [], .poll] t ∧
      .store 757 1514 ∈ t.pool.history ∧ ¬(Access.store 757 1514).Inside := by
  refine ⟨_, .cons trivial rfl (.cons trivial rfl (.nil _)), ?_, by decide⟩
  decide

end AegisOS.Net
