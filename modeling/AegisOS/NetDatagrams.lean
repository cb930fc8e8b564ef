import AegisOS.PacketRuns

/-! What the input path does to the UDP sockets and the socket table: nothing, but for the
datagram `udp_rx` leaves in the socket of its port. -/
namespace AegisOS.Net
open ByteStore Stack Option

/-- The stack with other UDP sockets and another socket table. -/
def Stack.put (s : Stack) (udp : Fin 64 → UdpSocket) (sockets : Fin 64 → Socket) : Stack :=
  { s with udp := udp, sockets := sockets }

section
variable (s : Stack) (udp : Fin 64 → UdpSocket) (sockets : Fin 64 → Socket)

theorem put_pool : (s.put udp sockets).pool = s.pool := rfl

theorem put_buf (i : Nat) : (s.put udp sockets).buf i = s.buf i := rfl

theorem ethernetTx_put (mac : Mac) (ethertype : UInt16) (i : Nat) :
    ethernetTx (s.put udp sockets) mac ethertype i =
      (ethernetTx s mac ethertype i).map (·.put udp sockets) id := by
  unfold ethernetTx
  rw [put_pool]
  cases pktbufPush s.pool i 14 <;> rfl

theorem arpSend_put (op : UInt16) (ip : UInt32) (mac : Mac) :
    arpSend (s.put udp sockets) op ip mac = (arpSend s op ip mac).map (·.put udp sockets) id := by
  unfold arpSend
  rw [put_pool]
  rcases pktbufAlloc s.pool with ⟨pool, i | i⟩
  · rfl
  · exact ethernetTx_put { s with pool := _ } udp sockets _ _ _

section
variable (dst : UInt32) (proto : UInt8) (payload : List UInt8)

theorem ipv4Output_put (i : Nat) :
    ipv4Output (s.put udp sockets) dst i = (ipv4Output s dst i).map (·.put udp sockets) id := by
  unfold ipv4Output
  have hhop : nextHop (s.put udp sockets) dst = nextHop s dst := rfl
  have harp : (s.put udp sockets).arp = s.arp := rfl
  rw [hhop, harp]
  split
  · exact ethernetTx_put s udp sockets _ _ _
  split
  · rfl
  cases arpCacheLookup s.arp (nextHop s dst) with
  | none =>
    have hrequest := arpSend_put s udp sockets 1 (nextHop s dst) broadcastMac
    dsimp only [arpSendRequest]
    rw [hrequest]
    rfl
  | some mac => exact ethernetTx_put s udp sockets _ _ _

theorem ipv4Send_put :
    ipv4Send (s.put udp sockets) dst proto payload =
      (ipv4Send s dst proto payload).map (·.put udp sockets) id := by
  unfold ipv4Send
  rw [put_pool]
  split
  · rfl
  rcases pktbufAlloc s.pool with ⟨pool, i | i⟩
  · rfl
  · exact ipv4Output_put { s with pool := _, ipIdCounter := _ } udp sockets _ _

theorem arpSendReply_put (ip : UInt32) (mac : Mac) :
    arpSendReply (s.put udp sockets) ip mac = (arpSendReply s ip mac).put udp sockets :=
  congrArg Prod.fst (arpSend_put s udp sockets 2 ip mac)

theorem ipv4Send_fst_put : (ipv4Send (s.put udp sockets) dst proto payload).1 =
      (ipv4Send s dst proto payload).1.put udp sockets :=
  congrArg Prod.fst (ipv4Send_put s udp sockets dst proto payload)

end

theorem arpRx_put (i : Nat) : arpRx (s.put udp sockets) i = (arpRx s i).put udp sockets := by
  unfold arpRx
  have hip : (s.put udp sockets).localIp = s.localIp := rfl
  rw [put_buf]
  dsimp only
  split
  · rfl
  rw [hip]
  split
  · exact congrArg (free · i) (arpSendReply_put { s with arp := _ } udp sockets _ _)
  · rfl

theorem icmpRx_put (i : Nat) (srcIp : UInt32) :
    icmpRx (s.put udp sockets) i srcIp = (icmpRx s i srcIp).put udp sockets := by
  unfold icmpRx
  rw [put_buf, put_pool]
  dsimp only
  split
  · rfl
  split
  · rfl
  change (if (buf { s with pool := _ } i).data _ == 8 then _ else _) = put (ite _ _ _) _ _
  split
  · exact congrArg (free · i) (ipv4Send_fst_put { s with pool := _ } udp sockets _ _ _)
  · rfl

/-! TCP input. -/

theorem handOn_put (out : List Outgoing) :
    (s.put udp sockets).handOn out = (s.handOn out).put udp sockets := by
  induction out generalizing s with
  | nil => rfl
  | cons o out ih =>
    rw [handOn, List.foldl_cons, ipv4Send_fst_put]
    exact ih _

theorem tcpRx_put (i : Nat) (srcIp : UInt32) :
    tcpRx (s.put udp sockets) i srcIp = (tcpRx s i srcIp).put udp sockets := by
  rw [tcpRx_runs, tcpRx_runs]
  exact congrArg (free · i) (handOn_put { s with tcp := _ } udp sockets _)

/-! IPv6 input. -/

theorem icmpv6EchoReply_put (b : Pktbuf) :
    icmpv6EchoReply (s.put udp sockets) b = (icmpv6EchoReply s b).put udp sockets := by
  unfold icmpv6EchoReply
  rw [put_pool]
  rcases pktbufAlloc s.pool with ⟨pool, i | i⟩
  · rfl
  · exact congrArg Prod.fst (ethernetTx_put { s with pool := _ } udp sockets _ _ _)

theorem icmpv6Handle_put (i : Nat) (srcAddr : Ip6) :
    icmpv6Handle (s.put udp sockets) i srcAddr = (icmpv6Handle s i srcAddr).put udp sockets := by
  unfold icmpv6Handle
  have hlocal : (s.put udp sockets).localIpv6 = s.localIpv6 := rfl
  have hlink : (s.put udp sockets).linkLocalIpv6 = s.linkLocalIpv6 := rfl
  rw [put_buf]
  dsimp only
  rw [hlocal, hlink]
  split
  · rfl
  split
  · exact congrArg (free · i) (icmpv6EchoReply_put s udp sockets _)
  split
  · split <;> rfl
  split
  · split <;> rfl
  · rfl

end

/-! Datagrams. -/

structure Datagram where
  bytes : List UInt8
  srcIp : UInt32
  srcPort : UInt16

/-- What `udp_rx` leaves in a socket, over what was there. -/
def UdpSocket.deliver (u : UdpSocket) (d : Datagram) : UdpSocket :=
  { u with rx := d.bytes, rxSrcIp := d.srcIp, rxSrcPort := d.srcPort, rxReady := true }

def UdpSocket.pending (u : UdpSocket) : List Datagram :=
  if u.bound = true ∧ u.rxReady = true then [⟨u.rx, u.rxSrcIp, u.rxSrcPort⟩] else []

def UdpSocket.emptied (u : UdpSocket) : UdpSocket := { u with rxReady := false, rx := [] }

def deliverAt (udp : Fin 64 → UdpSocket) : Option (Fin 64 × Datagram) → Fin 64 → UdpSocket
  | none => udp
  | some (k, d) => Function.update udp k ((udp k).deliver d)

def SamePorts (udp udp' : Fin 64 → UdpSocket) : Prop :=
  ∀ k, (udp' k).bound = (udp k).bound ∧ (udp' k).localPort = (udp k).localPort

/-- Whatever the sockets held, they hold the delivery after it, and nothing else depends on
them. -/
structure Delivers (F : Stack → Stack) (s : Stack) (o : Option (Fin 64 × Datagram)) : Prop where
  bound : ∀ k d, o = some (k, d) → (s.udp k).bound = true
  put : ∀ udp sockets, SamePorts s.udp udp →
    F (s.put udp sockets) = (F s).put (deliverAt udp o) sockets

variable {F G : Stack → Stack}

section
variable {s : Stack}

theorem delivers_none
    (h : ∀ udp sockets, F (s.put udp sockets) = (F s).put udp sockets) : ∃ o, Delivers F s o :=
  ⟨none, fun _ _ h => (some_ne_none _ h.symm).elim, fun udp sockets _ => h udp sockets⟩

theorem delivers_ite {c : Stack → Prop} [DecidablePred c]
    (hc : ∀ udp sockets, c (s.put udp sockets) ↔ c s) (hF : ∃ o, Delivers F s o)
    (hG : ∃ o, Delivers G s o) : ∃ o, Delivers (fun s => if c s then F s else G s) s o := by
  obtain ⟨o, ho⟩ := hF
  obtain ⟨p, hp⟩ := hG
  by_cases h : c s
  · refine ⟨o, ho.bound, fun udp sockets hsame => ?_⟩
    rw [if_pos h, if_pos ((hc udp sockets).mpr h)]
    exact ho.put udp sockets hsame
  · refine ⟨p, hp.bound, fun udp sockets hsame => ?_⟩
    rw [if_neg h, if_neg fun h' => h ((hc udp sockets).mp h')]
    exact hp.put udp sockets hsame

theorem delivers_after {s' : Stack} (h : ∃ o, Delivers G s' o)
    (hs : F s = G s') (hput : ∀ udp sockets, F (s.put udp sockets) = G (s'.put udp sockets))
    (hudp : s'.udp = s.udp) : ∃ o, Delivers F s o := by
  obtain ⟨o, ho⟩ := h
  refine ⟨o, fun k d h => hudp ▸ ho.bound k d h, fun udp sockets hsame => ?_⟩
  rw [hput, hs]
  exact ho.put udp sockets (hudp ▸ hsame)

theorem find_samePorts {udp : Fin 64 → UdpSocket} (h : SamePorts s.udp udp) (port : UInt16) :
    (Fin.find? fun k => (udp k).bound && (udp k).localPort == port) =
      Fin.find? fun k => (s.udp k).bound && (s.udp k).localPort == port := by
  congr 1
  funext k
  rw [(h k).1, (h k).2]

section
variable (i : Nat) (proto : UInt8) (srcIp : UInt32)

theorem udpRx_delivers : ∃ o, Delivers (udpRx · i srcIp) s o := by
  refine delivers_ite (fun _ _ => .rfl) (delivers_none fun _ _ => rfl) ?_
  cases hfind : Fin.find? fun k => (s.udp k).bound &&
      (s.udp k).localPort == bswap16 (loadU16 (s.buf i).data ((s.buf i).head + 2)) with
  | none =>
    refine ⟨none, fun _ _ h => (some_ne_none _ h.symm).elim, fun udp sockets hsame => ?_⟩
    rw [put_buf, show (s.put udp sockets).udp = udp from rfl]
    rw [(find_samePorts hsame _).trans hfind, hfind]
    rfl
  | some k =>
    have hbound : (s.udp k).bound = true := by
      have hk := (Fin.find?_eq_some_iff.mp hfind).1
      exact (Bool.and_eq_true_iff.mp hk).1
    refine ⟨some (k, ⟨readBytes (s.buf i).data ((s.buf i).head + 8)
        (min (bswap16 (loadU16 (s.buf i).data ((s.buf i).head + 4)) - 8).toNat udpRxBufSize), srcIp,
        bswap16 (loadU16 (s.buf i).data (s.buf i).head)⟩),
      fun j d h => ?_, fun udp sockets hsame => ?_⟩
    · rw [← (Prod.mk.inj (some.inj h)).1]
      exact hbound
    · rw [put_buf, show (s.put udp sockets).udp = udp from rfl]
      rw [(find_samePorts hsame _).trans hfind, hfind]
      rfl

theorem tcpRx_delivers : ∃ o, Delivers (tcpRx · i srcIp) s o :=
  delivers_none fun udp sockets => tcpRx_put s udp sockets i srcIp

theorem icmpv6Handle_delivers (srcAddr : Ip6) : ∃ o, Delivers (icmpv6Handle · i srcAddr) s o :=
  delivers_none fun udp sockets => icmpv6Handle_put s udp sockets i srcAddr

theorem ipv4Dispatch_delivers : ∃ o, Delivers (ipv4Dispatch · i proto srcIp) s o := by
  unfold ipv4Dispatch
  split
  · exact delivers_none fun udp sockets => icmpRx_put s udp sockets i srcIp
  split
  · exact tcpRx_delivers i srcIp
  split
  · exact udpRx_delivers i srcIp
  · exact delivers_none fun _ _ => rfl

theorem ipv4Accept_delivers (ihl : Nat) : ∃ o, Delivers (ipv4Accept · i ihl) s o := by
  iterate 3 refine delivers_ite (fun _ _ => .rfl) (delivers_none fun _ _ => rfl) ?_
  exact delivers_after (ipv4Dispatch_delivers i _ _) rfl (fun _ _ => rfl) rfl

theorem ipv4Rx_delivers : ∃ o, Delivers (ipv4Rx · i) s o := by
  iterate 3 refine delivers_ite (fun _ _ => .rfl) (delivers_none fun _ _ => rfl) ?_
  exact delivers_after (ipv4Accept_delivers i _) rfl (fun _ _ => rfl) rfl

theorem ipv6Rx_delivers : ∃ o, Delivers (ipv6Rx · i) s o := by
  iterate 2 refine delivers_ite (fun _ _ => .rfl) (delivers_none fun _ _ => rfl) ?_
  refine delivers_ite (fun _ _ => .rfl)
    (delivers_after (tcpRx_delivers i 0) rfl (fun _ _ => rfl) rfl) ?_
  refine delivers_ite (fun _ _ => .rfl)
    (delivers_after (udpRx_delivers i 0) rfl (fun _ _ => rfl) rfl) ?_
  refine delivers_ite (fun _ _ => .rfl)
    (delivers_after (icmpv6Handle_delivers i _) rfl (fun _ _ => rfl) rfl) (delivers_none fun _ _ => rfl)

def demux (i : Nat) (et : UInt16) (s : Stack) : Stack :=
  if et == ethTypeIpv4 then ipv4Rx s i
  else if et == ethTypeArp then arpRx s i
  else if et == ethTypeIpv6 then ipv6Rx s i
  else s.free i

theorem demux_delivers (et : UInt16) : ∃ o, Delivers (demux i et) s o := by
  unfold demux
  split
  · exact ipv4Rx_delivers i
  split
  · exact delivers_none fun udp sockets => arpRx_put _ udp sockets i
  split
  · exact ipv6Rx_delivers i
  · exact delivers_none fun _ _ => rfl

theorem ethernetRx_delivers : ∃ o, Delivers (ethernetRx · i) s o := by
  cases hpull : pktbufPull s.pool i 14 with
  | none =>
    have hfree (udp : Fin 64 → UdpSocket) (sockets : Fin 64 → Socket) :
        ethernetRx (s.put udp sockets) i = (s.free i).put udp sockets := by
      unfold ethernetRx
      rw [put_pool, hpull]
      rfl
    refine delivers_none fun udp sockets => (hfree udp sockets).trans ?_
    exact congrArg (·.put udp sockets) (hfree s.udp s.sockets).symm
  | some pool =>
    have hgo (udp : Fin 64 → UdpSocket) (sockets : Fin 64 → Socket) :
        ethernetRx (s.put udp sockets) i = demux i
          (bswap16 (loadU16 (s.buf i).data ((s.buf i).head + 12))) ({ s with pool := pool }.put udp sockets) := by
      unfold ethernetRx
      rw [put_pool, hpull]
      rfl
    exact delivers_after (demux_delivers i _) (hgo s.udp s.sockets) hgo rfl

end

/-! Rounds of the poll. -/

/-- A round of the poll loop ends before it looks at a port, or hands on a frame. -/
theorem pollOnce_frame : (∃ t : Stack, ∀ udp sockets,
      pollOnce (s.put udp sockets) = (t.put udp sockets, false)) ∨
    ∃ (t : Stack) (i : Nat), ∀ udp sockets,
      pollOnce (s.put udp sockets) = (ethernetRx (t.put udp sockets) i, true) := by
  have hdriver (udp : Fin 64 → UdpSocket) (sockets : Fin 64 → Socket) :
      (s.put udp sockets).driver = s.driver := rfl
  rcases halloc : pktbufAlloc s.pool with ⟨pool, i | i⟩
  · refine .inl ⟨{ s with pool := pool }, fun udp sockets => ?_⟩
    unfold pollOnce
    rw [put_pool, halloc]
    rfl
  rcases hrecv : ethernetRecv s.driver with ⟨driver, e | ⟨bytes, len⟩⟩
  · refine .inl ⟨free { s with pool := pool, driver := driver } i, fun udp sockets => ?_⟩
    unfold pollOnce pollReceive
    rw [put_pool, halloc]
    dsimp only
    rw [hdriver, hrecv]
    rfl
  · refine .inr ⟨{ s with
      driver := driver
      pool := (pool.storeAt i (pool.bufs i).head len bytes).setWindow i (pool.bufs i).head len },
      i, fun udp sockets => ?_⟩
    unfold pollOnce pollReceive
    rw [put_pool, halloc]
    dsimp only
    rw [hdriver, hrecv]
    rfl

theorem pollOnce_more (udp : Fin 64 → UdpSocket) (sockets : Fin 64 → Socket) :
    (pollOnce (s.put udp sockets)).2 = (pollOnce s).2 := by
  obtain ⟨t, h⟩ | ⟨t, i, h⟩ := pollOnce_frame (s := s)
  all_goals
    exact (congrArg Prod.snd (h udp sockets)).trans (congrArg Prod.snd (h s.udp s.sockets)).symm

theorem pollOnce_delivers : ∃ o, Delivers (fun s => (pollOnce s).1) s o := by
  obtain ⟨t, h⟩ | ⟨t, i, h⟩ := pollOnce_frame (s := s)
  · refine delivers_none fun udp sockets => (congrArg Prod.fst (h udp sockets)).trans ?_
    exact congrArg (·.1.put udp sockets) (h s.udp s.sockets).symm
  · exact delivers_after (ethernetRx_delivers i) (congrArg Prod.fst (h s.udp s.sockets))
      (fun udp sockets => congrArg Prod.fst (h udp sockets)) rfl

end

/-! Datagrams of a UDP socket: those a poll hands to it, the one a receive takes, and the
frame a send puts on the wire. -/
open Function List Pool

/-! Arrivals. -/

def Stack.drained (s : Stack) : Stack := s.put (fun k => (s.udp k).emptied) s.sockets

/-- The datagram one round of the poll hands to a socket: what it holds after the round
when it was empty before. -/
def roundArrivals (s : Stack) (t : Fin 64) : List Datagram := ((pollOnce s.drained).1.udp t).pending

/-- The datagrams the rounds of a poll hand to a socket, in order. -/
def pollArrivals : Nat → Stack → Fin 64 → List Datagram
  | 0, _, _ => []
  | n + 1, s, t =>
    roundArrivals s t ++ if (pollOnce s).2 then pollArrivals n (pollOnce s).1 t else []

def latest (l : List Datagram) : List Datagram := l.getLast?.toList

theorem latest_append (l m : List Datagram) : latest (latest l ++ m) = latest (l ++ m) := by
  unfold latest
  cases m with
  | nil => cases h : l.getLast? <;> simp [h]
  | cons d m => simp [getLast?_cons]

theorem latest_pending (u : UdpSocket) : latest u.pending = u.pending := by
  unfold latest UdpSocket.pending
  split <;> rfl

theorem pending_emptied (u : UdpSocket) : u.emptied.pending = [] := by
  unfold UdpSocket.pending UdpSocket.emptied
  simp

theorem pending_deliver {u : UdpSocket} (h : u.bound = true) (d : Datagram) :
    (u.deliver d).pending = [d] := by
  unfold UdpSocket.pending UdpSocket.deliver
  simp [h]

section
variable {s : Stack} {udp : Fin 64 → UdpSocket} {sockets : Fin 64 → Socket}

theorem SamePorts.refl (udp : Fin 64 → UdpSocket) : SamePorts udp udp := fun _ => ⟨rfl, rfl⟩

theorem SamePorts.emptied (h : SamePorts s.udp udp) : SamePorts s.udp fun k => (udp k).emptied :=
  fun k => h k

theorem SamePorts.deliverAt (h : SamePorts s.udp udp) (o : Option (Fin 64 × Datagram)) :
    SamePorts (deliverAt s.udp o) (deliverAt udp o) := by
  cases o with
  | none => exact h
  | some kd =>
    obtain ⟨j, d⟩ := kd
    intro k
    by_cases hk : k = j
    · subst hk
      simpa [Net.deliverAt, UdpSocket.deliver] using h k
    · simpa [Net.deliverAt, hk] using h k

def deliveredTo (t : Fin 64) : Option (Fin 64 × Datagram) → List Datagram
  | none => []
  | some (k, d) => if k = t then [d] else []

theorem pending_deliverAt {o : Option (Fin 64 × Datagram)} {t : Fin 64}
    (hbound : ∀ k d, o = some (k, d) → (udp k).bound = true) :
    (deliverAt udp o t).pending = latest ((udp t).pending ++ deliveredTo t o) := by
  cases o with
  | none => simp only [deliverAt, deliveredTo, append_nil, latest_pending]
  | some kd =>
    obtain ⟨k, d⟩ := kd
    by_cases hk : k = t
    · subst hk
      simp [deliverAt, deliveredTo, pending_deliver (hbound k d rfl), latest]
    · have hne : t ≠ k := fun h => hk h.symm
      simp only [deliverAt, deliveredTo, update_of_ne hne, if_neg hk, append_nil, latest_pending]

theorem pollOnce_put (hsame : SamePorts s.udp udp) (sockets : Fin 64 → Socket) :
    ∃ udp', (pollOnce (s.put udp sockets)).1 = (pollOnce s).1.put udp' sockets ∧
      SamePorts (pollOnce s).1.udp udp' ∧ SamePorts udp udp' ∧ ∀ t,
        roundArrivals (s.put udp sockets) t = roundArrivals s t ∧
        (udp' t).pending = latest ((udp t).pending ++ roundArrivals s t) := by
  obtain ⟨o, ho⟩ := pollOnce_delivers (s := s)
  have hself := ho.put s.udp s.sockets (.refl s.udp)
  have hudp : (pollOnce s).1.udp = deliverAt s.udp o := congrArg Stack.udp hself
  have hround : ∀ (udp : Fin 64 → UdpSocket) (sockets : Fin 64 → Socket), SamePorts s.udp udp →
      ∀ t, roundArrivals (s.put udp sockets) t = deliveredTo t o := by
    intro udp sockets hsame t
    have hput := ho.put _ sockets hsame.emptied
    have hb : ∀ k d, o = some (k, d) → ((udp k).emptied).bound = true := fun k d h =>
      ((hsame k).1).trans (ho.bound k d h)
    have hpending := pending_deliverAt (t := t) hb
    rw [pending_emptied, nil_append] at hpending
    have hlatest : latest (deliveredTo t o) = deliveredTo t o := by
      unfold latest deliveredTo
      cases o with
      | none => rfl
      | some kd =>
        dsimp only
        split <;> rfl
    rw [hlatest] at hpending
    exact (congrArg (fun x => (Stack.udp x t).pending) hput).trans hpending
  refine ⟨deliverAt udp o, ho.put udp sockets hsame, ?_, ?_, fun t => ?_⟩
  · rw [hudp]
    exact hsame.deliverAt o
  · cases o with
    | none => exact .refl udp
    | some kd =>
      obtain ⟨j, d⟩ := kd
      intro k
      by_cases hk : k = j
      · subst hk
        simp [deliverAt, UdpSocket.deliver]
      · simp [deliverAt, hk]
  · have hs := hround s.udp s.sockets (.refl s.udp) t
    refine ⟨(hround udp sockets hsame t).trans hs.symm, ?_⟩
    have hrs : roundArrivals s t = deliveredTo t o := hs
    rw [hrs]
    exact pending_deliverAt fun k d h => ((hsame k).1).trans (ho.bound k d h)

theorem pollLoop_put (n : Nat) (hsame : SamePorts s.udp udp) (sockets : Fin 64 → Socket) :
    ∃ udp', pollLoop n (s.put udp sockets) = (pollLoop n s).put udp' sockets ∧ SamePorts udp udp' ∧
      ∀ t, pollArrivals n (s.put udp sockets) t = pollArrivals n s t ∧
        (udp' t).pending = latest ((udp t).pending ++ pollArrivals n s t) := by
  induction n generalizing s udp with
  | zero => exact ⟨udp, rfl, .refl udp, fun t => ⟨rfl, by simp [pollArrivals, latest_pending]⟩⟩
  | succ n ih =>
    obtain ⟨udp₁, hround, hports, hkept, harrive⟩ := pollOnce_put hsame sockets
    have hmore := pollOnce_more (s := s) udp sockets
    simp only [pollLoop, pollArrivals, hmore, hround]
    split
    · obtain ⟨udp₂, hrest, hports₂, harrive₂⟩ := ih hports
      refine ⟨udp₂, hrest, fun k => ⟨(hports₂ k).1.trans (hkept k).1, (hports₂ k).2.trans (hkept k).2⟩,
        fun t => ⟨?_, ?_⟩⟩
      · rw [(harrive t).1, (harrive₂ t).1]
      · rw [(harrive₂ t).2, (harrive t).2, latest_append, append_assoc]
    · refine ⟨udp₁, rfl, hkept, fun t => ⟨?_, ?_⟩⟩
      · rw [(harrive t).1]
      · rw [(harrive t).2, append_nil]

theorem networkPoll_put (hsame : SamePorts s.udp udp) (sockets : Fin 64 → Socket) :
    ∃ udp', networkPoll (s.put udp sockets) = (networkPoll s).put udp' sockets ∧ SamePorts udp udp' ∧
      ∀ t, pollArrivals 32 (s.put udp sockets) t = pollArrivals 32 s t ∧
        (udp' t).pending = latest ((udp t).pending ++ pollArrivals 32 s t) :=
  pollLoop_put 32 hsame sockets

theorem networkPoll_spec (s : Stack) :
    (networkPoll s).sockets = s.sockets ∧ SamePorts s.udp (networkPoll s).udp ∧
      ∀ t, ((networkPoll s).udp t).pending = latest ((s.udp t).pending ++ pollArrivals 32 s t) := by
  obtain ⟨udp, hpoll, hports, harrive⟩ := networkPoll_put (.refl s.udp) s.sockets
  have hself : networkPoll s = (networkPoll s).put udp s.sockets := hpoll
  rw [hself]
  exact ⟨rfl, hports, fun t => (harrive t).2⟩

end

/-! Receiving. -/

/-- A datagram socket of `owner` and the UDP socket under it. -/
structure DgramSocket (s : Stack) (owner : Nat) (fd : Int) (n t : Fin 64) : Prop where
  held : socketLookup s owner fd = some n
  dgram : (s.sockets n).type = .dgram
  transport : udpOf (s.sockets n).transportId = some t

variable {s' : Stack} {dr : Driver} {owner i : Nat} {fd : Int} {n : Fin 64} {dst : UInt32}
  {payload data : List UInt8}

section
variable {s : Stack} {owner : Nat} {fd : Int} {n t : Fin 64}

theorem socketLookup_congr {s : Stack} (h : s'.sockets = s.sockets) (owner : Nat) (fd : Int) :
    socketLookup s' owner fd = socketLookup s owner fd := by
  unfold socketLookup
  rw [h]

theorem DgramSocket.congr (h : DgramSocket s owner fd n t)
    (hsockets : s'.sockets = s.sockets) : DgramSocket s' owner fd n t := by
  refine ⟨(socketLookup_congr hsockets owner fd).trans h.held, ?_, ?_⟩ <;> rw [hsockets]
  · exact h.dgram
  · exact h.transport

/-- The stack after the datagram `d` was taken; its sender is the new peer. -/
def Stack.taken (s : Stack) (n t : Fin 64) (d : Datagram) : Stack :=
  s.put (update s.udp t (s.udp t).emptied)
    (update s.sockets n { s.sockets n with remoteIp := d.srcIp, remotePort := d.srcPort })

theorem DgramSocket.taken (h : DgramSocket s owner fd n t) (d : Datagram) :
    DgramSocket (s.taken n t d) owner fd n t := by
  have hself : (s.taken n t d).sockets n =
      { s.sockets n with remoteIp := d.srcIp, remotePort := d.srcPort } := update_self _ _ _
  refine ⟨?_, ?_, ?_⟩
  · have hheld := h.held
    unfold socketLookup at hheld ⊢
    split at hheld
    next hrange =>
      rw [dif_pos hrange]
      dsimp only at hheld ⊢
      split at hheld
      next hused =>
        cases hheld
        rw [hself, if_pos hused]
      · cases hheld
    · cases hheld
  · rw [hself]
    exact h.dgram
  · rw [hself]
    exact h.transport

theorem pending_taken (s : Stack) (n t : Fin 64) (d : Datagram) : ((s.taken n t d).udp t).pending = [] := by
  have hself : (s.taken n t d).udp t = (s.udp t).emptied := update_self _ _ _
  rw [hself, pending_emptied]

theorem samePorts_taken (s : Stack) (n t : Fin 64) (d : Datagram) :
    SamePorts s.udp (s.taken n t d).udp := by
  intro k
  by_cases hk : k = t
  · subst hk
    simp [Stack.taken, Stack.put, UdpSocket.emptied]
  · simp [Stack.taken, Stack.put, hk]

theorem udpRecv_spec {id : Int} (hid : udpOf id = some t) (maxLen : Nat) :
    ((s.udp t).pending = [] ∧ udpRecv s id maxLen = (s, none)) ∨
    ∃ d, (s.udp t).pending = [d] ∧
      udpRecv s id maxLen = ({ s with udp := update s.udp t (s.udp t).emptied },
        some (d.bytes.take maxLen, d.srcIp, d.srcPort)) := by
  unfold udpRecv
  rw [hid]
  dsimp only
  by_cases h : (s.udp t).bound = false ∨ (s.udp t).rxReady = false
  · rw [if_pos h]
    refine .inl ⟨if_neg fun hb => ?_, rfl⟩
    rcases h with h | h <;> rw [h] at hb
    · cases hb.1
    · cases hb.2
  · rw [if_neg h]
    rw [not_or, Bool.not_eq_false, Bool.not_eq_false] at h
    exact .inr ⟨⟨(s.udp t).rx, (s.udp t).rxSrcIp, (s.udp t).rxSrcPort⟩, if_pos h, rfl⟩

theorem netSocketRecv_spec (h : DgramSocket s owner fd n t) {len : Nat} (hlen : len ≠ 0) :
    (latest ((s.udp t).pending ++ pollArrivals 32 s t) = [] ∧
      netSocketRecv s owner fd len = (networkPoll s, .error aegisEagain)) ∨
    ∃ d, latest ((s.udp t).pending ++ pollArrivals 32 s t) = [d] ∧
      netSocketRecv s owner fd len =
        ((networkPoll s).taken n t d, .ok (d.bytes.take (min len 65535))) := by
  obtain ⟨hsockets, -, hpending⟩ := networkPoll_spec s
  have hpolled := h.congr hsockets
  unfold netSocketRecv
  rw [h.held, ← hpending t]
  dsimp only
  rw [if_neg hlen, hpolled.dgram]
  dsimp only
  rcases udpRecv_spec hpolled.transport (min len 65535) with ⟨hnone, heq⟩ | ⟨d, hsome, heq⟩
  · rw [heq]
    exact .inl ⟨hnone, rfl⟩
  rw [heq]
  refine .inr ⟨d, hsome, ?_⟩
  rw [← hpolled.dgram]
  rfl

end
/-! Sending. -/

section
variable {s : Stack}

section
variable (dst : UInt32) (dstPort srcPort : UInt16) (data : List UInt8)

theorem ipv4Send_suffix (proto : UInt8) (payload : List UInt8) :
    s.driver.sent <:+ (ipv4Send s dst proto payload).1.driver.sent := by
  obtain ⟨pool, driver, id, hsent, hsuffix⟩ := ipv4Send_frame s dst proto payload
  rwa [hsent]

theorem ipv4Send_sockets (proto : UInt8) (payload : List UInt8) :
    (ipv4Send s dst proto payload).1.sockets = s.sockets := by
  obtain ⟨pool, driver, id, hsent, -⟩ := ipv4Send_frame s dst proto payload
  rw [hsent]

theorem udpSend_suffix : s.driver.sent <:+ (udpSend s dst dstPort srcPort data).1.driver.sent := by
  unfold udpSend
  dsimp only
  split
  · exact suffix_refl _
  · exact ipv4Send_suffix _ _ _

theorem udpSend_sockets : (udpSend s dst dstPort srcPort data).1.sockets = s.sockets := by
  unfold udpSend
  dsimp only
  split
  · rfl
  · exact ipv4Send_sockets _ _ _

end

theorem netSocketSend_dgram (held : socketLookup s owner fd = some n)
    (hdgram : (s.sockets n).type = .dgram) (data : List UInt8) :
    s.driver.sent <:+ (netSocketSend s owner fd data).1.driver.sent ∧
      (netSocketSend s owner fd data).1.sockets = s.sockets := by
  unfold netSocketSend
  rw [held]
  dsimp only
  split
  · exact ⟨suffix_refl _, rfl⟩
  rw [hdgram]
  dsimp only
  split
  · exact ⟨suffix_refl _, rfl⟩
  · exact ⟨udpSend_suffix _ _ _ _, udpSend_sockets _ _ _ _⟩

/-! The frame of a datagram. -/

theorem frame_setWindow (p : Pool) (i head len : Nat) :
    (p.setWindow i head len).frame i = readBytes (p.bufs i).data head len := by
  simp [frame]

theorem frame_storeList (p : Pool) (i off : Nat) (bs : List UInt8) :
    (p.storeList i off bs).frame i =
      readBytes (blit (p.bufs i).data off bs.length (ofList bs)) (p.bufs i).head (p.bufs i).len := by
  simp [frame, storeList, storeAt]

theorem frame_assembled (p : Pool) (i head : Nat) (hdr payload : List UInt8) :
    (((p.storeList i head hdr).storeList i (head + hdr.length) payload).setWindow i head
      (hdr.length + payload.length)).frame i = hdr ++ payload := by
  rw [frame_setWindow]
  have hdata : (((p.storeList i head hdr).storeList i (head + hdr.length) payload).bufs i).data =
      blit (blit (p.bufs i).data head hdr.length (ofList hdr)) (head + hdr.length) payload.length
        (ofList payload) := by
    simp [storeList, storeAt]
  rw [hdata, readBytes_add, readBytes_blit_disjoint (.inl le_rfl), readBytes_blit_same,
    readBytes_ofList, readBytes_blit_same, readBytes_ofList]

theorem ethernetSend_sent {frame : List UInt8} (hready : dr.ready = true)
    (hpos : 0 < frame.length) (hmax : frame.length ≤ frameMax) :
    (ethernetSend dr frame).1.sent = frame :: dr.sent := by
  unfold ethernetSend
  have hne : frame.length ≠ 0 := Nat.pos_iff_ne_zero.mp hpos
  rw [if_neg (by simp [hready, hne, hmax])]
  cases dr.tx <;> rfl

/-- What `ethernet_tx` gives to the driver, and what it returns. -/
theorem ethernetTx_sends {mac : Mac} {et : UInt16} (hhead : 14 ≤ (s.pool.bufs i).head)
    (hwindow : (s.pool.bufs i).head + (s.pool.bufs i).len ≤ frameMax) :
    ((ethernetTx s mac et i).1.driver, (ethernetTx s mac et i).2) =
      ethernetSend s.driver (mac.val ++ s.localMac.val ++ be16 et ++ s.pool.frame i) := by
  unfold frameMax at hwindow
  have hhdr : (mac.val ++ s.localMac.val ++ be16 et).length = 14 := by
    simp [mac.property, s.localMac.property]
  have hpush : pktbufPush s.pool i 14 =
      some (s.pool.setWindow i ((s.pool.bufs i).head - 14) ((s.pool.bufs i).len + 14)) := by
    unfold pktbufPush
    rw [if_neg (by omega), u16_of_le (by unfold pktMaxLen; omega), u16_of_le (by unfold pktMaxLen; omega)]
  have hframe : ((s.pool.setWindow i ((s.pool.bufs i).head - 14) ((s.pool.bufs i).len + 14)).storeList i
      ((s.pool.bufs i).head - 14) (mac.val ++ s.localMac.val ++ be16 et)).frame i =
        mac.val ++ s.localMac.val ++ be16 et ++ s.pool.frame i := by
    rw [frame_storeList, setWindow_self]
    have hfront := readBytes_blit_front (s.pool.bufs i).data ((s.pool.bufs i).head - 14)
      (s.pool.bufs i).len (mac.val ++ s.localMac.val ++ be16 et)
    rw [hhdr, Nat.sub_add_cancel hhead, Nat.add_comm 14] at hfront
    rw [hhdr]
    exact hfront
  unfold ethernetTx
  rw [hpush]
  dsimp only
  rw [setWindow_self]
  rw [hframe]

/-- The next hop of a destination has a known hardware address. -/
def Resolved (s : Stack) (dst : UInt32) : Prop :=
  dst = 0xFFFFFFFF ∨ nextHop s dst ≠ 0 ∧ (arpCacheLookup s.arp (nextHop s dst)).isSome = true

theorem ipv4Output_sends (hresolved : Resolved s dst) (hhead : 14 ≤ (s.pool.bufs i).head)
    (hwindow : (s.pool.bufs i).head + (s.pool.bufs i).len ≤ frameMax) :
    ∃ mac : Mac, ((ipv4Output s dst i).1.driver, (ipv4Output s dst i).2) =
      ethernetSend s.driver (mac.val ++ s.localMac.val ++ be16 ethTypeIpv4 ++ s.pool.frame i) := by
  unfold ipv4Output
  by_cases hcast : dst = 0xFFFFFFFF
  · rw [if_pos (by simpa using hcast)]
    exact ⟨broadcastMac, ethernetTx_sends hhead hwindow⟩
  obtain ⟨hhop, hsome⟩ := hresolved.resolve_left hcast
  obtain ⟨mac, hmac⟩ := Option.isSome_iff_exists.mp hsome
  rw [if_neg (by simpa using hcast), if_neg (by simpa using hhop), hmac]
  exact ⟨mac, ethernetTx_sends hhead hwindow⟩

def ipv4Frame (mac localMac : Mac) (header payload : List UInt8) : List UInt8 :=
  mac.val ++ localMac.val ++ be16 ethTypeIpv4 ++ (header ++ payload)

theorem ipv4Send_sends (proto : UInt8)
    (hbuf : (pktbufAlloc s.pool).2.isSome = true) (hresolved : Resolved s dst) (hne : payload ≠ [])
    (hlen : payload.length ≤ 737) :
    ∃ (mac : Mac) (sum : UInt16),
      ((ipv4Send s dst proto payload).1.driver, (ipv4Send s dst proto payload).2) =
      ethernetSend s.driver (ipv4Frame mac s.localMac
        (ipv4Header s.ipIdCounter (20 + payload.length) proto s.localIp dst sum) payload) := by
  rcases halloc : pktbufAlloc s.pool with ⟨pool, i | i⟩
  · rw [halloc] at hbuf
    cases hbuf
  have hhead : (pool.bufs i).head = 757 := (alloc_some halloc).head
  have htotal : u16 (20 + payload.length) = 20 + payload.length :=
    u16_of_le (by unfold pktMaxLen; omega)
  have hhdr := length_ipv4Header s.ipIdCounter (20 + payload.length) proto s.localIp dst
  have hassembled := fun sum => frame_assembled pool i (pool.bufs i).head
    (ipv4Header s.ipIdCounter (20 + payload.length) proto s.localIp dst sum) payload
  simp only [hhdr] at hassembled
  unfold ipv4Send
  rw [if_neg (by simpa using hne), halloc]
  rw [htotal]
  set sum := inetChecksum (ipv4Header s.ipIdCounter (20 + payload.length) proto s.localIp dst 0)
  have hout := ipv4Output_sends (i := i) (s := { s with
    pool := ((pool.storeList i (pool.bufs i).head
      (ipv4Header s.ipIdCounter (20 + payload.length) proto s.localIp dst sum)).storeList i
        ((pool.bufs i).head + 20) payload).setWindow i (pool.bufs i).head (20 + payload.length)
    ipIdCounter := s.ipIdCounter + 1 }) hresolved
  simp only [setWindow_self, hassembled] at hout
  obtain ⟨mac, hsent⟩ := hout (by omega) (by unfold frameMax; omega)
  exact ⟨mac, sum, hsent⟩

theorem length_ipv4Frame (mac localMac : Mac) (header payload : List UInt8) :
    (ipv4Frame mac localMac header payload).length = 14 + header.length + payload.length := by
  simp only [ipv4Frame, length_append, length_be16]
  omega

theorem ipv4Send_sent (proto : UInt8)
    (hready : s.driver.ready = true) (hbuf : (pktbufAlloc s.pool).2.isSome = true)
    (hresolved : Resolved s dst) (hne : payload ≠ []) (hlen : payload.length ≤ 737) :
    ∃ (mac : Mac) (sum : UInt16), (ipv4Send s dst proto payload).1.driver.sent =
      (mac.val ++ s.localMac.val ++ be16 ethTypeIpv4 ++
        (ipv4Header s.ipIdCounter (20 + payload.length) proto s.localIp dst sum ++ payload)) ::
        s.driver.sent := by
  obtain ⟨mac, sum, hsends⟩ := ipv4Send_sends proto hbuf hresolved hne hlen
  refine ⟨mac, sum, ?_⟩
  rw [(Prod.mk.inj (hsends.trans (Prod.mk.eta).symm)).1]
  have hlength := length_ipv4Frame mac s.localMac
    (ipv4Header s.ipIdCounter (20 + payload.length) proto s.localIp dst sum) payload
  rw [length_ipv4Header] at hlength
  refine ethernetSend_sent hready ?_ ?_
  · omega
  · unfold frameMax
    omega

/-- The frame that carries a datagram from the local port to the peer of a socket. -/
def datagramFrame (s : Stack) (k : Socket) (mac : Mac) (ipSum udpSum : UInt16) (data : List UInt8) :
    List UInt8 :=
  mac.val ++ s.localMac.val ++ be16 ethTypeIpv4 ++
    (ipv4Header s.ipIdCounter (28 + data.length) 17 s.localIp k.remoteIp ipSum ++
      (udpHeader k.localPort k.remotePort (8 + data.length) udpSum ++ data))

theorem length_udpHeader (srcPort dstPort : UInt16) (total : Nat) (sum : UInt16) :
    (udpHeader srcPort dstPort total sum).length = 8 := by
  simp [udpHeader]

theorem length_datagramFrame (s : Stack) (k : Socket) (mac : Mac) (ipSum udpSum : UInt16)
    (data : List UInt8) : (datagramFrame s k mac ipSum udpSum data).length = 42 + data.length := by
  simp only [datagramFrame, length_append, s.localMac.property, length_be16,
    length_ipv4Header, length_udpHeader]
  omega

structure Sendable (s : Stack) (owner : Nat) (fd : Int) (n : Fin 64) : Prop where
  held : socketLookup s owner fd = some n
  dgram : (s.sockets n).type = .dgram
  localPort : (s.sockets n).localPort ≠ 0
  remoteIp : (s.sockets n).remoteIp ≠ 0
  remotePort : (s.sockets n).remotePort ≠ 0
  ready : s.driver.ready = true
  buffer : (pktbufAlloc s.pool).2.isSome = true
  resolved : Resolved s (s.sockets n).remoteIp

theorem udpSend_sent {k : Socket} (hready : s.driver.ready = true)
    (hbuf : (pktbufAlloc s.pool).2.isSome = true) (hresolved : Resolved s k.remoteIp) (hne : data ≠ [])
    (hlen : data.length ≤ 700) :
    ∃ mac ipSum udpSum, (udpSend s k.remoteIp k.remotePort k.localPort data).1.driver.sent =
      datagramFrame s k mac ipSum udpSum data :: s.driver.sent := by
  have htotal : u16 (8 + data.length) = 8 + data.length := u16_of_le (by unfold pktMaxLen; omega)
  have hsent : ∀ udpSum, ∃ mac ipSum, (ipv4Send s k.remoteIp 17
      ((udpHeader k.localPort k.remotePort (8 + data.length) udpSum ++ data).take
        (8 + data.length))).1.driver.sent =
        datagramFrame s k mac ipSum udpSum data :: s.driver.sent := by
    intro udpSum
    have hlength : (udpHeader k.localPort k.remotePort (8 + data.length) udpSum ++ data).length =
        8 + data.length := by
      rw [length_append, length_udpHeader]
    rw [take_of_length_le hlength.le]
    obtain ⟨mac, ipSum, hframe⟩ := ipv4Send_sent 17 hready hbuf hresolved
      (append_ne_nil_of_right_ne_nil _ hne) (hlength.le.trans (by omega))
    rw [hlength, ← Nat.add_assoc] at hframe
    exact ⟨mac, ipSum, hframe⟩
  unfold udpSend
  rw [htotal, if_neg (by rw [not_or]; exact ⟨hne, by omega⟩)]
  obtain ⟨mac, ipSum, hframe⟩ := hsent _
  exact ⟨mac, ipSum, _, hframe⟩

theorem netSocketSend_sent (h : Sendable s owner fd n)
    (hne : data ≠ []) (hlen : data.length ≤ 700) :
    (∃ mac ipSum udpSum, (netSocketSend s owner fd data).1.driver.sent =
      datagramFrame s (s.sockets n) mac ipSum udpSum data :: s.driver.sent) ∧
    ((netSocketSend s owner fd data).2 = data.length ∨ (netSocketSend s owner fd data).2 = aegisEio) := by
  have hpos : data.length ≠ 0 := fun h0 => hne (eq_nil_of_length_eq_zero h0)
  unfold netSocketSend
  rw [h.held]
  dsimp only
  rw [if_neg (by omega), h.dgram]
  rw [if_neg (by simp [h.localPort, h.remoteIp, h.remotePort])]
  refine ⟨udpSend_sent h.ready h.buffer h.resolved hne hlen, ?_⟩
  dsimp only
  split
  · exact .inl rfl
  · exact .inr rfl

end

end AegisOS.Net
