import AegisOS.NetTransport

/-! TCP by itself (`net/tcp.c`): its connection table, and the segments a call hands to
`ipv4_send`. The stack runs this machine and passes the segments on; nothing else of the stack
reads or writes the table. -/
namespace AegisOS.Net
open Function List Option

/-- A segment for `ipv4_send`, with the connection its header was built from. -/
structure Outgoing where
  slot : Fin 128
  conn : TcpConn
  flags : UInt8
  data : List UInt8

def Tcp.set (t : Tcp) (k : Fin 128) (c : TcpConn) : Tcp :=
  { t with conns := Function.update t.conns k c }

/-- `tcp_send_segment` up to its call of `ipv4_send`. -/
def Tcp.emit (t : Tcp) (k : Fin 128) (flags : UInt8) (data : List UInt8) : Tcp × List Outgoing :=
  let c := t.conns k
  let syn : UInt32 := if hasFlag flags tcpSyn then 1 else 0
  let fin : UInt32 := if hasFlag flags tcpFin then 1 else 0
  (t.set k { c with sndNxt := c.sndNxt + syn + fin + .ofNat data.length }, [⟨k, c, flags, data⟩])

/-- `tcp_alloc_conn` -/
def Tcp.alloc (t : Tcp) : Option (Tcp × Fin 128) :=
  (Fin.find? fun k => !(t.conns k).active).map fun k =>
    (t.set k { t.conns k with active := true, rx := [], accepted := false }, k)

def Tcp.ackOnly (t : Tcp) (k : Fin 128) (c : TcpConn) : Tcp × List Outgoing :=
  (t.set k c).emit k tcpAck []

def openedBy (c : TcpConn) (localIp : UInt32) (g : Segment) (srcIp : UInt32) : TcpConn :=
  { c with
    localIp := localIp, localPort := g.dstPort, remoteIp := srcIp, remotePort := g.srcPort
    state := .synReceived, rcvNxt := g.seq + 1, sndNxt := 1000, sndWnd := 65535, rcvWnd := 65535 }

def Tcp.listenInput (t : Tcp) (localIp : UInt32) (g : Segment) (srcIp : UInt32) :
    Tcp × List Outgoing :=
  match t.alloc with
  | none => (t, [])
  | some (t, k) => (t.set k (openedBy (t.conns k) localIp g srcIp)).emit k (tcpSyn ||| tcpAck) []

/-- The number of bytes behind the header, a 16-bit difference. -/
def payloadLen (g : Segment) (b : Pktbuf) : Nat := u16 (65536 + b.len - g.dataOff)

/-- The bytes of a segment in order that still fit into the receive buffer. -/
def takenBytes (c : TcpConn) (g : Segment) (b : Pktbuf) : List UInt8 :=
  ByteStore.readBytes b.data (b.head + g.dataOff) (min (payloadLen g b) (8192 - c.rx.length))

def Tcp.dataInput (t : Tcp) (k : Fin 128) (g : Segment) (b : Pktbuf) : Tcp × List Outgoing :=
  let c := { t.conns k with sndUna := g.ack }
  if 0 < payloadLen g b ∧ g.seq = c.rcvNxt then
    t.ackOnly k { c with
      rx := c.rx ++ takenBytes c g b
      rcvNxt := c.rcvNxt + .ofNat (takenBytes c g b).length }
  else (t.set k c, [])

/-- The switch of `tcp_rx` over the connection's state. -/
def Tcp.input (t : Tcp) (localIp : UInt32) (k : Fin 128) (g : Segment) (b : Pktbuf)
    (srcIp : UInt32) : Tcp × List Outgoing :=
  let c := t.conns k
  let syn := hasFlag g.flags tcpSyn
  let ack := hasFlag g.flags tcpAck
  let fin := hasFlag g.flags tcpFin
  match c.state with
  | .listen => if syn then t.listenInput localIp g srcIp else (t, [])
  | .synSent =>
    if syn && ack then
      t.ackOnly k { c with rcvNxt := g.seq + 1, sndUna := g.ack, state := .established }
    else (t, [])
  | .synReceived =>
    if ack then (t.set k { c with sndUna := g.ack, state := .established }, []) else (t, [])
  | .established =>
    if fin then t.ackOnly k { c with rcvNxt := g.seq + 1, state := .closeWait }
    else if ack then t.dataInput k g b
    else (t, [])
  | .finWait1 =>
    if ack && fin then t.ackOnly k { c with rcvNxt := g.seq + 1, state := .timeWait }
    else if ack then (t.set k { c with state := .finWait2 }, [])
    else if fin then t.ackOnly k { c with rcvNxt := g.seq + 1, state := .closing }
    else (t, [])
  | .finWait2 =>
    if fin then t.ackOnly k { c with rcvNxt := g.seq + 1, state := .timeWait } else (t, [])
  | .lastAck => if ack then (t.set k { c with state := .closed, active := false }, []) else (t, [])
  | .closed | .closeWait | .closing | .timeWait => (t, [])

def Tcp.rx (t : Tcp) (localIp : UInt32) (b : Pktbuf) (srcIp : UInt32) : Tcp × List Outgoing :=
  if b.len < 20 then (t, [])
  else
    let g := segmentOf b
    match tcpFindConn t srcIp g.srcPort g.dstPort with
    | none => (t, [])
    | some k => t.input localIp k g b srcIp

def Tcp.listen (t : Tcp) (localIp : UInt32) (port : UInt16) : Tcp × Int :=
  match t.alloc with
  | none => (t, -1)
  | some (t, k) =>
    (t.set k { t.conns k with
      localIp := localIp, localPort := port, state := .listen, rcvWnd := 65535 }, k.val)

def Tcp.connect (t : Tcp) (localIp remoteIp : UInt32) (remotePort : UInt16) :
    Tcp × List Outgoing × Int :=
  match t.alloc with
  | none => (t, [], -1)
  | some (t, k) =>
    let port := t.nextEphemeralPort
    let t := { t with nextEphemeralPort := port + 1 }
    let sent := (t.set k { t.conns k with
      localIp := localIp, localPort := port, remoteIp := remoteIp, remotePort := remotePort
      state := .synSent, sndNxt := 5000, rcvWnd := 65535, sndWnd := 65535 }).emit k tcpSyn []
    (sent.1, sent.2, k.val)

def Tcp.accept (t : Tcp) (listenerId : Int) : Tcp × Int :=
  match connOf listenerId with
  | none => (t, -1)
  | some l =>
    let listener := t.conns l
    if listener.active = false ∨ listener.state ≠ .listen then (t, -1)
    else
      match Fin.find? fun k =>
          let c := t.conns k
          c.active && c.state = .established && !c.accepted &&
            c.localPort == listener.localPort && c.remoteIp != 0 with
      | some k => (t.set k { t.conns k with accepted := true }, k.val)
      | none => (t, -1)

def Tcp.recv (t : Tcp) (connId : Int) (maxLen : Nat) : Tcp × Option (List UInt8) :=
  match connOf connId with
  | none => (t, none)
  | some k =>
    let c := t.conns k
    if maxLen = 0 ∨ c.active = false ∨ (c.state ≠ .established ∧ c.state ≠ .closeWait) then
      (t, none)
    else (t.set k { c with rx := c.rx.drop maxLen }, some (c.rx.take maxLen))

def Tcp.closeConn (t : Tcp) (k : Fin 128) : Tcp × List Outgoing :=
  let c := t.conns k
  match c.state with
  | .established => (t.set k { c with state := .finWait1 }).emit k (tcpFin ||| tcpAck) []
  | .closeWait => (t.set k { c with state := .lastAck }).emit k (tcpFin ||| tcpAck) []
  | _ => (t, [])

def Tcp.close (t : Tcp) (connId : Int) : Tcp × List Outgoing :=
  match connOf connId with
  | none => (t, [])
  | some k =>
    let c := t.conns k
    if c.active = false then (t, [])
    else if c.state = .listen ∨ c.state = .closed ∨ c.state = .timeWait then
      (t.set k { c with active := false, state := .closed }, [])
    else t.closeConn k

/-- A buffer with a segment as `c` would send it. -/
def Pktbuf.ofSegment (c : TcpConn) (flags : UInt8) (data : List UInt8) : Pktbuf :=
  ⟨20 + data.length, 0, ByteStore.ofList (tcpSegment c flags data)⟩

/-! The stack runs the machine. -/

def Stack.handOn (s : Stack) (out : List Outgoing) : Stack :=
  out.foldl (fun s o => (ipv4Send s o.conn.remoteIp 6 (tcpSegment o.conn o.flags o.data)).1) s

def Stack.reacted (s : Stack) (r : Tcp × List Outgoing) : Stack :=
  ({ s with tcp := r.1 }).handOn r.2

section
variable (s : Stack)

section
variable (k : Fin 128) (g : Segment) (b : Pktbuf) (srcIp : UInt32)

theorem tcpSendSegment_runs (flags : UInt8) (data : List UInt8) :
    (tcpSendSegment s k flags data).1 = s.reacted (s.tcp.emit k flags data) := rfl

theorem tcpAllocConn_runs : tcpAllocConn s =
    s.tcp.alloc.map fun r => ({ s with tcp := r.1 }, r.2) := by
  unfold tcpAllocConn Tcp.alloc
  cases Fin.find? fun k => !(s.tcp.conns k).active with
  | none | some => rfl

theorem tcpListenInput_runs :
    tcpListenInput s g srcIp = s.reacted (s.tcp.listenInput s.localIp g srcIp) := by
  unfold tcpListenInput Tcp.listenInput
  rw [tcpAllocConn_runs]
  cases s.tcp.alloc with
  | none | some => rfl

theorem tcpDataInput_runs : tcpDataInput s k g b = s.reacted (s.tcp.dataInput k g b) := by
  unfold tcpDataInput Tcp.dataInput
  dsimp only
  have hcopy : (takenBytes { s.tcp.conns k with sndUna := g.ack } g b).length =
      min (payloadLen g b) (8192 - (s.tcp.conns k).rx.length) := ByteStore.length_readBytes ..
  have hpayload : u16 (65536 + b.len - g.dataOff) = payloadLen g b := rfl
  rw [hcopy, hpayload]
  by_cases h : 0 < payloadLen g b ∧ g.seq = (s.tcp.conns k).rcvNxt
  · rw [if_pos h, if_pos h]
    rfl
  · rw [if_neg h, if_neg h]
    rfl

theorem reacted_ite {p : Prop} [Decidable p] {x y : Stack} {r r' : Tcp × List Outgoing}
    (hx : x = s.reacted r) (hy : y = s.reacted r') :
    (if p then x else y) = s.reacted (if p then r else r') := by
  rw [hx, hy, apply_ite s.reacted]

theorem tcpInput_runs : tcpInput s k g b srcIp = s.reacted (s.tcp.input s.localIp k g b srcIp) := by
  unfold tcpInput Tcp.input
  dsimp only
  cases (s.tcp.conns k).state with
  | listen => exact reacted_ite s (tcpListenInput_runs s g srcIp) rfl
  | synSent | synReceived | finWait2 | lastAck => exact reacted_ite s rfl rfl
  | established => exact reacted_ite s rfl (reacted_ite s (tcpDataInput_runs s k g b) rfl)
  | finWait1 => exact reacted_ite s rfl (reacted_ite s rfl (reacted_ite s rfl rfl))
  | closed | closeWait | closing | timeWait => rfl

theorem tcpRx_runs (i : Nat) (srcIp : UInt32) :
    tcpRx s i srcIp = (s.reacted (s.tcp.rx s.localIp (s.buf i) srcIp)).free i := by
  unfold tcpRx Tcp.rx
  dsimp only
  by_cases hlen : (s.buf i).len < 20
  · rw [if_pos hlen, if_pos hlen]
    rfl
  rw [if_neg hlen, if_neg hlen]
  cases tcpFindConn s.tcp srcIp (segmentOf (s.buf i)).srcPort (segmentOf (s.buf i)).dstPort with
  | none => rfl
  | some k => exact congrArg (Stack.free · i) (tcpInput_runs s k _ _ srcIp)

theorem tcpListen_runs (port : UInt16) : tcpListen s port =
    ({ s with tcp := (s.tcp.listen s.localIp port).1 }, (s.tcp.listen s.localIp port).2) := by
  unfold tcpListen Tcp.listen
  rw [tcpAllocConn_runs]
  cases s.tcp.alloc with
  | none | some => rfl

theorem tcpConnect_runs (ip : UInt32) (port : UInt16) : tcpConnect s ip port =
    (s.reacted ((s.tcp.connect s.localIp ip port).1, (s.tcp.connect s.localIp ip port).2.1),
      (s.tcp.connect s.localIp ip port).2.2) := by
  unfold tcpConnect Tcp.connect
  rw [tcpAllocConn_runs]
  cases s.tcp.alloc with
  | none | some => rfl

theorem tcpAccept_runs (id : Int) : tcpAccept s id =
    ({ s with tcp := (s.tcp.accept id).1 }, (s.tcp.accept id).2) := by
  unfold tcpAccept Tcp.accept
  cases connOf id with
  | none => rfl
  | some l =>
    dsimp only
    by_cases h : (s.tcp.conns l).active = false ∨ (s.tcp.conns l).state ≠ .listen
    · rw [if_pos h, if_pos h]
    rw [if_neg h, if_neg h]
    generalize (Fin.find? fun k => (s.tcp.conns k).active &&
      decide ((s.tcp.conns k).state = .established) && !(s.tcp.conns k).accepted &&
      (s.tcp.conns k).localPort == (s.tcp.conns l).localPort &&
      (s.tcp.conns k).remoteIp != 0) = found
    cases found with
    | none | some => rfl

theorem tcpRecvId_runs (id : Int) (n : Nat) : tcpRecvId s id n =
    ({ s with tcp := (s.tcp.recv id n).1 }, (s.tcp.recv id n).2) := by
  unfold tcpRecvId Tcp.recv
  cases connOf id with
  | none => rfl
  | some k =>
    dsimp only
    split <;> rfl

theorem tcpCloseConn_runs : (tcpCloseConn s k).1 = s.reacted (s.tcp.closeConn k) := by
  unfold tcpCloseConn Tcp.closeConn
  dsimp only
  cases (s.tcp.conns k).state <;> rfl

end

theorem tcpCloseId_runs (id : Int) : (tcpCloseId s id).1 = s.reacted (s.tcp.close id) := by
  unfold tcpCloseId Tcp.close
  cases connOf id with
  | none => rfl
  | some k =>
    dsimp only
    by_cases hactive : (s.tcp.conns k).active = false
    · rw [if_pos hactive, if_pos hactive]
      rfl
    rw [if_neg hactive, if_neg hactive]
    by_cases hdone : (s.tcp.conns k).state = .listen ∨ (s.tcp.conns k).state = .closed ∨
        (s.tcp.conns k).state = .timeWait
    · rw [if_pos hdone, if_pos hdone]
      rfl
    · rw [if_neg hdone, if_neg hdone]
      exact tcpCloseConn_runs s k

end

/-! What is left alone by what is sent. -/

section
variable (s : Stack)

theorem ethernetSend_suffix (dr : Driver) (frame : List UInt8) :
    dr.sent <:+ (ethernetSend dr frame).1.sent := by
  unfold ethernetSend
  split
  · exact suffix_refl _
  · cases dr.tx <;> exact suffix_cons _ _

theorem ethernetTx_frame (mac : Mac) (et : UInt16) (i : Nat) :
    ∃ pool driver, (ethernetTx s mac et i).1 = { s with pool := pool, driver := driver } ∧
      s.driver.sent <:+ driver.sent := by
  unfold ethernetTx
  cases pktbufPush s.pool i 14 with
  | none => exact ⟨pktbufFree s.pool i, s.driver, rfl, suffix_refl _⟩
  | some pool => exact ⟨_, _, rfl, ethernetSend_suffix _ _⟩

theorem arpSend_frame (op : UInt16) (ip : UInt32) (mac : Mac) :
    ∃ pool driver, (arpSend s op ip mac).1 = { s with pool := pool, driver := driver } ∧
      s.driver.sent <:+ driver.sent := by
  unfold arpSend
  rcases pktbufAlloc s.pool with ⟨pool, i | i⟩
  · exact ⟨pool, s.driver, rfl, suffix_refl _⟩
  · exact ethernetTx_frame { s with pool := _ } mac ethTypeArp i

theorem ipv4Output_frame (dst : UInt32) (i : Nat) :
    ∃ pool driver, (ipv4Output s dst i).1 = { s with pool := pool, driver := driver } ∧
      s.driver.sent <:+ driver.sent := by
  unfold ipv4Output
  split
  · exact ethernetTx_frame s _ _ i
  split
  · exact ⟨pktbufFree s.pool i, s.driver, rfl, suffix_refl _⟩
  cases arpCacheLookup s.arp (nextHop s dst) with
  | none =>
    obtain ⟨pool, driver, hsent, hsuffix⟩ := arpSend_frame s 1 (nextHop s dst) broadcastMac
    refine ⟨pktbufFree pool i, driver, ?_, hsuffix⟩
    show (arpSend s 1 (nextHop s dst) broadcastMac).1.free i = _
    rw [hsent]
    rfl
  | some mac => exact ethernetTx_frame s _ _ i

theorem ipv4Send_frame (dst : UInt32) (proto : UInt8) (payload : List UInt8) :
    ∃ pool driver id, (ipv4Send s dst proto payload).1 =
      { s with pool := pool, driver := driver, ipIdCounter := id } ∧
        s.driver.sent <:+ driver.sent := by
  unfold ipv4Send
  split
  · exact ⟨s.pool, s.driver, s.ipIdCounter, rfl, suffix_refl _⟩
  rcases pktbufAlloc s.pool with ⟨pool, i | i⟩
  · exact ⟨pool, s.driver, s.ipIdCounter, rfl, suffix_refl _⟩
  obtain ⟨pool', driver, hsent⟩ :=
    ipv4Output_frame { s with pool := _, ipIdCounter := s.ipIdCounter + 1 } dst i
  exact ⟨pool', driver, s.ipIdCounter + 1, hsent⟩

theorem handOn_frame (out : List Outgoing) :
    ∃ pool driver id, s.handOn out = { s with pool := pool, driver := driver, ipIdCounter := id } := by
  induction out generalizing s with
  | nil => exact ⟨s.pool, s.driver, s.ipIdCounter, rfl⟩
  | cons o out ih =>
    obtain ⟨pool, driver, id, hfirst, -⟩ :=
      ipv4Send_frame s o.conn.remoteIp 6 (tcpSegment o.conn o.flags o.data)
    obtain ⟨pool', driver', id', hrest⟩ :=
      ih { s with pool := pool, driver := driver, ipIdCounter := id }
    refine ⟨pool', driver', id', ?_⟩
    rw [Stack.handOn, foldl_cons, hfirst]
    exact hrest

theorem reacted_frame (r : Tcp × List Outgoing) : ∃ pool driver id, s.reacted r =
    { s with tcp := r.1, pool := pool, driver := driver, ipIdCounter := id } :=
  handOn_frame { s with tcp := r.1 } r.2

theorem reacted_tcp (r : Tcp × List Outgoing) : (s.reacted r).tcp = r.1 := by
  obtain ⟨pool, driver, id, hr⟩ := reacted_frame s r
  rw [hr]

end

/-! What a segment does. -/

variable {g : Segment} {ip : UInt32} {rport lport : UInt16} {b : Pktbuf} {c c' : TcpConn}
  {acked : Bool}

section
variable {t : Tcp} {k : Fin 128}

@[simp] theorem set_self (c : TcpConn) : (t.set k c).conns k = c := update_self ..

theorem set_other (c : TcpConn) {j : Fin 128} (h : j ≠ k) : (t.set k c).conns j = t.conns j :=
  update_of_ne h ..

@[simp] theorem set_set (c c' : TcpConn) : (t.set k c).set k c' = t.set k c' := by
  simp [Tcp.set]

section
variable (t : Tcp) (localIp : UInt32)

theorem emit_ack (k : Fin 128) : t.emit k tcpAck [] = (t, [⟨k, t.conns k, tcpAck, []⟩]) := by
  have hsame : (t.conns k).sndNxt + 0 + 0 + .ofNat ([] : List UInt8).length = (t.conns k).sndNxt := by
    simp
  have hself : t.set k (t.conns k) = t := by rw [Tcp.set, update_eq_self]
  rw [Tcp.emit, if_neg (by decide), if_neg (by decide), hsame, hself]

theorem ackOnly_eq (k : Fin 128) (c : TcpConn) :
    t.ackOnly k c = (t.set k c, [⟨k, c, tcpAck, []⟩]) := by
  rw [Tcp.ackOnly, emit_ack, set_self]

inductive FinTo (g : Segment) : TcpState → TcpState → Prop
  | established : FinTo g .established .closeWait
  | both : hasFlag g.flags tcpAck = true → FinTo g .finWait1 .timeWait
  | crossed : hasFlag g.flags tcpAck = false → FinTo g .finWait1 .closing
  | finWait2 : FinTo g .finWait2 .timeWait

theorem FinTo.target {s s' : TcpState} (h : FinTo g s s') : s' ≠ .listen ∧ s' ≠ .lastAck := by
  cases h <;> exact ⟨by simp, by simp⟩

/-- What a segment makes of the connection it is for, and whether it is acknowledged. -/
inductive Reaction (g : Segment) (b : Pktbuf) (c : TcpConn) : TcpConn → Bool → Prop
  | connected : c.state = .synSent → hasFlag g.flags tcpSyn = true →
      Reaction g b c { c with rcvNxt := g.seq + 1, sndUna := g.ack, state := .established } true
  | confirmed : c.state = .synReceived →
      Reaction g b c { c with sndUna := g.ack, state := .established } false
  | data : c.state = .established → hasFlag g.flags tcpFin = false → 0 < payloadLen g b →
      g.seq = c.rcvNxt →
      Reaction g b c { c with
        sndUna := g.ack, rx := c.rx ++ takenBytes c g b
        rcvNxt := c.rcvNxt + .ofNat (takenBytes c g b).length } true
  | noted : c.state = .established → Reaction g b c { c with sndUna := g.ack } false
  | fin {next : TcpState} : hasFlag g.flags tcpFin = true → FinTo g c.state next →
      Reaction g b c { c with rcvNxt := g.seq + 1, state := next } true
  | finAcked : c.state = .finWait1 → hasFlag g.flags tcpAck = true →
      Reaction g b c { c with state := .finWait2 } false
  | gone : c.state = .lastAck → hasFlag g.flags tcpAck = true →
      Reaction g b c { c with state := .closed, active := false } false

theorem input_cases (k : Fin 128) (g : Segment) (b : Pktbuf)
    (srcIp : UInt32) (hstate : (t.conns k).state ≠ .listen) :
    t.input localIp k g b srcIp = (t, []) ∨ ∃ c acked, Reaction g b (t.conns k) c acked ∧
      t.input localIp k g b srcIp = (t.set k c, if acked then [⟨k, c, tcpAck, []⟩] else []) := by
  unfold Tcp.input
  simp only [ackOnly_eq]
  cases hs : (t.conns k).state with
  | listen => exact absurd hs hstate
  | closed | closeWait | closing | timeWait => exact .inl rfl
  | synSent =>
    by_cases h : (hasFlag g.flags tcpSyn && hasFlag g.flags tcpAck) = true
    · exact .inr ⟨_, true, .connected hs (Bool.and_eq_true_iff.mp h).1, if_pos h⟩
    · exact .inl (if_neg h)
  | synReceived =>
    by_cases h : hasFlag g.flags tcpAck = true
    · exact .inr ⟨_, false, .confirmed hs, if_pos h⟩
    · exact .inl (if_neg h)
  | established =>
    by_cases hfin : hasFlag g.flags tcpFin = true
    · exact .inr ⟨_, true, .fin hfin (hs ▸ .established), if_pos hfin⟩
    by_cases hack : hasFlag g.flags tcpAck = true
    · have hnofin : hasFlag g.flags tcpFin = false := by simpa using hfin
      by_cases hdata : 0 < payloadLen g b ∧ g.seq = (t.conns k).rcvNxt
      · refine .inr ⟨_, true, .data hs hnofin hdata.1 hdata.2, ?_⟩
        dsimp only
        rw [if_neg hfin, if_pos hack, Tcp.dataInput]
        rw [if_pos hdata, ackOnly_eq]
        rfl
      · refine .inr ⟨_, false, .noted hs, ?_⟩
        dsimp only
        rw [if_neg hfin, if_pos hack, Tcp.dataInput]
        rw [if_neg hdata]
        rfl
    · exact .inl ((if_neg hfin).trans (if_neg hack))
  | finWait1 =>
    by_cases hfin : hasFlag g.flags tcpFin = true
    · cases hack : hasFlag g.flags tcpAck with
      | true =>
        have hnext : FinTo g (t.conns k).state .timeWait := hs ▸ .both hack
        exact .inr ⟨_, true, .fin hfin hnext, by simp [hfin]⟩
      | false =>
        have hnext : FinTo g (t.conns k).state .closing := hs ▸ .crossed hack
        exact .inr ⟨_, true, .fin hfin hnext, by simp [hfin]⟩
    · by_cases hack : hasFlag g.flags tcpAck = true
      · exact .inr ⟨_, false, .finAcked hs hack, by simp [hfin, hack]⟩
      · exact .inl (by simp [hfin, hack])
  | finWait2 =>
    by_cases hfin : hasFlag g.flags tcpFin = true
    · exact .inr ⟨_, true, .fin hfin (hs ▸ .finWait2), if_pos hfin⟩
    · exact .inl (if_neg hfin)
  | lastAck =>
    by_cases hack : hasFlag g.flags tcpAck = true
    · exact .inr ⟨_, false, .gone hs hack, if_pos hack⟩
    · exact .inl (if_neg hack)

/-- The slot `tcp_alloc_conn` takes. -/
def Tcp.idle (t : Tcp) : Option (Fin 128) := Fin.find? fun k => !(t.conns k).active

def TcpConn.fresh (c : TcpConn) : TcpConn := { c with active := true, rx := [], accepted := false }

theorem alloc_eq : t.alloc = t.idle.map fun k => (t.set k (t.conns k).fresh, k) := rfl

def TcpConn.opened (c : TcpConn) (localIp : UInt32) (g : Segment) (srcIp : UInt32) : TcpConn :=
  { openedBy c.fresh localIp g srcIp with sndNxt := 1001 }

theorem listenInput_cases (g : Segment) (srcIp : UInt32) :
    t.idle = none ∧ t.listenInput localIp g srcIp = (t, []) ∨
      ∃ k, t.idle = some k ∧ t.listenInput localIp g srcIp =
        (t.set k ((t.conns k).opened localIp g srcIp),
          [⟨k, openedBy (t.conns k).fresh localIp g srcIp, tcpSyn ||| tcpAck, []⟩]) := by
  unfold Tcp.listenInput
  rw [alloc_eq]
  cases hidle : t.idle with
  | none => exact .inl ⟨rfl, rfl⟩
  | some k =>
    refine .inr ⟨k, rfl, ?_⟩
    simp only [map_some, Tcp.emit, set_self, set_set]
    rfl

theorem rx_cases (b : Pktbuf) (srcIp : UInt32) : t.rx localIp b srcIp = (t, []) ∨
      (∃ l k, tcpFindConn t srcIp (segmentOf b).srcPort (segmentOf b).dstPort = some l ∧
        (t.conns l).state = .listen ∧ hasFlag (segmentOf b).flags tcpSyn = true ∧
        t.idle = some k ∧ t.rx localIp b srcIp =
          (t.set k ((t.conns k).opened localIp (segmentOf b) srcIp),
            [⟨k, openedBy (t.conns k).fresh localIp (segmentOf b) srcIp, tcpSyn ||| tcpAck, []⟩])) ∨
      ∃ k c acked, 20 ≤ b.len ∧
        tcpFindConn t srcIp (segmentOf b).srcPort (segmentOf b).dstPort = some k ∧
        Reaction (segmentOf b) b (t.conns k) c acked ∧
        t.rx localIp b srcIp = (t.set k c, if acked then [⟨k, c, tcpAck, []⟩] else []) := by
  unfold Tcp.rx
  dsimp only
  by_cases hlen : b.len < 20
  · exact .inl (if_pos hlen)
  rw [if_neg hlen]
  cases hfind : tcpFindConn t srcIp (segmentOf b).srcPort (segmentOf b).dstPort with
  | none => exact .inl rfl
  | some k =>
    dsimp only
    by_cases hlisten : (t.conns k).state = .listen
    · have hinput : t.input localIp k (segmentOf b) b srcIp =
          if hasFlag (segmentOf b).flags tcpSyn then t.listenInput localIp (segmentOf b) srcIp
          else (t, []) := by
        unfold Tcp.input
        dsimp only
        rw [hlisten]
      rw [hinput]
      by_cases hsyn : hasFlag (segmentOf b).flags tcpSyn = true
      · rw [if_pos hsyn]
        cases listenInput_cases t localIp (segmentOf b) srcIp with
        | inl hnone => exact .inl hnone.2
        | inr hsome =>
          obtain ⟨j, hidle, heq⟩ := hsome
          exact .inr (.inl ⟨k, j, rfl, hlisten, hsyn, hidle, heq⟩)
      · exact .inl (if_neg hsyn)
    · cases input_cases t localIp k (segmentOf b) b srcIp hlisten with
      | inl hsame => exact .inl hsame
      | inr hmoved =>
        obtain ⟨c, acked, hreaction, heq⟩ := hmoved
        exact .inr (.inr ⟨k, c, acked, by omega, rfl, hreaction, heq⟩)

end

/-- The segment is for the connection in slot `k`. -/
def IsFor (k : Fin 128) (t : Tcp) (b : Pktbuf) (srcIp : UInt32) : Prop :=
  20 ≤ b.len ∧ tcpFindConn t srcIp (segmentOf b).srcPort (segmentOf b).dstPort = some k
  deriving Decidable

def TcpConn.Matches (c : TcpConn) (remoteIp : UInt32) (remotePort localPort : UInt16) : Prop :=
  c.remoteIp = remoteIp ∧ c.remotePort = remotePort ∧ c.localPort = localPort
  deriving Decidable

theorem find_cases (h : tcpFindConn t ip rport lport = some k) : (t.conns k).active = true ∧
      ((t.conns k).Matches ip rport lport ∨ (t.conns k).state = .listen) := by
  cases or_eq_some_iff.mp h with
  | inl hfirst =>
    have hk := (Fin.find?_eq_some_iff.mp hfirst).1
    simp only [Bool.and_eq_true, beq_iff_eq] at hk
    exact ⟨hk.1.1.1, .inl ⟨hk.1.1.2, hk.1.2, hk.2⟩⟩
  | inr hsecond =>
    have hk := (Fin.find?_eq_some_iff.mp hsecond.2).1
    simp only [Bool.and_eq_true, beq_iff_eq, decide_eq_true_eq] at hk
    exact ⟨hk.1.1, .inr hk.1.2⟩

theorem find_port (h : tcpFindConn t ip rport lport = some k) : (t.conns k).localPort = lport := by
  cases or_eq_some_iff.mp h with
  | inl hfirst =>
    have hk := (Fin.find?_eq_some_iff.mp hfirst).1
    simp only [Bool.and_eq_true, beq_iff_eq] at hk
    exact hk.2
  | inr hsecond =>
    have hk := (Fin.find?_eq_some_iff.mp hsecond.2).1
    simp only [Bool.and_eq_true, beq_iff_eq] at hk
    exact hk.2

/-- A segment moves a connection on: it stays where it is in the table, and only the
acknowledgement of its last FIN gives the slot back. -/
theorem Reaction.keeps (h : Reaction g b c c' acked) :
    c'.Matches c.remoteIp c.remotePort c.localPort ∧ c'.accepted = c.accepted ∧
      (c'.active = c.active ∨ c.state = .lastAck ∧ c'.active = false) ∧
      c'.state ≠ .listen ∧ c'.state ≠ .lastAck := by
  cases h with
  | gone hs hack => exact ⟨⟨rfl, rfl, rfl⟩, rfl, .inr ⟨hs, rfl⟩, by simp, by simp⟩
  | fin hfin hnext =>
    obtain ⟨hlisten, hlast⟩ := hnext.target
    exact ⟨⟨rfl, rfl, rfl⟩, rfl, .inl rfl, hlisten, hlast⟩
  | connected hs hsyn | confirmed hs | finAcked hs hack =>
    exact ⟨⟨rfl, rfl, rfl⟩, rfl, .inl rfl, by simp, by simp⟩
  | data hs | noted hs => exact ⟨⟨rfl, rfl, rfl⟩, rfl, .inl rfl, by simp [hs], by simp [hs]⟩

theorem Reaction.not_listen (h : Reaction g b c c' acked) : c.state ≠ .listen := by
  intro hs
  cases h with
  | fin _ hnext =>
    rw [hs] at hnext
    cases hnext
  | connected h | confirmed h | data h | noted h | finAcked h | gone h =>
    rw [hs] at h
    cases h

theorem connOf_val (k : Fin 128) : connOf (k.val : Int) = some k := by
  rw [connOf, dif_pos (by omega)]
  rfl

inductive CloseTo : TcpState → TcpState → Prop
  | established : CloseTo .established .finWait1
  | closeWait : CloseTo .closeWait .lastAck

theorem close_cases (t : Tcp) (k : Fin 128) : t.close k.val = (t, []) ∨
      ((t.conns k).active = true ∧ ((t.conns k).state = .listen ∨ (t.conns k).state = .closed ∨
        (t.conns k).state = .timeWait) ∧
        t.close k.val = (t.set k { t.conns k with active := false, state := .closed }, [])) ∨
      ∃ next, (t.conns k).active = true ∧ CloseTo (t.conns k).state next ∧
        t.close k.val = (t.set k { t.conns k with state := next, sndNxt := (t.conns k).sndNxt + 1 },
            [⟨k, { t.conns k with state := next }, tcpFin ||| tcpAck, []⟩]) := by
  rw [Tcp.close, connOf_val]
  dsimp only
  by_cases hactive : (t.conns k).active = false
  · exact .inl (if_pos hactive)
  rw [if_neg hactive]
  have hactive : (t.conns k).active = true := by simpa using hactive
  by_cases hdone : (t.conns k).state = .listen ∨ (t.conns k).state = .closed ∨
      (t.conns k).state = .timeWait
  · exact .inr (.inl ⟨hactive, hdone, if_pos hdone⟩)
  rw [if_neg hdone, Tcp.closeConn]
  have hfin : ∀ c : TcpConn, (t.set k c).emit k (tcpFin ||| tcpAck) [] =
      (t.set k { c with sndNxt := c.sndNxt + 1 }, [⟨k, c, tcpFin ||| tcpAck, []⟩]) := by
    intro c
    have hsnd : c.sndNxt + 0 + 1 + .ofNat ([] : List UInt8).length = c.sndNxt + 1 := by simp
    rw [Tcp.emit, if_neg (by decide), if_pos (by decide), set_self, set_set, hsnd]
  simp only [hfin]
  cases hs : (t.conns k).state with
  | established => exact .inr (.inr ⟨_, hactive, .established, rfl⟩)
  | closeWait => exact .inr (.inr ⟨_, hactive, .closeWait, rfl⟩)
  | _ => exact .inl rfl

theorem connOf_eq {id : Int} (h : connOf id = some k) : id = k.val := by
  unfold connOf at h
  split at h
  · cases h
    dsimp only
    omega
  · cases h

/-- What `tcp_listen` leaves in the slot it takes. -/
def TcpConn.listening (c : TcpConn) (localIp : UInt32) (port : UInt16) : TcpConn :=
  { c.fresh with localIp := localIp, localPort := port, state := .listen, rcvWnd := 65535 }

theorem listen_cases (t : Tcp) (localIp : UInt32) (port : UInt16) :
    t.idle = none ∧ t.listen localIp port = (t, -1) ∨ ∃ k, t.idle = some k ∧
        t.listen localIp port = (t.set k ((t.conns k).listening localIp port), (k.val : Int)) := by
  unfold Tcp.listen
  rw [alloc_eq]
  cases hidle : t.idle with
  | none => exact .inl ⟨rfl, rfl⟩
  | some k =>
    refine .inr ⟨k, rfl, ?_⟩
    simp only [map_some, set_self, set_set]
    rfl

/-- What `tcp_connect` leaves in the slot it takes. -/
def TcpConn.dialing (c : TcpConn) (localIp : UInt32) (port : UInt16) (remoteIp : UInt32)
    (remotePort : UInt16) : TcpConn :=
  { c.fresh with
    localIp := localIp, localPort := port, remoteIp := remoteIp, remotePort := remotePort
    state := .synSent, sndNxt := 5001, rcvWnd := 65535, sndWnd := 65535 }

theorem connect_cases (t : Tcp) (localIp remoteIp : UInt32) (remotePort : UInt16) :
    t.idle = none ∧ t.connect localIp remoteIp remotePort = (t, [], -1) ∨
      ∃ k, t.idle = some k ∧ (t.connect localIp remoteIp remotePort).2.2 = k.val ∧
        (t.connect localIp remoteIp remotePort).1 =
          { t with nextEphemeralPort := t.nextEphemeralPort + 1 }.set k
            ((t.conns k).dialing localIp t.nextEphemeralPort remoteIp remotePort) := by
  unfold Tcp.connect
  rw [alloc_eq]
  cases hidle : t.idle with
  | none => exact .inl ⟨rfl, rfl⟩
  | some k =>
    refine .inr ⟨k, rfl, rfl, ?_⟩
    simp only [map_some, Tcp.emit, Tcp.set, update_self, update_idem]
    rfl

theorem accept_cases (t : Tcp) (id : Int) : t.accept id = (t, -1) ∨
      ∃ l k, id = (l.val : Int) ∧ (t.conns l).active = true ∧ (t.conns l).state = .listen ∧
        (t.conns k).active = true ∧ (t.conns k).state = .established ∧
        (t.conns k).accepted = false ∧ (t.conns k).localPort = (t.conns l).localPort ∧
        t.accept id = (t.set k { t.conns k with accepted := true }, (k.val : Int)) := by
  unfold Tcp.accept
  cases hid : connOf id with
  | none => exact .inl rfl
  | some l =>
    dsimp only
    by_cases hl : (t.conns l).active = false ∨ (t.conns l).state ≠ .listen
    · exact .inl (if_pos hl)
    rw [if_neg hl]
    simp only [not_or, Bool.not_eq_false, not_not] at hl
    cases hfind : Fin.find? fun k => (t.conns k).active && decide ((t.conns k).state = .established) &&
        !(t.conns k).accepted && (t.conns k).localPort == (t.conns l).localPort &&
        (t.conns k).remoteIp != 0 with
    | none => exact .inl rfl
    | some k =>
      have hk := (Fin.find?_eq_some_iff.mp hfind).1
      simp only [Bool.and_eq_true, decide_eq_true_eq, Bool.not_eq_true', beq_iff_eq] at hk
      exact .inr ⟨l, k, connOf_eq hid, hl.1, hl.2, hk.1.1.1.1, hk.1.1.1.2, hk.1.1.2, hk.1.2, rfl⟩

theorem idle_inactive (h : t.idle = some k) : (t.conns k).active = false := by
  have hk := (Fin.find?_eq_some_iff.mp h).1
  simpa using hk

/-- What a segment does to a slot in use: it leaves it alone and sends nothing for it, or it is for
the connection there and moves it on. -/
theorem rx_slot {t : Tcp} {k : Fin 128} (localIp : UInt32) (b : Pktbuf) (srcIp : UInt32)
    (hk : (t.conns k).active = true) :
    ((t.rx localIp b srcIp).1.conns k = t.conns k ∧ ∀ o ∈ (t.rx localIp b srcIp).2, o.slot ≠ k) ∨
      ∃ c acked, IsFor k t b srcIp ∧ Reaction (segmentOf b) b (t.conns k) c acked ∧
        t.rx localIp b srcIp = (t.set k c, if acked then [⟨k, c, tcpAck, []⟩] else []) := by
  rcases rx_cases t localIp b srcIp with
    hsame | ⟨l, j, -, -, -, hidle, hopened⟩ | ⟨j, c, acked, hlen, hfind, hreaction, hmoved⟩
  · rw [hsame]
    exact .inl ⟨rfl, fun o ho => by simp at ho⟩
  · have hj : j ≠ k := by
      rintro rfl
      exact absurd (hk.symm.trans (idle_inactive hidle)) (by decide)
    rw [hopened]
    refine .inl ⟨set_other _ hj.symm, fun o ho => ?_⟩
    rw [mem_singleton.mp ho]
    exact hj
  · by_cases hj : j = k
    · subst hj
      exact .inr ⟨c, acked, ⟨hlen, hfind⟩, hreaction, hmoved⟩
    rw [hmoved]
    refine .inl ⟨set_other _ (Ne.symm hj), fun o ho => ?_⟩
    cases acked with
    | true =>
      rw [mem_singleton.mp ho]
      exact hj
    | false => simp at ho

end

/-! A connection, the peer's side of it, and a table that holds it. -/

def hostConn : TcpConn :=
  ⟨5, 80, 7, 4000, .established, 1001, 1001, 6001, 65535, 65535, [], true, false⟩

def peerConn : TcpConn :=
  ⟨7, 4000, 5, 80, .established, 6001, 6001, 1001, 65535, 65535, [], true, false⟩

def hostTable : Tcp := quiet.tcp.set 0 hostConn

def fromPeer (seq : UInt32) (flags : UInt8) (data : List UInt8) : Pktbuf :=
  .ofSegment { peerConn with sndNxt := seq } flags data

end AegisOS.Net
