import AegisOS.NetTables

/-! The transport protocols (`net/tcp.c`, `net/udp.c`) and the input path down to
them: `ethernet_rx`, `ipv4_rx` and `ipv6_rx`. -/
namespace AegisOS.Net
open ByteStore Function

/-! TCP. -/

def tcpFin : UInt8 := 0x01
def tcpSyn : UInt8 := 0x02
def tcpPsh : UInt8 := 0x08
def tcpAck : UInt8 := 0x10

def pseudoHeader (src dst : UInt32) (proto : UInt8) (len : Nat) : List UInt8 :=
  bytes32 src ++ bytes32 dst ++ [0, proto] ++ be16 (.ofNat len)

def tcpHeader (c : TcpConn) (flags : UInt8) (checksum : UInt16) : List UInt8 :=
  be16 c.localPort ++ be16 c.remotePort ++ bytes32 (bswap32 c.sndNxt) ++
    bytes32 (bswap32 c.rcvNxt) ++ [0x50, flags] ++ be16 c.rcvWnd ++ bytes16 checksum ++ [0, 0]

def tcpSegment (c : TcpConn) (flags : UInt8) (data : List UInt8) : List UInt8 :=
  let sum := inetChecksum
    (pseudoHeader c.localIp c.remoteIp 6 (20 + data.length) ++ tcpHeader c flags 0 ++ data)
  tcpHeader c flags sum ++ data

def Stack.setConn (s : Stack) (k : Fin 128) (c : TcpConn) : Stack :=
  { s with tcp := { s.tcp with conns := update s.tcp.conns k c } }

def hasFlag (flags bit : UInt8) : Bool := flags &&& bit != 0

def tcpSendSegment (s : Stack) (k : Fin 128) (flags : UInt8) (data : List UInt8) : Stack × Int :=
  let c := s.tcp.conns k
  let syn : UInt32 := if hasFlag flags tcpSyn then 1 else 0
  let fin : UInt32 := if hasFlag flags tcpFin then 1 else 0
  let s := s.setConn k { c with sndNxt := c.sndNxt + syn + fin + .ofNat data.length }
  ipv4Send s c.remoteIp 6 (tcpSegment c flags data)

def tcpFindConn (t : Tcp) (remoteIp : UInt32) (remotePort localPort : UInt16) : Option (Fin 128) :=
  (Fin.find? fun k => (t.conns k).active && (t.conns k).remoteIp == remoteIp &&
      (t.conns k).remotePort == remotePort && (t.conns k).localPort == localPort).or
    (Fin.find? fun k => (t.conns k).active && (t.conns k).state = .listen &&
      (t.conns k).localPort == localPort)

def tcpAllocConn (s : Stack) : Option (Stack × Fin 128) :=
  (Fin.find? fun k => !(s.tcp.conns k).active).map fun k =>
    let c := s.tcp.conns k
    (s.setConn k { c with active := true, rx := [], accepted := false }, k)

/-- The fields `tcp_rx` reads from a segment. -/
structure Segment where
  srcPort : UInt16
  dstPort : UInt16
  seq : UInt32
  ack : UInt32
  dataOff : Nat
  flags : UInt8

def segmentOf (b : Pktbuf) : Segment :=
  { srcPort := bswap16 (loadU16 b.data b.head)
    dstPort := bswap16 (loadU16 b.data (b.head + 2))
    seq := bswap32 (loadU32 b.data (b.head + 4))
    ack := bswap32 (loadU32 b.data (b.head + 8))
    dataOff := (b.data (b.head + 12) >>> 4).toNat * 4
    flags := b.data (b.head + 13) }

def tcpAckOnly (s : Stack) (k : Fin 128) (c : TcpConn) : Stack :=
  (tcpSendSegment (s.setConn k c) k tcpAck []).1

/-- A SYN for a listening port opens a connection of its own. -/
def tcpListenInput (s : Stack) (g : Segment) (srcIp : UInt32) : Stack :=
  match tcpAllocConn s with
  | none => s
  | some (s, k) =>
    let c := s.tcp.conns k
    let c := { c with
      localIp := s.localIp, localPort := g.dstPort, remoteIp := srcIp, remotePort := g.srcPort
      state := .synReceived, rcvNxt := g.seq + 1, sndNxt := 1000, sndWnd := 65535
      rcvWnd := 65535 }
    (tcpSendSegment (s.setConn k c) k (tcpSyn ||| tcpAck) []).1

/-- Data of an established connection; the payload length is a 16-bit difference. -/
def tcpDataInput (s : Stack) (k : Fin 128) (g : Segment) (b : Pktbuf) : Stack :=
  let c := { s.tcp.conns k with sndUna := g.ack }
  let payloadLen := u16 (65536 + b.len - g.dataOff)
  if 0 < payloadLen ∧ g.seq = c.rcvNxt then
    let copy := min payloadLen (8192 - c.rx.length)
    let payload := readBytes b.data (b.head + g.dataOff) copy
    tcpAckOnly s k { c with rx := c.rx ++ payload, rcvNxt := c.rcvNxt + .ofNat copy }
  else s.setConn k c

def tcpInput (s : Stack) (k : Fin 128) (g : Segment) (b : Pktbuf) (srcIp : UInt32) : Stack :=
  let c := s.tcp.conns k
  let syn := hasFlag g.flags tcpSyn
  let ack := hasFlag g.flags tcpAck
  let fin := hasFlag g.flags tcpFin
  match c.state with
  | .listen => if syn then tcpListenInput s g srcIp else s
  | .synSent =>
    if syn && ack then
      tcpAckOnly s k { c with rcvNxt := g.seq + 1, sndUna := g.ack, state := .established }
    else s
  | .synReceived => if ack then s.setConn k { c with sndUna := g.ack, state := .established } else s
  | .established =>
    if fin then tcpAckOnly s k { c with rcvNxt := g.seq + 1, state := .closeWait }
    else if ack then tcpDataInput s k g b
    else s
  | .finWait1 =>
    if ack && fin then tcpAckOnly s k { c with rcvNxt := g.seq + 1, state := .timeWait }
    else if ack then s.setConn k { c with state := .finWait2 }
    else if fin then tcpAckOnly s k { c with rcvNxt := g.seq + 1, state := .closing }
    else s
  | .finWait2 =>
    if fin then tcpAckOnly s k { c with rcvNxt := g.seq + 1, state := .timeWait } else s
  | .lastAck => if ack then s.setConn k { c with state := .closed, active := false } else s
  | .closed | .closeWait | .closing | .timeWait => s

def tcpRx (s : Stack) (i : Nat) (srcIp : UInt32) : Stack :=
  let b := s.buf i
  if b.len < 20 then s.free i
  else
    let g := segmentOf b
    match tcpFindConn s.tcp srcIp g.srcPort g.dstPort with
    | none => s.free i
    | some k => (tcpInput s k g b srcIp).free i

def tcpListen (s : Stack) (port : UInt16) : Stack × Int :=
  match tcpAllocConn s with
  | none => (s, -1)
  | some (s, k) =>
    let c := s.tcp.conns k
    let c := { c with localIp := s.localIp, localPort := port, state := .listen, rcvWnd := 65535 }
    (s.setConn k c, k.val)

def tcpConnect (s : Stack) (remoteIp : UInt32) (remotePort : UInt16) : Stack × Int :=
  match tcpAllocConn s with
  | none => (s, -1)
  | some (s, k) =>
    let port := s.tcp.nextEphemeralPort
    let s := { s with tcp := { s.tcp with nextEphemeralPort := port + 1 } }
    let c := s.tcp.conns k
    let c := { c with
      localIp := s.localIp, localPort := port, remoteIp := remoteIp, remotePort := remotePort
      state := .synSent, sndNxt := 5000, rcvWnd := 65535, sndWnd := 65535 }
    ((tcpSendSegment (s.setConn k c) k tcpSyn []).1, k.val)

theorem length_drop_mss {data : List UInt8} (h : data ≠ []) :
    (data.drop tcpMss).length < data.length := by
  have := List.length_pos_iff.mpr h
  simp only [List.length_drop, tcpMss]
  omega

/-- The loop of `tcp_send`, which ignores a failed segment. -/
def tcpSendLoop (s : Stack) (k : Fin 128) (data : List UInt8) : Stack :=
  if _ : data = [] then s
  else
    tcpSendLoop (tcpSendSegment s k (tcpAck ||| tcpPsh) (data.take tcpMss)).1 k
      (data.drop tcpMss)
termination_by data.length
decreasing_by exact length_drop_mss (by assumption)

def tcpSend (s : Stack) (localPort : UInt16) (remoteIp : UInt32) (remotePort : UInt16)
    (data : List UInt8) : Stack × Int :=
  match tcpFindConn s.tcp remoteIp remotePort localPort with
  | none => (s, -1)
  | some k => if (s.tcp.conns k).state = .established then (tcpSendLoop s k data, 0) else (s, -1)

/-- The loop of `tcp_send_id`, which stops at a failed segment. -/
def tcpSendIdLoop (s : Stack) (k : Fin 128) (data : List UInt8) : Stack × Bool :=
  if _ : data = [] then (s, true)
  else
    let sent := tcpSendSegment s k (tcpAck ||| tcpPsh) (data.take tcpMss)
    if sent.2 = 0 then tcpSendIdLoop sent.1 k (data.drop tcpMss) else (sent.1, false)
termination_by data.length
decreasing_by exact length_drop_mss (by assumption)

def connOf (id : Int) : Option (Fin 128) :=
  if h : 0 ≤ id ∧ id < 128 then some ⟨id.toNat, by omega⟩ else none

def tcpSendId (s : Stack) (connId : Int) (data : List UInt8) : Stack × Int :=
  match connOf connId with
  | none => (s, -1)
  | some k =>
    if data = [] ∨ (s.tcp.conns k).active = false ∨ (s.tcp.conns k).state ≠ .established then
      (s, -1)
    else
      let sent := tcpSendIdLoop s k data
      (sent.1, if sent.2 then data.length else -1)

/-- The part `tcp_close` and `tcp_close_id` share: send FIN from the two open states. -/
def tcpCloseConn (s : Stack) (k : Fin 128) : Stack × Int :=
  let c := s.tcp.conns k
  match c.state with
  | .established =>
    tcpSendSegment (s.setConn k { c with state := .finWait1 }) k (tcpFin ||| tcpAck) []
  | .closeWait => tcpSendSegment (s.setConn k { c with state := .lastAck }) k (tcpFin ||| tcpAck) []
  | _ => (s, 0)

def tcpClose (s : Stack) (localPort : UInt16) (remoteIp : UInt32) (remotePort : UInt16) :
    Stack × Int :=
  match tcpFindConn s.tcp remoteIp remotePort localPort with
  | none => (s, -1)
  | some k => ((tcpCloseConn s k).1, 0)

def tcpCloseId (s : Stack) (connId : Int) : Stack × Int :=
  match connOf connId with
  | none => (s, -1)
  | some k =>
    let c := s.tcp.conns k
    if c.active = false then (s, 0)
    else if c.state = .listen ∨ c.state = .closed ∨ c.state = .timeWait then
      (s.setConn k { c with active := false, state := .closed }, 0)
    else tcpCloseConn s k

def tcpAccept (s : Stack) (listenerId : Int) : Stack × Int :=
  match connOf listenerId with
  | none => (s, -1)
  | some l =>
    let listener := s.tcp.conns l
    if listener.active = false ∨ listener.state ≠ .listen then (s, -1)
    else
      match Fin.find? fun k =>
          let c := s.tcp.conns k
          c.active && c.state = .established && !c.accepted &&
            c.localPort == listener.localPort && c.remoteIp != 0 with
      | some k => (s.setConn k { s.tcp.conns k with accepted := true }, k.val)
      | none => (s, -1)

/-- The bytes handed out, or `none` for the code's `-1`. -/
def tcpRecvId (s : Stack) (connId : Int) (maxLen : Nat) : Stack × Option (List UInt8) :=
  match connOf connId with
  | none => (s, none)
  | some k =>
    let c := s.tcp.conns k
    if maxLen = 0 ∨ c.active = false ∨ (c.state ≠ .established ∧ c.state ≠ .closeWait) then
      (s, none)
    else (s.setConn k { c with rx := c.rx.drop maxLen }, some (c.rx.take maxLen))

def tcpIsEstablished (s : Stack) (connId : Int) : Bool :=
  match connOf connId with
  | none => false
  | some k => (s.tcp.conns k).active && (s.tcp.conns k).state = .established

/-! UDP. -/

def udpRxBufSize : Nat := 4096

def udpBind (s : Stack) (port : UInt16) : Stack × Int :=
  match Fin.find? fun k => !(s.udp k).bound with
  | some k =>
    let u := s.udp k
    let u := { u with localPort := port, bound := true, rxReady := false, rx := [] }
    ({ s with udp := update s.udp k u }, k.val)
  | none => (s, -1)

def udpOf (id : Int) : Option (Fin 64) :=
  if h : 0 ≤ id ∧ id < 64 then some ⟨id.toNat, by omega⟩ else none

def udpUnbind (s : Stack) (sockId : Int) : Stack :=
  match udpOf sockId with
  | some k => { s with udp := update s.udp k { s.udp k with bound := false } }
  | none => s

def udpRx (s : Stack) (i : Nat) (srcIp : UInt32) : Stack :=
  let b := s.buf i
  if b.len < 8 then s.free i
  else
    let dstPort := bswap16 (loadU16 b.data (b.head + 2))
    let srcPort := bswap16 (loadU16 b.data b.head)
    let udpLen := bswap16 (loadU16 b.data (b.head + 4))
    -- a 16-bit difference, as the payload length is declared
    let payloadLen := (udpLen - 8).toNat
    match Fin.find? fun k => (s.udp k).bound && (s.udp k).localPort == dstPort with
    | some k =>
      let u := s.udp k
      let u := { u with
        rx := readBytes b.data (b.head + 8) (min payloadLen udpRxBufSize)
        rxSrcIp := srcIp, rxSrcPort := srcPort, rxReady := true }
      ({ s with udp := update s.udp k u }).free i
    | none => s.free i

def udpHeader (srcPort dstPort : UInt16) (total : Nat) (checksum : UInt16) : List UInt8 :=
  be16 srcPort ++ be16 dstPort ++ be16 (.ofNat total) ++ bytes16 checksum

/-- The datagram is assembled in an array of 1500 bytes; the 16-bit total is what is
checked against it. -/
def udpSend (s : Stack) (dstIp : UInt32) (dstPort srcPort : UInt16) (data : List UInt8) :
    Stack × Int :=
  let total := u16 (8 + data.length)
  if data = [] ∨ 1500 < total then (s, -1)
  else
    let plain := (udpHeader srcPort dstPort total 0 ++ data).take total
    let sum := inetChecksum (pseudoHeader s.localIp dstIp 17 total ++ plain)
    let sum := if sum == 0 then 0xFFFF else sum
    ipv4Send s dstIp 17 ((udpHeader srcPort dstPort total sum ++ data).take total)

/-- The datagram with its sender, or `none` for the code's `-1`. -/
def udpRecv (s : Stack) (sockId : Int) (maxLen : Nat) :
    Stack × Option (List UInt8 × UInt32 × UInt16) :=
  match udpOf sockId with
  | none => (s, none)
  | some k =>
    let u := s.udp k
    if u.bound = false ∨ u.rxReady = false then (s, none)
    else
      ({ s with udp := update s.udp k { u with rxReady := false, rx := [] } },
        some (u.rx.take maxLen, u.rxSrcIp, u.rxSrcPort))

/-! IPv4 input. -/

def ipv4ForUs (s : Stack) (dst : UInt32) : Bool :=
  dst == s.localIp || dst == 0xFFFFFFFF || dst &&& ~~~s.localNetmask == ~~~s.localNetmask

def ipv4Dispatch (s : Stack) (i : Nat) (proto : UInt8) (srcIp : UInt32) : Stack :=
  if proto == 1 then icmpRx s i srcIp
  else if proto == 6 then tcpRx s i srcIp
  else if proto == 17 then udpRx s i srcIp
  else s.free i

/-- The rest of `ipv4_rx` once the header length `ihl` is known to fit. -/
def ipv4Accept (s : Stack) (i ihl : Nat) : Stack :=
  let b := s.buf i
  let saved := loadU16 b.data (b.head + 10)
  let zeroed := s.pool.storeList i (b.head + 10) [0, 0]
  let computed := inetChecksum (readBytes (zeroed.bufs i).data b.head ihl)
  let s := { s with pool := zeroed.storeList i (b.head + 10) (bytes16 saved) }
  let b := s.buf i
  if computed != saved then s.free i
  else if !ipv4ForUs s (loadU32 b.data (b.head + 16)) then s.free i
  else
    let checked := firewallCheck s.firewall b
    let s := { s with firewall := checked.1 }
    if checked.2 = .drop then s.free i
    else
      let window := s.pool.setWindow i (u16 (b.head + ihl)) (u16 (b.len - ihl))
      ipv4Dispatch { s with pool := window } i (b.data (b.head + 9)) (loadU32 b.data (b.head + 12))

def ipv4Rx (s : Stack) (i : Nat) : Stack :=
  let b := s.buf i
  if b.len < 20 then s.free i
  else if b.data b.head >>> 4 != 4 then s.free i
  else
    let ihl := (b.data b.head &&& 0xF).toNat * 4
    if ihl < 20 ∨ b.len < ihl then s.free i else ipv4Accept s i ihl

/-! IPv6 input. -/

def icmpv6EchoMac : Mac := ⟨[0x33, 0x33, 0, 0, 0, 1], rfl⟩

/-- The echo reply is copied into a second buffer and sent to the all-nodes group. -/
def icmpv6EchoReply (s : Stack) (b : Pktbuf) : Stack :=
  match pktbufAlloc s.pool with
  | (pool, none) => { s with pool := pool }
  | (pool, some r) =>
    let head := (pool.bufs r).head
    let copyLen := min b.len pktMaxLen
    let pool := pool.storeAt r head copyLen fun k => b.data (b.head + k)
    let pool := pool.setWindow r head copyLen
    let pool := (pool.storeList r head [129]).storeList r (head + 2) [0, 0]
    (ethernetTx { s with pool := pool } icmpv6EchoMac ethTypeIpv6 r).1

def icmpv6Handle (s : Stack) (i : Nat) (srcAddr : Ip6) : Stack :=
  let b := s.buf i
  let type := b.data b.head
  let target := loadBytes b.data (b.head + 8) 16
  let mac := loadBytes b.data (b.head + 26) 6
  if b.len < 4 then s.free i
  else if type == 128 then (icmpv6EchoReply s b).free i
  else if type == 135 then
    if 24 ≤ b.len ∧ (target = s.linkLocalIpv6 ∨ target = s.localIpv6) then
      ({ s with nd := ndCacheSet s.nd srcAddr mac }).free i
    else s.free i
  else if type == 136 then
    if 32 ≤ b.len then ({ s with nd := ndCacheSet s.nd target mac }).free i else s.free i
  else s.free i

/-- The tests `ipv6_rx` makes of a packet at offset `head`. -/
def ipv6Accepts (s : Stack) (d : Store) (head : Nat) : Prop :=
  loadU32 d head >>> 28 &&& 0xF = 6 ∧
    (loadBytes d (head + 24) 16 = s.localIpv6 ∨ loadBytes d (head + 24) 16 = s.linkLocalIpv6 ∨
      d (head + 24) = 0xFF)
  deriving Decidable

def ipv6PayloadLen (d : Store) (head : Nat) : Nat := (bswap16 (loadU16 d (head + 4))).toNat

def ipv6Rx (s : Stack) (i : Nat) : Stack :=
  let b := s.buf i
  if b.len < 40 then s.free i
  else if ¬ipv6Accepts s b.data b.head then s.free i
  else
    let next := b.data (b.head + 6)
    let srcAddr := loadBytes b.data (b.head + 8) 16
    let s := { s with
      pool := s.pool.setWindow i (u16 (b.head + 40)) (ipv6PayloadLen b.data b.head) }
    if next == 6 then tcpRx s i 0
    else if next == 17 then udpRx s i 0
    else if next == 58 then icmpv6Handle s i srcAddr
    else s.free i

def ethernetRx (s : Stack) (i : Nat) : Stack :=
  let b := s.buf i
  match pktbufPull s.pool i 14 with
  | none => s.free i
  | some pool =>
    let et := bswap16 (loadU16 b.data (b.head + 12))
    let s := { s with pool := pool }
    if et == ethTypeIpv4 then ipv4Rx s i
    else if et == ethTypeArp then arpRx s i
    else if et == ethTypeIpv6 then ipv6Rx s i
    else s.free i

/-! The socket table and the receive poll (`net/socket.c`), and the calls through
which the rest of the kernel drives the stack. -/

def socketFdBase : Int := 0x1000

def sockTypeOf (type : Nat) : Option SockType :=
  if type = 1 then some .stream else if type = 2 then some .dgram else none

def emptySocket : Socket := ⟨false, 0, .stream, 0, 0, 0, 0, false, false⟩

def Stack.setSocket (s : Stack) (n : Fin 64) (k : Socket) : Stack :=
  { s with sockets := Function.update s.sockets n k }

/-- The table index of a descriptor that `owner` holds. -/
def socketLookup (s : Stack) (owner : Nat) (fd : Int) : Option (Fin 64) :=
  if h : 0 ≤ fd - socketFdBase ∧ fd - socketFdBase < 64 then
    let n : Fin 64 := ⟨(fd - socketFdBase).toNat, by omega⟩
    if (s.sockets n).used = true ∧ (s.sockets n).ownerPid = owner then some n else none
  else none

def netSocketCreate (s : Stack) (owner type : Nat) : Stack × Int :=
  match sockTypeOf type with
  | none => (s, aegisEinval)
  | some t =>
    if owner = 0 then (s, aegisEinval)
    else
      match Fin.find? fun n => !(s.sockets n).used with
      | some n =>
        let k := { emptySocket with used := true, ownerPid := owner, type := t, transportId := -1 }
        (s.setSocket n k, socketFdBase + n.val)
      | none => (s, aegisEnomem)

def closeTransport (s : Stack) (k : Socket) : Stack :=
  if k.transportId < 0 then s
  else
    match k.type with
    | .dgram => udpUnbind s k.transportId
    | .stream => (tcpCloseId s k.transportId).1

/-- `net_socket_close` of the entry `n`, found by its owner. -/
def closeSocket (s : Stack) (n : Fin 64) : Stack :=
  let k := s.sockets n
  let s := closeTransport s k
  let s := if k.listening then { s with listeningCount := s.listeningCount - 1 } else s
  let s := if k.connected then { s with connectedCount := s.connectedCount - 1 } else s
  s.setSocket n emptySocket

def netSocketClose (s : Stack) (owner : Nat) (fd : Int) : Stack × Int :=
  match socketLookup s owner fd with
  | none => (s, aegisEnoent)
  | some n => (closeSocket s n, aegisOk)

def netSocketCloseAll (s : Stack) (owner : Nat) : Stack :=
  (List.finRange 64).foldl (fun s n =>
    if (s.sockets n).used && (s.sockets n).ownerPid == owner then closeSocket s n else s) s

/-- A failed `udp_bind` leaves the port recorded and a negative transport id. -/
def netSocketBind (s : Stack) (owner : Nat) (fd : Int) (port : UInt16) : Stack × Int :=
  match socketLookup s owner fd with
  | none => (s, aegisEinval)
  | some n =>
    let k := s.sockets n
    if port = 0 then (s, aegisEinval)
    else if k.localPort ≠ 0 then (s, aegisEbusy)
    else
      let k := { k with localPort := port }
      match k.type with
      | .stream => (s.setSocket n k, aegisOk)
      | .dgram =>
        let bound := udpBind s port
        (bound.1.setSocket n { k with transportId := bound.2 },
          if bound.2 < 0 then aegisEbusy else aegisOk)

def netSocketListen (s : Stack) (owner : Nat) (fd : Int) : Stack × Int :=
  match socketLookup s owner fd with
  | none => (s, aegisEinval)
  | some n =>
    let k := s.sockets n
    if k.type ≠ .stream ∨ k.localPort = 0 then (s, aegisEinval)
    else
      let listened := tcpListen s k.localPort
      let k := { k with transportId := listened.2 }
      if listened.2 < 0 then (listened.1.setSocket n k, aegisEnomem)
      else
        let s := listened.1.setSocket n { k with listening := true }
        ({ s with listeningCount := s.listeningCount + 1 }, aegisOk)

/-- Receive into the fresh buffer `i` and pass the frame on; `false` ends the loop. -/
def pollReceive (s : Stack) (i : Nat) : Stack × Bool :=
  match ethernetRecv s.driver with
  | (driver, .error _) => (({ s with driver := driver }).free i, false)
  | (driver, .ok (bytes, len)) =>
    let head := (s.buf i).head
    let pool := (s.pool.storeAt i head len bytes).setWindow i head len
    (ethernetRx { s with driver := driver, pool := pool } i, true)

def pollOnce (s : Stack) : Stack × Bool :=
  match pktbufAlloc s.pool with
  | (pool, none) => ({ s with pool := pool }, false)
  | (pool, some i) => pollReceive { s with pool := pool } i

/-- At most `n` rounds of the poll loop. -/
def pollLoop : Nat → Stack → Stack
  | 0, s => s
  | n + 1, s =>
    let polled := pollOnce s
    if polled.2 then pollLoop n polled.1 else polled.1

def networkPoll (s : Stack) : Stack := pollLoop 32 s

def netSocketAccept (s : Stack) (owner : Nat) (fd : Int) : Stack × Int :=
  match socketLookup s owner fd with
  | none => (s, aegisEinval)
  | some n =>
    let l := s.sockets n
    if l.listening = false then (s, aegisEinval)
    else
      let accepted := tcpAccept (networkPoll s) l.transportId
      if accepted.2 < 0 then (accepted.1, aegisEagain)
      else
        let created := netSocketCreate accepted.1 owner 1
        if created.2 < 0 then (created.1, created.2)
        else
          match socketLookup created.1 owner created.2 with
          | none => (created.1, created.2)
          | some c =>
            let k := created.1.sockets c
            let k := { k with
              localPort := l.localPort, transportId := accepted.2, connected := true }
            let s := created.1.setSocket c k
            ({ s with connectedCount := s.connectedCount + 1 }, created.2)

def netSocketConnect (s : Stack) (owner : Nat) (fd : Int) (ip : UInt32) (port : UInt16) :
    Stack × Int :=
  match socketLookup s owner fd with
  | none => (s, aegisEinval)
  | some n =>
    if (s.sockets n).type ≠ .stream ∨ ip = 0 ∨ port = 0 then (s, aegisEinval)
    else
      let connected := tcpConnect s ip port
      let k := { connected.1.sockets n with transportId := connected.2 }
      if connected.2 < 0 then (connected.1.setSocket n k, aegisEio)
      else (connected.1.setSocket n { k with remoteIp := ip, remotePort := port }, aegisOk)

/-- The first send after the handshake counts the socket as connected. -/
def noteConnected (s : Stack) (n : Fin 64) : Stack :=
  let k := s.sockets n
  if !k.connected && tcpIsEstablished s k.transportId then
    { s.setSocket n { k with connected := true } with connectedCount := s.connectedCount + 1 }
  else s

def netSocketSend (s : Stack) (owner : Nat) (fd : Int) (data : List UInt8) : Stack × Int :=
  match socketLookup s owner fd with
  | none => (s, aegisEinval)
  | some n =>
    let k := s.sockets n
    if data.length = 0 ∨ 65535 < data.length then (s, aegisEinval)
    else
      match k.type with
      | .dgram =>
        if k.localPort = 0 ∨ k.remoteIp = 0 ∨ k.remotePort = 0 then (s, aegisEinval)
        else
          let sent := udpSend s k.remoteIp k.remotePort k.localPort data
          (sent.1, if sent.2 = 0 then data.length else aegisEio)
      | .stream => tcpSendId (noteConnected s n) k.transportId data

def netSocketRecv (s : Stack) (owner : Nat) (fd : Int) (len : Nat) :
    Stack × Except Int (List UInt8) :=
  match socketLookup s owner fd with
  | none => (s, .error aegisEinval)
  | some n =>
    if len = 0 then (s, .error aegisEinval)
    else
      let s := networkPoll s
      let k := s.sockets n
      match k.type with
      | .dgram =>
        match udpRecv s k.transportId (min len 65535) with
        | (s, none) => (s, .error aegisEagain)
        | (s, some (bytes, ip, port)) =>
          (s.setSocket n { k with remoteIp := ip, remotePort := port }, .ok bytes)
      | .stream =>
        match tcpRecvId s k.transportId (min len 65535) with
        | (s, none) => (s, .error aegisEagain)
        | (s, some bytes) => (s, .ok bytes)

/-! The calls into the stack, with the device and the holders of buffers. -/

inductive Event
  | device (rx : List RxElem) (tx : List Bool)
  | poll
  | alloc
  | push (i bytes : Nat)
  | pull (i bytes : Nat)
  | free (i : Nat)
  | ethernetRx (i : Nat)
  | ethernetTx (mac : Mac) (ethertype : UInt16) (i : Nat)
  | arpRequest (ip : UInt32)
  | ipv4Send (dst : UInt32) (proto : UInt8) (payload : List UInt8)
  | echoRequest (dst : UInt32) (id seq : UInt16)
  | destUnreachable (dst : UInt32) (code : UInt8) (orig : List UInt8)
  | udpSend (dst : UInt32) (dstPort srcPort : UInt16) (data : List UInt8)
  | tcpSend (localPort : UInt16) (remoteIp : UInt32) (remotePort : UInt16) (data : List UInt8)
  | tcpClose (localPort : UInt16) (remoteIp : UInt32) (remotePort : UInt16)
  | create (owner type : Nat)
  | bind (owner : Nat) (fd : Int) (port : UInt16)
  | listen (owner : Nat) (fd : Int)
  | accept (owner : Nat) (fd : Int)
  | connect (owner : Nat) (fd : Int) (ip : UInt32) (port : UInt16)
  | send (owner : Nat) (fd : Int) (data : List UInt8)
  | recv (owner : Nat) (fd : Int) (len : Nat)
  | close (owner : Nat) (fd : Int)
  | closeAll (owner : Nat)
  | setAddr (ip netmask gateway : UInt32)
  | setAddr6 (addr : Ip6)
  | routeAdd (route : Route)
  | routeDel (network netmask : UInt32)
  | routeSetDefault (gateway ifaceIp : UInt32)
  | ruleAdd (rule : FwRule)
  | ruleDel (id : Nat)
  | ruleFlush

def Stack.withPool (s : Stack) : Option Pool → Stack
  | some pool => { s with pool := pool }
  | none => s

def perform (s : Stack) : Event → Stack
  | .device rx tx =>
    { s with driver := { s.driver with rx := s.driver.rx ++ rx, tx := s.driver.tx ++ tx } }
  | .poll => networkPoll s
  | .alloc => { s with pool := (pktbufAlloc s.pool).1 }
  | .push i bytes => s.withPool (pktbufPush s.pool i bytes)
  | .pull i bytes => s.withPool (pktbufPull s.pool i bytes)
  | .free i => s.free i
  | .ethernetRx i => ethernetRx s i
  | .ethernetTx mac ethertype i => (ethernetTx s mac ethertype i).1
  | .arpRequest ip => (arpSendRequest s ip).1
  | .ipv4Send dst proto payload => (ipv4Send s dst proto payload).1
  | .echoRequest dst id seq => (icmpSendEchoRequest s dst id seq).1
  | .destUnreachable dst code orig => (icmpSendDestUnreachable s dst code orig).1
  | .udpSend dst dstPort srcPort data => (udpSend s dst dstPort srcPort data).1
  | .tcpSend localPort remoteIp remotePort data => (tcpSend s localPort remoteIp remotePort data).1
  | .tcpClose localPort remoteIp remotePort => (tcpClose s localPort remoteIp remotePort).1
  | .create owner type => (netSocketCreate s owner type).1
  | .bind owner fd port => (netSocketBind s owner fd port).1
  | .listen owner fd => (netSocketListen s owner fd).1
  | .accept owner fd => (netSocketAccept s owner fd).1
  | .connect owner fd ip port => (netSocketConnect s owner fd ip port).1
  | .send owner fd data => (netSocketSend s owner fd data).1
  | .recv owner fd len => (netSocketRecv s owner fd len).1
  | .close owner fd => (netSocketClose s owner fd).1
  | .closeAll owner => netSocketCloseAll s owner
  | .setAddr ip netmask gateway =>
    { s with localIp := ip, localNetmask := netmask, localGateway := gateway }
  | .setAddr6 addr => { s with localIpv6 := addr }
  | .routeAdd route => { s with routes := (routingAdd s.routes route).1 }
  | .routeDel network netmask => { s with routes := (routingDel s.routes network netmask).1 }
  | .routeSetDefault gateway ifaceIp =>
    { s with routes := (routingSetDefault s.routes gateway ifaceIp).1 }
  | .ruleAdd rule => { s with firewall := (firewallAddRule s.firewall rule).1 }
  | .ruleDel id => { s with firewall := (firewallDelRule s.firewall id).1 }
  | .ruleFlush => { s with firewall := firewallFlushRules s.firewall }

def step (s : Stack) (e : Event) : Option Stack := some (perform s e)

def quiet : Stack where
  pool := Pool.start
  driver := ⟨true, 64, [], [], []⟩
  localMac := ⟨[2, 0xae, 0x61, 0x5b, 0x0c, 1], rfl⟩
  arp := ⟨fun _ => ⟨0, .zero 6, false, 0⟩, 0⟩
  localIp := 0
  localNetmask := 0xFFFFFF00
  localGateway := 0
  ipIdCounter := 0
  routes := ⟨[], 0⟩
  firewall := ⟨[], 0, fun _ => ⟨⟨0, 0, 0, 0, 0⟩, 0, 0, false⟩, .drop, true⟩
  nd := fun _ => ⟨.zero 16, .zero 6, 0, false⟩
  localIpv6 := .zero 16
  linkLocalIpv6 := .zero 16
  tcp := ⟨fun _ => ⟨0, 0, 0, 0, .closed, 0, 0, 0, 0, 0, [], false, false⟩, 49152⟩
  udp := fun _ => ⟨0, false, [], 0, 0, false⟩
  sockets := fun _ => emptySocket
  listeningCount := 0
  connectedCount := 0

end AegisOS.Net
