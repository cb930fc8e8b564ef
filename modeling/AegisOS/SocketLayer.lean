import AegisOS.NetDatagrams

/-! The socket table over the connection table (`net/socket.c` over `net/tcp.c`): what the socket
calls and the segments that arrive between and inside them do to the two tables. -/
namespace AegisOS.Net

structure SocketLayer where
  tcp : Tcp
  sockets : Fin 64 → Socket

abbrev Stack.layer (s : Stack) : SocketLayer := ⟨s.tcp, s.sockets⟩

namespace SocketLayer

def setSocket (w : SocketLayer) (n : Fin 64) (k : Socket) : SocketLayer :=
  { w with sockets := Function.update w.sockets n k }

theorem index_lt (fd : Int) (h : 0 ≤ fd - socketFdBase ∧ fd - socketFdBase < 64) :
    (fd - socketFdBase).toNat < 64 := by omega

def lookup (w : SocketLayer) (owner : Nat) (fd : Int) : Option (Fin 64) :=
  if h : 0 ≤ fd - socketFdBase ∧ fd - socketFdBase < 64 then
    let n : Fin 64 := ⟨(fd - socketFdBase).toNat, index_lt fd h⟩
    if (w.sockets n).used = true ∧ (w.sockets n).ownerPid = owner then some n else none
  else none

def createdSocket (owner : Nat) (type : SockType) : Socket :=
  { emptySocket with used := true, ownerPid := owner, type := type, transportId := -1 }

def create (w : SocketLayer) (owner type : Nat) : SocketLayer × Int :=
  match sockTypeOf type with
  | none => (w, aegisEinval)
  | some t =>
    if owner = 0 then (w, aegisEinval)
    else
      match Fin.find? fun n => !(w.sockets n).used with
      | some n => (w.setSocket n (createdSocket owner t), socketFdBase + n.val)
      | none => (w, aegisEnomem)

/-- `udpId` is what `udp_bind` answers. -/
def bind (w : SocketLayer) (owner : Nat) (fd : Int) (port : UInt16) (udpId : Int) : SocketLayer :=
  match w.lookup owner fd with
  | none => w
  | some n =>
    let k := w.sockets n
    if port = 0 ∨ k.localPort ≠ 0 then w
    else
      let k := { k with localPort := port }
      match k.type with
      | .stream => w.setSocket n k
      | .dgram => w.setSocket n { k with transportId := udpId }

def listen (w : SocketLayer) (owner : Nat) (fd : Int) (localIp : UInt32) : SocketLayer :=
  match w.lookup owner fd with
  | none => w
  | some n =>
    let k := w.sockets n
    if k.type ≠ .stream ∨ k.localPort = 0 then w
    else
      let listened := w.tcp.listen localIp k.localPort
      let w := { w with tcp := listened.1 }
      let k := { k with transportId := listened.2 }
      if listened.2 < 0 then w.setSocket n k else w.setSocket n { k with listening := true }

/-- `net_socket_accept` behind its poll. -/
def accept (w : SocketLayer) (owner : Nat) (fd : Int) : SocketLayer :=
  match w.lookup owner fd with
  | none => w
  | some n =>
    let l := w.sockets n
    if l.listening = false then w
    else
      let accepted := w.tcp.accept l.transportId
      let w := { w with tcp := accepted.1 }
      if accepted.2 < 0 then w
      else
        let created := w.create owner 1
        if created.2 < 0 then created.1
        else
          match created.1.lookup owner created.2 with
          | none => created.1
          | some c =>
            let k := created.1.sockets c
            created.1.setSocket c { k with
              localPort := l.localPort, transportId := accepted.2, connected := true }

def connect (w : SocketLayer) (owner : Nat) (fd : Int) (localIp ip : UInt32) (port : UInt16) :
    SocketLayer :=
  match w.lookup owner fd with
  | none => w
  | some n =>
    if (w.sockets n).type ≠ .stream ∨ ip = 0 ∨ port = 0 then w
    else
      let connected := w.tcp.connect localIp ip port
      let w := { w with tcp := connected.1 }
      let k := { w.sockets n with transportId := connected.2.2 }
      if connected.2.2 < 0 then w.setSocket n k
      else w.setSocket n { k with remoteIp := ip, remotePort := port }

def isEstablished (w : SocketLayer) (id : Int) : Bool :=
  match connOf id with
  | none => false
  | some k => (w.tcp.conns k).active && (w.tcp.conns k).state = .established

def noteConnected (w : SocketLayer) (n : Fin 64) : SocketLayer :=
  let k := w.sockets n
  if !k.connected && w.isEstablished k.transportId then w.setSocket n { k with connected := true }
  else w

/-- `tcp_send_id`: the segments it builds leave the connection at `sndNxt`. -/
def sendOn (w : SocketLayer) (id : Int) (sndNxt : UInt32) : SocketLayer :=
  match connOf id with
  | none => w
  | some c => { w with tcp := w.tcp.set c { w.tcp.conns c with sndNxt := sndNxt } }

def send (w : SocketLayer) (owner : Nat) (fd : Int) (sndNxt : UInt32) : SocketLayer :=
  match w.lookup owner fd with
  | none => w
  | some n =>
    match (w.sockets n).type with
    | .dgram => w
    | .stream => (w.noteConnected n).sendOn (w.sockets n).transportId sndNxt

/-- `net_socket_recv` behind its poll; `peer` is the sender of the datagram taken. -/
def recv (w : SocketLayer) (owner : Nat) (fd : Int) (len : Nat) (peer : Option (UInt32 × UInt16)) :
    SocketLayer :=
  match w.lookup owner fd with
  | none => w
  | some n =>
    let k := w.sockets n
    match k.type, peer with
    | .dgram, none => w
    | .dgram, some (ip, port) => w.setSocket n { k with remoteIp := ip, remotePort := port }
    | .stream, _ => { w with tcp := (w.tcp.recv k.transportId (min len 65535)).1 }

def closeSocket (w : SocketLayer) (n : Fin 64) : SocketLayer :=
  let k := w.sockets n
  let w := if k.transportId < 0 then w else
    match k.type with
    | .dgram => w
    | .stream => { w with tcp := (w.tcp.close k.transportId).1 }
  w.setSocket n emptySocket

def close (w : SocketLayer) (owner : Nat) (fd : Int) : SocketLayer :=
  match w.lookup owner fd with
  | none => w
  | some n => w.closeSocket n

end SocketLayer

/-- The socket calls, and the segments `tcp_rx` is handed. -/
inductive SocketCall
  | arrive (localIp : UInt32) (b : Pktbuf) (srcIp : UInt32)
  | create (owner type : Nat)
  | bind (owner : Nat) (fd : Int) (port : UInt16) (udpId : Int)
  | listen (owner : Nat) (fd : Int) (localIp : UInt32)
  | accept (owner : Nat) (fd : Int)
  | connect (owner : Nat) (fd : Int) (localIp ip : UInt32) (port : UInt16)
  | send (owner : Nat) (fd : Int) (sndNxt : UInt32)
  | recv (owner : Nat) (fd : Int) (len : Nat) (peer : Option (UInt32 × UInt16))
  | close (owner : Nat) (fd : Int)

def SocketLayer.after (w : SocketLayer) : SocketCall → SocketLayer
  | .arrive localIp b srcIp => { w with tcp := (w.tcp.rx localIp b srcIp).1 }
  | .create owner type => (w.create owner type).1
  | .bind owner fd port udpId => w.bind owner fd port udpId
  | .listen owner fd localIp => w.listen owner fd localIp
  | .accept owner fd => w.accept owner fd
  | .connect owner fd localIp ip port => w.connect owner fd localIp ip port
  | .send owner fd sndNxt => w.send owner fd sndNxt
  | .recv owner fd len peer => w.recv owner fd len peer
  | .close owner fd => w.close owner fd

/-! The stack runs this layer. -/

section
variable (s : Stack)

/-- At most one segment was handed to `tcp_rx`, and the socket table is as before. -/
def OneSegment (w w' : SocketLayer) : Prop :=
  w' = w ∨ ∃ localIp b srcIp, w' = w.after (.arrive localIp b srcIp)

section
variable (i : Nat) (srcIp : UInt32)

theorem oneSegment_tcpRx : OneSegment s.layer (tcpRx s i srcIp).layer := by
  refine .inr ⟨s.localIp, s.buf i, srcIp, ?_⟩
  obtain ⟨pool, driver, id, hr⟩ := reacted_frame s (s.tcp.rx s.localIp (s.buf i) srcIp)
  rw [tcpRx_runs, hr]
  rfl

theorem ipv4Send_layer (dst : UInt32) (proto : UInt8) (payload : List UInt8) :
    (ipv4Send s dst proto payload).1.layer = s.layer := by
  obtain ⟨pool, driver, id, hsent, -⟩ := ipv4Send_frame s dst proto payload
  rw [hsent]

theorem arpSend_layer (op : UInt16) (ip : UInt32) (mac : Mac) :
    (arpSend s op ip mac).1.layer = s.layer := by
  obtain ⟨pool, driver, hsent, -⟩ := arpSend_frame s op ip mac
  rw [hsent]

theorem arpRx_layer : (arpRx s i).layer = s.layer := by
  unfold arpRx
  dsimp only
  split
  · rfl
  split
  · exact arpSend_layer { s with arp := _ } 2 _ _
  · rfl

theorem icmpRx_layer : (icmpRx s i srcIp).layer = s.layer := by
  unfold icmpRx
  dsimp only
  split
  · rfl
  split
  · rfl
  split
  · exact ipv4Send_layer { s with pool := _ } _ _ _
  · rfl

theorem udpRx_layer : (udpRx s i srcIp).layer = s.layer := by
  unfold udpRx
  dsimp only
  split
  · rfl
  · split <;> rfl

theorem icmpv6Handle_layer (srcAddr : Ip6) : (icmpv6Handle s i srcAddr).layer = s.layer := by
  have hreply : (icmpv6EchoReply s (s.buf i)).layer = s.layer := by
    unfold icmpv6EchoReply
    rcases pktbufAlloc s.pool with ⟨pool, r | r⟩
    · rfl
    obtain ⟨pool', driver, hsent, -⟩ := ethernetTx_frame { s with pool := _ } icmpv6EchoMac ethTypeIpv6 r
    dsimp only
    rw [hsent]
  unfold icmpv6Handle
  dsimp only
  split
  · rfl
  split
  · exact hreply
  split
  · split <;> rfl
  split
  · split <;> rfl
  · rfl

theorem oneSegment_ipv4Dispatch (proto : UInt8) :
    OneSegment s.layer (ipv4Dispatch s i proto srcIp).layer := by
  unfold ipv4Dispatch
  split
  · exact .inl (icmpRx_layer s i srcIp)
  split
  · exact oneSegment_tcpRx s i srcIp
  split
  · exact .inl (udpRx_layer s i srcIp)
  · exact .inl rfl

theorem oneSegment_ipv4Accept (ihl : Nat) : OneSegment s.layer (ipv4Accept s i ihl).layer := by
  unfold ipv4Accept
  dsimp only
  split
  · exact .inl rfl
  split
  · exact .inl rfl
  split
  · exact .inl rfl
  · exact oneSegment_ipv4Dispatch { s with pool := _, firewall := _ } i _ _

theorem oneSegment_ipv4Rx : OneSegment s.layer (ipv4Rx s i).layer := by
  unfold ipv4Rx
  dsimp only
  split
  · exact .inl rfl
  split
  · exact .inl rfl
  split
  · exact .inl rfl
  · exact oneSegment_ipv4Accept s i _

theorem oneSegment_ipv6Rx : OneSegment s.layer (ipv6Rx s i).layer := by
  unfold ipv6Rx
  dsimp only
  split
  · exact .inl rfl
  split
  · exact .inl rfl
  split
  · exact oneSegment_tcpRx { s with pool := _ } i 0
  split
  · exact .inl (udpRx_layer { s with pool := _ } i 0)
  split
  · exact .inl (icmpv6Handle_layer { s with pool := _ } i _)
  · exact .inl rfl

theorem oneSegment_ethernetRx : OneSegment s.layer (ethernetRx s i).layer := by
  unfold ethernetRx
  cases pktbufPull s.pool i 14 with
  | none => exact .inl rfl
  | some pool =>
    dsimp only
    split
    · exact oneSegment_ipv4Rx { s with pool := pool } i
    split
    · exact .inl (arpRx_layer { s with pool := pool } i)
    split
    · exact oneSegment_ipv6Rx { s with pool := pool } i
    · exact .inl rfl

end

theorem oneSegment_pollOnce : OneSegment s.layer (pollOnce s).1.layer := by
  unfold pollOnce
  rcases pktbufAlloc s.pool with ⟨pool, i | i⟩
  · exact .inl rfl
  dsimp only
  unfold pollReceive
  rcases ethernetRecv s.driver with ⟨driver, err | got⟩
  · exact .inl rfl
  · exact oneSegment_ethernetRx { s with driver := driver, pool := _ } i

end

/-- The calls of the layer that take one state of the two tables to another. -/
def Reaches (w w' : SocketLayer) : Prop := ∃ calls : List SocketCall, w' = calls.foldl .after w

namespace Reaches
variable {w w' w'' : SocketLayer}

theorem refl (w : SocketLayer) : Reaches w w := ⟨[], rfl⟩

theorem one (call : SocketCall) (h : w' = w.after call) : Reaches w w' := ⟨[call], h⟩

theorem trans (h : Reaches w w') (h' : Reaches w' w'') : Reaches w w'' := by
  obtain ⟨calls, rfl⟩ := h
  obtain ⟨calls', rfl⟩ := h'
  exact ⟨calls ++ calls', by rw [List.foldl_append]⟩

theorem of_segment (h : OneSegment w w') : Reaches w w' := by
  rcases h with rfl | ⟨localIp, b, srcIp, hcall⟩
  · exact refl w'
  · exact one _ hcall

end Reaches

section
variable (s : Stack) (owner : Nat) (fd : Int)

theorem pollLoop_reaches (n : Nat) : Reaches s.layer (pollLoop n s).layer := by
  induction n generalizing s with
  | zero => exact .refl _
  | succ n ih =>
    have hround := Reaches.of_segment (oneSegment_pollOnce s)
    unfold pollLoop
    dsimp only
    split
    · exact hround.trans (ih _)
    · exact hround

theorem networkPoll_reaches : Reaches s.layer (networkPoll s).layer := pollLoop_reaches s 32

theorem layer_lookup : s.layer.lookup owner fd = socketLookup s owner fd := rfl

theorem layer_ite {P : Prop} [Decidable P] {a b : Stack × Int} {w w' : SocketLayer}
    (h : a.1.layer = w) (h' : b.1.layer = w') :
    (if P then a else b).1.layer = if P then w else w' := by
  split
  · exact h
  · exact h'

theorem create_layer (type : Nat) : ((netSocketCreate s owner type).1.layer,
    (netSocketCreate s owner type).2) = s.layer.create owner type := by
  unfold netSocketCreate SocketLayer.create
  cases sockTypeOf type with
  | none => rfl
  | some t =>
    dsimp only
    by_cases howner : owner = 0
    · rw [if_pos howner, if_pos howner]
    · rw [if_neg howner, if_neg howner]
      cases Fin.find? fun n => !(s.sockets n).used with
      | none | some => rfl

theorem udpBind_layer (port : UInt16) : (udpBind s port).1.layer = s.layer := by
  unfold udpBind
  split <;> rfl

theorem setSocket_layer (n : Fin 64) (k : Socket) : (s.setSocket n k).layer = s.layer.setSocket n k :=
  rfl

theorem bind_layer (port : UInt16) : (netSocketBind s owner fd port).1.layer =
    s.layer.bind owner fd port (udpBind s port).2 := by
  unfold netSocketBind SocketLayer.bind
  rw [layer_lookup]
  cases socketLookup s owner fd with
  | none => rfl
  | some n =>
    dsimp only
    rw [ite_or]
    refine layer_ite rfl (layer_ite rfl ?_)
    cases (s.sockets n).type with
    | stream => rfl
    | dgram => rw [setSocket_layer, udpBind_layer]

theorem listen_layer : (netSocketListen s owner fd).1.layer = s.layer.listen owner fd s.localIp := by
  unfold netSocketListen SocketLayer.listen
  rw [layer_lookup]
  cases socketLookup s owner fd with
  | none => rfl
  | some n =>
    dsimp only
    rw [tcpListen_runs]
    generalize s.tcp.listen s.localIp (s.sockets n).localPort = listened
    exact layer_ite rfl (layer_ite rfl rfl)

theorem accept_layer {p : Stack} (hsockets : p.sockets = s.sockets) (hpoll : networkPoll s = p) :
    (netSocketAccept s owner fd).1.layer = s.layer ∨
      (netSocketAccept s owner fd).1.layer = p.layer.accept owner fd := by
  have hlookup : p.layer.lookup owner fd = socketLookup s owner fd := socketLookup_congr hsockets owner fd
  unfold netSocketAccept
  rw [hpoll]
  cases hheld : socketLookup s owner fd with
  | none => exact .inl rfl
  | some n =>
    dsimp only
    by_cases hidle : (s.sockets n).listening = false
    · exact .inl (by rw [if_pos hidle])
    refine .inr ?_
    rw [← hsockets] at hidle ⊢
    unfold SocketLayer.accept
    rw [if_neg hidle, hlookup, hheld]
    dsimp only
    rw [if_neg hidle, tcpAccept_runs]
    generalize p.tcp.accept (p.sockets n).transportId = accepted
    refine layer_ite rfl ?_
    rw [← create_layer { p with tcp := accepted.1 } owner 1]
    generalize netSocketCreate { p with tcp := accepted.1 } owner 1 = created
    refine layer_ite rfl ?_
    rw [layer_lookup]
    cases socketLookup created.1 owner created.2 with
    | none | some => rfl

theorem connect_layer (ip : UInt32) (port : UInt16) : (netSocketConnect s owner fd ip port).1.layer =
    s.layer.connect owner fd s.localIp ip port := by
  unfold netSocketConnect SocketLayer.connect
  rw [layer_lookup]
  cases socketLookup s owner fd with
  | none => rfl
  | some n =>
    rw [tcpConnect_runs]
    generalize s.tcp.connect s.localIp ip port = connected
    obtain ⟨pool, driver, id, hr⟩ := reacted_frame s (connected.1, connected.2.1)
    rw [hr]
    exact layer_ite rfl (layer_ite rfl rfl)

theorem layer_set_conns (k : Fin 128) :
    s.layer = { s.layer with tcp := s.tcp.set k (s.tcp.conns k) } := by
  rw [Tcp.set, Function.update_eq_self]

/-- The segments of a send only move `snd_nxt`. -/
theorem tcpSendIdLoop_layer (k : Fin 128) (data : List UInt8) :
    ∃ sndNxt, (tcpSendIdLoop s k data).1.layer =
      { s.layer with tcp := s.tcp.set k { s.tcp.conns k with sndNxt := sndNxt } } := by
  induction hn : data.length using Nat.strong_induction_on generalizing s data with
  | _ n ih =>
    rw [tcpSendIdLoop]
    by_cases hdata : data = []
    · rw [dif_pos hdata]
      exact ⟨(s.tcp.conns k).sndNxt, layer_set_conns s k⟩
    rw [dif_neg hdata]
    dsimp only
    rw [tcpSendSegment_runs]
    obtain ⟨pool, driver, id, hr⟩ :=
      reacted_frame s (s.tcp.emit k (tcpAck ||| tcpPsh) (data.take tcpMss))
    rw [hr]
    split
    · have hless := length_drop_mss hdata
      obtain ⟨sndNxt, hrest⟩ := ih _ (hn ▸ hless)
        { s with tcp := _, pool := pool, driver := driver, ipIdCounter := id } _ rfl
      refine ⟨sndNxt, hrest.trans ?_⟩
      dsimp only [Tcp.emit]
      rw [set_set, set_self]
    · exact ⟨_, rfl⟩

theorem tcpSendId_layer (id : Int) (data : List UInt8) :
    ∃ sndNxt, (tcpSendId s id data).1.layer = s.layer.sendOn id sndNxt := by
  unfold tcpSendId SocketLayer.sendOn
  cases connOf id with
  | none => exact ⟨0, rfl⟩
  | some k =>
    dsimp only
    split
    · exact ⟨(s.tcp.conns k).sndNxt, layer_set_conns s k⟩
    · exact tcpSendIdLoop_layer s k data

theorem noteConnected_layer (n : Fin 64) : (noteConnected s n).layer = s.layer.noteConnected n := by
  unfold noteConnected SocketLayer.noteConnected
  have hsame : s.layer.isEstablished (s.sockets n).transportId =
    tcpIsEstablished s (s.sockets n).transportId := rfl
  dsimp only
  rw [hsame]
  split <;> rfl

theorem udpSend_layer (dst : UInt32) (dstPort srcPort : UInt16) (data : List UInt8) :
    (udpSend s dst dstPort srcPort data).1.layer = s.layer := by
  unfold udpSend
  dsimp only
  split
  · rfl
  · exact ipv4Send_layer s _ _ _

theorem send_reaches (data : List UInt8) : Reaches s.layer (netSocketSend s owner fd data).1.layer := by
  unfold netSocketSend
  cases hheld : socketLookup s owner fd with
  | none => exact .refl _
  | some n =>
    dsimp only
    split
    · exact .refl _
    cases htype : (s.sockets n).type with
    | dgram =>
      dsimp only
      split
      · exact .refl _
      · rw [udpSend_layer]
        exact .refl _
    | stream =>
      obtain ⟨sndNxt, hsent⟩ := tcpSendId_layer (noteConnected s n) (s.sockets n).transportId data
      refine .one (.send owner fd sndNxt) ?_
      rw [SocketLayer.after, SocketLayer.send, layer_lookup, hheld, hsent, noteConnected_layer]
      dsimp only
      rw [htype]

theorem recv_reaches (len : Nat) : Reaches s.layer (netSocketRecv s owner fd len).1.layer := by
  unfold netSocketRecv
  cases hheld : socketLookup s owner fd with
  | none => exact .refl _
  | some n =>
    dsimp only
    split
    · exact .refl _
    refine (networkPoll_reaches s).trans ?_
    have hlookup : (networkPoll s).layer.lookup owner fd = some n :=
      (socketLookup_congr (networkPoll_spec s).1 owner fd).trans hheld
    generalize networkPoll s = p at hlookup ⊢
    cases htype : (p.sockets n).type with
    | stream =>
      have hcall : p.layer.after (.recv owner fd len none) =
          { p.layer with tcp := (p.tcp.recv (p.sockets n).transportId (min len 65535)).1 } := by
        rw [SocketLayer.after, SocketLayer.recv, hlookup]
        dsimp only
        rw [htype]
      rw [tcpRecvId_runs]
      cases (p.tcp.recv (p.sockets n).transportId (min len 65535)).2 <;> exact .one _ hcall.symm
    | dgram =>
      have htaken : (udpRecv p (p.sockets n).transportId (min len 65535)).1.layer = p.layer := by
        unfold udpRecv
        split
        · rfl
        · dsimp only
          split <;> rfl
      generalize udpRecv p (p.sockets n).transportId (min len 65535) = taken at htaken ⊢
      rcases taken with ⟨q, _ | ⟨bytes, ip, port⟩⟩
      · rw [htaken]
        exact .refl _
      refine .one (.recv owner fd len (some (ip, port))) ?_
      rw [SocketLayer.after, SocketLayer.recv, hlookup]
      dsimp only at htaken ⊢
      rw [htype, setSocket_layer, htaken]

theorem closeTransport_layer (k : Socket) : (closeTransport s k).layer =
    if k.transportId < 0 then s.layer else
      match k.type with
      | .dgram => s.layer
      | .stream => { s.layer with tcp := (s.tcp.close k.transportId).1 } := by
  unfold closeTransport
  split
  · rfl
  cases k.type with
  | dgram =>
    dsimp only
    unfold udpUnbind
    split <;> rfl
  | stream =>
    obtain ⟨pool, driver, id, hr⟩ := reacted_frame s (s.tcp.close k.transportId)
    rw [tcpCloseId_runs, hr]

theorem closeSocket_layer (n : Fin 64) : (closeSocket s n).layer = s.layer.closeSocket n := by
  unfold closeSocket SocketLayer.closeSocket
  dsimp only
  rw [← closeTransport_layer]
  split <;> split <;> rfl

theorem close_layer : (netSocketClose s owner fd).1.layer = s.layer.close owner fd := by
  unfold netSocketClose SocketLayer.close
  rw [layer_lookup]
  cases socketLookup s owner fd with
  | none => rfl
  | some n => exact closeSocket_layer s n

theorem lookup_fd (w : SocketLayer) (n : Fin 64) (hused : (w.sockets n).used = true)
    (howner : (w.sockets n).ownerPid = owner) : w.lookup owner (socketFdBase + n.val) = some n := by
  have hsub : socketFdBase + (n.val : Int) - socketFdBase = n.val := by omega
  unfold SocketLayer.lookup
  simp only [hsub]
  rw [dif_pos (by omega)]
  exact if_pos ⟨hused, howner⟩

theorem closeAll_reaches : Reaches s.layer (netSocketCloseAll s owner).layer := by
  unfold netSocketCloseAll
  generalize List.finRange 64 = slots
  induction slots generalizing s with
  | nil => exact .refl _
  | cons n slots ih =>
    rw [List.foldl_cons]
    split
    next hmine =>
      simp only [Bool.and_eq_true, beq_iff_eq] at hmine
      refine .trans (.one (.close owner (socketFdBase + n.val)) ?_) (ih (closeSocket s n))
      rw [SocketLayer.after, SocketLayer.close, lookup_fd owner s.layer n hmine.1 hmine.2]
      exact closeSocket_layer s n
    · exact ih s

end

/-- The calls of the socket interface, the poll, and the work of the device. -/
def Event.ofSockets : Event → Bool
  | .device _ _ | .poll | .create _ _ | .bind _ _ _ | .listen _ _ | .accept _ _ | .connect _ _ _ _
  | .send _ _ _ | .recv _ _ _ | .close _ _ | .closeAll _ => true
  | _ => false

theorem perform_reaches (s : Stack) (e : Event) (h : e.ofSockets = true) :
    Reaches s.layer (perform s e).layer := by
  cases e with
  | device rx tx => exact .refl _
  | poll => exact networkPoll_reaches s
  | create owner type => exact .one (.create owner type) (congrArg Prod.fst (create_layer s owner type))
  | bind owner fd port => exact .one (.bind owner fd port (udpBind s port).2) (bind_layer s owner fd port)
  | listen owner fd => exact .one (.listen owner fd s.localIp) (listen_layer s owner fd)
  | accept owner fd =>
    rcases accept_layer s owner fd (networkPoll_spec s).1 rfl with hsame | hcall
    · rw [perform, hsame]
      exact .refl _
    · exact (networkPoll_reaches s).trans (.one (.accept owner fd) hcall)
  | connect owner fd ip port =>
    exact .one (.connect owner fd s.localIp ip port) (connect_layer s owner fd ip port)
  | send owner fd data => exact send_reaches s owner fd data
  | recv owner fd len => exact recv_reaches s owner fd len
  | close owner fd => exact .one (.close owner fd) (close_layer s owner fd)
  | closeAll owner => exact closeAll_reaches s owner
  | _ => cases h

/-- Whatever the device brings between the calls, a run of the stack is one of its socket layer. -/
theorem stack_reaches (s : Stack) (es : List Event) :
    Reaches s.layer ((es.filter Event.ofSockets).foldl perform s).layer := by
  induction es generalizing s with
  | nil => exact .refl _
  | cons e es ih =>
    rw [List.filter_cons]
    split
    next h => exact (perform_reaches s e h).trans (ih (perform s e))
    · exact ih s

/-! Which connection each stream socket holds, and what the calls do to that. -/
open Function Option

def Socket.ref (k : Socket) : Option (Fin 128) :=
  if k.used = true ∧ k.type = .stream then connOf k.transportId else none

def SocketLayer.ref (w : SocketLayer) (n : Fin 64) : Option (Fin 128) := (w.sockets n).ref

def TakenNow (t t' : Tcp) (k : Fin 128) : Prop :=
  (t.conns k).active = false ∧ (t'.conns k).active = true
  deriving Decidable

def SocketLayer.asked (w : SocketLayer) : SocketCall → Option Int
  | .accept owner fd => (w.lookup owner fd).bind fun n =>
      if (w.sockets n).listening then some (w.sockets n).transportId else none
  | _ => none

/-- What a call can do to the connections and to the sockets' hold on them. -/
inductive Effect (w : SocketLayer) : SocketCall → SocketLayer → Prop
  | nothing {call : SocketCall} {w' : SocketLayer} : w.asked call = none → w'.tcp = w.tcp →
      w'.ref = w.ref → Effect w call w'
  | arrived {localIp srcIp : UInt32} {b : Pktbuf} {w' : SocketLayer} :
      w'.tcp = (w.tcp.rx localIp b srcIp).1 → w'.ref = w.ref → Effect w (.arrive localIp b srcIp) w'
  | moved {call : SocketCall} (k : Fin 128) (sndNxt : UInt32) (rx : List UInt8) {w' : SocketLayer} :
      w.asked call = none → w'.tcp = w.tcp.set k { w.tcp.conns k with sndNxt := sndNxt, rx := rx } → w'.ref = w.ref →
      Effect w call w'
  | listened {owner : Nat} {fd : Int} {localIp : UInt32} (n : Fin 64) {w' : SocketLayer} :
      w.lookup owner fd = some n →
      w'.tcp = (w.tcp.listen localIp (w.sockets n).localPort).1 →
      w'.ref = update w.ref n
        (connOf (w.tcp.listen localIp (w.sockets n).localPort).2) →
      Effect w (.listen owner fd localIp) w'
  | connected {owner : Nat} {fd : Int} {localIp ip : UInt32} {port : UInt16} (n : Fin 64)
      {w' : SocketLayer} :
      w'.tcp = (w.tcp.connect localIp ip port).1 →
      w'.ref = update w.ref n (connOf (w.tcp.connect localIp ip port).2.2) →
      Effect w (.connect owner fd localIp ip port) w'
  | accepted {owner : Nat} {fd : Int} (n : Fin 64) {w' : SocketLayer} :
      w.asked (.accept owner fd) = some (w.sockets n).transportId →
      w'.tcp = (w.tcp.accept (w.sockets n).transportId).1 →
      (w'.ref = w.ref ∨ ∃ c, w'.ref =
        update w.ref c (connOf (w.tcp.accept (w.sockets n).transportId).2)) →
      Effect w (.accept owner fd) w'
  | closed {owner : Nat} {fd : Int} (n : Fin 64) {w' : SocketLayer} : w.lookup owner fd = some n →
      w'.tcp = ((w.ref n).elim w.tcp fun k => (w.tcp.close k.val).1) →
      w'.ref = update w.ref n none → Effect w (.close owner fd) w'

section
variable {w : SocketLayer} {owner : Nat} {fd : Int} {n : Fin 64}

section
variable (w : SocketLayer) (n : Fin 64) (k : Socket)

theorem ref_setSocket : (w.setSocket n k).ref = update w.ref n k.ref :=
  comp_update Socket.ref w.sockets n k

theorem setSocket_tcp : (w.setSocket n k).tcp = w.tcp := rfl

theorem setSocket_self : (w.setSocket n k).sockets n = k := update_self ..

end

theorem ref_setSocket_same {k : Socket} (h : k.ref = w.ref n) : (w.setSocket n k).ref = w.ref := by
  rw [ref_setSocket, h, update_eq_self]

theorem ref_stream {k : Socket} (hk : k.used = true ∧ k.type = .stream) :
    (w.setSocket n k).ref = update w.ref n (connOf k.transportId) := by
  rw [ref_setSocket, Socket.ref, if_pos hk]

theorem lookup_used (h : w.lookup owner fd = some n) : (w.sockets n).used = true := by
  unfold SocketLayer.lookup at h
  split at h
  · dsimp only at h
    split at h
    next hheld =>
      cases h
      exact hheld.1
    · cases h
  · cases h

theorem connOf_neg {id : Int} (h : id < 0) : connOf id = none := dif_neg fun hid => by omega

section
variable (w : SocketLayer) (owner : Nat) (fd : Int) (localIp ip : UInt32) (port : UInt16)

theorem create_cases (type : Nat) :
    w.create owner type = (w, aegisEinval) ∨ w.create owner type = (w, aegisEnomem) ∨
      ∃ t m, sockTypeOf type = some t ∧ w.ref m = none ∧ w.create owner type =
        (w.setSocket m (SocketLayer.createdSocket owner t), socketFdBase + m.val) := by
  unfold SocketLayer.create
  cases sockTypeOf type with
  | none => exact .inl rfl
  | some t =>
    dsimp only
    by_cases howner : owner = 0
    · exact .inl (if_pos howner)
    rw [if_neg howner]
    cases hfree : Fin.find? fun n => !(w.sockets n).used with
    | none => exact .inr (.inl rfl)
    | some m =>
      have hunused := (Fin.find?_eq_some_iff.mp hfree).1
      have hold : w.ref m = none := if_neg fun hk => by simp [hk.1] at hunused
      exact .inr (.inr ⟨t, m, rfl, hold, rfl⟩)

theorem createdSocket_ref (t : SockType) : (SocketLayer.createdSocket owner t).ref = none :=
  ite_eq_right_iff.mpr fun _ => rfl

theorem effect_create (type : Nat) : Effect w (.create owner type) (w.create owner type).1 := by
  rcases create_cases w owner type with h | h | ⟨t, m, -, hold, h⟩ <;> rw [h]
  · exact .nothing rfl rfl rfl
  · exact .nothing rfl rfl rfl
  · exact .nothing rfl rfl (ref_setSocket_same ((createdSocket_ref owner t).trans hold.symm))

theorem effect_bind (udpId : Int) :
    Effect w (.bind owner fd port udpId) (w.bind owner fd port udpId) := by
  unfold SocketLayer.bind
  cases w.lookup owner fd with
  | none => exact .nothing rfl rfl rfl
  | some n =>
    dsimp only
    split
    · exact .nothing rfl rfl rfl
    cases htype : (w.sockets n).type with
    | stream =>
      refine .nothing rfl rfl (ref_setSocket_same ?_)
      rw [SocketLayer.ref, Socket.ref, Socket.ref, htype]
    | dgram =>
      refine .nothing rfl rfl (ref_setSocket_same ?_)
      rw [SocketLayer.ref, Socket.ref, Socket.ref, htype]
      simp

theorem effect_listen : Effect w (.listen owner fd localIp) (w.listen owner fd localIp) := by
  unfold SocketLayer.listen
  cases hheld : w.lookup owner fd with
  | none => exact .nothing rfl rfl rfl
  | some n =>
    dsimp only
    by_cases hbad : (w.sockets n).type ≠ .stream ∨ (w.sockets n).localPort = 0
    · rw [if_pos hbad]
      exact .nothing rfl rfl rfl
    have hk : (w.sockets n).used = true ∧ (w.sockets n).type = .stream :=
      ⟨lookup_used hheld, by simpa using (not_or.mp hbad).1⟩
    rw [if_neg hbad]
    generalize hmade : w.tcp.listen localIp (w.sockets n).localPort = made
    split <;> exact .listened n hheld (by rw [hmade]; rfl) (by rw [hmade]; exact ref_stream hk)

theorem effect_connect :
    Effect w (.connect owner fd localIp ip port) (w.connect owner fd localIp ip port) := by
  unfold SocketLayer.connect
  cases hheld : w.lookup owner fd with
  | none => exact .nothing rfl rfl rfl
  | some n =>
    dsimp only
    by_cases hbad : (w.sockets n).type ≠ .stream ∨ ip = 0 ∨ port = 0
    · rw [if_pos hbad]
      exact .nothing rfl rfl rfl
    have hk : (w.sockets n).used = true ∧ (w.sockets n).type = .stream :=
      ⟨lookup_used hheld, by simpa using (not_or.mp hbad).1⟩
    rw [if_neg hbad]
    generalize hmade : w.tcp.connect localIp ip port = made
    split <;> exact .connected n (by rw [hmade]; rfl) (by rw [hmade]; exact ref_stream hk)

theorem effect_accept : Effect w (.accept owner fd) (w.accept owner fd) := by
  unfold SocketLayer.accept
  cases hheld : w.lookup owner fd with
  | none => exact .nothing (by rw [SocketLayer.asked, hheld]; rfl) rfl rfl
  | some n =>
    dsimp only
    by_cases hidle : (w.sockets n).listening = false
    · rw [if_pos hidle]
      exact .nothing (by rw [SocketLayer.asked, hheld, bind_some, hidle]; rfl) rfl rfl
    have hasked : w.asked (.accept owner fd) = some (w.sockets n).transportId := by
      rw [SocketLayer.asked, hheld, bind_some, if_pos (by simpa using hidle)]
    rw [if_neg hidle]
    split
    · exact .accepted n hasked rfl (.inl rfl)
    rcases create_cases { w with tcp := (w.tcp.accept (w.sockets n).transportId).1 } owner 1 with
      h | h | ⟨t, m, htype, -, h⟩
    · have hneg : aegisEinval < 0 := by decide
      rw [h, if_pos hneg]
      exact .accepted n hasked rfl (.inl rfl)
    · have hneg : aegisEnomem < 0 := by decide
      rw [h, if_pos hneg]
      exact .accepted n hasked rfl (.inl rfl)
    · obtain rfl : t = .stream := (some.inj htype).symm
      have hnonneg : ¬socketFdBase + (m.val : Int) < 0 := by
        have hbase : socketFdBase = 0x1000 := rfl
        omega
      rw [h]
      rw [if_neg hnonneg, lookup_fd owner _ m (by rw [setSocket_self]; rfl)
        (by rw [setSocket_self]; rfl)]
      dsimp only
      rw [setSocket_self]
      refine .accepted n hasked rfl (.inr ⟨m, ?_⟩)
      rw [ref_setSocket, ref_setSocket, update_idem]
      rfl

theorem effect_send (sndNxt : UInt32) :
    Effect w (.send owner fd sndNxt) (w.send owner fd sndNxt) := by
  unfold SocketLayer.send
  cases hheld : w.lookup owner fd with
  | none => exact .nothing rfl rfl rfl
  | some n =>
    dsimp only
    cases htype : (w.sockets n).type with
    | dgram => exact .nothing rfl rfl rfl
    | stream =>
      have hnoted : (w.noteConnected n).tcp = w.tcp ∧ (w.noteConnected n).ref = w.ref := by
        unfold SocketLayer.noteConnected
        dsimp only
        split
        · exact ⟨rfl, ref_setSocket_same rfl⟩
        · exact ⟨rfl, rfl⟩
      unfold SocketLayer.sendOn
      cases connOf (w.sockets n).transportId with
      | none => exact .nothing rfl hnoted.1 hnoted.2
      | some k =>
        refine .moved k sndNxt (w.tcp.conns k).rx rfl ?_ hnoted.2
        rw [hnoted.1]

theorem effect_recv (len : Nat) (peer : Option (UInt32 × UInt16)) :
    Effect w (.recv owner fd len peer) (w.recv owner fd len peer) := by
  unfold SocketLayer.recv
  cases hheld : w.lookup owner fd with
  | none => exact .nothing rfl rfl rfl
  | some n =>
    dsimp only
    cases htype : (w.sockets n).type with
    | dgram =>
      rcases peer with _ | ⟨ip, port⟩
      · exact .nothing rfl rfl rfl
      · refine .nothing rfl rfl (ref_setSocket_same ?_)
        rw [SocketLayer.ref, Socket.ref, Socket.ref, htype]
    | stream =>
      unfold Tcp.recv
      cases connOf (w.sockets n).transportId with
      | none => exact .nothing rfl rfl rfl
      | some k =>
        dsimp only
        split
        · exact .nothing rfl rfl rfl
        · exact .moved k (w.tcp.conns k).sndNxt _ rfl rfl rfl

theorem effect_close : Effect w (.close owner fd) (w.close owner fd) := by
  unfold SocketLayer.close
  cases hheld : w.lookup owner fd with
  | none => exact .nothing rfl rfl rfl
  | some n =>
    have hused := lookup_used hheld
    unfold SocketLayer.closeSocket
    refine .closed n hheld ?_ ?_
    · rw [setSocket_tcp, SocketLayer.ref, Socket.ref]
      by_cases hneg : (w.sockets n).transportId < 0
      · rw [if_pos hneg, connOf_neg hneg]
        split <;> rfl
      rw [if_neg hneg]
      cases htype : (w.sockets n).type with
      | dgram =>
        rw [if_neg (by simp)]
        rfl
      | stream =>
        rw [if_pos ⟨hused, rfl⟩]
        dsimp only
        cases hid : connOf (w.sockets n).transportId with
        | none =>
          rw [Tcp.close, hid]
          rfl
        | some k =>
          rw [connOf_eq hid]
          rfl
    · rw [ref_setSocket]
      have hsame : ∀ v : SocketLayer, v.sockets = w.sockets → v.ref = w.ref := fun v hv =>
        funext fun m => congrArg (fun f : Fin 64 → Socket => (f m).ref) hv
      congr 1
      split
      · rfl
      · cases (w.sockets n).type <;> rfl

end

end

theorem after_effect (w : SocketLayer) (call : SocketCall) : Effect w call (w.after call) := by
  cases call with
  | arrive localIp b srcIp => exact .arrived rfl rfl
  | create owner type => exact effect_create w owner type
  | bind owner fd port udpId => exact effect_bind w owner fd port udpId
  | listen owner fd localIp => exact effect_listen w owner fd localIp
  | accept owner fd => exact effect_accept w owner fd
  | connect owner fd localIp ip port => exact effect_connect w owner fd localIp ip port
  | send owner fd sndNxt => exact effect_send w owner fd sndNxt
  | recv owner fd len peer => exact effect_recv w owner fd len peer
  | close owner fd => exact effect_close w owner fd

end AegisOS.Net
