import AegisOS.Lib.FreeList
import AegisOS.NetDatagrams

/-! Packet buffers, from `pktbuf_alloc` to `pktbuf_free`. For every call of the stack, the
allocations and the frees it makes, in order, and that they match. -/
namespace AegisOS.Net
open ByteStore FreeList GuardedRun List Pool

abbrev PoolOp := Op Nat

/-- The free buffers as the next `pktbuf_alloc` finds them. -/
def Pool.free (p : Pool) : List Nat := (if p.initialized then p else pktbufPoolInit p).freeList

/-! What each function takes and gives back, from the buffers `free` when it is called. -/

/-- `ethernet_tx` frees the packet whether or not it was sent. -/
def arpSendOps : List Nat → List PoolOp
  | [] => []
  | i :: _ => [.take i, .give i]

def ipv4OutputOps (s : Stack) (dst : UInt32) (i : Nat) (free : List Nat) : List PoolOp :=
  if dst == 0xFFFFFFFF then [.give i]
  else if nextHop s dst == 0 then [.give i]
  else
    match arpCacheLookup s.arp (nextHop s dst) with
    | none => arpSendOps free ++ [.give i]
    | some _ => [.give i]

/-- `len` is the length of the payload. -/
def ipv4SendOps (s : Stack) (dst : UInt32) (len : Nat) (free : List Nat) : List PoolOp :=
  if len = 0 then []
  else
    match free with
    | [] => []
    | i :: free => .take i :: ipv4OutputOps s dst i free

def handOnOps (s : Stack) (out : List Outgoing) (free : List Nat) : List PoolOp :=
  out.flatMap fun o => ipv4SendOps s o.conn.remoteIp (20 + o.data.length) free

def arpRxOps (s : Stack) (i : Nat) (free : List Nat) : List PoolOp :=
  let b := s.buf i
  if b.len < 28 then [.give i]
  else
    (if bswap16 (loadU16 b.data (b.head + 6)) == 1 && loadU32 b.data (b.head + 24) == s.localIp then
      arpSendOps free else []) ++ [.give i]

def icmpRxOps (s : Stack) (i : Nat) (srcIp : UInt32) (free : List Nat) : List PoolOp :=
  let b := s.buf i
  if b.len < 8 then [.give i]
  else
    let saved := loadU16 b.data (b.head + 2)
    let zeroed := s.pool.storeList i (b.head + 2) [0, 0]
    let computed := inetChecksum (zeroed.frame i)
    let s := { s with pool := zeroed.storeList i (b.head + 2) (bytes16 saved) }
    if computed != saved then [.give i]
    else if (s.buf i).data b.head == 8 then
      ipv4SendOps s srcIp (4 + (min b.len 1500 - 4)) free ++ [.give i]
    else [.give i]

def tcpRxOps (s : Stack) (i : Nat) (srcIp : UInt32) (free : List Nat) : List PoolOp :=
  handOnOps s (s.tcp.rx s.localIp (s.buf i) srcIp).2 free ++ [.give i]

def ipv4DispatchOps (s : Stack) (i : Nat) (proto : UInt8) (srcIp : UInt32) (free : List Nat) :
    List PoolOp :=
  if proto == 1 then icmpRxOps s i srcIp free
  else if proto == 6 then tcpRxOps s i srcIp free
  else [.give i]

def ipv4AcceptOps (s : Stack) (i ihl : Nat) (free : List Nat) : List PoolOp :=
  let b := s.buf i
  let saved := loadU16 b.data (b.head + 10)
  let zeroed := s.pool.storeList i (b.head + 10) [0, 0]
  let computed := inetChecksum (readBytes (zeroed.bufs i).data b.head ihl)
  let s := { s with pool := zeroed.storeList i (b.head + 10) (bytes16 saved) }
  let b := s.buf i
  if computed != saved then [.give i]
  else if !ipv4ForUs s (loadU32 b.data (b.head + 16)) then [.give i]
  else
    let checked := firewallCheck s.firewall b
    if checked.2 = .drop then [.give i]
    else
      let window := s.pool.setWindow i (u16 (b.head + ihl)) (u16 (b.len - ihl))
      ipv4DispatchOps { s with firewall := checked.1, pool := window } i (b.data (b.head + 9))
        (loadU32 b.data (b.head + 12)) free

def ipv4RxOps (s : Stack) (i : Nat) (free : List Nat) : List PoolOp :=
  let b := s.buf i
  if b.len < 20 then [.give i]
  else if b.data b.head >>> 4 != 4 then [.give i]
  else
    let ihl := (b.data b.head &&& 0xF).toNat * 4
    if ihl < 20 ∨ b.len < ihl then [.give i] else ipv4AcceptOps s i ihl free

def icmpv6HandleOps (s : Stack) (i : Nat) (free : List Nat) : List PoolOp :=
  let b := s.buf i
  if b.len < 4 then [.give i]
  else if b.data b.head == 128 then arpSendOps free ++ [.give i]
  else [.give i]

def ipv6RxOps (s : Stack) (i : Nat) (free : List Nat) : List PoolOp :=
  let b := s.buf i
  if b.len < 40 then [.give i]
  else if ¬ipv6Accepts s b.data b.head then [.give i]
  else
    let next := b.data (b.head + 6)
    let s := { s with
      pool := s.pool.setWindow i (u16 (b.head + 40)) (ipv6PayloadLen b.data b.head) }
    if next == 6 then tcpRxOps s i 0 free
    else if next == 17 then [.give i]
    else if next == 58 then icmpv6HandleOps s i free
    else [.give i]

def ethernetRxOps (s : Stack) (i : Nat) (free : List Nat) : List PoolOp :=
  let b := s.buf i
  match pktbufPull s.pool i 14 with
  | none => [.give i]
  | some pool =>
    let et := bswap16 (loadU16 b.data (b.head + 12))
    let s := { s with pool := pool }
    if et == ethTypeIpv4 then ipv4RxOps s i free
    else if et == ethTypeArp then arpRxOps s i free
    else if et == ethTypeIpv6 then ipv6RxOps s i free
    else [.give i]

def pollReceiveOps (s : Stack) (i : Nat) (free : List Nat) : List PoolOp :=
  match ethernetRecv s.driver with
  | (_, .error _) => [.give i]
  | (driver, .ok (bytes, len)) =>
    let head := (s.buf i).head
    let pool := (s.pool.storeAt i head len bytes).setWindow i head len
    ethernetRxOps { s with driver := driver, pool := pool } i free

def pollOnceOps (s : Stack) : List PoolOp :=
  match pktbufAlloc s.pool with
  | (_, none) => []
  | (pool, some i) => .take i :: pollReceiveOps { s with pool := pool } i pool.free

def pollLoopOps : Nat → Stack → List PoolOp
  | 0, _ => []
  | n + 1, s => pollOnceOps s ++ if (pollOnce s).2 then pollLoopOps n (pollOnce s).1 else []

def networkPollOps (s : Stack) : List PoolOp := pollLoopOps 32 s

def udpSendOps (s : Stack) (dst : UInt32) (data : List UInt8) : List PoolOp :=
  let total := u16 (8 + data.length)
  if data = [] ∨ 1500 < total then []
  else ipv4SendOps s dst (min total (8 + data.length)) s.pool.free

def tcpSegmentOps (s : Stack) (k : Fin 128) (data : List UInt8) : List PoolOp :=
  ipv4SendOps s (s.tcp.conns k).remoteIp (20 + data.length) s.pool.free

def tcpSendLoopOps (s : Stack) (k : Fin 128) (data : List UInt8) : List PoolOp :=
  if _ : data = [] then []
  else
    tcpSegmentOps s k (data.take tcpMss) ++
      tcpSendLoopOps (tcpSendSegment s k (tcpAck ||| tcpPsh) (data.take tcpMss)).1 k
        (data.drop tcpMss)
termination_by data.length
decreasing_by exact length_drop_mss (by assumption)

def tcpSendIdLoopOps (s : Stack) (k : Fin 128) (data : List UInt8) : List PoolOp :=
  if _ : data = [] then []
  else
    let sent := tcpSendSegment s k (tcpAck ||| tcpPsh) (data.take tcpMss)
    tcpSegmentOps s k (data.take tcpMss) ++
      if sent.2 = 0 then tcpSendIdLoopOps sent.1 k (data.drop tcpMss) else []
termination_by data.length
decreasing_by exact length_drop_mss (by assumption)

def tcpSendOps (s : Stack) (localPort : UInt16) (remoteIp : UInt32) (remotePort : UInt16)
    (data : List UInt8) : List PoolOp :=
  match tcpFindConn s.tcp remoteIp remotePort localPort with
  | none => []
  | some k => if (s.tcp.conns k).state = .established then tcpSendLoopOps s k data else []

def tcpSendIdOps (s : Stack) (connId : Int) (data : List UInt8) : List PoolOp :=
  match connOf connId with
  | none => []
  | some k =>
    if data = [] ∨ (s.tcp.conns k).active = false ∨ (s.tcp.conns k).state ≠ .established then []
    else tcpSendIdLoopOps s k data

def tcpCloseOps (s : Stack) (localPort : UInt16) (remoteIp : UInt32) (remotePort : UInt16) :
    List PoolOp :=
  match tcpFindConn s.tcp remoteIp remotePort localPort with
  | none => []
  | some k => handOnOps s (s.tcp.closeConn k).2 s.pool.free

def closeTransportOps (s : Stack) (k : Socket) : List PoolOp :=
  if k.transportId < 0 then []
  else
    match k.type with
    | .dgram => []
    | .stream => handOnOps s (s.tcp.close k.transportId).2 s.pool.free

def closeAllOps (owner : Nat) : List (Fin 64) → Stack → List PoolOp
  | [], _ => []
  | n :: slots, s =>
    if (s.sockets n).used && (s.sockets n).ownerPid == owner then
      closeTransportOps s (s.sockets n) ++ closeAllOps owner slots (closeSocket s n)
    else closeAllOps owner slots s

def acceptOps (s : Stack) (owner : Nat) (fd : Int) : List PoolOp :=
  match socketLookup s owner fd with
  | none => []
  | some n => if (s.sockets n).listening = false then [] else networkPollOps s

def connectOps (s : Stack) (owner : Nat) (fd : Int) (ip : UInt32) (port : UInt16) : List PoolOp :=
  match socketLookup s owner fd with
  | none => []
  | some n =>
    if (s.sockets n).type ≠ .stream ∨ ip = 0 ∨ port = 0 then []
    else handOnOps s (s.tcp.connect s.localIp ip port).2.1 s.pool.free

def socketSendOps (s : Stack) (owner : Nat) (fd : Int) (data : List UInt8) : List PoolOp :=
  match socketLookup s owner fd with
  | none => []
  | some n =>
    let k := s.sockets n
    if data.length = 0 ∨ 65535 < data.length then []
    else
      match k.type with
      | .dgram =>
        if k.localPort = 0 ∨ k.remoteIp = 0 ∨ k.remotePort = 0 then []
        else udpSendOps s k.remoteIp data
      | .stream => tcpSendIdOps (noteConnected s n) k.transportId data

def recvOps (s : Stack) (owner : Nat) (fd : Int) (len : Nat) : List PoolOp :=
  match socketLookup s owner fd with
  | none => []
  | some _ => if len = 0 then [] else networkPollOps s

def closeOps (s : Stack) (owner : Nat) (fd : Int) : List PoolOp :=
  match socketLookup s owner fd with
  | none => []
  | some n => closeTransportOps s (s.sockets n)

def Event.topLevel : Event → Bool
  | .alloc | .push _ _ | .pull _ _ | .free _ | .ethernetRx _ | .ethernetTx _ _ _ => false
  | _ => true

def eventOps (s : Stack) : Event → List PoolOp
  | .poll => networkPollOps s
  | .arpRequest _ => arpSendOps s.pool.free
  | .ipv4Send dst _ payload => ipv4SendOps s dst payload.length s.pool.free
  | .echoRequest dst _ _ => ipv4SendOps s dst 64 s.pool.free
  | .destUnreachable dst _ orig => ipv4SendOps s dst (8 + min 28 orig.length) s.pool.free
  | .udpSend dst _ _ data => udpSendOps s dst data
  | .tcpSend localPort remoteIp remotePort data => tcpSendOps s localPort remoteIp remotePort data
  | .tcpClose localPort remoteIp remotePort => tcpCloseOps s localPort remoteIp remotePort
  | .accept owner fd => acceptOps s owner fd
  | .connect owner fd ip port => connectOps s owner fd ip port
  | .send owner fd data => socketSendOps s owner fd data
  | .recv owner fd len => recvOps s owner fd len
  | .close owner fd => closeOps s owner fd
  | .closeAll owner => closeAllOps owner (finRange 64) s
  | _ => []

def runOps : Stack → List Event → List PoolOp
  | _, [] => []
  | s, e :: es => eventOps s e ++ runOps (perform s e) es

/-! Each function moves exactly these. -/

structure Pool.Same (p q : Pool) : Prop where
  freeList : q.freeList = p.freeList
  initialized : q.initialized = p.initialized

structure Pool.Keeps (p q : Pool) (ops : List PoolOp) : Prop where
  ready : p.initialized = true → q.initialized = true
  moves : ∀ held, Moves p.free held ops q.free held

/-- As before, and buffer `i`, the last one taken, was given back too. -/
def Pool.Returns (i : Nat) (p q : Pool) (ops : List PoolOp) : Prop :=
  p.initialized = true → q.initialized = true ∧ ∀ held, Moves p.free (i :: held) ops q.free held

section
variable {p q r : Pool} {i : Nat} {ops ops' : List PoolOp}

theorem Pool.Same.rfl : p.Same p := ⟨.refl _, .refl _⟩

theorem Pool.Same.free_eq (h : p.Same q) : p.free = q.free := by
  unfold free
  rw [h.initialized]
  split
  · exact h.freeList.symm
  · rfl

theorem free_ready (h : p.initialized = true) : p.free = p.freeList := by
  rw [free, if_pos h]

theorem Pool.Same.keeps (h : p.Same q) : p.Keeps q [] := by
  refine ⟨fun hp => h.initialized.trans hp, fun held => ?_⟩
  rw [h.free_eq]
  exact .nil _ _

theorem Pool.Keeps.refl (p : Pool) : p.Keeps p [] := Same.rfl.keeps

theorem Pool.Keeps.of_eq (h : q = p) : p.Keeps q [] := h ▸ .refl p

theorem Pool.Keeps.free_eq (h : p.Keeps q ops) : q.free = p.free := (h.moves []).free_eq

theorem Pool.Keeps.append (h : p.Keeps q ops) (h' : q.Keeps r ops') : p.Keeps r (ops ++ ops') :=
  ⟨fun hp => h'.ready (h.ready hp), fun held => (h.moves held).append (h'.moves held)⟩

theorem Pool.Keeps.returns (h : p.Keeps q ops) (h' : q.Returns i r ops') :
    p.Returns i r (ops ++ ops') := by
  intro hp
  obtain ⟨hr, hmoves⟩ := h' (h.ready hp)
  exact ⟨hr, fun held => (h.moves (i :: held)).append (hmoves held)⟩

theorem Pool.Same.returns (h : p.Same q) (hlist : r.freeList = i :: q.freeList)
    (hinit : r.initialized = q.initialized) : p.Returns i r [.give i] := by
  intro hp
  have hq : q.initialized = true := h.initialized.trans hp
  have hr : r.initialized = true := hinit.trans hq
  refine ⟨hr, fun held => ?_⟩
  have hfree : r.free = i :: p.free := by rw [h.free_eq, free_ready hr, free_ready hq, hlist]
  rw [hfree]
  exact .give (.nil _ _)

theorem returns_free (s : Stack) (i : Nat) : s.pool.Returns i (s.free i).pool [.give i] :=
  Same.rfl.returns rfl rfl

/-- `pktbuf_alloc` finds no buffer, or takes the first one. -/
theorem alloc_cases (p : Pool) : (∃ q, pktbufAlloc p = (q, none) ∧ p.free = [] ∧ p.Keeps q []) ∨
      ∃ q i, pktbufAlloc p = (q, some i) ∧ p.free = i :: q.free ∧
        ∀ {r ops}, q.Returns i r ops → p.Keeps r (.take i :: ops) := by
  have hinit : (if p.initialized then p else pktbufPoolInit p).initialized = true := by
    split
    · assumption
    · rfl
  unfold pktbufAlloc
  dsimp only
  cases hlist : (if p.initialized then p else pktbufPoolInit p).freeList with
  | nil =>
    refine .inl ⟨_, rfl, hlist, fun _ => hinit, fun held => ?_⟩
    rw [free_ready hinit]
    exact .nil _ _
  | cons j rest =>
    let q : Pool := setWindow { (if p.initialized then p else pktbufPoolInit p) with
      freeList := rest } j (pktMaxLen / 2) 0
    have hfree : p.free = j :: q.free := by
      rw [free_ready (p := q) hinit]
      exact hlist
    refine .inr ⟨q, j, rfl, hfree, fun h => ?_⟩
    obtain ⟨hr, hmoves⟩ := h hinit
    refine ⟨fun _ => hr, fun held => ?_⟩
    rw [hfree]
    exact .take (hmoves held)

end

/-! Output. The pool a function starts from may differ from `p` in what the buffers hold. -/

section
variable (s : Stack) {p : Pool}

theorem ethernetTx_returns (mac : Mac) (et : UInt16) (i : Nat) (hp : p.Same s.pool) :
    p.Returns i (ethernetTx s mac et i).1.pool [.give i] := by
  unfold ethernetTx
  cases hpush : pktbufPush s.pool i 14 with
  | none => exact hp.returns rfl rfl
  | some pool =>
    have hsame : s.pool.Same pool := by
      unfold pktbufPush at hpush
      split at hpush
      · cases hpush
      · cases hpush
        exact ⟨rfl, rfl⟩
    exact hp.returns (congrArg (i :: ·) hsame.freeList) hsame.initialized

theorem arpSend_ops (op : UInt16) (ip : UInt32) (mac : Mac) (hp : p.Same s.pool) :
    p.Keeps (arpSend s op ip mac).1.pool (arpSendOps p.free) := by
  refine hp.keeps.append (?_ : s.pool.Keeps _ (arpSendOps p.free))
  rw [hp.free_eq]
  unfold arpSend
  rcases alloc_cases s.pool with ⟨pool, halloc, hempty, hkeeps⟩ | ⟨pool, i, halloc, hfree, htaken⟩
  · rw [halloc, hempty]
    exact hkeeps
  · rw [halloc, hfree]
    exact htaken (ethernetTx_returns _ mac ethTypeArp i ⟨rfl, rfl⟩)

theorem ipv4Output_ops (dst : UInt32) (i : Nat) (hp : p.Same s.pool) :
    p.Returns i (ipv4Output s dst i).1.pool (ipv4OutputOps s dst i p.free) := by
  unfold ipv4OutputOps ipv4Output
  split
  · exact ethernetTx_returns s _ _ i hp
  split
  · exact hp.returns rfl rfl
  cases arpCacheLookup s.arp (nextHop s dst) with
  | none => exact (arpSend_ops s 1 _ _ hp).returns (returns_free _ i)
  | some mac => exact ethernetTx_returns s _ _ i hp

theorem ipv4Send_ops (dst : UInt32) (proto : UInt8) (payload : List UInt8) (hp : p.Same s.pool) :
    p.Keeps (ipv4Send s dst proto payload).1.pool (ipv4SendOps s dst payload.length p.free) := by
  refine hp.keeps.append (?_ : s.pool.Keeps _ (ipv4SendOps s dst payload.length p.free))
  rw [hp.free_eq]
  unfold ipv4SendOps ipv4Send
  split
  · exact .refl _
  rcases alloc_cases s.pool with
    ⟨pool, halloc, hempty, hkeeps⟩ | ⟨pool, i, halloc, hfree, htaken⟩
  · rw [halloc, hempty]
    exact hkeeps
  · rw [halloc, hfree]
    exact htaken (ipv4Output_ops _ dst i ⟨rfl, rfl⟩)

theorem handOn_ops (out : List Outgoing) (hp : p.Same s.pool) :
    p.Keeps (s.handOn out).pool (handOnOps s out p.free) := by
  induction out generalizing s p with
  | nil => exact hp.keeps
  | cons o out ih =>
    have hfirst := ipv4Send_ops s o.conn.remoteIp 6 (tcpSegment o.conn o.flags o.data) hp
    rw [length_tcpSegment] at hfirst
    obtain ⟨pool, driver, id, hsent, -⟩ :=
      ipv4Send_frame s o.conn.remoteIp 6 (tcpSegment o.conn o.flags o.data)
    rw [hsent] at hfirst
    have hrest := ih { s with pool := pool, driver := driver, ipIdCounter := id } .rfl
    rw [hfirst.free_eq] at hrest
    rw [Stack.handOn, foldl_cons, hsent]
    exact hfirst.append hrest

theorem reacted_ops (r : Tcp × List Outgoing) (hp : p.Same s.pool) :
    p.Keeps (s.reacted r).pool (handOnOps s r.2 p.free) :=
  handOn_ops { s with tcp := r.1 } r.2 hp

end

/-! Input. -/

section
variable (s : Stack) (i : Nat) {p : Pool}

theorem arpRx_ops (hp : p.Same s.pool) : p.Returns i (arpRx s i).pool (arpRxOps s i p.free) := by
  unfold arpRxOps arpRx
  dsimp only
  split
  · exact hp.returns rfl rfl
  split
  · refine Keeps.returns ?_ (returns_free (arpSendReply _ _ _) i)
    exact arpSend_ops _ 2 _ _ hp
  · exact hp.returns rfl rfl

section
variable (srcIp : UInt32) (hp : p.Same s.pool)
include hp

theorem icmpRx_ops : p.Returns i (icmpRx s i srcIp).pool (icmpRxOps s i srcIp p.free) := by
  unfold icmpRxOps icmpRx
  dsimp only
  split
  · exact hp.returns rfl rfl
  split
  · exact hp.returns rfl rfl
  split
  · have hsent : ∀ (t : Stack) (body : List UInt8), p.Same t.pool →
        body.length = min (s.buf i).len 1500 - 4 →
        p.Keeps (ipv4Send t srcIp 1 (icmpMessage 0 0 body)).1.pool
          (ipv4SendOps t srcIp (4 + (min (s.buf i).len 1500 - 4)) p.free) := by
      intro t body ht hbody
      have hsend := ipv4Send_ops t srcIp 1 (icmpMessage 0 0 body) ht
      rw [length_icmpMessage, hbody] at hsend
      exact hsend
    refine Keeps.returns ?_ (returns_free _ i)
    exact hsent _ _ ⟨hp.freeList, hp.initialized⟩ (length_readBytes ..)
  · exact hp.returns rfl rfl

theorem tcpRx_ops : p.Returns i (tcpRx s i srcIp).pool (tcpRxOps s i srcIp p.free) := by
  rw [tcpRx_runs]
  exact (reacted_ops s _ hp).returns (returns_free _ i)

theorem udpRx_ops : p.Returns i (udpRx s i srcIp).pool [.give i] := by
  unfold udpRx
  dsimp only
  split
  · exact hp.returns rfl rfl
  · split <;> exact hp.returns rfl rfl

end

theorem ipv4Dispatch_ops (proto : UInt8) (srcIp : UInt32) (hp : p.Same s.pool) :
    p.Returns i (ipv4Dispatch s i proto srcIp).pool (ipv4DispatchOps s i proto srcIp p.free) := by
  unfold ipv4DispatchOps ipv4Dispatch
  split
  · exact icmpRx_ops s i srcIp hp
  split
  · exact tcpRx_ops s i srcIp hp
  split
  · exact udpRx_ops s i srcIp hp
  · exact hp.returns rfl rfl

theorem ipv4Accept_ops (ihl : Nat) (hp : p.Same s.pool) :
    p.Returns i (ipv4Accept s i ihl).pool (ipv4AcceptOps s i ihl p.free) := by
  unfold ipv4AcceptOps ipv4Accept
  dsimp only
  split
  · exact hp.returns rfl rfl
  split
  · exact hp.returns rfl rfl
  split
  · exact hp.returns rfl rfl
  · exact ipv4Dispatch_ops _ i _ _ ⟨hp.freeList, hp.initialized⟩

theorem ipv4Rx_ops (hp : p.Same s.pool) : p.Returns i (ipv4Rx s i).pool (ipv4RxOps s i p.free) := by
  unfold ipv4RxOps ipv4Rx
  dsimp only
  split
  · exact hp.returns rfl rfl
  split
  · exact hp.returns rfl rfl
  split
  · exact hp.returns rfl rfl
  · exact ipv4Accept_ops s i _ hp

theorem icmpv6EchoReply_ops (request : Pktbuf) (hp : p.Same s.pool) :
    p.Keeps (icmpv6EchoReply s request).pool (arpSendOps p.free) := by
  refine hp.keeps.append (?_ : s.pool.Keeps _ (arpSendOps p.free))
  rw [hp.free_eq]
  unfold icmpv6EchoReply
  rcases alloc_cases s.pool with ⟨pool, halloc, hempty, hkeeps⟩ | ⟨pool, r, halloc, hfree, htaken⟩
  · rw [halloc, hempty]
    exact hkeeps
  · rw [halloc, hfree]
    exact htaken (ethernetTx_returns _ icmpv6EchoMac ethTypeIpv6 r ⟨rfl, rfl⟩)

theorem icmpv6Handle_ops (srcAddr : Ip6) (hp : p.Same s.pool) :
    p.Returns i (icmpv6Handle s i srcAddr).pool (icmpv6HandleOps s i p.free) := by
  unfold icmpv6HandleOps icmpv6Handle
  dsimp only
  split
  · exact hp.returns rfl rfl
  split
  · exact (icmpv6EchoReply_ops s _ hp).returns (returns_free _ i)
  split
  · split <;> exact hp.returns rfl rfl
  split
  · split <;> exact hp.returns rfl rfl
  · exact hp.returns rfl rfl

theorem ipv6Rx_ops (hp : p.Same s.pool) : p.Returns i (ipv6Rx s i).pool (ipv6RxOps s i p.free) := by
  unfold ipv6RxOps ipv6Rx
  dsimp only
  split
  · exact hp.returns rfl rfl
  split
  · exact hp.returns rfl rfl
  split
  · exact tcpRx_ops _ i 0 ⟨hp.freeList, hp.initialized⟩
  split
  · exact udpRx_ops _ i 0 ⟨hp.freeList, hp.initialized⟩
  split
  · exact icmpv6Handle_ops _ i _ ⟨hp.freeList, hp.initialized⟩
  · exact hp.returns rfl rfl

theorem ethernetRx_ops (hp : p.Same s.pool) :
    p.Returns i (ethernetRx s i).pool (ethernetRxOps s i p.free) := by
  unfold ethernetRxOps ethernetRx
  cases hpull : pktbufPull s.pool i 14 with
  | none => exact hp.returns rfl rfl
  | some pool =>
    have hpool : p.Same pool := by
      unfold pktbufPull at hpull
      split at hpull
      · cases hpull
      · cases hpull
        exact ⟨hp.freeList, hp.initialized⟩
    dsimp only
    split
    · exact ipv4Rx_ops _ i hpool
    split
    · exact arpRx_ops _ i hpool
    split
    · exact ipv6Rx_ops _ i hpool
    · exact hpool.returns rfl rfl

theorem pollReceive_ops (hp : p.Same s.pool) :
    p.Returns i (pollReceive s i).1.pool (pollReceiveOps s i p.free) := by
  unfold pollReceiveOps pollReceive
  rcases ethernetRecv s.driver with ⟨driver, err | ⟨bytes, len⟩⟩
  · exact hp.returns rfl rfl
  · exact ethernetRx_ops _ i ⟨hp.freeList, hp.initialized⟩

theorem pollOnce_ops : s.pool.Keeps (pollOnce s).1.pool (pollOnceOps s) := by
  unfold pollOnceOps pollOnce
  rcases alloc_cases s.pool with ⟨pool, halloc, -, hkeeps⟩ | ⟨pool, i, halloc, -, htaken⟩
  · rw [halloc]
    exact hkeeps
  · rw [halloc]
    exact htaken (pollReceive_ops _ i ⟨rfl, rfl⟩)

theorem networkPoll_ops : s.pool.Keeps (networkPoll s).pool (networkPollOps s) := by
  have hloop : ∀ n (s : Stack), s.pool.Keeps (pollLoop n s).pool (pollLoopOps n s) := by
    intro n
    induction n with
    | zero => exact fun s => .refl _
    | succ n ih =>
      intro s
      have hround := pollOnce_ops s
      unfold pollLoopOps pollLoop
      by_cases hmore : (pollOnce s).2 = true
      · rw [if_pos hmore, if_pos hmore]
        exact hround.append (ih _)
      · rw [if_neg hmore, if_neg hmore, append_nil]
        exact hround
  exact hloop 32 s

end

/-! The calls of the transports and of the socket layer. -/

section
variable (s : Stack)

theorem udpSend_ops (dst : UInt32) (dstPort srcPort : UInt16) (data : List UInt8) :
    s.pool.Keeps (udpSend s dst dstPort srcPort data).1.pool (udpSendOps s dst data) := by
  have hsent : ∀ (header : List UInt8) (total : Nat), header.length = 8 →
      s.pool.Keeps (ipv4Send s dst 17 ((header ++ data).take total)).1.pool
        (ipv4SendOps s dst (min total (8 + data.length)) s.pool.free) := by
    intro header total hheader
    have hsend := ipv4Send_ops s dst 17 ((header ++ data).take total) .rfl
    rw [length_take, length_append, hheader] at hsend
    exact hsend
  unfold udpSendOps udpSend
  dsimp only
  split
  · exact .refl _
  · exact hsent _ _ rfl

section
variable (k : Fin 128) (flags : UInt8) (data : List UInt8)

theorem tcpSendSegment_ops :
    s.pool.Keeps (tcpSendSegment s k flags data).1.pool (tcpSegmentOps s k data) := by
  have hsent := reacted_ops s (s.tcp.emit k flags data) .rfl
  rw [← tcpSendSegment_runs] at hsent
  simpa only [handOnOps, Tcp.emit, flatMap_singleton, tcpSegmentOps] using hsent

theorem tcpSendLoop_ops : s.pool.Keeps (tcpSendLoop s k data).pool (tcpSendLoopOps s k data) := by
  fun_induction tcpSendLoop s k data with
  | case1 s =>
    rw [tcpSendLoopOps]
    exact .refl _
  | case2 s data hdata ih =>
    rw [tcpSendLoopOps, dif_neg hdata]
    exact (tcpSendSegment_ops s k _ _).append ih

theorem tcpSendIdLoop_ops :
    s.pool.Keeps (tcpSendIdLoop s k data).1.pool (tcpSendIdLoopOps s k data) := by
  fun_induction tcpSendIdLoop s k data with
  | case1 s =>
    rw [tcpSendIdLoopOps]
    exact .refl _
  | case2 s data hdata sent hsent ih =>
    rw [tcpSendIdLoopOps, dif_neg hdata]
    dsimp only
    rw [if_pos hsent]
    exact (tcpSendSegment_ops s k _ _).append ih
  | case3 s data hdata sent hsent =>
    rw [tcpSendIdLoopOps, dif_neg hdata]
    dsimp only
    rw [if_neg hsent, append_nil]
    exact tcpSendSegment_ops s k _ _

end

section
variable (localPort : UInt16) (remoteIp : UInt32) (remotePort : UInt16)

theorem tcpSend_ops
    (data : List UInt8) : s.pool.Keeps (tcpSend s localPort remoteIp remotePort data).1.pool
      (tcpSendOps s localPort remoteIp remotePort data) := by
  unfold tcpSendOps tcpSend
  cases tcpFindConn s.tcp remoteIp remotePort localPort with
  | none => exact .refl _
  | some k =>
    dsimp only
    split
    · exact tcpSendLoop_ops s k data
    · exact .refl _

theorem tcpSendId_ops (connId : Int) (data : List UInt8) :
    s.pool.Keeps (tcpSendId s connId data).1.pool (tcpSendIdOps s connId data) := by
  unfold tcpSendIdOps tcpSendId
  cases connOf connId with
  | none => exact .refl _
  | some k =>
    dsimp only
    split
    · exact .refl _
    · exact tcpSendIdLoop_ops s k data

theorem tcpClose_ops : s.pool.Keeps (tcpClose s localPort remoteIp remotePort).1.pool
      (tcpCloseOps s localPort remoteIp remotePort) := by
  unfold tcpCloseOps tcpClose
  cases tcpFindConn s.tcp remoteIp remotePort localPort with
  | none => exact .refl _
  | some k =>
    rw [tcpCloseConn_runs]
    exact reacted_ops s _ .rfl

end

theorem closeSocket_ops (n : Fin 64) :
    s.pool.Keeps (closeSocket s n).pool (closeTransportOps s (s.sockets n)) := by
  have hpool : (closeSocket s n).pool = (closeTransport s (s.sockets n)).pool := by
    unfold closeSocket
    dsimp only
    split <;> split <;> rfl
  rw [hpool]
  unfold closeTransportOps closeTransport
  split
  · exact .refl _
  cases (s.sockets n).type with
  | dgram =>
    have hunbound : (udpUnbind s (s.sockets n).transportId).pool = s.pool := by
      unfold udpUnbind
      split <;> rfl
    rw [hunbound]
    exact .refl _
  | stream =>
    rw [tcpCloseId_runs]
    exact reacted_ops s _ .rfl

section
variable (owner : Nat) (fd : Int)

theorem netSocketCloseAll_ops : s.pool.Keeps (netSocketCloseAll s owner).pool
    (closeAllOps owner (finRange 64) s) := by
  unfold netSocketCloseAll
  generalize finRange 64 = slots
  induction slots generalizing s with
  | nil => exact .refl _
  | cons n slots ih =>
    rw [foldl_cons, closeAllOps]
    split
    · exact (closeSocket_ops s n).append (ih _)
    · exact ih s

theorem netSocketClose_ops :
    s.pool.Keeps (netSocketClose s owner fd).1.pool (closeOps s owner fd) := by
  unfold closeOps netSocketClose
  cases socketLookup s owner fd with
  | none => exact .refl _
  | some n => exact closeSocket_ops s n

theorem netSocketAccept_ops :
    s.pool.Keeps (netSocketAccept s owner fd).1.pool (acceptOps s owner fd) := by
  rw [netSocketAccept_pool, acceptOps]
  cases socketLookup s owner fd with
  | none => exact .refl _
  | some n =>
    dsimp only
    split
    · exact .refl _
    · exact networkPoll_ops s

theorem netSocketConnect_ops (ip : UInt32) (port : UInt16) :
    s.pool.Keeps (netSocketConnect s owner fd ip port).1.pool (connectOps s owner fd ip port) := by
  have hsent : s.pool.Keeps (tcpConnect s ip port).1.pool
      (handOnOps s (s.tcp.connect s.localIp ip port).2.1 s.pool.free) := by
    rw [tcpConnect_runs]
    generalize s.tcp.connect s.localIp ip port = dialed
    exact reacted_ops s (dialed.1, dialed.2.1) .rfl
  unfold connectOps netSocketConnect
  cases socketLookup s owner fd with
  | none => exact .refl _
  | some n =>
    dsimp only
    split
    · exact .refl _
    · generalize tcpConnect s ip port = connected at hsent ⊢
      split <;> exact hsent

theorem netSocketSend_ops (data : List UInt8) :
    s.pool.Keeps (netSocketSend s owner fd data).1.pool (socketSendOps s owner fd data) := by
  unfold socketSendOps netSocketSend
  cases socketLookup s owner fd with
  | none => exact .refl _
  | some n =>
    dsimp only
    split
    · exact .refl _
    cases (s.sockets n).type with
    | dgram =>
      dsimp only
      split
      · exact .refl _
      · exact udpSend_ops s _ _ _ data
    | stream =>
      have hsent := tcpSendId_ops (noteConnected s n) (s.sockets n).transportId data
      rw [noteConnected_pool] at hsent
      exact hsent

theorem netSocketRecv_ops (len : Nat) :
    s.pool.Keeps (netSocketRecv s owner fd len).1.pool (recvOps s owner fd len) := by
  rw [netSocketRecv_pool, recvOps]
  cases socketLookup s owner fd with
  | none => exact .refl _
  | some n =>
    dsimp only
    split
    · exact .refl _
    · exact networkPoll_ops s

end

theorem event_ops (e : Event) (he : e.topLevel = true) :
    s.pool.Keeps (perform s e).pool (eventOps s e) := by
  cases e with
  | device | setAddr | setAddr6 | routeAdd | routeDel | routeSetDefault | ruleAdd | ruleDel
  | ruleFlush => exact .refl _
  | poll => exact networkPoll_ops s
  | alloc | push | pull | free | ethernetRx | ethernetTx => cases he
  | arpRequest ip => exact arpSend_ops s 1 _ _ .rfl
  | ipv4Send dst proto payload => exact ipv4Send_ops s dst proto payload .rfl
  | echoRequest dst id seq => exact ipv4Send_ops s dst 1 _ .rfl
  | destUnreachable dst code orig =>
    have hsent := ipv4Send_ops s dst 1 (icmpMessage 3 code ([0, 0, 0, 0] ++ orig.take 28))
      .rfl
    rw [length_icmpMessage, length_append, length_take, ← Nat.add_assoc] at hsent
    exact hsent
  | udpSend dst dstPort srcPort data => exact udpSend_ops s dst dstPort srcPort data
  | tcpSend localPort remoteIp remotePort data =>
    rw [perform, eventOps]
    exact tcpSend_ops s localPort remoteIp remotePort data
  | tcpClose localPort remoteIp remotePort =>
    rw [perform, eventOps]
    exact tcpClose_ops s localPort remoteIp remotePort
  | create owner type => exact .of_eq (netSocketCreate_pool s owner type)
  | bind owner fd port => exact .of_eq (netSocketBind_pool s owner fd port)
  | listen owner fd => exact .of_eq (netSocketListen_pool s owner fd)
  | accept owner fd => exact netSocketAccept_ops s owner fd
  | connect owner fd ip port => exact netSocketConnect_ops s owner fd ip port
  | send owner fd data => exact netSocketSend_ops s owner fd data
  | recv owner fd len => exact netSocketRecv_ops s owner fd len
  | close owner fd => exact netSocketClose_ops s owner fd
  | closeAll owner => exact netSocketCloseAll_ops s owner

end

theorem run_ops {s t : Stack} {es : List Event}
    (hrun : Run step (fun _ e => e.topLevel = true) s es t) :
    s.pool.Keeps t.pool (runOps s es) := by
  induction hrun with
  | nil s => exact .refl _
  | @cons s _ _ e _ htop hstep _ ih =>
    cases hstep
    exact (event_ops s e htop).append ih

/-- Starting with all 64 buffers free, whatever frames arrive and whatever the driver answers,
every buffer that is taken is given back once, none is given back that was not taken, and
between two calls the list in memory again leads through all 64 and ends. -/
theorem buffers_returned_once (s t : Stack) (es : List Event)
    (hpool : s.pool.free.Perm (range 64))
    (hrun : Run step (fun _ e => e.topLevel = true) s es t) :
    account [] (runOps s es) = some [] ∧ t.pool.free.Perm (range 64) ∧
      ∀ f : Links Nat, f.Lists s.pool.free →
        ((runOps s es).foldl Links.after f).Lists t.pool.free := by
  have hkeeps := run_ops hrun
  have hnodup : s.pool.free.Nodup := hpool.nodup_iff.mpr nodup_range
  refine ⟨(hkeeps.moves []).account hnodup, ?_, fun f hf => (hkeeps.moves []).lists hnodup hf⟩
  rw [hkeeps.free_eq]
  exact hpool

/-- Polling, an ARP request and a datagram from the boot state, the driver taking the first frame
and refusing the second. -/
theorem quiet_buffers_returned : ∃ t, Run step (fun _ e => e.topLevel = true) quiet
      [.device [] [true, false], .poll, .arpRequest 0x0A000001,
        .udpSend 0xFFFFFFFF 53 53 [1, 2]] t ∧
      account [] (runOps quiet [.device [] [true, false], .poll, .arpRequest 0x0A000001,
          .udpSend 0xFFFFFFFF 53 53 [1, 2]]) = some [] ∧ t.pool.free.Perm (range 64) := by
  have hpool : quiet.pool.free.Perm (range 64) := reverse_perm _
  have hrun : ∃ t, Run step (fun _ e => e.topLevel = true) quiet
      [.device [] [true, false], .poll, .arpRequest 0x0A000001,
        .udpSend 0xFFFFFFFF 53 53 [1, 2]] t :=
    ⟨_, .cons rfl rfl (.cons rfl rfl (.cons rfl rfl (.cons rfl rfl (.nil _))))⟩
  obtain ⟨t, hrun⟩ := hrun
  obtain ⟨haccount, hfree, _⟩ := buffers_returned_once quiet t _ hpool hrun
  exact ⟨t, hrun, haccount, hfree⟩

end AegisOS.Net
