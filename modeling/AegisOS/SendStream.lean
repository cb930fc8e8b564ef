import AegisOS.Lib.Pieces
import AegisOS.NetDatagrams

/-! The stream of bytes a connection sends. `tcp_send_segment` moves `snd_nxt` on before it knows
whether IPv4 took the segment, so the numbers are only right while every segment is taken. -/
namespace AegisOS.Net
open ByteStore GuardedRun Pieces List

/-! Frames on the wire. -/

def carriesIpv4 (frame : List UInt8) : Bool := bswap16 (loadU16 (ofList frame) 12) == ethTypeIpv4

/-- The sequence number of a TCP segment without IPv4 options. -/
def frameSeq (frame : List UInt8) : UInt32 := bswap32 (loadU32 (ofList frame) 38)

def framePayload (frame : List UInt8) : List UInt8 := frame.drop 54

/-- The frames that reached the driver between two states, the oldest first. -/
def sentSince (s t : Stack) : List (List UInt8) :=
  (t.driver.sent.take (t.driver.sent.length - s.driver.sent.length)).reverse

/-- The sequence numbers and the data of the IPv4 packets among some frames. -/
def segmentsOf (frames : List (List UInt8)) : List (UInt32 × List UInt8) :=
  (frames.filter carriesIpv4).map fun f => (frameSeq f, framePayload f)

/-! Calls, and what happens to the rest of the stack between them. -/

inductive StreamEvent
  | send (data : List UInt8)
  | world (rest : Stack)

/-- `tcp_send_id` on connection `k`; between calls everything but the TCP state and the frames
already sent may become anything: buffers come and go, addresses get known and forgotten, the
driver goes down and comes back. -/
def streamPerform (k : Fin 128) (s : Stack) : StreamEvent → Stack
  | .send data => (tcpSendId s k.val data).1
  | .world rest => { rest with
      tcp := s.tcp, driver := { rest.driver with sent := s.driver.sent } }

def streamStep (k : Fin 128) (s : Stack) (e : StreamEvent) : Option Stack :=
  some (streamPerform k s e)

/-- What a call adds to the stream: its data, when it returned success. -/
def streamAdds (k : Fin 128) (s : Stack) : StreamEvent → List UInt8
  | .send data => if (tcpSendId s k.val data).2 = data.length then data else []
  | .world _ => []

def streamData (k : Fin 128) : Stack → List StreamEvent → List UInt8
  | _, [] => []
  | s, e :: es => streamAdds k s e ++ streamData k (streamPerform k s e) es

/-- The segment of a call will be taken: it fits into a packet buffer, one is free, the next hop is
known, and the driver is up and completes the next transmission. -/
structure CanSend (s : Stack) (k : Fin 128) (data : List UInt8) : Prop where
  short : data.length ≤ 717
  buffer : (pktbufAlloc s.pool).2.isSome = true
  resolved : Resolved s (s.tcp.conns k).remoteIp
  ready : s.driver.ready = true
  completes : s.driver.tx.head? ≠ some false

/-- The call gives nothing to IPv4: there is no data, or the connection is not open. -/
def Refused (s : Stack) (k : Fin 128) (data : List UInt8) : Prop :=
  data = [] ∨ (s.tcp.conns k).active = false ∨ (s.tcp.conns k).state ≠ .established

def StreamEvent.Taken (k : Fin 128) (s : Stack) : StreamEvent → Prop
  | .send data => Refused s k data ∨ CanSend s k data
  | .world _ => True

/-! Fields of frames. -/

variable {front rest : List UInt8} {off : Nat}

section

theorem bswap32_bswap32 (v : UInt32) : bswap32 (bswap32 v) = v := by
  have hbytes : ∀ bs : List UInt8, bs.length = 4 →
      leBytes 4 (UInt32.ofNat (leNat bs)).toNat = bs := by
    intro bs hlen
    have hlt : leNat bs < 2 ^ 32 := by
      have := leNat_lt bs
      rw [hlen] at this
      exact this
    have hback := leBytes_leNat bs
    rw [hlen] at hback
    rw [UInt32.toNat_ofNat', Nat.mod_eq_of_lt hlt, hback]
  unfold bswap32
  rw [hbytes _ (by rw [length_reverse, length_leBytes]), reverse_reverse,
    leNat_leBytes v.toNat_lt, UInt32.ofNat_toNat]

section
variable (h : front.length = off)
include h

theorem readBytes_ofList_between (bs rest : List UInt8) :
    readBytes (ofList (front ++ (bs ++ rest))) off bs.length = bs := by
  rw [readBytes_ofList_slice (by simp only [length_append]; omega), drop_left' h, take_left' rfl]

theorem loadU32_ofList (v : UInt32) : loadU32 (ofList (front ++ (bytes32 v ++ rest))) off = v := by
  have hslice := readBytes_ofList_between h (bytes32 v) rest
  rw [length_bytes32] at hslice
  rw [loadU32, hslice, bytes32, leNat_leBytes v.toNat_lt, UInt32.ofNat_toNat]

theorem loadU16_ofList (v : UInt16) : loadU16 (ofList (front ++ (bytes16 v ++ rest))) off = v := by
  have hslice := readBytes_ofList_between h (bytes16 v) rest
  rw [length_bytes16] at hslice
  rw [loadU16, hslice, bytes16, leNat_leBytes v.toNat_lt, UInt16.ofNat_toNat]

end

variable (mac localMac : Mac) (header payload : List UInt8)

theorem carriesIpv4_ipv4Frame : carriesIpv4 (ipv4Frame mac localMac header payload) = true := by
  have hlen : (mac.val ++ localMac.val).length = 12 := by
    rw [length_append, mac.property, localMac.property]
  rw [carriesIpv4, ipv4Frame, be16, append_assoc (mac.val ++ localMac.val), loadU16_ofList hlen]
  decide

variable (hheader : header.length = 20) (c : TcpConn) (flags : UInt8) (data : List UInt8)
include hheader

theorem frameSeq_segment :
    frameSeq (ipv4Frame mac localMac header (tcpSegment c flags data)) = c.sndNxt := by
  have hlen : (mac.val ++ localMac.val ++ be16 ethTypeIpv4 ++ header ++ be16 c.localPort ++
      be16 c.remotePort).length = 38 := by
    simp only [length_append, mac.property, localMac.property, length_be16, hheader]
  obtain ⟨sum, hsegment⟩ : ∃ sum, tcpSegment c flags data = tcpHeader c flags sum ++ data :=
    ⟨_, rfl⟩
  have hshape : ipv4Frame mac localMac header (tcpSegment c flags data) =
      mac.val ++ localMac.val ++ be16 ethTypeIpv4 ++ header ++ be16 c.localPort ++
        be16 c.remotePort ++ (bytes32 (bswap32 c.sndNxt) ++ (bytes32 (bswap32 c.rcvNxt) ++
          [0x50, flags] ++ be16 c.rcvWnd ++ bytes16 sum ++ [0, 0] ++ data)) := by
    simp only [hsegment, ipv4Frame, tcpHeader, append_assoc]
  rw [frameSeq, hshape, loadU32_ofList hlen, bswap32_bswap32]

theorem framePayload_segment :
    framePayload (ipv4Frame mac localMac header (tcpSegment c flags data)) = data := by
  obtain ⟨sum, hsegment⟩ : ∃ sum, tcpSegment c flags data = tcpHeader c flags sum ++ data :=
    ⟨_, rfl⟩
  have hlen : (mac.val ++ localMac.val ++ be16 ethTypeIpv4 ++ header ++
      tcpHeader c flags sum).length = 54 := by
    simp [mac.property, localMac.property, hheader, tcpHeader]
  have hshape : ipv4Frame mac localMac header (tcpSegment c flags data) =
      mac.val ++ localMac.val ++ be16 ethTypeIpv4 ++ header ++ tcpHeader c flags sum ++ data := by
    simp only [hsegment, ipv4Frame, append_assoc]
  rw [framePayload, hshape, drop_left' hlen]

end

/-! Calls that are taken. -/

section
variable {s t u : Stack} {k : Fin 128} {data : List UInt8}

theorem ethernetSend_completes {dr : Driver} {frame : List UInt8} (hready : dr.ready = true)
    (hpos : 0 < frame.length) (hmax : frame.length ≤ frameMax) (hdone : dr.tx.head? ≠ some false) :
    (ethernetSend dr frame).2 = 0 ∧ (ethernetSend dr frame).1.sent = frame :: dr.sent := by
  have hne : frame.length ≠ 0 := Nat.pos_iff_ne_zero.mp hpos
  rw [ethernetSend, if_neg (by simp [hready, hne, hmax])]
  cases htx : dr.tx with
  | nil => exact ⟨rfl, rfl⟩
  | cons done rest =>
    cases done with
    | true => exact ⟨rfl, rfl⟩
    | false =>
      rw [htx] at hdone
      exact absurd rfl hdone

theorem ipv4Send_taken {dst : UInt32} (proto : UInt8) {payload : List UInt8}
    (hbuf : (pktbufAlloc s.pool).2.isSome = true) (hresolved : Resolved s dst)
    (hready : s.driver.ready = true) (hdone : s.driver.tx.head? ≠ some false)
    (hpos : 0 < payload.length) (hlen : payload.length ≤ 737) :
    ∃ (mac : Mac) (header : List UInt8), header.length = 20 ∧ (ipv4Send s dst proto payload).2 = 0 ∧
      (ipv4Send s dst proto payload).1.driver.sent =
        ipv4Frame mac s.localMac header payload :: s.driver.sent := by
  obtain ⟨mac, sum, hsends⟩ := ipv4Send_sends proto hbuf hresolved (ne_nil_of_length_pos hpos) hlen
  have hheader := length_ipv4Header s.ipIdCounter (20 + payload.length) proto s.localIp dst sum
  generalize ipv4Header s.ipIdCounter (20 + payload.length) proto s.localIp dst sum = header
    at hsends hheader
  have hlength := length_ipv4Frame mac s.localMac header payload
  obtain ⟨hresult, hsent⟩ := ethernetSend_completes hready
    (by omega : 0 < (ipv4Frame mac s.localMac header payload).length)
    (by unfold frameMax; omega) hdone
  rw [← hsends] at hresult hsent
  exact ⟨mac, header, hheader, hresult, hsent⟩

/-- The stack with `snd_nxt` of a connection moved on. -/
def Stack.advance (s : Stack) (k : Fin 128) (n : Nat) : Stack :=
  s.setConn k { s.tcp.conns k with sndNxt := (s.tcp.conns k).sndNxt + .ofNat n }

theorem tcpSendSegment_data (s : Stack) (k : Fin 128) (data : List UInt8) :
    tcpSendSegment s k (tcpAck ||| tcpPsh) data =
      ipv4Send (s.advance k data.length) (s.tcp.conns k).remoteIp 6
        (tcpSegment (s.tcp.conns k) (tcpAck ||| tcpPsh) data) := by
  have hnext : (s.tcp.conns k).sndNxt + 0 + 0 + .ofNat data.length =
      (s.tcp.conns k).sndNxt + .ofNat data.length := by
    rw [UInt32.add_zero, UInt32.add_zero]
  rw [Stack.advance, ← hnext]
  rfl

theorem sndNxt_tcpSendSegment (s : Stack) (k : Fin 128) (data : List UInt8) :
    ((tcpSendSegment s k (tcpAck ||| tcpPsh) data).1.tcp.conns k).sndNxt =
      (s.tcp.conns k).sndNxt + .ofNat data.length := by
  obtain ⟨pool, driver, id, hframe, -⟩ := ipv4Send_frame (s := s.advance k data.length)
    (s.tcp.conns k).remoteIp 6 (tcpSegment (s.tcp.conns k) (tcpAck ||| tcpPsh) data)
  rw [tcpSendSegment_data, hframe]
  simp [Stack.advance, Stack.setConn]

theorem tcpSendSegment_taken (h : CanSend s k data) :
    ∃ frame, segmentsOf [frame] = [((s.tcp.conns k).sndNxt, data)] ∧
      (tcpSendSegment s k (tcpAck ||| tcpPsh) data).2 = 0 ∧
      (tcpSendSegment s k (tcpAck ||| tcpPsh) data).1.driver.sent = frame :: s.driver.sent := by
  have hshort := h.short
  have hsegment := length_tcpSegment (s.tcp.conns k) (tcpAck ||| tcpPsh) data
  obtain ⟨mac, header, hheader, hresult, hsent⟩ := ipv4Send_taken
    (s := s.advance k data.length) 6 h.buffer h.resolved h.ready h.completes
    (by omega : 0 < (tcpSegment (s.tcp.conns k) (tcpAck ||| tcpPsh) data).length) (by omega)
  rw [tcpSendSegment_data]
  refine ⟨_, ?_, hresult, hsent⟩
  rw [segmentsOf, filter_cons_of_pos (carriesIpv4_ipv4Frame _ _ _ _), filter_nil,
    map_singleton, frameSeq_segment _ _ _ hheader, framePayload_segment _ _ _ hheader]

theorem tcpSendId_refused (h : Refused s k data) : tcpSendId s k.val data = (s, -1) := by
  rw [tcpSendId, connOf_val]
  exact if_pos h

theorem tcpSendId_taken (hopen : ¬ Refused s k data) (h : CanSend s k data) :
    tcpSendId s k.val data =
      ((tcpSendSegment s k (tcpAck ||| tcpPsh) data).1, (data.length : Int)) := by
  have hne : data ≠ [] := fun hnil => hopen (.inl hnil)
  have hmss : data.length ≤ tcpMss := le_trans h.short (by decide)
  obtain ⟨-, -, hresult, -⟩ := tcpSendSegment_taken h
  have hloop : tcpSendIdLoop s k data =
      ((tcpSendSegment s k (tcpAck ||| tcpPsh) data).1, true) := by
    rw [tcpSendIdLoop, dif_neg hne, take_of_length_le hmss, drop_of_length_le hmss]
    rw [if_pos hresult, tcpSendIdLoop, dif_pos rfl]
  rw [tcpSendId, connOf_val]
  refine (if_neg hopen).trans ?_
  rw [hloop]
  rfl

/-! Runs. -/

theorem streamPerform_laid {e : StreamEvent} (h : e.Taken k s) :
    ∃ frames, (streamPerform k s e).driver.sent = frames ++ s.driver.sent ∧
      Laid (fun n => (s.tcp.conns k).sndNxt + .ofNat n) (segmentsOf frames.reverse)
        (streamAdds k s e) ∧
      ((streamPerform k s e).tcp.conns k).sndNxt =
        (s.tcp.conns k).sndNxt + .ofNat (streamAdds k s e).length := by
  have hzero : (s.tcp.conns k).sndNxt + .ofNat 0 = (s.tcp.conns k).sndNxt := UInt32.add_zero _
  cases e with
  | world rest => exact ⟨[], rfl, .nil _, hzero.symm⟩
  | send data =>
    by_cases hrefused : Refused s k data
    · have hcall := tcpSendId_refused hrefused
      have hadds : streamAdds k s (.send data) = [] := by
        rw [streamAdds, hcall]
        exact if_neg (by omega)
      rw [hadds, streamPerform, hcall]
      exact ⟨[], rfl, .nil _, hzero.symm⟩
    have hsend := h.resolve_left hrefused
    have hcall := tcpSendId_taken hrefused hsend
    have hadds : streamAdds k s (.send data) = data := by
      rw [streamAdds, hcall]
      exact if_pos rfl
    obtain ⟨frame, hsegments, -, hsent⟩ := tcpSendSegment_taken hsend
    rw [hadds, streamPerform, hcall]
    have hlaid := Laid.single (fun n => (s.tcp.conns k).sndNxt + .ofNat n) data
    rw [hzero, ← hsegments] at hlaid
    exact ⟨[frame], hsent, hlaid, sndNxt_tcpSendSegment s k data⟩

theorem segmentsOf_append (fs gs : List (List UInt8)) :
    segmentsOf (fs ++ gs) = segmentsOf fs ++ segmentsOf gs := by
  simp only [segmentsOf, filter_append, map_append]

theorem run_laid {es : List StreamEvent} (hrun : Run (streamStep k) (StreamEvent.Taken k) s es t) :
    ∃ frames, t.driver.sent = frames ++ s.driver.sent ∧
      Laid (fun n => (s.tcp.conns k).sndNxt + .ofNat n) (segmentsOf frames.reverse)
        (streamData k s es) := by
  induction hrun with
  | nil => exact ⟨[], rfl, .nil _⟩
  | @cons s s' t e es hok hstep _ ih =>
    cases hstep
    obtain ⟨first, hfirst, hlaid, hnext⟩ := streamPerform_laid hok
    obtain ⟨later, hlater, hrest⟩ := ih
    -- later pieces are numbered from where this event leaves `snd_nxt`
    have hshift : (fun n => ((streamPerform k s e).tcp.conns k).sndNxt + .ofNat n) =
        fun n => (s.tcp.conns k).sndNxt + .ofNat ((streamAdds k s e).length + n) := by
      funext n
      rw [hnext, UInt32.ofNat_add, UInt32.add_assoc]
    rw [hshift] at hrest
    refine ⟨later ++ first, by rw [hlater, hfirst, append_assoc], ?_⟩
    rw [reverse_append, segmentsOf_append]
    exact hlaid.append hrest

theorem sentSince_append {frames : List (List UInt8)}
    (h : t.driver.sent = frames ++ s.driver.sent) : sentSince s t = frames.reverse := by
  rw [sentSince, h, length_append, Nat.add_sub_cancel, take_left]

/-- The segments of any sequence of calls, each of which is refused or can be sent, carry the data
of the calls that returned success, every byte at its number and none twice. -/
theorem sent_stream_consistent (k : Fin 128) (s t : Stack) (es : List StreamEvent)
    (hrun : Run (streamStep k) (StreamEvent.Taken k) s es t) :
    Laid (fun n => (s.tcp.conns k).sndNxt + .ofNat n) (segmentsOf (sentSince s t))
      (streamData k s es) := by
  obtain ⟨frames, hsent, hlaid⟩ := run_laid hrun
  rw [sentSince_append hsent]
  exact hlaid

end

/-- The host 10.0.0.1/24 with a connection to its neighbour 10.0.0.2, next to send number 1001. -/
def connected : Stack :=
  { quiet with
    localIp := 0x0100000A
    localNetmask := 0x00FFFFFF
    tcp := ⟨fun k => if k.val = 0 then
        ⟨0x0100000A, 80, 0x0200000A, 9, .established, 1001, 1001, 5, 65535, 65535, [], true, false⟩
      else quiet.tcp.conns k, 49152⟩ }

/-- The same host when it knows the hardware address of the neighbour. -/
def introduced : Stack :=
  { connected with
    arp := ⟨fun n => if n.val = 0 then ⟨0x0200000A, ⟨[2, 0, 0, 0, 0, 2], rfl⟩, true, 1⟩
      else quiet.arp.entries n, 1⟩ }

theorem introduced_streams :
    ∃ t, Run (streamStep 0) (StreamEvent.Taken 0) introduced [.send [97, 98], .send [99]] t ∧
      streamData 0 introduced [.send [97, 98], .send [99]] = [97, 98, 99] ∧
      Laid (fun n => 1001 + .ofNat n) (segmentsOf (sentSince introduced t)) [97, 98, 99] := by
  have hdata : streamData 0 introduced [.send [97, 98], .send [99]] = [97, 98, 99] := by
    decide +kernel
  have hfirst : CanSend introduced 0 [97, 98] :=
    ⟨by decide, rfl, .inr (by decide +kernel), rfl, by decide⟩
  have hsecond : CanSend (streamPerform 0 introduced (.send [97, 98])) 0 [99] :=
    ⟨by decide, by decide +kernel, .inr (by decide +kernel), by decide +kernel, by decide +kernel⟩
  have hrun : Run (streamStep 0) (StreamEvent.Taken 0) introduced [.send [97, 98], .send [99]] _ :=
    .cons (.inr hfirst) rfl (.cons (.inr hsecond) rfl (.nil _))
  have hlaid := sent_stream_consistent 0 introduced _ _ hrun
  rw [hdata] at hlaid
  exact ⟨_, hrun, hdata, hlaid⟩

/-- The first call fails because the address of the neighbour is not known yet; the second one,
with the same data, sends it behind a gap. -/
theorem retry_leaves_gap : (tcpSendId connected 0 [97, 98]).2 = -1 ∧
    ∃ t, Run (streamStep 0) anyEvent connected
        [.send [97, 98], .world introduced, .send [97, 98]] t ∧
      streamData 0 connected [.send [97, 98], .world introduced, .send [97, 98]] = [97, 98] ∧
      segmentsOf (sentSince connected t) = [(1003, [97, 98])] ∧
      ¬Laid (fun n => 1001 + .ofNat n) (segmentsOf (sentSince connected t)) [97, 98] := by
  have hrun : Run (streamStep 0) anyEvent connected
      [.send [97, 98], .world introduced, .send [97, 98]]
      (streamPerform 0 (streamPerform 0 (streamPerform 0 connected (.send [97, 98]))
        (.world introduced)) (.send [97, 98])) :=
    .cons trivial rfl (.cons trivial rfl (.cons trivial rfl (.nil _)))
  have hsegments : segmentsOf (sentSince connected (streamPerform 0 (streamPerform 0
      (streamPerform 0 connected (.send [97, 98])) (.world introduced)) (.send [97, 98]))) =
      [(1003, [97, 98])] := by decide +kernel
  refine ⟨by decide +kernel, _, hrun, by decide +kernel, hsegments, fun hlaid => ?_⟩
  rw [hsegments] at hlaid
  exact absurd (hlaid.2 [] _ [] rfl) (by decide)

end AegisOS.Net
