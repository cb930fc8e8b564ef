import AegisOS.Lib.GuardedRun
import AegisOS.TcpMachine

/-! The bytes `tcp_recv_id` returns on one connection, whatever order the segments of the peer
arrive in. -/
namespace AegisOS.Net
open ByteStore GuardedRun List

/-- The table, and what the calls of `tcp_recv_id` returned so far. -/
structure Receiving where
  tcp : Tcp
  returned : List UInt8

inductive ReceiveEvent
  | arrive (localIp : UInt32) (b : Pktbuf) (srcIp : UInt32)
  | recv (maxLen : Nat)

def receiveStep (k : Fin 128) (s : Receiving) : ReceiveEvent → Option Receiving
  | .arrive localIp b srcIp => some { s with tcp := (s.tcp.rx localIp b srcIp).1 }
  | .recv maxLen =>
    let got := s.tcp.recv k.val maxLen
    some ⟨got.1, s.returned ++ got.2.getD []⟩

def payloadOf (b : Pktbuf) : List UInt8 :=
  readBytes b.data (b.head + (segmentOf b).dataOff) (b.len - (segmentOf b).dataOff)

/-- A buffer that holds one segment of a stream: its SYN, or any part of it at its place. -/
structure StreamSegment (isn : UInt32) (stream : List UInt8) (b : Pktbuf) : Prop where
  header : 20 ≤ (segmentOf b).dataOff
  fits : (segmentOf b).dataOff ≤ b.len ∧ b.len < 65536
  place : hasFlag (segmentOf b).flags tcpSyn = true ∧ (segmentOf b).seq = isn ∧ payloadOf b = [] ∨
    hasFlag (segmentOf b).flags tcpSyn = false ∧ ∃ p ≤ stream.length,
      (segmentOf b).seq = isn + 1 + .ofNat p ∧ payloadOf b <+: stream.drop p

instance (isn : UInt32) (stream : List UInt8) (b : Pktbuf) :
    Decidable (StreamSegment isn stream b) :=
  decidable_of_iff
    (20 ≤ (segmentOf b).dataOff ∧ ((segmentOf b).dataOff ≤ b.len ∧ b.len < 65536) ∧
      (hasFlag (segmentOf b).flags tcpSyn = true ∧ (segmentOf b).seq = isn ∧ payloadOf b = [] ∨
        hasFlag (segmentOf b).flags tcpSyn = false ∧ ∃ p ≤ stream.length,
          (segmentOf b).seq = isn + 1 + .ofNat p ∧ payloadOf b <+: stream.drop p))
    ⟨fun h => ⟨h.1, h.2.1, h.2.2⟩, fun h => ⟨h.header, h.fits, h.place⟩⟩

/-- What arrives for the connection is a segment of the peer's stream; what arrives for others is
anything. -/
def PeerSends (k : Fin 128) (isn : UInt32) (stream : List UInt8) (s : Receiving) :
    ReceiveEvent → Prop
  | .arrive _ b srcIp =>
    (s.tcp.conns k).Matches srcIp (segmentOf b).srcPort (segmentOf b).dstPort →
      StreamSegment isn stream b
  | .recv _ => True

instance (k : Fin 128) (isn : UInt32) (stream : List UInt8) (s : Receiving) :
    (e : ReceiveEvent) → Decidable (PeerSends k isn stream s e)
  | .arrive _ _ _ => inferInstanceAs (Decidable (_ → _))
  | .recv _ => inferInstanceAs (Decidable True)

/-- A connection before the first byte of a peer whose SYN has the number `isn`. -/
structure Untouched (isn : UInt32) (c : TcpConn) : Prop where
  active : c.active = true
  empty : c.rx = []
  start : c.state = .synSent ∨ (c.state = .synReceived ∨ c.state = .established) ∧ c.rcvNxt = isn + 1

/-- `n` bytes of the stream were taken in, and the next one expected is the next of the stream. -/
structure InOrder (isn : UInt32) (stream returned : List UInt8) (c : TcpConn) (n : Nat) : Prop where
  active : c.active = true
  bound : n ≤ stream.length
  bytes : returned ++ c.rx = stream.take n
  next : c.state = .synSent ∧ n = 0 ∨
    (c.state = .synReceived ∨ c.state = .established) ∧ c.rcvNxt = isn + 1 + .ofNat n ∨
    c.state = .closeWait

section
variable {isn : UInt32} {stream returned : List UInt8} {c c' : TcpConn} {b : Pktbuf} {n : Nat}

theorem payloadLen_eq (h : StreamSegment isn stream b) :
    payloadLen (segmentOf b) b = (payloadOf b).length := by
  have hle := h.fits.1
  have hlt := h.fits.2
  rw [payloadOf, length_readBytes, payloadLen, u16]
  omega

theorem takenBytes_front (h : StreamSegment isn stream b) :
    takenBytes c (segmentOf b) b <+: payloadOf b := by
  have hlen := payloadLen_eq h
  rw [payloadOf, length_readBytes] at hlen
  rw [takenBytes, hlen, payloadOf, Nat.min_comm, ← readBytes_take]
  exact take_prefix _ _

/-- Positions below `2 ^ 32` are told apart by their sequence numbers. -/
theorem seq_inj {p q : Nat} (hp : p < 2 ^ 32) (hq : q < 2 ^ 32)
    (h : isn + 1 + UInt32.ofNat p = isn + 1 + UInt32.ofNat q) : p = q := by
  have heq : UInt32.ofNat p = UInt32.ofNat q := by simpa using h
  have := congrArg UInt32.toNat heq
  rwa [UInt32.toNat_ofNat_of_lt' hp, UInt32.toNat_ofNat_of_lt' hq] at this

variable (h : InOrder isn stream returned c n)
include h

theorem InOrder.expects (hs : c.state = .established) : c.rcvNxt = isn + 1 + .ofNat n := by
  have hnext := h.next
  simp only [hs] at hnext
  simpa using hnext

theorem InOrder.next_part (hs : c.state = .established) (hlen : stream.length < 2 ^ 32)
    (hseg : StreamSegment isn stream b) (hpos : 0 < payloadLen (segmentOf b) b)
    (hseq : (segmentOf b).seq = c.rcvNxt) : payloadOf b <+: stream.drop n := by
  cases hseg.place with
  | inl hp =>
    rw [payloadLen_eq hseg, hp.2.2] at hpos
    exact absurd hpos (by simp)
  | inr hp =>
    obtain ⟨-, p, hp, hat, hpart⟩ := hp
    have hpn : p = n := seq_inj (by omega) (Nat.lt_of_le_of_lt h.bound hlen)
      (hat.symm.trans (hseq.trans (h.expects hs)))
    exact hpn ▸ hpart

theorem InOrder.react (hlen : stream.length < 2 ^ 32) (hseg : StreamSegment isn stream b)
    {acked : Bool} (hr : Reaction (segmentOf b) b c c' acked) :
    ∃ m, InOrder isn stream returned c' m := by
  cases hr with
  | connected hs hsyn =>
    have hn : n = 0 := by
      have hnext := h.next
      simp only [hs] at hnext
      simpa using hnext
    have hseq : (segmentOf b).seq = isn := by
      cases hseg.place with
      | inl hp => exact hp.2.1
      | inr hp => simp [hp.1] at hsyn
    refine ⟨n, h.active, h.bound, h.bytes, .inr (.inl ⟨.inr rfl, ?_⟩)⟩
    simp [hseq, hn]
  | confirmed hs =>
    have hnext := h.next
    simp only [hs] at hnext
    exact ⟨n, h.active, h.bound, h.bytes, .inr (.inl ⟨.inr rfl, by simpa using hnext⟩)⟩
  | data hs hfin hpos hseq =>
    have htaken := (takenBytes_front (c := c) hseg).trans (h.next_part hs hlen hseg hpos hseq)
    have hbound : (takenBytes c (segmentOf b) b).length ≤ stream.length - n := by
      simpa using htaken.length_le
    have hn := h.bound
    refine ⟨n + (takenBytes c (segmentOf b) b).length, h.active, by omega, ?_,
      .inr (.inl ⟨.inr hs, ?_⟩)⟩
    · rw [← append_assoc, h.bytes, take_add, prefix_iff_eq_take.mp htaken]
      simp
    · show c.rcvNxt + _ = _
      rw [h.expects hs, UInt32.ofNat_add, UInt32.add_assoc]
  | noted hs => exact ⟨n, h.active, h.bound, h.bytes, h.next⟩
  | fin hfin hto =>
    have hnext := h.next
    cases hs : c.state with
    | established =>
      rw [hs] at hto
      cases hto
      exact ⟨n, h.active, h.bound, h.bytes, .inr (.inr rfl)⟩
    | synSent | synReceived | closeWait =>
      rw [hs] at hto
      cases hto
    | _ => simp [hs] at hnext
  | finAcked hs | gone hs =>
    have hnext := h.next
    simp [hs] at hnext

theorem InOrder.recv (maxLen : Nat) :
    InOrder isn stream (returned ++ c.rx.take maxLen) { c with rx := c.rx.drop maxLen } n := by
  refine ⟨h.active, h.bound, ?_, h.next⟩
  rw [append_assoc, take_append_drop]
  exact h.bytes

end

section
variable {k : Fin 128} {isn : UInt32} {stream : List UInt8}

def Receiving.Ordered (k : Fin 128) (isn : UInt32) (stream : List UInt8) (s : Receiving) : Prop :=
  ∃ n, InOrder isn stream s.returned (s.tcp.conns k) n

theorem ordered_arrive {s : Receiving} (h : s.Ordered k isn stream) (hlen : stream.length < 2 ^ 32)
    {localIp srcIp : UInt32} {b : Pktbuf}
    (hpeer : PeerSends k isn stream s (.arrive localIp b srcIp)) :
    Receiving.Ordered k isn stream { s with tcp := (s.tcp.rx localIp b srcIp).1 } := by
  obtain ⟨n, hn⟩ := h
  rcases rx_slot localIp b srcIp hn.active with
    ⟨hsame, -⟩ | ⟨c, acked, hfor, hreaction, hmoved⟩
  · refine ⟨n, ?_⟩
    rw [hsame]
    exact hn
  have hmatch := (find_cases hfor.2).2.resolve_right hreaction.not_listen
  obtain ⟨m, hm⟩ := hn.react hlen (hpeer hmatch) hreaction
  refine ⟨m, ?_⟩
  rw [hmoved, set_self]
  exact hm

theorem ordered_recv {s : Receiving} (h : s.Ordered k isn stream) (maxLen : Nat) :
    Receiving.Ordered k isn stream ⟨(s.tcp.recv k.val maxLen).1,
      s.returned ++ (s.tcp.recv k.val maxLen).2.getD []⟩ := by
  obtain ⟨n, hn⟩ := h
  rw [Tcp.recv, connOf_val]
  dsimp only
  split <;> refine ⟨n, ?_⟩
  · simpa using hn
  · simpa using hn.recv maxLen

/-- Whatever order the segments of a stream arrive in, and however often, what is returned is the
front of the stream. -/
theorem stream_in_order (k : Fin 128) (isn : UInt32) (stream : List UInt8)
    (hlen : stream.length < 2 ^ 32) (t : Tcp) (hconn : Untouched isn (t.conns k))
    (es : List ReceiveEvent) (s : Receiving)
    (hrun : Run (receiveStep k) (PeerSends k isn stream) ⟨t, []⟩ es s) :
    s.returned <+: stream := by
  have hstart : Receiving.Ordered k isn stream ⟨t, []⟩ := by
    refine ⟨0, hconn.active, Nat.zero_le _, by simp [hconn.empty], ?_⟩
    cases hconn.start with
    | inl hsent => exact .inl ⟨hsent, rfl⟩
    | inr hopen => exact .inr (.inl ⟨hopen.1, by simpa using hopen.2⟩)
  have hend : Receiving.Ordered k isn stream s := by
    refine hrun.invariant (I := Receiving.Ordered k isn stream) (fun s e s' h hok hstep => ?_) hstart
    cases e with
    | arrive localIp b srcIp =>
      obtain rfl := Option.some.inj hstep
      exact ordered_arrive h hlen hok
    | recv maxLen =>
      obtain rfl := Option.some.inj hstep
      exact ordered_recv h maxLen
  obtain ⟨n, hn⟩ := hend
  have hpart : s.returned <+: stream.take n := hn.bytes ▸ prefix_append _ _
  exact hpart.trans ( take_prefix _ _)

/-- Bytes that arrive early are dropped, and taken when they are sent again in other pieces. -/
theorem shuffled_stream_returned :
    ∃ s : Receiving, s.returned = [1, 2, 3, 4, 5] ∧ s.returned <+: [1, 2, 3, 4, 5] := by
  obtain ⟨s, hrun, hend⟩ : ∃ s, Run (receiveStep 0) (PeerSends 0 6000 [1, 2, 3, 4, 5])
      ⟨hostTable, []⟩
      [.arrive 5 (fromPeer 6003 tcpAck [3, 4, 5]) 7, .arrive 5 (fromPeer 6001 tcpAck [1, 2]) 7,
        .recv 1, .arrive 5 (fromPeer 6001 tcpAck [1, 2, 3]) 7,
        .arrive 5 (fromPeer 6003 tcpAck [3, 4]) 7, .arrive 5 (fromPeer 6005 tcpAck [5]) 7,
        .recv 10] s ∧ s.returned = [1, 2, 3, 4, 5] := Run.exists_of_execute (by decide +kernel)
  exact ⟨s, hend, stream_in_order 0 6000 [1, 2, 3, 4, 5] (by decide) hostTable
    ⟨by decide, by decide, .inr ⟨.inr (by decide), by decide⟩⟩ _ s hrun⟩

end

/-! The acknowledgement numbers a connection sends, against the bytes it keeps. -/

/-- The table, the number of bytes appended to the receive buffer of a connection so far, the
places of the FINs that came in for it, and whether it is still there. -/
structure Acking where
  tcp : Tcp
  appended : Nat
  fins : List UInt32
  alive : Bool

/-- `push` is one segment of `tcp_send_id`. -/
inductive AckEvent
  | arrive (localIp : UInt32) (b : Pktbuf) (srcIp : UInt32)
  | recv (maxLen : Nat)
  | push (data : List UInt8)
  | close

/-- The sequence number behind the last byte of a segment, which is that of its FIN. -/
def finPlace (b : Pktbuf) : UInt32 := (segmentOf b).seq + .ofNat (payloadLen (segmentOf b) b)

def ackReaction (k : Fin 128) (t : Tcp) : AckEvent → Tcp × List Outgoing
  | .arrive localIp b srcIp => t.rx localIp b srcIp
  | .recv maxLen => ((t.recv k.val maxLen).1, [])
  | .push data =>
    if (t.conns k).active = true ∧ (t.conns k).state = .established then
      t.emit k (tcpAck ||| tcpPsh) data
    else (t, [])
  | .close => t.close k.val

def ackNext (k : Fin 128) (s : Acking) (e : AckEvent) : Acking :=
  let t := (ackReaction k s.tcp e).1
  { tcp := t
    appended := match e with
      | .arrive _ _ _ => s.appended + ((t.conns k).rx.length - (s.tcp.conns k).rx.length)
      | _ => s.appended
    fins := match e with
      | .arrive _ b srcIp =>
        if IsFor k s.tcp b srcIp ∧ hasFlag (segmentOf b).flags tcpFin = true then finPlace b :: s.fins
        else s.fins
      | _ => s.fins
    alive := s.alive && (t.conns k).active }

def ackStep (k : Fin 128) (s : Acking) (e : AckEvent) : Option Acking := some (ackNext k s e)

/-- What may be acknowledged: the bytes appended, and one more if a FIN stands right behind
them. -/
def Acking.Covers (isn : UInt32) (s : Acking) (ack : UInt32) : Prop :=
  ack = isn + 1 + .ofNat s.appended ∨
    isn + 1 + .ofNat s.appended ∈ s.fins ∧ ack = isn + 1 + .ofNat s.appended + 1
  deriving Decidable

/-- A FIN that is acted upon is the next thing expected and carries no data. -/
def FinInSequence (k : Fin 128) (s : Acking) : AckEvent → Prop
  | .arrive _ b srcIp =>
    IsFor k s.tcp b srcIp → hasFlag (segmentOf b).flags tcpFin = true →
      (s.tcp.conns k).state = .established ∨ (s.tcp.conns k).state = .finWait1 ∨
        (s.tcp.conns k).state = .finWait2 →
      (segmentOf b).seq = (s.tcp.conns k).rcvNxt ∧ payloadLen (segmentOf b) b = 0
  | _ => True

instance (k : Fin 128) (s : Acking) : (e : AckEvent) → Decidable (FinInSequence k s e)
  | .arrive _ _ _ => inferInstanceAs (Decidable (_ → _ → _ → _))
  | .recv _ | .push _ | .close => inferInstanceAs (Decidable True)

/-- The number a connection acknowledges, by the state it is in. -/
structure Kept (isn : UInt32) (appended : Nat) (fins : List UInt32) (c : TcpConn) : Prop where
  active : c.active = true
  next : (c.state = .established ∨ c.state = .finWait1 ∨ c.state = .finWait2) ∧
      c.rcvNxt = isn + 1 + .ofNat appended ∨
    (c.state = .closeWait ∨ c.state = .closing ∨ c.state = .timeWait ∨ c.state = .lastAck) ∧
      isn + 1 + .ofNat appended ∈ fins ∧ c.rcvNxt = isn + 1 + .ofNat appended + 1

section
variable {isn : UInt32} {appended : Nat} {fins : List UInt32} {c c' : TcpConn} {b : Pktbuf}

theorem Kept.mono {fins' : List UInt32} (h : Kept isn appended fins c)
    (hsub : ∀ f ∈ fins, f ∈ fins') : Kept isn appended fins' c :=
  ⟨h.active, h.next.imp id fun hnext => ⟨hnext.1, hsub _ hnext.2.1, hnext.2.2⟩⟩

theorem Kept.covers {s : Acking} (h : Kept isn s.appended s.fins c) : s.Covers isn c.rcvNxt := by
  cases h.next with
  | inl hopen => exact .inl hopen.2
  | inr hdone => exact .inr hdone.2

variable (h : Kept isn appended fins c)
include h

theorem Kept.congr (hactive : c'.active = c.active) (hstate : c'.state = c.state)
    (hnext : c'.rcvNxt = c.rcvNxt) : Kept isn appended fins c' := by
  refine ⟨hactive.trans h.active, ?_⟩
  rw [hstate, hnext]
  exact h.next

theorem Kept.expects (hopen : c.state = .established ∨ c.state = .finWait1 ∨ c.state = .finWait2) :
    c.rcvNxt = isn + 1 + .ofNat appended := by
  cases h.next with
  | inl hnext => exact hnext.2
  | inr hnext =>
    have hdone := hnext.1
    rcases hopen with hs | hs | hs <;> simp [hs] at hdone

theorem Kept.react {acked : Bool} (hr : Reaction (segmentOf b) b c c' acked)
    (hfin : hasFlag (segmentOf b).flags tcpFin = true →
      c.state = .established ∨ c.state = .finWait1 ∨ c.state = .finWait2 →
      (segmentOf b).seq = c.rcvNxt ∧ payloadLen (segmentOf b) b = 0) :
    c'.active = false ∧ acked = false ∨ Kept isn (appended + (c'.rx.length - c.rx.length))
        (if hasFlag (segmentOf b).flags tcpFin = true then finPlace b :: fins else fins) c' := by
  have hsub : ∀ f ∈ fins,
      f ∈ if hasFlag (segmentOf b).flags tcpFin = true then finPlace b :: fins else fins := by
    intro f hf
    split
    · exact mem_cons_of_mem _ hf
    · exact hf
  cases hr with
  | connected hs hsyn =>
    have hnext := h.next
    simp [hs] at hnext
  | confirmed hs =>
    have hnext := h.next
    simp [hs] at hnext
  | data hs hnofin hpos hseq =>
    refine .inr ⟨h.active, .inl ⟨.inl hs, ?_⟩⟩
    rw [h.expects (.inl hs), length_append, Nat.add_sub_cancel_left, UInt32.ofNat_add,
      UInt32.add_assoc]
  | noted hs =>
    have hsame : Kept isn appended fins { c with sndUna := (segmentOf b).ack } :=
      h.congr rfl rfl rfl
    rw [Nat.sub_self, Nat.add_zero]
    exact .inr (hsame.mono hsub)
  | fin hflag hto =>
    have hopen : c.state = .established ∨ c.state = .finWait1 ∨ c.state = .finWait2 := by
      cases hs : c.state <;> rw [hs] at hto <;> cases hto <;> simp
    have hbase := h.expects hopen
    obtain ⟨hseq, hempty⟩ := hfin hflag hopen
    have hplace : finPlace b = isn + 1 + .ofNat appended := by
      rw [finPlace, hempty, hseq, hbase]
      simp
    rw [Nat.sub_self, Nat.add_zero, if_pos hflag]
    refine .inr ⟨h.active, .inr ⟨?_, by simp [hplace], ?_⟩⟩
    · cases hs : c.state <;> rw [hs] at hto <;> cases hto <;> simp
    · rw [hseq, hbase]
  | finAcked hs hack =>
    rw [Nat.sub_self, Nat.add_zero]
    exact .inr ⟨h.active, .inl ⟨.inr (.inr rfl), h.expects (.inr (.inl hs))⟩⟩
  | gone hs hack => exact .inl ⟨rfl, rfl⟩

end

/-! Runs. -/

section
variable {k : Fin 128} {isn : UInt32} {s : Acking}

def Acking.Sound (k : Fin 128) (isn : UInt32) (s : Acking) : Prop :=
  s.alive = true → Kept isn s.appended s.fins (s.tcp.conns k)

/-- What a step leaves, and what it sends for the connection. -/
structure SoundStep (k : Fin 128) (isn : UInt32) (s : Acking) (out : List Outgoing) : Prop where
  sound : s.Sound k isn
  covers : ∀ o ∈ out, o.slot = k → s.Covers isn o.conn.rcvNxt

section
variable (h : s.Sound k isn) (halive : s.alive = true)
include h halive

theorem soundStep_arrive {localIp srcIp : UInt32} {b : Pktbuf}
    (hfin : FinInSequence k s (.arrive localIp b srcIp)) :
    SoundStep k isn (ackNext k s (.arrive localIp b srcIp))
      (ackReaction k s.tcp (.arrive localIp b srcIp)).2 := by
  have hkept := h halive
  have hsub : ∀ f ∈ s.fins, f ∈ (ackNext k s (.arrive localIp b srcIp)).fins := by
    intro f hf
    unfold ackNext
    dsimp only
    split
    · exact mem_cons_of_mem _ hf
    · exact hf
  rcases rx_slot localIp b srcIp hkept.active with
    ⟨hsame, hnone⟩ | ⟨c, acked, hfor, hreaction, hmoved⟩
  · refine ⟨fun _ => ?_, fun o ho hslot => absurd hslot (hnone o ho)⟩
    unfold ackNext
    dsimp only [ackReaction]
    rw [hsame, Nat.sub_self, Nat.add_zero]
    exact hkept.mono hsub
  have hfins : (ackNext k s (.arrive localIp b srcIp)).fins =
      if hasFlag (segmentOf b).flags tcpFin = true then finPlace b :: s.fins else s.fins := by
    simp [ackNext, hfor]
  have hconn : (ackNext k s (.arrive localIp b srcIp)).tcp.conns k = c := by
    show (s.tcp.rx localIp b srcIp).1.conns k = c
    rw [hmoved, set_self]
  have hcount : (ackNext k s (.arrive localIp b srcIp)).appended =
      s.appended + (c.rx.length - (s.tcp.conns k).rx.length) := by
    show s.appended + (((s.tcp.rx localIp b srcIp).1.conns k).rx.length - _) = _
    rw [hmoved, set_self]
  cases hkept.react hreaction (hfin hfor) with
  | inl hgone =>
    refine ⟨fun halive' => ?_, fun o ho => ?_⟩
    · have hdead : (ackNext k s (.arrive localIp b srcIp)).alive = false := by
        show (s.alive && ((s.tcp.rx localIp b srcIp).1.conns k).active) = false
        rw [hmoved, set_self, hgone.1, Bool.and_false]
      exact absurd (hdead.symm.trans halive') (by decide)
    · simp [ackReaction, hmoved, hgone.2] at ho
  | inr hstays =>
    rw [← hfins, ← hcount] at hstays
    refine ⟨fun _ => hconn.symm ▸ hstays, fun o ho _ => ?_⟩
    have hsent : o.conn = c := by
      cases acked with
      | true =>
        simp only [ackReaction, hmoved, if_true, mem_singleton] at ho
        rw [ho]
      | false => simp [ackReaction, hmoved] at ho
    rw [hsent]
    exact hstays.covers

theorem soundStep_recv (maxLen : Nat) : SoundStep k isn (ackNext k s (.recv maxLen)) [] := by
  refine ⟨fun _ => ?_, fun o ho => by simp at ho⟩
  have hkept := h halive
  unfold ackNext
  dsimp only [ackReaction]
  rw [Tcp.recv, connOf_val]
  dsimp only
  split
  · exact hkept
  · rw [set_self]
    exact hkept.congr rfl rfl rfl

theorem soundStep_push (data : List UInt8) :
    SoundStep k isn (ackNext k s (.push data)) (ackReaction k s.tcp (.push data)).2 := by
  have hkept := h halive
  by_cases hopen : (s.tcp.conns k).active = true ∧ (s.tcp.conns k).state = .established
  · have hemit : ackReaction k s.tcp (.push data) = s.tcp.emit k (tcpAck ||| tcpPsh) data :=
      if_pos hopen
    refine ⟨fun _ => ?_, fun o ho _ => ?_⟩
    · show Kept isn s.appended s.fins ((ackReaction k s.tcp (.push data)).1.conns k)
      rw [hemit, Tcp.emit]
      rw [set_self]
      exact hkept.congr rfl rfl rfl
    · simp only [hemit, Tcp.emit, mem_singleton] at ho
      have hcovers : s.Covers isn (s.tcp.conns k).rcvNxt := hkept.covers
      rw [ho]
      exact hcovers
  · have hnone : ackReaction k s.tcp (.push data) = (s.tcp, []) := if_neg hopen
    refine ⟨fun _ => ?_, fun o ho => ?_⟩
    · show Kept isn s.appended s.fins ((ackReaction k s.tcp (.push data)).1.conns k)
      rw [hnone]
      exact hkept
    · simp [hnone] at ho

theorem soundStep_close : SoundStep k isn (ackNext k s .close) (ackReaction k s.tcp .close).2 := by
  have hkept := h halive
  unfold ackNext
  dsimp only [ackReaction]
  rcases close_cases s.tcp k with hsame | ⟨-, -, hfreed⟩ | ⟨next, -, hto, hsent⟩
  · rw [hsame]
    exact ⟨fun _ => hkept, fun o ho => by simp at ho⟩
  · rw [hfreed]
    refine ⟨fun hdead => ?_, fun o ho => by simp at ho⟩
    simp at hdead
  · have hclosing : ∀ c : TcpConn, c.active = (s.tcp.conns k).active → c.state = next →
        c.rcvNxt = (s.tcp.conns k).rcvNxt → Kept isn s.appended s.fins c := by
      intro c hactive hstate hrcv
      refine ⟨hactive.trans hkept.active, ?_⟩
      have hold := hkept.next
      rw [hstate, hrcv]
      cases hs : (s.tcp.conns k).state <;> rw [hs] at hto hold <;> cases hto <;> simpa using hold
    rw [hsent]
    refine ⟨fun _ => ?_, fun o ho _ => ?_⟩
    · show Kept isn s.appended s.fins ((s.tcp.set k _).conns k)
      rw [set_self]
      exact hclosing _ rfl rfl rfl
    · rw [mem_singleton.mp ho]
      have hcovers : s.Covers isn (s.tcp.conns k).rcvNxt :=
        (hclosing { s.tcp.conns k with state := next } rfl rfl rfl).covers
      exact hcovers

theorem soundStep {e : AckEvent} (hok : FinInSequence k s e) :
    SoundStep k isn (ackNext k s e) (ackReaction k s.tcp e).2 := by
  cases e with
  | arrive localIp b srcIp => exact soundStep_arrive h halive hok
  | recv maxLen => exact soundStep_recv h halive maxLen
  | push data => exact soundStep_push h halive data
  | close => exact soundStep_close h halive

end

structure Fresh (isn : UInt32) (c : TcpConn) : Prop where
  active : c.active = true
  established : c.state = .established
  next : c.rcvNxt = isn + 1

/-- If each FIN that is acted upon is next in sequence and empty, every segment sent for the
connection acknowledges the bytes appended so far, and one more only behind a FIN. -/
theorem acks_cover_kept (k : Fin 128) (isn : UInt32) (t : Tcp) (hfresh : Fresh isn (t.conns k))
    (es : List AckEvent) (s : Acking)
    (hrun : Run (ackStep k) (FinInSequence k) ⟨t, 0, [], true⟩ es s) (e : AckEvent)
    (hok : FinInSequence k s e) (halive : s.alive = true) :
    ∀ o ∈ (ackReaction k s.tcp e).2, o.slot = k → (ackNext k s e).Covers isn o.conn.rcvNxt := by
  have hstart : Acking.Sound k isn ⟨t, 0, [], true⟩ := by
    refine fun _ => ⟨hfresh.active, .inl ⟨.inl hfresh.established, ?_⟩⟩
    simpa using hfresh.next
  have hend : s.Sound k isn := by
    refine hrun.invariant (I := Acking.Sound k isn) (fun s e s' h hok hstep => ?_) hstart
    cases hstep
    intro halive'
    have hbefore : s.alive = true := (Bool.and_eq_true_iff.mp halive').1
    exact (soundStep h hbefore hok).sound halive'
  exact (soundStep hend halive hok).covers

/-- Data and then the FIN behind it. -/
theorem fin_behind_data_covered : ∃ s : Acking,
    FinInSequence 0 s (.arrive 5 (fromPeer 6004 (tcpFin ||| tcpAck) []) 7) ∧
      ∀ o ∈ (ackReaction 0 s.tcp (.arrive 5 (fromPeer 6004 (tcpFin ||| tcpAck) []) 7)).2, o.slot = 0 →
        (ackNext 0 s (.arrive 5 (fromPeer 6004 (tcpFin ||| tcpAck) []) 7)).Covers 6000
          o.conn.rcvNxt := by
  obtain ⟨s, hrun, hok, halive⟩ : ∃ s, Run (ackStep 0) (FinInSequence 0) ⟨hostTable, 0, [], true⟩
      [.arrive 5 (fromPeer 6001 tcpAck [1, 2, 3]) 7, .recv 2] s ∧
      FinInSequence 0 s (.arrive 5 (fromPeer 6004 (tcpFin ||| tcpAck) []) 7) ∧ s.alive = true :=
    Run.exists_of_execute (by decide +kernel)
  exact ⟨s, hok, acks_cover_kept 0 6000 hostTable ⟨by decide, by decide, by decide⟩ _ s hrun _ hok
    halive⟩

/-- A FIN that comes too early, and one that carries data, are acknowledged though the bytes
before them were not kept. -/
theorem fin_acked_without_bytes :
    (∃ o ∈ (ackReaction 0 hostTable (.arrive 5 (fromPeer 6101 (tcpFin ||| tcpAck) []) 7)).2,
      o.slot = 0 ∧ ¬(ackNext 0 ⟨hostTable, 0, [], true⟩
        (.arrive 5 (fromPeer 6101 (tcpFin ||| tcpAck) []) 7)).Covers 6000 o.conn.rcvNxt) ∧
    ∃ o ∈ (ackReaction 0 hostTable (.arrive 5 (fromPeer 6001 (tcpFin ||| tcpAck) [1, 2, 3]) 7)).2,
      o.slot = 0 ∧ ¬(ackNext 0 ⟨hostTable, 0, [], true⟩
        (.arrive 5 (fromPeer 6001 (tcpFin ||| tcpAck) [1, 2, 3]) 7)).Covers 6000 o.conn.rcvNxt := by
  constructor <;> decide +kernel

end

/-! Which connection a segment is handed to: the triple of an entry names it, as long as no two
entries come to share one. -/
open Option

inductive TcpCall
  | listen (localIp : UInt32) (port : UInt16)
  | connect (localIp remoteIp : UInt32) (remotePort : UInt16)
  | rx (localIp : UInt32) (b : Pktbuf) (srcIp : UInt32)
  | accept (listenerId : Int)
  | close (connId : Int)

def tcpCall (t : Tcp) : TcpCall → Option Tcp
  | .listen localIp port => some (t.listen localIp port).1
  | .connect localIp remoteIp remotePort => some (t.connect localIp remoteIp remotePort).1
  | .rx localIp b srcIp => some (t.rx localIp b srcIp).1
  | .accept listenerId => some (t.accept listenerId).1
  | .close connId => some (t.close connId).1

def TcpConn.Single (c : TcpConn) : Prop := c.active = true ∧ c.state ≠ .listen

instance (c : TcpConn) : Decidable c.Single := inferInstanceAs (Decidable (_ ∧ _))

structure Demultiplexes (t : Tcp) : Prop where
  unique : ∀ j k, (t.conns j).Single → (t.conns k).Single →
    (t.conns j).Matches (t.conns k).remoteIp (t.conns k).remotePort (t.conns k).localPort → j = k
  found : ∀ k, (t.conns k).Single → tcpFindConn t (t.conns k).remoteIp (t.conns k).remotePort
    (t.conns k).localPort = some k
  listener : ∀ ip rport lport l, tcpFindConn t ip rport lport = some l →
    (t.conns l).state = .listen → ∀ k, (t.conns k).Single → ¬(t.conns k).Matches ip rport lport

/-- No entry in use, a listener with what its slot held before included, comes to share a triple
with a connection. -/
def NoClash (t : Tcp) : TcpCall → Prop
  | .listen _ port => ∀ j ∈ t.idle, ∀ k, (t.conns k).Single →
      ¬(t.conns k).Matches (t.conns j).remoteIp (t.conns j).remotePort port
  | .connect _ remoteIp remotePort => ∀ k, (t.conns k).active = true →
      ¬(t.conns k).Matches remoteIp remotePort t.nextEphemeralPort
  | .rx _ b srcIp => hasFlag (segmentOf b).flags tcpSyn = true →
      ∀ l ∈ tcpFindConn t srcIp (segmentOf b).srcPort (segmentOf b).dstPort,
        (t.conns l).state = .listen →
        ¬(t.conns l).Matches srcIp (segmentOf b).srcPort (segmentOf b).dstPort
  | .accept _ | .close _ => True

instance (t : Tcp) (e : TcpCall) : Decidable (NoClash t e) :=
  match e with
  | .listen _ port => match h : t.idle with
    | none => .isTrue fun j hj => by simp [h] at hj
    | some j => decidable_of_iff (∀ k, (t.conns k).Single →
        ¬(t.conns k).Matches (t.conns j).remoteIp (t.conns j).remotePort port) (by simp [NoClash, h])
  | .connect _ _ _ => Nat.decidableForallFin _
  | .rx _ b srcIp =>
    match h : tcpFindConn t srcIp (segmentOf b).srcPort (segmentOf b).dstPort with
    | none => .isTrue fun _ l hl => by simp [h] at hl
    | some l => decidable_of_iff (hasFlag (segmentOf b).flags tcpSyn = true →
        (t.conns l).state = .listen →
        ¬(t.conns l).Matches srcIp (segmentOf b).srcPort (segmentOf b).dstPort)
        (by simp [NoClash, h])
  | .accept _ | .close _ => .isTrue trivial

def Apart (t : Tcp) : Prop :=
  ∀ j k, j ≠ k → (t.conns j).active = true → (t.conns k).Single →
    ¬(t.conns j).Matches (t.conns k).remoteIp (t.conns k).remotePort (t.conns k).localPort

variable {c : TcpConn} {localIp : UInt32}

section
variable {t : Tcp} {ip : UInt32} {rport lport : UInt16} {k : Fin 128}

theorem TcpConn.Matches.symm {c' : TcpConn} (h : c.Matches c'.remoteIp c'.remotePort c'.localPort) :
    c'.Matches c.remoteIp c.remotePort c.localPort :=
  ⟨h.1.symm, h.2.1.symm, h.2.2.symm⟩

theorem matches_test :
    (c.active && c.remoteIp == ip && c.remotePort == rport && c.localPort == lport) = true ↔
      c.active = true ∧ c.Matches ip rport lport := by
  simp only [Bool.and_eq_true, beq_iff_eq, TcpConn.Matches]
  tauto

theorem find_only (hactive : (t.conns k).active = true) (hmatch : (t.conns k).Matches ip rport lport)
    (honly : ∀ j, j ≠ k → (t.conns j).active = true → ¬(t.conns j).Matches ip rport lport) :
    tcpFindConn t ip rport lport = some k := by
  have hfirst : (Fin.find? fun j => (t.conns j).active && (t.conns j).remoteIp == ip &&
      (t.conns j).remotePort == rport && (t.conns j).localPort == lport) = some k := by
    rw [Fin.find?_eq_some_iff]
    refine ⟨matches_test.mpr ⟨hactive, hmatch⟩, fun j hj => ?_⟩
    rw [Bool.eq_false_iff]
    intro htest
    obtain ⟨hj', hm⟩ := matches_test.mp htest
    exact honly j (ne_of_lt hj) hj' hm
  rw [tcpFindConn, hfirst]
  rfl

theorem Apart.demultiplexes (h : Apart t) : Demultiplexes t := by
  have hfound : ∀ k ip rport lport, (t.conns k).Single → (t.conns k).Matches ip rport lport →
      tcpFindConn t ip rport lport = some k := by
    rintro k - - - hk ⟨rfl, rfl, rfl⟩
    exact find_only hk.1 ⟨rfl, rfl, rfl⟩ fun j hj hactive => h j k hj hactive hk
  refine ⟨fun j k hj hk hm => ?_, fun k hk => hfound k _ _ _ hk ⟨rfl, rfl, rfl⟩,
    fun ip rport lport l hl hlisten k hk hm => ?_⟩
  · by_contra hne
    exact h j k hne hj.1 hk hm
  · have hkl : k = l := some.inj ((hfound k ip rport lport hk hm).symm.trans hl)
    exact hk.2 (hkl ▸ hlisten)

theorem find_listener {l : Fin 128} (h : tcpFindConn t ip rport lport = some l)
    (hown : ¬(t.conns l).Matches ip rport lport) :
    ∀ j, (t.conns j).active = true → ¬(t.conns j).Matches ip rport lport := by
  intro j hactive hm
  cases or_eq_some_iff.mp h with
  | inl hfirst => exact hown (matches_test.mp (Fin.find?_eq_some_iff.mp hfirst).1).2
  | inr hsecond =>
    have hnone := Fin.find?_eq_none_iff.mp hsecond.1 j
    rw [matches_test.mpr ⟨hactive, hm⟩] at hnone
    exact absurd hnone (by decide)

/-! Steps. -/

variable (h : Apart t)
include h

theorem Apart.set
    (hm : c.Matches (t.conns k).remoteIp (t.conns k).remotePort (t.conns k).localPort)
    (hactive : c.active = true → (t.conns k).active = true)
    (hsingle : c.Single → (t.conns k).Single) : Apart (t.set k c) := by
  obtain ⟨hip, hrport, hlport⟩ := hm
  intro i j hij hi hj
  by_cases hik : i = k
  · subst hik
    rw [set_self] at hi ⊢
    rw [set_other _ hij.symm] at hj ⊢
    rintro ⟨h1, h2, h3⟩
    exact h i j hij (hactive hi) hj ⟨hip ▸ h1, hrport ▸ h2, hlport ▸ h3⟩
  rw [set_other _ hik] at hi ⊢
  by_cases hjk : j = k
  · subst hjk
    rw [set_self] at hj ⊢
    rw [hip, hrport, hlport]
    exact h i j hij hi (hsingle hj)
  · rw [set_other _ hjk] at hj ⊢
    exact h i j hij hi hj

theorem Apart.take
    (hnew : ∀ j, j ≠ k → (t.conns j).active = true → c.Single ∨ (t.conns j).Single →
      ¬(t.conns j).Matches c.remoteIp c.remotePort c.localPort) :
    Apart (t.set k c) := by
  intro i j hij hi hj
  by_cases hik : i = k
  · subst hik
    rw [set_self]
    rw [set_other _ hij.symm] at hj ⊢
    exact fun hm => hnew j hij.symm hj.1 (.inr hj) hm.symm
  rw [set_other _ hik] at hi ⊢
  by_cases hjk : j = k
  · subst hjk
    rw [set_self] at hj ⊢
    exact hnew i hik hi (.inl hj)
  · rw [set_other _ hjk] at hj ⊢
    exact h i j hij hi hj

theorem apart_listen {port : UInt16} (hok : NoClash t (.listen localIp port)) :
    Apart (t.listen localIp port).1 := by
  rcases listen_cases t localIp port with ⟨-, heq⟩ | ⟨k, hidle, heq⟩ <;> rw [heq]
  · exact h
  refine h.take fun j _ _ hsingle => ?_
  cases hsingle with
  | inl hself => exact absurd rfl hself.2
  | inr hj => exact hok k hidle j hj

theorem apart_connect {remoteIp : UInt32} {remotePort : UInt16}
    (hok : NoClash t (.connect localIp remoteIp remotePort)) :
    Apart (t.connect localIp remoteIp remotePort).1 := by
  rcases connect_cases t localIp remoteIp remotePort with ⟨-, heq⟩ | ⟨k, -, -, heq⟩ <;> rw [heq]
  · exact h
  · have hports : Apart { t with nextEphemeralPort := t.nextEphemeralPort + 1 } := h
    exact hports.take fun j _ hj _ => hok j hj

theorem apart_rx {srcIp : UInt32} {b : Pktbuf} (hok : NoClash t (.rx localIp b srcIp)) :
    Apart (t.rx localIp b srcIp).1 := by
  rcases rx_cases t localIp b srcIp with
    heq | ⟨l, k, hfind, hlisten, hsyn, -, heq⟩ | ⟨k, c, acked, -, -, hreaction, heq⟩ <;> rw [heq]
  · exact h
  · have hnone := find_listener hfind (hok hsyn l hfind hlisten)
    exact h.take fun j _ hj _ => hnone j hj
  · obtain ⟨hm, -, hslot, -⟩ := hreaction.keeps
    have hactive : c.active = true → (t.conns k).active = true := by
      rintro hc
      rcases hslot with hsame | ⟨-, hgone⟩
      · exact hsame ▸ hc
      · exact absurd (hc.symm.trans hgone) (by decide)
    exact h.set hm hactive fun hc => ⟨hactive hc.1, hreaction.not_listen⟩

theorem apart_accept (id : Int) : Apart (t.accept id).1 := by
  rcases accept_cases t id with heq | ⟨l, k, -, -, -, -, -, -, -, heq⟩ <;> rw [heq]
  · exact h
  · exact h.set ⟨rfl, rfl, rfl⟩ (fun hc => hc) fun hc => hc

theorem apart_close (id : Int) : Apart (t.close id).1 := by
  cases hid : connOf id with
  | none =>
    rw [Tcp.close, hid]
    exact h
  | some k =>
    rw [connOf_eq hid]
    rcases close_cases t k with heq | ⟨-, -, heq⟩ | ⟨next, -, hto, heq⟩ <;> rw [heq]
    · exact h
    · exact h.set ⟨rfl, rfl, rfl⟩ (fun hc => absurd hc (by simp)) fun hc => absurd hc.1 (by simp)
    · refine h.set ⟨rfl, rfl, rfl⟩ (fun hc => hc) fun hc => ⟨hc.1, fun hs => ?_⟩
      rw [hs] at hto
      cases hto

end

/-- From the table `tcp_init` leaves, whatever its slots held before. -/
theorem segments_find_their_connection (t : Tcp) (hinit : ∀ k, (t.conns k).active = false)
    (es : List TcpCall) (t' : Tcp) (hrun : Run tcpCall NoClash t es t') : Demultiplexes t' := by
  have hstart : Apart t := fun j k _ hj => absurd ((hinit j).symm.trans hj) (by decide)
  refine Apart.demultiplexes (hrun.invariant (I := Apart) (fun t e t' h hok hstep => ?_) hstart)
  cases e with
  | listen localIp port =>
    obtain rfl := some.inj hstep
    exact apart_listen h hok
  | connect localIp remoteIp remotePort =>
    obtain rfl := some.inj hstep
    exact apart_connect h hok
  | rx localIp b srcIp =>
    obtain rfl := some.inj hstep
    exact apart_rx h hok
  | accept listenerId =>
    obtain rfl := some.inj hstep
    exact apart_accept h listenerId
  | close connId =>
    obtain rfl := some.inj hstep
    exact apart_close h connId

/-- A listener and two peers of one host. -/
theorem two_peers_told_apart : ∃ t, Run tcpCall NoClash quiet.tcp
    [.listen 5 80, .rx 5 (fromPeer 6000 tcpSyn []) 7,
      .rx 5 (.ofSegment { peerConn with localPort := 4001 } tcpSyn []) 7, .connect 5 7 4000] t ∧
    tcpFindConn t 7 4000 80 = some 1 ∧ tcpFindConn t 7 4001 80 = some 2 ∧ Demultiplexes t := by
  refine Run.exists_of_execute_imp (P := fun t => tcpFindConn t 7 4000 80 = some 1 ∧
    tcpFindConn t 7 4001 80 = some 2) (fun t hrun hend => ⟨hend.1, hend.2, ?_⟩) (by decide +kernel)
  exact segments_find_their_connection quiet.tcp (fun _ => rfl) _ t hrun

/-- A listener's slot keeps the address of the connection it held before, so it is found for a
new connection of that peer; a new listener's zeros are found for a peer with none. -/
theorem listener_shadows_connection : (∃ t, Run tcpCall (fun _ _ => True) quiet.tcp
      [.listen 5 80, .rx 5 (fromPeer 6000 tcpSyn []) 7, .rx 5 (fromPeer 6001 tcpAck []) 7,
        .rx 5 (fromPeer 6001 (tcpFin ||| tcpAck) []) 7, .close 1, .rx 5 (fromPeer 6002 tcpAck []) 7,
        .listen 5 80, .rx 5 (fromPeer 6500 tcpSyn []) 7] t ∧
      (t.conns 2).Single ∧ (t.conns 2).Matches 7 4000 80 ∧ tcpFindConn t 7 4000 80 = some 1 ∧
      (t.conns 1).state = .listen ∧ ¬Demultiplexes t) ∧
    ∃ t, Run tcpCall (fun _ _ => True) quiet.tcp
      [.listen 5 80, .rx 5 (.ofSegment { peerConn with localPort := 0 } tcpSyn []) 0,
        .rx 5 (.ofSegment { peerConn with localPort := 0 } tcpSyn []) 0] t ∧
      (t.conns 1).Single ∧ (t.conns 2).Single ∧ (t.conns 1).Matches 0 0 80 ∧
      (t.conns 2).Matches 0 0 80 ∧ ¬Demultiplexes t := by
  constructor
  · refine Run.exists_of_execute_imp (P := fun t => (t.conns 2).Single ∧
      (t.conns 2).Matches 7 4000 80 ∧ tcpFindConn t 7 4000 80 = some 1 ∧
      (t.conns 1).state = .listen) (fun t _ hend => ?_) (by decide +kernel)
    obtain ⟨hsingle, hmatch, hfind, hlisten⟩ := hend
    exact ⟨hsingle, hmatch, hfind, hlisten,
      fun h => h.listener 7 4000 80 1 hfind hlisten 2 hsingle hmatch⟩
  · refine Run.exists_of_execute_imp (P := fun t => (t.conns 1).Single ∧ (t.conns 2).Single ∧
      (t.conns 1).Matches 0 0 80 ∧ (t.conns 2).Matches 0 0 80) (fun t _ hend => ?_)
      (by decide +kernel)
    obtain ⟨hone, htwo, hm, hm'⟩ := hend
    refine ⟨hone, htwo, hm, hm', fun h => ?_⟩
    have hsame : (1 : Fin 128) = 2 := h.unique 1 2 hone htwo
      ⟨hm.1.trans hm'.1.symm, hm.2.1.trans hm'.2.1.symm, hm.2.2.trans hm'.2.2.symm⟩
    exact absurd hsame (by decide)

/-! The acknowledgement numbers that open a connection and that it takes over afterwards. -/

structure Arrival where
  localIp : UInt32
  b : Pktbuf
  srcIp : UInt32

def rxStep (t : Tcp) (a : Arrival) : Option Tcp := some (t.rx a.localIp a.b a.srcIp).1

/-- Not beyond, in the order of sequence numbers. -/
def SeqLe (a b : UInt32) : Prop := (b - a).toNat < 2 ^ 31

/-- What a segment may do to the connection in slot `k`: open it by acknowledging what was sent, and
move what is acknowledged no further than that. -/
def KeepsOrder (k : Fin 128) (t : Tcp) (a : Arrival) : Prop :=
  let c := t.conns k
  let c' := (t.rx a.localIp a.b a.srcIp).1.conns k
  (c.state ≠ .established → c'.state = .established → (segmentOf a.b).ack = c.sndNxt) ∧
    (c.state = .established → c'.sndUna = c.sndUna ∨ SeqLe c'.sndUna c'.sndNxt)

def Opens (c : TcpConn) (g : Segment) : Prop :=
  hasFlag g.flags tcpAck = true ∧
    (c.state = .synSent ∧ hasFlag g.flags tcpSyn = true ∨ c.state = .synReceived)

def Notes (c : TcpConn) (g : Segment) : Prop :=
  hasFlag g.flags tcpAck = true ∧ c.state = .established ∧ hasFlag g.flags tcpFin = false

/-- A segment that acknowledges nothing that was not sent, and the whole SYN. -/
def Truthful (k : Fin 128) (t : Tcp) (a : Arrival) : Prop :=
  IsFor k t a.b a.srcIp →
    (Opens (t.conns k) (segmentOf a.b) → (segmentOf a.b).ack = (t.conns k).sndNxt) ∧
    (Notes (t.conns k) (segmentOf a.b) →
      (segmentOf a.b).ack = (t.conns k).sndUna ∨ SeqLe (segmentOf a.b).ack (t.conns k).sndNxt)

section
variable {t : Tcp} {k : Fin 128} {srcIp : UInt32} {b : Pktbuf} (localIp : UInt32)

theorem rx_isFor (h : IsFor k t b srcIp) :
    t.rx localIp b srcIp = t.input localIp k (segmentOf b) b srcIp := by
  rw [Tcp.rx, if_neg (Nat.not_lt.mpr h.1)]
  simp only [h.2]

/-- A segment for another slot neither opens this one nor moves its numbers. -/
theorem rx_apart (h : ¬IsFor k t b srcIp) :
    ((t.rx localIp b srcIp).1.conns k).sndUna = (t.conns k).sndUna ∧
      ((t.conns k).state ≠ .established →
        ((t.rx localIp b srcIp).1.conns k).state ≠ .established) := by
  rcases rx_cases t localIp b srcIp with
    hsame | ⟨l, j, -, -, -, -, hopened⟩ | ⟨j, c, acked, hlen, hfind, -, hmoved⟩
  · rw [hsame]
    exact ⟨rfl, id⟩
  · rw [hopened]
    by_cases hj : k = j
    · subst hj
      rw [set_self]
      exact ⟨rfl, fun _ => nofun⟩
    · rw [set_other _ hj]
      exact ⟨rfl, id⟩
  · have hj : k ≠ j := by
      rintro rfl
      exact h ⟨hlen, hfind⟩
    rw [hmoved, set_other _ hj]
    exact ⟨rfl, id⟩

variable (srcIp b) in
theorem input_numbers (g : Segment) (hk : (t.conns k).active = true) :
    let c' := (t.input localIp k g b srcIp).1.conns k
    c'.sndNxt = (t.conns k).sndNxt ∧
      (Opens (t.conns k) g ∨ Notes (t.conns k) g → c'.sndUna = g.ack) ∧
      (Opens (t.conns k) g → c'.state = .established) ∧
      (¬Opens (t.conns k) g → (t.conns k).state ≠ .established → c'.state ≠ .established) ∧
      (¬Notes (t.conns k) g → (t.conns k).state = .established →
        c'.sndUna = (t.conns k).sndUna) := by
  cases hs : (t.conns k).state with
  | listen =>
    have hkept : (t.input localIp k g b srcIp).1.conns k = t.conns k := by
      simp only [Tcp.input, hs]
      split
      · rcases listenInput_cases t localIp g srcIp with ⟨-, hnone⟩ | ⟨j, hidle, hopened⟩
        · rw [hnone]
        rw [hopened]
        refine set_other _ ?_
        rintro rfl
        exact absurd (hk.symm.trans (idle_inactive hidle)) (by decide)
      · rfl
    simp [hkept, hs, Opens, Notes]
  | closed | closeWait | closing | timeWait => simp [Tcp.input, hs, Opens, Notes]
  | synSent =>
    cases hsyn : hasFlag g.flags tcpSyn <;> cases hack : hasFlag g.flags tcpAck <;>
      simp [Tcp.input, hs, hsyn, hack, ackOnly_eq, Opens, Notes]
  | synReceived =>
    cases hack : hasFlag g.flags tcpAck <;> simp [Tcp.input, hs, hack, Opens, Notes]
  | established =>
    by_cases hdata : 0 < payloadLen g b ∧ g.seq = (t.conns k).rcvNxt
    all_goals
      cases hfin : hasFlag g.flags tcpFin <;> cases hack : hasFlag g.flags tcpAck <;>
        simp [Tcp.input, hs, hfin, hack, hdata, Tcp.dataInput, ackOnly_eq, Opens, Notes]
  | finWait1 | finWait2 | lastAck =>
    cases hfin : hasFlag g.flags tcpFin <;> cases hack : hasFlag g.flags tcpAck <;>
      simp [Tcp.input, hs, hfin, hack, ackOnly_eq, Opens, Notes]

theorem keepsOrder_iff (a : Arrival) : KeepsOrder k t a ↔ Truthful k t a := by
  by_cases hfor : IsFor k t a.b a.srcIp
  · have hnumbers := input_numbers a.srcIp a.b a.localIp (segmentOf a.b) (find_cases hfor.2).1
    rw [← rx_isFor a.localIp hfor] at hnumbers
    obtain ⟨hnxt, huna, hopens, hstays, hkeeps⟩ := hnumbers
    constructor
    · rintro ⟨hopening, hmoving⟩ -
      refine ⟨fun h => hopening ?_ (hopens h), fun h => ?_⟩
      · rcases h.2 with ⟨h, -⟩ | h <;> rw [h] <;> decide
      · have hmoved := hmoving h.2.1
        rwa [huna (.inr h), hnxt] at hmoved
    · intro h
      obtain ⟨hopening, hnoting⟩ := h hfor
      refine ⟨fun hs hs' => hopening (by_contra fun hno => hstays hno hs hs'), fun hs => ?_⟩
      by_cases hnotes : Notes (t.conns k) (segmentOf a.b)
      · rw [huna (.inr hnotes), hnxt]
        exact hnoting hnotes
      · exact .inl (hkeeps hnotes hs)
  · obtain ⟨huna, hstate⟩ := rx_apart a.localIp hfor
    exact iff_of_true ⟨fun h h' => absurd h' (hstate h), fun _ => .inl huna⟩ fun h => absurd h hfor

end

/-- Through any series of segments, from any table, a connection is opened only by the
acknowledgement of all that was sent and what is acknowledged stays behind that, exactly if each
segment acknowledges no more than was sent, and the opening one all of it. -/
theorem order_kept_iff (k : Fin 128) (t t' : Tcp) (as : List Arrival) :
    Run rxStep (KeepsOrder k) t as t' ↔ Run rxStep (Truthful k) t as t' :=
  ⟨.mono fun _ a => (keepsOrder_iff a).mp, .mono fun _ a => (keepsOrder_iff a).mpr⟩

/-- A connection that was only asked for: nothing beyond the SYN of number 1000 was sent. -/
def askedConn : TcpConn := { hostConn with state := .synReceived, sndUna := 0 }

/-- A segment that acknowledges number 9999 opens it. -/
theorem opened_by_any_ack : ∃ a t', rxStep (quiet.tcp.set 0 askedConn) a = some t' ∧
    askedConn.state = .synReceived ∧ (t'.conns 0).state = .established ∧
    (segmentOf a.b).ack = 9999 ∧ askedConn.sndNxt = 1001 ∧
    (t'.conns 0).sndUna = 9999 ∧ (t'.conns 0).sndNxt = 1001 := by
  refine ⟨⟨5, .ofSegment { peerConn with rcvNxt := 9999 } tcpAck [], 7⟩, _, rfl, ?_⟩
  decide +kernel

end AegisOS.Net
