import AegisOS.Lib.GuardedRun
import AegisOS.NetTables
import AegisOS.Lib.Rotation

/-! Network address and port translation (`net/nat.c`). -/
namespace AegisOS.Net
open ByteStore Scan GuardedRun

def natPortMin : UInt16 := 10000
def natPortMax : UInt16 := 60000

structure NatEntry where
  internalIp : UInt32
  internalPort : UInt16
  externalIp : UInt32
  externalPort : UInt16
  remoteIp : UInt32
  remotePort : UInt16
  protocol : UInt8
  lastSeen : UInt32
  active : Bool

structure NatState where
  natTable : Fin 4096 → NatEntry
  nextNatPort : UInt16
  natEnabled : Bool
  wanIpAddr : UInt32

/-- The static data before `nat_init`. -/
def NatState.boot : NatState := ⟨fun _ => ⟨0, 0, 0, 0, 0, 0, 0, 0, false⟩, natPortMin, false, 0⟩

def NatState.setEntry (s : NatState) (i : Fin 4096) (e : NatEntry) : NatState :=
  { s with natTable := Function.update s.natTable i e }

def natInit (s : NatState) : NatState :=
  { s with natTable := fun i => { s.natTable i with active := false }, natEnabled := false }

def natEnable (s : NatState) (wanIp : UInt32) : NatState :=
  { s with wanIpAddr := wanIp, natEnabled := true }

def natDisable (s : NatState) : NatState := { s with natEnabled := false }

def allocNatPort (s : NatState) : NatState × UInt16 :=
  let next := s.nextNatPort + 1
  ({ s with nextNatPort := if natPortMax < next then natPortMin else next }, s.nextNatPort)

/-! Packets. -/

def Pktbuf.store (b : Pktbuf) (off : Nat) (bs : List UInt8) : Pktbuf :=
  { b with data := blit b.data off bs.length (ofList bs) }

def Pktbuf.transport (b : Pktbuf) : Nat := b.head + b.ihl

def portAt (d : Store) (off : Nat) : UInt16 := ((d off).toUInt16 <<< 8) ||| (d (off + 1)).toUInt16

def portBytes (v : UInt16) : List UInt8 := [(v >>> 8).toUInt8, (v &&& 0xFF).toUInt8]

def ipRecalcChecksum (b : Pktbuf) : Pktbuf :=
  let b := b.store (b.head + 10) [0, 0]
  b.store (b.head + 10) (bytes16 (inetChecksum (readBytes b.data b.head b.ihl)))

structure NatFlow where
  internalIp : UInt32
  internalPort : UInt16
  remoteIp : UInt32
  remotePort : UInt16
  protocol : UInt8
  deriving DecidableEq

def NatEntry.flow (e : NatEntry) : NatFlow :=
  ⟨e.internalIp, e.internalPort, e.remoteIp, e.remotePort, e.protocol⟩

def Pktbuf.natFlow (b : Pktbuf) : NatFlow where
  internalIp := loadU32 b.data (b.head + 12)
  internalPort := portAt b.data b.transport
  remoteIp := loadU32 b.data (b.head + 16)
  remotePort := portAt b.data (b.transport + 2)
  protocol := b.data (b.head + 9)

/-! The table. -/

def natFindOutbound (s : NatState) (f : NatFlow) : Option (Fin 4096) :=
  scan fun i => (s.natTable i).active && (s.natTable i).internalIp == f.internalIp &&
    (s.natTable i).internalPort == f.internalPort && (s.natTable i).remoteIp == f.remoteIp &&
    (s.natTable i).remotePort == f.remotePort && (s.natTable i).protocol == f.protocol

def natFindInbound (s : NatState) (externalPort : UInt16) (remoteIp : UInt32)
    (remotePort : UInt16) (proto : UInt8) : Option (Fin 4096) :=
  scan fun i => (s.natTable i).active && (s.natTable i).externalPort == externalPort &&
    (s.natTable i).remoteIp == remoteIp && (s.natTable i).remotePort == remotePort &&
    (s.natTable i).protocol == proto

def natAllocEntry (s : NatState) : Option (Fin 4096) := scan fun i => !(s.natTable i).active

/-- A new mapping in the entry `i`; the entry keeps its time stamp. -/
def NatState.opened (s : NatState) (i : Fin 4096) (f : NatFlow) (wanIp : UInt32) : NatState :=
  let allocated := allocNatPort s
  allocated.1.setEntry i { s.natTable i with
    internalIp := f.internalIp, internalPort := f.internalPort, externalIp := wanIp
    externalPort := allocated.2, remoteIp := f.remoteIp, remotePort := f.remotePort
    protocol := f.protocol, active := true }

/-- The mapping of an outbound flow, an existing one or a new one. -/
def natMapping (s : NatState) (f : NatFlow) (wanIp : UInt32) : Option (NatState × Fin 4096) :=
  match natFindOutbound s f with
  | some i => some (s, i)
  | none => (natAllocEntry s).map fun i => (s.opened i f wanIp, i)

def NatState.seen (s : NatState) (i : Fin 4096) : NatState :=
  s.setEntry i { s.natTable i with lastSeen := 0 }

def natRewriteOutbound (b : Pktbuf) (wanIp : UInt32) (port : UInt16) : Pktbuf :=
  (ipRecalcChecksum (b.store (b.head + 12) (bytes32 wanIp))).store b.transport (portBytes port)

def natTranslateOutbound (s : NatState) (pkt : Pktbuf) (wanIp : UInt32) : NatState × Pktbuf × Int :=
  if s.natEnabled = false ∨ pkt.len < 24 then (s, pkt, -1)
  else
    match natMapping s pkt.natFlow wanIp with
    | none => (s, pkt, -1)
    | some (s, i) => (s.seen i, natRewriteOutbound pkt wanIp (s.natTable i).externalPort, 0)

def natRewriteInbound (b : Pktbuf) (ip : UInt32) (port : UInt16) : Pktbuf :=
  (ipRecalcChecksum (b.store (b.head + 16) (bytes32 ip))).store (b.transport + 2) (portBytes port)

def natTranslateInbound (s : NatState) (pkt : Pktbuf) : NatState × Pktbuf × Int :=
  if s.natEnabled = false ∨ pkt.len < 24 then (s, pkt, -1)
  else
    match natFindInbound s (portAt pkt.data (pkt.transport + 2)) (loadU32 pkt.data (pkt.head + 12))
        (portAt pkt.data pkt.transport) (pkt.data (pkt.head + 9)) with
    | none => (s, pkt, -1)
    | some i =>
      (s.seen i, natRewriteInbound pkt (s.natTable i).internalIp (s.natTable i).internalPort, 0)

/-- Port forwarding; the remote address zero stands for any source. -/
def natAddPortForward (s : NatState) (externalIp : UInt32) (externalPort : UInt16)
    (internalIp : UInt32) (internalPort : UInt16) (protocol : UInt8) : NatState × Int :=
  match natAllocEntry s with
  | none => (s, -1)
  | some i =>
    (s.setEntry i { s.natTable i with
      externalIp := externalIp, externalPort := externalPort, internalIp := internalIp
      internalPort := internalPort, remoteIp := 0, remotePort := 0, protocol := protocol
      active := true }, 0)

def natCleanup (s : NatState) (maxAge : UInt32) : NatState :=
  { s with natTable := fun i =>
      let e := s.natTable i
      if e.active && maxAge < e.lastSeen then { e with active := false } else e }

/-! The calls. -/

inductive NatEvent
  | init
  | enable (wanIp : UInt32)
  | disable
  | outbound (pkt : Pktbuf) (wanIp : UInt32)
  | inbound (pkt : Pktbuf)
  | portForward (externalIp : UInt32) (externalPort : UInt16) (internalIp : UInt32)
      (internalPort : UInt16) (protocol : UInt8)
  | cleanup (maxAge : UInt32)

def natPerform (s : NatState) : NatEvent → NatState
  | .init => natInit s
  | .enable wanIp => natEnable s wanIp
  | .disable => natDisable s
  | .outbound pkt wanIp => (natTranslateOutbound s pkt wanIp).1
  | .inbound pkt => (natTranslateInbound s pkt).1
  | .portForward externalIp externalPort internalIp internalPort protocol =>
    (natAddPortForward s externalIp externalPort internalIp internalPort protocol).1
  | .cleanup maxAge => natCleanup s maxAge

def natStep (s : NatState) (e : NatEvent) : Option NatState := some (natPerform s e)

/-- The flow and the external port of an outbound packet that was translated. -/
def translated (s : NatState) : NatEvent → List (NatFlow × UInt16)
  | .outbound pkt wanIp =>
    let r := natTranslateOutbound s pkt wanIp
    if r.2.2 = 0 then [(pkt.natFlow, portAt r.2.1.data pkt.transport)] else []
  | _ => []

def translations : NatState → List NatEvent → List (NatFlow × UInt16)
  | _, [] => []
  | s, e :: es => translated s e ++ translations (natPerform s e) es

/-! Fields of packets. -/

theorem portAt_portBytes (d : Store) (off : Nat) (v : UInt16) :
    portAt (blit d off 2 (ofList (portBytes v))) off = v := by
  have h0 : blit d off 2 (ofList (portBytes v)) off = (v >>> 8).toUInt8 := by
    rw [blit_inside (Nat.le_refl _) (by omega), Nat.sub_self]
    rfl
  have h1 : blit d off 2 (ofList (portBytes v)) (off + 1) = (v &&& 0xFF).toUInt8 := by
    rw [blit_inside (by omega) (by omega), Nat.add_sub_cancel_left]
    rfl
  have hv := v.toNat_lt
  have hlow : v.toNat % 256 &&& 255 = v.toNat % 256 := by
    rw [Nat.and_two_pow_sub_one_eq_mod _ 8, Nat.mod_mod]
  have hhigh : v.toNat >>> 8 = v.toNat / 256 := Nat.shiftRight_eq_div_pow ..
  rw [portAt, h0, h1]
  apply UInt16.toNat_inj.mp
  simp [hhigh]
  rw [Nat.mod_eq_of_lt (by
    omega), ← Nat.shiftLeft_add_eq_or_of_lt (by omega)]
  omega

theorem loadU16_bytes16 (d : Store) (off : Nat) (v : UInt16) :
    loadU16 (blit d off 2 (ofList (bytes16 v))) off = v := by
  have hback : readBytes (ofList (bytes16 v)) 0 2 = bytes16 v := readBytes_ofList (bytes16 v)
  rw [loadU16, readBytes_blit_same, hback, bytes16, leNat_leBytes v.toNat_lt, UInt16.ofNat_toNat]

theorem loadU32_bytes32 (d : Store) (off : Nat) (v : UInt32) :
    loadU32 (blit d off 4 (ofList (bytes32 v))) off = v := by
  have hback : readBytes (ofList (bytes32 v)) 0 4 = bytes32 v := readBytes_ofList (bytes32 v)
  rw [loadU32, readBytes_blit_same, hback, bytes32, leNat_leBytes v.toNat_lt, UInt32.ofNat_toNat]

/-! What goes out through the translation finds its way back. Entries are never given up, since no
call ages them, so a table of 4096 entries draws fewer ports than the counter has. -/
open Rotation Function List Nat

/-! Rewritten packets. -/

structure Pktbuf.WellFormed (b : Pktbuf) : Prop where
  header : 20 ≤ b.ihl
  ports : b.ihl + 4 ≤ b.len

/-- The header checksum is the one `ipv4_rx` computes. -/
def Pktbuf.ChecksumOk (b : Pktbuf) : Prop :=
  loadU16 b.data (b.head + 10) =
    inetChecksum (readBytes (b.store (b.head + 10) [0, 0]).data b.head b.ihl)

/-- The packet `c` is `b` sent on to another destination. -/
structure Pktbuf.Readdressed (b c : Pktbuf) (ip : UInt32) (port : UInt16) : Prop where
  head : c.head = b.head
  len : c.len = b.len
  address : loadU32 c.data (c.head + 16) = ip
  port : portAt c.data (c.transport + 2) = port
  checksum : c.ChecksumOk
  rest : ∀ x, (x < b.head + 10 ∨ b.head + 12 ≤ x) → (x < b.head + 16 ∨ b.head + 20 ≤ x) →
    (x < b.transport + 2 ∨ b.transport + 4 ≤ x) → c.data x = b.data x

section
variable {b : Pktbuf} {off x : Nat} {bs : List UInt8}

theorem store_outside (h : x < off ∨ off + bs.length ≤ x) :
    (b.store off bs).data x = b.data x := blit_outside h

theorem ihl_store (h : b.head < off) : (b.store off bs).ihl = b.ihl := by
  have hfirst : (b.store off bs).data (b.store off bs).head = b.data b.head :=
    store_outside (.inl h)
  rw [Pktbuf.ihl, hfirst, Pktbuf.ihl]

theorem ihl_recalc : (ipRecalcChecksum b).ihl = b.ihl := by
  unfold ipRecalcChecksum
  rw [ihl_store (Nat.lt_add_of_pos_right (by decide)),
    ihl_store (Nat.lt_add_of_pos_right (by decide))]

theorem recalc_outside (h : x < b.head + 10 ∨ b.head + 12 ≤ x) :
    (ipRecalcChecksum b).data x = b.data x := by
  unfold ipRecalcChecksum
  rw [store_outside (by rw [length_bytes16]; exact h), store_outside h]

theorem recalc_ok : (ipRecalcChecksum b).ChecksumOk := by
  have hzeroed : ((ipRecalcChecksum b).store (b.head + 10) [0, 0]).data =
      (b.store (b.head + 10) [0, 0]).data := by
    funext x
    by_cases hx : b.head + 10 ≤ x ∧ x < b.head + 12
    · exact (blit_inside hx.1 hx.2).trans (blit_inside hx.1 hx.2).symm
    · have hout : x < b.head + 10 ∨ b.head + 12 ≤ x := by omega
      rw [store_outside hout, recalc_outside hout, store_outside hout]
  have hihl : (b.store (b.head + 10) [0, 0]).ihl = b.ihl :=
    ihl_store (Nat.lt_add_of_pos_right (by decide))
  rw [Pktbuf.ChecksumOk, ihl_recalc]
  show loadU16 _ (b.head + 10) =
    inetChecksum (readBytes ((ipRecalcChecksum b).store (b.head + 10) [0, 0]).data b.head b.ihl)
  rw [hzeroed, ← hihl]
  exact loadU16_bytes16 _ _ _

theorem Pktbuf.ChecksumOk.store (h : b.ChecksumOk) (hihl : 12 ≤ b.ihl) (hoff : b.transport ≤ off) :
    (b.store off bs).ChecksumOk := by
  have htransport : b.head + b.ihl ≤ off := hoff
  have hsame : ∀ x < b.head + b.ihl, (b.store off bs).data x = b.data x :=
    fun x hx => store_outside (.inl (lt_of_lt_of_le hx htransport))
  have hfield : loadU16 (b.store off bs).data (b.head + 10) = loadU16 b.data (b.head + 10) := by
    rw [loadU16, loadU16, readBytes_congr fun i hi => hsame _ (by omega)]
  have hheader : readBytes ((b.store off bs).store (b.head + 10) [0, 0]).data b.head b.ihl =
      readBytes (b.store (b.head + 10) [0, 0]).data b.head b.ihl := by
    refine readBytes_congr fun i hi => ?_
    by_cases hx : b.head + 10 ≤ b.head + i ∧ b.head + i < b.head + 12
    · exact (blit_inside hx.1 hx.2).trans (blit_inside hx.1 hx.2).symm
    have hout : b.head + i < b.head + 10 ∨ b.head + 12 ≤ b.head + i := by omega
    calc ((b.store off bs).store (b.head + 10) [0, 0]).data (b.head + i)
        = (b.store off bs).data (b.head + i) := store_outside hout
      _ = b.data (b.head + i) := hsame _ (by omega)
      _ = (b.store (b.head + 10) [0, 0]).data (b.head + i) := (store_outside hout).symm
  rw [ChecksumOk, ihl_store (by omega)]
  exact hfield.trans (h.trans (congrArg inetChecksum hheader.symm))

theorem rewriteOutbound_port (wanIp : UInt32) (port : UInt16) :
    portAt (natRewriteOutbound b wanIp port).data b.transport = port := portAt_portBytes _ _ port

theorem rewriteInbound_readdressed (h : 20 ≤ b.ihl) (ip : UInt32) (port : UInt16) :
    b.Readdressed (natRewriteInbound b ip port) ip port := by
  have hhead : (natRewriteInbound b ip port).head = b.head := rfl
  have hmid : (ipRecalcChecksum (b.store (b.head + 16) (bytes32 ip))).ihl = b.ihl := by
    rw [ihl_recalc, ihl_store (Nat.lt_add_of_pos_right (by decide))]
  have hmidT : (ipRecalcChecksum (b.store (b.head + 16) (bytes32 ip))).transport = b.transport := by
    rw [Pktbuf.transport, hmid]
    rfl
  have hlast : b.head + 20 ≤ b.transport + 2 := by
    unfold Pktbuf.transport
    omega
  have hihl : (natRewriteInbound b ip port).ihl = b.ihl := by
    rw [natRewriteInbound, ihl_store, hmid]
    show b.head < b.transport + 2
    omega
  have htransport : (natRewriteInbound b ip port).transport = b.transport := by
    rw [Pktbuf.transport, hihl, hhead, Pktbuf.transport]
  refine ⟨rfl, rfl, ?_, ?_, ?_, ?_⟩
  · have hfield : loadU32 (natRewriteInbound b ip port).data (b.head + 16) =
        loadU32 (b.store (b.head + 16) (bytes32 ip)).data (b.head + 16) := by
      rw [loadU32, loadU32]
      congr 2
      refine readBytes_congr fun i hi => ?_
      rw [natRewriteInbound, store_outside (.inl (by omega)), recalc_outside]
      exact .inr (show b.head + 12 ≤ _ by omega)
    rw [hhead, hfield]
    exact loadU32_bytes32 _ _ ip
  · rw [htransport]
    exact portAt_portBytes _ _ port
  · exact recalc_ok.store (by omega) (by omega)
  · intro x hsum haddress hport
    have hkept : (ipRecalcChecksum (b.store (b.head + 16) (bytes32 ip))).data x =
        (b.store (b.head + 16) (bytes32 ip)).data x := recalc_outside hsum
    rw [natRewriteInbound, store_outside hport, hkept]
    exact store_outside (by rw [length_bytes32]; exact haddress)

end

/-! The table over a run. -/

/-- The calls between two of `nat_init`: translations of well-formed packets with a remote address,
port forwarding and cleaning up. -/
def NatEvent.Traffic : NatEvent → Prop
  | .outbound pkt _ => pkt.WellFormed ∧ loadU32 pkt.data (pkt.head + 16) ≠ 0
  | .inbound pkt => pkt.WellFormed ∧ loadU32 pkt.data (pkt.head + 12) ≠ 0
  | .portForward _ _ _ _ _ | .cleanup _ => True
  | .init | .enable _ | .disable => False

def NatState.Unseen (s : NatState) : Prop := ∀ i, (s.natTable i).lastSeen = 0

def NatEntry.Dynamic (e : NatEntry) : Prop := e.active = true ∧ e.remoteIp ≠ 0

inductive NatEffect (s : NatState) : NatState → Prop
  | same : NatEffect s s
  | opened {i : Fin 4096} {f : NatFlow} (wanIp : UInt32) :
      natAllocEntry s = some i → f.remoteIp ≠ 0 → NatEffect s (s.opened i f wanIp)
  | forwarded {i : Fin 4096} {e : NatEntry} :
      natAllocEntry s = some i → e.remoteIp = 0 → e.active = true →
      e.lastSeen = (s.natTable i).lastSeen → NatEffect s (s.setEntry i e)

variable {j i : Fin 4096} {pkt : Pktbuf} {wanIp : UInt32} {e : NatEntry} {es : List NatEvent}

section
variable {s t : NatState} {i : Fin 4096}

theorem setEntry_self (s : NatState) (i : Fin 4096) (e : NatEntry) :
    (s.setEntry i e).natTable i = e := update_self ..

theorem setEntry_ne (h : j ≠ i) (s : NatState) (e : NatEntry) :
    (s.setEntry i e).natTable j = s.natTable j := update_of_ne h ..

theorem unseen_setEntry (h : s.Unseen) (he : e.lastSeen = 0) : (s.setEntry i e).Unseen := by
  intro j
  by_cases hj : j = i
  · subst hj
    rw [setEntry_self]
    exact he
  · rw [setEntry_ne hj]
    exact h j

theorem seen_same (h : (s.natTable i).lastSeen = 0) : s.seen i = s := by
  have hentry : { s.natTable i with lastSeen := 0 } = s.natTable i := by rw [← h]
  rw [NatState.seen, hentry, NatState.setEntry, update_eq_self]

theorem cleanup_same (h : s.Unseen) (maxAge : UInt32) : natCleanup s maxAge = s := by
  have htable : (fun i =>
      let e := s.natTable i
      if e.active && maxAge < e.lastSeen then { e with active := false } else e) = s.natTable := by
    funext i
    have hyoung : ¬maxAge < (s.natTable i).lastSeen := by
      rw [h i]
      exact UInt32.not_lt_zero
    simp [hyoung]
  rw [natCleanup, htable]

theorem opened_self (s : NatState) (i : Fin 4096) (f : NatFlow) (wanIp : UInt32) :
    (s.opened i f wanIp).natTable i = { s.natTable i with
      internalIp := f.internalIp, internalPort := f.internalPort, externalIp := wanIp
      externalPort := s.nextNatPort, remoteIp := f.remoteIp, remotePort := f.remotePort
      protocol := f.protocol, active := true } := update_self ..

theorem opened_ne (h : j ≠ i) (s : NatState) (f : NatFlow) (wanIp : UInt32) :
    (s.opened i f wanIp).natTable j = s.natTable j := update_of_ne h ..

theorem outbound_refused (h : s.natEnabled = false ∨ pkt.len < 24) :
    natTranslateOutbound s pkt wanIp = (s, pkt, -1) := by
  rw [natTranslateOutbound, if_pos h]

theorem outbound_known (wanIp : UInt32) (hon : ¬(s.natEnabled = false ∨ pkt.len < 24))
    (hfind : natFindOutbound s pkt.natFlow = some i) :
    natTranslateOutbound s pkt wanIp =
      (s.seen i, natRewriteOutbound pkt wanIp (s.natTable i).externalPort, 0) := by
  rw [natTranslateOutbound, if_neg hon, natMapping, hfind]

theorem outbound_full (hfind : natFindOutbound s pkt.natFlow = none)
    (hfree : natAllocEntry s = none) : natTranslateOutbound s pkt wanIp = (s, pkt, -1) := by
  rw [natTranslateOutbound, natMapping, hfind, hfree]
  exact ite_self _

theorem outbound_new (wanIp : UInt32)
    (hon : ¬(s.natEnabled = false ∨ pkt.len < 24)) (hfind : natFindOutbound s pkt.natFlow = none)
    (hfree : natAllocEntry s = some i) : natTranslateOutbound s pkt wanIp =
      ((s.opened i pkt.natFlow wanIp).seen i, natRewriteOutbound pkt wanIp s.nextNatPort, 0) := by
  rw [natTranslateOutbound, if_neg hon, natMapping, hfind, hfree]
  dsimp only [Option.map_some]
  rw [opened_self]

section
variable (hs : s.Unseen)
include hs

theorem opened_seen (f : NatFlow) (wanIp : UInt32) :
    (s.opened i f wanIp).seen i = s.opened i f wanIp := by
  apply seen_same
  rw [opened_self]
  exact hs i

theorem outbound_effect (pkt : Pktbuf) (wanIp : UInt32)
    (hremote : loadU32 pkt.data (pkt.head + 16) ≠ 0) :
    NatEffect s (natTranslateOutbound s pkt wanIp).1 := by
  by_cases hoff : s.natEnabled = false ∨ pkt.len < 24
  · rw [outbound_refused hoff]
    exact .same
  cases hfind : natFindOutbound s pkt.natFlow with
  | some i =>
    rw [outbound_known wanIp hoff hfind, seen_same (hs i)]
    exact .same
  | none =>
    cases hfree : natAllocEntry s with
    | none =>
      rw [outbound_full hfind hfree]
      exact .same
    | some i =>
      rw [outbound_new wanIp hoff hfind hfree, opened_seen hs]
      exact .opened wanIp hfree hremote

theorem inbound_same (pkt : Pktbuf) : (natTranslateInbound s pkt).1 = s := by
  unfold natTranslateInbound
  split
  · rfl
  split
  · rfl
  · exact seen_same (hs _)

theorem traffic_effect {e : NatEvent} (he : e.Traffic) : NatEffect s (natPerform s e) := by
  cases e with
  | init | enable | disable => exact he.elim
  | outbound pkt wanIp => exact outbound_effect hs pkt wanIp he.2
  | inbound pkt =>
    rw [natPerform, inbound_same hs]
    exact .same
  | portForward externalIp externalPort internalIp internalPort protocol =>
    rw [natPerform, natAddPortForward]
    cases hfree : natAllocEntry s with
    | none => exact .same
    | some i => exact .forwarded hfree rfl rfl rfl
  | cleanup maxAge =>
    rw [natPerform, cleanup_same hs]
    exact .same

end

theorem free_inactive (h : natAllocEntry s = some i) : (s.natTable i).active = false := by
  simpa using scan_holds h

theorem NatEffect.kept (h : NatEffect s t) (hj : (s.natTable j).active = true) :
    t.natTable j = s.natTable j := by
  have hne : ∀ {i}, natAllocEntry s = some i → j ≠ i := by
    rintro i hfree rfl
    exact absurd (hj.symm.trans (free_inactive hfree)) (by decide)
  cases h with
  | same => rfl
  | opened wanIp hfree => exact opened_ne (hne hfree) s _ wanIp
  | forwarded hfree => exact setEntry_ne (hne hfree) s _

theorem NatEffect.enabled (h : NatEffect s t) : t.natEnabled = s.natEnabled := by
  cases h <;> rfl

end

/-- The first `used` entries are in use. The counter was turned `count` times since it stood at
`start`, and the entry `i` of a flow has the port drawn by turn `rank i`. -/
structure Issued (start : Nat) (s : NatState) (used count : Nat) (rank : Fin 4096 → Nat) :
    Prop where
  range : 10000 ≤ start ∧ start ≤ 60000
  unseen : s.Unseen
  filled : ∀ i, (s.natTable i).active = true ↔ i.val < used
  few : count ≤ used ∧ used ≤ 4096
  next : s.nextNatPort.toNat = (turn 10000 60000)^[count] start
  drawn : ∀ i, (s.natTable i).Dynamic →
    rank i < count ∧ (s.natTable i).externalPort.toNat = (turn 10000 60000)^[rank i] start
  distinct : ∀ i j, (s.natTable i).Dynamic → (s.natTable j).Dynamic → rank i = rank j → i = j

def NatState.Sound (s : NatState) : Prop := ∃ start used count rank, Issued start s used count rank

section
variable {s t : NatState} {start used count : Nat} {rank : Fin 4096 → Nat} {i : Fin 4096}

theorem iterate_turn_mem (h : 10000 ≤ start ∧ start ≤ 60000) (k : Nat) :
    10000 ≤ (turn 10000 60000)^[k] start ∧ (turn 10000 60000)^[k] start ≤ 60000 := by
  induction k with
  | zero => exact h
  | succ k ih =>
    rw [iterate_succ_apply']
    exact turn_mem ih

theorem alloc_turns (h : 10000 ≤ s.nextNatPort.toNat ∧ s.nextNatPort.toNat ≤ 60000) :
    (allocNatPort s).1.nextNatPort.toNat = turn 10000 60000 s.nextNatPort.toNat := by
  have hnext : (s.nextNatPort + 1).toNat = s.nextNatPort.toNat + 1 := by
    exact mod_eq_of_lt (show s.nextNatPort.toNat + 1 < 65536 by omega)
  have hlt : natPortMax < s.nextNatPort + 1 ↔ 60000 < s.nextNatPort.toNat + 1 := by
    rw [UInt16.lt_iff_toNat_lt, hnext]
    rfl
  unfold allocNatPort turn
  dsimp only
  by_cases hlast : s.nextNatPort.toNat < 60000
  · rw [if_pos hlast, if_neg (by rw [hlt]; omega), hnext]
  · rw [if_neg hlast, if_pos (by rw [hlt]; omega)]
    rfl

theorem Issued.free_eq (h : Issued start s used count rank) (hfree : natAllocEntry s = some i) :
    i.val = used := by
  obtain ⟨hi, hbefore⟩ := scan_eq_some.mp hfree
  have hlast : ¬i.val < used := by
    rw [← h.filled i]
    simpa using hi
  by_contra hne
  have hlt : used < i.val := by omega
  have hhole := hbefore ⟨used, hlt.trans i.isLt⟩ hlt
  have hactive := (h.filled ⟨used, hlt.trans i.isLt⟩).mp (by simpa using hhole)
  exact lt_irrefl _ hactive

theorem filled_update {table table' : Fin 4096 → NatEntry}
    (h : ∀ j, (table j).active = true ↔ j.val < used) (hi : i.val = used)
    (htable : table' = update table i e) (he : e.active = true) :
    ∀ j, (table' j).active = true ↔ j.val < used + 1 := by
  intro j
  subst htable
  by_cases hj : j = i
  · subst hj
    rw [update_self, he]
    simp only [true_iff]
    omega
  · rw [update_of_ne hj, h j]
    omega

section
variable (h : Issued start s used count rank) (hfree : natAllocEntry s = some i)
include h hfree

theorem Issued.opened (f : NatFlow) (wanIp : UInt32) :
    Issued start (s.opened i f wanIp) (used + 1) (count + 1) (update rank i count) := by
  have hi := h.free_eq hfree
  have hold : ∀ {j}, j ≠ i → (s.opened i f wanIp).natTable j = s.natTable j :=
    fun hj => opened_ne hj s f wanIp
  have hrank : ∀ {j}, j ≠ i → update rank i count j = rank j := fun hj => update_of_ne hj _ _
  refine ⟨h.range, unseen_setEntry (s := (allocNatPort s).1) h.unseen (h.unseen i), ?_, ?_, ?_, ?_, ?_⟩
  · exact filled_update h.filled hi rfl rfl
  · have := h.few
    omega
  · have hrange := iterate_turn_mem h.range count
    rw [← h.next] at hrange
    rw [iterate_succ_apply', ← h.next]
    exact alloc_turns hrange
  · intro j hdyn
    by_cases hj : j = i
    · subst hj
      rw [update_self, opened_self]
      exact ⟨lt_succ_self _, h.next⟩
    · rw [hold hj] at hdyn ⊢
      rw [hrank hj]
      obtain ⟨hlt, hport⟩ := h.drawn j hdyn
      exact ⟨lt_succ_of_lt hlt, hport⟩
  · intro j k hjdyn hkdyn heq
    by_cases hj : j = i
    · by_cases hk : k = i
      · exact hj.trans hk.symm
      rw [hold hk] at hkdyn
      subst hj
      rw [update_self, hrank hk] at heq
      exact absurd (h.drawn k hkdyn).1 (by omega)
    · rw [hold hj] at hjdyn
      by_cases hk : k = i
      · subst hk
        rw [update_self, hrank hj] at heq
        exact absurd (h.drawn j hjdyn).1 (by omega)
      · rw [hold hk] at hkdyn
        rw [hrank hj, hrank hk] at heq
        exact h.distinct j k hjdyn hkdyn heq

theorem Issued.forwarded (hremote : e.remoteIp = 0) (hactive : e.active = true)
    (hseen : e.lastSeen = (s.natTable i).lastSeen) :
    Issued start (s.setEntry i e) (used + 1) count rank := by
  have hold : ∀ {j}, ((s.setEntry i e).natTable j).Dynamic →
      (s.setEntry i e).natTable j = s.natTable j := by
    intro j hdyn
    by_cases hj : j = i
    · subst hj
      rw [setEntry_self] at hdyn
      exact absurd hremote hdyn.2
    · exact setEntry_ne hj s e
  refine ⟨h.range, unseen_setEntry h.unseen (hseen.trans (h.unseen i)), ?_, ?_, h.next, ?_, ?_⟩
  · exact filled_update h.filled (h.free_eq hfree) rfl hactive
  · have := h.free_eq hfree
    have := h.few
    omega
  · intro j hdyn
    have hsame := hold hdyn
    rw [hsame] at hdyn ⊢
    exact h.drawn j hdyn
  · intro j k hj hk
    rw [hold hj] at hj
    rw [hold hk] at hk
    exact h.distinct j k hj hk

end

theorem NatEffect.sound (h : NatEffect s t) (hs : s.Sound) : t.Sound := by
  obtain ⟨start, used, count, rank, hs⟩ := hs
  cases h with
  | same => exact ⟨_, _, _, _, hs⟩
  | opened wanIp hfree _ => exact ⟨_, _, _, _, hs.opened hfree _ wanIp⟩
  | forwarded hfree hremote hactive hseen =>
    exact ⟨_, _, _, _, hs.forwarded hfree hremote hactive hseen⟩

theorem NatState.Sound.unseen (h : s.Sound) : s.Unseen := by
  obtain ⟨_, _, _, _, h⟩ := h
  exact h.unseen

theorem NatState.Sound.port_unique (h : s.Sound) (hi : (s.natTable i).Dynamic)
    (hj : (s.natTable j).Dynamic)
    (hport : (s.natTable i).externalPort = (s.natTable j).externalPort) : i = j := by
  obtain ⟨start, used, count, rank, h⟩ := h
  obtain ⟨hilt, hiport⟩ := h.drawn i hi
  obtain ⟨hjlt, hjport⟩ := h.drawn j hj
  have hfew := h.few
  rw [hport, hjport] at hiport
  have hrank := iterate_turn_injOn h.range (by omega) (by omega) hiport
  exact h.distinct i j hi hj hrank.symm

end

/-! Starting up. -/

/-- Nothing ages the entries, and the counter stays between its bounds. -/
def NatState.Young (s : NatState) : Prop :=
  s.Unseen ∧ 10000 ≤ s.nextNatPort.toNat ∧ s.nextNatPort.toNat ≤ 60000

section
variable {s t : NatState}

theorem young_setEntry (h : s.Young) (he : e.lastSeen = 0) : (s.setEntry i e).Young :=
  ⟨unseen_setEntry h.1 he, h.2⟩

theorem young_opened (h : s.Young) (i : Fin 4096) (f : NatFlow) (wanIp : UInt32) :
    (s.opened i f wanIp).Young := by
  have hport : (allocNatPort s).1.Young := by
    refine ⟨h.1, ?_⟩
    rw [alloc_turns h.2]
    exact turn_mem h.2
  exact young_setEntry hport (h.1 i)

theorem young_perform (h : s.Young) (e : NatEvent) : (natPerform s e).Young := by
  cases e with
  | init | enable | disable => exact h
  | outbound pkt wanIp =>
    rw [natPerform]
    unfold natTranslateOutbound natMapping
    split
    · exact h
    cases natFindOutbound s pkt.natFlow with
    | some i => exact young_setEntry h rfl
    | none =>
      cases natAllocEntry s with
      | none => exact h
      | some i => exact young_setEntry (young_opened h i _ wanIp) rfl
  | inbound pkt =>
    rw [natPerform, inbound_same h.1]
    exact h
  | portForward externalIp externalPort internalIp internalPort protocol =>
    rw [natPerform, natAddPortForward]
    cases natAllocEntry s with
    | none => exact h
    | some i => exact young_setEntry h (h.1 i)
  | cleanup maxAge =>
    rw [natPerform, cleanup_same h.1]
    exact h

theorem young_boot : NatState.boot.Young := ⟨fun _ => rfl, by decide, by decide⟩

theorem run_young (hrun : Run natStep anyEvent .boot es t) : t.Young := by
  refine hrun.invariant (I := NatState.Young) ?_ young_boot
  intro s e s' hs _ hstep
  cases hstep
  exact young_perform hs e

theorem sound_init (h : s.Young) (wanIp : UInt32) : (natEnable (natInit s) wanIp).Sound := by
  refine ⟨s.nextNatPort.toNat, 0, 0, fun _ => 0, h.2, h.1, ?_, by decide, rfl, ?_, ?_⟩
  · exact fun i => ⟨fun hactive => (by cases hactive), fun hlt => absurd hlt (not_lt_zero _)⟩
  · exact fun i hdyn => by cases hdyn.1
  · exact fun i j hdyn => by cases hdyn.1

end

/-! Runs. -/

def NatState.Maps (s : NatState) (f : NatFlow) (port : UInt16) : Prop :=
  f.remoteIp ≠ 0 ∧ ∃ i, (s.natTable i).active = true ∧ (s.natTable i).flow = f ∧
    (s.natTable i).externalPort = port

section
variable {s t : NatState} {f : NatFlow} {port : UInt16}

theorem NatEffect.maps (h : NatEffect s t) (hmaps : s.Maps f port) : t.Maps f port := by
  obtain ⟨hremote, i, hactive, hflow⟩ := hmaps
  refine ⟨hremote, i, ?_⟩
  rw [h.kept hactive]
  exact ⟨hactive, hflow⟩

theorem found_flow (h : natFindOutbound s f = some i) :
    (s.natTable i).active = true ∧ (s.natTable i).flow = f := by
  have htest := scan_holds h
  simp only [Bool.and_eq_true, beq_iff_eq] at htest
  obtain ⟨⟨⟨⟨⟨hactive, h1⟩, h2⟩, h3⟩, h4⟩, h5⟩ := htest
  refine ⟨hactive, ?_⟩
  rw [NatEntry.flow, h1, h2, h3, h4, h5]

theorem translated_eq {s' : NatState}
    (h : natTranslateOutbound s pkt wanIp = (s', natRewriteOutbound pkt wanIp port, 0)) :
    translated s (.outbound pkt wanIp) = [(pkt.natFlow, port)] := by
  simp only [translated, h, if_true, rewriteOutbound_port]

theorem translated_maps (hs : s.Unseen) {e : NatEvent} (he : e.Traffic)
    (h : (f, port) ∈ translated s e) : s.natEnabled = true ∧ (natPerform s e).Maps f port := by
  cases e with
  | init | enable | disable | inbound | portForward | cleanup => cases h
  | outbound pkt wanIp =>
    have hfail : natTranslateOutbound s pkt wanIp ≠ (s, pkt, -1) := by
      intro hfail
      simp only [translated, hfail] at h
      cases h
    have hon : ¬(s.natEnabled = false ∨ pkt.len < 24) := fun hoff => hfail (outbound_refused hoff)
    refine ⟨by simpa using fun hd => hon (.inl hd), ?_⟩
    rw [natPerform]
    cases hfind : natFindOutbound s pkt.natFlow with
    | some i =>
      have hcall := outbound_known wanIp hon hfind
      obtain ⟨hactive, hflow⟩ := found_flow hfind
      rw [translated_eq hcall, mem_singleton] at h
      cases h
      rw [hcall, seen_same (hs i)]
      exact ⟨he.2, i, hactive, hflow, rfl⟩
    | none =>
      cases hfree : natAllocEntry s with
      | none => exact absurd (outbound_full hfind hfree) hfail
      | some i =>
        have hcall := outbound_new wanIp hon hfind hfree
        rw [translated_eq hcall, mem_singleton] at h
        cases h
        rw [hcall, opened_seen hs]
        refine ⟨he.2, i, ?_⟩
        rw [opened_self]
        exact ⟨rfl, rfl, rfl⟩

theorem run_maps (hs : s.Sound) (hrun : Run natStep (fun _ e => e.Traffic) s es t) :
    t.Sound ∧ t.natEnabled = s.natEnabled ∧ (∀ f port, s.Maps f port → t.Maps f port) ∧
      ∀ f port, (f, port) ∈ translations s es → s.natEnabled = true ∧ t.Maps f port := by
  induction hrun with
  | nil s => exact ⟨hs, rfl, fun _ _ h => h, nofun⟩
  | @cons s s' t e es he hstep _ ih =>
    cases hstep
    have heffect := traffic_effect hs.unseen he
    obtain ⟨ht, henabled, hmaps, hlog⟩ := ih (heffect.sound hs)
    rw [heffect.enabled] at henabled hlog
    refine ⟨ht, henabled, fun f port h => hmaps f port (heffect.maps h), ?_⟩
    intro f port hmem
    rw [translations, mem_append] at hmem
    cases hmem with
    | inl hnow =>
      obtain ⟨hon, hnow⟩ := translated_maps hs.unseen he hnow
      exact ⟨hon, hmaps f port hnow⟩
    | inr hlater => exact hlog f port hlater

theorem maps_flow_unique (hs : s.Sound) {g : NatFlow} (hf : s.Maps f port) (hg : s.Maps g port) :
    f = g := by
  obtain ⟨hfremote, i, hi, rfl, rfl⟩ := hf
  obtain ⟨hgremote, j, hj, rfl, hport⟩ := hg
  rw [hs.port_unique ⟨hi, hfremote⟩ ⟨hj, hgremote⟩ hport.symm]

theorem find_inbound (hs : s.Sound) (h : s.Maps f port) :
    ∃ i, natFindInbound s port f.remoteIp f.remotePort f.protocol = some i ∧
      (s.natTable i).flow = f := by
  obtain ⟨hremote, i, hactive, rfl, rfl⟩ := h
  cases hfind : natFindInbound s (s.natTable i).externalPort (s.natTable i).flow.remoteIp
      (s.natTable i).flow.remotePort (s.natTable i).flow.protocol with
  | none =>
    have hno := scan_eq_none.mp hfind i
    simp [hactive, NatEntry.flow] at hno
  | some j =>
    have htest := scan_holds hfind
    simp only [Bool.and_eq_true, beq_iff_eq] at htest
    obtain ⟨⟨⟨⟨hjactive, hport⟩, hjremote⟩, -⟩, -⟩ := htest
    have hjdyn : (s.natTable j).Dynamic := ⟨hjactive, hjremote ▸ hremote⟩
    have hij := hs.port_unique hjdyn ⟨hactive, hremote⟩ hport
    exact ⟨j, rfl, by rw [hij]⟩

end

/-- After any calls, `nat_init` and `nat_enable`, and then any series of translations, port
forwardings and clean-ups: different flows were given different external ports, and a reply from
the remote side of a flow to the port the flow was given goes to the inside end of the flow, with
a correct header checksum and everything else as it was. -/
theorem replies_reach_their_flow (before es : List NatEvent) (wanIp : UInt32) (s t : NatState)
    (hbefore : Run natStep anyEvent .boot before s)
    (hrun : Run natStep (fun _ e => e.Traffic) (natEnable (natInit s) wanIp) es t) :
    (∀ f g port port', (f, port) ∈ translations (natEnable (natInit s) wanIp) es →
      (g, port') ∈ translations (natEnable (natInit s) wanIp) es → f ≠ g → port ≠ port') ∧
    ∀ f port, (f, port) ∈ translations (natEnable (natInit s) wanIp) es →
      ∀ pkt : Pktbuf, pkt.WellFormed → loadU32 pkt.data (pkt.head + 12) = f.remoteIp →
        portAt pkt.data pkt.transport = f.remotePort → pkt.data (pkt.head + 9) = f.protocol →
        portAt pkt.data (pkt.transport + 2) = port →
        ∃ pkt', natTranslateInbound t pkt = (t, pkt', 0) ∧
          pkt.Readdressed pkt' f.internalIp f.internalPort := by
  obtain ⟨ht, henabled, -, hlog⟩ := run_maps (sound_init (run_young hbefore) wanIp) hrun
  constructor
  · rintro f g port port' hf hg hne rfl
    exact hne (maps_flow_unique ht (hlog f port hf).2 (hlog g port hg).2)
  intro f port hf pkt hformed hsrc hsport hproto hdport
  obtain ⟨hon, hmaps⟩ := hlog f port hf
  obtain ⟨i, hfind, hflow⟩ := find_inbound ht hmaps
  have hlen : ¬(t.natEnabled = false ∨ pkt.len < 24) := by
    have := hformed.header
    have := hformed.ports
    rw [henabled, hon]
    simp only [Bool.true_eq_false, false_or]
    omega
  refine ⟨natRewriteInbound pkt f.internalIp f.internalPort, ?_,
    rewriteInbound_readdressed hformed.header _ _⟩
  rw [natTranslateInbound, if_neg hlen, hdport, hsrc, hsport, hproto, hfind, ← hflow]
  dsimp only
  rw [seen_same (ht.unseen i)]
  rfl

/-- A packet with an empty transport header behind its ports. -/
def portPacket (src dst : UInt32) (sport dport : UInt16) : Pktbuf :=
  ⟨24, 0, ofList ([0x45, 0, 0, 24, 0, 0, 0, 0, 64, 17, 0, 0] ++ bytes32 src ++ bytes32 dst ++
    portBytes sport ++ portBytes dport)⟩

theorem portPacket_formed (src dst : UInt32) (sport dport : UInt16) :
    (portPacket src dst sport dport).WellFormed := by
  have hihl : (portPacket src dst sport dport).ihl = 20 := by
    show ((0x45 : UInt8) &&& 0xF).toNat * 4 = 20
    decide
  exact ⟨hihl.ge, by rw [hihl]; rfl⟩

theorem first_translation (hlen : 24 ≤ pkt.len) (s : NatState) (wanIp : UInt32) :
    translated (natEnable (natInit s) wanIp) (.outbound pkt wanIp) =
      [(pkt.natFlow, s.nextNatPort)] := by
  have hfind : natFindOutbound (natEnable (natInit s) wanIp) pkt.natFlow = none :=
    scan_eq_none.mpr fun _ => rfl
  have hfree : natAllocEntry (natEnable (natInit s) wanIp) = some 0 :=
    scan_eq_some.mpr ⟨rfl, fun j hj => absurd hj (Fin.not_lt_zero j)⟩
  have hon : ¬((natEnable (natInit s) wanIp).natEnabled = false ∨ pkt.len < 24) := by
    rintro (hoff | hshort)
    · cases hoff
    · omega
  exact translated_eq (outbound_new wanIp hon hfind hfree)

/-- Two hosts send from the same port. The first flow gets port 10000, and the answer to it goes
back to 10.0.0.2, port 4000. -/
theorem answer_reaches_first_host :
    ∃ t, Run natStep (fun _ e => e.Traffic) (natEnable (natInit .boot) 0x05040302)
        [.outbound (portPacket 0x0200000A 0x08080808 4000 53) 0x05040302,
          .outbound (portPacket 0x0300000A 0x08080808 4000 53) 0x05040302] t ∧
      ∃ pkt', natTranslateInbound t (portPacket 0x08080808 0x05040302 53 10000) = (t, pkt', 0) ∧
        (portPacket 0x08080808 0x05040302 53 10000).Readdressed pkt' 0x0200000A 4000 := by
  have hrun : Run natStep (fun _ e => e.Traffic) (natEnable (natInit .boot) 0x05040302)
      [.outbound (portPacket 0x0200000A 0x08080808 4000 53) 0x05040302,
        .outbound (portPacket 0x0300000A 0x08080808 4000 53) 0x05040302] _ :=
    .cons ⟨portPacket_formed .., by decide⟩ rfl (.single ⟨portPacket_formed .., by decide⟩ rfl)
  obtain ⟨-, hback⟩ := replies_reach_their_flow [] _ _ _ _ (.nil _) hrun
  rw [translations, first_translation (by decide), singleton_append] at hback
  exact ⟨_, hrun, hback _ _ mem_cons_self _ (portPacket_formed ..)
    (by decide) (by decide) (by decide) (by decide)⟩

end AegisOS.Net
