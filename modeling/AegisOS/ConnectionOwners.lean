import AegisOS.SocketLayer

/-! One socket for each connection: which connections `tcp_accept` gives out, and that no two
sockets come to hold the same one. -/
namespace AegisOS.Net
open GuardedRun Function Option

/-- The tables; for each slot the port of the listener that took its SYN, none if the slot was
not opened so; and how often the connection in it was returned by `tcp_accept`. -/
structure Owning where
  layer : SocketLayer
  origin : Fin 128 → Option UInt16
  handed : Fin 128 → Nat

def listenerPort (t : Tcp) : SocketCall → Option UInt16
  | .arrive _ b srcIp => (tcpFindConn t srcIp (segmentOf b).srcPort (segmentOf b).dstPort).map
      fun l => (t.conns l).localPort
  | _ => none

def returnedBy (w : SocketLayer) (call : SocketCall) : Option (Fin 128) :=
  (w.asked call).bind fun id => connOf (w.tcp.accept id).2

def owningNext (s : Owning) (call : SocketCall) : Owning :=
  let w' := s.layer.after call
  { layer := w'
    origin := fun k =>
      if TakenNow s.layer.tcp w'.tcp k then listenerPort s.layer.tcp call else s.origin k
    handed := fun k =>
      if TakenNow s.layer.tcp w'.tcp k then 0
      else if returnedBy s.layer call = some k then s.handed k + 1
      else s.handed k }

def owningStep (s : Owning) (call : SocketCall) : Option Owning := some (owningNext s call)

/-- A connection `tcp_connect` opened. -/
def Owning.Outgoing (s : Owning) (k : Fin 128) : Prop :=
  (s.layer.tcp.conns k).active = true ∧ (s.layer.tcp.conns k).state ≠ .listen ∧ s.origin k = none
  deriving Decidable

def PortsApart (s : Owning) : SocketCall → Prop
  | .listen owner fd _ => ∀ n ∈ s.layer.lookup owner fd, ∀ k, s.Outgoing k →
      (s.layer.tcp.conns k).localPort ≠ (s.layer.sockets n).localPort
  | .connect _ _ _ _ _ => ∀ l, (s.layer.tcp.conns l).active = true →
      (s.layer.tcp.conns l).state = .listen →
      (s.layer.tcp.conns l).localPort ≠ s.layer.tcp.nextEphemeralPort
  | _ => True

instance (s : Owning) (call : SocketCall) : Decidable (PortsApart s call) :=
  match call with
  | .listen owner fd _ => match h : s.layer.lookup owner fd with
    | none => .isTrue fun n hn => by simp [h] at hn
    | some n => decidable_of_iff (∀ k, s.Outgoing k →
        (s.layer.tcp.conns k).localPort ≠ (s.layer.sockets n).localPort) (by simp [PortsApart, h])
  | .connect _ _ _ _ _ => Nat.decidableForallFin _
  | .arrive _ _ _ | .create _ _ | .bind _ _ _ _ | .accept _ _ | .send _ _ _ | .recv _ _ _ _
  | .close _ _ => .isTrue trivial

structure Unowned (w : SocketLayer) : Prop where
  sockets : ∀ n, (w.sockets n).used = false
  conns : ∀ k, (w.tcp.conns k).active = false

/-- No two stream sockets hold one connection; what an accept returns next was opened through
the port of the listener asked, and was not returned before. -/
structure Owned (s : Owning) : Prop where
  distinct : ∀ m n k, s.layer.ref m = some k → s.layer.ref n = some k → m = n
  passive : ∀ call l k, s.layer.asked call = some (l.val : Int) → returnedBy s.layer call = some k →
    s.origin k = some (s.layer.tcp.conns l).localPort
  once : ∀ call k, returnedBy s.layer call = some k → s.handed k = 0

structure Proper (t : Tcp) (ref : Fin 64 → Option (Fin 128)) (origin : Fin 128 → Option UInt16)
    (handed : Fin 128 → Nat) : Prop where
  held : ∀ n k, ref n = some k → (t.conns k).active = true ∧ (t.conns k).state ≠ .lastAck ∧
    ((t.conns k).accepted = true ∨ (t.conns k).state = .listen ∨ origin k = none)
  single : ∀ m n k, ref m = some k → ref n = some k → m = n
  apart : ∀ l k, (t.conns l).active = true → (t.conns l).state = .listen →
    (t.conns k).active = true → (t.conns k).state ≠ .listen → origin k = none →
    (t.conns k).localPort ≠ (t.conns l).localPort
  port : ∀ k p, (t.conns k).active = true → origin k = some p → (t.conns k).localPort = p
  fresh : ∀ k, (t.conns k).active = true → (t.conns k).accepted = false → handed k = 0

section
variable {t : Tcp} {ref ref' : Fin 64 → Option (Fin 128)} {origin : Fin 128 → Option UInt16}
  {handed : Fin 128 → Nat} {k : Fin 128} {c : TcpConn}
variable (h : Proper t ref origin handed)
include h

theorem Proper.drop (n : Fin 64) : Proper t (update ref n none) origin handed := by
  have hsub : ∀ m j, update ref n none m = some j → ref m = some j := by
    intro m j hm
    by_cases hmn : m = n
    · rw [hmn, update_self] at hm
      cases hm
    · rwa [update_of_ne hmn] at hm
  exact ⟨fun m j hm => h.held m j (hsub m j hm),
    fun m m' j hm hm' => h.single m m' j (hsub m j hm) (hsub m' j hm'), h.apart, h.port, h.fresh⟩

/-- One slot is replaced, and with it what is recorded of it. -/
theorem Proper.put (o : Option UInt16) (m : Nat)
    (hheld : ∀ n, ref n = some k → c.active = true ∧ c.state ≠ .lastAck ∧
      (c.accepted = true ∨ c.state = .listen ∨ o = none))
    (hlisten : c.active = true → c.state = .listen → ∀ j, (t.conns j).active = true →
      (t.conns j).state ≠ .listen → origin j = none → (t.conns j).localPort ≠ c.localPort)
    (hout : c.active = true → c.state ≠ .listen → o = none → ∀ l, (t.conns l).active = true →
      (t.conns l).state = .listen → c.localPort ≠ (t.conns l).localPort)
    (hport : c.active = true → ∀ p, o = some p → c.localPort = p)
    (hfresh : c.active = true → c.accepted = false → m = 0) :
    Proper (t.set k c) ref (update origin k o) (update handed k m) := by
  refine ⟨fun n j hn => ?_, h.single, fun l j hl hlist hj hstate horigin => ?_,
    fun j p hj hp => ?_, fun j hj hnot => ?_⟩
  · by_cases hjk : j = k
    · subst hjk
      rw [set_self, update_self]
      exact hheld n hn
    · rw [set_other _ hjk, update_of_ne hjk]
      exact h.held n j hn
  · by_cases hlk : l = k
    · subst hlk
      rw [set_self] at hl hlist ⊢
      by_cases hjl : j = l
      · subst hjl
        rw [set_self] at hstate
        exact absurd hlist hstate
      · rw [set_other _ hjl] at hj hstate ⊢
        rw [update_of_ne hjl] at horigin
        exact hlisten hl hlist j hj hstate horigin
    · rw [set_other _ hlk] at hl hlist ⊢
      by_cases hjk : j = k
      · subst hjk
        rw [set_self] at hj hstate ⊢
        rw [update_self] at horigin
        exact hout hj hstate horigin l hl hlist
      · rw [set_other _ hjk] at hj hstate ⊢
        rw [update_of_ne hjk] at horigin
        exact h.apart l j hl hlist hj hstate horigin
  · by_cases hjk : j = k
    · subst hjk
      rw [set_self] at hj ⊢
      rw [update_self] at hp
      exact hport hj p hp
    · rw [set_other _ hjk] at hj ⊢
      rw [update_of_ne hjk] at hp
      exact h.port j p hj hp
  · by_cases hjk : j = k
    · subst hjk
      rw [set_self] at hj hnot
      rw [update_self]
      exact hfresh hj hnot
    · rw [set_other _ hjk] at hj hnot
      rw [update_of_ne hjk]
      exact h.fresh j hj hnot

theorem Proper.move (hport : c.localPort = (t.conns k).localPort)
    (haccepted : c.accepted = (t.conns k).accepted)
    (hactive : c.active = true → (t.conns k).active = true ∧
      (c.state = .listen ↔ (t.conns k).state = .listen))
    (hheld : ∀ n, ref n = some k → c.active = true ∧ c.state ≠ .lastAck) :
    Proper (t.set k c) ref origin handed := by
  rw [← update_eq_self k origin, ← update_eq_self k handed]
  refine h.put _ _ (fun n hn => ?_) (fun hc hlist j hj hs ho => ?_) (fun hc hs ho l hl hlist => ?_)
    (fun hc p hp => ?_) fun hc hnot => ?_
  · obtain ⟨hc, hlast⟩ := hheld n hn
    rw [haccepted, (hactive hc).2]
    exact ⟨hc, hlast, (h.held n k hn).2.2⟩
  · rw [hport]
    exact h.apart k j (hactive hc).1 ((hactive hc).2.mp hlist) hj hs ho
  · rw [hport]
    exact h.apart l k hl hlist (hactive hc).1 (fun hs' => hs ((hactive hc).2.mpr hs')) ho
  · rw [hport]
    exact h.port k p (hactive hc).1 hp
  · exact h.fresh k (hactive hc).1 (haccepted ▸ hnot)

theorem Proper.grant (hnone : ∀ n, ref n ≠ some k) (hactive : (t.conns k).active = true)
    (hlast : (t.conns k).state ≠ .lastAck)
    (hwhy : (t.conns k).accepted = true ∨ (t.conns k).state = .listen ∨ origin k = none)
    (m : Fin 64) : Proper t (update ref m (some k)) origin handed := by
  have hcases : ∀ n j, update ref m (some k) n = some j →
      n = m ∧ j = k ∨ n ≠ m ∧ ref n = some j := by
    intro n j hn
    by_cases hnm : n = m
    · rw [hnm, update_self] at hn
      exact .inl ⟨hnm, (some.inj hn).symm⟩
    · rw [update_of_ne hnm] at hn
      exact .inr ⟨hnm, hn⟩
  refine ⟨fun n j hn => ?_, fun n n' j hn hn' => ?_, h.apart, h.port, h.fresh⟩
  · rcases hcases n j hn with ⟨-, rfl⟩ | ⟨-, hold⟩
    · exact ⟨hactive, hlast, hwhy⟩
    · exact h.held n j hold
  rcases hcases n j hn with ⟨hnm, hjk⟩ | ⟨-, hold⟩
  · rcases hcases n' j hn' with ⟨hnm', -⟩ | ⟨-, hold'⟩
    · rw [hnm, hnm']
    · exact absurd (hjk ▸ hold') (hnone n')
  · rcases hcases n' j hn' with ⟨-, hjk⟩ | ⟨-, hold'⟩
    · exact absurd (hjk ▸ hold) (hnone n)
    · exact h.single n n' j hold hold'

theorem Proper.unheld (hfree : (t.conns k).active = false) (n : Fin 64) : ref n ≠ some k :=
  fun hn =>
  absurd (hfree.symm.trans (h.held n k hn).1) (by decide)

theorem Proper.take (hfree : (t.conns k).active = false) (o : Option UInt16)
    (hlast : c.state ≠ .lastAck) (hport : ∀ p, o = some p → c.localPort = p)
    (hlisten : c.state = .listen → ∀ j, (t.conns j).active = true → (t.conns j).state ≠ .listen →
      origin j = none → (t.conns j).localPort ≠ c.localPort)
    (hout : c.state ≠ .listen → o = none → ∀ l, (t.conns l).active = true →
      (t.conns l).state = .listen → c.localPort ≠ (t.conns l).localPort)
    (hactive : c.active = true)
    (href : ref' = ref ∨ (∃ n, ref' = update ref n (some k)) ∧ (c.state = .listen ∨ o = none)) :
    Proper (t.set k c) ref' (update origin k o) (update handed k 0) := by
  have hnone := h.unheld hfree
  have hbase : Proper (t.set k c) ref (update origin k o) (update handed k 0) :=
    h.put o 0 (fun n hn => absurd hn (hnone n)) (fun _ => hlisten) (fun _ => hout) (fun _ => hport)
      fun _ _ => rfl
  rcases href with rfl | ⟨⟨m, rfl⟩, hwhy⟩
  · exact hbase
  refine hbase.grant hnone ?_ ?_ ?_ m
  · rwa [set_self]
  · rwa [set_self]
  · rw [set_self, update_self]
    exact .inr hwhy

/-- An established connection no accept returned yet, on the port of a listener, came through a
listener on that port, and no socket holds it. -/
theorem Proper.acceptable {l : Fin 128} (hl : (t.conns l).active = true)
    (hlisten : (t.conns l).state = .listen) (hk : (t.conns k).active = true)
    (hstate : (t.conns k).state = .established) (hnot : (t.conns k).accepted = false)
    (hport : (t.conns k).localPort = (t.conns l).localPort) :
    origin k = some (t.conns l).localPort ∧ ∀ n, ref n ≠ some k := by
  have horigin : origin k = some (t.conns l).localPort := by
    cases ho : origin k with
    | none => exact absurd hport (h.apart l k hl hlisten hk (by simp [hstate]) ho)
    | some p => rw [← hport, h.port k p hk ho]
  refine ⟨horigin, fun n hn => ?_⟩
  obtain ⟨-, -, hwhy⟩ := h.held n k hn
  rw [hnot, hstate, horigin] at hwhy
  simp at hwhy

theorem Proper.hand (hk : (t.conns k).active = true) (hstate : (t.conns k).state = .established)
    (hnone : ∀ n, ref n ≠ some k) (href : ref' = ref ∨ ∃ n, ref' = update ref n (some k))
    (count : Nat) :
    Proper (t.set k { t.conns k with accepted := true }) ref' origin
      (update handed k count) := by
  have hbase : Proper (t.set k { t.conns k with accepted := true }) ref origin
      (update handed k count) := by
    rw [← update_eq_self k origin]
    exact h.put _ _ (fun n hn => absurd hn (hnone n))
      (fun _ hs => absurd (hstate.symm.trans hs) (by decide))
      (fun _ hs ho l hl hlisten => h.apart l k hl hlisten hk hs ho)
      (fun _ p hp => h.port k p hk hp) fun _ hnot => absurd hnot (by simp)
  rcases href with rfl | ⟨m, rfl⟩
  · exact hbase
  refine hbase.grant hnone ?_ ?_ ?_ m
  · rwa [set_self]
  · simp [hstate]
  · rw [set_self]
    exact .inl rfl

end

/-! Runs. -/

variable {t' : Tcp} {ref' : Fin 64 → Option (Fin 128)} {localIp : UInt32} {owner : Nat} {fd : Int}
  {n : Fin 64}

section
variable {s : Owning} {call : SocketCall} {k : Fin 128} {c : TcpConn}

def Owning.Proper (s : Owning) : Prop := Net.Proper s.layer.tcp s.layer.ref s.origin s.handed

theorem owningNext_untaken (s : Owning) (call : SocketCall)
    (hslots : ∀ j, ((s.layer.after call).tcp.conns j).active = true →
      (s.layer.tcp.conns j).active = true) :
    (owningNext s call).origin = s.origin ∧ (owningNext s call).handed = fun j =>
      if returnedBy s.layer call = some j then s.handed j + 1 else s.handed j := by
  have hnone : ∀ j, ¬TakenNow s.layer.tcp (s.layer.after call).tcp j := fun j htaken =>
    absurd (htaken.1.symm.trans (hslots j htaken.2)) (by decide)
  exact ⟨funext fun j => if_neg (hnone j), funext fun j => if_neg (hnone j)⟩

theorem returnedBy_none (hasked : s.layer.asked call = none) : returnedBy s.layer call = none := by
  rw [returnedBy, hasked]
  rfl

theorem owningNext_take (hasked : s.layer.asked call = none)
    (hfree : (s.layer.tcp.conns k).active = false) (hactive : c.active = true)
    (hslots : (s.layer.after call).tcp.conns = update s.layer.tcp.conns k c) :
    (owningNext s call).origin = update s.origin k (listenerPort s.layer.tcp call) ∧
      (owningNext s call).handed = update s.handed k 0 := by
  have htaken : ∀ j, TakenNow s.layer.tcp (s.layer.after call).tcp j ↔ j = k := by
    intro j
    rw [TakenNow, hslots]
    constructor
    · rintro ⟨hbefore, hafter⟩
      by_contra hjk
      rw [update_of_ne hjk] at hafter
      exact absurd (hbefore.symm.trans hafter) (by decide)
    · rintro rfl
      rw [update_self]
      exact ⟨hfree, hactive⟩
  constructor <;> funext j
  · by_cases hjk : j = k
    · rw [hjk, update_self]
      exact if_pos ((htaken k).mpr rfl)
    · rw [update_of_ne hjk]
      exact if_neg fun h => hjk ((htaken j).mp h)
  · by_cases hjk : j = k
    · rw [hjk, update_self]
      exact if_pos ((htaken k).mpr rfl)
    rw [update_of_ne hjk]
    refine (if_neg fun h => hjk ((htaken j).mp h)).trans (if_neg ?_)
    rw [returnedBy_none hasked]
    exact (some_ne_none j).symm

theorem proper_move (hreturned : returnedBy s.layer call = none) (htcp : (s.layer.after call).tcp = t')
    (href : (s.layer.after call).ref = ref')
    (hslots : ∀ j, (t'.conns j).active = true → (s.layer.tcp.conns j).active = true)
    (h : Net.Proper t' ref' s.origin s.handed) : (owningNext s call).Proper := by
  obtain ⟨horigin, hhanded⟩ := owningNext_untaken s call (by rwa [htcp])
  simp only [hreturned] at hhanded
  rw [Owning.Proper, horigin, hhanded]
  show Net.Proper (s.layer.after call).tcp (s.layer.after call).ref _ _
  rw [htcp, href]
  exact h

theorem proper_take
    (hasked : s.layer.asked call = none) (hfree : (s.layer.tcp.conns k).active = false)
    (hactive : c.active = true) (htcp : (s.layer.after call).tcp = t')
    (hslots : t'.conns = update s.layer.tcp.conns k c)
    (href : (s.layer.after call).ref = ref')
    (h : Net.Proper t' ref' (update s.origin k (listenerPort s.layer.tcp call))
      (update s.handed k 0)) : (owningNext s call).Proper := by
  obtain ⟨horigin, hhanded⟩ := owningNext_take hasked hfree hactive (by rw [htcp, hslots])
  rw [Owning.Proper, horigin, hhanded]
  show Net.Proper (s.layer.after call).tcp (s.layer.after call).ref _ _
  rw [htcp, href]
  exact h

theorem active_set {t : Tcp} (hactive : c.active = true → (t.conns k).active = true) :
    ∀ j, ((t.set k c).conns j).active = true → (t.conns j).active = true := by
  intro j hj
  by_cases hjk : j = k
  · subst hjk
    rw [set_self] at hj
    exact hactive hj
  · rwa [set_other _ hjk] at hj

section
variable (h : s.Proper)
include h

theorem proper_arrive {srcIp : UInt32} {b : Pktbuf}
    (htcp : (s.layer.after (.arrive localIp b srcIp)).tcp = (s.layer.tcp.rx localIp b srcIp).1)
    (href : (s.layer.after (.arrive localIp b srcIp)).ref = s.layer.ref) :
    (owningNext s (.arrive localIp b srcIp)).Proper := by
  rcases rx_cases s.layer.tcp localIp b srcIp with
    heq | ⟨l, k, hfind, hlisten, -, hidle, heq⟩ | ⟨k, c, acked, -, hfind, hreaction, heq⟩
  · rw [heq] at htcp
    exact proper_move rfl htcp href (fun _ hj => hj) h
  · rw [heq] at htcp
    have hfree := idle_inactive hidle
    have hport : listenerPort s.layer.tcp (.arrive localIp b srcIp) = some (segmentOf b).dstPort := by
      rw [listenerPort, hfind, map_some, find_port hfind]
    refine proper_take rfl hfree rfl htcp rfl href ?_
    rw [hport]
    exact .take h hfree _ (by simp [TcpConn.opened, openedBy])
      (fun p hp => some.inj hp) (fun hs => absurd hs (by simp [TcpConn.opened, openedBy]))
      (fun _ ho => absurd ho (by simp)) rfl (.inl rfl)
  · rw [heq] at htcp
    obtain ⟨hm, haccepted, hslot, hnl, hlast⟩ := hreaction.keeps
    have hnl' := hreaction.not_listen
    have hactive : c.active = true → (s.layer.tcp.conns k).active = true := by
      intro hc
      rcases hslot with hsame | ⟨-, hgone⟩
      · exact hsame ▸ hc
      · exact absurd (hc.symm.trans hgone) (by decide)
    refine proper_move rfl htcp href (active_set hactive) ?_
    refine .move h hm.2.2 haccepted (fun hc => ⟨hactive hc, ?_⟩) fun n hn => ?_
    · exact ⟨fun hs => absurd hs hnl, fun hs => absurd hs hnl'⟩
    obtain ⟨hk, hs, -⟩ := h.held n k hn
    rcases hslot with hsame | ⟨hlast', -⟩
    · exact ⟨hsame.trans hk, hlast⟩
    · exact absurd hlast' hs

theorem proper_listen (hok : PortsApart s (.listen owner fd localIp))
    (hheld : s.layer.lookup owner fd = some n)
    (htcp : (s.layer.after (.listen owner fd localIp)).tcp =
      (s.layer.tcp.listen localIp (s.layer.sockets n).localPort).1)
    (href : (s.layer.after (.listen owner fd localIp)).ref = update s.layer.ref n
      (connOf (s.layer.tcp.listen localIp (s.layer.sockets n).localPort).2)) :
    (owningNext s (.listen owner fd localIp)).Proper := by
  rcases listen_cases s.layer.tcp localIp (s.layer.sockets n).localPort with
    ⟨-, heq⟩ | ⟨k, hidle, heq⟩ <;> rw [heq] at htcp href
  · exact proper_move rfl htcp href (fun _ hj => hj) (.drop h n)
  rw [connOf_val] at href
  have hfree := idle_inactive hidle
  exact proper_take rfl hfree rfl htcp rfl href (.take h hfree _ (by simp [TcpConn.listening])
    (fun p hp => absurd hp.symm (some_ne_none p))
    (fun _ j hj hs ho => hok n hheld j ⟨hj, hs, ho⟩)
    (fun hs => absurd rfl hs) rfl (.inr ⟨⟨n, rfl⟩, .inl rfl⟩))

theorem proper_connect {ip : UInt32} {port : UInt16}
    (hok : PortsApart s (.connect owner fd localIp ip port))
    (htcp : (s.layer.after (.connect owner fd localIp ip port)).tcp =
      (s.layer.tcp.connect localIp ip port).1)
    (href : (s.layer.after (.connect owner fd localIp ip port)).ref = update s.layer.ref n
      (connOf (s.layer.tcp.connect localIp ip port).2.2)) :
    (owningNext s (.connect owner fd localIp ip port)).Proper := by
  rcases connect_cases s.layer.tcp localIp ip port with ⟨-, heq⟩ | ⟨k, hidle, hid, heq⟩
  · rw [heq] at htcp href
    exact proper_move rfl htcp href (fun _ hj => hj) (.drop h n)
  rw [heq] at htcp
  rw [hid, connOf_val] at href
  have hfree := idle_inactive hidle
  have hports : Net.Proper { s.layer.tcp with
      nextEphemeralPort := s.layer.tcp.nextEphemeralPort + 1 } s.layer.ref s.origin s.handed :=
    ⟨h.held, h.single, h.apart, h.port, h.fresh⟩
  exact proper_take rfl hfree rfl htcp rfl href (.take hports hfree _
    (by simp [TcpConn.dialing]) (fun p hp => absurd hp.symm (some_ne_none p))
    (fun hs => absurd hs (by simp [TcpConn.dialing]))
    (fun _ _ l hl hlisten => (hok l hl hlisten).symm) rfl (.inr ⟨⟨n, rfl⟩, .inr rfl⟩))

theorem proper_close
    (htcp : (s.layer.after (.close owner fd)).tcp =
      ((s.layer.ref n).elim s.layer.tcp fun k => (s.layer.tcp.close k.val).1))
    (href : (s.layer.after (.close owner fd)).ref = update s.layer.ref n none) :
    (owningNext s (.close owner fd)).Proper := by
  have hdrop := Proper.drop h n
  cases hn : s.layer.ref n with
  | none =>
    rw [hn] at htcp
    exact proper_move rfl htcp href (fun _ hj => hj) hdrop
  | some k =>
    rw [hn] at htcp
    have hnone : ∀ m, update s.layer.ref n none m ≠ some k := by
      intro m hm
      by_cases hmn : m = n
      · rw [hmn, update_self] at hm
        cases hm
      · rw [update_of_ne hmn] at hm
        exact hmn (h.single m n k hm hn)
    rcases close_cases s.layer.tcp k with heq | ⟨hk, -, heq⟩ | ⟨next, hk, hto, heq⟩
    · refine proper_move rfl (htcp.trans ?_) href (fun _ hj => hj) hdrop
      exact congrArg Prod.fst heq
    · refine proper_move rfl (htcp.trans (congrArg Prod.fst heq)) href
        (active_set fun _ => hk) ?_
      exact hdrop.move rfl rfl (fun hc => absurd hc (by simp)) fun m hm => absurd hm (hnone m)
    · refine proper_move rfl (htcp.trans (congrArg Prod.fst heq)) href
        (active_set fun _ => hk) ?_
      refine hdrop.move rfl rfl (fun _ => ⟨hk, ?_⟩) fun m hm => absurd hm (hnone m)
      cases hs : (s.layer.tcp.conns k).state <;> rw [hs] at hto <;> cases hto <;> simp

theorem proper_accept
    (hasked : s.layer.asked (.accept owner fd) = some (s.layer.sockets n).transportId)
    (htcp : (s.layer.after (.accept owner fd)).tcp =
      (s.layer.tcp.accept (s.layer.sockets n).transportId).1)
    (href : (s.layer.after (.accept owner fd)).ref = s.layer.ref ∨ ∃ m,
      (s.layer.after (.accept owner fd)).ref = update s.layer.ref m
        (connOf (s.layer.tcp.accept (s.layer.sockets n).transportId).2)) :
    (owningNext s (.accept owner fd)).Proper := by
  have hreturned : returnedBy s.layer (.accept owner fd) =
      connOf (s.layer.tcp.accept (s.layer.sockets n).transportId).2 := by
    rw [returnedBy, hasked]
    rfl
  rcases accept_cases s.layer.tcp (s.layer.sockets n).transportId with
    heq | ⟨l, k, -, hl, hlisten, hk, hstate, hnot, hport, heq⟩ <;> rw [heq] at htcp href hreturned
  · rcases href with href | ⟨m, href⟩
    · exact proper_move hreturned htcp href (fun _ hj => hj) h
    · exact proper_move hreturned htcp href (fun _ hj => hj) (.drop h m)
  rw [connOf_val] at href hreturned
  obtain ⟨horigin, hhanded⟩ := owningNext_untaken s (.accept owner fd)
    (by rw [htcp]; exact active_set fun _ => hk)
  have hcount : (owningNext s (.accept owner fd)).handed = update s.handed k (s.handed k + 1) := by
    rw [hhanded]
    funext j
    rw [hreturned]
    by_cases hjk : j = k
    · rw [hjk, update_self]
      exact if_pos rfl
    · rw [update_of_ne hjk]
      exact if_neg fun hk => hjk (some.inj hk).symm
  rw [Owning.Proper, horigin, hcount]
  show Net.Proper (s.layer.after (.accept owner fd)).tcp (s.layer.after (.accept owner fd)).ref _ _
  rw [htcp]
  obtain ⟨-, hnone⟩ := Proper.acceptable h hl hlisten hk hstate hnot hport
  exact .hand h hk hstate hnone href _

theorem proper_next (hok : PortsApart s call) : (owningNext s call).Proper := by
  cases after_effect s.layer call with
  | nothing hasked htcp href =>
    exact proper_move (returnedBy_none hasked) htcp href (fun _ hj => hj) h
  | arrived htcp href => exact proper_arrive h htcp href
  | moved k sndNxt rx hasked htcp href =>
    refine proper_move (returnedBy_none hasked) htcp href (active_set id) ?_
    exact .move h rfl rfl (fun hc => ⟨hc, .rfl⟩) fun n hn =>
      ⟨(h.held n k hn).1, (h.held n k hn).2.1⟩
  | listened n hheld htcp href => exact proper_listen h hok hheld htcp href
  | connected n htcp href => exact proper_connect h hok htcp href
  | accepted n hasked htcp href => exact proper_accept h hasked htcp href
  | closed n hheld htcp href => exact proper_close h htcp href

end

theorem returnedBy_cases (hk : returnedBy s.layer call = some k) : ∃ l : Fin 128,
    s.layer.asked call = some (l.val : Int) ∧ (s.layer.tcp.conns l).active = true ∧
      (s.layer.tcp.conns l).state = .listen ∧ (s.layer.tcp.conns k).active = true ∧
      (s.layer.tcp.conns k).state = .established ∧ (s.layer.tcp.conns k).accepted = false ∧
      (s.layer.tcp.conns k).localPort = (s.layer.tcp.conns l).localPort := by
  obtain ⟨id, hasked, hid⟩ := bind_eq_some_iff.mp hk
  rcases accept_cases s.layer.tcp id with heq | ⟨l, j, rfl, hl, hlisten, hj, hstate, hnot, hport, heq⟩
  · rw [heq] at hid
    cases hid
  · rw [heq, connOf_val] at hid
    cases hid
    exact ⟨l, hasked, hl, hlisten, hj, hstate, hnot, hport⟩

theorem Owning.Proper.owned (h : s.Proper) : Owned s := by
  refine ⟨h.single, fun call l k hasked hk => ?_, fun call k hk => ?_⟩
  · obtain ⟨l', hasked', hl, hlisten, hactive, hstate, hnot, hport⟩ := returnedBy_cases hk
    have hll : l = l' := by
      have hval : (l.val : Int) = l'.val := some.inj (hasked.symm.trans hasked')
      exact Fin.ext (by omega)
    subst hll
    exact (Proper.acceptable h hl hlisten hactive hstate hnot hport).1
  · obtain ⟨l, -, -, -, hactive, -, hnot, -⟩ := returnedBy_cases hk
    exact h.fresh k hactive hnot

end

theorem connections_owned_once (w : SocketLayer) (hstart : Unowned w) (es : List SocketCall)
    (s : Owning) (hrun : Run owningStep PortsApart ⟨w, fun _ => none, fun _ => 0⟩ es s) :
    Owned s := by
  have hidle : ∀ k, ¬(w.tcp.conns k).active = true := fun k hk =>
    absurd ((hstart.conns k).symm.trans hk) (by decide)
  have hunheld : ∀ n, w.ref n = none := fun n => if_neg fun hused =>
    absurd ((hstart.sockets n).symm.trans hused.1) (by decide)
  have hproper : (⟨w, fun _ => none, fun _ => 0⟩ : Owning).Proper := by
    refine ⟨fun n k hn => ?_, fun m n k hm => ?_, fun l k hl => absurd hl (hidle l),
      fun k p hk => absurd hk (hidle k), fun k hk => absurd hk (hidle k)⟩
    · exact absurd ((hunheld n).symm.trans hn) (some_ne_none k).symm
    · exact absurd ((hunheld m).symm.trans hm) (some_ne_none k).symm
  refine (hrun.invariant (I := Owning.Proper) (fun s call s' h hok hstep => ?_) hproper).owned
  cases hstep
  exact proper_next h hok

theorem quiet_unowned : Unowned quiet.layer := ⟨fun _ => rfl, fun _ => rfl⟩

def serverAndClient : List SocketCall :=
  [.create 9 1, .bind 9 0x1000 80 0, .listen 9 0x1000 5, .create 8 1, .connect 8 0x1001 5 7 4000,
    .arrive 5 (fromPeer 6000 tcpSyn []) 7, .arrive 5 (fromPeer 6001 tcpAck []) 7, .accept 9 0x1000]

theorem server_and_client_apart : ∃ s, Run owningStep PortsApart ⟨quiet.layer, fun _ => none, fun _ => 0⟩
    serverAndClient s ∧ s.layer.ref 1 = some 1 ∧ s.layer.ref 2 = some 2 ∧ s.handed 2 = 1 ∧ Owned s := by
  refine Run.exists_of_execute_imp (P := fun s => s.layer.ref 1 = some 1 ∧
    s.layer.ref 2 = some 2 ∧ s.handed 2 = 1) (fun s hrun hend => ?_) (by decide +kernel)
  obtain ⟨hclient, hserver, honce⟩ := hend
  exact ⟨hclient, hserver, honce, connections_owned_once _ quiet_unowned _ s hrun⟩

/-- The same, with the server on the first ephemeral port: the accept gives it the client's own
connection. -/
theorem client_connection_accepted : ∃ s, Run owningStep (fun _ _ => True)
    ⟨quiet.layer, fun _ => none, fun _ => 0⟩
    [.create 9 1, .bind 9 0x1000 49152 0, .listen 9 0x1000 5, .create 8 1, .connect 8 0x1001 5 7 4000,
      .arrive 5 (.ofSegment { peerConn with remotePort := 49152 } (tcpSyn ||| tcpAck) []) 7] s ∧
    s.layer.asked (.accept 9 0x1000) = some 0 ∧
    returnedBy s.layer (.accept 9 0x1000) = some 1 ∧ s.origin 1 = none ∧
    (owningNext s (.accept 9 0x1000)).layer.ref 1 = some 1 ∧
    (owningNext s (.accept 9 0x1000)).layer.ref 2 = some 1 ∧
    ¬Owned s ∧ ¬Owned (owningNext s (.accept 9 0x1000)) := by
  refine Run.exists_of_execute_imp (P := fun s => s.layer.asked (.accept 9 0x1000) = some 0 ∧
    returnedBy s.layer (.accept 9 0x1000) = some 1 ∧ s.origin 1 = none ∧
    (owningNext s (.accept 9 0x1000)).layer.ref 1 = some 1 ∧
    (owningNext s (.accept 9 0x1000)).layer.ref 2 = some 1) (fun s _ hend => ?_) (by decide +kernel)
  obtain ⟨hasked, hreturned, horigin, hclient, hserver⟩ := hend
  refine ⟨hasked, hreturned, horigin, hclient, hserver, fun h => ?_, fun h => ?_⟩
  · have hpassive := h.passive (.accept 9 0x1000) 0 1 hasked hreturned
    exact absurd (horigin.symm.trans hpassive) (some_ne_none _).symm
  · exact absurd (h.distinct 1 2 1 hclient hserver) (by decide)

end AegisOS.Net
