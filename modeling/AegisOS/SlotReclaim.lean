import AegisOS.SocketLayer

/-! Which connection slots come back to `tcp_alloc_conn`. -/
namespace AegisOS.Net
open GuardedRun Function Option

/-- What happened on a connection: the peer acknowledged our FIN, the peer sent its own, a socket
closed it before it was established. -/
structure Handshake where
  finAcked : Bool
  finSeen : Bool
  closedEarly : Bool

def noHandshake : Handshake := ⟨false, false, false⟩

structure Reclaiming where
  layer : SocketLayer
  peer : Fin 128 → Handshake

/-- Our FIN went out in this state, as the last thing before `snd_nxt`. -/
def TcpState.finSent : TcpState → Bool
  | .finWait1 | .finWait2 | .closing | .lastAck | .timeWait => true
  | _ => false

def Handshake.noted (h : Handshake) (w : SocketLayer) (k : Fin 128) : SocketCall → Handshake
  | .arrive _ b srcIp =>
    if IsFor k w.tcp b srcIp ∧ (w.tcp.conns k).state ≠ .listen then
      { h with
        finSeen := h.finSeen || hasFlag (segmentOf b).flags tcpFin
        finAcked := h.finAcked || ((w.tcp.conns k).state.finSent &&
          hasFlag (segmentOf b).flags tcpAck && (segmentOf b).ack == (w.tcp.conns k).sndNxt) }
    else h
  | .close owner fd =>
    if (w.lookup owner fd).bind w.ref = some k ∧ (w.tcp.conns k).active = true ∧
        ((w.tcp.conns k).state = .synSent ∨ (w.tcp.conns k).state = .synReceived) then
      { h with closedEarly := true }
    else h
  | _ => h

def reclaimNext (s : Reclaiming) (call : SocketCall) : Reclaiming :=
  let w' := s.layer.after call
  { layer := w'
    peer := fun k =>
      if TakenNow s.layer.tcp w'.tcp k then noHandshake else (s.peer k).noted s.layer k call }

def reclaimStep (s : Reclaiming) (call : SocketCall) : Option Reclaiming :=
  some (reclaimNext s call)

def SocketLayer.Held (w : SocketLayer) (k : Fin 128) : Prop := ∃ n, w.ref n = some k

def Handshake.Finished (h : Handshake) : Prop := h.finAcked = true ∧ h.finSeen = true

structure Reclaimed (s : Reclaiming) : Prop where
  full : s.layer.tcp.alloc = none → ∀ k, (s.layer.tcp.conns k).state = .listen ∨
    s.layer.Held k ∨ ¬(s.peer k).Finished
  gone : ∀ k, (s.layer.tcp.conns k).active = true → ¬s.layer.Held k →
    ¬(s.peer k).Finished ∧ (s.peer k).closedEarly = false

/-- A socket is closed after the peer closed, or while it holds no connection but a listener. -/
def ClosesLast (s : Reclaiming) : SocketCall → Prop
  | .close owner fd => ∀ k ∈ (s.layer.lookup owner fd).bind s.layer.ref,
      (s.layer.tcp.conns k).state ≠ .established ∧ (s.layer.tcp.conns k).state ≠ .synSent ∧
        (s.layer.tcp.conns k).state ≠ .synReceived
  | _ => True

instance (s : Reclaiming) (call : SocketCall) : Decidable (ClosesLast s call) :=
  match call with
  | .close owner fd => match h : (s.layer.lookup owner fd).bind s.layer.ref with
    | none => .isTrue fun k hk => by simp [h] at hk
    | some k => decidable_of_iff ((s.layer.tcp.conns k).state ≠ .established ∧
        (s.layer.tcp.conns k).state ≠ .synSent ∧ (s.layer.tcp.conns k).state ≠ .synReceived)
        (by simp [ClosesLast, h])
  | .arrive _ _ _ | .create _ _ | .bind _ _ _ _ | .listen _ _ _ | .accept _ _ | .connect _ _ _ _ _
  | .send _ _ _ | .recv _ _ _ _ => .isTrue trivial

/-- The connection never sent a FIN, or sent it as an answer. -/
structure Answering (c : TcpConn) (h : Handshake) : Prop where
  state : c.state.finSent = true → c.state = .lastAck
  unacked : h.finAcked = false
  late : h.closedEarly = false

variable {g : Segment} {b : Pktbuf} {c c' : TcpConn} {acked : Bool} {t : Tcp} {s : Reclaiming}
  {k : Fin 128}

theorem Reaction.answering
    (h : Reaction g b c c' acked) (hc : c.state.finSent = true → c.state = .lastAck)
    (hactive : c'.active = true) : c'.state.finSent = true → c'.state = .lastAck := by
  have hno : ∀ st, c.state = st → st.finSent = true → st ≠ .lastAck → False := fun st hst hf hne =>
    hne (hst ▸ hc (hst ▸ hf))
  cases h with
  | connected hs hsyn | confirmed hs => exact fun hf => by cases hf
  | data hs | noted hs => exact hc
  | fin hfin hnext =>
    generalize hst : c.state = st at hnext
    cases hnext with
    | established => exact fun hf => by cases hf
    | both | crossed | finWait2 => exact (hno _ hst rfl (by decide)).elim
  | finAcked hs hack => exact (hno _ hs rfl (by decide)).elim
  | gone hs hack => cases hactive

section
variable {s : Reclaiming} {call : SocketCall} {k : Fin 128}

theorem rx_lastAck (localIp : UInt32) {srcIp : UInt32} (hfor : IsFor k t b srcIp)
    (hstate : (t.conns k).state = .lastAck) (hack : hasFlag (segmentOf b).flags tcpAck = true) :
    (((t.rx localIp b srcIp).1).conns k).active = false := by
  rw [Tcp.rx, if_neg (by have := hfor.1; omega)]
  dsimp only
  rw [hfor.2]
  unfold Tcp.input
  dsimp only
  rw [hstate]
  dsimp only
  rw [if_pos hack, set_self]

end

def Tcp.Answers (t : Tcp) : Prop :=
  ∀ k, (t.conns k).active = true → (t.conns k).state.finSent = true → (t.conns k).state = .lastAck

namespace Tcp.Answers
variable {t u : Tcp} {j : Fin 128}
variable (h : t.Answers)
include h

theorem set (hu : u.conns = t.conns)
    (hc : c.active = true → c.state.finSent = true → c.state = .lastAck) : (u.set j c).Answers := by
  intro k
  by_cases hkj : k = j
  · rw [hkj, set_self]
    exact hc
  · rw [set_other _ hkj, hu]
    exact h k

theorem rx (localIp : UInt32) (b : Pktbuf) (srcIp : UInt32) : (t.rx localIp b srcIp).1.Answers := by
  rcases rx_cases t localIp b srcIp with
    heq | ⟨l, j, -, -, -, -, heq⟩ | ⟨j, c, acked, -, hfind, hreaction, heq⟩ <;> rw [heq]
  · exact h
  · exact h.set rfl fun _ hf => by cases hf
  · exact h.set rfl fun hc => hreaction.answering (h j (find_cases hfind).1) hc

theorem listen (localIp : UInt32) (port : UInt16) : (t.listen localIp port).1.Answers := by
  rcases listen_cases t localIp port with ⟨-, heq⟩ | ⟨j, -, heq⟩ <;> rw [heq]
  · exact h
  · exact h.set rfl fun _ hf => by cases hf

theorem connect (localIp ip : UInt32) (port : UInt16) : (t.connect localIp ip port).1.Answers := by
  rcases connect_cases t localIp ip port with ⟨-, heq⟩ | ⟨j, -, -, heq⟩ <;> rw [heq]
  · exact h
  · exact h.set rfl fun _ hf => by cases hf

theorem accept (id : Int) : (t.accept id).1.Answers := by
  rcases accept_cases t id with heq | ⟨l, j, -, -, -, -, -, -, -, heq⟩ <;> rw [heq]
  · exact h
  · exact h.set rfl (h j)

theorem close (hj : (t.conns j).state ≠ .established) : (t.close j).1.Answers := by
  rcases close_cases t j with heq | ⟨-, -, heq⟩ | ⟨next, -, hto, heq⟩ <;> rw [heq]
  · exact h
  · exact h.set rfl fun hc => by cases hc
  refine h.set rfl fun _ _ => ?_
  generalize hst : (t.conns j).state = st at hto
  cases hto with
  | established => exact absurd hst hj
  | closeWait => rfl

end Tcp.Answers

section
variable {s : Reclaiming} {call : SocketCall}

theorem answers_next (h : s.layer.tcp.Answers) (hok : ClosesLast s call) :
    (s.layer.after call).tcp.Answers := by
  cases after_effect s.layer call with
  | nothing _ htcp => exact htcp ▸ h
  | moved j sndNxt rx _ htcp => exact htcp ▸ h.set rfl (h j)
  | @arrived localIp srcIp b _ htcp _ => exact htcp ▸ h.rx localIp b srcIp
  | @listened _ _ localIp n _ _ htcp _ => exact htcp ▸ h.listen localIp _
  | @connected _ _ localIp ip port n _ htcp _ => exact htcp ▸ h.connect localIp ip port
  | accepted n _ htcp => exact htcp ▸ h.accept _
  | closed n hheld htcp =>
    rw [htcp]
    cases hn : s.layer.ref n with
    | none => exact h
    | some j => exact h.close (hok j (by rw [hheld]; exact hn)).1

def Reclaiming.Answered (s : Reclaiming) : Prop :=
  ∀ k, (s.layer.tcp.conns k).active = true → Answering (s.layer.tcp.conns k) (s.peer k)

theorem answered_next (h : s.Answered) (hok : ClosesLast s call) : (reclaimNext s call).Answered := by
  intro k hafter
  have hstate := answers_next (fun j hj => (h j hj).state) hok k hafter
  by_cases htaken : TakenNow s.layer.tcp (s.layer.after call).tcp k
  · have hpeer : (reclaimNext s call).peer k = noHandshake := if_pos htaken
    rw [hpeer]
    exact ⟨hstate, rfl, rfl⟩
  have hbefore : (s.layer.tcp.conns k).active = true := by
    by_contra hfree
    exact htaken ⟨by simpa using hfree, hafter⟩
  have hold := h k hbefore
  have hpeer : (reclaimNext s call).peer k = (s.peer k).noted s.layer k call := if_neg htaken
  rw [hpeer]
  cases call with
  | arrive localIp b srcIp =>
    rw [Handshake.noted]
    split
    next hfor =>
      refine ⟨hstate, ?_, hold.late⟩
      -- an acknowledgement of the FIN would have given the slot back
      rw [Bool.or_eq_false_iff]
      refine ⟨hold.unacked, ?_⟩
      by_contra hacked
      simp only [Bool.not_eq_false, Bool.and_eq_true] at hacked
      have hgone := rx_lastAck localIp hfor.1 (hold.state hacked.1.1) hacked.1.2
      exact absurd (hgone.symm.trans hafter) (by decide)
    · exact ⟨hstate, hold.unacked, hold.late⟩
  | close owner fd =>
    have hsame : (s.peer k).noted s.layer k (.close owner fd) = s.peer k := by
      refine if_neg fun hearly => ?_
      obtain ⟨-, hsent, hreceived⟩ := hok k hearly.1
      exact hearly.2.2.elim hsent hreceived
    rw [hsame]
    exact ⟨hstate, hold.unacked, hold.late⟩
  | _ => exact ⟨hstate, hold.unacked, hold.late⟩

end

theorem slots_reclaimed (w : SocketLayer) (hstart : ∀ k, (w.tcp.conns k).active = false)
    (es : List SocketCall) (s : Reclaiming)
    (hrun : Run reclaimStep ClosesLast ⟨w, fun _ => noHandshake⟩ es s) : Reclaimed s := by
  have hanswered : s.Answered := by
    refine hrun.invariant (I := Reclaiming.Answered) (fun s call s' h hok hstep => ?_) fun k hk => ?_
    · cases hstep
      exact answered_next h hok
    · exact absurd ((hstart k).symm.trans hk) (by decide)
  have hunfinished : ∀ k, (s.layer.tcp.conns k).active = true → ¬(s.peer k).Finished := by
    intro k hk hfinished
    exact absurd ((hanswered k hk).unacked.symm.trans hfinished.1) (by decide)
  refine ⟨fun hfull k => .inr (.inr (hunfinished k ?_)),
    fun k hk _ => ⟨hunfinished k hk, (hanswered k hk).late⟩⟩
  rw [alloc_eq, map_eq_none_iff, Tcp.idle, Fin.find?_eq_none_iff] at hfull
  simpa using hfull k

/-- A server closes after its client did. -/
theorem closed_server_slot_back : ∃ s, Run reclaimStep ClosesLast ⟨quiet.layer, fun _ => noHandshake⟩
    [.create 9 1, .bind 9 0x1000 80 0, .listen 9 0x1000 5, .arrive 5 (fromPeer 6000 tcpSyn []) 7,
      .arrive 5 (fromPeer 6001 tcpAck []) 7, .accept 9 0x1000,
      .arrive 5 (fromPeer 6001 (tcpFin ||| tcpAck) []) 7, .close 9 0x1001,
      .arrive 5 (fromPeer 6002 tcpAck []) 7] s ∧
    (s.layer.tcp.conns 1).active = false ∧ Reclaimed s := by
  refine Run.exists_of_execute_imp (P := fun s => (s.layer.tcp.conns 1).active = false)
    (fun s hrun hend => ⟨hend, ?_⟩) (by decide +kernel)
  exact slots_reclaimed _ (fun _ => rfl) _ s hrun

/-! A connection closed from this side first. -/

/-- Closed on both sides, and no socket left to give the slot back. -/
structure Stuck (w : SocketLayer) (k : Fin 128) : Prop where
  active : (w.tcp.conns k).active = true
  waiting : (w.tcp.conns k).state = .timeWait
  unheld : ∀ n, w.ref n ≠ some k

theorem Reaction.not_timeWait (h : Reaction g b c c' acked) : c.state ≠ .timeWait := by
  intro hs
  cases h with
  | fin _ hnext =>
    rw [hs] at hnext
    cases hnext
  | connected h | confirmed h | data h | noted h | finAcked h | gone h =>
    rw [hs] at h
    cases h

section
variable {w w' : SocketLayer} {k j : Fin 128}

theorem Stuck.other (h : Stuck w k) (ht : t.conns = w.tcp.conns)
    (htcp : w'.tcp = t.set j c) (hj : j ≠ k) (href : ∀ n, w'.ref n = some k → w.ref n = some k) :
    Stuck w' k := by
  have hconn : w'.tcp.conns k = w.tcp.conns k := by rw [htcp, set_other _ hj.symm, ht]
  exact ⟨hconn ▸ h.active, hconn ▸ h.waiting, fun n hn => h.unheld n (href n hn)⟩

theorem ref_update {ref : Fin 64 → Option (Fin 128)} {o : Option (Fin 128)} {n : Fin 64}
    (ho : o ≠ some k) : ∀ m, update ref n o m = some k → ref m = some k := by
  intro m hm
  by_cases hmn : m = n
  · rw [hmn, update_self] at hm
    exact absurd hm ho
  · rwa [update_of_ne hmn] at hm

theorem Stuck.same (h : Stuck w k) (htcp : w'.tcp = w.tcp)
    (href : ∀ n, w'.ref n = some k → w.ref n = some k) : Stuck w' k :=
  ⟨htcp ▸ h.active, htcp ▸ h.waiting, fun n hn => h.unheld n (href n hn)⟩

theorem Stuck.not_idle (h : Stuck w k) (hj : w.tcp.idle = some j) : j ≠ k := by
  rintro rfl
  exact absurd ((idle_inactive hj).symm.trans h.active) (by decide)

theorem connOf_ne (hj : j ≠ k) : connOf (j.val : Int) ≠ some k := by
  intro hk
  rw [connOf_val] at hk
  exact hj (some.inj hk)

theorem Stuck.after (h : Stuck w k) (call : SocketCall) : Stuck (w.after call) k := by
  have heffect := after_effect w call
  generalize w.after call = w' at heffect
  cases heffect with
  | nothing _ htcp href => exact h.same htcp fun n hn => href ▸ hn
  | moved j sndNxt rx _ htcp href =>
    by_cases hj : j = k
    · subst hj
      refine ⟨?_, ?_, fun n hn => h.unheld n (href ▸ hn)⟩ <;> rw [htcp, set_self]
      · exact h.active
      · exact h.waiting
    · exact h.other rfl htcp hj fun n hn => href ▸ hn
  | @arrived localIp srcIp b _ htcp href =>
    rcases rx_cases w.tcp localIp b srcIp with
      heq | ⟨l, j, -, -, -, hfree, heq⟩ | ⟨j, c, acked, -, -, hreaction, heq⟩ <;> rw [heq] at htcp
    · exact h.same htcp fun n hn => href ▸ hn
    · exact h.other rfl htcp (h.not_idle hfree) fun n hn => href ▸ hn
    · refine h.other rfl htcp ?_ fun n hn => href ▸ hn
      rintro rfl
      exact hreaction.not_timeWait h.waiting
  | @listened _ _ localIp n _ _ htcp href =>
    rcases listen_cases w.tcp localIp (w.sockets n).localPort with ⟨-, heq⟩ | ⟨j, hfree, heq⟩
    · rw [heq] at htcp href
      exact h.same htcp (href ▸ ref_update (by simp [connOf]))
    · rw [heq] at htcp href
      exact h.other rfl htcp (h.not_idle hfree) (href ▸ ref_update (connOf_ne (h.not_idle hfree)))
  | @connected _ _ localIp ip port n _ htcp href =>
    rcases connect_cases w.tcp localIp ip port with ⟨-, heq⟩ | ⟨j, hfree, hid, heq⟩
    · rw [heq] at htcp href
      exact h.same htcp (href ▸ ref_update (by simp [connOf]))
    · rw [hid] at href
      exact h.other (t := { w.tcp with nextEphemeralPort := w.tcp.nextEphemeralPort + 1 }) rfl
        (htcp.trans heq) (h.not_idle hfree) (href ▸ ref_update (connOf_ne (h.not_idle hfree)))
  | accepted n _ htcp href =>
    rcases accept_cases w.tcp (w.sockets n).transportId with
      heq | ⟨l, j, -, -, -, -, hstate, -, -, heq⟩
    · rw [heq] at htcp href
      rcases href with href | ⟨m, href⟩
      · exact h.same htcp fun n hn => href ▸ hn
      · exact h.same htcp (href ▸ ref_update (by simp [connOf]))
    have hj : j ≠ k := by
      rintro rfl
      exact absurd (hstate.symm.trans h.waiting) (by decide)
    rw [heq] at htcp href
    rcases href with href | ⟨m, href⟩
    · exact h.other rfl htcp hj fun n hn => href ▸ hn
    · exact h.other rfl htcp hj (href ▸ ref_update (connOf_ne hj))
  | closed n _ htcp href =>
    have hsub : ∀ m, w'.ref m = some k → w.ref m = some k := href ▸ ref_update (by simp)
    cases hn : w.ref n with
    | none =>
      rw [hn] at htcp
      exact h.same htcp hsub
    | some j =>
      have hj : j ≠ k := by
        rintro rfl
        exact h.unheld n hn
      rw [hn, elim_some] at htcp
      rcases close_cases w.tcp j with heq | ⟨-, -, heq⟩ | ⟨next, -, -, heq⟩ <;> rw [heq] at htcp
      · exact h.same htcp hsub
      · exact h.other rfl htcp hj hsub
      · exact h.other rfl htcp hj hsub

end

theorem Handshake.Finished.noted {h : Handshake} (hf : h.Finished) (w : SocketLayer) (k : Fin 128)
    (call : SocketCall) : (h.noted w k call).Finished := by
  cases call with
  | arrive localIp b srcIp =>
    rw [Handshake.noted]
    split
    · exact ⟨Bool.or_eq_true_iff.mpr (.inl hf.1), Bool.or_eq_true_iff.mpr (.inl hf.2)⟩
    · exact hf
  | close owner fd =>
    rw [Handshake.noted]
    split <;> exact hf
  | _ => exact hf

theorem Stuck.run {s' : Reclaiming} {es : List SocketCall}
    (hrun : Run reclaimStep (fun _ _ => True) s es s')
    (h : Stuck s.layer k ∧ (s.peer k).Finished) : Stuck s'.layer k ∧ (s'.peer k).Finished := by
  refine hrun.invariant (I := fun s => Stuck s.layer k ∧ (s.peer k).Finished)
    (fun s call s' h _ hstep => ?_) h
  cases hstep
  have hpeer : (reclaimNext s call).peer k = (s.peer k).noted s.layer k call :=
    if_neg fun htaken => absurd (htaken.1.symm.trans h.1.active) (by decide)
  exact ⟨h.1.after call, hpeer ▸ h.2.noted s.layer k call⟩

theorem Stuck.not_reclaimed (h : Stuck s.layer k)
    (hf : (s.peer k).Finished) : ¬Reclaimed s := fun hr =>
  (hr.gone k h.active fun ⟨n, hn⟩ => h.unheld n hn).1 hf

def listenFirst : SocketCall := .listen 9 socketFdBase 5

/-- A client that closes first, and a server that opens a socket then. -/
def clientThenServer : List SocketCall :=
  [.create 8 1, .connect 8 0x1000 5 7 4000,
    .arrive 5 (.ofSegment { peerConn with remotePort := 49152, sndNxt := 6000, rcvNxt := 5001 }
      (tcpSyn ||| tcpAck) []) 7, .close 8 0x1000,
    .arrive 5 (.ofSegment { peerConn with remotePort := 49152, rcvNxt := 5002 }
      (tcpFin ||| tcpAck) []) 7, .create 9 1, .bind 9 0x1000 80 0]

/-- The client closes, the peer acknowledges and closes too: the slot is never given back, also
when no other is left. A connection closed before it was established stays as well. -/
theorem finished_connection_keeps_slot :
    (∃ es s, Run reclaimStep (fun _ _ => True) ⟨quiet.layer, fun _ => noHandshake⟩
        (clientThenServer ++ es) s ∧
      s.layer.tcp.alloc = none ∧ (s.layer.tcp.conns 0).state ≠ .listen ∧ ¬s.layer.Held 0 ∧
      (s.peer 0).Finished ∧ ¬Reclaimed s ∧
      ∀ es' s', Run reclaimStep (fun _ _ => True) s es' s' →
        (s'.layer.tcp.conns 0).active = true ∧ ¬s'.layer.Held 0 ∧ (s'.peer 0).Finished) ∧
    ∃ s, Run reclaimStep (fun _ _ => True) ⟨quiet.layer, fun _ => noHandshake⟩
      [.create 8 1, .connect 8 0x1000 5 7 4000, .close 8 0x1000] s ∧
      (s.layer.tcp.conns 0).active = true ∧ ¬s.layer.Held 0 ∧ (s.peer 0).closedEarly = true ∧
      ¬Reclaimed s := by
  constructor
  · -- the server's socket listens until every other slot is taken
    obtain ⟨s, hrun, ⟨hactive, hstate, hunheld⟩, hfinished, hfull⟩ :
        ∃ s, Run reclaimStep (fun _ _ => True) ⟨quiet.layer, fun _ => noHandshake⟩
          (clientThenServer ++ .replicate 127 listenFirst) s ∧
        ((s.layer.tcp.conns 0).active = true ∧ (s.layer.tcp.conns 0).state = .timeWait ∧
          ∀ n, s.layer.ref n ≠ some 0) ∧ ((s.peer 0).finAcked = true ∧ (s.peer 0).finSeen = true) ∧
        s.layer.tcp.alloc = none :=
      Run.exists_of_execute (by decide +kernel)
    have hstuck : Stuck s.layer 0 := ⟨hactive, hstate, hunheld⟩
    refine ⟨_, s, hrun, hfull, by simp [hstate], fun ⟨n, hn⟩ => hunheld n hn, hfinished,
      hstuck.not_reclaimed hfinished, fun es' t hmore => ?_⟩
    obtain ⟨hstuck', hdone'⟩ := Stuck.run hmore ⟨hstuck, hfinished⟩
    exact ⟨hstuck'.active, fun ⟨n, hn⟩ => hstuck'.unheld n hn, hdone'⟩
  · refine Run.exists_of_execute_imp (P := fun s => (s.layer.tcp.conns 0).active = true ∧
      (∀ n, s.layer.ref n ≠ some 0) ∧ (s.peer 0).closedEarly = true) (fun s _ hend => ?_)
      (by decide +kernel)
    obtain ⟨hactive, hunheld, hearly⟩ := hend
    have hnot : ¬s.layer.Held 0 := fun ⟨n, hn⟩ => hunheld n hn
    refine ⟨hactive, hnot, hearly, fun h => ?_⟩
    exact absurd (hearly.symm.trans (h.gone 0 hactive hnot).2) (by decide)

end AegisOS.Net
