import AegisOS.NatRoundTrip

/-! Room in the tables of the network stack: what deleting gives back of the rule and route
tables, and what cleaning up gives back of the translation and tracking tables. -/
namespace AegisOS.Net
open Scan GuardedRun List Nat

/-! Rules and routes. -/

inductive RuleCall
  | add (rule : FwRule)
  | del (ruleId : Nat)

def ruleStep (fw : Firewall) : RuleCall → Option Firewall
  | .add rule => some (firewallAddRule fw rule).1
  | .del ruleId => some (firewallDelRule fw ruleId).1

def RuleCall.Removes (fw : Firewall) : RuleCall → Prop
  | .add _ => False
  | .del ruleId => ruleId < fw.ruleCount ∧ ∃ r ∈ fw.rules, r.1 = ruleId

inductive RouteCall
  | add (route : Route)
  | del (network netmask : UInt32)

def routeStep (t : RouteTable) : RouteCall → Option RouteTable
  | .add route => some (routingAdd t route).1
  | .del network netmask => some (routingDel t network netmask).1

def RouteCall.Removes (t : RouteTable) : RouteCall → Prop
  | .add _ => False
  | .del network netmask => ∃ r ∈ t.routes, r.network = network ∧ r.netmask = netmask

section
variable {fw fw' : Firewall} {t t' : RouteTable}

theorem rule_level (c : RuleCall) (h : ruleStep fw c = some fw') :
    (c.Removes fw ∧ (fw.ruleCount - fw.rules.length : Int) < fw'.ruleCount - fw'.rules.length) ∨
      ¬c.Removes fw ∧
        (fw'.ruleCount - fw'.rules.length : Int) = fw.ruleCount - fw.rules.length := by
  cases c with
  | add rule =>
    cases h
    refine .inr ⟨id, ?_⟩
    rw [firewallAddRule]
    split
    · rfl
    · simp
  | del ruleId =>
    cases h
    rw [firewallDelRule]
    by_cases hid : fw.ruleCount ≤ ruleId
    · rw [if_pos hid]
      exact .inr ⟨fun h => absurd h.1 (by omega), rfl⟩
    rw [if_neg hid]
    by_cases hmem : ∃ r ∈ fw.rules, r.1 = ruleId
    · have hshort : (fw.rules.filter fun r => r.1 != ruleId).length < fw.rules.length := by
        simpa using hmem
      refine .inl ⟨⟨by omega, hmem⟩, ?_⟩
      dsimp only
      omega
    · have hsame : fw.rules.filter (fun r => r.1 != ruleId) = fw.rules :=
        filter_eq_self.mpr fun r hr => bne_iff_ne.mpr fun h => hmem ⟨r, hr, h⟩
      refine .inr ⟨fun h => hmem h.2, ?_⟩
      rw [hsame]

theorem route_level (c : RouteCall) (h : routeStep t c = some t') :
    (c.Removes t ∧ (t.routeCount - t.routes.length : Int) < t'.routeCount - t'.routes.length) ∨
      ¬c.Removes t ∧ (t'.routeCount - t'.routes.length : Int) = t.routeCount - t.routes.length := by
  cases c with
  | add route =>
    cases h
    refine .inr ⟨id, ?_⟩
    unfold routingAdd
    split
    · rfl
    · split <;> simp
  | del network netmask =>
    cases h
    unfold routingDel
    split
    next k hk =>
      obtain ⟨hlt, htest, -⟩ := findIdx?_eq_some_iff_getElem.mp hk
      have hshort := length_eraseIdx_of_lt hlt
      refine .inl ⟨⟨_, getElem_mem hlt, by simpa using htest⟩, ?_⟩
      dsimp only
      omega
    next hnone =>
      refine .inr ⟨?_, rfl⟩
      rintro ⟨r, hr, hsame⟩
      have hno := findIdx?_eq_none_iff.mp hnone r hr
      simp [hsame] at hno

end

/-- The count is the length of the list, and a list that is not full takes another entry, exactly
after the series of additions and deletions in which no deletion found its rule or route. -/
theorem room_iff_none_removed (fw fw' : Firewall) (t t' : RouteTable) (rs : List RuleCall)
    (cs : List RouteCall) (hfw : fw.rules = [] ∧ fw.ruleCount = 0)
    (ht : t.routes = [] ∧ t.routeCount = 0) (hrules : Run ruleStep anyEvent fw rs fw')
    (hroutes : Run routeStep anyEvent t cs t') :
    (((fw'.rules.length < 256 → ∀ r, (firewallAddRule fw' r).2 = 0) ∧
        fw'.ruleCount = fw'.rules.length) ↔
      Run ruleStep (fun fw c => ¬c.Removes fw) fw rs fw') ∧
    (((t'.routes.length < 128 → ∀ r, (routingAdd t' r).2 = 0) ∧ t'.routeCount = t'.routes.length) ↔
      Run routeStep (fun t c => ¬c.Removes t) t cs t') := by
  have hlevel := (hrules.level_iff fun s c s' => rule_level c).2
  have hlevel' := (hroutes.level_iff fun s c s' => route_level c).2
  simp only [hfw, ht, length_nil] at hlevel hlevel'
  rw [← hlevel, ← hlevel']
  refine ⟨⟨fun h => by omega, fun h => ⟨fun hlen r => ?_, by omega⟩⟩,
    ⟨fun h => by omega, fun h => ⟨fun hlen r => ?_, by omega⟩⟩⟩
  · rw [firewallAddRule, if_neg (by unfold fwMaxRules; omega)]
  · rw [routingAdd, if_neg (by unfold routeMaxEntries; omega)]
    split <;> rfl

def noRules : Firewall := ⟨[], 0, fun _ => ⟨⟨0, 0, 0, 0, 0⟩, 0, 0, false⟩, .drop, true⟩

def acceptAll : FwRule := ⟨0, 0, 0, 0, 0, 0, 0, .accept⟩

/-- Two rules and two routes, with a deletion between them that finds nothing. -/
def twoRules : List RuleCall := [.add acceptAll, .del 7, .add acceptAll]
def twoRoutes : List RouteCall := [.add ⟨0, 0, 0, 0, 0⟩, .del 7 7, .add ⟨1, 1, 0, 0, 0⟩]

theorem room_after_adding : ∃ fw t, Run ruleStep anyEvent noRules twoRules fw ∧
    Run routeStep anyEvent ⟨[], 0⟩ twoRoutes t ∧
    ((fw.rules.length < 256 → ∀ r, (firewallAddRule fw r).2 = 0) ∧ fw.ruleCount = 2) ∧
    ((t.routes.length < 128 → ∀ r, (routingAdd t r).2 = 0) ∧ t.routeCount = 2) := by
  have hrules : Run ruleStep (fun fw c => ¬c.Removes fw) noRules twoRules _ :=
    .cons id rfl (.cons (fun h => absurd h.1 (by decide)) rfl (.single id rfl))
  have hroutes : Run routeStep (fun t c => ¬c.Removes t) ⟨[], 0⟩ twoRoutes _ :=
    .cons id rfl (.cons (fun ⟨r, hr, h⟩ => by simp_all [routingAdd, routeMaxEntries]) rfl
      (.single id rfl))
  have hany : Run ruleStep anyEvent noRules twoRules _ := hrules.mono fun _ _ _ => trivial
  have hany' : Run routeStep anyEvent ⟨[], 0⟩ twoRoutes _ := hroutes.mono fun _ _ _ => trivial
  obtain ⟨hfw, ht⟩ := room_iff_none_removed _ _ _ _ _ _ ⟨rfl, rfl⟩ ⟨rfl, rfl⟩ hany hany'
  exact ⟨_, _, hany, hany', hfw.mpr hrules, ht.mpr hroutes⟩

theorem added_and_deleted (n : Nat) (h : n ≤ 256) (rule : FwRule) : ∃ rs fw,
    Run ruleStep anyEvent noRules rs fw ∧ fw.rules = [] ∧ fw.ruleCount = n := by
  induction n with
  | zero => exact ⟨[], noRules, .nil _, rfl, rfl⟩
  | succ n ih =>
    obtain ⟨rs, fw, hrun, hnone, rfl⟩ := ih (by omega)
    have hroom : ¬fwMaxRules ≤ fw.ruleCount := by
      unfold fwMaxRules
      omega
    have hpair : Run ruleStep anyEvent fw [.add rule, .del fw.ruleCount] _ :=
      .cons trivial rfl (.single trivial rfl)
    refine ⟨_, _, hrun.append hpair, ?_⟩
    simp [firewallAddRule, firewallDelRule, hroom, hnone]

/-- After 256 rules that were added and deleted again the list is empty, and takes no rule. -/
theorem empty_list_without_room : ∃ rs fw, Run ruleStep anyEvent noRules rs fw ∧ fw.rules = [] ∧
    fw.ruleCount = 256 ∧ ∀ r, (firewallAddRule fw r).2 = -1 := by
  obtain ⟨rs, fw, hrun, hnone, hcount⟩ := added_and_deleted 256 le_rfl ⟨0, 0, 0, 0, 0, 0, 0, .drop⟩
  refine ⟨rs, fw, hrun, hnone, hcount, fun r => ?_⟩
  rw [firewallAddRule, if_pos (show fwMaxRules ≤ fw.ruleCount from hcount.ge)]

/-! Translations and tracked connections. -/

def firewallInit (fw : Firewall) : Firewall :=
  { rules := [], ruleCount := 0, defaultPolicy := .drop, enabled := true
    connTable := fun i => { fw.connTable i with active := false } }

def firewallCtCleanup (fw : Firewall) (maxAge : UInt32) : Firewall :=
  { fw with connTable := fun i =>
      let ct := fw.connTable i
      if ct.active && maxAge < ct.lastSeen then { ct with active := false } else ct }

inductive FwEvent
  | init
  | setDefaultPolicy (policy : FwAction)
  | enable (on : Bool)
  | check (b : Pktbuf)
  | rule (call : RuleCall)
  | flushRules
  | ctCleanup (maxAge : UInt32)

def fwStep (fw : Firewall) : FwEvent → Option Firewall
  | .init => some (firewallInit fw)
  | .setDefaultPolicy policy => some { fw with defaultPolicy := policy }
  | .enable on => some { fw with enabled := on }
  | .check b => some (firewallCheck fw b).1
  | .rule call => ruleStep fw call
  | .flushRules => some (firewallFlushRules fw)
  | .ctCleanup maxAge => some (firewallCtCleanup fw maxAge)

def Firewall.Unseen (fw : Firewall) : Prop := ∀ i, (fw.connTable i).lastSeen = 0

section
variable {fw fw' : Firewall}

section
variable (h : fw.Unseen)
include h

theorem Firewall.Unseen.update {i : Fin 4096} {ct : ConnTrack} (hct : ct.lastSeen = 0) :
    Firewall.Unseen { fw with connTable := Function.update fw.connTable i ct } := by
  intro j
  by_cases hj : j = i
  · subst hj
    simpa using hct
  · simpa [hj] using h j

theorem Firewall.Unseen.evaluateRules (f : Flow) (tracked : Bool) :
    (Net.evaluateRules fw f tracked).1.Unseen := by
  unfold Net.evaluateRules
  split
  · split
    · unfold ctCreate
      split
      · exact h.update (h _)
      · exact h
    · exact h
  · exact h

theorem Firewall.Unseen.cleanup (maxAge : UInt32) : firewallCtCleanup fw maxAge = fw := by
  have hzero : ¬maxAge < 0 := UInt32.not_lt_zero
  simp [firewallCtCleanup, h _]

theorem Firewall.Unseen.step (e : FwEvent) (hs : fwStep fw e = some fw') : fw'.Unseen := by
  cases e with
  | init | setDefaultPolicy | enable | flushRules =>
    cases hs
    exact h
  | check b =>
    cases hs
    unfold firewallCheck
    split
    · exact h
    split
    · exact h
    dsimp only
    split
    · split
      · exact h.update rfl
      · exact h.evaluateRules _ _
    · exact h.evaluateRules _ _
  | rule call =>
    cases call with
    | add rule =>
      cases hs
      unfold firewallAddRule
      split <;> exact h
    | del ruleId =>
      cases hs
      unfold firewallDelRule
      split <;> exact h
  | ctCleanup maxAge =>
    cases hs
    rw [h.cleanup]
    exact h

end

end

/-- However often the translations and the tracked connections are cleaned up and for whatever age,
there is room after it exactly where there was room before. -/
theorem cleanup_room_iff (ns : List NatEvent) (s : NatState) (es : List FwEvent) (fw : Firewall)
    (hs : Run natStep anyEvent .boot ns s) (hfw : Run fwStep anyEvent noRules es fw) :
    ((∃ maxAge n, (natAllocEntry ((natCleanup · maxAge)^[n] s)).isSome) ↔
      ∃ i, (s.natTable i).active = false) ∧
    ((∃ maxAge n, (ctFree ((firewallCtCleanup · maxAge)^[n] fw).connTable).isSome) ↔
      ∃ i, (fw.connTable i).active = false) := by
  have hunseen : fw.Unseen :=
    hfw.invariant (I := Firewall.Unseen) (fun s e s' h _ hstep => h.step e hstep) fun _ => rfl
  have hnat : ∀ maxAge n, (natCleanup · maxAge)^[n] s = s := fun maxAge =>
    Function.iterate_fixed (cleanup_same (run_young hs).1 maxAge)
  have hct : ∀ maxAge n, (firewallCtCleanup · maxAge)^[n] fw = fw := fun maxAge =>
    Function.iterate_fixed (hunseen.cleanup maxAge)
  simp only [hnat, hct, exists_const, Option.isSome_iff_ne_none, natAllocEntry, ctFree, ne_eq,
    scan_eq_none, not_forall, Bool.not_eq_false, Bool.not_eq_true', and_self]

/-- A packet of the inside host 10.0.0.2 from the port `sport`. -/
def hostPacket (sport : UInt16) : Pktbuf :=
  (portPacket 0x0200000A 0x08080808 0 53).store 20 (portBytes sport)

theorem hostPacket_port (sport : UInt16) : (hostPacket sport).natFlow.internalPort = sport := by
  have htransport : (hostPacket sport).transport = 20 := by
    exact (by decide : 0 + (portPacket 0x0200000A 0x08080808 0 53).ihl = 20)
  rw [Pktbuf.natFlow, htransport]
  exact portAt_portBytes _ _ sport

/-- Flows from different ports of one host fill the table from its start. -/
theorem flows_fill (k : Nat) (hk : k ≤ 4096) : ∃ es s start rank,
    Run natStep anyEvent .boot es s ∧ s.natEnabled = true ∧ Issued start s k k rank ∧
      ∀ i, (s.natTable i).active = true → (s.natTable i).internalPort.toNat < k := by
  induction k with
  | zero =>
    have hrun : Run natStep anyEvent .boot [.init, .enable 0x05040302] _ :=
      .cons trivial rfl (.single trivial rfl)
    refine ⟨_, _, 10000, fun _ => 0, hrun, rfl,
      ⟨by decide, fun _ => rfl, ?_, by decide, rfl, ?_, ?_⟩, ?_⟩
    · exact fun i => ⟨nofun, nofun⟩
    · exact fun i hi => nomatch hi.1
    · exact fun i j hi => nomatch hi.1
    · exact fun i => nofun
  | succ k ih =>
    obtain ⟨es, s, start, rank, hrun, hon, hissued, hports⟩ := ih (by omega)
    have hsport : (UInt16.ofNat k).toNat = k := by rw [UInt16.toNat_ofNat', mod_eq_of_lt (by omega)]
    have hfind : natFindOutbound s (hostPacket (.ofNat k)).natFlow = none := by
      cases h : natFindOutbound s (hostPacket (.ofNat k)).natFlow with
      | none => rfl
      | some i =>
        obtain ⟨hactive, hflow⟩ := found_flow h
        have hport : (s.natTable i).internalPort = .ofNat k :=
          (congrArg NatFlow.internalPort hflow).trans (hostPacket_port _)
        have hlt := hports i hactive
        rw [hport, hsport] at hlt
        exact absurd hlt (lt_irrefl k)
    cases hfree : natAllocEntry s with
    | none =>
      have hfull := scan_eq_none.mp hfree ⟨k, by omega⟩
      have hlt := (hissued.filled ⟨k, by omega⟩).mp (by simpa using hfull)
      exact absurd hlt (lt_irrefl k)
    | some i =>
      have hopen : ¬(s.natEnabled = false ∨ (hostPacket (.ofNat k)).len < 24) := by
        rw [hon]
        exact (by decide : ¬(true = false ∨ 24 < 24))
      have hcall := outbound_new 0x05040302 hopen hfind hfree
      rw [opened_seen hissued.unseen] at hcall
      have hstep : natStep s (.outbound (hostPacket (.ofNat k)) 0x05040302) =
          some (s.opened i (hostPacket (.ofNat k)).natFlow 0x05040302) := by
        rw [natStep, natPerform, hcall]
      refine ⟨_, _, start, _, hrun.append (.single trivial hstep), hon, hissued.opened hfree _ _,
        fun j hj => ?_⟩
      by_cases hji : j = i
      · subst hji
        rw [opened_self]
        show ((hostPacket (.ofNat k)).natFlow.internalPort).toNat < k + 1
        rw [hostPacket_port, hsport]
        exact lt_succ_self k
      · rw [opened_ne hji] at hj ⊢
        exact (hports j hj).trans (lt_succ_self k)

/-- A packet that a rule accepts takes the first entry of an empty table. -/
theorem tracked_first : let fw := (firewallAddRule noRules acceptAll).1
    ∃ ct, (firewallCheck fw (hostPacket 7)).1.connTable = Function.update noRules.connTable 0 ct ∧
      ct.active = true := by
  intro fw
  have hlookup (f : Flow) : ctLookup fw f = none := scan_eq_none.mpr fun _ => rfl
  have hfree : ctFree fw.connTable = some 0 :=
    scan_eq_some.mpr ⟨rfl, fun j hj => absurd hj (Fin.not_lt_zero j)⟩
  rw [firewallCheck, if_neg (by exact Bool.false_ne_true), if_neg (by decide)]
  simp only [hlookup]
  change ∃ ct, (ctCreate fw _).connTable = _ ∧ _
  rw [ctCreate, hfree]
  exact ⟨_, rfl, rfl⟩

/-- Two flows and a connection leave room. -/
theorem room_beside_entries : ∃ es s fs fw, Run natStep anyEvent .boot es s ∧
    Run fwStep anyEvent noRules fs fw ∧
    (s.natTable 1).active = true ∧ (fw.connTable 0).active = true ∧
    (∃ maxAge n, (natAllocEntry ((natCleanup · maxAge)^[n] s)).isSome) ∧
      ∃ maxAge n, (ctFree ((firewallCtCleanup · maxAge)^[n] fw).connTable).isSome := by
  obtain ⟨es, s, _, _, hs, -, hissued, -⟩ := flows_fill 2 (by decide)
  have hfw : Run fwStep anyEvent noRules [.rule (.add acceptAll), .check (hostPacket 7)] _ :=
    .cons trivial rfl (.single trivial rfl)
  obtain ⟨ct, htable, hct⟩ := tracked_first
  have hroom := cleanup_room_iff _ _ _ _ hs hfw
  refine ⟨es, s, _, _, hs, hfw, (hissued.filled 1).mpr (by decide), ?_, hroom.1.mpr ⟨2, ?_⟩,
    hroom.2.mpr ⟨1, ?_⟩⟩
  · rw [htable, Function.update_self, hct]
  · exact Bool.eq_false_iff.mpr fun h => absurd ((hissued.filled 2).mp h) (by decide)
  · rw [htable]
    rfl

/-- A table full of idle flows that no cleaning up empties. -/
theorem full_table_never_reclaimed : ∃ es s, Run natStep anyEvent .boot es s ∧
    ∀ maxAge n, natAllocEntry ((natCleanup · maxAge)^[n] s) = none := by
  obtain ⟨es, s, start, rank, hrun, -, hissued, -⟩ := flows_fill 4096 le_rfl
  refine ⟨es, s, hrun, fun maxAge n => ?_⟩
  rw [Function.iterate_fixed (cleanup_same hissued.unseen maxAge), natAllocEntry, scan_eq_none]
  intro i
  simpa using (hissued.filled i).mpr i.isLt

/-! Port forwarding (`nat_add_port_forward`) as inbound packets find it. -/

/-- What `nat_find_inbound` compares. -/
def NatEntry.Answers (e : NatEntry) (port : UInt16) (src : UInt32) (sport : UInt16)
    (proto : UInt8) : Prop :=
  e.active = true ∧ e.externalPort = port ∧ e.remoteIp = src ∧ e.remotePort = sport ∧
    e.protocol = proto

/-- The entry is a forward: it has the remote side that stands for any source. -/
def NatEntry.Static (e : NatEntry) : Prop := e.remoteIp = 0 ∧ e.remotePort = 0

/-- A forward of the port that comes before the entry a new one gets, and leads elsewhere. -/
def NatState.Shadowed (s : NatState) (port : UInt16) (ip : UInt32) (q : UInt16) (proto : UInt8) :
    Prop :=
  ∃ i j, natAllocEntry s = some i ∧ natFindInbound s port 0 0 proto = some j ∧ j < i ∧
    ((s.natTable j).internalIp ≠ ip ∨ (s.natTable j).internalPort ≠ q)

section
variable {s t : NatState} {i k : Fin 4096} {src externalIp ip : UInt32} {sport port q : UInt16}
  {proto : UInt8}

theorem find_some : natFindInbound s port src sport proto = some k ↔
    (s.natTable k).Answers port src sport proto ∧
      ∀ j < k, ¬(s.natTable j).Answers port src sport proto := by
  simp only [natFindInbound, scan_eq_some, NatEntry.Answers, ← Bool.not_eq_true, Bool.and_eq_true,
    beq_iff_eq, and_assoc]

theorem forward_added (h : natAddPortForward s externalIp port ip q proto = (t, 0)) :
    ∃ i e, natAllocEntry s = some i ∧ t = s.setEntry i e ∧ e.Answers port 0 0 proto ∧
      e.internalIp = ip ∧ e.internalPort = q := by
  unfold natAddPortForward at h
  cases hfree : natAllocEntry s with
  | none => simp [hfree] at h
  | some i =>
    simp only [hfree, Prod.mk.injEq, and_true] at h
    exact ⟨i, _, rfl, h.symm, ⟨rfl, rfl, rfl, rfl, rfl⟩, rfl, rfl⟩

/-- A source without a mapping finds the new forward or one before it, and only from 0.0.0.0:0. -/
theorem find_added {e : NatEntry} (hfree : natAllocEntry s = some i)
    (he : e.Answers port 0 0 proto)
    (hnew : ∀ j, (s.natTable j).Answers port src sport proto → (s.natTable j).Static)
    (h : natFindInbound (s.setEntry i e) port src sport proto = some k) :
    (src = 0 ∧ sport = 0) ∧ (k = i ∨ k < i ∧ natFindInbound s port 0 0 proto = some k) := by
  obtain ⟨hk, hbefore⟩ := find_some.mp h
  by_cases hki : k = i
  · subst hki
    rw [setEntry_self] at hk
    exact ⟨⟨hk.2.2.1.symm.trans he.2.2.1, hk.2.2.2.1.symm.trans he.2.2.2.1⟩, .inl rfl⟩
  rw [setEntry_ne hki] at hk
  obtain ⟨hip, hport⟩ := hnew k hk
  obtain rfl : src = 0 := hk.2.2.1.symm.trans hip
  obtain rfl : sport = 0 := hk.2.2.2.1.symm.trans hport
  have hlt : k < i := by
    refine lt_of_le_of_ne (not_lt.mp fun hlt => hbefore i hlt ?_) hki
    rwa [setEntry_self]
  refine ⟨⟨rfl, rfl⟩, .inr ⟨hlt, find_some.mpr ⟨hk, fun j hj => ?_⟩⟩⟩
  rw [← setEntry_ne (hj.trans hlt).ne s e]
  exact hbefore j hj

theorem rewritten_iff {b : Pktbuf} (h : 20 ≤ b.ihl) {dst : UInt32} {dport : UInt16} :
    b.Readdressed (natRewriteInbound b dst dport) ip q ↔ dst = ip ∧ dport = q := by
  have hsent := rewriteInbound_readdressed h dst dport
  constructor
  · exact fun h => ⟨hsent.address.symm.trans h.address, hsent.port.symm.trans h.port⟩
  · rintro ⟨rfl, rfl⟩
    exact hsent

theorem leads_iff {e : NatEntry} (hfree : natAllocEntry s = some i)
    (hfind : natFindInbound (s.setEntry i e) port 0 0 proto = some k)
    (hk : k = i ∨ k < i ∧ natFindInbound s port 0 0 proto = some k) :
    (((s.setEntry i e).natTable k).internalIp = e.internalIp ∧
      ((s.setEntry i e).natTable k).internalPort = e.internalPort) ↔
      ¬s.Shadowed port e.internalIp e.internalPort proto := by
  constructor
  · rintro ⟨hip, hq⟩ ⟨i', j, hi', hj, hlt, hother⟩
    obtain rfl : i = i' := Option.some.inj (hfree.symm.trans hi')
    obtain ⟨hjanswers, hjfirst⟩ := find_some.mp hj
    obtain rfl : k = j := by
      refine Option.some.inj (hfind.symm.trans (find_some.mpr ⟨?_, fun l hl => ?_⟩))
      · rwa [setEntry_ne hlt.ne]
      · rw [setEntry_ne (hl.trans hlt).ne]
        exact hjfirst l hl
    rw [setEntry_ne hlt.ne] at hip hq
    exact hother.elim (fun h => h hip) (fun h => h hq)
  · intro hshadow
    rcases hk with rfl | ⟨hlt, hj⟩
    · rw [setEntry_self]
      exact ⟨rfl, rfl⟩
    · rw [setEntry_ne hlt.ne]
      by_contra hother
      exact hshadow ⟨i, k, hfree, hj, hlt, not_and_or.mp hother⟩

end

/-- A packet to a forwarded port, from a source without a mapping of its own, is sent on to the host
behind the port exactly when translation is on, the source is 0.0.0.0 with port 0, and no earlier
forward of the port leads elsewhere. -/
theorem forward_reaches_host_iff (s t : NatState) (externalIp internalIp : UInt32) (p q : UInt16)
    (proto : UInt8) (pkt : Pktbuf)
    (hadd : natAddPortForward s externalIp p internalIp q proto = (t, 0))
    (hformed : pkt.WellFormed) (hproto : pkt.data (pkt.head + 9) = proto)
    (hport : portAt pkt.data (pkt.transport + 2) = p)
    (hnew : ∀ j, (s.natTable j).Answers p (loadU32 pkt.data (pkt.head + 12))
      (portAt pkt.data pkt.transport) proto → (s.natTable j).Static) :
    (∃ t' pkt', natTranslateInbound t pkt = (t', pkt', 0) ∧ pkt.Readdressed pkt' internalIp q) ↔
      s.natEnabled = true ∧ loadU32 pkt.data (pkt.head + 12) = 0 ∧
        portAt pkt.data pkt.transport = 0 ∧ ¬s.Shadowed p internalIp q proto := by
  obtain ⟨i, e, hfree, rfl, he, rfl, rfl⟩ := forward_added hadd
  subst hproto hport
  have hlen : ¬pkt.len < 24 := by
    have := hformed.header
    have := hformed.ports
    omega
  have henabled : (s.setEntry i e).natEnabled = s.natEnabled := rfl
  simp only [natTranslateInbound, hlen, or_false, henabled]
  generalize hsrc : loadU32 pkt.data (pkt.head + 12) = src at hnew ⊢
  generalize hsport : portAt pkt.data pkt.transport = sport at hnew ⊢
  cases hon : s.natEnabled with
  | false => simp
  | true =>
    simp only [Bool.true_eq_false, if_false, true_and]
    cases hfind : natFindInbound (s.setEntry i e) (portAt pkt.data (pkt.transport + 2)) src sport
        (pkt.data (pkt.head + 9)) with
    | none =>
      refine iff_of_false (by simp) ?_
      rintro ⟨rfl, rfl, -⟩
      have hno := scan_eq_none.mp hfind i
      obtain ⟨h1, h2, h3, h4, h5⟩ := he
      rw [setEntry_self] at hno
      simp [h1, h2, h3, h4, h5] at hno
    | some k =>
      obtain ⟨⟨rfl, rfl⟩, hk⟩ := find_added hfree he hnew hfind
      simp only [Prod.mk.injEq, and_true, true_and]
      rw [← leads_iff hfree hfind hk, ← rewritten_iff hformed.header]
      constructor
      · rintro ⟨t', pkt', ⟨-, rfl⟩, hsent⟩
        exact hsent
      · exact fun hsent => ⟨_, _, ⟨rfl, rfl⟩, hsent⟩

/-- Port 80 of the gateway forwarded to port 8080 of 10.0.0.2, as the first entry of the table. -/
def webForward : NatState :=
  (natAddPortForward (natEnable .boot 0x05040302) 0x05040302 80 0x0200000A 8080 17).1

theorem boot_answers (wanIp : UInt32) (j : Fin 4096) (port : UInt16) (src : UInt32)
    (sport : UInt16) (proto : UInt8) :
    ¬((natEnable .boot wanIp).natTable j).Answers port src sport proto := nofun

/-- A request from 0.0.0.0:0 is forwarded. -/
theorem nobody_reaches_host : ∃ t' pkt', natTranslateInbound webForward
    (portPacket 0 0x05040302 0 80) = (t', pkt', 0) ∧
      (portPacket 0 0x05040302 0 80).Readdressed pkt' 0x0200000A 8080 := by
  refine (forward_reaches_host_iff (natEnable .boot 0x05040302) webForward 0x05040302 0x0200000A 80
    8080 17 (portPacket 0 0x05040302 0 80) rfl (portPacket_formed ..) (by decide) (by decide)
    fun j hj => (boot_answers _ j _ _ _ _ hj).elim).mpr ⟨rfl, by decide, by decide, ?_⟩
  rintro ⟨i, j, -, hj, -⟩
  exact boot_answers _ j _ _ _ _ (find_some.mp hj).1

/-- A request from 8.8.8.8:53 is not. -/
theorem request_not_forwarded :
    natAddPortForward (natEnable .boot 0x05040302) 0x05040302 80 0x0200000A 8080 17 =
        (webForward, 0) ∧ webForward.natEnabled = true ∧
      (portPacket 0x08080808 0x05040302 53 80).WellFormed ∧
      (∀ j, ¬((natEnable .boot 0x05040302).natTable j).Answers 80 0x08080808 53 17) ∧
      (natTranslateInbound webForward (portPacket 0x08080808 0x05040302 53 80)).2.2 = -1 := by
  refine ⟨rfl, rfl, portPacket_formed .., fun j => boot_answers _ j _ _ _ _, ?_⟩
  unfold natTranslateInbound
  split
  · rfl
  split
  · rfl
  rename_i k hfind
  obtain ⟨i, e, hfree, hset, he, -⟩ := forward_added (show natAddPortForward
    (natEnable .boot 0x05040302) 0x05040302 80 0x0200000A 8080 17 = (webForward, 0) from rfl)
  have hport : portAt (portPacket 0x08080808 0x05040302 53 80).data
      ((portPacket 0x08080808 0x05040302 53 80).transport + 2) = 80 := by decide
  rw [hset, hport] at hfind
  have hsource := (find_added hfree he (fun j hj => (boot_answers _ j _ _ _ _ hj).elim) hfind).1
  exact absurd hsource.1 (by decide)

end AegisOS.Net
