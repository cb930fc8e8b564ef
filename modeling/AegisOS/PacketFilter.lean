import AegisOS.Lib.LinkedList
import AegisOS.NetTables
import AegisOS.Lib.Machine
import Mathlib.Data.List.ReduceOption

/-! The packet filter as it lies in memory (`net/firewall.c`): every stored rule holds the
index of the next one. The loops over the rules run on fuel; what they compute is what the
functions on lists of rules compute. -/
namespace AegisOS.PacketFilter
open LinkedList Net Function List

structure StoredRule where
  rule : FwRule
  next : Option Nat

structure Filter where
  ruleHead : Option Nat
  ruleStorage : Nat → StoredRule
  ruleCount : Nat
  connTable : Fin 4096 → ConnTrack
  defaultPolicy : FwAction
  fwEnabled : Bool

def Filter.next (s : Filter) (i : Nat) : Option Nat := (s.ruleStorage i).next

def Filter.store (s : Filter) (i : Nat) (r : StoredRule) : Filter :=
  { s with ruleStorage := update s.ruleStorage i r }

def Filter.setNext (s : Filter) (i : Nat) (p : Option Nat) : Filter :=
  s.store i { s.ruleStorage i with next := p }

def firewallInit (s : Filter) : Filter :=
  { s with
    ruleHead := none
    ruleCount := 0
    connTable := fun i => { s.connTable i with active := false }
    defaultPolicy := .drop
    fwEnabled := true }

def firewallSetDefaultPolicy (s : Filter) (policy : FwAction) : Filter :=
  { s with defaultPolicy := policy }

def linkRule (fuel : Nat) (s : Filter) (stored : Nat) : Option Filter :=
  match s.ruleHead with
  | none => some { s with ruleHead := some stored }
  | some p => (lastFrom s.next fuel p).map fun p => s.setNext p (some stored)

def firewallAddRule (fuel : Nat) (s : Filter) (rule : Option FwRule) : Option (Filter × Int) :=
  match rule with
  | none => some (s, -1)
  | some r =>
    if fwMaxRules ≤ s.ruleCount then some (s, -1)
    else
      let stored := s.ruleCount
      let s := { s.store stored ⟨r, none⟩ with ruleCount := s.ruleCount + 1 }
      (linkRule fuel s stored).map fun s => (s, 0)

/-- The link to the rule is led past it; a rule that is not linked is left alone. -/
def unlinkRule (fuel : Nat) (s : Filter) (target : Nat) : Option Filter :=
  if s.ruleHead = some target then some { s with ruleHead := s.next target }
  else
    (findFrom s.next (fun p => s.next p = some target) fuel s.ruleHead).map fun
      | none => s
      | some p => s.setNext p (s.next target)

def firewallDelRule (fuel : Nat) (s : Filter) (ruleId : Nat) : Option (Filter × Int) :=
  if s.ruleCount ≤ ruleId then some (s, -1)
  else (unlinkRule fuel s ruleId).map fun s => (s.setNext ruleId none, 0)

def firewallFlushRules (s : Filter) : Filter × Int :=
  ({ s with ruleHead := none, ruleCount := 0 }, 0)

def ctLookup (s : Filter) (f : Flow) : Option (Fin 4096) := ctFind s.connTable f

/-- `ct_create` followed by the caller's `ct->state = 1`; a full table is left alone. -/
def ctCreate (s : Filter) (f : Flow) : Filter :=
  match ctFree s.connTable with
  | some i =>
    let ct := s.connTable i
    let ct := { ct with flow := f, state := 1, active := true }
    { s with connTable := update s.connTable i ct }
  | none => s

/-- The loop over the rules, for a packet whose connection is tracked or not. -/
def evaluateRules (fuel : Nat) (s : Filter) (f : Flow) (tracked : Bool) :
    Option (Filter × FwAction) :=
  (findFrom s.next (fun p => (s.ruleStorage p).rule.matchesFlow f) fuel s.ruleHead).map fun
    | none => (s, s.defaultPolicy)
    | some p =>
      let action := (s.ruleStorage p).rule.action
      if action = .accept ∧ tracked = false then (ctCreate s f, action) else (s, action)

def firewallCheck (fuel : Nat) (s : Filter) (b : Pktbuf) : Option (Filter × FwAction) :=
  if !s.fwEnabled then some (s, .accept)
  else if b.len < 20 then some (s, s.defaultPolicy)
  else
    let f := packetFlow b.data b.head b.len
    match ctLookup s f with
    | some i =>
      if 1 ≤ (s.connTable i).state then
        let ct := { s.connTable i with lastSeen := 0 }
        some ({ s with connTable := update s.connTable i ct }, .accept)
      else evaluateRules fuel s f true
    | none => evaluateRules fuel s f false

/-! The list of rules behind the links. -/

def Filter.view (s : Filter) (l : List Nat) : Firewall where
  rules := l.map fun i => (i, (s.ruleStorage i).rule)
  ruleCount := s.ruleCount
  connTable := s.connTable
  defaultPolicy := s.defaultPolicy
  enabled := s.fwEnabled

/-- The rules of the list are linked in its order, and their storage is taken. -/
structure Linked (s : Filter) (l : List Nat) : Prop where
  chain : Chain s.next s.ruleHead l
  stored : ∀ i ∈ l, i < s.ruleCount
  count : s.ruleCount ≤ fwMaxRules

/-- A filter that is linked as a list and whose rules are those of `fw`. -/
def Represents (s : Filter) (fw : Firewall) : Prop := ∃ l, Linked s l ∧ s.view l = fw

section
variable {s : Filter} {l : List Nat} {fuel : Nat}

theorem next_store (s : Filter) (i : Nat) (r : StoredRule) :
    (s.store i r).next = update s.next i r.next := by
  funext j
  unfold Filter.next Filter.store
  by_cases h : j = i
  · subst h
    simp
  · simp [h]

theorem rule_setNext (s : Filter) (i : Nat) (p : Option Nat) (j : Nat) :
    ((s.setNext i p).ruleStorage j).rule = (s.ruleStorage j).rule := by
  unfold Filter.setNext Filter.store
  by_cases h : j = i
  · subst h
    simp
  · simp [h]

theorem Linked.length_lt (h : Linked s l) (hfuel : fwMaxRules < fuel) : l.length < fuel := by
  have hsub : l ⊆ range s.ruleCount := fun i hi => mem_range.mpr (h.stored i hi)
  have hle := (h.chain.nodup.subperm hsub).length_le
  rw [length_range] at hle
  exact lt_of_le_of_lt (hle.trans h.count) hfuel

theorem represents_init (s : Filter) : Represents (firewallInit s)
    ⟨[], 0, fun i => { s.connTable i with active := false }, .drop, true⟩ :=
  ⟨[], ⟨.nil, nofun, Nat.zero_le _⟩, rfl⟩

/-- The links were changed to those of the list, and nothing else was. -/
structure Relinked (s s' : Filter) (l : List Nat) : Prop where
  chain : Chain s'.next s'.ruleHead l
  rule : ∀ i, (s'.ruleStorage i).rule = (s.ruleStorage i).rule
  count : s'.ruleCount = s.ruleCount
  connTable : s'.connTable = s.connTable
  defaultPolicy : s'.defaultPolicy = s.defaultPolicy
  fwEnabled : s'.fwEnabled = s.fwEnabled

theorem Relinked.view {s' : Filter} (h : Relinked s s' l) : s'.view l = s.view l := by
  simp only [Filter.view, h.rule, h.count, h.connTable, h.defaultPolicy, h.fwEnabled]

theorem relinked_setNext {i : Nat} {p : Option Nat}
    (h : Chain (update s.next i p) s.ruleHead l) : Relinked s (s.setNext i p) l := by
  refine ⟨?_, rule_setNext s i p, rfl, rfl, rfl, rfl⟩
  rw [Filter.setNext, next_store]
  exact h

theorem linkRule_spec {n : Nat} (h : Chain s.next s.ruleHead l) (hfresh : n ∉ l)
    (hnone : s.next n = none) (hfuel : l.length < fuel) :
    ∃ s', linkRule fuel s n = some s' ∧ Relinked s s' (l ++ [n]) := by
  unfold linkRule
  cases hhead : s.ruleHead with
  | none =>
    rw [hhead] at h
    cases h with
    | nil =>
      refine ⟨_, rfl, .cons ?_, fun _ => rfl, rfl, rfl, rfl, rfl⟩
      show Chain s.next (s.next n) []
      rw [hnone]
      exact .nil
  | some p =>
    have hne : l ≠ [] := by
      rintro rfl
      rw [hhead] at h
      cases h
    obtain ⟨m, b, rfl⟩ : ∃ m b, l = m ++ [b] := ⟨_, _, (dropLast_append_getLast hne).symm⟩
    have hlast : lastFrom s.next fuel p = some b := by
      rw [hhead] at h
      rw [length_append] at hfuel
      rw [h.lastFrom, if_pos (by omega)]
    dsimp only
    rw [hlast]
    refine ⟨_, rfl, relinked_setNext ?_⟩
    rw [append_assoc]
    exact h.append hfresh hnone

theorem unlinkRule_spec (h : Chain s.next s.ruleHead l) (hfuel : l.length < fuel) (n : Nat) :
    ∃ s', unlinkRule fuel s n = some s' ∧ Relinked s s' (l.filter (· ≠ n)) := by
  have hfilter : ∀ {m : List Nat}, n ∉ m → m.filter (· ≠ n) = m := fun {m} hm =>
    filter_eq_self.mpr fun i hi => decide_eq_true fun heq => hm (heq ▸ hi)
  unfold unlinkRule
  rw [h.findFrom hfuel]
  by_cases hmem : n ∈ l
  · obtain ⟨m, m', rfl⟩ := append_of_mem hmem
    have hnodup := h.nodup
    have hm : n ∉ m := h.not_mem_before
    have hm' : n ∉ m' := (nodup_cons.mp (nodup_append.mp hnodup).2.1).1
    have hrest : (m ++ n :: m').filter (· ≠ n) = m ++ m' := by
      rw [filter_append, filter_cons_of_neg (by simp), hfilter hm, hfilter hm']
    rw [hrest]
    cases hlast : m.getLast? with
    | none =>
      obtain rfl := getLast?_eq_none_iff.mp hlast
      rw [if_pos h.tail.1]
      exact ⟨_, rfl, h.tail.2, fun _ => rfl, rfl, rfl, rfl, rfl⟩
    | some b =>
      obtain ⟨m₁, rfl⟩ := getLast?_eq_some_iff.mp hlast
      have hne : s.ruleHead ≠ some n := by
        intro hhead
        cases m₁ with
        | nil | cons => exact hm (by simp [Option.some.inj (h.tail.1.symm.trans hhead)])
      rw [append_assoc, singleton_append] at h ⊢
      rw [if_neg hne, h.find_before]
      refine ⟨_, rfl, ?_⟩
      rw [append_assoc]
      exact relinked_setNext h.unlink
  · have hne : s.ruleHead ≠ some n := by
      intro hhead
      cases l with
      | nil =>
        rw [hhead] at h
        cases h
      | cons c l => exact hmem (by simp [Option.some.inj (h.tail.1.symm.trans hhead)])
    rw [if_neg hne, h.find_absent hmem, hfilter hmem]
    exact ⟨s, rfl, h, fun _ => rfl, rfl, rfl, rfl, rfl⟩

/-! Each function does to the list what the function on lists does. -/

variable {fw : Firewall}

theorem firewallAddRule_refines (hs : Represents s fw) (hfuel : fwMaxRules < fuel) (r : FwRule) :
    ∃ s', firewallAddRule fuel s (some r) = some (s', (Net.firewallAddRule fw r).2) ∧
      Represents s' (Net.firewallAddRule fw r).1 := by
  obtain ⟨l, hl, rfl⟩ := hs
  have hcount : (s.view l).ruleCount = s.ruleCount := rfl
  unfold firewallAddRule Net.firewallAddRule
  rw [hcount]
  by_cases hfull : fwMaxRules ≤ s.ruleCount
  · rw [if_pos hfull]
    dsimp only
    rw [if_pos hfull]
    exact ⟨s, rfl, l, hl, rfl⟩
  rw [if_neg hfull]
  dsimp only
  rw [if_neg hfull]
  have hfresh : s.ruleCount ∉ l := fun hmem => Nat.lt_irrefl _ (hl.stored _ hmem)
  have hupdate : (s.store s.ruleCount ⟨r, none⟩).next = update s.next s.ruleCount none :=
    next_store _ _ _
  have hchain : Chain (s.store s.ruleCount ⟨r, none⟩).next s.ruleHead l := by
    rw [hupdate]
    exact hl.chain.congr fun i hi => update_of_ne (ne_of_mem_of_not_mem hi hfresh) _ _
  obtain ⟨s', hlink, hr⟩ := linkRule_spec
    (s := { s.store s.ruleCount ⟨r, none⟩ with ruleCount := s.ruleCount + 1 }) hchain hfresh
    (congrFun hupdate s.ruleCount |>.trans (update_self ..)) (hl.length_lt hfuel)
  rw [hlink]
  refine ⟨s', rfl, l ++ [s.ruleCount], ⟨hr.chain, fun i hi => ?_, ?_⟩, ?_⟩
  · rw [hr.count]
    rcases mem_append.mp hi with hi | hi
    · exact Nat.lt_succ_of_lt (hl.stored i hi)
    · exact Nat.lt_succ_of_le (Nat.le_of_eq (mem_singleton.mp hi))
  · rw [hr.count]
    exact Nat.lt_of_not_le hfull
  · have hmap : l.map (fun i => (i, (update s.ruleStorage s.ruleCount ⟨r, none⟩ i).rule)) =
        l.map fun i => (i, (s.ruleStorage i).rule) :=
      map_congr_left fun i hi => by
        rw [update_of_ne (ne_of_mem_of_not_mem hi hfresh)]
    rw [hr.view]
    simp only [Filter.view, Filter.store, map_append, hmap, map_cons, map_nil, update_self]

theorem firewallDelRule_refines (hs : Represents s fw) (hfuel : fwMaxRules < fuel) (n : Nat) :
    ∃ s', firewallDelRule fuel s n = some (s', (Net.firewallDelRule fw n).2) ∧
      Represents s' (Net.firewallDelRule fw n).1 := by
  obtain ⟨l, hl, rfl⟩ := hs
  have hcount : (s.view l).ruleCount = s.ruleCount := rfl
  unfold firewallDelRule Net.firewallDelRule
  rw [hcount]
  by_cases hout : s.ruleCount ≤ n
  · rw [if_pos hout, if_pos hout]
    exact ⟨s, rfl, l, hl, rfl⟩
  rw [if_neg hout, if_neg hout]
  obtain ⟨s', hunlink, hr⟩ := unlinkRule_spec hl.chain (hl.length_lt hfuel) n
  rw [hunlink]
  have hgone : n ∉ l.filter (· ≠ n) := by simp
  have hclear : Relinked s' (s'.setNext n none) (l.filter (· ≠ n)) :=
    relinked_setNext (hr.chain.congr fun i hi =>
      update_of_ne (ne_of_mem_of_not_mem hi hgone) _ _)
  refine ⟨_, rfl, l.filter (· ≠ n), ⟨hclear.chain, fun i hi => ?_, ?_⟩, ?_⟩
  · rw [hclear.count, hr.count]
    exact hl.stored i (mem_of_mem_filter hi)
  · rw [hclear.count, hr.count]
    exact hl.count
  · rw [hclear.view, hr.view]
    have hnot : (fun i : Nat => decide (i ≠ n)) = fun i => i != n := by
      funext i
      rw [Bool.eq_iff_iff]
      simp
    simp only [Filter.view, filter_map, hnot]
    rfl

theorem firewallFlushRules_refines (hs : Represents s fw) :
    Represents (firewallFlushRules s).1 (Net.firewallFlushRules fw) := by
  obtain ⟨l, hl, rfl⟩ := hs
  exact ⟨[], ⟨.nil, nofun, Nat.zero_le _⟩, rfl⟩

theorem represents_ctCreate (hl : Linked s l) (f : Flow) :
    Represents (ctCreate s f) (Net.ctCreate (s.view l) f) := by
  have hconn : (s.view l).connTable = s.connTable := rfl
  rw [ctCreate, Net.ctCreate, hconn]
  cases ctFree s.connTable with
  | none => exact ⟨l, hl, rfl⟩
  | some i => exact ⟨l, ⟨hl.chain, hl.stored, hl.count⟩, rfl⟩

theorem evaluateRules_refines (hl : Linked s l) (hfuel : fwMaxRules < fuel) (f : Flow)
    (tracked : Bool) : ∃ s', evaluateRules fuel s f tracked =
        some (s', (Net.evaluateRules (s.view l) f tracked).2) ∧
      Represents s' (Net.evaluateRules (s.view l) f tracked).1 := by
  have hrules : (s.view l).rules.find? (fun r => r.2.matchesFlow f) =
      (l.find? fun p => (s.ruleStorage p).rule.matchesFlow f).map
        fun i => (i, (s.ruleStorage i).rule) := find?_map ..
  rw [evaluateRules, Net.evaluateRules, hl.chain.findFrom (hl.length_lt hfuel), hrules]
  cases l.find? fun p => (s.ruleStorage p).rule.matchesFlow f with
  | none => exact ⟨s, rfl, l, hl, rfl⟩
  | some p =>
    simp only [Option.map_some]
    split
    · exact ⟨_, rfl, represents_ctCreate hl f⟩
    · exact ⟨_, rfl, l, hl, rfl⟩

theorem firewallCheck_refines (hs : Represents s fw) (hfuel : fwMaxRules < fuel) (b : Pktbuf) :
    ∃ s', firewallCheck fuel s b = some (s', (Net.firewallCheck fw b).2) ∧
      Represents s' (Net.firewallCheck fw b).1 := by
  obtain ⟨l, hl, rfl⟩ := hs
  have hct : Net.ctLookup (s.view l) (packetFlow b.data b.head b.len) =
    ctLookup s (packetFlow b.data b.head b.len) := rfl
  have henabled : (s.view l).enabled = s.fwEnabled := rfl
  have hconn : (s.view l).connTable = s.connTable := rfl
  rw [firewallCheck, Net.firewallCheck, henabled]
  dsimp only
  rw [hct, hconn]
  cases s.fwEnabled with
  | false => exact ⟨s, rfl, l, hl, rfl⟩
  | true =>
    have hon : ¬(!true) = true := by decide
    by_cases hlen : b.len < 20
    · rw [if_neg hon, if_neg hon, if_pos hlen, if_pos hlen]
      exact ⟨s, rfl, l, hl, rfl⟩
    rw [if_neg hon, if_neg hon, if_neg hlen, if_neg hlen]
    cases ctLookup s (packetFlow b.data b.head b.len) with
    | none => exact evaluateRules_refines hl hfuel (packetFlow b.data b.head b.len) false
    | some i =>
      dsimp only
      split
      · exact ⟨_, rfl, l, ⟨hl.chain, hl.stored, hl.count⟩, rfl⟩
      · exact evaluateRules_refines hl hfuel (packetFlow b.data b.head b.len) true

end

/-! What the packet filter is for, over whole histories of calls: packets of a connection
that a rule let in pass, others are judged by the rules added and not deleted since, in the
order of their addition. -/
open Scan Machine Nat Option

/-! Calls and their answers. -/

inductive Op
  | addRule (rule : Option FwRule)
  | delRule (ruleId : Nat)
  | flushRules
  | setDefaultPolicy (policy : FwAction)
  | check (b : Pktbuf)

inductive Answer
  | done
  | code (rc : Int)
  | verdict (action : FwAction)

def perform (fuel : Nat) (s : Filter) : Op → Option (Filter × Answer)
  | .addRule rule => (firewallAddRule fuel s rule).map fun r => (r.1, .code r.2)
  | .delRule ruleId => (firewallDelRule fuel s ruleId).map fun r => (r.1, .code r.2)
  | .flushRules => some ((firewallFlushRules s).1, .code (firewallFlushRules s).2)
  | .setDefaultPolicy policy => some (firewallSetDefaultPolicy s policy, .done)
  | .check b => (firewallCheck fuel s b).map fun r => (r.1, .verdict r.2)

def Op.Complete : Op → Prop
  | .check b => 20 ≤ b.len
  | _ => True

/-! The history. -/

/-- The rules added since the last flush, those deleted struck out, the default policy, and
the connections that a rule accepted while fewer than 4096 had been accepted. -/
structure History where
  added : List (Option FwRule)
  policy : FwAction
  passed : List Flow

def History.start : History := ⟨[], .drop, []⟩

def History.rules (h : History) : List FwRule := h.added.reduceOption

/-- A packet of a connection that was let in, or of the replies to it. -/
def History.Tracked (h : History) (f : Flow) : Prop := f ∈ h.passed ∨ f.reply ∈ h.passed
  deriving Decidable

def History.firstMatch (h : History) (f : Flow) : Option FwRule :=
  h.rules.find? fun r => r.matchesFlow f

def History.verdict (h : History) (f : Flow) : FwAction :=
  if h.Tracked f then .accept
  else
    match h.firstMatch f with
    | some r => r.action
    | none => h.policy

def History.Accepts (h : History) (f : Flow) : Prop :=
  ¬h.Tracked f ∧ (h.firstMatch f).any (fun r => r.action = .accept) = true
  deriving Decidable

def flowOf (b : Pktbuf) : Flow := packetFlow b.data b.head b.len

def History.note (h : History) : Op → History
  | .addRule none => h
  | .addRule (some r) => if h.added.length < 256 then { h with added := h.added ++ [some r] } else h
  | .delRule ruleId => { h with added := h.added.set ruleId none }
  | .flushRules => { h with added := [] }
  | .setDefaultPolicy policy => { h with policy := policy }
  | .check b =>
    if h.Accepts (flowOf b) ∧ h.passed.length < 4096 then
      { h with passed := h.passed ++ [flowOf b] }
    else h

def History.answer (h : History) : Op → Answer
  | .addRule none => .code (-1)
  | .addRule (some _) => .code (if h.added.length < 256 then 0 else -1)
  | .delRule ruleId => .code (if ruleId < h.added.length then 0 else -1)
  | .flushRules => .code 0
  | .setDefaultPolicy _ => .done
  | .check b => .verdict (h.verdict (flowOf b))

/-! The rules in their storage. -/

/-- The rules not struck out, with their places from `n` on. -/
def slots (n : Nat) : List (Option FwRule) → List (Nat × FwRule)
  | [] => []
  | none :: rest => slots (n + 1) rest
  | some r :: rest => (n, r) :: slots (n + 1) rest

theorem slots_append (n : Nat) (added : List (Option FwRule)) (r : FwRule) :
    slots n (added ++ [some r]) = slots n added ++ [(n + added.length, r)] := by
  induction added generalizing n with
  | nil => rfl
  | cons a added ih =>
    have hlen : n + 1 + added.length = n + (a :: added).length := by
      rw [length_cons]
      omega
    cases a with
    | none => simp only [cons_append, slots, ih, hlen]
    | some q => simp only [cons_append, slots, ih, hlen]

theorem le_of_mem_slots {n : Nat} {added : List (Option FwRule)} {x : Nat × FwRule}
    (h : x ∈ slots n added) : n ≤ x.1 := by
  induction added generalizing n with
  | nil => cases h
  | cons a added ih =>
    cases a with
    | none => exact (le_succ n).trans (ih h)
    | some q =>
      cases mem_cons.mp h with
      | inl heq => exact le_of_eq (congrArg Prod.fst heq).symm
      | inr hold => exact (le_succ n).trans (ih hold)

theorem slots_set (n id : Nat) (added : List (Option FwRule)) :
    slots n (added.set id none) = (slots n added).filter fun r => r.1 != n + id := by
  induction added generalizing n id with
  | nil => rfl
  | cons a added ih =>
    cases id with
    | zero =>
      have hrest : (slots (n + 1) added).filter (fun r => r.1 != n) = slots (n + 1) added :=
        filter_eq_self.mpr fun x hx => bne_iff_ne.mpr (ne_of_gt (le_of_mem_slots hx))
      cases a with
      | none => exact hrest.symm
      | some q =>
        simp only [slots, add_zero, filter_cons, bne_self_eq_false, hrest]
        rfl
    | succ id =>
      have hshift : n + (id + 1) = n + 1 + id := by omega
      have hne : (n != n + 1 + id) = true := bne_iff_ne.mpr (by omega)
      cases a with
      | none => simp only [set_cons_succ, slots, ih, hshift]
      | some q => simp only [set_cons_succ, slots, ih, hshift, filter_cons, hne, if_true]

theorem find_slots (n : Nat) (added : List (Option FwRule)) (P : FwRule → Bool) :
    ((slots n added).find? fun r => P r.2).map Prod.snd = added.reduceOption.find? P := by
  induction added generalizing n with
  | nil => rfl
  | cons a added ih =>
    cases a with
    | none => simpa [slots] using ih (n + 1)
    | some q =>
      simp only [slots, reduceOption_cons_of_some, find?_cons]
      cases P q with
      | true => rfl
      | false => exact ih (n + 1)

/-! The tracking table. -/

/-- The connections of the list, in the first entries of the table. -/
structure Tracking (conns : Fin 4096 → ConnTrack) (passed : List Flow) : Prop where
  length : passed.length ≤ 4096
  used : ∀ i f, passed[i.val]? = some f →
    (conns i).active = true ∧ (conns i).flow = f ∧ (conns i).state = 1
  unused : ∀ i, passed[i.val]? = none → (conns i).active = false

variable {i : Fin 4096} {ct : ConnTrack}

section
variable {conns : Fin 4096 → ConnTrack} {passed : List Flow}
variable (h : Tracking conns passed)
include h

theorem Tracking.active (hi : (conns i).active = true) :
    (conns i).flow ∈ passed ∧ (conns i).state = 1 := by
  cases hp : passed[i.val]? with
  | none => exact absurd (hi.symm.trans (h.unused i hp)) (by decide)
  | some f =>
    obtain ⟨-, hflow, hstate⟩ := h.used i f hp
    exact ⟨hflow ▸ mem_of_getElem? hp, hstate⟩

theorem Tracking.find (f : Flow) :
    (∃ i, ctFind conns f = some i ∧ (conns i).state = 1 ∧ (f ∈ passed ∨ f.reply ∈ passed)) ∨
      ctFind conns f = none ∧ ¬(f ∈ passed ∨ f.reply ∈ passed) := by
  rw [ctFind]
  cases hscan : scan fun i => (conns i).active &&
      (decide ((conns i).flow = f) || decide ((conns i).flow = f.reply)) with
  | some i =>
    have hi := scan_holds hscan
    simp only [Bool.and_eq_true, Bool.or_eq_true, decide_eq_true_eq] at hi
    obtain ⟨hmem, hstate⟩ := h.active hi.1
    refine .inl ⟨i, rfl, hstate, ?_⟩
    cases hi.2 with
    | inl heq => exact .inl (heq ▸ hmem)
    | inr heq => exact .inr (heq ▸ hmem)
  | none =>
    refine .inr ⟨rfl, fun hmem => ?_⟩
    obtain ⟨g, hg, heq⟩ : ∃ g ∈ passed, g = f ∨ g = f.reply := by
      cases hmem with
      | inl hmem => exact ⟨f, hmem, .inl rfl⟩
      | inr hmem => exact ⟨f.reply, hmem, .inr rfl⟩
    obtain ⟨n, hlt, hn⟩ := getElem_of_mem hg
    have hentry := h.used ⟨n, lt_of_lt_of_le hlt h.length⟩ g
      (by rw [getElem?_eq_getElem hlt, hn])
    have hfalse := scan_eq_none.mp hscan ⟨n, lt_of_lt_of_le hlt h.length⟩
    simp only [hentry.1, hentry.2.1, Bool.true_and, Bool.or_eq_false_iff, decide_eq_false_iff_not] at hfalse
    cases heq with
    | inl heq => exact hfalse.1 heq
    | inr heq => exact hfalse.2 heq

theorem Tracking.free : (∃ i, ctFree conns = some i ∧ i.val = passed.length) ∨
      ctFree conns = none ∧ passed.length = 4096 := by
  by_cases hroom : passed.length < 4096
  · refine .inl ⟨⟨passed.length, hroom⟩, scan_eq_some.mpr ⟨?_, fun j hj => ?_⟩, rfl⟩
    · rw [h.unused _ (getElem?_eq_none (le_refl _))]
      rfl
    · have hlt : j.val < passed.length := hj
      rw [(h.used j _ (getElem?_eq_getElem hlt)).1]
      rfl
  · have hfull : passed.length = 4096 := by
      have := h.length
      omega
    refine .inr ⟨scan_eq_none.mpr fun j => ?_, hfull⟩
    have hlt : j.val < passed.length := by
      rw [hfull]
      exact j.isLt
    rw [(h.used j _ (getElem?_eq_getElem hlt)).1]
    rfl

theorem Tracking.add (hi : i.val = passed.length) (hct : ct.active = true ∧ ct.state = 1) :
    Tracking (update conns i ct) (passed ++ [ct.flow]) := by
  refine ⟨?_, fun j f hj => ?_, fun j hj => ?_⟩
  · rw [List.length_append, List.length_singleton]
    omega
  · by_cases hji : j = i
    · subst hji
      rw [hi, List.getElem?_concat_length] at hj
      rw [update_self]
      exact ⟨hct.1, some.inj hj, hct.2⟩
    have hbefore : j.val < passed.length := by
      obtain ⟨hin, -⟩ := List.getElem?_eq_some_iff.mp hj
      rw [List.length_append, List.length_singleton] at hin
      omega
    rw [List.getElem?_append_left hbefore] at hj
    rw [update_of_ne hji]
    exact h.used j f hj
  · have hout := List.getElem?_eq_none_iff.mp hj
    rw [List.length_append, List.length_singleton] at hout
    rw [update_of_ne (fun heq => by subst heq; omega)]
    exact h.unused j (List.getElem?_eq_none (by omega))

theorem Tracking.touch
    (hct : ct.active = (conns i).active ∧ ct.flow = (conns i).flow ∧ ct.state = (conns i).state) :
    Tracking (update conns i ct) passed := by
  have hsame : ∀ j, (update conns i ct j).active = (conns j).active ∧
      (update conns i ct j).flow = (conns j).flow ∧
      (update conns i ct j).state = (conns j).state := by
    intro j
    by_cases hji : j = i
    · subst hji
      rw [update_self]
      exact hct
    · rw [update_of_ne hji]
      exact ⟨rfl, rfl, rfl⟩
  refine ⟨h.length, fun j f hj => ?_, fun j hj => ?_⟩
  · rw [(hsame j).1, (hsame j).2.1, (hsame j).2.2]
    exact h.used j f hj
  · rw [(hsame j).1]
    exact h.unused j hj

end

/-! The functions on lists of rules against the history. -/

structure Agrees (fw : Firewall) (h : History) : Prop where
  rules : fw.rules = slots 0 h.added
  count : fw.ruleCount = h.added.length
  policy : fw.defaultPolicy = h.policy
  enabled : fw.enabled = true
  tracking : Tracking fw.connTable h.passed

section
variable {fw : Firewall} {h : History}

theorem agrees_init (conns : Fin 4096 → ConnTrack) :
    Agrees ⟨[], 0, fun i => { conns i with active := false }, .drop, true⟩ .start :=
  ⟨rfl, rfl, rfl, rfl, ⟨zero_le _, fun _ _ hnone => (nomatch hnone), fun _ _ => rfl⟩⟩

variable (ha : Agrees fw h)
include ha

theorem Agrees.addRule (r : FwRule) :
    Agrees (Net.firewallAddRule fw r).1 (h.note (.addRule (some r))) ∧
      .code (Net.firewallAddRule fw r).2 = h.answer (.addRule (some r)) := by
  have hmax : fwMaxRules ≤ fw.ruleCount ↔ ¬h.added.length < 256 := by
    rw [ha.count]
    exact not_lt.symm
  simp only [Net.firewallAddRule, History.note, History.answer, hmax]
  by_cases hroom : h.added.length < 256
  · rw [if_neg (not_not.mpr hroom), if_pos hroom, if_pos hroom]
    refine ⟨⟨?_, ?_, ha.policy, ha.enabled, ha.tracking⟩, rfl⟩
    · rw [slots_append, ha.rules, ha.count, zero_add]
    · rw [ha.count, length_append, length_singleton]
  · rw [if_pos hroom, if_neg hroom, if_neg hroom]
    exact ⟨ha, rfl⟩

theorem Agrees.delRule (ruleId : Nat) :
    Agrees (Net.firewallDelRule fw ruleId).1 (h.note (.delRule ruleId)) ∧
      .code (Net.firewallDelRule fw ruleId).2 = h.answer (.delRule ruleId) := by
  simp only [Net.firewallDelRule, History.note, History.answer, ha.count]
  by_cases hin : ruleId < h.added.length
  · rw [if_neg (not_le.mpr hin), if_pos hin]
    refine ⟨⟨?_, ?_, ha.policy, ha.enabled, ha.tracking⟩, rfl⟩
    · rw [slots_set, ha.rules]
      simp only [zero_add]
    · exact length_set.symm
  · rw [if_pos (not_lt.mp hin), if_neg hin]
    refine ⟨⟨?_, ?_, ha.policy, ha.enabled, ha.tracking⟩, rfl⟩
    · rw [set_eq_of_length_le (not_lt.mp hin)]
      exact ha.rules
    · rw [length_set]
      exact ha.count

theorem Agrees.firstMatch (f : Flow) :
    (fw.rules.find? fun r => r.2.matchesFlow f).map Prod.snd = h.firstMatch f := by
  rw [ha.rules, History.firstMatch]
  exact find_slots 0 h.added fun r => r.matchesFlow f

theorem Agrees.ctCreate (f : Flow) : Agrees (Net.ctCreate fw f)
    (if h.passed.length < 4096 then { h with passed := h.passed ++ [f] } else h) := by
  rw [Net.ctCreate]
  rcases ha.tracking.free with ⟨i, hfree, hi⟩ | ⟨hfree, hfull⟩
  · rw [hfree, if_pos (hi ▸ i.isLt)]
    exact ⟨ha.rules, ha.count, ha.policy, ha.enabled, ha.tracking.add hi ⟨rfl, rfl⟩⟩
  · rw [hfree, if_neg (not_lt.mpr (le_of_eq hfull.symm))]
    exact ha

theorem Agrees.evaluateRules {f : Flow} (hnew : ¬h.Tracked f) :
    Agrees (Net.evaluateRules fw f false).1
        (if h.Accepts f ∧ h.passed.length < 4096 then { h with passed := h.passed ++ [f] } else h) ∧
      (Net.evaluateRules fw f false).2 = h.verdict f := by
  have hfirst := ha.firstMatch f
  rw [History.verdict, if_neg hnew, ← hfirst, Net.evaluateRules]
  have haccepts : h.Accepts f ↔ (h.firstMatch f).any (fun r => r.action = .accept) = true :=
    and_iff_right hnew
  simp only [haccepts, ← hfirst]
  cases fw.rules.find? fun r => r.2.matchesFlow f with
  | none => exact ⟨by simpa using ha, ha.policy⟩
  | some r =>
    by_cases haction : r.2.action = .accept
    · simp only [map_some, any_some, haction, decide_true, true_and, if_true]
      exact ⟨ha.ctCreate f, trivial⟩
    · simp only [map_some, any_some, haction, decide_false, Bool.false_eq_true, false_and, if_false]
      exact ⟨ha, trivial⟩

theorem Agrees.check {b : Pktbuf} (hlen : 20 ≤ b.len) :
    Agrees (Net.firewallCheck fw b).1 (h.note (.check b)) ∧
      .verdict (Net.firewallCheck fw b).2 = h.answer (.check b) := by
  have hon : ¬(!fw.enabled) = true := by simp [ha.enabled]
  rw [Net.firewallCheck, if_neg hon, if_neg (not_lt.mpr hlen)]
  simp only [Net.ctLookup, History.note, History.answer, Answer.verdict.injEq]
  have hflow : packetFlow b.data b.head b.len = flowOf b := rfl
  rw [hflow]
  rcases ha.tracking.find (flowOf b) with ⟨i, hfind, hstate, hmem⟩ | ⟨hfind, hnew⟩
  · have htracked : h.Tracked (flowOf b) := hmem
    have haccepts : ¬(h.Accepts (flowOf b) ∧ h.passed.length < 4096) := fun hacc => hacc.1.1 htracked
    rw [if_neg haccepts, History.verdict, if_pos htracked]
    simp only [hfind, hstate]
    exact ⟨⟨ha.rules, ha.count, ha.policy, ha.enabled, ha.tracking.touch ⟨rfl, rfl, hstate.symm⟩⟩,
      rfl⟩
  · simp only [hfind]
    exact ha.evaluateRules hnew

end

/-! The filter in memory against the history. -/

def Recalls (s : Filter) (h : History) : Prop := ∃ fw, Represents s fw ∧ Agrees fw h

theorem recalls_perform {fuel : Nat} (hfuel : 256 < fuel) (s : Filter) (h : History) (op : Op)
    (hR : Recalls s h) (hop : op.Complete) :
    ∃ s', perform fuel s op = some (s', h.answer op) ∧ Recalls s' (h.note op) := by
  obtain ⟨fw, hs, ha⟩ := hR
  cases op with
  | addRule rule =>
    cases rule with
    | none => exact ⟨s, rfl, fw, hs, ha⟩
    | some r =>
      obtain ⟨s', hadd, hs'⟩ := firewallAddRule_refines hs hfuel r
      obtain ⟨ha', hret⟩ := ha.addRule r
      exact ⟨s', by rw [perform, hadd, map_some, hret], _, hs', ha'⟩
  | delRule ruleId =>
    obtain ⟨s', hdel, hs'⟩ := firewallDelRule_refines hs hfuel ruleId
    obtain ⟨ha', hret⟩ := ha.delRule ruleId
    exact ⟨s', by rw [perform, hdel, map_some, hret], _, hs', ha'⟩
  | flushRules =>
    exact ⟨_, rfl, _, firewallFlushRules_refines hs, rfl, rfl, ha.policy, ha.enabled, ha.tracking⟩
  | setDefaultPolicy policy =>
    obtain ⟨l, hl, rfl⟩ := hs
    exact ⟨_, rfl, _, ⟨l, ⟨hl.chain, hl.stored, hl.count⟩, rfl⟩, ha.rules, ha.count, rfl, ha.enabled,
      ha.tracking⟩
  | check b =>
    obtain ⟨s', hcheck, hs'⟩ := firewallCheck_refines hs hfuel b
    obtain ⟨ha', hret⟩ := ha.check hop
    exact ⟨s', by rw [perform, hcheck, map_some, hret], _, hs', ha'⟩

def synPacket : Pktbuf where
  len := 24
  head := 0
  data := fun i => if i = 0 then 0x45 else if i = 9 then 6 else .ofNat i

def allowAll : FwRule := ⟨0, 0, 0, 0, 0, 0, 0, .accept⟩

def bootFilter : Filter where
  ruleHead := none
  ruleStorage := fun _ => ⟨⟨0, 0, 0, 0, 0, 0, 0, .accept⟩, none⟩
  ruleCount := 0
  connTable := fun _ => ⟨⟨0, 0, 0, 0, 0⟩, 0, 0, false⟩
  defaultPolicy := .drop
  fwEnabled := true

end AegisOS.PacketFilter
