import AegisOS.TaskList
import Mathlib.Data.List.Perm.Basic

/-! The order in which `scheduler_yield` gives the processor to the tasks. Seen from the current
task, the runnable tasks form a queue; every yield takes the first one and puts it at the end. The
yield of a task that is alone goes to the idle task, if that is ready. -/
namespace AegisOS.TaskList
open LinkedList Scheduler List Option

/-- Ready, or running as the current task; the idle task does not count. -/
def runnable (s : Tasks) (a : Nat) : Bool :=
  s.idle ≠ some a ∧ ((s.cell a).state = .ready ∨ s.current = some a ∧ (s.cell a).state = .running)

/-- The tasks that are current after each of a number of yields. -/
def turns (fuel : Nat) : Nat → Tasks → Option (List (Option Nat))
  | 0, _ => some []
  | n + 1, s =>
    match schedulerYield fuel s with
    | .done s' => (turns fuel n s').map (s'.current :: ·)
    | _ => none

def yieldTimes (fuel : Nat) : Nat → Tasks → Option Tasks
  | 0, s => some s
  | n + 1, s =>
    match schedulerYield fuel s with
    | .done s' => yieldTimes fuel n s'
    | _ => none

/-- As many yields as there are runnable tasks make each of them current once. -/
def RoundRobin (fuel : Nat) (s : Tasks) (l : List Nat) : Prop :=
  ∃ order, turns fuel (l.filter (runnable s)).length s = some order ∧
    order.Perm ((l.filter (runnable s)).map some)

/-- A yield that passes the processor to the idle task finds no other task ready. -/
def IdleLast (fuel : Nat) (s : Tasks) (l : List Nat) : Prop :=
  ∀ s', schedulerYield fuel s = .done s' → s'.current = s.idle → s.current ≠ s.idle →
    ∀ a ∈ l, s.idle ≠ some a → (s.cell a).state ≠ .ready

/-- The current task is the only one that can run, and the idle task is ready. -/
def Alone (s : Tasks) (l : List Nat) : Prop :=
  ∃ cur idle, s.current = some cur ∧ l.filter (runnable s) = [cur] ∧
    s.idle = some idle ∧ idle ∈ l ∧ (s.cell idle).state = .ready

variable {rest m n l : List Nat} {cur a k : Nat} {t s' : Tasks} {P : Nat → Bool}

section
variable {s : Tasks} {fallback : Option Nat} {l : List Nat} {a : Nat}

def chosen (s : Tasks) (a : Nat) : Bool := s.idle ≠ some a ∧ (s.cell a).state = .ready

theorem search_chosen (h : l.filter (chosen s) = a :: rest) : search s fallback l = some a := by
  induction l generalizing fallback with
  | nil => cases h
  | cons b l ih =>
    unfold search
    by_cases hready : (s.cell b).state = .ready
    · by_cases hidle : s.idle = some b
      · rw [filter_cons_of_neg (by simp [chosen, hidle])] at h
        rw [if_pos hready, if_pos hidle, ih h]
      · rw [filter_cons_of_pos (by simp [chosen, hidle, hready])] at h
        obtain ⟨rfl, -⟩ := cons.inj h
        rw [if_pos hready, if_neg hidle]
    · rw [filter_cons_of_neg (by simp [chosen, hready])] at h
      rw [if_neg hready, ih h]

theorem search_fallback (h : l.filter (chosen s) = [])
    (hidle : ∀ i ∈ l, s.idle = some i → (s.cell i).state ≠ .ready) :
    search s fallback l = fallback := by
  induction l with
  | nil => rfl
  | cons b l ih =>
    have hb : (s.cell b).state ≠ .ready := by
      intro hready
      have hnot := filter_eq_nil_iff.mp h b mem_cons_self
      by_cases heq : s.idle = some b
      · exact hidle b mem_cons_self heq hready
      · exact hnot (by simp [chosen, heq, hready])
    rw [filter_cons_of_neg (by simp [chosen, hb])] at h
    rw [search, if_neg hb, ih h fun i hi => hidle i (mem_cons_of_mem b hi)]

theorem search_idle (h : l.filter (chosen s) = []) {i : Nat} (hi : i ∈ l) (hidle : s.idle = some i)
    (hready : (s.cell i).state = .ready) : search s fallback l = some i := by
  induction l generalizing fallback with
  | nil => cases hi
  | cons b l ih =>
    unfold search
    by_cases hb : (s.cell b).state = .ready
    · have heq : s.idle = some b := by
        by_contra hne
        exact filter_eq_nil_iff.mp h b mem_cons_self (by simp [chosen, hne, hb])
      rw [filter_cons_of_neg (by simp [chosen, heq])] at h
      obtain rfl := some.inj (hidle.symm.trans heq)
      rw [if_pos hb, if_pos heq]
      by_cases hin : i ∈ l
      · exact ih h hin
      · refine search_fallback h fun j hj hj' => ?_
        exact absurd (some.inj (hidle.symm.trans hj') ▸ hj) hin
    · rw [filter_cons_of_neg (by simp [chosen, hb])] at h
      have hne : i ≠ b := fun heq => hb (heq ▸ hready)
      rw [if_neg hb]
      exact ih h (mem_of_ne_of_mem hne hi)

end

/-! The queue. -/

/-- The list, turned so that it starts behind the current task and ends with it. -/
structure Turned (s : Tasks) (l order : List Nat) : Prop where
  chain : Chain s.next s.head l
  split : ∃ cur m n, s.current = some cur ∧ l = m ++ cur :: n ∧ order = n ++ (m ++ [cur])

section
variable {s : Tasks} {l order : List Nat} {fuel : Nat}

theorem Turned.perm (h : Turned s l order) : order.Perm l := by
  obtain ⟨cur, m, n, -, rfl, rfl⟩ := h.split
  have hswap : (n ++ (m ++ [cur])).Perm ((m ++ [cur]) ++ n) := perm_append_comm
  rwa [append_assoc] at hswap

theorem filter_chosen (hcur : s.current = some cur) (hnot : cur ∉ l) :
    l.filter (chosen s) = l.filter (runnable s) := by
  refine filter_congr fun b hb => ?_
  have hne : s.current ≠ some b := by
    rw [hcur]
    rintro heq
    exact hnot (some.inj heq ▸ hb)
  simp [chosen, runnable, hne]

theorem runnable_iff : runnable s a = true ↔ s.idle ≠ some a ∧
    ((s.cell a).state = .ready ∨ s.current = some a ∧ (s.cell a).state = .running) := by
  simp [runnable]

theorem not_dead (h : runnable s a = true) : (s.cell a).state ≠ .dead := by
  intro hdead
  rcases (runnable_iff.mp h).2 with hready | ⟨-, hrun⟩
  · rw [hdead] at hready
    cases hready
  · rw [hdead] at hrun
    cases hrun

theorem switch_idle (s : Tasks) (prev next : Nat) : (switch s prev next).idle = s.idle := by
  unfold switch
  split <;> rfl

theorem runnable_switch (hcur : s.current = some cur) (ha : runnable s a = true) :
    runnable (switch s cur a) = runnable s := by
  funext b
  have hnow : (switch s cur a).current = some a := rfl
  rw [Bool.eq_iff_iff, runnable_iff, runnable_iff, switch_idle, switch_state, hcur]
  refine and_congr_right fun _ => ?_
  by_cases hba : b = a
  · subst hba
    have hb := (runnable_iff.mp ha).2
    rw [hcur] at hb
    rw [if_pos rfl]
    exact iff_of_true (.inr ⟨rfl, rfl⟩) hb
  have hab : ¬(some a = some b) := fun heq => hba (some.inj heq).symm
  rw [if_neg hba]
  by_cases hrun : b = cur ∧ (s.cell b).state = .running
  · rw [if_pos hrun]
    exact iff_of_true (.inl rfl) (.inr ⟨congrArg some hrun.1.symm, hrun.2⟩)
  rw [if_neg hrun]
  have hnot : ¬(some cur = some b ∧ (s.cell b).state = .running) := fun h =>
    hrun ⟨(some.inj h.1).symm, h.2⟩
  exact or_congr_right (iff_of_false (fun h => hab h.1) hnot)

theorem schedulerYield_eq (hchain : Chain s.next s.head (m ++ cur :: n))
    (hcur : s.current = some cur) (hfuel : (m ++ cur :: n).length ≤ fuel) :
    schedulerYield fuel s =
      match search s none (n ++ m) with
      | none => if (s.cell cur).state = .dead then .panic else .done s
      | some next => .done (switch s cur next) := by
  obtain ⟨head, hhead⟩ : ∃ head, s.head = some head := by
    cases m with
    | nil | cons => exact ⟨_, hchain.tail.1⟩
  unfold schedulerYield
  rw [hcur, hhead]
  dsimp only
  rw [(yieldLoop_round hchain hhead fuel).enough (by simp at hfuel ⊢; omega)]
  cases search s none (n ++ m) <;> rfl

theorem turned_at {p q : List Nat}
    (hchain : Chain t.next t.head (m ++ cur :: n)) (hsplit : n ++ m = p ++ a :: q)
    (ha : t.current = some a) : Turned t (m ++ cur :: n) (q ++ ([cur] ++ (p ++ [a]))) := by
  refine ⟨hchain, ?_⟩
  rcases append_eq_append_iff.mp hsplit with ⟨u, rfl, rfl⟩ | ⟨u, rfl, hu⟩
  · exact ⟨a, u, q ++ cur :: n, ha, by simp, by simp⟩
  cases u with
  | nil =>
    obtain rfl : a :: q = m := hu
    exact ⟨a, [], q ++ cur :: p, ha, by simp, by simp⟩
  | cons b u =>
    obtain ⟨rfl, rfl⟩ := cons.inj hu
    exact ⟨a, m ++ cur :: p, u, ha, by simp, by simp⟩

theorem filter_first (h : l.filter P = a :: rest) :
    ∃ p q, l = p ++ a :: q ∧ p.filter P = [] ∧ q.filter P = rest ∧ P a = true := by
  obtain ⟨p, q, rfl, hp, ha, hq⟩ := filter_eq_cons_iff.mp h
  exact ⟨p, q, rfl, filter_eq_nil_iff.mpr hp, hq, ha⟩

theorem queue_front (hnot : cur ∉ l) (h : (l ++ [cur]).filter P = a :: rest) :
    (a = cur ∧ rest = []) ∨
      (a ≠ cur ∧ ∃ front, l.filter P = a :: front ∧ rest = front ++ [cur].filter P) := by
  rw [filter_append] at h
  cases hfilter : l.filter P with
  | nil =>
    rw [hfilter] at h
    obtain ⟨rfl, hrest⟩ : a = cur ∧ rest = [] := by
      cases hcur : P cur with
      | false => simp [hcur] at h
      | true =>
        have heq : [cur] = a :: rest := by simpa [hcur] using h
        exact ⟨(cons.inj heq).1.symm, (cons.inj heq).2.symm⟩
    exact .inl ⟨rfl, hrest⟩
  | cons b front =>
    rw [hfilter] at h
    obtain ⟨rfl, hrest⟩ := cons.inj h
    have hmem : b ∈ l.filter P := hfilter ▸ mem_cons_self
    refine .inr ⟨?_, front, rfl, hrest.symm⟩
    rintro rfl
    exact hnot (mem_filter.mp hmem).1

theorem Turned.front (h : Turned s l order)
    (hqueue : order.filter (runnable s) = a :: rest) (hrest : rest ≠ []) : s.current ≠ some a := by
  obtain ⟨cur, m, n, hcur, rfl, rfl⟩ := h.split
  rw [← append_assoc] at hqueue
  rcases queue_front h.chain.not_mem_rest hqueue with ⟨-, hnil⟩ | ⟨hne, -⟩
  · exact absurd hnil hrest
  · rw [hcur]
    exact fun heq => hne (some.inj heq).symm

theorem Turned.pass (h : Turned s l order) (hfuel : l.length ≤ fuel)
    (hqueue : order.filter (runnable s) = a :: rest) (ha : s.current ≠ some a) :
    ∃ s' order', schedulerYield fuel s = .done s' ∧ s'.current = some a ∧ Turned s' l order' ∧
      order'.filter (runnable s') = rest ++ [a] ∧ (s'.cell a).state = .running := by
  obtain ⟨cur, m, n, hcur, rfl, rfl⟩ := h.split
  have hnm := h.chain.not_mem_rest
  have hrun : runnable s a = true := by
    have hmem : a ∈ (n ++ (m ++ [cur])).filter (runnable s) := hqueue ▸ mem_cons_self
    exact (mem_filter.mp hmem).2
  -- the search stops at the front of the queue, since that is not the current task
  obtain ⟨front, hfilter, rfl⟩ : ∃ front, (n ++ m).filter (runnable s) = a :: front ∧
      rest = front ++ [cur].filter (runnable s) := by
    rw [← append_assoc] at hqueue
    rcases queue_front hnm hqueue with ⟨rfl, -⟩ | ⟨-, hfront⟩
    · exact absurd hcur ha
    · exact hfront
  have hsearch : search s none (n ++ m) = some a :=
    search_chosen ((filter_chosen hcur hnm).trans hfilter)
  have hyield := schedulerYield_eq h.chain hcur hfuel
  rw [hsearch] at hyield
  have hstate : ((switch s cur a).cell a).state = .running := by rw [switch_state, if_pos rfl]
  obtain ⟨p, q, hsplit, hp, hq, -⟩ := filter_first hfilter
  refine ⟨_, _, hyield, rfl, turned_at (switch_chain h.chain) hsplit rfl, ?_, hstate⟩
  have hlast : [a].filter (runnable s) = [a] := by
    rw [filter_singleton, hrun]
    rfl
  rw [runnable_switch hcur hrun, filter_append, filter_append, filter_append, hp, hq,
    hlast, nil_append, append_assoc]

theorem mem_around (hne : a ≠ cur) : a ∈ n ++ m ↔ a ∈ m ++ cur :: n := by
  rw [perm_middle.mem_iff, mem_cons, or_iff_right hne, perm_append_comm.mem_iff]

section
variable (h : Turned s l order) (hfuel : l.length ≤ fuel)
include h hfuel

theorem Turned.yield_alone (hcur : s.current = some cur)
    (hnone : ∀ a ∈ l, runnable s a = true → a = cur) :
    (∀ i ∈ l, i ≠ cur → s.idle = some i → (s.cell i).state = .ready →
      schedulerYield fuel s = .done (switch s cur i)) ∧
    ((∀ i ∈ l, i ≠ cur → s.idle = some i → (s.cell i).state ≠ .ready) →
      (s.cell cur).state ≠ .dead → schedulerYield fuel s = .done s) := by
  obtain ⟨cur', m, n, hcur', rfl, -⟩ := h.split
  obtain rfl := some.inj (hcur'.symm.trans hcur)
  have hyield := schedulerYield_eq h.chain hcur hfuel
  have hnm := h.chain.not_mem_rest
  have hmem {a : Nat} (ha : a ∈ n ++ m) : a ∈ m ++ cur' :: n ∧ a ≠ cur' := by
    have hne : a ≠ cur' := fun heq => hnm (heq ▸ ha)
    exact ⟨(mem_around hne).mp ha, hne⟩
  have hfilter : (n ++ m).filter (chosen s) = [] := by
    rw [filter_chosen hcur hnm]
    exact filter_eq_nil_iff.mpr fun a ha hrun => (hmem ha).2 (hnone a (hmem ha).1 hrun)
  constructor
  · intro i hi hne hidle hready
    rw [hyield, search_idle hfilter ((mem_around hne).mpr hi) hidle hready]
  intro hidle hdead
  have hsearch : search s none (n ++ m) = none :=
    search_fallback hfilter fun i hi => hidle i (hmem hi).1 (hmem hi).2
  rw [hyield, hsearch]
  exact if_neg hdead

theorem Turned.turns (htwo : 2 ≤ (order.filter (runnable s)).length)
    (hk : k ≤ (order.filter (runnable s)).length) :
    turns fuel k s = some (((order.filter (runnable s)).take k).map some) := by
  induction k generalizing s order with
  | zero => rfl
  | succ k ih =>
    obtain ⟨a, rest, hqueue⟩ : ∃ a rest, order.filter (runnable s) = a :: rest := by
      cases hq : order.filter (runnable s) with
      | nil => simp [hq] at htwo
      | cons a rest => exact ⟨a, rest, rfl⟩
    rw [hqueue, length_cons] at hk htwo
    have hrest : rest ≠ [] := by
      rintro rfl
      exact absurd htwo (by decide)
    obtain ⟨s', order', hyield, hcur', hturned, hqueue', -⟩ :=
      h.pass hfuel hqueue (h.front hqueue hrest)
    have hlen : (order'.filter (runnable s')).length = rest.length + 1 := by
      rw [hqueue', length_append, length_singleton]
    have hturns := ih hturned (by omega) (by omega)
    rw [TaskList.turns, hyield, hqueue]
    dsimp only
    rw [hturns, hqueue', take_append_of_le_length (by omega), hcur']
    rfl

theorem Turned.yield_result (hyield : schedulerYield fuel s = .done s') :
    s' = s ∨ ∃ a order', s'.current = some a ∧ (s'.cell a).state = .running ∧ Turned s' l order' := by
  obtain ⟨cur, m, n, hcur, rfl, -⟩ := h.split
  rw [schedulerYield_eq h.chain hcur hfuel] at hyield
  split at hyield
  · split at hyield
    · cases hyield
    · exact .inl (Outcome.done.inj hyield).symm
  rename_i a hsearch
  cases hyield
  rcases search_spec hsearch with ⟨hmem, -⟩ | hnone
  · obtain ⟨p, q, hsplit⟩ := append_of_mem hmem
    exact .inr ⟨a, _, rfl, by rw [switch_state, if_pos rfl],
      turned_at (switch_chain h.chain) hsplit rfl⟩
  · cases hnone

theorem Turned.idle_chosen (hyield : schedulerYield fuel s = .done s')
    (hidle : s'.current = s.idle) (hne : s.current ≠ s.idle) :
    (∃ i ∈ l, s.idle = some i ∧ (s.cell i).state = .ready) ∧
      ∀ a ∈ l, s.current ≠ some a → s.idle ≠ some a → (s.cell a).state ≠ .ready := by
  obtain ⟨cur, m, n, hcur, rfl, -⟩ := h.split
  have hnm := h.chain.not_mem_rest
  rw [schedulerYield_eq h.chain hcur hfuel] at hyield
  cases hsearch : search s none (n ++ m) with
  | none =>
    rw [hsearch] at hyield
    dsimp only at hyield
    split at hyield
    · cases hyield
    · cases hyield
      exact absurd hidle hne
  | some i =>
    rw [hsearch] at hyield
    cases hyield
    have hi : s.idle = some i := hidle.symm
    rcases search_spec hsearch with ⟨hin, hready⟩ | hnone
    · have hic : i ≠ cur := fun heq => hnm (heq ▸ hin)
      refine ⟨⟨i, (mem_around hic).mp hin, hi, hready⟩, fun a ha hac hai hstate => ?_⟩
      have hac' : a ≠ cur := fun heq => hac (heq ▸ hcur)
      have hin' : a ∈ (n ++ m).filter (chosen s) :=
        mem_filter.mpr ⟨(mem_around hac').mpr ha, by simp [chosen, hai, hstate]⟩
      -- the search would have stopped at a task that is not the idle one
      cases hfilter : (n ++ m).filter (chosen s) with
      | nil =>
        rw [hfilter] at hin'
        cases hin'
      | cons b rest =>
        have hb : b ∈ (n ++ m).filter (chosen s) := hfilter ▸ mem_cons_self
        obtain rfl := some.inj ((search_chosen hfilter).symm.trans hsearch)
        exact (of_decide_eq_true (mem_filter.mp hb).2).1 hi
    · cases hnone

end

theorem only_of_filter (h : l.filter P = [a]) : ∀ b ∈ l, P b = true → b = a := by
  intro b hb hP
  have hb' : b ∈ l.filter P := mem_filter.mpr ⟨hb, hP⟩
  rw [h] at hb'
  exact mem_singleton.mp hb'

theorem filter_only (hnodup : l.Nodup) (ha : a ∈ l) (hP : P a = true)
    (honly : ∀ b ∈ l, P b = true → b = a) : l.filter P = [a] := by
  have hsame : l.filter P = l.filter (· = a) := by
    refine filter_congr fun b hb => ?_
    rw [Bool.eq_iff_iff, decide_eq_true_eq]
    exact ⟨honly b hb, fun heq => heq ▸ hP⟩
  rw [hsame, filter_eq, count_eq_one_of_mem hnodup ha]
  rfl

variable (h : Turned s l order) (hfuel : l.length ≤ fuel)
include h hfuel

section
variable (hs : ¬Alone s l ∨ ∃ a, s.current = some a ∧ (s.cell a).state = .running)
include hs

theorem Turned.idleLast : IdleLast fuel s l := by
  intro s' hyield hidle hne a ha hai hready
  obtain ⟨⟨i, hi, hsi, hri⟩, hothers⟩ := h.idle_chosen hfuel hyield hidle hne
  by_cases hac : s.current = some a
  · rcases hs with hs | ⟨b, hb, hrun⟩
    · refine hs ⟨a, i, hac, ?_, hsi, hi, hri⟩
      refine filter_only h.chain.nodup ha (runnable_iff.mpr ⟨hai, .inl hready⟩) fun b hb hrun => ?_
      by_contra hba
      have hbc : s.current ≠ some b := fun heq => hba (some.inj (heq.symm.trans hac))
      rcases runnable_iff.mp hrun with ⟨hbi, hready | ⟨hcur', -⟩⟩
      · exact hothers b hb hbc hbi hready
      · exact hbc hcur'
    · obtain rfl := some.inj (hac.symm.trans hb)
      rw [hready] at hrun
      cases hrun
  · exact hothers a ha hac hai hready

theorem Turned.idleLast_run (hrun : yieldTimes fuel k s = some t) : IdleLast fuel t l := by
  induction k generalizing s order with
  | zero =>
    cases hrun
    exact h.idleLast hfuel hs
  | succ k ih =>
    rw [yieldTimes] at hrun
    split at hrun
    next s' hyield =>
      rcases h.yield_result hfuel hyield with rfl | ⟨a, order', ha, hstate, hturned⟩
      · exact ih h hs hrun
      · exact ih hturned (.inr ⟨a, ha, hstate⟩) hrun
    · cases hrun

end

theorem Turned.roundRobin (hs : ¬Alone s l) : RoundRobin fuel s l := by
  have hperm : (order.filter (runnable s)).Perm (l.filter (runnable s)) := h.perm.filter _
  suffices hturns : TaskList.turns fuel (order.filter (runnable s)).length s =
      some ((order.filter (runnable s)).map some) from
    ⟨_, hperm.length_eq ▸ hturns, hperm.map some⟩
  cases hqueue : order.filter (runnable s) with
  | nil => rfl
  | cons a rest =>
    by_cases hrest : rest = []
    · subst hrest
      have honly : l.filter (runnable s) = [a] := perm_singleton.mp (hqueue ▸ hperm).symm
      have hmem : a ∈ l.filter (runnable s) := honly ▸ mem_cons_self
      by_cases ha : s.current = some a
      · -- the current task goes on, since the idle task is not ready
        have hyield : schedulerYield fuel s = .done s := by
          refine (h.yield_alone hfuel ha (only_of_filter honly)).2 (fun i hi _ hidle hready => ?_) ?_
          · exact hs ⟨a, i, ha, honly, hidle, hi, hready⟩
          · exact not_dead (mem_filter.mp hmem).2
        simp only [length_singleton, TaskList.turns, hyield, ha]
        rfl
      · obtain ⟨s', order', hyield, hcur', -⟩ := h.pass hfuel hqueue ha
        simp only [length_singleton, TaskList.turns, hyield, hcur']
        rfl
    · have htwo : 2 ≤ (order.filter (runnable s)).length := by
        rw [hqueue]
        exact Nat.succ_le_succ (length_pos_of_ne_nil hrest)
      have hall := h.turns hfuel htwo (Nat.le_refl _)
      rwa [take_length, hqueue] at hall

theorem Turned.alone (hs : Alone s l) : ¬RoundRobin fuel s l := by
  obtain ⟨cur, i, hcur, honly, hidle, hi, hready⟩ := hs
  rintro ⟨turned, hturns, hperm⟩
  have hmem : cur ∈ l.filter (runnable s) := honly ▸ mem_cons_self
  have hne : i ≠ cur := by
    rintro rfl
    exact (runnable_iff.mp (mem_filter.mp hmem).2).1 hidle
  have hyield := (h.yield_alone hfuel hcur (only_of_filter honly)).1 i hi hne hidle hready
  rw [honly] at hturns hperm
  simp only [length_singleton, TaskList.turns, hyield] at hturns
  obtain rfl : [some i] = turned := some.inj hturns
  exact hne (some.inj (cons.inj (perm_singleton.mp hperm)).1)

end

/-- The yields go round among the runnable tasks, and pass to the idle task only if no other task is
ready, exactly if the current task is not the only one that can run while the idle task is ready. -/
theorem round_robin_iff (s : Tasks) (l : List Nat) (cur fuel : Nat)
    (hchain : Chain s.next s.head l) (hcur : s.current = some cur) (hmem : cur ∈ l)
    (hfuel : l.length ≤ fuel) :
    (RoundRobin fuel s l ∧ ∀ k t, yieldTimes fuel k s = some t → IdleLast fuel t l) ↔ ¬Alone s l := by
  obtain ⟨m, n, rfl⟩ := append_of_mem hmem
  have h : Turned s (m ++ cur :: n) (n ++ (m ++ [cur])) := ⟨hchain, cur, m, n, hcur, rfl, rfl⟩
  refine ⟨fun hround hs => h.alone hfuel hs hround.1, fun hs => ⟨h.roundRobin hfuel hs, ?_⟩⟩
  exact fun k t hrun => h.idleLast_run hfuel (.inl hs) hrun

def oneTask : Tasks where
  cell := fun a => if a = 16 then ⟨1, .ready, 0, some 32, some 48⟩ else ⟨2, .running, 0, some 64, none⟩
  head := some 16
  current := some 48
  idle := some 16
  nextTid := 3

def twoTasksAndIdle : Tasks where
  cell := fun a =>
    if a = 16 then ⟨1, .ready, 0, some 32, some 48⟩
    else if a = 48 then ⟨2, .running, 0, some 64, some 80⟩
    else ⟨3, .ready, 0, some 96, none⟩
  head := some 16
  current := some 48
  idle := some 16
  nextTid := 4

theorem two_tasks_take_turns : Chain twoTasksAndIdle.next twoTasksAndIdle.head [16, 48, 80] ∧
      turns 3 2 twoTasksAndIdle = some [some 80, some 48] ∧
      RoundRobin 3 twoTasksAndIdle [16, 48, 80] := by
  have hchain : Chain twoTasksAndIdle.next twoTasksAndIdle.head [16, 48, 80] :=
    .cons (.cons (.cons .nil))
  have halone : ¬Alone twoTasksAndIdle [16, 48, 80] := by
    rintro ⟨cur, idle, -, honly, -⟩
    have hlen : 2 = 1 := congrArg length honly
    exact absurd hlen (by decide)
  have hround := (round_robin_iff twoTasksAndIdle [16, 48, 80] 48 3 hchain rfl (by decide)
    (by decide)).mpr halone
  exact ⟨hchain, by decide, hround.1⟩

/-- The only task that can run yields, and the idle task is entered. -/
theorem yield_enters_idle :
    Chain oneTask.next oneTask.head [16, 48] ∧ [16, 48].filter (runnable oneTask) = [48] ∧
      turns 2 1 oneTask = some [some 16] ∧ ¬RoundRobin 2 oneTask [16, 48] := by
  have hchain : Chain oneTask.next oneTask.head [16, 48] := .cons (.cons .nil)
  have hturned : Turned oneTask [16, 48] [16, 48] := ⟨hchain, 48, [16], [], rfl, rfl, rfl⟩
  refine ⟨hchain, by decide, by decide, hturned.alone (by decide) ?_⟩
  exact ⟨48, 16, rfl, by decide, rfl, by decide, by decide⟩

end AegisOS.TaskList
