import AegisOS.Lib.GuardedRun

/-! The loop of `services/dns-filter/src/main.rs` and its upstream server. A query that is sent
upstream has a number, which stands for its client and for its answer. -/
namespace AegisOS.DnsFilter
open GuardedRun List

structure State where
  sent : Nat := 0
  answered : List Nat := []
  waiting : Option Nat := none
  /-- The answers in the upstream socket. -/
  inbox : List Nat := []
  /-- The queries whose clients got a response, each with the query that was answered. -/
  relayed : List (Nat × Nat) := []

inductive Event
  | query (packet : List UInt8) (sends : Bool)
  | answer (n : Nat)
  | recv

/-- `recv_from` gives the first datagram in the socket, or none at the end of its wait. -/
def step (blocked : List UInt8 → Bool) (s : State) : Event → Option State
  | .query packet sends =>
    if s.waiting.isSome then none
    else if blocked packet || !sends then some s
    else some { s with sent := s.sent + 1, waiting := some s.sent }
  | .answer n =>
    if n < s.sent ∧ n ∉ s.answered then
      some { s with answered := n :: s.answered, inbox := s.inbox ++ [n] }
    else none
  | .recv => s.waiting.map fun n =>
    match s.inbox with
    | [] => { s with waiting := none }
    | m :: rest => { s with waiting := none, inbox := rest, relayed := (n, m) :: s.relayed }

/-- An answer comes within the wait of its own query. -/
def InTime (s : State) : Event → Prop
  | .answer n => s.waiting = some n
  | _ => True

structure Own (s : State) : Prop where
  inbox : s.inbox = [] ∨ ∃ n ∈ s.answered, s.waiting = some n ∧ s.inbox = [n]
  relayed : ∀ p ∈ s.relayed, p.1 = p.2

theorem Own.step {blocked : List UInt8 → Bool} {s s' : State} {e : Event} (h : Own s)
    (hok : InTime s e) (hs : step blocked s e = some s') : Own s' := by
  obtain ⟨hinbox, hrelayed⟩ := h
  cases e <;> simp only [DnsFilter.step] at hs
  case query packet sends =>
    split at hs
    · cases hs
    rename_i hwait
    have hempty : s.inbox = [] := by
      refine hinbox.resolve_right fun ⟨n, _, hn, _⟩ => hwait ?_
      rw [hn]
      rfl
    split at hs <;> cases hs <;> exact ⟨.inl hempty, hrelayed⟩
  case answer n =>
    split at hs <;> cases hs
    rename_i hnew
    rcases hinbox with hempty | ⟨m, hm, hwait, -⟩
    · exact ⟨.inr ⟨n, mem_cons_self, hok, by simp [hempty]⟩, hrelayed⟩
    · cases hwait.symm.trans hok
      exact absurd hm hnew.2
  case recv =>
    obtain ⟨n, hn, rfl⟩ := Option.map_eq_some_iff.mp hs
    rcases hinbox with hempty | ⟨m, -, hm, hone⟩
    · rw [hempty]
      exact ⟨.inl rfl, hrelayed⟩
    · cases hm.symm.trans hn
      rw [hone]
      exact ⟨.inl rfl, forall_mem_cons.mpr ⟨rfl, hrelayed⟩⟩

theorem relayed_own (blocked : List UInt8 → Bool) (es : List Event) (t : State)
    (h : Run (step blocked) InTime {} es t) : ∀ p ∈ t.relayed, p.1 = p.2 :=
  (h.invariant (I := Own) (fun _ _ _ hI hok hs => hI.step hok hs) ⟨.inl rfl, by simp⟩).relayed

theorem two_queries_relayed : ∃ t, Run (step fun _ => false) InTime {}
    [.query [7] true, .answer 0, .recv, .query [8] true, .answer 1, .recv] t ∧
      t.relayed = [(1, 1), (0, 0)] ∧ ∀ p ∈ t.relayed, p.1 = p.2 := by
  have hrun : Run (step fun _ => false) InTime {}
      [.query [7] true, .answer 0, .recv, .query [8] true, .answer 1, .recv] _ :=
    .cons trivial rfl (.cons rfl rfl (.cons trivial rfl
      (.cons trivial rfl (.cons rfl rfl (.cons trivial rfl (.nil _))))))
  exact ⟨_, hrun, rfl, relayed_own _ _ _ hrun⟩

/-- The first answer comes after its wait and goes to the second client. -/
theorem late_answer_relayed : ∃ t, Run (step fun _ => false) anyEvent {}
    [.query [7] true, .recv, .query [8] true, .answer 0, .recv] t ∧ (1, 0) ∈ t.relayed :=
  Run.exists_of_execute (by decide)

/-! Answers at any time. -/

structure Fair (s : State) : Prop where
  waiting : ∀ n, s.waiting = some n → s.sent = n + 1 ∧ ∀ p ∈ s.relayed, p.1 < n
  answered : ∀ n ∈ s.answered, n < s.sent
  held : s.inbox.Nodup ∧ ∀ m ∈ s.inbox, m ∈ s.answered ∧ ∀ p ∈ s.relayed, p.2 ≠ m
  relayed : ∀ p ∈ s.relayed, p.1 < s.sent ∧ p.2 ≤ p.1 ∧ p.2 ∈ s.answered
  apart : s.relayed.Pairwise fun p q => q.1 < p.1 ∧ q.2 ≠ p.2

theorem Fair.step {blocked : List UInt8 → Bool} {s s' : State} {e : Event} (h : Fair s)
    (hs : step blocked s e = some s') : Fair s' := by
  have ⟨hwaiting, hanswered, hheld, hrelayed, hapart⟩ := h
  cases e <;> simp only [DnsFilter.step] at hs
  case query packet sends =>
    split at hs
    · cases hs
    split at hs <;> cases hs
    · exact h
    -- every query before the new one has a smaller number
    refine ⟨?_, fun n hn => Nat.lt_succ_of_lt (hanswered n hn), hheld, fun p hp => ?_, hapart⟩
    · rintro _ ⟨⟩
      exact ⟨rfl, fun p hp => (hrelayed p hp).1⟩
    · obtain ⟨hlt, hrest⟩ := hrelayed p hp
      exact ⟨Nat.lt_succ_of_lt hlt, hrest⟩
  case answer n =>
    split at hs <;> cases hs
    rename_i hnew
    -- what is held or relayed was answered before, so the new answer is none of it
    refine ⟨hwaiting, forall_mem_cons.mpr ⟨hnew.1, hanswered⟩, ⟨?_, ?_⟩, fun p hp => ?_, hapart⟩
    · refine nodup_append.mpr ⟨hheld.1, pairwise_singleton _ n, fun m hm k hk heq => ?_⟩
      rw [heq, mem_singleton.mp hk] at hm
      exact hnew.2 (hheld.2 n hm).1
    · intro m hm
      rcases mem_append.mp hm with hm | hm
      · exact ⟨mem_cons_of_mem n (hheld.2 m hm).1, (hheld.2 m hm).2⟩
      · obtain rfl := mem_singleton.mp hm
        exact ⟨mem_cons_self, fun p hp heq => hnew.2 (heq ▸ (hrelayed p hp).2.2)⟩
    · obtain ⟨hlt, hle, hmem⟩ := hrelayed p hp
      exact ⟨hlt, hle, mem_cons_of_mem n hmem⟩
  case recv =>
    obtain ⟨n, hn, rfl⟩ := Option.map_eq_some_iff.mp hs
    obtain ⟨hsent, hbefore⟩ := hwaiting n hn
    split
    case h_1 => exact ⟨nofun, hanswered, hheld, hrelayed, hapart⟩
    case h_2 m rest hinbox =>
      rw [hinbox, nodup_cons, forall_mem_cons] at hheld
      obtain ⟨⟨hother, hnodup⟩, ⟨hmem, hfresh⟩, hrest⟩ := hheld
      -- the answer is to a query that was sent, and the query waited for is the last of those
      have hlt := hanswered m hmem
      refine ⟨nofun, hanswered, ⟨hnodup, fun k hk => ⟨(hrest k hk).1, ?_⟩⟩, ?_, ?_⟩
      · refine forall_mem_cons.mpr ⟨?_, (hrest k hk).2⟩
        rintro rfl
        exact hother hk
      · refine forall_mem_cons.mpr ⟨⟨?_, ?_, hmem⟩, hrelayed⟩ <;> dsimp only <;> omega
      · exact pairwise_cons.mpr ⟨fun q hq => ⟨hbefore q hq, hfresh q hq⟩, hapart⟩

/-- However late the answers come, the clients are served in the order of their queries, no answer
goes to two of them, and each is to the client's own query or an earlier one. -/
theorem relayed_once (blocked : List UInt8 → Bool) (es : List Event) (t : State)
    (h : Run (step blocked) anyEvent {} es t) :
    t.relayed.Pairwise (fun p q => q.1 < p.1 ∧ q.2 ≠ p.2) ∧
      ∀ p ∈ t.relayed, p.2 ≤ p.1 ∧ p.2 ∈ t.answered := by
  have hfair : Fair t := by
    refine h.invariant (fun _ _ _ hI _ hs => hI.step hs) ?_
    constructor <;> simp
  exact ⟨hfair.apart, fun p hp => (hfair.relayed p hp).2⟩

theorem late_answer_relayed_once : ∃ t, Run (step fun _ => false) anyEvent {}
    [.query [7] true, .recv, .query [8] true, .answer 0, .recv] t ∧ t.relayed = [(1, 0)] ∧
      ∀ p ∈ t.relayed, p.2 ≤ p.1 ∧ p.2 ∈ t.answered :=
  Run.exists_of_execute_imp (P := fun t => t.relayed = [(1, 0)])
    (fun t hrun heq => ⟨heq, (relayed_once _ _ t hrun).2⟩) (by decide)

end AegisOS.DnsFilter
