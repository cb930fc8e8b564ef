import Mathlib.Logic.Basic

/-! Finite runs of a partial step function. Every event of a run is enabled in the
state it is taken in and meets a guard there; a run under the trivial guard is any
run at all. Independent of what the states and events are. -/
namespace AegisOS.GuardedRun
variable {σ ε : Type*}

/-- `Run step ok s es t`: the events `es` lead from `s` to `t`, each one meeting
`ok` in the state before it. -/
inductive Run (step : σ → ε → Option σ) (ok : σ → ε → Prop) : σ → List ε → σ → Prop
  | nil (s : σ) : Run step ok s [] s
  | cons {s s' t : σ} {e : ε} {es : List ε} :
      ok s e → step s e = some s' → Run step ok s' es t → Run step ok s (e :: es) t

/-- The guard that admits every event. -/
def anyEvent (_ : σ) (_ : ε) : Prop := True

variable {step : σ → ε → Option σ} {ok ok' : σ → ε → Prop}
variable {s t : σ} {es : List ε} {I : σ → Prop}

theorem Run.single {e : ε} (hok : ok s e) (h : step s e = some t) : Run step ok s [e] t :=
  .cons hok h (.nil t)

theorem Run.append {u : σ} {fs : List ε}
    (h : Run step ok s es t) (h' : Run step ok t fs u) : Run step ok s (es ++ fs) u := by
  induction h with
  | nil s => exact h'
  | cons hok hs _ ih => exact .cons hok hs (ih h')

theorem Run.mono (himp : ∀ s e, ok s e → ok' s e)
    (h : Run step ok s es t) : Run step ok' s es t := by
  induction h with
  | nil s => exact .nil s
  | cons hok hs _ ih => exact .cons (himp _ _ hok) hs ih

/-- What holds at the start and is kept by every guarded step holds at the end. -/
theorem Run.invariant (hstep : ∀ s e s', I s → ok s e → step s e = some s' → I s')
    (h : Run step ok s es t) (h0 : I s) : I t := by
  induction h with
  | nil s => exact h0
  | cons hok hs _ ih => exact ih (hstep _ _ _ h0 hok hs)

/-- What holds at the start and is kept by every guarded step but those of one kind
holds at the end, unless a step of that kind was taken. -/
theorem Run.kept_until {P : σ → Prop} {Q : σ → ε → σ → Prop}
    (hstep : ∀ s e s', P s → ok s e → step s e = some s' → P s' ∨ Q s e s')
    (h : Run step ok s es t) (h0 : P s) :
    P t ∨ ∃ before e after s1 s2, es = before ++ e :: after ∧ Run step ok s before s1 ∧ P s1 ∧
      step s1 e = some s2 ∧ Q s1 e s2 ∧ Run step ok s2 after t := by
  induction h with
  | nil s => exact .inl h0
  | @cons s s' t e es hok hs hrest ih =>
    cases hstep s e s' h0 hok hs with
    | inr hq => exact .inr ⟨[], e, es, s, s', rfl, .nil s, h0, hs, hq, hrest⟩
    | inl hp =>
      cases ih hp with
      | inl ht => exact .inl ht
      | inr hsplit =>
        obtain ⟨before, f, after, s1, s2, rfl, hbefore, hp1, hs1, hq, hafter⟩ := hsplit
        exact .inr ⟨e :: before, f, after, s1, s2, rfl, .cons hok hs hbefore, hp1, hs1, hq, hafter⟩

/-- A level that some steps raise and all others keep is at its start again exactly if none of
those was taken. -/
theorem Run.level_iff {raises : σ → ε → Prop} {level : σ → Int}
    (hstep : ∀ s e s', step s e = some s' →
      (raises s e ∧ level s < level s') ∨ ¬raises s e ∧ level s' = level s)
    (h : Run step anyEvent s es t) :
    level s ≤ level t ∧ (level t = level s ↔ Run step (fun s e => ¬raises s e) s es t) := by
  induction h with
  | nil s => exact ⟨Int.le_refl _, fun _ => .nil s, fun _ => rfl⟩
  | @cons s s' t e es _ hs _ ih =>
    rcases hstep s e s' hs with ⟨hraises, hlt⟩ | ⟨hkeeps, heq⟩
    · refine ⟨by omega, fun h => by omega, ?_⟩
      rintro (_ | ⟨hnot, -, -⟩)
      exact absurd hraises hnot
    · refine ⟨by omega, fun h => .cons hkeeps hs (ih.2.mp (by omega)), ?_⟩
      rintro (_ | ⟨-, hs', hrest⟩)
      obtain rfl := Option.some.inj (hs.symm.trans hs')
      rw [ih.2.mpr hrest, heq]

section
variable [∀ s e, Decidable (ok s e)]
variable (step ok) in
/-- Take the events one after the other, as long as each is enabled and meets the guard. -/
def execute (s : σ) : List ε → Option σ
  | [] => some s
  | e :: es => if ok s e then (step s e).bind fun s' => execute s' es else none

/-- What is decided at the end of an execution is reached by a run. -/
theorem Run.exists_of_execute {P : σ → Prop} [DecidablePred P]
    (h : (execute step ok s es).any (fun t => decide (P t)) = true) :
    ∃ t, Run step ok s es t ∧ P t := by
  induction es generalizing s with
  | nil => exact ⟨s, .nil s, of_decide_eq_true h⟩
  | cons e es ih =>
    simp only [execute] at h
    split at h
    next hok =>
      cases hs : step s e with
      | none => simp [hs] at h
      | some s' =>
        rw [hs] at h
        obtain ⟨t, ht, hP⟩ := ih h
        exact ⟨t, .cons hok hs ht, hP⟩
    · cases h

/-- The same with what follows from it on such a run. -/
theorem Run.exists_of_execute_imp {P Q : σ → Prop} [DecidablePred P]
    (hPQ : ∀ t, Run step ok s es t → P t → Q t)
    (h : (execute step ok s es).any (fun t => decide (P t)) = true) :
    ∃ t, Run step ok s es t ∧ Q t := by
  obtain ⟨t, hrun, hP⟩ := Run.exists_of_execute h
  exact ⟨t, hrun, hPQ t hrun hP⟩

end

instance (s : σ) (e : ε) : Decidable (anyEvent s e) := inferInstanceAs (Decidable True)

end AegisOS.GuardedRun
