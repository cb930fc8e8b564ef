import Mathlib.Logic.Basic

/-! Machines that answer requests one after the other, against a specification that says
which answer is due. Independent of what the states, requests and answers are. -/
namespace AegisOS.Machine
variable {σ τ ε ω : Type*}

/-- The state after a list of requests and the answers to them, if each gets one. -/
def answers (step : σ → ε → Option (σ × ω)) : σ → List ε → Option (σ × List ω)
  | s, [] => some (s, [])
  | s, e :: es => (step s e).bind fun r => (answers step r.1 es).map fun q => (q.1, r.2 :: q.2)

/-- Each request meets a condition in the state it is made in. -/
def Admitted (step : σ → ε → Option (σ × ω)) (ok : σ → ε → Prop) : σ → List ε → Prop
  | _, [] => True
  | s, e :: es => ok s e ∧ ∀ r, step s e = some r → Admitted step ok r.1 es

/-- The state of a specification after a list of requests. -/
def after (note : τ → ε → τ) (t : τ) (es : List ε) : τ := es.foldl note t

/-- The answers a specification gives. -/
def replies (note : τ → ε → τ) (due : τ → ε → ω) : τ → List ε → List ω
  | _, [] => []
  | t, e :: es => due t e :: replies note due (note t e) es

variable {step : σ → ε → Option (σ × ω)} {ok : σ → ε → Prop} {note : τ → ε → τ} {due : τ → ε → ω}

/-- A machine whose every admitted step gives the answer that is due and keeps a relation to
the state of the specification gives every answer that is due. -/
theorem answers_of_simulation {R : σ → τ → Prop}
    (hstep : ∀ s t e, R s t → ok s e → ∃ s', step s e = some (s', due t e) ∧ R s' (note t e))
    {s : σ} {t : τ} {es : List ε} (hR : R s t) (hok : Admitted step ok s es) :
    ∃ s', answers step s es = some (s', replies note due t es) ∧ R s' (after note t es) := by
  induction es generalizing s t with
  | nil => exact ⟨s, rfl, hR⟩
  | cons e es ih =>
    obtain ⟨he, hrest⟩ := hok
    obtain ⟨s', hs, hR'⟩ := hstep s t e hR he
    obtain ⟨u, hu, hRu⟩ := ih hR' (hrest _ hs)
    refine ⟨u, ?_, hRu⟩
    simp only [answers, hs, Option.bind_some, hu, Option.map_some, replies]

/-- A condition on the requests alone is met wherever they are made. -/
theorem admitted_of_forall {P : ε → Prop} {s : σ} {es : List ε} (h : ∀ e ∈ es, P e) :
    Admitted step (fun _ e => P e) s es := by
  induction es generalizing s with
  | nil => trivial
  | cons e es ih =>
    exact ⟨h e List.mem_cons_self, fun r _ => ih fun e' he => h e' (List.mem_cons_of_mem e he)⟩

end AegisOS.Machine
