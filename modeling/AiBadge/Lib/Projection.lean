import AiBadge.Lib.Run

/-! # Views that follow events

Every step of a run says by an event, if any, what it does to a view of the state. The view
after a run is then what the events of the run add up to.
-/

namespace AiBadge.Lib

variable {S A E V : Type}

/-- What the events of a run make of the view `v`. -/
def project (event : S → A → Option E) (apply : E → V → V) (v : V) (tr : List (Transition S A)) : V :=
  tr.foldl (fun v t => (event t.pre t.act).elim v fun e => apply e v) v

variable {event : S → A → Option E} {apply : E → V → V} {v : V} {tr tr' : List (Transition S A)}

@[simp] theorem project_nil : project event apply v [] = v := rfl

theorem project_append :
    project event apply v (tr ++ tr') = project event apply (project event apply v tr) tr' :=
  List.foldl_append

@[simp] theorem project_snoc {t : Transition S A} : project event apply v (tr ++ [t]) =
    (event t.pre t.act).elim (project event apply v tr) fun e =>
      apply e (project event apply v tr) :=
  project_append

/-- What every event keeps holds of the view in the end. -/
theorem project_induction {P : V → Prop} (h : ∀ e v, P v → P (apply e v)) (hv : P v) :
    P (project event apply v tr) := by
  induction tr generalizing v with
  | nil => exact hv
  | cons t tr ih =>
    rw [project, List.foldl_cons]
    apply ih
    cases event t.pre t.act with
    | none => exact hv
    | some e => exact h e v hv

theorem Run.eq_project {step : S → A → Option S} {s₀ s : S} {f : S → V}
    (hr : Run step s₀ tr s) (h : ∀ {tr s a s'}, Run step s₀ tr s → step s a = some s' →
      f s' = (event s a).elim (f s) fun e => apply e (f s)) :
    f s = project event apply (f s₀) tr := by
  induction hr with
  | init => rfl
  | snoc hr hstep ih => rw [project_snoc, ← ih, h hr hstep]

end AiBadge.Lib
