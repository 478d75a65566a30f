import Mathlib.Tactic.Lemma

/-!
# Transition systems

A system is a guarded step function: no state where an action is not enabled. A run is a
list of actions; `ok` restricts the states a run may pass through.
-/

namespace Transition
universe u v
variable {σ : Type u} {α : Type v} (step : σ → α → Option σ)

def run : σ → List α → Option σ
  | s, [] => some s
  | s, a :: as => (step s a).bind fun s' => run s' as

/-- The states runs reach from a state through states that are `ok`. -/
inductive Reachable (ok : σ → Prop) (start : σ) : σ → Prop where
  | start (hok : ok start) : Reachable ok start start
  | step {s s' : σ} {a : α} (hs : Reachable ok start s) (h : step s a = some s') (hok : ok s') :
      Reachable ok start s'

variable {step} {ok : σ → Prop} {start : σ}

lemma Reachable.isOk {s : σ} (h : Reachable step ok start s) : ok s := by
  cases h with
  | start hok => exact hok
  | step _ _ hok => exact hok

/-- What holds at the start and is kept by every step holds in every reachable state. -/
theorem Reachable.invariant {Inv : σ → Prop} (hstart : Inv start)
    (hstep : ∀ s s' a, Inv s → ok s → ok s' → step s a = some s' → Inv s') {s : σ}
    (h : Reachable step ok start s) : Inv s := by
  induction h with
  | start _ => exact hstart
  | step hs h hok ih => exact hstep _ _ _ ih hs.isOk hok h

lemma reachable_of_run {as : List α} {s s' : σ} (hs : Reachable step (fun _ => True) start s)
    (h : run step s as = some s') : Reachable step (fun _ => True) start s' := by
  induction as generalizing s with
  | nil =>
    cases h
    exact hs
  | cons a as ih =>
    obtain ⟨t, ht, h⟩ := Option.bind_eq_some_iff.mp h
    exact ih (.step hs ht trivial) h

lemma reachable_of_checked {check : σ → Bool} (hcheck : ∀ s, check s = true → ok s) {as : List α} {s s' : σ}
    (hs : Reachable step ok start s) (h : run (fun s a => (step s a).filter check) s as = some s') :
    Reachable step ok start s' := by
  induction as generalizing s with
  | nil =>
    cases h
    exact hs
  | cons a as ih =>
    obtain ⟨t, ht, h⟩ := Option.bind_eq_some_iff.mp h
    obtain ⟨ht, hok⟩ := Option.filter_eq_some_iff.mp ht
    exact ih (.step hs ht (hcheck t hok)) h

end Transition
