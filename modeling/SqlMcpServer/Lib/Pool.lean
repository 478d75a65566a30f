import SqlMcpServer.Lib.Transition
import Mathlib.Algebra.BigOperators.Group.Multiset.Basic
import Mathlib.Algebra.GroupWithZero.Nat
import Mathlib.Data.Multiset.Count

/-!
# Pools of threads

Any number of threads over one shared state. A step runs one of them: it changes the shared state
and leaves other threads in its place. New calls come in at any time.
-/

namespace Pool
variable {σ τ α ε : Type}

structure State (σ τ : Type) where
  shared : σ
  threads : Multiset τ

inductive Action (τ α ε : Type) where
  | run (t : τ) (choice : α)
  | call (e : ε)

variable [DecidableEq τ] (act : σ → τ → α → Option (σ × List τ)) (enter : σ → ε → τ)

def step (s : State σ τ) : Action τ α ε → Option (State σ τ)
  | .run t choice =>
    if t ∈ s.threads then (act s.shared t choice).map fun r => ⟨r.1, r.2 + s.threads.erase t⟩ else none
  | .call e => some ⟨s.shared, enter s.shared e ::ₘ s.threads⟩

variable {act enter}

lemma step_run {s s' : State σ τ} {t : τ} {choice : α} (h : step act enter s (.run t choice : Action τ α ε) = some s') :
    ∃ shared ts rest, act s.shared t choice = some (shared, ts) ∧ s.threads = t ::ₘ rest ∧ s' = ⟨shared, ts + rest⟩ := by
  simp only [step] at h
  split_ifs at h with ht
  obtain ⟨⟨shared, ts⟩, hact, hs'⟩ := Option.map_eq_some_iff.mp h
  exact ⟨shared, ts, s.threads.erase t, hact, (Multiset.cons_erase ht).symm, hs'.symm⟩

lemma step_of_act {s : State σ τ} {t : τ} {choice : α} {r : σ × List τ} (ht : t ∈ s.threads)
    (h : act s.shared t choice = some r) :
    ∃ s', step act enter s (.run t choice : Action τ α ε) = some s' := by
  refine ⟨⟨r.1, r.2 + s.threads.erase t⟩, ?_⟩
  simp [step, ht, h]

lemma countP_run (p : τ → Prop) [DecidablePred p] (t : τ) (ts : List τ) (rest : Multiset τ) :
    ((ts : Multiset τ) + rest).countP p + (if p t then 1 else 0) = (t ::ₘ rest).countP p + ts.countP (fun t => p t) := by
  rw [Multiset.countP_add, Multiset.countP_cons, Multiset.coe_countP]
  omega

def work (weight : τ → Nat) (s : State σ τ) : Nat := (s.threads.map weight).sum

lemma work_run (weight : τ → Nat) {s s' : State σ τ} {t : τ} {choice : α}
    (h : step act enter s (.run t choice : Action τ α ε) = some s') :
    ∃ shared ts, act s.shared t choice = some (shared, ts) ∧
      work weight s' + weight t = work weight s + (ts.map weight).sum := by
  obtain ⟨shared, ts, rest, hact, hthreads, rfl⟩ := step_run h
  refine ⟨shared, ts, hact, ?_⟩
  show (((ts : Multiset τ) + rest).map weight).sum + weight t = (s.threads.map weight).sum + (ts.map weight).sum
  rw [hthreads, Multiset.map_add, Multiset.sum_add, Multiset.map_cons, Multiset.sum_cons, Multiset.map_coe, Multiset.sum_coe]
  omega

end Pool
