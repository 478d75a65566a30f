import SqlMcpServer.Lib.Except
import SqlMcpServer.Lib.Kleene

/-!
# Connectives over operands that may fail

A loop over the operands of a conjunction or a disjunction ends at the first that dominates and
fails where an operand does, so an operand after the end is not evaluated.
-/

namespace Kleene
universe u v
variable {α : Type u} {β : Type v} {ε : Type}

/-- What a value says the other says too. -/
def Refines (v w : Tri) : Prop := v = .unknown ∨ v = w

lemma Refines.refl (v : Tri) : Refines v v := .inr rfl

lemma Refines.not {v w : Tri} (h : Refines v w) : Refines (Kleene.not v) (Kleene.not w) := by
  rcases h with rfl | rfl
  · exact .inl rfl
  · exact .refl _

lemma Refines.eq_true {v w : Tri} (h : Refines v w) (hv : v = .true) : w = .true := by
  rcases h with rfl | rfl
  · cases hv
  · exact hv

namespace Connective
variable (c : Connective)

def loop (eval : α → Except ε Tri) : List α → Tri → Except ε Tri
  | [], acc => .ok acc
  | a :: xs, acc => do
    let v ← eval a
    if v = c.dominant then return c.dominant
    loop eval xs (if v = .unknown then .unknown else acc)

lemma unit_ne : Kleene.not c.dominant ≠ c.dominant ∧ Kleene.not c.dominant ≠ .unknown := by
  have hdec := c.decided
  revert hdec
  cases c.dominant <;> simp [Kleene.not]

/-- What a value makes of the value so far. -/
def absorb (v acc : Tri) : Tri := if v = c.dominant then c.dominant else if v = .unknown then .unknown else acc

lemma loop_acc (eval : α → Except ε Tri) (xs : List α) (acc : Tri) :
    c.loop eval xs acc = do return c.absorb (← c.loop eval xs (Kleene.not c.dominant)) acc := by
  induction xs generalizing acc with
  | nil => simp [loop, absorb, c.unit_ne]
  | cons a xs ih =>
    rw [loop, loop, bind_assoc]
    congr 1
    funext v
    by_cases hdom : v = c.dominant
    · simp [hdom, absorb]
    by_cases hu : v = .unknown
    · subst hu
      rw [if_neg hdom, if_neg hdom, if_pos rfl, if_pos rfl, ih .unknown, bind_assoc]
      congr 1
      funext w
      by_cases hw : w = c.dominant <;> simp [absorb, hw, hdom]
    · rw [if_neg hdom, if_neg hdom, if_neg hu, if_neg hu, ih acc]

lemma loop_append (eval : α → Except ε Tri) (xs ys : List α) {acc : Tri} (hacc : acc ≠ c.dominant) :
    c.loop eval (xs ++ ys) acc =
      (c.loop eval xs acc >>= fun v => if v = c.dominant then pure c.dominant else c.loop eval ys v) := by
  induction xs generalizing acc with
  | nil => simp [loop, hacc]
  | cons a xs ih =>
    rw [List.cons_append, loop, loop, bind_assoc]
    congr 1
    funext v
    by_cases hdom : v = c.dominant
    · simp [hdom]
    · rw [if_neg hdom, if_neg hdom]
      apply ih
      split_ifs
      · exact c.decided.symm
      · exact hacc

lemma loop_flatMap (eval : β → Except ε Tri) (f : α → List β) (xs : List α) {acc : Tri} (hacc : acc ≠ c.dominant) :
    c.loop eval (xs.flatMap f) acc = c.loop (fun a => c.loop eval (f a) (Kleene.not c.dominant)) xs acc := by
  induction xs generalizing acc with
  | nil => rfl
  | cons a xs ih =>
    rw [List.flatMap_cons, c.loop_append eval _ _ hacc, loop, c.loop_acc eval (f a) acc, bind_assoc]
    congr 1
    funext v
    by_cases hdom : v = c.dominant
    · simp [absorb, hdom]
    · by_cases hu : v = .unknown
      · subst hu
        simpa [absorb, hdom, c.decided.symm] using ih c.decided.symm
      · simpa [absorb, hdom, hu, hacc] using ih hacc

lemma loop_map (eval : β → Except ε Tri) (f : α → β) (xs : List α) (acc : Tri) :
    c.loop eval (xs.map f) acc = c.loop (fun a => eval (f a)) xs acc := by
  induction xs generalizing acc with
  | nil => rfl
  | cons a xs ih =>
    rw [List.map_cons, loop, loop]
    simp only [ih]

lemma loop_unknown {eval : α → Except ε Tri} {xs : List α} {v : Tri} (h : c.loop eval xs .unknown = .ok v) :
    v = .unknown ∨ v = c.dominant := by
  rw [c.loop_acc] at h
  obtain ⟨w, -, h⟩ := Except.bind_eq_ok.mp h
  obtain rfl := Except.ok.inj h
  unfold absorb
  split_ifs
  · exact .inr rfl
  · exact .inl rfl
  · exact .inl rfl

lemma loop_refines {eval eval' : α → Except ε Tri} {xs : List α} {acc acc' v w : Tri}
    (hop : ∀ a ∈ xs, ∀ v w, eval a = .ok v → eval' a = .ok w → Refines v w) (hacc : Refines acc acc')
    (h : c.loop eval xs acc = .ok v) (h' : c.loop eval' xs acc' = .ok w) : Refines v w := by
  induction xs generalizing acc acc' with
  | nil =>
    obtain rfl := Except.ok.inj h
    obtain rfl := Except.ok.inj h'
    exact hacc
  | cons a xs ih =>
    rw [loop] at h h'
    obtain ⟨x, hx, h⟩ := Except.bind_eq_ok.mp h
    obtain ⟨y, hy, h'⟩ := Except.bind_eq_ok.mp h'
    have htail : ∀ a ∈ xs, ∀ v w, eval a = .ok v → eval' a = .ok w → Refines v w :=
      fun a ha => hop a (List.mem_cons_of_mem _ ha)
    rcases hop a (by simp) x y hx hy with rfl | rfl
    · -- The operand is UNKNOWN on one side; on the other it may end the loop.
      rw [if_neg c.decided.symm, if_pos rfl] at h
      split_ifs at h' with hdom hu
      · obtain rfl := Except.ok.inj h'
        exact c.loop_unknown h
      · exact ih htail (.refl _) h h'
      · exact ih htail (.inl rfl) h h'
    · split_ifs at h h' with hdom hu
      · exact .inr (Except.ok.inj (h.symm.trans h'))
      · exact ih htail (.refl _) h h'
      · exact ih htail hacc h h'

/-- What a loop gives is its connective over what the operands are known to give. -/
lemma loop_fold {eval : α → Except ε Tri} {xs : List α} {ts : List Tri} {acc v : Tri} (hacc : acc ≠ c.dominant)
    (hts : List.Forall₂ (fun a t => ∀ v, eval a = .ok v → t = v) xs ts) (h : c.loop eval xs acc = .ok v) :
    v = c.op acc (c.fold ts) := by
  induction hts generalizing acc with
  | nil =>
    rw [fold_nil, c.op_unit]
    exact (Except.ok.inj h).symm
  | @cons a t xs ts ha _ ih =>
    rw [loop] at h
    obtain ⟨w, hw, h⟩ := Except.bind_eq_ok.mp h
    rw [fold_cons, ha w hw]
    split_ifs at h with hdom hu
    · rw [hdom, c.dominant_op, c.op_dominant]
      exact (Except.ok.inj h).symm
    · have habsorb : c.op acc w = .unknown := by
        by_cases hacc' : acc = .unknown
        · rw [hacc', hu, c.unknown_op]
        · rw [c.eq_unit hacc hacc', c.unit_op, hu]
      rw [← c.assoc, habsorb]
      exact ih c.decided.symm h
    · rw [c.eq_unit hdom hu, c.unit_op]
      exact ih hacc h

lemma loop_singleton {eval : α → Except ε Tri} {a : α} {v : Tri} (h : c.loop eval [a] (Kleene.not c.dominant) = .ok v) :
    eval a = .ok v := by
  rw [loop] at h
  obtain ⟨w, hw, h⟩ := Except.bind_eq_ok.mp h
  rw [hw]
  split_ifs at h with hdom hu
  · rw [hdom]
    exact h
  · rw [hu]
    exact h
  · rw [c.eq_unit hdom hu]
    exact h

end Connective

end Kleene
