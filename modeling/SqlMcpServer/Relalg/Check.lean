import SqlMcpServer.Relalg.Truth

/-!
# Partial checks

`interp.Check` decides a predicate on a row of which only some columns are known. What it
decides holds whatever the other columns hold, and what it leaves over says exactly how
the outcome depends on them.
-/

namespace SqlMcpServer.Interp

open List
open Except (bind_eq_ok pure_eq_ok)
open Relalg Kleene

inductive Partial where
  | decided (v : Tri)
  | residual (p : Predicate)

/-- The end of the loop of `partialList`. -/
def closeList (dominant : Tri) (join : List Predicate → Predicate) (rest : List Predicate) (unknown : Bool) :
    Except EvalError Partial :=
  match rest, unknown with
  | [], true => .ok (.decided .unknown)
  | [], false => .ok (.decided (Kleene.not dominant))
  | _, true => .error .mixed
  | [r], false => .ok (.residual r)
  | rs, false => .ok (.residual (join rs))

mutual
def partialEval (known : Env) : Predicate → Except EvalError Partial
  | .nil => .ok (.decided .true)
  | .cond c =>
    match known c.field with
    | none => .ok (.residual (.cond c))
    | some left => do return .decided (← evalOp left c)
  | .and preds => partialList known .false .and preds [] false
  | .or preds => partialList known .true .or preds [] false
  | .not p => do
    match ← partialEval known p with
    | .decided v => return .decided (Kleene.not v)
    | .residual r => return .residual (.not r)
  | .ex .. => .error (.unsupported "predicate in a partial check")

def partialList (known : Env) (dominant : Tri) (join : List Predicate → Predicate) :
    List Predicate → List Predicate → Bool → Except EvalError Partial
  | [], rest, unknown => closeList dominant join rest unknown
  | p :: ps, rest, unknown => do
    match ← partialEval known p with
    | .residual r => partialList known dominant join ps (rest ++ [r]) unknown
    | .decided v =>
      if v = dominant then return .decided dominant
      else partialList known dominant join ps rest (unknown || decide (v = .unknown))
end

inductive Verdict where
  | fails | holds | depends
deriving DecidableEq, Repr

/-- `Check`: the residual, the verdict and the reason of a refusal. -/
def check (p : Predicate) (known : Env) : Predicate × Verdict × Option EvalError :=
  match partialEval known p with
  | .error e => (.nil, .fails, some e)
  | .ok (.residual r) => (r, .depends, none)
  | .ok (.decided v) => if v = .true then (.nil, .holds, none) else (.nil, .fails, none)

def Agrees (known ρ : Env) : Prop := ∀ name v, known name = some v → ρ name = some v

/-- What a partial evaluation says: the predicate's value, or a predicate on the unknown columns
with that value, on every row that holds what is known. -/
def Partial.Of (known : Env) (p : Predicate) : Partial → Prop
  | .decided v => ∀ db ρ, Agrees known ρ → truth db ρ p = v
  | .residual r => (∀ db ρ, Agrees known ρ → truth db ρ p = truth db ρ r) ∧
      hasExists r = false ∧ ∀ c ∈ conditions r, known c.field = none

def Open (known : Env) (ps : List Predicate) : Prop :=
  ∀ p ∈ ps, hasExists p = false ∧ ∀ c ∈ conditions p, known c.field = none

section List
variable {known : Env} {k : Connective} {join : List Predicate → Predicate}
  (hjoin : ∀ db ρ ps, truth db ρ (join ps) = k.fold (ps.map (truth db ρ)))
  (hopen : ∀ ps, Open known ps → hasExists (join ps) = false ∧ ∀ c ∈ conditions (join ps), known c.field = none)
include hjoin hopen

/-- On a row that holds what is known, the whole list has the value of the residuals so far, of
UNKNOWN if one was met, and of the operands to come. -/
lemma closeList_of {whole : Predicate} {rest : List Predicate} {unknown : Bool} {r : Partial}
    (hrest : Open known rest)
    (hinv : ∀ db ρ, Agrees known ρ → truth db ρ whole =
      k.op (k.fold (rest.map (truth db ρ))) (if unknown then .unknown else Kleene.not k.dominant))
    (h : closeList k.dominant join rest unknown = .ok r) : r.Of known whole := by
  unfold closeList at h
  split at h
  · cases h
    intro db ρ hρ
    rw [hinv db ρ hρ, map_nil, k.fold_nil, k.unit_op]
    rfl
  · cases h
    intro db ρ hρ
    rw [hinv db ρ hρ, map_nil, k.fold_nil, k.unit_op]
    rfl
  · cases h
  · cases h
    rename_i p
    refine ⟨fun db ρ hρ => ?_, hrest p (by simp)⟩
    rw [hinv db ρ hρ, map_singleton, k.fold_cons, k.fold_nil, k.op_unit]
    exact k.op_unit _
  · cases h
    refine ⟨fun db ρ hρ => ?_, hopen rest hrest⟩
    rw [hinv db ρ hρ, hjoin]
    exact k.op_unit _

lemma partialList_of {whole : Predicate} {ps rest : List Predicate} {unknown : Bool} {r : Partial}
    (ih : ∀ p ∈ ps, ∀ r, partialEval known p = .ok r → r.Of known p) (hrest : Open known rest)
    (hinv : ∀ db ρ, Agrees known ρ → truth db ρ whole =
      k.op (k.fold (rest.map (truth db ρ)))
        (k.op (if unknown then .unknown else Kleene.not k.dominant) (k.fold (ps.map (truth db ρ)))))
    (h : partialList known k.dominant join ps rest unknown = .ok r) : r.Of known whole := by
  induction ps generalizing rest unknown with
  | nil =>
    rw [partialList] at h
    refine closeList_of hjoin hopen hrest (fun db ρ hρ => ?_) h
    rw [hinv db ρ hρ, map_nil, k.fold_nil, k.op_unit]
  | cons p ps ihps =>
    rw [partialList] at h
    obtain ⟨q, hq, h⟩ := bind_eq_ok.mp h
    have hp := ih p (by simp) q hq
    have htail : ∀ p ∈ ps, ∀ r, partialEval known p = .ok r → r.Of known p :=
      fun p hp => ih p (mem_cons_of_mem _ hp)
    cases q with
    | residual q =>
      obtain ⟨hval, hex, hcond⟩ := hp
      have hrest' : Open known (rest ++ [q]) := by
        intro p hp
        rcases mem_append.mp hp with hp | hp
        · exact hrest p hp
        · rw [mem_singleton] at hp
          exact hp ▸ ⟨hex, hcond⟩
      refine ihps htail hrest' (fun db ρ hρ => ?_) h
      rw [hinv db ρ hρ, map_cons, k.fold_cons, hval db ρ hρ, map_append, k.fold_append,
        map_singleton, k.fold_cons, k.fold_nil, k.op_unit, k.assoc]
      congr 1
      rw [← k.assoc, k.comm _ (truth db ρ q), k.assoc]
    | decided v =>
      have hval : ∀ db ρ, Agrees known ρ → truth db ρ p = v := hp
      by_cases hv : v = k.dominant
      · -- The dominant value decides the list whatever else it holds.
        simp only [hv, if_true, pure_eq_ok, Except.ok.injEq] at h
        subst h
        intro db ρ hρ
        rw [hinv db ρ hρ, map_cons, k.fold_cons, hval db ρ hρ, hv, k.dominant_op, k.op_dominant,
          k.op_dominant]
      · simp only [hv, if_false] at h
        have hstep : k.op (if unknown then .unknown else Kleene.not k.dominant) v =
            if (unknown || decide (v = .unknown)) then .unknown else Kleene.not k.dominant := by
          by_cases hu : v = .unknown
          · subst hu
            cases unknown
            · simp [k.unit_op]
            · simp [k.unknown_op]
          · simp only [hu, decide_false, Bool.or_false]
            rw [k.eq_unit hv hu, k.op_unit]
        refine ihps htail hrest (fun db ρ hρ => ?_) h
        rw [hinv db ρ hρ, map_cons, k.fold_cons, hval db ρ hρ, ← hstep, k.assoc]

end List

lemma open_and {known : Env} {ps : List Predicate} (h : Open known ps) :
    (hasExists (.and ps) = false ∧ ∀ c ∈ conditions (.and ps), known c.field = none) ∧
      (hasExists (.or ps) = false ∧ ∀ c ∈ conditions (.or ps), known c.field = none) := by
  have hconds : ∀ c ∈ conditionsList ps, known c.field = none := by
    intro c hc
    obtain ⟨p, hp, hc⟩ := mem_conditionsList.mp hc
    exact (h p hp).2 c hc
  have hex : hasExistsList ps = false := hasExistsList_eq_false.mpr fun p hp => (h p hp).1
  exact ⟨⟨by rw [hasExists, hex], by simpa [conditions] using hconds⟩,
    ⟨by rw [hasExists, hex], by simpa [conditions] using hconds⟩⟩

theorem partialEval_of {known : Env} {p : Predicate} {r : Partial} (h : partialEval known p = .ok r) :
    r.Of known p := by
  induction p using Predicate.ind generalizing r with
  | nil =>
    rw [partialEval, Except.ok.injEq] at h
    subst h
    exact fun db ρ _ => truth_nil db ρ
  | cond c =>
    rw [partialEval] at h
    cases hk : known c.field with
    | none =>
      simp only [hk, Except.ok.injEq] at h
      subst h
      exact ⟨fun _ _ _ => rfl, rfl, fun d hd => by simpa [conditions] using (mem_singleton.mp hd) ▸ hk⟩
    | some left =>
      simp only [hk] at h
      obtain ⟨v, hv, h⟩ := bind_eq_ok.mp h
      rw [pure_eq_ok, Except.ok.injEq] at h
      subst h
      intro db ρ hρ
      simp [truth_cond, truthCond, hρ _ _ hk, hv, settle]
  | and ps ih =>
    rw [partialEval] at h
    refine @partialList_of known conj .and truth_and (fun ps hps => (open_and hps).1) (.and ps) ps [] false r
      (fun p hp r hr => ih p hp hr) (by simp [Open]) (fun db ρ _ => ?_) h
    rw [truth_and, map_nil, conj.fold_nil, conj.unit_op, ← conj_fold]
    exact (conj.unit_op _).symm
  | or ps ih =>
    rw [partialEval] at h
    refine @partialList_of known disj .or truth_or (fun ps hps => (open_and hps).2) (.or ps) ps [] false r
      (fun p hp r hr => ih p hp hr) (by simp [Open]) (fun db ρ _ => ?_) h
    rw [truth_or, map_nil, disj.fold_nil, disj.unit_op, ← disj_fold]
    exact (disj.unit_op _).symm
  | not p ih =>
    rw [partialEval] at h
    obtain ⟨q, hq, h⟩ := bind_eq_ok.mp h
    have hp := ih hq
    cases q with
    | decided v =>
      simp only [pure_eq_ok, Except.ok.injEq] at h
      subst h
      exact fun db ρ hρ => by rw [truth_not, hp db ρ hρ]
    | residual q =>
      simp only [pure_eq_ok, Except.ok.injEq] at h
      subst h
      obtain ⟨hval, hex, hcond⟩ := hp
      exact ⟨fun db ρ hρ => by rw [truth_not, truth_not, hval db ρ hρ], by simpa [hasExists] using hex,
        by simpa [conditions] using hcond⟩
  | ex r on p => simp [partialEval] at h

lemma check_holds {p r : Predicate} {known : Env} {e : Option EvalError} (h : check p known = (r, .holds, e))
    (db : DB) {ρ : Env} (hρ : Agrees known ρ) : truth db ρ p = .true := by
  unfold check at h
  split at h
  · cases h
  · cases h
  · rename_i v hv
    split at h
    · rename_i htrue
      exact htrue ▸ partialEval_of hv db ρ hρ
    · cases h

lemma check_depends {p r : Predicate} {known : Env} {e : Option EvalError}
    (h : check p known = (r, .depends, e)) :
    (∀ db ρ, Agrees known ρ → truth db ρ p = truth db ρ r) ∧
      hasExists r = false ∧ ∀ c ∈ conditions r, known c.field = none := by
  unfold check at h
  split at h
  · cases h
  · rename_i q hq
    cases h
    exact partialEval_of hq
  · split at h <;> cases h

/-! ## Residuals under the interpreter

The interpreter stops at the first operand that dominates and fails where a comparison does. A
residual keeps the operands that are not decided, in their order, so it stops where the
predicate does. -/

inductive Residuals (known : Env) (dominant : Tri) : List Predicate → List Predicate → Prop where
  | nil : Residuals known dominant [] []
  | residual {p q : Predicate} {ps qs : List Predicate} (hq : partialEval known p = .ok (.residual q))
      (h : Residuals known dominant ps qs) : Residuals known dominant (p :: ps) (q :: qs)
  | unit {p : Predicate} {ps qs : List Predicate} (hp : partialEval known p = .ok (.decided (Kleene.not dominant)))
      (h : Residuals known dominant ps qs) : Residuals known dominant (p :: ps) qs

lemma closeList_residual {dominant : Tri} {join : List Predicate → Predicate} {rest : List Predicate} {unknown : Bool}
    {r : Predicate} (h : closeList dominant join rest unknown = .ok (.residual r)) :
    unknown = false ∧ (rest = [r] ∨ r = join rest) := by
  unfold closeList at h
  split at h
  · cases h
  · cases h
  · cases h
  · cases h
    exact ⟨rfl, .inl rfl⟩
  · cases h
    exact ⟨rfl, .inr rfl⟩

lemma partialList_residual {known : Env} {k : Connective} {join : List Predicate → Predicate} {ps rest : List Predicate}
    {unknown : Bool} {r : Predicate} (h : partialList known k.dominant join ps rest unknown = .ok (.residual r)) :
    unknown = false ∧ ∃ qs, Residuals known k.dominant ps qs ∧ (rest ++ qs = [r] ∨ r = join (rest ++ qs)) := by
  induction ps generalizing rest unknown with
  | nil =>
    rw [partialList] at h
    obtain ⟨hunknown, hr⟩ := closeList_residual h
    exact ⟨hunknown, [], .nil, by rwa [append_nil]⟩
  | cons p ps ih =>
    rw [partialList] at h
    obtain ⟨q, hq, h⟩ := bind_eq_ok.mp h
    cases q with
    | residual q =>
      obtain ⟨hunknown, qs, hqs, hr⟩ := ih h
      refine ⟨hunknown, q :: qs, .residual hq hqs, ?_⟩
      rwa [append_assoc] at hr
    | decided v =>
      by_cases hv : v = k.dominant
      · simp [hv] at h
      · simp only [hv, if_false] at h
        obtain ⟨hunknown, qs, hqs, hr⟩ := ih h
        rw [Bool.or_eq_false_iff, decide_eq_false_iff_not] at hunknown
        rw [k.eq_unit hv hunknown.2] at hq
        exact ⟨hunknown.1, qs, .unit hq hqs, hr⟩

section Loop
variable {db : DB} {cols : List String} {row : Row} {known : Env} {k : Connective} {ps qs : List Predicate}

lemma loop_residuals (hrow : Agrees known (rowEnv cols row)) {acc v : Tri} (hqs : Residuals known k.dominant ps qs)
    (ih : ∀ p ∈ ps, ∀ q w, partialEval known p = .ok (.residual q) → evalPredicate db cols row p = .ok w →
      evalPredicate db cols row q = .ok w)
    (h : k.loop (evalPredicate db cols row) ps acc = .ok v) : k.loop (evalPredicate db cols row) qs acc = .ok v := by
  induction hqs generalizing acc with
  | nil => exact h
  | @residual p q ps qs hq _ ihqs =>
    rw [Connective.loop] at h ⊢
    obtain ⟨w, hw, h⟩ := bind_eq_ok.mp h
    rw [ih p (by simp) q w hq hw, Except.ok_bind]
    split_ifs at h ⊢
    · exact h
    · exact ihqs (fun p hp => ih p (mem_cons_of_mem _ hp)) h
    · exact ihqs (fun p hp => ih p (mem_cons_of_mem _ hp)) h
  | @unit p ps qs hp _ ihqs =>
    rw [Connective.loop] at h
    obtain ⟨w, hw, h⟩ := bind_eq_ok.mp h
    have hunit : w = Kleene.not k.dominant := by
      rw [← evalPredicate_truth hw]
      exact partialEval_of hp db _ hrow
    rw [hunit, if_neg k.unit_ne.1, if_neg k.unit_ne.2] at h
    exact ihqs (fun p hp => ih p (mem_cons_of_mem _ hp)) h

lemma partialList_eval (hrow : Agrees known (rowEnv cols row)) {join : List Predicate → Predicate} {r : Predicate} {v : Tri}
    (hjoin : ∀ qs, evalPredicate db cols row (join qs) = k.loop (evalPredicate db cols row) qs (Kleene.not k.dominant))
    (ih : ∀ p ∈ ps, ∀ q w, partialEval known p = .ok (.residual q) → evalPredicate db cols row p = .ok w →
      evalPredicate db cols row q = .ok w)
    (hr : partialList known k.dominant join ps [] false = .ok (.residual r))
    (h : evalPredicate db cols row (join ps) = .ok v) : evalPredicate db cols row r = .ok v := by
  obtain ⟨-, qs, hqs, hr⟩ := partialList_residual hr
  rw [hjoin] at h
  have hloop := loop_residuals hrow hqs ih h
  rw [nil_append] at hr
  rcases hr with rfl | rfl
  · exact k.loop_singleton hloop
  · rw [hjoin]
    exact hloop

end Loop

lemma partialEval_eval {db : DB} {cols : List String} {row : Row} {known : Env} (hrow : Agrees known (rowEnv cols row))
    {p r : Predicate} {v : Tri} (hr : partialEval known p = .ok (.residual r)) (h : evalPredicate db cols row p = .ok v) :
    evalPredicate db cols row r = .ok v := by
  induction p using Predicate.ind generalizing r v with
  | nil => simp [partialEval] at hr
  | cond c =>
    rw [partialEval] at hr
    split at hr
    · cases hr
      exact h
    · obtain ⟨w, -, hr⟩ := bind_eq_ok.mp hr
      cases hr
  | and ps ih =>
    rw [partialEval] at hr
    refine partialList_eval (k := conj) hrow (fun qs => ?_) (fun p hp q w => ih p hp) hr h
    rw [evalPredicate, evalAnd_eq_loop]
    rfl
  | or ps ih =>
    rw [partialEval] at hr
    refine partialList_eval (k := disj) hrow (fun qs => ?_) (fun p hp q w => ih p hp) hr h
    rw [evalPredicate, evalOr_eq_loop]
    rfl
  | not p ih =>
    rw [partialEval] at hr
    rw [evalPredicate] at h
    obtain ⟨q, hq, hr⟩ := bind_eq_ok.mp hr
    obtain ⟨w, hw, h⟩ := bind_eq_ok.mp h
    cases q with
    | decided u => cases hr
    | residual q =>
      cases hr
      rw [evalPredicate, ih hq hw]
      exact h
  | ex r on p => simp [partialEval] at hr

/-- What a check says of a predicate is so on every row that holds what is known and on which
the predicate has a value. -/
theorem check_sound {db : DB} {cols : List String} {row : Row} {known : Env} {p r : Predicate} {verdict : Verdict}
    {err : Option EvalError} {v : Tri} (hrow : Agrees known (rowEnv cols row)) (hv : evalPredicate db cols row p = .ok v)
    (hcheck : check p known = (r, verdict, err)) :
    (verdict = .holds → v = .true) ∧
      (verdict = .fails → err = none → v = .false ∨ v = .unknown) ∧
      (verdict = .depends → hasExists r = false ∧ (∀ c ∈ conditions r, known c.field = none) ∧
        evalPredicate db cols row r = .ok v) := by
  have htruth : truth db (rowEnv cols row) p = v := evalPredicate_truth hv
  unfold check at hcheck
  split at hcheck
  · cases hcheck
    simp
  · rename_i q hq
    cases hcheck
    obtain ⟨-, hex, hconds⟩ := partialEval_of hq
    refine ⟨by simp, by simp, fun _ => ⟨hex, hconds, partialEval_eval hrow hq hv⟩⟩
  · rename_i w hw
    have hvw : v = w := by rw [← htruth, partialEval_of hw db _ hrow]
    split at hcheck
    · rename_i htrue
      cases hcheck
      exact ⟨fun _ => hvw.trans htrue, by simp, by simp⟩
    · rename_i hfalse
      cases hcheck
      refine ⟨by simp, fun _ _ => ?_, by simp⟩
      cases w with
      | false => exact .inl hvw
      | unknown => exact .inr hvw
      | true => exact absurd rfl hfalse

def oneKnown : Env := fun name => if name = "open" then some (.bool true) else none

lemma agrees_oneKnown (paid : Value) : Agrees oneKnown (rowEnv ["open", "paid"] [.bool true, paid]) := by
  intro name v h
  unfold oneKnown at h
  split_ifs at h with hname
  subst hname
  exact h

theorem check_sound_oneKnown :
    evalPredicate emptyDB ["open", "paid"] [.bool true, .bool false] (.cond ⟨"paid", .eq, .bool true⟩) = .ok .false :=
  ((check_sound (agrees_oneKnown (.bool false))
    (show evalPredicate emptyDB ["open", "paid"] [.bool true, .bool false]
      (.and [.cond ⟨"open", .eq, .bool true⟩, .cond ⟨"paid", .eq, .bool true⟩]) = .ok .false from rfl) rfl).2.2 rfl).2.2

end SqlMcpServer.Interp
