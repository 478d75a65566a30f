import SqlMcpServer.Cost

namespace SqlMcpServer.Cost

open List
open Except (bind_eq_ok)
open Relalg Interp Sql Statement

/-- The layers in order on a statement, as each left it to the next: each allows it, or is
an estimate skipped after a bypass. -/
inductive Admitted (env : Env) : List Layer → Bool → Compiled → Compiled → Prop where
  | nil {bypass : Bool} {c : Compiled} : Admitted env [] bypass c c
  | skip {l : Layer} {ls : List Layer} {c c' : Compiled} (hphase : l.phase = .estimate)
      (h : Admitted env ls true c c') : Admitted env (l :: ls) true c c'
  | pass {l : Layer} {ls : List Layer} {bypass : Bool} {c c' : Compiled} {d : Decision} (hcheck : l.check env c = .ok d)
      (hallow : d.allow = true) (h : Admitted env ls (bypass || d.bypass) (d.rewritten.getD c) c') :
      Admitted env (l :: ls) bypass c c'

def Decision.executed (d : Decision) (c : Compiled) : Compiled := d.rewritten.getD c

section Chain
variable {env : Env}

lemma Progress.finish_allow {p : Progress} (h : p.finish.allow = true) : p.soft = none := by
  unfold finish at h
  cases hsoft : p.soft with
  | none => rfl
  | some d =>
    simp only [hsoft] at h
    split at h <;> cases h

lemma Progress.finish_executed {p : Progress} {c : Compiled} (hresult : p.result.rewritten = none)
    (hkept : p.rewritten = false → p.c = c) : p.finish.executed c = p.c := by
  unfold finish Decision.executed
  simp only
  split
  · rfl
  · rename_i hno
    have hc : p.c = c := hkept (by simpa using hno)
    rw [hc]
    cases p.soft with
    | none => rw [hresult, Option.getD_none]
    | some d => rw [hresult, Option.getD_none]

lemma checkFrom_admitted {ls : List Layer} {p : Progress} {c : Compiled} {d : Decision}
    (hresult : p.result.rewritten = none) (hkept : p.rewritten = false → p.c = c) (h : checkFrom env ls p = .ok d)
    (hallow : d.allow = true) : p.soft = none ∧ Admitted env ls p.bypassEstimate p.c (d.executed c) := by
  induction ls generalizing p with
  | nil =>
    cases h
    rw [p.finish_executed hresult hkept]
    exact ⟨p.finish_allow hallow, .nil⟩
  | cons l ls ih =>
    rw [checkFrom] at h
    split at h
    · rename_i hskip
      obtain ⟨hsoft, hrest⟩ := ih hresult hkept h
      rw [hskip.1] at hrest ⊢
      exact ⟨hsoft, .skip hskip.2 hrest⟩
    · obtain ⟨e, he, h⟩ := bind_eq_ok.mp h
      simp only at h
      split at h
      · rename_i hdeny
        cases h
        simp only [Progress.hardDeny] at hallow
        simp [hallow] at hdeny
      · rename_i hnot
        have hkept' : (p.applyLayerDecision e).rewritten = false → (p.applyLayerDecision e).c = c := by
          intro hno
          simp only [Progress.applyLayerDecision, Bool.or_eq_false_iff, Option.isSome_eq_false_iff,
            Option.isNone_iff_eq_none] at hno
          simp only [Progress.applyLayerDecision, hno.2, Option.getD_none]
          exact hkept hno.1
        obtain ⟨hsoft, hrest⟩ := @ih (p.applyLayerDecision e) hresult hkept' h
        simp only [Progress.applyLayerDecision] at hsoft
        split at hsoft
        · cases hsoft
        · rename_i hsoftly
          have hpass : e.allow = true := by
            cases ha : e.allow
            · simp [ha] at hnot hsoftly
              simp [hnot] at hsoftly
            · rfl
          exact ⟨hsoft, .pass he hpass hrest⟩

lemma Admitted.append {ls₁ ls₂ : List Layer} {bypass : Bool} {c c' : Compiled}
    (h : Admitted env (ls₁ ++ ls₂) bypass c c') :
    ∃ bypass₁ c₁, Admitted env ls₁ bypass c c₁ ∧ Admitted env ls₂ bypass₁ c₁ c' := by
  induction ls₁ generalizing bypass c with
  | nil => exact ⟨bypass, c, .nil, h⟩
  | cons l ls ih =>
    rw [cons_append] at h
    cases h with
    | skip hphase h =>
      obtain ⟨bypass₁, c₁, h₁, h₂⟩ := ih h
      exact ⟨bypass₁, c₁, .skip hphase h₁, h₂⟩
    | pass hcheck hallow h =>
      obtain ⟨bypass₁, c₁, h₁, h₂⟩ := ih h
      exact ⟨bypass₁, c₁, .pass hcheck hallow h₁, h₂⟩

lemma rewritten_eq_none {l : Layer} {c : Compiled} {d : Decision} (hl : ∀ n, l ≠ .enforceCap n)
    (h : l.check env c = .ok d) : d.rewritten = none := by
  cases l with
  | enforceCap n => exact absurd rfl (hl n)
  | staticRule s =>
    cases h
    unfold StaticRule.check
    repeat' split
    all_goals rfl
  | writeGuard =>
    cases h
    unfold WriteGuard.check
    repeat' split
    all_goals rfl
  | callGuard g =>
    cases h
    unfold CallGuard.check
    repeat' split
    all_goals rfl
  | aggregateGuard r =>
    cases h
    unfold AggregateGuard.check
    simp only
    repeat' split
    all_goals rfl
  | estimate e =>
    simp only [Layer.check, Estimate.check] at h
    split at h
    · cases h
      rfl
    · split at h
      · cases h
      · split at h
        · cases h
        · cases h
          unfold Estimate.evaluatePlan
          simp only
          repeat' split
          all_goals rfl

lemma Admitted.unchanged {ls : List Layer} {bypass : Bool} {c c' : Compiled} (h : Admitted env ls bypass c c')
    (hls : ∀ l ∈ ls, ∀ n, l ≠ .enforceCap n) : c' = c := by
  induction h with
  | nil => rfl
  | skip _ _ ih => exact ih fun l hl => hls l (mem_cons_of_mem _ hl)
  | pass hcheck _ _ ih =>
    rw [rewritten_eq_none (hls _ (by simp)) hcheck] at ih
    exact ih fun l hl => hls l (mem_cons_of_mem _ hl)

lemma Admitted.head {l : Layer} {ls : List Layer} {bypass : Bool} {c c' : Compiled}
    (h : Admitted env (l :: ls) bypass c c') (hphase : l.phase ≠ .estimate) :
    ∃ d, l.check env c = .ok d ∧ d.allow = true ∧ Admitted env ls (bypass || d.bypass) (d.rewritten.getD c) c' := by
  cases h with
  | skip hestimate => exact absurd hestimate hphase
  | pass hcheck hallow h => exact ⟨_, hcheck, hallow, h⟩

end Chain

section Gate
variable {env : Env} {caps : Capabilities} {ex : Option (String → List Value → Except ExplainError Plan)}
  {th : Threshold} {feedback : Option (String → Option Int)}

lemma newGate_append : ∃ before, newGateFromCapabilities caps ex th feedback =
    before ++ (if 0 < th.maxRows then [.enforceCap th.maxRows] else []) ∧ ∀ l ∈ before, ∀ n, l ≠ .enforceCap n := by
  refine ⟨_, rfl, fun l hl n => ?_⟩
  simp only [mem_append] at hl
  rcases hl with (((hl | hl) | hl) | hl) | hl
  · rw [mem_singleton.mp hl]
    simp
  · split at hl
    · rw [mem_singleton.mp hl]
      simp
    · cases hl
  · rw [mem_singleton.mp hl]
    simp
  · split at hl
    · rw [mem_singleton.mp hl]
      simp
    · cases hl
  · split at hl
    · split at hl
      · rw [mem_singleton.mp hl]
        simp
      · cases hl
    · cases hl

/-- What runs of an admitted statement is what the cap makes of it, when rows are capped,
else the statement. -/
lemma executed_eq {c c' : Compiled} (h : Admitted env (newGateFromCapabilities caps ex th feedback) false c c') :
    c' = if 0 < th.maxRows then (EnforceCap.check th.maxRows c).executed c else c := by
  obtain ⟨before, hgate, hbefore⟩ := @newGate_append caps ex th feedback
  rw [hgate] at h
  obtain ⟨bypass, c₁, h₁, h₂⟩ := h.append
  obtain rfl := h₁.unchanged hbefore
  split at h₂
  · rename_i hpos
    obtain ⟨d, hcheck, -, hrest⟩ := h₂.head (by simp [Layer.phase])
    cases hcheck
    rw [if_pos hpos]
    exact hrest.unchanged (by simp)
  · rename_i hno
    rw [if_neg hno]
    exact h₂.unchanged (by simp)

lemma isKeyPoint_of_admitted {c c' : Compiled} (hrequire : th.requirePKForWrite = true)
    (h : Admitted env (newGateFromCapabilities caps ex th feedback) false c c') (hkind : c.kind = .write)
    {n : Node} (hexpr : c.expr = some n) (hwrite : boundedWrite n = true) : c.isKeyPoint = true := by
  unfold newGateFromCapabilities at h
  rw [hrequire, if_pos rfl] at h
  simp only [append_assoc, singleton_append] at h
  obtain ⟨d, hstatic, -, h⟩ := h.head (by simp [Layer.phase])
  rw [rewritten_eq_none (by simp) hstatic, Option.getD_none] at h
  obtain ⟨d, hguard, hallow, -⟩ := h.head (by simp [Layer.phase])
  cases hguard
  by_contra hpoint
  simp [WriteGuard.check, hkind, hexpr, hwrite, hpoint] at hallow

end Gate

/-- What runs of a read returns the first `maxRows` rows of a result of the select compiled, or
all when rows are not capped. -/
def ReturnsCapped (d : Dialect) (o : Options) (e : Expr) (c executed : Compiled) (maxRows : Int) : Prop :=
  ∃ s s', Codegen.renderSelect ⟨d.nullsLast, o.maxINCardinality⟩ e = .ok ⟨s, c.args⟩ ∧ c.sql = s.text d ∧
    executed.sql = s'.text d ∧ executed.args = c.args ∧
    ∀ nullsLow db out, (Returns nullsLow db c.args s' out ↔
        ∃ all, Returns nullsLow db c.args s all ∧ out = if 0 < maxRows then all.take maxRows.toNat else all) ∧
      (0 < maxRows → Returns nullsLow db c.args s' out → (out.length : Int) ≤ maxRows)

def MatchesAtMostOne (d : Dialect) (o : Options) (target : RelationRef) (p : Predicate) (text : String)
    (set : List (String × Value)) (c : Compiled) : Prop :=
  ∃ q, renderWhere o.maxINCardinality p (set.map Prod.snd) = .ok (q, c.args) ∧ c.sql = text ++ " WHERE " ++ q.text d ∧
    ∀ (db : DB) (tbl : Table), (∀ key ∈ o.keys, UniqueKey key tbl.cols tbl.rows) →
      (matchedRows db c.args target q tbl).length ≤ 1

section Sound
variable {d : Dialect} {returning : Bool} {o : Options} {c : Compiled}

lemma returnsCapped_of_cap {e : Expr} (hcompile : compile d returning o (.read e) = .ok c) (maxRows : Int) :
    ReturnsCapped d o e c (if 0 < maxRows then (EnforceCap.check maxRows c).executed c else c) maxRows := by
  obtain ⟨s, hs, hsql, hcap⟩ := capRows_read hcompile
  split
  · rename_i hpos
    obtain ⟨c', hc', hargs, htext⟩ := hcap maxRows (by omega)
    have hkind : c.kind = .read ∨ c.kind = .aggregate := by
      unfold compile at hcompile
      split at hcompile
      · cases hcompile
      obtain ⟨r, -, hcompile⟩ := bind_eq_ok.mp hcompile
      cases hcompile
      simp only [kindOf]
      split
      · exact .inr rfl
      · exact .inl rfl
    have hexecuted : ((EnforceCap.check maxRows c).executed c).sql = c'.sql ∧
        ((EnforceCap.check maxRows c).executed c).args = c.args := by
      have hnotCall : ¬ (maxRows ≤ 0 ∨ c.kind = .call) := by
        rcases hkind with h | h <;> simp [h, hpos]
      have hread : ¬ ¬ (c.kind = .read ∨ c.kind = .aggregate ∨ (c.kind = .unset ∧ c.readOnly = true)) := by
        rcases hkind with h | h <;> simp [h]
      unfold EnforceCap.check
      rw [if_neg hnotCall, if_neg hread, hc']
      simp only
      split
      · rename_i hsame
        exact ⟨hsame.symm, rfl⟩
      · exact ⟨rfl, hargs⟩
    refine ⟨s, _, hs, hsql, hexecuted.1.trans htext, hexecuted.2, fun nullsLow db out => ?_⟩
    have hreturns := @returns_tightened nullsLow db c.args maxRows s out
    simp only [hpos, if_true]
    refine ⟨hreturns, fun _ h => ?_⟩
    obtain ⟨all, -, rfl⟩ := hreturns.mp h
    rw [length_take]
    omega
  · rename_i hno
    refine ⟨s, s, hs, hsql, hsql, rfl, fun nullsLow db out => ⟨?_, fun h => absurd h hno⟩⟩
    simp only [hno, if_false]
    constructor
    · exact fun h => ⟨out, h, rfl⟩
    · rintro ⟨all, h, rfl⟩
      exact h

lemma renderWhere_writes {maxIN : Int} {p : Predicate} {args out : List Value} {q : Pred}
    (h : renderWhere maxIN p args = .ok (q, out)) : Codegen.Writes ⟨"", [], []⟩ out "" p q := by
  obtain ⟨_, -, h⟩ := bind_eq_ok.mp h
  obtain ⟨⟨q', b⟩, hq, h⟩ := bind_eq_ok.mp h
  cases h
  rw [mapError_eq_ok] at hq
  exact (Codegen.renderPredicate_rendered hq).2 b.args prefix_rfl

structure CompiledWrite (o : Options) (n : Node) (c : Compiled) : Prop where
  kind : c.kind = .write
  expr : c.expr = some n
  point : c.isKeyPoint = o.keys.any (isKeyPoint (predicateOf n))

lemma compile_update {target : RelationRef} {p : Predicate} {set : List (String × Value)}
    (h : compile d returning o (.update target p set) = .ok c) :
    CompiledWrite o (.update target p set) c ∧ ∃ q, renderWhere o.maxINCardinality p (set.map Prod.snd) = .ok (q, c.args) ∧
      c.sql = updateText d target set ++ " WHERE " ++ q.text d := by
  unfold compile at h
  split at h
  · cases h
  obtain ⟨r, hr, h⟩ := bind_eq_ok.mp h
  cases h
  rw [render, renderUpdate] at hr
  split at hr
  · cases hr
  obtain ⟨⟨q, args⟩, hq, hr⟩ := bind_eq_ok.mp hr
  cases hr
  exact ⟨⟨rfl, rfl, rfl⟩, q, hq, rfl⟩

lemma compile_delete {target : RelationRef} {p : Predicate} (h : compile d returning o (.delete target p) = .ok c) :
    CompiledWrite o (.delete target p) c ∧ ∃ q, renderWhere o.maxINCardinality p [] = .ok (q, c.args) ∧
      c.sql = deleteText d target ++ " WHERE " ++ q.text d := by
  unfold compile at h
  split at h
  · cases h
  obtain ⟨r, hr, h⟩ := bind_eq_ok.mp h
  cases h
  rw [render, renderDelete] at hr
  split at hr
  · cases hr
  obtain ⟨⟨q, args⟩, hq, hr⟩ := bind_eq_ok.mp hr
  cases hr
  exact ⟨⟨rfl, rfl, rfl⟩, q, hq, rfl⟩

lemma executed_write {n : Node} (h : CompiledWrite o n c) (maxRows : Int) :
    (if 0 < maxRows then (EnforceCap.check maxRows c).executed c else c) = c := by
  split
  · simp [EnforceCap.check, h.kind, Decision.executed]
  · rfl

lemma matchesAtMostOne {target : RelationRef} {p : Predicate} {text : String} {set : List (String × Value)} {q : Pred}
    (hwhere : renderWhere o.maxINCardinality p (set.map Prod.snd) = .ok (q, c.args))
    (hsql : c.sql = text ++ " WHERE " ++ q.text d) (hpoint : o.keys.any (isKeyPoint p) = true) :
    MatchesAtMostOne d o target p text set c := by
  refine ⟨q, hwhere, hsql, fun db tbl hunique => ?_⟩
  obtain ⟨key, hkey, hpoint⟩ := List.any_eq_true.mp hpoint
  exact matchedRows_le_one (renderWhere_writes hwhere) hpoint (hunique key hkey)

end Sound

def ansi : Dialect := ⟨fun name => "\"" ++ name ++ "\"", fun n => "$" ++ toString (n + 1), true⟩

def guarded : Threshold := { maxRows := 100, requirePKForWrite := true }

/-- No templates are listed, so no statement is fingerprinted. -/
def unhashed : Env := { fingerprint := fun _ _ _ _ => "" }

def orders : RelationRef := ⟨"", "orders"⟩

def guardedGate : List Layer := newGateFromCapabilities ⟨.unsupported, .unsupported⟩ none guarded none

end SqlMcpServer.Cost
