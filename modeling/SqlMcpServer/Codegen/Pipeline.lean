import SqlMcpServer.Codegen
import SqlMcpServer.Relalg.Truth

/-!
# A read chain in a SELECT's order

What `flatten` keeps of a chain it accepts says all of it: evaluating the parts one after the
other, in the order of a SELECT, is evaluating the chain.
-/

namespace SqlMcpServer.Codegen

open List SelectCtx
open Except (bind_eq_ok)
open Relalg Interp

def chain : Expr → List Expr
  | .scan r a => [.scan r a]
  | .select i p => .select i p :: chain i
  | .project i items => .project i items :: chain i
  | .aggregate i g as => .aggregate i g as :: chain i
  | .sort i terms => .sort i terms :: chain i
  | .limit i n o => .limit i n o :: chain i
  | .distinct i => .distinct i :: chain i
  | .having i p => .having i p :: chain i
  | .join i r a on p => .join i r a on p :: chain i

/-- Every aggregate has a column to group by or a call, and every projection an item. -/
structure Visible (e : Expr) : Prop where
  aggregates : ∀ i g as, Expr.aggregate i g as ∈ chain e → as ≠ [] ∨ g ≠ []
  projections : ∀ i items, Expr.project i items ∈ chain e → items ≠ []

section Stages
variable (db : DB) (ctx : SelectCtx)

def joinStep (r : Relation) (j : JoinNode) : Except EvalError Relation := do
  joinRows r (← Interp.scan db j.right) j.aliasName j.on j.rightPred

def SelectCtx.joinStage : Except EvalError Relation := do
  ctx.joins.foldlM (joinStep db) (← Interp.scan db ctx.relation)

def SelectCtx.whereStage : Except EvalError Relation := do
  ctx.wherePreds.foldlM (selectRows db) (← ctx.joinStage db)

def SelectCtx.groupStage : Except EvalError Relation := do
  let r ← ctx.whereStage db
  if ctx.aggregates ≠ [] ∨ ctx.groupBy ≠ [] then aggregateRows r ctx.groupBy ctx.aggregates else .ok r

def SelectCtx.havingStage : Except EvalError Relation := do
  let r ← ctx.groupStage db
  if ctx.having.isNil then .ok r else selectRows db r ctx.having

def SelectCtx.orderStage : Except EvalError Relation := do
  let r ← ctx.havingStage db
  if ctx.order = [] then .ok r else sortRows r ctx.order

def SelectCtx.projectStage : Except EvalError Relation := do
  let r ← ctx.orderStage db
  if ctx.cols = [] then .ok r else projectRows r ctx.cols

def SelectCtx.distinctStage : Except EvalError Relation := do
  let r ← ctx.projectStage db
  if ctx.distinct then distinctRows r else .ok r

def SelectCtx.limitStage : Except EvalError Relation := do
  let r ← ctx.distinctStage db
  match ctx.limit with
  | none => .ok r
  | some (count, offset) => limitRows r count offset

end Stages

/-- The parts of a rank above the context's are unset. -/
structure SelectCtx.Unset (ctx : SelectCtx) : Prop where
  joins : ctx.rank < 1 → ctx.joins = []
  wherePreds : ctx.rank < 2 → ctx.wherePreds = []
  aggregates : ctx.rank < 3 → ctx.aggregates = [] ∧ ctx.groupBy = []
  having : ctx.rank < 4 → ctx.having = .nil
  order : ctx.rank < 5 → ctx.order = []
  cols : ctx.rank < 6 → ctx.cols = []
  distinct : ctx.rank < 7 → ctx.distinct = false
  limit : ctx.rank < 8 → ctx.limit = none

section Skipped
variable (db : DB) {ctx : SelectCtx}

lemma bind_ok_eq (x : Except EvalError Relation) : (x >>= fun r => .ok r) = x := by cases x <;> rfl

lemma SelectCtx.Unset.eq_distinct (h : ctx.Unset) (hr : ctx.rank < 8) : ctx.limitStage db = ctx.distinctStage db := by
  simp only [limitStage, h.limit hr, bind_ok_eq]

lemma SelectCtx.Unset.eq_project (h : ctx.Unset) (hr : ctx.rank < 7) : ctx.limitStage db = ctx.projectStage db := by
  rw [h.eq_distinct db (by omega)]
  simp only [distinctStage, h.distinct hr, Bool.false_eq_true, if_false, bind_ok_eq]

lemma SelectCtx.Unset.eq_order (h : ctx.Unset) (hr : ctx.rank < 6) : ctx.limitStage db = ctx.orderStage db := by
  rw [h.eq_project db (by omega)]
  simp only [projectStage, h.cols hr, if_true, bind_ok_eq]

lemma SelectCtx.Unset.eq_having (h : ctx.Unset) (hr : ctx.rank < 5) : ctx.limitStage db = ctx.havingStage db := by
  rw [h.eq_order db (by omega)]
  simp only [orderStage, h.order hr, if_true, bind_ok_eq]

lemma SelectCtx.Unset.eq_group (h : ctx.Unset) (hr : ctx.rank < 4) : ctx.limitStage db = ctx.groupStage db := by
  rw [h.eq_having db (by omega)]
  simp only [havingStage, h.having hr, Predicate.isNil, if_true, bind_ok_eq]

lemma SelectCtx.Unset.eq_where (h : ctx.Unset) (hr : ctx.rank < 3) : ctx.limitStage db = ctx.whereStage db := by
  rw [h.eq_group db (by omega)]
  obtain ⟨haggs, hgroup⟩ := h.aggregates hr
  simp only [groupStage, haggs, hgroup, ne_eq, not_true_eq_false, or_self, if_false, bind_ok_eq]

lemma SelectCtx.Unset.eq_join (h : ctx.Unset) (hr : ctx.rank < 2) : ctx.limitStage db = ctx.joinStage db := by
  rw [h.eq_where db (by omega)]
  simp only [whereStage, h.wherePreds hr, foldlM_nil, pure, Except.pure, bind_ok_eq]

end Skipped

lemma sortRows_nil (r : Relation) : sortRows r [] = .ok r := by
  have herr : ∀ rows : List Row, sortErr [] rows = .ok () := by
    intro rows
    induction rows with
    | nil => rfl
    | cons a rows ih =>
      have hforM : ∀ bs : List Row, (bs.forM fun b => do let _ ← sortCompare [] a b) = .ok () := by
        intro bs
        induction bs with
        | nil => rfl
        | cons b bs ihbs => simpa [forM_cons, sortCompare] using ihbs
      rw [sortErr, hforM]
      exact ih
  have hsort : r.rows.insertionSort (fun a b => sortLE [] a b) = r.rows :=
    List.Pairwise.insertionSort_eq (pairwise_of_forall fun a b => rfl)
  simp only [sortRows, mapM_nil, Except.pure_eq_ok, Except.ok_bind, zip_nil_left, herr]
  exact congrArg (fun rows => Except.ok { r with rows }) hsort

/-- The chains `flatten` accepts, with what it makes of each. -/
inductive Flattens : Expr → SelectCtx → Prop where
  | scan (r : RelationRef) (a : String) : Flattens (.scan r a) (.start r a)
  | select {i : Expr} {c : SelectCtx} (p : Predicate) (h : Flattens i c) (hrank : c.rank ≤ 2) :
      Flattens (.select i p) { c with wherePreds := c.wherePreds ++ [p], rank := 2 }
  | project {i : Expr} {c : SelectCtx} (items : List ProjectItem) (h : Flattens i c) (hrank : c.rank < 6) :
      Flattens (.project i items) { c with cols := items, rank := 6 }
  | aggregate {i : Expr} {c : SelectCtx} (groupBy : List String) (aggregates : List AggCall) (h : Flattens i c)
      (hrank : c.rank < 3) : Flattens (.aggregate i groupBy aggregates) { c with groupBy, aggregates, rank := 3 }
  | sort {i : Expr} {c : SelectCtx} (order : List OrderTerm) (h : Flattens i c) (hrank : c.rank < 5) :
      Flattens (.sort i order) { c with order, rank := 5 }
  | limit {i : Expr} {c : SelectCtx} {n o : Int} (hn : 1 ≤ n) (h : Flattens i c) (hrank : c.rank < 8) :
      Flattens (.limit i n o) { c with limit := some (n, o), rank := 8 }
  | distinct {i : Expr} {c : SelectCtx} (h : Flattens i c) (hrank : c.rank < 7) :
      Flattens (.distinct i) { c with distinct := true, rank := 7 }
  | having {i : Expr} {c : SelectCtx} {p : Predicate} (hagg : isAggregate i = true) (hp : p.isNil = false)
      (h : Flattens i c) (hrank : c.rank < 4) : Flattens (.having i p) { c with having := p, rank := 4 }
  | join {i : Expr} {c : SelectCtx} (j : JoinNode) (h : Flattens i c) (hrank : c.rank ≤ 1) :
      Flattens (.join i j.right j.aliasName j.on j.rightPred) { c with joins := c.joins ++ [j], rank := 1 }

lemma atRank_ok {e : Expr} {ctx ctx' : SelectCtx} (h : atRank e ctx = .ok ctx') :
    (ctx.rank < (rankOf e).1 ∨ (ctx.rank = (rankOf e).1 ∧ (rankOf e).2 = true)) ∧
      { ctx with rank := (rankOf e).1 } = ctx' := by
  simp only [atRank] at h
  split at h
  · cases h
  · rename_i hrank
    cases h
    refine ⟨?_, rfl⟩
    push Not at hrank
    rcases Nat.lt_or_ge ctx.rank (rankOf e).1 with hlt | hge
    · exact .inl hlt
    · have heq : ctx.rank = (rankOf e).1 := by omega
      exact .inr ⟨heq, by simpa using hrank.2 heq⟩

lemma flattens_of_ok {e : Expr} {ctx : SelectCtx} (h : flatten e = .ok ctx) : Flattens e ctx := by
  induction e generalizing ctx with
  | scan r a =>
    cases h
    exact .scan r a
  | select i p ih =>
    rw [flatten] at h
    split at h
    · cases h
    obtain ⟨ctx₀, h₀, h⟩ := bind_eq_ok.mp h
    obtain ⟨hrank, rfl⟩ := atRank_ok h
    exact .select (c := ctx₀) p (ih h₀) (by simp only [rankOf] at hrank; omega)
  | project i items ih =>
    obtain ⟨ctx₀, h₀, h⟩ := bind_eq_ok.mp h
    obtain ⟨_, -, h⟩ := bind_eq_ok.mp h
    obtain ⟨hrank, rfl⟩ := atRank_ok h
    exact .project (c := ctx₀) items (ih h₀) (by simpa [rankOf] using hrank)
  | aggregate i g as ih =>
    obtain ⟨ctx₀, h₀, h⟩ := bind_eq_ok.mp h
    obtain ⟨hrank, rfl⟩ := atRank_ok h
    exact .aggregate (c := ctx₀) g as (ih h₀) (by simpa [rankOf] using hrank)
  | sort i terms ih =>
    obtain ⟨ctx₀, h₀, h⟩ := bind_eq_ok.mp h
    obtain ⟨hrank, rfl⟩ := atRank_ok h
    exact .sort (c := ctx₀) terms (ih h₀) (by simpa [rankOf] using hrank)
  | limit i n o ih =>
    obtain ⟨_, hn, h⟩ := bind_eq_ok.mp h
    obtain ⟨ctx₀, h₀, h⟩ := bind_eq_ok.mp h
    obtain ⟨hrank, rfl⟩ := atRank_ok h
    rw [Except.refuseIf_eq_ok] at hn
    exact .limit (c := ctx₀) (by omega) (ih h₀) (by simpa [rankOf] using hrank)
  | distinct i ih =>
    obtain ⟨ctx₀, h₀, h⟩ := bind_eq_ok.mp h
    obtain ⟨hrank, rfl⟩ := atRank_ok h
    exact .distinct (c := ctx₀) (ih h₀) (by simpa [rankOf] using hrank)
  | having i p ih =>
    obtain ⟨_, hnode, h⟩ := bind_eq_ok.mp h
    obtain ⟨ctx₀, h₀, h⟩ := bind_eq_ok.mp h
    obtain ⟨hrank, rfl⟩ := atRank_ok h
    rw [Except.refuseIf_eq_ok] at hnode
    push Not at hnode
    have hagg : isAggregate i = true := by cases i <;> simp at hnode ⊢ <;> rfl
    exact .having (c := ctx₀) hagg (by simpa using hnode.2) (ih h₀) (by simpa [rankOf] using hrank)
  | join i r a on p ih =>
    obtain ⟨_, -, h⟩ := bind_eq_ok.mp h
    obtain ⟨ctx₀, h₀, h⟩ := bind_eq_ok.mp h
    obtain ⟨_, -, h⟩ := bind_eq_ok.mp h
    obtain ⟨hrank, rfl⟩ := atRank_ok h
    exact .join (c := ctx₀) ⟨r, a, on, p⟩ (ih h₀) (by simp only [rankOf] at hrank; omega)

lemma SelectCtx.Unset.raise {ctx₀ : SelectCtx} (ctx : SelectCtx) (h : ctx₀.Unset) (hle : ctx₀.rank ≤ ctx.rank)
    (joins : ctx.rank < 1 → ctx.joins = ctx₀.joins := by simp [rankOf])
    (wherePreds : ctx.rank < 2 → ctx.wherePreds = ctx₀.wherePreds := by simp [rankOf])
    (aggregates : ctx.rank < 3 → ctx.aggregates = ctx₀.aggregates ∧ ctx.groupBy = ctx₀.groupBy := by simp [rankOf])
    (having : ctx.rank < 4 → ctx.having = ctx₀.having := by simp [rankOf])
    (order : ctx.rank < 5 → ctx.order = ctx₀.order := by simp [rankOf])
    (cols : ctx.rank < 6 → ctx.cols = ctx₀.cols := by simp [rankOf])
    (distinct : ctx.rank < 7 → ctx.distinct = ctx₀.distinct := by simp [rankOf])
    (limit : ctx.rank < 8 → ctx.limit = ctx₀.limit := by simp [rankOf]) : ctx.Unset where
  joins hr := (joins hr).trans (h.joins (by omega))
  wherePreds hr := (wherePreds hr).trans (h.wherePreds (by omega))
  aggregates hr := ⟨(aggregates hr).1.trans (h.aggregates (by omega)).1,
    (aggregates hr).2.trans (h.aggregates (by omega)).2⟩
  having hr := (having hr).trans (h.having (by omega))
  order hr := (order hr).trans (h.order (by omega))
  cols hr := (cols hr).trans (h.cols (by omega))
  distinct hr := (distinct hr).trans (h.distinct (by omega))
  limit hr := (limit hr).trans (h.limit (by omega))

/-- What `flatten` makes of a chain: nothing of a higher rank than its outermost node's is
set, and the parts evaluate to what the chain does. -/
structure Flattened (db : DB) (e : Expr) (ctx : SelectCtx) : Prop where
  unset : ctx.Unset
  eval_eq : Visible e → Interp.eval db e = ctx.limitStage db

lemma Flattened.over {db : DB} {e i : Expr} {ctx : SelectCtx} (h : Flattened db i ctx) (hv : Visible e)
    (hi : ∀ n ∈ chain i, n ∈ chain e := by simp +contextual [chain]) : Interp.eval db i = ctx.limitStage db :=
  h.eval_eq ⟨fun j g as hmem => hv.aggregates j g as (hi _ hmem), fun j items hmem => hv.projections j items (hi _ hmem)⟩

theorem flatten_flattened {db : DB} {e : Expr} {ctx : SelectCtx} (h : Flattens e ctx) : Flattened db e ctx := by
  induction h with
  | scan r a =>
    have hunset : (start r a).Unset := by constructor <;> simp [start]
    refine ⟨hunset, fun _ => ?_⟩
    rw [hunset.eq_join db (by simp [start])]
    simp [joinStage, start, bind_ok_eq, Interp.eval]
  | @select i ctx₀ p _ hrank hi =>
    have hunset := hi.unset.raise { ctx₀ with wherePreds := ctx₀.wherePreds ++ [p], rank := 2 } hrank
    refine ⟨hunset, fun hv => ?_⟩
    rw [hunset.eq_where db (by simp), Interp.eval, hi.over hv, hi.unset.eq_where db (by omega)]
    simp only [whereStage, foldlM_append, foldlM_cons, foldlM_nil, bind_assoc, bind_pure]
    rfl
  | @project i ctx₀ items _ hrank hi =>
    have hunset := hi.unset.raise { ctx₀ with cols := items, rank := 6 } hrank.le
    refine ⟨hunset, fun hv => ?_⟩
    have hitems : items ≠ [] := hv.projections i items (by simp [chain])
    rw [hunset.eq_project db (by simp), Interp.eval, hi.over hv, hi.unset.eq_order db hrank]
    simp only [projectStage, hitems, if_false]
    rfl
  | @aggregate i ctx₀ g as _ hrank hi =>
    have hunset := hi.unset.raise { ctx₀ with groupBy := g, aggregates := as, rank := 3 } hrank.le
    refine ⟨hunset, fun hv => ?_⟩
    have hsome : as ≠ [] ∨ g ≠ [] := hv.aggregates i g as (by simp [chain])
    rw [hunset.eq_group db (by simp), Interp.eval, hi.over hv, hi.unset.eq_where db hrank]
    simp only [groupStage, hsome, if_true]
    rfl
  | @sort i ctx₀ terms _ hrank hi =>
    have hunset := hi.unset.raise { ctx₀ with order := terms, rank := 5 } hrank.le
    refine ⟨hunset, fun hv => ?_⟩
    rw [hunset.eq_order db (by simp), Interp.eval, hi.over hv, hi.unset.eq_having db hrank]
    by_cases hterms : terms = []
    · subst hterms
      simp only [orderStage, sortRows_nil, if_true]
      rfl
    · simp only [orderStage, hterms, if_false]
      rfl
  | @limit i ctx₀ n o _ _ hrank hi =>
    have hunset := hi.unset.raise { ctx₀ with limit := some (n, o), rank := 8 } hrank.le
    refine ⟨hunset, fun hv => ?_⟩
    rw [Interp.eval, hi.over hv, hi.unset.eq_distinct db hrank]
    rfl
  | @distinct i ctx₀ _ hrank hi =>
    have hunset := hi.unset.raise { ctx₀ with distinct := true, rank := 7 } hrank.le
    refine ⟨hunset, fun hv => ?_⟩
    rw [hunset.eq_distinct db (by simp), Interp.eval, hi.over hv, hi.unset.eq_project db hrank]
    simp only [distinctStage, if_true]
    rfl
  | @having i ctx₀ p hagg hp _ hrank hi =>
    have hunset := hi.unset.raise { ctx₀ with having := p, rank := 4 } hrank.le
    refine ⟨hunset, fun hv => ?_⟩
    rw [hunset.eq_having db (by simp), Interp.eval, if_pos hagg, hi.over hv, hi.unset.eq_group db hrank]
    simp only [havingStage, hp, Bool.false_eq_true, if_false]
    rfl
  | @join i ctx₀ j _ hrank hi =>
    have hunset := hi.unset.raise { ctx₀ with joins := ctx₀.joins ++ [j], rank := 1 } hrank
    refine ⟨hunset, fun hv => ?_⟩
    rw [hunset.eq_join db (by simp), Interp.eval, hi.over hv, hi.unset.eq_join db (by omega)]
    simp only [joinStage, foldlM_append, foldlM_cons, foldlM_nil, bind_assoc, bind_pure]
    rfl

/-- Flattening loses nothing of a chain it accepts. -/
theorem flatten_evaluates (db : DB) (e : Expr) (ctx : SelectCtx) (h : flatten e = .ok ctx) (hv : Visible e) :
    Interp.eval db e = ctx.limitStage db :=
  (flatten_flattened (flattens_of_ok h)).eval_eq hv

/-- The first ten customers with an open order. -/
def firstCustomers : Expr :=
  .limit (.aggregate (.select (.scan ⟨"", "orders"⟩ "") (.cond ⟨"open", .eq, .bool true⟩)) ["customer"] []) 10 0

theorem flatten_evaluates_firstCustomers : Visible firstCustomers ∧ ∃ ctx, flatten firstCustomers = .ok ctx ∧
    ∀ db, Interp.eval db firstCustomers = ctx.limitStage db := by
  have hv : Visible firstCustomers := by constructor <;> simp +contextual [firstCustomers, chain]
  exact ⟨hv, _, rfl, fun db => flatten_evaluates db firstCustomers _ rfl hv⟩

end SqlMcpServer.Codegen
