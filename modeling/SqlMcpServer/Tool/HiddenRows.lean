import SqlMcpServer.Relalg.Operators
import SqlMcpServer.Tool.Plan

/-!
# Hidden rows do not interfere

A plan reads every relation through the row filter the authorizer returned for it: a conjunct of
WHERE, a join's right predicate, a conjunct of an EXISTS's body.
-/

namespace SqlMcpServer.Tool

open List
open Except (bind_eq_ok)
open Relalg Interp

def admits (filter : Predicate) (cols : List String) (row : Row) : Bool :=
  decide (truth emptyDB (rowEnv cols row) filter = .true)

/-- The databases agree on the rows a filter admits of a relation, whose columns the filter
names. -/
def AgreeRows (db₁ db₂ : DB) (relation : RelationRef) (filter : Predicate) : Prop :=
  ∃ t₁ t₂, db₁ relation.name = some t₁ ∧ db₂ relation.name = some t₂ ∧ t₁.cols = t₂.cols ∧
    (∀ c ∈ conditions filter, c.field ∈ t₁.cols) ∧
    t₁.rows.filter (admits filter t₁.cols) = t₂.rows.filter (admits filter t₁.cols)

def AgreeOn (db₁ db₂ : DB) (f : RowFilter) : Prop := AgreeRows db₁ db₂ f.1.ref f.2

def Guarded (fs : List RowFilter) : Predicate → Prop :=
  Each (fun _ => True) fun r _ p =>
    ∃ e inner filter, r = e.ref ∧ p = andPreds inner filter ∧ hasExists inner = false ∧ (e, filter) ∈ fs

variable {p : Predicate}

lemma guarded_of_hasExists {fs : List RowFilter} (h : hasExists p = false) : Guarded fs p :=
  each_of_hasExists h fun _ _ => trivial

lemma guarded_andPreds {fs : List RowFilter} {q : Predicate} (hp : Guarded fs p) (hq : Guarded fs q) :
    Guarded fs (andPreds p q) := by
  unfold andPreds
  split
  · exact hq
  split
  · exact hp
  · refine .and fun r hr => ?_
    rcases mem_cons.mp hr with rfl | hr
    · exact hp
    · exact mem_singleton.mp hr ▸ hq

variable {db : DB}

lemma truth_andPreds_eq_true {ρ : Env} {q : Predicate} :
    truth db ρ (andPreds p q) = .true ↔ truth db ρ p = .true ∧ truth db ρ q = .true := by
  unfold andPreds
  cases p <;> cases q <;> simp [Predicate.isNil]

section Agreement
variable {db₁ db₂ : DB} {fs : List RowFilter} (hagree : ∀ f ∈ fs, AgreeOn db₁ db₂ f)
  (hplain : ∀ f ∈ fs, hasExists f.2 = false)
include hagree hplain

lemma truth_guarded (h : Guarded fs p) (ρ : Env) : truth db₁ ρ p = truth db₂ ρ p := by
  induction h with
  | nil => simp
  | cond _ => simp [truth_cond]
  | and _ ih =>
    rw [truth_and, truth_and]
    exact congrArg _ (map_congr_left ih)
  | or _ ih =>
    rw [truth_or, truth_or]
    exact congrArg _ (map_congr_left ih)
  | not _ ih => rw [truth_not, truth_not, ih]
  | @ex r on p hex =>
    obtain ⟨e, inner, filter, rfl, rfl, hinner, hfilter⟩ := hex
    obtain ⟨t₁, t₂, h₁, h₂, hcols, -, hrows⟩ := hagree _ hfilter
    -- The rows found are among those the filter admits.
    have hfound : ∀ (db : DB) (t : Table),
        (t.rows.any fun candidate => onHolds ρ (rowEnv t.cols candidate) on &&
          decide (truth db (rowEnv t.cols candidate) (andPreds inner filter) = .true)) =
        ((t.rows.filter (admits filter t.cols)).any fun candidate => onHolds ρ (rowEnv t.cols candidate) on &&
          decide (truth emptyDB (rowEnv t.cols candidate) inner = .true)) := by
      intro db t
      rw [any_filter]
      congr 1
      funext candidate
      rw [Bool.eq_iff_iff]
      simp only [admits, Bool.and_eq_true, decide_eq_true_eq, truth_andPreds_eq_true, truth_emptyDB hinner,
        truth_emptyDB (hplain _ hfilter)]
      tauto
    rw [truth, truth, h₁, h₂]
    simp only
    rw [hfound, hfound, ← hcols, hrows]

end Agreement

def joinedRow (db : DB) (cols : List String) (j : JoinSpec) (row : Row) : Row :=
  match db j.right.name with
  | none => row
  | some t =>
    match t.rows.filter (fun candidate => onHolds (rowEnv cols row) (rowEnv t.cols candidate) j.on &&
        decide (truth emptyDB (rowEnv t.cols candidate) j.rightPred = .true)) with
    | [] => row ++ List.replicate t.cols.length .null
    | m :: _ => row ++ m

def joinedCols (db : DB) (cols : List String) (j : JoinSpec) : List String :=
  match db j.right.name with
  | none => cols
  | some t => cols ++ t.cols.map (joinName j.aliasName)

def joinedAll (db : DB) : List JoinSpec → List String → Row → Row
  | [], _, row => row
  | j :: js, cols, row => joinedAll db js (joinedCols db cols j) (joinedRow db cols j row)

def joinedAllCols (db : DB) : List JoinSpec → List String → List String
  | [], cols => cols
  | j :: js, cols => joinedAllCols db js (joinedCols db cols j)

variable {e : Expr}

lemma eval_join {j : JoinSpec} {rel out : Relation} (he : eval db e = .ok rel)
    (h : eval db (.join e j.right j.aliasName j.on j.rightPred) = .ok out) :
    out.rows = rel.rows.map (joinedRow db rel.cols j) ∧ out.cols = joinedCols db rel.cols j ∧
      ∃ t, db j.right.name = some t ∧ out.hidden = rel.hidden + t.cols.length := by
  rw [eval, he, Except.ok_bind] at h
  obtain ⟨right, hright, h⟩ := bind_eq_ok.mp h
  obtain ⟨rows, hrows, h⟩ := bind_eq_ok.mp h
  rw [Except.pure_eq_ok, Except.ok.injEq] at h
  unfold scan at hright
  cases ht : db j.right.name with
  | none => simp [ht] at hright
  | some t =>
    simp only [ht, Except.ok.injEq] at hright
    subst hright h
    refine ⟨?_, by simp [joinedCols, ht], t, rfl, rfl⟩
    refine Except.eq_map_of_mapM_eq_ok (fun row _ out hout => ?_) hrows
    rcases extendRow_ok (fun candidate _ v hv => evalPredicate_truth hv) hout rfl with ⟨hnone, rfl⟩ | ⟨m, hone, rfl⟩
    · simp [joinedRow, ht, hnone]
    · simp [joinedRow, ht, hone]

variable {joins : List JoinSpec}

lemma eval_wrap {rel out : Relation} (he : eval db e = .ok rel)
    (h : eval db (wrap joins e) = .ok out) :
    out.rows = rel.rows.map (joinedAll db joins rel.cols) ∧ out.cols = joinedAllCols db joins rel.cols ∧
      out.hidden + rel.cols.length = rel.hidden + out.cols.length := by
  induction joins generalizing e rel with
  | nil =>
    have hrel : rel = out := by simpa [wrap, he] using h
    subst hrel
    refine ⟨?_, rfl, rfl⟩
    change rel.rows = rel.rows.map id
    rw [map_id]
  | cons j js ih =>
    have hstep : ∃ mid, eval db (.join e j.right j.aliasName j.on j.rightPred) = .ok mid := by
      cases hm : eval db (.join e j.right j.aliasName j.on j.rightPred) with
      | ok mid => exact ⟨mid, rfl⟩
      | error err =>
        -- A failure below fails the whole chain.
        exfalso
        have hfail : ∀ (js : List JoinSpec) (e : Expr), eval db e = .error err → eval db (wrap js e) = .error err := by
          intro js
          induction js with
          | nil => exact fun e he => he
          | cons j js ihjs =>
            intro e he
            exact ihjs _ (by rw [eval, he]; rfl)
        have herr := hfail js _ hm
        rw [wrap, foldl_cons] at h
        rw [wrap, h] at herr
        cases herr
    obtain ⟨mid, hmid⟩ := hstep
    obtain ⟨hrows, hcols, t, ht, hhidden⟩ := eval_join he hmid
    obtain ⟨hrows', hcols', hhidden'⟩ := ih hmid h
    refine ⟨?_, ?_, ?_⟩
    · rw [hrows', hrows, map_map, hcols]
      rfl
    · rw [hcols', hcols]
      rfl
    · have hlen : mid.cols.length = rel.cols.length + t.cols.length := by
        rw [hcols]
        simp [joinedCols, ht]
      omega

lemma joinedAllCols_append (db : DB) (joins : List JoinSpec) (cols : List String) :
    ∃ extra, joinedAllCols db joins cols = cols ++ extra := by
  induction joins generalizing cols with
  | nil => exact ⟨[], by simp [joinedAllCols]⟩
  | cons j js ih =>
    obtain ⟨extra, hextra⟩ := ih (joinedCols db cols j)
    rw [joinedAllCols, hextra]
    unfold joinedCols
    cases db j.right.name with
    | none => exact ⟨extra, rfl⟩
    | some t => exact ⟨_, append_assoc _ _ _⟩

lemma joinedAll_append (db : DB) (joins : List JoinSpec) (cols : List String) (row : Row) :
    ∃ extra, joinedAll db joins cols row = row ++ extra := by
  induction joins generalizing cols row with
  | nil => exact ⟨[], by simp [joinedAll]⟩
  | cons j js ih =>
    obtain ⟨extra, hextra⟩ := ih (joinedCols db cols j) (joinedRow db cols j row)
    rw [joinedAll, hextra]
    unfold joinedRow
    cases db j.right.name with
    | none => exact ⟨extra, rfl⟩
    | some t =>
      simp only
      split
      · exact ⟨_, append_assoc _ _ _⟩
      · exact ⟨_, append_assoc _ _ _⟩

variable {db₁ db₂ : DB}

lemma joined_congr
    (hagree : ∀ j ∈ joins, AgreeRows db₁ db₂ j.right j.rightPred) (cols : List String) :
    joinedAllCols db₁ joins cols = joinedAllCols db₂ joins cols ∧
      ∀ row, joinedAll db₁ joins cols row = joinedAll db₂ joins cols row := by
  induction joins generalizing cols with
  | nil => exact ⟨rfl, fun _ => rfl⟩
  | cons j js ih =>
    obtain ⟨t₁, t₂, h₁, h₂, hcols, -, hrows⟩ := hagree j (by simp)
    have hc : joinedCols db₁ cols j = joinedCols db₂ cols j := by
      simp [joinedCols, h₁, h₂, hcols]
    have hr : ∀ row, joinedRow db₁ cols j row = joinedRow db₂ cols j row := by
      intro row
      have hfound : ∀ t : Table, t.rows.filter (fun candidate =>
            onHolds (rowEnv cols row) (rowEnv t.cols candidate) j.on &&
              decide (truth emptyDB (rowEnv t.cols candidate) j.rightPred = .true)) =
          (t.rows.filter (admits j.rightPred t.cols)).filter fun candidate =>
            onHolds (rowEnv cols row) (rowEnv t.cols candidate) j.on := by
        intro t
        rw [filter_filter]
        rfl
      simp only [joinedRow, h₁, h₂]
      rw [hfound, hfound, ← hcols, hrows]
    obtain ⟨hcs, hrs⟩ := ih (fun j hj => hagree j (mem_cons_of_mem _ hj)) (joinedCols db₁ cols j)
    refine ⟨?_, fun row => ?_⟩
    · rw [joinedAllCols, joinedAllCols, hcs, hc]
    · rw [joinedAll, joinedAll, hrs, hr, hc]

lemma eval_selected {full : Predicate} {out : Relation}
    (h : eval db (selected e full) = .ok out) :
    ∃ rel, eval db e = .ok rel ∧
      out = { rel with rows := rel.rows.filter fun row => truth db (rowEnv rel.cols row) full = .true } := by
  unfold selected at h
  split at h
  · rename_i hnil
    refine ⟨out, h, ?_⟩
    have hfull : full = .nil := by cases full <;> simp [Predicate.isNil] at hnil ⊢
    simp [hfull]
  · rw [eval] at h
    obtain ⟨rel, hrel, h⟩ := bind_eq_ok.mp h
    refine ⟨rel, hrel, ?_⟩
    exact selectRows_ok h

/-- The rows selected of a relation joined to its targets are decided by the rows the filters
admit. -/
lemma selected_eq {r : RelationRef} {filter rest full : Predicate}
    (hroot : AgreeRows db₁ db₂ r filter) (hplain : hasExists filter = false)
    (hjoins : ∀ j ∈ joins, AgreeRows db₁ db₂ j.right j.rightPred)
    (hrest : ∀ ρ, truth db₁ ρ rest = truth db₂ ρ rest)
    (hfull : ∀ db ρ, truth db ρ full = .true ↔ truth db ρ filter = .true ∧ truth db ρ rest = .true)
    {out₁ out₂ : Relation} (h₁ : eval db₁ (selected (wrap joins (.scan r "")) full) = .ok out₁)
    (h₂ : eval db₂ (selected (wrap joins (.scan r "")) full) = .ok out₂) : out₁ = out₂ := by
  obtain ⟨t₁, t₂, ht₁, ht₂, hcols, hnames, hrows⟩ := hroot
  have hscan : ∀ (db : DB) (t : Table), db r.name = some t → eval db (.scan r "") = .ok ⟨t.cols, t.rows, 0⟩ := by
    intro db t ht
    simp [eval, scan, ht]
  -- What one database selects: the joined rows of the admitted rows that pass the rest.
  have hsel : ∀ (db : DB) (t : Table) (out : Relation), db r.name = some t →
      (∀ c ∈ conditions filter, c.field ∈ t.cols) →
      eval db (selected (wrap joins (.scan r "")) full) = .ok out →
      out.cols = joinedAllCols db joins t.cols ∧ out.hidden + t.cols.length = out.cols.length ∧
        out.rows = ((t.rows.filter (admits filter t.cols)).filter fun row =>
          truth db (rowEnv (joinedAllCols db joins t.cols) (joinedAll db joins t.cols row)) rest = .true).map
            (joinedAll db joins t.cols) := by
    intro db t out ht hnames h
    obtain ⟨rel, hrel, hout⟩ := eval_selected h
    obtain ⟨hr, hc, hh⟩ := eval_wrap (hscan db t ht) hrel
    rw [hout]
    refine ⟨hc, by simpa using hh, ?_⟩
    simp only
    rw [hr, filter_map, filter_filter, hc]
    congr 1
    refine filter_congr fun row hrow => ?_
    have hlen := t.rect row hrow
    have hfilter : truth db (rowEnv (joinedAllCols db joins t.cols) (joinedAll db joins t.cols row)) filter =
        truth emptyDB (rowEnv t.cols row) filter := by
      refine truth_congr hplain fun c hcond => ?_
      obtain ⟨extra, hextra⟩ := joinedAllCols_append db joins t.cols
      obtain ⟨tail, htail⟩ := joinedAll_append db joins t.cols row
      rw [hextra, htail]
      exact rowEnv_append hlen (hnames c hcond)
    rw [Bool.eq_iff_iff]
    simp only [Function.comp_apply, decide_eq_true_eq, Bool.and_eq_true, admits, hfull, hfilter]
    tauto
  obtain ⟨hc₁, hh₁, hr₁⟩ := hsel db₁ t₁ out₁ ht₁ hnames h₁
  obtain ⟨hc₂, hh₂, hr₂⟩ := hsel db₂ t₂ out₂ ht₂ (hcols ▸ hnames) h₂
  obtain ⟨hjc, hjr⟩ := joined_congr hjoins t₁.cols
  have hcols' : out₁.cols = out₂.cols := by rw [hc₁, hc₂, hjc, hcols]
  have hrows' : out₁.rows = out₂.rows := by
    rw [hr₁, hr₂, ← hcols, hrows]
    have hfun : joinedAll db₁ joins t₁.cols = joinedAll db₂ joins t₁.cols := funext hjr
    simp only [hfun, hjc, hrest]
  have hhidden : out₁.hidden = out₂.hidden := by
    have hl := congrArg List.length hcols
    have hl' := congrArg List.length hcols'
    omega
  cases out₁
  cases out₂
  simp only at hcols' hrows' hhidden
  subst hcols' hrows' hhidden
  rfl

def SameOn (db₁ db₂ : DB) (e : Expr) : Prop :=
  ∀ r₁ r₂, eval db₁ e = .ok r₁ → eval db₂ e = .ok r₂ → r₁ = r₂

lemma SameOn.bind {e' : Expr} (f : Relation → Except EvalError Relation)
    (h₁ : eval db₁ e' = eval db₁ e >>= f) (h₂ : eval db₂ e' = eval db₂ e >>= f) (h : SameOn db₁ db₂ e) :
    SameOn db₁ db₂ e' := by
  intro r₁ r₂ hr₁ hr₂
  rw [h₁] at hr₁
  rw [h₂] at hr₂
  obtain ⟨m₁, hm₁, hr₁⟩ := bind_eq_ok.mp hr₁
  obtain ⟨m₂, hm₂, hr₂⟩ := bind_eq_ok.mp hr₂
  rw [h m₁ m₂ hm₁ hm₂] at hr₁
  exact Except.ok.inj (hr₁.symm.trans hr₂)

section Operators
variable {db₁ db₂ : DB} {e : Expr} (h : SameOn db₁ db₂ e)
include h

lemma SameOn.project (items : List ProjectItem) : SameOn db₁ db₂ (.project e items) :=
  h.bind (projectRows · items) (by rw [eval]) (by rw [eval])

lemma SameOn.aggregate (groupBy : List String) (calls : List AggCall) :
    SameOn db₁ db₂ (.aggregate e groupBy calls) :=
  h.bind (aggregateRows · groupBy calls) (by rw [eval]) (by rw [eval])

lemma SameOn.distinct : SameOn db₁ db₂ (.distinct e) := h.bind distinctRows (by rw [eval]) (by rw [eval])

lemma SameOn.sortedBy (terms : List OrderTerm) : SameOn db₁ db₂ (sortedBy e terms) := by
  unfold Tool.sortedBy
  split
  · exact h
  · exact h.bind (sortRows · terms) (by rw [eval]) (by rw [eval])

lemma SameOn.limited (limit offset : Int) : SameOn db₁ db₂ (limited e limit offset) := by
  unfold Tool.limited
  split
  · exact h.bind (limitRows · limit offset) (by rw [eval]) (by rw [eval])
  · exact h

end Operators

lemma SameOn.having (h : SameOn db₁ db₂ e) (hp : hasExists p = false) :
    SameOn db₁ db₂ (.having e p) := by
  have hsel := selectRows_noExists db₁ db₂ hp
  intro r₁ r₂ hr₁ hr₂
  rw [eval] at hr₁ hr₂
  by_cases ha : isAggregate e
  · simp only [ha, if_true] at hr₁ hr₂
    obtain ⟨m₁, hm₁, hr₁⟩ := bind_eq_ok.mp hr₁
    obtain ⟨m₂, hm₂, hr₂⟩ := bind_eq_ok.mp hr₂
    rw [h m₁ m₂ hm₁ hm₂, hsel] at hr₁
    exact Except.ok.inj (hr₁.symm.trans hr₂)
  · simp only [ha] at hr₁
    cases hr₁

lemma relate_guarded {tc : Context} {e : Entity} {pred : Predicate} {paths : List String} {rs : Relations}
    (h : relate tc e pred paths = .ok rs) : Guarded rs.filters rs.pred ∧
      ∀ j ∈ rs.rel.joins, ∃ f ∈ rs.filters, j.right = f.1.ref ∧ j.rightPred = f.2 := by
  obtain ⟨⟨steps, -, -, hrel, -, hfilters⟩, hpred⟩ := relate_ok h
  refine ⟨(hpred (fun _ => True) fun _ _ => trivial).mono (fun _ => id) ?_, fun j hj => ?_⟩
  · rintro r on p ⟨hex⟩
    refine ⟨hex.target.entity, hex.inner, hex.grant.rowFilter, hex.ref_eq, hex.pred_eq, ?_, hex.filter_mem⟩
    have hrequest : Plain (fun _ => True) (columnsPredicate hex.target.entity hex.request) :=
      each_of_hasExists (by rw [columnsPredicate, hasExists_mapConditions, hex.plain]) fun _ _ => trivial
    have hinner : Plain (fun _ => True) hex.inner :=
      each_coercePredicate (F := fun _ => True) hrequest hex.coerced
    exact hinner.hasExists_eq
  · rw [hrel] at hj hfilters
    simp only [Related.add, nil_append, mem_map] at hj hfilters
    obtain ⟨s, hs, rfl⟩ := hj
    exact ⟨_, hfilters _ ⟨s, hs, rfl⟩, rfl, rfl⟩

section Plans
variable {tc : Context} {db₁ db₂ : DB}

lemma sameOn_selected {e : Entity} {filter rest full : Predicate} {targets : List RowFilter}
    (hagree : ∀ f ∈ (e, filter) :: targets, AgreeOn db₁ db₂ f)
    (hplain : ∀ f ∈ (e, filter) :: targets, hasExists f.2 = false) (hrest : Guarded targets rest)
    (hjoins : ∀ j ∈ joins, ∃ f ∈ targets, j.right = f.1.ref ∧ j.rightPred = f.2)
    (hfull : ∀ db ρ, truth db ρ full = .true ↔ truth db ρ filter = .true ∧ truth db ρ rest = .true) :
    SameOn db₁ db₂ (selected (wrap joins (.scan e.ref "")) full) := by
  have hroot := mem_cons_self (a := (e, filter)) (l := targets)
  have htargets : ∀ f ∈ targets, f ∈ (e, filter) :: targets := fun f hf => mem_cons_of_mem _ hf
  have hsame : ∀ ρ, truth db₁ ρ rest = truth db₂ ρ rest :=
    truth_guarded (fun f hf => hagree f (htargets f hf)) (fun f hf => hplain f (htargets f hf)) hrest
  have hjoined : ∀ j ∈ joins, AgreeRows db₁ db₂ j.right j.rightPred := by
    intro j hj
    obtain ⟨f, hf, hright, hpred⟩ := hjoins j hj
    rw [hright, hpred]
    exact hagree f (htargets f hf)
  intro r₁ r₂ h₁ h₂
  exact selected_eq (hagree _ hroot) (hplain _ hroot) hjoined hsame hfull h₁ h₂

lemma sameOn_read {input : ReadInput} {plan : ReadPlan} (h : ReadPlanned tc input plan)
    (hagree : ∀ f ∈ plan.rowFilters, AgreeOn db₁ db₂ f) (hplain : ∀ f ∈ plan.rowFilters, hasExists f.2 = false) :
    SameOn db₁ db₂ (buildReadExpression input plan) := by
  obtain ⟨hpred, hjoins⟩ := relate_guarded h.relate_ok
  rw [← h.pred_eq, ← h.targets_eq] at hpred
  rw [← h.rel_eq, ← h.targets_eq] at hjoins
  have hkeyset : Guarded plan.targets plan.keyset := guarded_of_hasExists (readCursor_spec h.cursor_ok).1.hasExists_eq
  have hfull : ∀ db ρ, truth db ρ plan.full = .true ↔
      truth db ρ plan.grant.rowFilter = .true ∧ truth db ρ (andPreds plan.pred plan.keyset) = .true := by
    intro db ρ
    simp only [ReadPlan.full, truth_andPreds_eq_true]
    tauto
  have hselected := sameOn_selected hagree hplain (guarded_andPreds hpred hkeyset) hjoins hfull
  have hprojected := (hselected.sortedBy plan.orderTerms).project
    (projectItems plan.res.entity plan.grant.fields)
  unfold buildReadExpression
  refine SameOn.limited ?_ input.limit input.offset
  split
  · exact hprojected.distinct
  · exact hprojected

lemma sameOn_aggregate {input : AggregateInput} {plan : AggregatePlan} {expr : Expr}
    (h : AggregatePlanned tc input plan) (hexpr : AggregateShaped tc plan input expr)
    (hagree : ∀ f ∈ plan.rowFilters, AgreeOn db₁ db₂ f) (hplain : ∀ f ∈ plan.rowFilters, hasExists f.2 = false) :
    SameOn db₁ db₂ expr := by
  obtain ⟨hpred, hjoins⟩ := relate_guarded h.relate_ok
  rw [← h.pred_eq, ← h.targets_eq] at hpred
  rw [← h.rel_eq, ← h.targets_eq] at hjoins
  have hfull : ∀ db ρ, truth db ρ plan.full = .true ↔
      truth db ρ plan.grant.rowFilter = .true ∧ truth db ρ plan.pred = .true := by
    intro db ρ
    rw [AggregatePlan.full, truth_andPreds_eq_true, and_comm]
  have hselected := sameOn_selected hagree hplain hpred hjoins hfull
  rw [hexpr.expr_eq]
  refine (SameOn.sortedBy ?_ hexpr.terms).limited input.limit 0
  have hagg := hselected.aggregate
    (input.groupBy.map fun g => plan.rel.field (columnOf plan.res.entity g))
    (hexpr.calls.map fun c => { c with field := columnOf plan.res.entity c.field })
  split
  · exact hagg
  · exact hagg.having (by rw [Related.renamed, hasExists_mapConditions, hexpr.having_plain])

end Plans

lemma SameOn.evalResult (h : SameOn db₁ db₂ e) {r₁ r₂ : Relation}
    (h₁ : evalResult db₁ e = .ok r₁) (h₂ : evalResult db₂ e = .ok r₂) : r₁ = r₂ := by
  obtain ⟨m₁, hm₁, h₁⟩ := bind_eq_ok.mp h₁
  obtain ⟨m₂, hm₂, h₂⟩ := bind_eq_ok.mp h₂
  rw [h m₁ m₂ hm₁ hm₂] at h₁
  exact Except.ok.inj (h₁.symm.trans h₂)

/-- Hidden rows do not interfere: on two databases that agree on the rows each entity's
filter admits, a read or an aggregate that evaluates on both evaluates to the same rows. -/
theorem hidden_rows_do_not_interfere (tc : Context) (db₁ db₂ : DB) :
    (∀ (input : ReadInput) (plan : ReadPlan) (r₁ r₂ : Relation), prepareReadPlan tc input = .ok plan →
      (∀ f ∈ plan.rowFilters, AgreeOn db₁ db₂ f) → (∀ f ∈ plan.rowFilters, hasExists f.2 = false) →
      evalResult db₁ (buildReadExpression input plan) = .ok r₁ →
      evalResult db₂ (buildReadExpression input plan) = .ok r₂ → r₁ = r₂) ∧
    (∀ (input : AggregateInput) (plan : AggregatePlan) (expr : Expr) (r₁ r₂ : Relation),
      prepareAggregate tc input = .ok plan → aggregateExpression tc plan input = .ok expr →
      (∀ f ∈ plan.rowFilters, AgreeOn db₁ db₂ f) → (∀ f ∈ plan.rowFilters, hasExists f.2 = false) →
      evalResult db₁ expr = .ok r₁ → evalResult db₂ expr = .ok r₂ → r₁ = r₂) := by
  refine ⟨fun input plan r₁ r₂ hplan hagree hplain h₁ h₂ => ?_,
    fun input plan expr r₁ r₂ hplan hexpr hagree hplain h₁ h₂ => ?_⟩
  · obtain ⟨planned⟩ := prepareReadPlan_ok hplan
    exact (sameOn_read planned hagree hplain).evalResult h₁ h₂
  · obtain ⟨planned⟩ := prepareAggregate_ok hplan
    obtain ⟨shaped⟩ := aggregateExpression_ok hexpr
    exact (sameOn_aggregate planned shaped hagree hplain).evalResult h₁ h₂

def invoices : Entity :=
  { name := "invoices", source := "invoices",
    attributes := [{ name := "id", named := Attribute.named_id }, { name := "total" },
      { name := "tenant", excluded := true, named := Attribute.named_tenant }] }

def invoicesRegistry : Registry := ⟨[invoices], by simp [invoices], by simp⟩

def ownTenant : Predicate := .cond ⟨"tenant", .eq, .num 7⟩

def invoicesContext : Context :=
  { registry := invoicesRegistry, role := "clerk", parsers := ⟨fun _ => none, fun _ => none⟩,
    authorize := fun _ => .ok { allowed := true, fields := ["id", "total"], rowFilter := ownTenant } }

def invoicesOver : ReadInput :=
  { entity := "invoices", fields := ["id", "total"], filter := [.mk "total" "gt" (.num 10) none none none "" none],
    limit := 5 }

def ownRows : List Row := [[.num 1, .num 20, .num 7], [.num 2, .num 5, .num 7]]

def invoicesTable (hidden : Value) : Table :=
  ⟨["id", "total", "tenant"], ownRows ++ [[.num 3, hidden, .num 8]], by simp [ownRows]⟩

def invoicesDB (hidden : Value) : DB := fun name => if name = "invoices" then some (invoicesTable hidden) else none

lemma agreeOn_invoicesDB (a b : Value) : AgreeOn (invoicesDB a) (invoicesDB b) (invoices, ownTenant) := by
  refine ⟨invoicesTable a, invoicesTable b, rfl, rfl, rfl, by simp [conditions, ownTenant, invoicesTable], ?_⟩
  rfl

theorem hidden_rows_do_not_interfere_invoices : ∃ plan,
    prepareReadPlan invoicesContext invoicesOver = .ok plan ∧
      (∀ f ∈ plan.rowFilters, AgreeOn (invoicesDB (.num 30)) (invoicesDB (.num 1)) f) ∧
      evalResult (invoicesDB (.num 30)) (buildReadExpression invoicesOver plan) =
        .ok ⟨["id", "total"], [[.num 1, .num 20]], 0⟩ ∧
      ∀ r, evalResult (invoicesDB (.num 1)) (buildReadExpression invoicesOver plan) = .ok r →
        r = ⟨["id", "total"], [[.num 1, .num 20]], 0⟩ := by
  obtain ⟨plan, hplan⟩ : ∃ plan, prepareReadPlan invoicesContext invoicesOver = .ok plan := ⟨_, rfl⟩
  have hfilters : plan.rowFilters = [(invoices, ownTenant)] := by cases hplan; rfl
  have hagree : ∀ f ∈ plan.rowFilters, AgreeOn (invoicesDB (.num 30)) (invoicesDB (.num 1)) f := by
    rw [hfilters]
    simpa using agreeOn_invoicesDB (.num 30) (.num 1)
  have heval : evalResult (invoicesDB (.num 30)) (buildReadExpression invoicesOver plan) =
      .ok ⟨["id", "total"], [[.num 1, .num 20]], 0⟩ := by cases hplan; rfl
  refine ⟨plan, hplan, hagree, heval, fun r hr => ?_⟩
  exact ((hidden_rows_do_not_interfere invoicesContext _ _).1 invoicesOver plan _ _ hplan hagree
    (by rw [hfilters]; simp [ownTenant, hasExists]) heval hr).symm

/-- A hidden row whose total is no number fails the read, as the filter on totals is
evaluated before the row filter. -/
theorem hidden_row_fails_read : ∃ plan,
    prepareReadPlan invoicesContext invoicesOver = .ok plan ∧
      (∀ f ∈ plan.rowFilters, AgreeOn (invoicesDB (.num 30)) (invoicesDB (.str "n/a")) f ∧ hasExists f.2 = false) ∧
      evalResult (invoicesDB (.num 30)) (buildReadExpression invoicesOver plan) =
        .ok ⟨["id", "total"], [[.num 1, .num 20]], 0⟩ ∧
      evalResult (invoicesDB (.str "n/a")) (buildReadExpression invoicesOver plan) =
        .error (.incomparable (.str "n/a") (.num 10)) := by
  refine ⟨_, rfl, ?_, rfl, rfl⟩
  intro f hf
  obtain rfl := mem_singleton.mp hf
  exact ⟨agreeOn_invoicesDB _ _, rfl⟩

end SqlMcpServer.Tool
