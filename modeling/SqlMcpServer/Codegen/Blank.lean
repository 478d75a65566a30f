import SqlMcpServer.Codegen.Statement

namespace SqlMcpServer.Codegen

open Except (Agree bind_eq_ok)
open Relalg Sql

def blankValue (op : Op) (value : Value) : Value :=
  match op, value with
  | .isIn, .list vs | .notIn, .list vs => .list (vs.map fun _ => .null)
  | _, _ => .null

mutual
def blank : Predicate → Predicate
  | .nil => .nil
  | .cond c => .cond { c with value := blankValue c.op c.value }
  | .and ps => .and (blankAll ps)
  | .or ps => .or (blankAll ps)
  | .not p => .not (blank p)
  | .ex r on p => .ex r on (blank p)

def blankAll : List Predicate → List Predicate
  | [] => []
  | p :: ps => blank p :: blankAll ps
end

def blankExpr : Expr → Expr
  | .scan r scanAlias => .scan r scanAlias
  | .select input p => .select (blankExpr input) (blank p)
  | .project input items => .project (blankExpr input) items
  | .aggregate input groupBy aggregates => .aggregate (blankExpr input) groupBy aggregates
  | .sort input orderBy => .sort (blankExpr input) orderBy
  | .limit input count offset => .limit (blankExpr input) count offset
  | .distinct input => .distinct (blankExpr input)
  | .having input p => .having (blankExpr input) (blank p)
  | .join input right aliasName on p => .join (blankExpr input) right aliasName on (blank p)

/-- A root without its condition values, SET values, tuple values and call arguments. -/
def blankNode : Statement.Node → Statement.Node
  | .read e => .read (blankExpr e)
  | .insert target columns tuples => .insert target columns (tuples.map fun t => t.map fun _ => .null)
  | .update target p set => .update target (blank p) (set.map fun s => (s.1, .null))
  | .delete target p => .delete target (blank p)
  | .call procedure args => .call procedure (args.map fun _ => .null)

def Builder.blank (b : Builder) : Builder := { b with args := b.args.map fun _ => .null }

def JoinNode.blank (j : JoinNode) : JoinNode := { j with rightPred := Codegen.blank j.rightPred }

def SelectCtx.blank (ctx : SelectCtx) : SelectCtx :=
  { ctx with
    joins := ctx.joins.map JoinNode.blank
    wherePreds := ctx.wherePreds.map Codegen.blank
    having := Codegen.blank ctx.having }

/-- Two results of writing: the same, after as many arguments and EXISTS. -/
def Alike {α : Type} (x y : α × Builder) : Prop := x.1 = y.1 ∧ x.2.blank = y.2.blank

lemma blankAll_eq_map (ps : List Predicate) : blankAll ps = ps.map blank := by
  induction ps with
  | nil => rfl
  | cons p ps ih => rw [blankAll, ih, List.map_cons]

@[simp] lemma isNil_blank (p : Predicate) : (blank p).isNil = p.isNil := by cases p <;> rfl

@[simp] lemma hasExists_blank (p : Predicate) : hasExists (blank p) = hasExists p := by
  induction p using Predicate.ind with
  | nil | cond c | ex r on p => rfl
  | and ps ih | or ps ih =>
    rw [blank, hasExists, hasExists]
    induction ps with
    | nil => rfl
    | cons p ps ihps =>
      rw [blankAll, hasExistsList, hasExistsList, ih p (by simp), ihps fun q hq => ih q (List.mem_cons_of_mem _ hq)]
  | not p ih => rw [blank, hasExists, hasExists, ih]

variable {b b' : Builder} {p p' : Predicate}

lemma Builder.blank_eq : b.blank = b'.blank ↔ b.args.length = b'.args.length ∧ b.exists_ = b'.exists_ := by
  simp [Builder.blank, List.map_const', List.replicate_inj]

lemma bind_alike {vs vs' : List Value} (hb : b.blank = b'.blank) (hlen : vs.length = vs'.length) :
    Alike (b.bind vs) (b'.bind vs') := by
  obtain ⟨hargs, hexists⟩ := Builder.blank_eq.mp hb
  refine ⟨?_, Builder.blank_eq.mpr ⟨?_, hexists⟩⟩
  · rw [Builder.bind, Builder.bind, hargs, hlen]
  · simp only [Builder.bind, List.length_append, hargs, hlen]

lemma length_operands (op : Op) (v : Value) : (operands op (blankValue op v)).length = (operands op v).length := by
  cases op <;> cases v <;> simp [operands, blankValue]

lemma isNil_alike (halike : blank p = blank p') : p.isNil = p'.isNil := by
  rw [← isNil_blank p, halike, isNil_blank]

section Rendering
variable {maxIN : Int} {ns : Names} {scope : String}

lemma renderCondition_alike {c c' : Condition} (halike : blank (.cond c) = blank (.cond c')) (hb : b.blank = b'.blank) :
    Agree Alike (renderCondition maxIN ns scope c b) (renderCondition maxIN ns scope c' b') := by
  rintro ⟨q, b₁⟩ ⟨q', b₁'⟩ h h'
  obtain ⟨rfl, rfl⟩ := renderCondition_eq h
  obtain ⟨rfl, rfl⟩ := renderCondition_eq h'
  obtain ⟨field, op, value⟩ := c
  obtain ⟨field', op', value'⟩ := c'
  simp only [blank, Predicate.cond.injEq, Condition.mk.injEq] at halike
  obtain ⟨rfl, rfl, hvalue⟩ := halike
  have hlen : (operands op value).length = (operands op value').length := by
    rw [← length_operands op value, hvalue, length_operands]
  obtain ⟨hbind, hblank⟩ := bind_alike hb hlen
  exact ⟨by rw [hbind], hblank⟩

lemma renderPredicates_alike {ps ps' : List Predicate} (ih : ∀ p ∈ ps, ∀ {p' : Predicate} {b b' : Builder},
      blank p = blank p' → b.blank = b'.blank →
      Agree Alike (renderPredicate maxIN ns scope p b) (renderPredicate maxIN ns scope p' b'))
    (halike : blankAll ps = blankAll ps') (hb : b.blank = b'.blank) :
    Agree Alike (renderPredicates maxIN ns scope ps b) (renderPredicates maxIN ns scope ps' b') := by
  induction ps generalizing ps' b b' with
  | nil =>
    cases ps' with
    | nil =>
      rw [renderPredicates, renderPredicates]
      exact .ok ⟨rfl, hb⟩
    | cons => cases halike
  | cons p ps ihps =>
    cases ps' with
    | nil => cases halike
    | cons p' ps' =>
      obtain ⟨hp, hps⟩ := List.cons.inj halike
      rw [renderPredicates, renderPredicates]
      refine (ih p (by simp) hp hb).bind fun x x' hx => ?_
      refine (ihps (fun q hq => ih q (List.mem_cons_of_mem _ hq)) hps hx.2).bind fun y y' hy => ?_
      exact .ok ⟨by rw [hx.1, hy.1], hy.2⟩

/-- What is written for a predicate does not depend on its values. -/
theorem renderPredicate_alike (halike : blank p = blank p') (hb : b.blank = b'.blank) :
    Agree Alike (renderPredicate maxIN ns scope p b) (renderPredicate maxIN ns scope p' b') := by
  induction p using Predicate.ind generalizing p' scope b b' with
  | nil =>
    cases p' with
    | nil =>
      rw [renderPredicate]
      exact .ok ⟨rfl, hb⟩
    | _ => cases halike
  | cond c =>
    cases p' with
    | cond c' =>
      rw [renderPredicate, renderPredicate]
      exact renderCondition_alike halike hb
    | _ => cases halike
  | and ps ih =>
    cases p' with
    | and ps' =>
      rw [renderPredicate, renderPredicate]
      refine (renderPredicates_alike (fun p hp => ih p hp) (Predicate.and.inj halike) hb).bind fun x y hxy => ?_
      exact .ok ⟨by rw [hxy.1], hxy.2⟩
    | _ => cases halike
  | or ps ih =>
    cases p' with
    | or ps' =>
      rw [renderPredicate, renderPredicate]
      refine (renderPredicates_alike (fun p hp => ih p hp) (Predicate.or.inj halike) hb).bind fun x y hxy => ?_
      exact .ok ⟨by rw [hxy.1], hxy.2⟩
    | _ => cases halike
  | not p ih =>
    cases p' with
    | not p' =>
      rw [renderPredicate, renderPredicate]
      exact (ih (Predicate.not.inj halike) hb).bind fun x y hxy => .ok ⟨by rw [hxy.1], hxy.2⟩
    | _ => cases halike
  | ex r on p ih =>
    cases p' with
    | ex r' on' p' =>
      obtain ⟨rfl, rfl, hp⟩ := Predicate.ex.inj halike
      obtain ⟨hargs, hexists⟩ := Builder.blank_eq.mp hb
      have hnext : ({ b with exists_ := b.exists_ + 1 } : Builder).blank = { b' with exists_ := b.exists_ + 1 }.blank :=
        Builder.blank_eq.mpr ⟨hargs, rfl⟩
      rw [renderPredicate, renderPredicate, isNil_alike hp, ← hexists]
      split_ifs
      · rintro _ _ ⟨⟩
      · exact .ok ⟨rfl, hnext⟩
      · exact (ih hp hnext).bind fun x y hxy => .ok ⟨by rw [hxy.1], hxy.2⟩
    | _ => cases halike

lemma renderJoin_alike {j j' : JoinNode} (halike : j.blank = j'.blank) (hb : b.blank = b'.blank) :
    Agree Alike (renderJoin maxIN ns j b) (renderJoin maxIN ns j' b') := by
  obtain ⟨right, aliasName, on, p⟩ := j
  obtain ⟨right', aliasName', on', p'⟩ := j'
  simp only [JoinNode.blank, JoinNode.mk.injEq] at halike
  obtain ⟨rfl, rfl, rfl, hp⟩ := halike
  refine .after fun _ _ => ?_
  dsimp only
  rw [isNil_alike hp]
  split_ifs
  · exact .ok ⟨rfl, hb⟩
  · exact (renderPredicate_alike hp hb).bind fun x y hxy => .ok ⟨by rw [hxy.1], hxy.2⟩

lemma renderJoins_alike {js js' : List JoinNode} (halike : js.map JoinNode.blank = js'.map JoinNode.blank)
    (hb : b.blank = b'.blank) : Agree Alike (renderJoins maxIN ns js b) (renderJoins maxIN ns js' b') := by
  induction js generalizing js' b b' with
  | nil =>
    obtain rfl := List.map_eq_nil_iff.mp halike.symm
    exact .ok ⟨rfl, hb⟩
  | cons j js ih =>
    cases js' with
    | nil => cases halike
    | cons j' js' =>
      obtain ⟨hj, hjs⟩ := List.cons.inj halike
      refine (renderJoin_alike hj hb).bind fun x x' hx => (ih hjs hx.2).bind fun y y' hy => ?_
      exact .ok ⟨by rw [hx.1, hy.1], hy.2⟩

lemma renderClause_alike {p p' : Option Predicate} (halike : p.map blank = p'.map blank) (hb : b.blank = b'.blank) :
    Agree Alike (renderClause maxIN ns p b) (renderClause maxIN ns p' b') := by
  cases p with
  | none =>
    obtain rfl := Option.map_eq_none_iff.mp halike.symm
    exact .ok ⟨rfl, hb⟩
  | some p =>
    obtain ⟨p', rfl, hp⟩ := Option.map_eq_some_iff.mp halike.symm
    exact (renderPredicate_alike hp.symm hb).bind fun x y hxy => .ok ⟨by rw [hxy.1], hxy.2⟩

end Rendering

lemma Flattens.alike {e e' : Expr} {ctx ctx' : SelectCtx} (h : Flattens e ctx) (h' : Flattens e' ctx')
    (halike : blankExpr e = blankExpr e') : ctx.blank = ctx'.blank := by
  induction h generalizing e' ctx' <;> cases h' <;> simp only [blankExpr, reduceCtorEq, Expr.scan.injEq, Expr.select.injEq,
    Expr.project.injEq, Expr.aggregate.injEq, Expr.sort.injEq, Expr.limit.injEq, Expr.distinct.injEq, Expr.having.injEq,
    Expr.join.injEq] at halike
  all_goals grind [SelectCtx.blank, SelectCtx.start, JoinNode.blank]

lemma root_blank (ctx : SelectCtx) : ctx.blank.root = ctx.root := by
  have hjoins : (ctx.blank.joins ≠ []) = (ctx.joins ≠ []) := by simp [SelectCtx.blank]
  have hhaving : hasExists ctx.blank.having = hasExists ctx.having := hasExists_blank _
  have hwhere : ctx.blank.wherePreds.any hasExists = ctx.wherePreds.any hasExists := by
    simp [SelectCtx.blank, List.any_map, Function.comp_def]
  have hscan : ctx.blank.scanAlias = ctx.scanAlias := rfl
  simp only [SelectCtx.root, hjoins, hhaving, hwhere, hscan]

lemma selectItems_blank (ns : Names) (ctx : SelectCtx) : selectItems ns ctx.blank = selectItems ns ctx := by
  unfold selectItems
  simp [SelectCtx.blank]

lemma wherePred_blank (ps : List Predicate) : wherePred (ps.map blank) = (wherePred ps).map blank := by
  match ps with
  | [] => rfl
  | [p] => rfl
  | p :: p' :: ps => simp [wherePred, blank, blankAll_eq_map]

lemma havingClause_blank (p : Predicate) :
    (if (blank p).isNil then none else some (blank p) : Option Predicate) = (if p.isNil then none else some p : Option Predicate).map blank := by
  rw [isNil_blank]
  split_ifs <;> rfl

/-- Reads that differ in values only are the same SELECT. -/
theorem renderSelect_alike {cfg : Config} {e e' : Expr} (halike : blankExpr e = blankExpr e') :
    Agree (fun c c' => c.select = c'.select) (renderSelect cfg e) (renderSelect cfg e') := by
  refine Agree.bind (R := fun ctx ctx' => ctx.blank = ctx'.blank)
    (fun ctx ctx' h h' => (flattens_of_ok h).alike (flattens_of_ok h') halike) fun ctx ctx' hsame => ?_
  have hroot : ctx.root = ctx'.root := by rw [← root_blank, hsame, root_blank]
  have hnames : ctx.joins.map JoinNode.aliasName = ctx'.joins.map JoinNode.aliasName := by
    have hblank := congrArg (fun c : SelectCtx => c.joins.map JoinNode.aliasName) hsame
    simpa [SelectCtx.blank, JoinNode.blank, Function.comp_def] using hblank
  have hitems := fun ns => selectItems_blank ns ctx ▸ hsame ▸ (selectItems_blank ns ctx').symm
  have hwhere : (wherePred ctx.wherePreds).map blank = (wherePred ctx'.wherePreds).map blank := by
    rw [← wherePred_blank, ← wherePred_blank]
    exact congrArg (fun c : SelectCtx => wherePred c.wherePreds) hsame
  have hhaving : (if ctx.having.isNil then none else some ctx.having : Option Predicate).map blank =
      (if ctx'.having.isNil then none else some ctx'.having : Option Predicate).map blank := by
    rw [← havingClause_blank, ← havingClause_blank]
    exact congrArg (fun c : SelectCtx => if c.having.isNil then none else some c.having) hsame
  simp only [SelectCtx.blank, SelectCtx.mk.injEq] at hsame
  obtain ⟨hrelation, hscan, hjoins, -, -, horder, hgroup, hcalls, -, hlimit, hdistinct, -⟩ := hsame
  refine .after fun _ _ => ?_
  dsimp only
  rw [hroot, hnames, hitems, hcalls]
  refine (Agree.refl (fun _ => rfl) _).bind ?_
  rintro items _ rfl
  refine (renderJoins_alike hjoins rfl).bind fun x x' hx => (renderClause_alike hwhere hx.2).bind fun y y' hy => ?_
  refine (Agree.refl (fun _ => rfl) _).bind ?_
  rintro outputs _ rfl
  refine (renderClause_alike hhaving hy.2).bind fun z z' hz => .ok ?_
  simp only [hx.1, hy.1, hz.1, hdistinct, hrelation, hscan, hgroup, horder, hlimit]

section Statements
variable {d : Dialect} {maxIN : Int}

abbrev SameSql : Except Statement.CompileError Statement.Rendering → Except Statement.CompileError Statement.Rendering → Prop :=
  Agree fun r r' => r.sql = r'.sql

lemma mapError_alike {ε ε' α : Type} {R : α → α → Prop} {f : ε → ε'} {x y : Except ε α} (h : Agree R x y) :
    Agree R (x.mapError f) (y.mapError f) :=
  fun a b ha hb => h a b (Statement.mapError_eq_ok.mp ha) (Statement.mapError_eq_ok.mp hb)

lemma renderInsert_alike {returning columns : List String} {target : RelationRef} {tuples tuples' : List (List Value)}
    (hlen : tuples.length = tuples'.length) : SameSql (Statement.renderInsert d returning target columns tuples)
      (Statement.renderInsert d returning target columns tuples') := by
  intro r r' h h'
  unfold Statement.renderInsert at h h'
  split at h
  · cases h
  split at h
  · cases h
  split at h'
  · cases h'
  split at h'
  · cases h'
  cases h
  cases h'
  simp only [hlen]

lemma renderWhere_alike {args args' : List Value} (halike : blank p = blank p') (hlen : args.length = args'.length) :
    Agree (fun x y => x.1 = y.1) (Statement.renderWhere maxIN p args) (Statement.renderWhere maxIN p' args') := by
  have hb : (⟨args, 0⟩ : Builder).blank = (⟨args', 0⟩ : Builder).blank := Builder.blank_eq.mpr ⟨hlen, rfl⟩
  refine .after fun _ _ => ?_
  exact (mapError_alike (renderPredicate_alike halike hb)).bind fun x y hxy => .ok hxy.1

lemma updateText_eq (target : RelationRef) (set : List (String × Value)) :
    Statement.updateText d target set = "UPDATE " ++ tableText d target ++ " SET " ++
      ", ".intercalate (((set.map Prod.fst).zipIdx).map fun s => d.quoteIdent s.1 ++ " = " ++ d.placeholder s.2) := by
  rw [Statement.updateText, List.zipIdx_map, List.map_map]
  rfl

lemma renderUpdate_alike {target : RelationRef} {set set' : List (String × Value)} (halike : blank p = blank p')
    (hset : set.map Prod.fst = set'.map Prod.fst) :
    SameSql (Statement.renderUpdate d maxIN target p set) (Statement.renderUpdate d maxIN target p' set') := by
  have hlen : set.length = set'.length := by simpa using congrArg List.length hset
  have hnil : set = [] ↔ set' = [] := by rw [← List.length_eq_zero_iff, hlen, List.length_eq_zero_iff]
  unfold Statement.renderUpdate
  simp only [hnil, isNil_alike halike]
  split_ifs
  · rintro _ _ ⟨⟩
  · refine (renderWhere_alike halike (by simpa using hlen)).bind fun x y hxy => .ok ?_
    simp only [updateText_eq, hset, hxy]

lemma renderDelete_alike {target : RelationRef} (halike : blank p = blank p') :
    SameSql (Statement.renderDelete d maxIN target p) (Statement.renderDelete d maxIN target p') := by
  unfold Statement.renderDelete
  rw [isNil_alike halike]
  split_ifs
  · rintro _ _ ⟨⟩
  · exact (renderWhere_alike halike rfl).bind fun x y hxy => .ok (by rw [hxy])

lemma render_alike {returning : List String} {n n' : Statement.Node} (halike : blankNode n = blankNode n') :
    SameSql (Statement.render d maxIN returning n) (Statement.render d maxIN returning n') := by
  cases n with
  | read e =>
    cases n' with
    | read e' =>
      exact (mapError_alike (renderSelect_alike (Statement.Node.read.inj halike))).bind fun c c' hc => .ok (by rw [hc])
    | _ => cases halike
  | insert target columns tuples =>
    cases n' with
    | insert target' columns' tuples' =>
      obtain ⟨rfl, rfl, htuples⟩ := Statement.Node.insert.inj halike
      exact renderInsert_alike (by simpa using congrArg List.length htuples)
    | _ => cases halike
  | update target p set =>
    cases n' with
    | update target' p' set' =>
      obtain ⟨rfl, hp, hset⟩ := Statement.Node.update.inj halike
      refine renderUpdate_alike hp ?_
      simpa [Function.comp_def] using congrArg (List.map Prod.fst) hset
    | _ => cases halike
  | delete target p =>
    cases n' with
    | delete target' p' =>
      obtain ⟨rfl, hp⟩ := Statement.Node.delete.inj halike
      exact renderDelete_alike hp
    | _ => cases halike
  | call procedure args =>
    cases n' with
    | call procedure' args' =>
      obtain ⟨rfl, hargs⟩ := Statement.Node.call.inj halike
      have hlen : args.length = args'.length := by simpa using congrArg List.length hargs
      exact .ok (by simp only [Statement.renderCall, hlen])
    | _ => cases halike

/-- Statements that differ in values only have the same text. -/
theorem compile_alike {returning : Bool} {o : Statement.Options} {n n' : Statement.Node} {c c' : Statement.Compiled}
    (halike : blankNode n = blankNode n') (h : Statement.compile d returning o n = .ok c)
    (h' : Statement.compile d returning o n' = .ok c') : c.sql = c'.sql := by
  unfold Statement.compile at h h'
  split at h
  · cases h
  rename_i hpositive
  rw [if_neg hpositive] at h'
  exact (render_alike halike).bind (S := fun c c' : Statement.Compiled => c.sql = c'.sql) (fun r r' hr => .ok hr) c c' h h'

end Statements

end SqlMcpServer.Codegen
