import SqlMcpServer.Codegen.Pipeline
import SqlMcpServer.Codegen.Render
import Mathlib.Data.List.Perm.Subperm

/-!
# Compiled statements

`Renderer.Compile` for every root of the IR, with what the cost gate reads of the result: the
parts of a select's LIMIT (`CapRows`) and whether a predicate is a point lookup (`isKeyPoint`).
-/

namespace SqlMcpServer.Statement

open Except (bind_eq_ok)
open Relalg Interp Sql Codegen

inductive Node where
  | read (e : Expr)
  | insert (target : RelationRef) (columns : List String) (tuples : List (List Value))
  | update (target : RelationRef) (predicate : Predicate) (set : List (String × Value))
  | delete (target : RelationRef) (predicate : Predicate)
  | call (procedure : RelationRef) (args : List Value)

/-- The execution class of a statement; `unset` of one codegen did not compile. -/
inductive Kind where
  | unset | read | aggregate | write | call
deriving DecidableEq, Repr

structure Compiled where
  expr : Option Node
  kind : Kind
  sql : String
  args : List Value
  isKeyPoint : Bool
  primaryKey : List String
  readOnly : Bool
  /-- The SQL of a select before its LIMIT clause, empty for none, and that clause's parts. -/
  capBase : String
  capLimit : Int
  capOffset : Int

inductive CompileError where
  | codegen (e : CodegenError)
  | unboundedWrite
  /-- `insert needs columns and at least one tuple` -/
  | emptyInsert
  /-- `insert tuple has %d values for %d columns` -/
  | insertTuple (values columns : Nat)

def selections : Expr → List Predicate
  | .scan .. => []
  | .select input p => selections input ++ [p]
  | .project input _ | .aggregate input _ _ | .sort input _ | .limit input _ _ | .distinct input | .having input _
  | .join input _ _ _ _ => selections input

def predicateOf : Node → Predicate
  | .read e =>
    match selections e with
    | [] => .nil
    | [p] => p
    | ps => .and ps
  | .update _ p _ | .delete _ p => p
  | .insert .. | .call .. => .nil

mutual
/-- The conditions of a pure conjunction; `none` for a predicate with an OR, a NOT or an
EXISTS. -/
def flattenAnd : Predicate → Option (List Condition)
  | .nil => some []
  | .cond c => some [c]
  | .and ps => flattenAll ps
  | .or _ | .not _ | .ex .. => none

def flattenAll : List Predicate → Option (List Condition)
  | [] => some []
  | p :: ps => do return (← flattenAnd p) ++ (← flattenAll ps)
end

/-- The loop of `isKeyPoint`: the key columns matched by equality, none when one is
matched otherwise. -/
def equated (key : List String) : List Condition → List String → Option (List String)
  | [], seen => some seen
  | c :: cs, seen =>
    if c.field ∉ key then equated key cs seen
    else if c.op ≠ .eq then none
    else equated key cs (if c.field ∈ seen then seen else c.field :: seen)

def isKeyPoint (p : Predicate) (key : List String) : Bool :=
  if key = [] then false
  else
    match flattenAnd p with
    | none => false
    | some conds =>
      if conds.length < key.length then false
      else
        match equated key conds [] with
        | none => false
        | some seen => seen.length = key.length

structure Options where
  maxINCardinality : Int := defaultMaxINCardinality
  /-- `WithPrimaryKey` -/
  pkCols : List String := []
  /-- `WithIdentityKeys`; `none` when not given. -/
  identityKeys : Option (List (List String)) := none

def Options.keys (o : Options) : List (List String) :=
  match o.identityKeys with
  | some keys => keys
  | none => if o.pkCols = [] then [] else [o.pkCols]

/-- `Aggregate` somewhere in a read chain. -/
def aggregates : Expr → Bool
  | .scan .. => false
  | .aggregate .. => true
  | .select input _ | .project input _ | .sort input _ | .limit input _ _ | .distinct input | .having input _
  | .join input _ _ _ _ => aggregates input

def kindOf : Node → Kind
  | .insert .. | .update .. | .delete .. => .write
  | .call .. => .call
  | .read e => if aggregates e then .aggregate else .read

structure Rendering where
  sql : String
  args : List Value
  readOnly : Bool := false
  capBase : String := ""
  capLimit : Int := 0
  capOffset : Int := 0

section Render
variable (d : Dialect)

def fieldList (cols : List String) : String := ", ".intercalate (cols.map d.quoteIdent)

def renderRead (maxIN : Int) (e : Expr) : Except CompileError Rendering := do
  let c ← (renderSelect ⟨d.nullsLast, maxIN⟩ e).mapError .codegen
  return { sql := c.select.text d, args := c.args, readOnly := true,
           capBase := { c.select with limit := none }.text d,
           capLimit := (c.select.limit.map Prod.fst).getD 0, capOffset := (c.select.limit.map Prod.snd).getD 0 }

def tupleTexts (width : Nat) : Nat → Nat → List String
  | 0, _ => []
  | n + 1, start =>
    ("(" ++ ", ".intercalate ((List.range' start width).map d.placeholder) ++ ")") :: tupleTexts width n (start + width)

def renderInsert (returning : List String) (target : RelationRef) (columns : List String) (tuples : List (List Value)) :
    Except CompileError Rendering :=
  if columns = [] ∨ tuples = [] then .error .emptyInsert
  else
    match tuples.find? (·.length ≠ columns.length) with
    | some tuple => .error (.insertTuple tuple.length columns.length)
    | none =>
      .ok { sql := "INSERT INTO " ++ tableText d target ++ " (" ++ fieldList d columns ++ ") VALUES " ++
              ", ".intercalate (tupleTexts d columns.length tuples.length 0) ++
              (if returning = [] then "" else " RETURNING " ++ fieldList d returning),
            args := tuples.flatten }

def renderWhere (maxIN : Int) (p : Predicate) (args : List Value) : Except CompileError (Pred × List Value) := do
  (validate maxIN p).mapError .codegen
  let (q, b) ← (renderPredicate maxIN ⟨"", [], []⟩ "" p ⟨args, 0⟩).mapError .codegen
  return (q, b.args)

/-- `UPDATE target SET ...`, to its WHERE. -/
def updateText (target : RelationRef) (set : List (String × Value)) : String :=
  "UPDATE " ++ tableText d target ++ " SET " ++
    ", ".intercalate ((set.zipIdx).map fun s => d.quoteIdent s.1.1 ++ " = " ++ d.placeholder s.2)

def deleteText (target : RelationRef) : String := "DELETE FROM " ++ tableText d target

def renderUpdate (maxIN : Int) (target : RelationRef) (p : Predicate) (set : List (String × Value)) :
    Except CompileError Rendering :=
  if set = [] ∨ p.isNil then .error .unboundedWrite
  else do
    let (q, args) ← renderWhere maxIN p (set.map Prod.snd)
    return { sql := updateText d target set ++ " WHERE " ++ q.text d, args }

def renderDelete (maxIN : Int) (target : RelationRef) (p : Predicate) : Except CompileError Rendering :=
  if p.isNil then .error .unboundedWrite
  else do
    let (q, args) ← renderWhere maxIN p []
    return { sql := deleteText d target ++ " WHERE " ++ q.text d, args }

def renderCall (procedure : RelationRef) (args : List Value) : Rendering :=
  { sql := "CALL " ++ tableText d procedure ++ "(" ++ ", ".intercalate ((List.range args.length).map d.placeholder) ++ ")",
    args }

def render (maxIN : Int) (returning : List String) : Node → Except CompileError Rendering
  | .read e => renderRead d maxIN e
  | .insert target columns tuples => renderInsert d returning target columns tuples
  | .update target p set => renderUpdate d maxIN target p set
  | .delete target p => renderDelete d maxIN target p
  | .call procedure args => .ok (renderCall d procedure args)

/-- `returning` is whether the dialect enforces RETURNING. -/
def compile (returning : Bool) (o : Options) (n : Node) : Except CompileError Compiled :=
  if o.maxINCardinality ≤ 0 then .error (.codegen .maximumNotPositive)
  else do
    let r ← render d o.maxINCardinality (if returning then o.pkCols else []) n
    return { expr := some n, kind := kindOf n, sql := r.sql, args := r.args, readOnly := r.readOnly,
             capBase := r.capBase, capLimit := r.capLimit, capOffset := r.capOffset, primaryKey := o.pkCols,
             isKeyPoint := o.keys.any (isKeyPoint (predicateOf n)) }

end Render

/-- The statement reading at most `n` rows, when codegen rendered it as a select. -/
def capRows (c : Compiled) (n : Int) : Option Compiled :=
  if c.capBase = "" ∨ n < 1 ∨ c.sql ≠ c.capBase ++ limitClause (some (c.capLimit, c.capOffset)) then none
  else if 1 ≤ c.capLimit ∧ c.capLimit ≤ n then some c
  else some { c with capLimit := n, sql := c.capBase ++ limitClause (some (n, c.capOffset)) }

lemma text_eq_append (d : Dialect) (s : Select) : s.text d = { s with limit := none }.text d ++ limitClause s.limit := by
  have hnone : limitClause none = "" := rfl
  unfold Select.text
  rw [hnone, String.append_empty]

lemma text_ne_empty (d : Dialect) (s : Select) : s.text d ≠ "" := by
  unfold Select.text
  intro h
  iterate 11 rw [String.append_eq_empty_iff] at h
  obtain ⟨⟨⟨⟨⟨⟨⟨⟨⟨⟨⟨hselect, -⟩, -⟩, -⟩, -⟩, -⟩, -⟩, -⟩, -⟩, -⟩, -⟩, -⟩ := h
  exact absurd hselect (by decide)

lemma returns_limit {nullsLow : Bool} {db : DB} {args : List Value} {s : Select} (limit : Option (Int × Int))
    {out : List Row} : Returns nullsLow db args { s with limit } out ↔
      (∃ ts, s.Valid (fun name => (db name).map Table.cols) args ts) ∧
        ∃ l : List (List Value × Row), l.Perm (s.keyed db args) ∧
          (l.Pairwise fun a b => keyLE nullsLow s.orderBy a.1 b.1) ∧ out = window limit (l.map Prod.snd) := by
  refine and_congr (exists_congr fun ts => ⟨fun h => ?_, fun h => ?_⟩) Iff.rfl
  · exact ⟨h.tables, h.aliases, h.filter, h.groupBy, h.having, h.items, h.orderBy, h.unambiguous, h.distinct,
      h.placeholders⟩
  · exact ⟨h.tables, h.aliases, h.filter, h.groupBy, h.having, h.items, h.orderBy, h.unambiguous, h.distinct,
      h.placeholders⟩

def tightenedLimit (n : Int) : Option (Int × Int) → Option (Int × Int)
  | none => some (n, 0)
  | some (count, offset) => if count ≤ n then some (count, offset) else some (n, offset)

lemma window_tightened (n : Int) (limit : Option (Int × Int)) (rows : List Row) :
    window (tightenedLimit n limit) rows = (window limit rows).take n.toNat := by
  match limit with
  | none => simp [tightenedLimit, window]
  | some (count, offset) =>
    simp only [tightenedLimit]
    split
    · simp only [window, List.take_take]
      congr 1
      omega
    · simp only [window, List.take_take]
      congr 1
      omega

lemma returns_tightened {nullsLow : Bool} {db : DB} {args : List Value} (n : Int) (s : Select) (out : List Row) :
    Returns nullsLow db args { s with limit := tightenedLimit n s.limit } out ↔
      ∃ all, Returns nullsLow db args s all ∧ out = all.take n.toNat := by
  have hsame : ∀ all, Returns nullsLow db args s all ↔ _ := fun all => returns_limit s.limit
  rw [returns_limit]
  constructor
  · rintro ⟨hvalid, l, hperm, hsorted, rfl⟩
    refine ⟨window s.limit (l.map Prod.snd), (hsame _).mpr ⟨hvalid, l, hperm, hsorted, rfl⟩, ?_⟩
    exact window_tightened n s.limit _
  · rintro ⟨all, hall, rfl⟩
    obtain ⟨hvalid, l, hperm, hsorted, rfl⟩ := (hsame all).mp hall
    exact ⟨hvalid, l, hperm, hsorted, (window_tightened n s.limit _).symm⟩

lemma flattens_limit {e : Expr} {ctx : SelectCtx} (h : Flattens e ctx) : ∀ l ∈ ctx.limit, 1 ≤ l.1 := by
  induction h with
  | scan => simp [SelectCtx.start]
  | limit hn =>
    rintro l ⟨⟩
    exact hn
  | _ => assumption

lemma renderSelect_limit {cfg : Config} {e : Expr} {c : Codegen.Compiled} (h : renderSelect cfg e = .ok c) :
    ∀ l ∈ c.select.limit, 1 ≤ l.1 := by
  obtain ⟨ctx, hctx, h⟩ := bind_eq_ok.mp h
  obtain ⟨_, -, h⟩ := bind_eq_ok.mp h
  obtain ⟨items, -, h⟩ := bind_eq_ok.mp h
  obtain ⟨⟨joins, b⟩, -, h⟩ := bind_eq_ok.mp h
  obtain ⟨⟨filter, b⟩, -, h⟩ := bind_eq_ok.mp h
  obtain ⟨outputs, -, h⟩ := bind_eq_ok.mp h
  obtain ⟨⟨having, b⟩, -, h⟩ := bind_eq_ok.mp h
  cases h
  exact flattens_limit (flattens_of_ok hctx)

lemma mapError_eq_ok {ε ε' α : Type} {f : ε → ε'} {x : Except ε α} {a : α} :
    x.mapError f = .ok a ↔ x = .ok a := by
  cases x <;> simp [Except.mapError]

lemma capRows_read {d : Dialect} {returning : Bool} {o : Options} {e : Expr} {c : Compiled}
    (h : compile d returning o (.read e) = .ok c) :
    ∃ s, renderSelect ⟨d.nullsLast, o.maxINCardinality⟩ e = .ok ⟨s, c.args⟩ ∧ c.sql = s.text d ∧
      ∀ n, 1 ≤ n → ∃ c', capRows c n = some c' ∧ c'.args = c.args ∧
        c'.sql = { s with limit := tightenedLimit n s.limit }.text d := by
  unfold compile at h
  split at h
  · cases h
  obtain ⟨r, hr, h⟩ := bind_eq_ok.mp h
  obtain ⟨⟨s, args⟩, hs, hr⟩ := bind_eq_ok.mp hr
  cases hr
  cases h
  rw [mapError_eq_ok] at hs
  refine ⟨s, hs, rfl, fun n hn => ?_⟩
  have hbase := text_ne_empty d { s with limit := none }
  have hclause : limitClause s.limit =
      limitClause (some ((s.limit.map Prod.fst).getD 0, (s.limit.map Prod.snd).getD 0)) := by
    cases s.limit <;> rfl
  have hkept : ¬ ({ s with limit := none }.text d = "" ∨ n < 1 ∨ s.text d ≠ { s with limit := none }.text d ++
      limitClause (some ((s.limit.map Prod.fst).getD 0, (s.limit.map Prod.snd).getD 0))) := by
    rw [← hclause, ← text_eq_append]
    simp only [hbase, false_or, ne_eq, not_true_eq_false, or_false, not_lt]
    exact hn
  simp only [capRows]
  rw [if_neg hkept]
  cases hlimit : s.limit with
  | none =>
    rw [if_neg (by simp)]
    refine ⟨_, rfl, rfl, ?_⟩
    rw [text_eq_append d { s with limit := tightenedLimit n none }]
    rfl
  | some l =>
    obtain ⟨count, offset⟩ := l
    have hcount : 1 ≤ count := renderSelect_limit hs (count, offset) hlimit
    by_cases hle : count ≤ n
    · rw [if_pos (by simp [hcount, hle])]
      refine ⟨_, rfl, rfl, ?_⟩
      simp only [tightenedLimit, hle, if_true, ← hlimit]
    · rw [if_neg (by simp [hle])]
      refine ⟨_, rfl, rfl, ?_⟩
      rw [text_eq_append d { s with limit := tightenedLimit n (some (count, offset)) }]
      simp only [Option.map_some, Option.getD_some, tightenedLimit, hle, if_false]

lemma mem_flattenAll {ps : List Predicate} {conds : List Condition} (h : flattenAll ps = some conds) :
    ∀ c ∈ conds, ∃ p ∈ ps, ∃ cs, flattenAnd p = some cs ∧ c ∈ cs := by
  induction ps generalizing conds with
  | nil =>
    cases h
    simp
  | cons p ps ih =>
    rw [flattenAll] at h
    simp only [Option.bind_eq_bind, Option.bind_eq_some_iff, Option.pure_def, Option.some.injEq] at h
    obtain ⟨cs, hcs, rest, hrest, rfl⟩ := h
    intro c hc
    rcases List.mem_append.mp hc with hc | hc
    · exact ⟨p, by simp, cs, hcs, hc⟩
    · obtain ⟨p', hp', cs', hcs', hc'⟩ := ih hrest c hc
      exact ⟨p', List.mem_cons_of_mem _ hp', cs', hcs', hc'⟩

lemma equated_ok {key : List String} {conds : List Condition} {seen out : List String}
    (h : equated key conds seen = some out) (hnodup : seen.Nodup) (hseen : seen ⊆ key) :
    out.Nodup ∧ out ⊆ key ∧ ∀ c ∈ out, c ∈ seen ∨ ∃ cond ∈ conds, cond.field = c ∧ cond.op = .eq := by
  induction conds generalizing seen with
  | nil =>
    cases h
    exact ⟨hnodup, hseen, fun c hc => .inl hc⟩
  | cons cond conds ih =>
    rw [equated] at h
    split at h
    · obtain ⟨hout, hsub, hall⟩ := ih h hnodup hseen
      refine ⟨hout, hsub, fun c hc => (hall c hc).imp_right ?_⟩
      rintro ⟨cond', hmem, heq⟩
      exact ⟨cond', List.mem_cons_of_mem _ hmem, heq⟩
    · rename_i hkey
      split at h
      · cases h
      rename_i hop
      have hfield : cond.field ∈ key := not_not.mp hkey
      have heq : cond.op = .eq := not_not.mp hop
      have hstep : ∀ seen' : List String, (∀ c ∈ seen', c = cond.field ∨ c ∈ seen) → seen'.Nodup →
          equated key conds seen' = some out →
          out.Nodup ∧ out ⊆ key ∧ ∀ c ∈ out, c ∈ seen ∨ ∃ cond' ∈ cond :: conds, cond'.field = c ∧ cond'.op = .eq := by
        intro seen' hmem hnodup' h'
        have hsub' : seen' ⊆ key := by
          intro c hc
          rcases hmem c hc with rfl | hc
          · exact hfield
          · exact hseen hc
        obtain ⟨hout, hsub, hall⟩ := ih h' hnodup' hsub'
        refine ⟨hout, hsub, fun c hc => ?_⟩
        rcases hall c hc with hc | ⟨cond', hmem', heq'⟩
        · rcases hmem c hc with rfl | hc
          · exact .inr ⟨cond, by simp, rfl, heq⟩
          · exact .inl hc
        · exact .inr ⟨cond', List.mem_cons_of_mem _ hmem', heq'⟩
      split at h
      · exact hstep seen (fun c hc => .inr hc) hnodup h
      · rename_i hnew
        exact hstep (cond.field :: seen) (by simp) (List.nodup_cons.mpr ⟨hnew, hnodup⟩) h

lemma isKeyPoint_ok {p : Predicate} {key : List String} (h : isKeyPoint p key = true) :
    key ≠ [] ∧ ∃ conds, flattenAnd p = some conds ∧ ∀ c ∈ key, ∃ cond ∈ conds, cond.field = c ∧ cond.op = .eq := by
  unfold isKeyPoint at h
  split at h
  · cases h
  rename_i hne
  split at h
  · cases h
  rename_i conds hconds
  split at h
  · cases h
  split at h
  · cases h
  rename_i seen hseen
  obtain ⟨hnodup, hsub, hall⟩ := equated_ok hseen List.nodup_nil (List.nil_subset _)
  have hlen : seen.length = key.length := of_decide_eq_true h
  have hperm : seen.Perm key := (List.subperm_of_subset hnodup hsub).perm_of_length_le hlen.ge
  refine ⟨hne, conds, hconds, fun c hc => ?_⟩
  rcases hall c (hperm.symm.subset hc) with hc | hcond
  · cases hc
  · exact hcond

lemma writes_conjunction {db : DB} {ns : Names} {args : List Value} {scope : String} {p : Predicate} {q : Pred}
    (h : Writes ns args scope p q) {ρ : Denotation} {conds : List Condition} (hconds : flattenAnd p = some conds)
    (htrue : q.truth db args ρ = .true) :
    ∀ c ∈ conds, ∃ x, ρ (ns.column scope c.field) = some x ∧ test x c.op (operands c.op c.value) = .true := by
  induction h generalizing conds with
  | nil =>
    cases hconds
    simp
  | @cond scope c placeholders hargs =>
    cases hconds
    intro c' hc'
    obtain rfl := List.mem_singleton.mp hc'
    rw [Pred.truth] at htrue
    cases hx : ρ (ns.column scope c'.field) with
    | none => simp [hx] at htrue
    | some x =>
      rw [hx, hargs] at htrue
      exact ⟨x, rfl, htrue⟩
  | @and scope ps qs hlen _ ih =>
    intro c hc
    obtain ⟨p, hp, cs, hcs, hc⟩ := mem_flattenAll hconds c hc
    obtain ⟨i, hi, rfl⟩ := List.mem_iff_getElem.mp hp
    have hq : i < qs.length := hlen ▸ hi
    have hzip : (ps[i], qs[i]) ∈ ps.zip qs := List.mem_iff_getElem.mpr ⟨i, by simp; omega, by simp⟩
    rw [Pred.truth, predTruths_eq_map, Kleene.all_eq_true] at htrue
    exact ih _ hzip hcs (htrue _ (List.mem_map.mpr ⟨qs[i], List.getElem_mem hq, rfl⟩)) c hc
  | or => cases hconds
  | not => cases hconds
  | exAll => cases hconds
  | ex => cases hconds

lemma test_eq_true {x v : Value} (h : test x .eq (operands .eq v) = .true) : x = v ∧ x ≠ .null := by
  have hv : operands .eq v = [v] := by cases v <;> rfl
  rw [hv] at h
  have hequal : ∀ o, Kleene.ofBool (holds .eq o) = .true → o = .eq := by
    intro o
    cases o <;> simp [holds]
  cases x <;> cases v <;> first | exact ⟨congrArg _ ((cmp_eq_eq_iff _ _).mp (hequal _ h)), by simp⟩ | cases h

def UniqueKey (key cols : List String) (rows : List Row) : Prop :=
  rows.Pairwise fun a b => ¬ ∀ c ∈ key, ∃ v, v ≠ Value.null ∧ rowEnv cols a c = some v ∧ rowEnv cols b c = some v

def matchedRows (db : DB) (args : List Value) (target : RelationRef) (q : Pred) (tbl : Table) : List Row :=
  tbl.rows.filter fun row => keeps db args (some q) (Scope.denote [⟨target.name, tbl.cols, row⟩])

lemma denote_bare (target : RelationRef) (cols : List String) (row : Row) (name : String) :
    Scope.denote [⟨target.name, cols, row⟩] ((⟨"", [], []⟩ : Names).column "" name) = rowEnv cols row name := by
  have hcol : (⟨"", [], []⟩ : Names).column "" name = .col (.bare name) := by
    simp only [Names.column, Names.col, List.reverse_nil, List.lookup_nil]
    split
    · simp_all
    · split <;> simp
  rw [hcol]
  simp [Scope.denote, Scope.get, Bound.get]

lemma matchedRows_le_one {db : DB} {args : List Value} {target : RelationRef} {p : Predicate} {q : Pred} {tbl : Table}
    (hwrites : Writes ⟨"", [], []⟩ args "" p q) {key : List String} (hpoint : isKeyPoint p key = true)
    (hunique : UniqueKey key tbl.cols tbl.rows) : (matchedRows db args target q tbl).length ≤ 1 := by
  obtain ⟨-, conds, hconds, hkey⟩ := isKeyPoint_ok hpoint
  have hvalues : ∀ row ∈ matchedRows db args target q tbl, ∀ c ∈ key, ∀ cond ∈ conds, cond.field = c → cond.op = .eq →
      rowEnv tbl.cols row c = some cond.value ∧ cond.value ≠ .null := by
    intro row hrow c hc cond hcond hfield hop
    have htrue := (List.mem_filter.mp hrow).2
    simp only [keeps, Option.all_some, decide_eq_true_eq] at htrue
    obtain ⟨x, hx, htest⟩ := writes_conjunction hwrites hconds htrue cond hcond
    rw [denote_bare, hfield] at hx
    rw [hop] at htest
    obtain ⟨rfl, hne⟩ := test_eq_true htest
    exact ⟨hx, hne⟩
  have hapart : UniqueKey key tbl.cols (matchedRows db args target q tbl) := hunique.sublist List.filter_sublist
  by_contra hlen
  obtain ⟨a, b, rest, hrows⟩ : ∃ a b rest, matchedRows db args target q tbl = a :: b :: rest := by
    match hrows : matchedRows db args target q tbl with
    | [] | [_] => simp [hrows] at hlen
    | a :: b :: rest => exact ⟨a, b, rest, rfl⟩
  rw [hrows] at hapart
  have hab := (List.pairwise_cons.mp hapart).1 b (by simp)
  refine hab fun c hc => ?_
  obtain ⟨cond, hcond, hfield, hop⟩ := hkey c hc
  obtain ⟨ha, hne⟩ := hvalues a (by simp [hrows]) c hc cond hcond hfield hop
  exact ⟨cond.value, hne, ha, (hvalues b (by simp [hrows]) c hc cond hcond hfield hop).1⟩

end SqlMcpServer.Statement
