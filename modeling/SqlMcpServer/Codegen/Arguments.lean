import SqlMcpServer.Codegen.Placeholders

namespace SqlMcpServer.Codegen

open Except (bind_eq_ok)
open List (append_assoc append_nil length_append map_append map_cons map_map mem_map nil_append range range' range_eq_range')
open Relalg Sql
open scoped Lexer

def joinPredicates : Expr → List Predicate
  | .scan .. => []
  | .join input _ _ _ p => joinPredicates input ++ [p]
  | .select input _ | .project input _ | .aggregate input _ _ | .sort input _ | .limit input _ _ | .distinct input
  | .having input _ => joinPredicates input

def havings : Expr → List Predicate
  | .scan .. => []
  | .having input p => havings input ++ [p]
  | .select input _ | .project input _ | .aggregate input _ _ | .sort input _ | .limit input _ _ | .distinct input
  | .join input _ _ _ _ => havings input

/-- The values of a root in the order written: a SELECT's joins come before its WHERE, and that
before its HAVING. -/
def nodeValues : Statement.Node → List Value
  | .read e => valuesList (joinPredicates e ++ Statement.selections e ++ havings e)
  | .insert _ _ tuples => tuples.flatten
  | .update _ p set => set.map Prod.snd ++ values p
  | .delete _ p => values p
  | .call _ args => args

lemma valuesList_append (ps qs : List Predicate) : valuesList (ps ++ qs) = valuesList ps ++ valuesList qs := by
  induction ps with
  | nil => rfl
  | cons p ps ih => rw [List.cons_append, valuesList, valuesList, ih, append_assoc]

lemma valuesList_singleton (p : Predicate) : valuesList [p] = values p := by simp [valuesList]

lemma values_nil_of_isNil {p : Predicate} (h : p.isNil = true) : values p = [] := by
  cases p <;> first | rfl | cases h

/-- The predicates of a flattened chain are those of the chain. -/
structure Collected (e : Expr) (ctx : SelectCtx) : Prop where
  joins : ctx.joins.map JoinNode.rightPred = joinPredicates e
  wherePreds : ctx.wherePreds = Statement.selections e
  having : values ctx.having = valuesList (havings e)

lemma flattens_collected {e : Expr} {ctx : SelectCtx} (h : Flattens e ctx) : Collected e ctx := by
  induction h with
  | scan => exact ⟨rfl, rfl, rfl⟩
  | select p _ _ hi => exact ⟨hi.joins, congrArg (· ++ [p]) hi.wherePreds, hi.having⟩
  | @having input ctx p _ _ h hrank hi =>
    -- A second HAVING would stand over a node a SELECT applies after it.
    have hflattened : Flattened (fun _ => none) input ctx := flatten_flattened h
    have hnone : valuesList (havings input) = [] := by rw [← hi.having, hflattened.unset.having hrank, values]
    refine ⟨hi.joins, hi.wherePreds, ?_⟩
    rw [havings, valuesList_append, hnone, valuesList_singleton, nil_append]
  | join j _ _ hi =>
    refine ⟨?_, hi.wherePreds, hi.having⟩
    rw [map_append, hi.joins]
    rfl
  | project _ _ _ hi | aggregate _ _ _ _ hi | sort _ _ _ hi | limit _ _ _ hi | distinct _ _ hi =>
    exact ⟨hi.joins, hi.wherePreds, hi.having⟩

/-- What is written, after what the builder wrote before: its placeholders are the next ones,
for its values. -/
structure Fills (d : Dialect) (r : Reader) (b b' : Builder) (text : String) (vs : List Value) : Prop where
  slots : r.Slots true false text (b.next d vs)
  args : b'.args = b.args ++ vs

lemma next_eq_append {b b' : Builder} {vs : List Value} (h : b'.args = b.args ++ vs) (d : Dialect) (vs' : List Value) :
    b.next d (vs ++ vs') = b.next d vs ++ b'.next d vs' := by
  rw [Builder.next, Builder.next, Builder.next, h, length_append, length_append, ← map_append, List.range'_append_1]

section Read
open Reader (slots_simple slots_empty)
variable {maxIN : Int} {ns : Names} {d : Dialect} {r : Reader} (hd : d.ReadBy r)
include hd

lemma slots_renderPredicate (hns : ns.Whitelisted) {scope : String} {p : Predicate} {b b' : Builder} {q : Pred}
    (h : renderPredicate maxIN ns scope p b = .ok (q, b')) :
    r.Slots false false (q.text d) (b.next d (values p)) ∧ b'.args = b.args ++ values p := by
  have hspelled := renderPredicate_spelled hd hns h
  exact ⟨hspelled.params ▸ hspelled.reads.slots, hspelled.binds.args⟩

lemma renderJoin_fills (hns : ns.Whitelisted) {j : JoinNode} {b b' : Builder} {x : Join}
    (h : renderJoin maxIN ns j b = .ok (x, b')) : Fills d r b b' (x.text d) (values j.rightPred) := by
  obtain ⟨_, -, h⟩ := bind_eq_ok.mp h
  dsimp only at h
  split_ifs at h with hnil
  · cases h
    rw [values_nil_of_isNil hnil]
    exact ⟨slots_joinText hd (fun _ => rfl) (by simp), by simp⟩
  · obtain ⟨⟨q, b₁⟩, hq, h⟩ := bind_eq_ok.mp h
    cases h
    obtain ⟨hslots, hargs⟩ := slots_renderPredicate hd hns hq
    exact ⟨slots_joinText hd (by simp) (by simpa using hslots), hargs⟩

lemma renderJoins_fills (hns : ns.Whitelisted) {js : List JoinNode} {b b' : Builder} {xs : List Join}
    (h : renderJoins maxIN ns js b = .ok (xs, b')) :
    Fills d r b b' (String.join (xs.map (·.text d))) (valuesList (js.map JoinNode.rightPred)) := by
  induction js generalizing b xs with
  | nil =>
    rw [renderJoins] at h
    cases h
    exact ⟨slots_empty, by simp [valuesList]⟩
  | cons j js ih =>
    rw [renderJoins] at h
    obtain ⟨⟨x, b₁⟩, hx, h⟩ := bind_eq_ok.mp h
    obtain ⟨⟨rest, b₂⟩, hrest, h⟩ := bind_eq_ok.mp h
    cases h
    have hhead := renderJoin_fills hd hns hx
    have htail := ih hrest
    rw [map_cons, String.join_cons, map_cons, valuesList]
    refine ⟨?_, ?_⟩
    · rw [next_eq_append hhead.args]
      exact hhead.slots.append htail.slots rfl
    · rw [htail.args, hhead.args, append_assoc]

lemma renderClause_fills (hns : ns.Whitelisted) {word : String} (hword : r.Slots true true word [])
    {p : Option Predicate} {b b' : Builder} {q : Option Pred} (h : renderClause maxIN ns p b = .ok (q, b')) :
    Fills d r b b' (clause word (q.toList.map (·.text d)) "") (valuesList p.toList) := by
  cases p with
  | none =>
    cases h
    exact ⟨slots_where hword (fun _ => rfl) (by simp), by simp [valuesList]⟩
  | some p =>
    obtain ⟨⟨q, b₁⟩, hq, h⟩ := bind_eq_ok.mp h
    cases h
    obtain ⟨hslots, hargs⟩ := slots_renderPredicate hd hns hq
    have hvalues : valuesList (some p).toList = values p := valuesList_singleton p
    rw [hvalues]
    exact ⟨slots_where hword (by simp) (by simpa using hslots), hargs⟩

omit hd in
lemma aggregateCall_valid {a : AggCall} {c : Call} (h : aggregateCall ns a = .ok c) : c.func.valid = true := by
  obtain ⟨_, hvalid, h⟩ := bind_eq_ok.mp h
  rw [Except.refuseIf_eq_ok] at hvalid
  split_ifs at h <;> cases h <;> simpa using hvalid

omit hd in
lemma outputCalls_whitelisted {aggregates : List AggCall} {outputs : List (String × Call)}
    (h : outputCalls ns aggregates = .ok outputs) : ({ ns with outputs } : Names).Whitelisted := by
  intro o ho
  obtain ⟨a, -, ha⟩ := Except.exists_of_mem_mapM h ho
  obtain ⟨c, hc, ha⟩ := bind_eq_ok.mp ha
  cases ha
  exact aggregateCall_valid hc

omit hd in
lemma selectItems_whitelisted {ctx : SelectCtx} {items : Items} (h : selectItems ns ctx = .ok items) : items.Whitelisted := by
  unfold selectItems at h
  split_ifs at h
  · obtain ⟨calls, hcalls, h⟩ := bind_eq_ok.mp h
    cases h
    intro t ht
    rcases List.mem_append.mp ht with ht | ht
    · obtain ⟨g, -, rfl⟩ := mem_map.mp ht
      trivial
    · obtain ⟨c, hc, rfl⟩ := mem_map.mp ht
      obtain ⟨a, -, ha⟩ := Except.exists_of_mem_mapM hcalls hc
      exact aggregateCall_valid ha
  · cases h
    intro t ht
    obtain ⟨item, -, rfl⟩ := mem_map.mp ht
    trivial
  · cases h
    trivial
  · cases h
    trivial

omit hd in
lemma valuesList_wherePred (ps : List Predicate) : valuesList (wherePred ps).toList = valuesList ps := by
  match ps with
  | [] => rfl
  | [p] => rfl
  | p :: p' :: ps => exact valuesList_singleton _

omit hd in
lemma valuesList_having (p : Predicate) : valuesList (if p.isNil then none else some p : Option Predicate).toList = values p := by
  split_ifs with hnil
  · exact (values_nil_of_isNil hnil).symm
  · exact valuesList_singleton p

theorem renderSelect_slots {cfg : Config} {e : Expr} {c : Compiled} (h : renderSelect cfg e = .ok c) :
    r.Slots false false (c.select.text d) ((List.range c.args.length).map d.placeholder) ∧
      c.args = valuesList (joinPredicates e ++ Statement.selections e ++ havings e) := by
  obtain ⟨ctx, hctx, h⟩ := bind_eq_ok.mp h
  obtain ⟨_, -, h⟩ := bind_eq_ok.mp h
  obtain ⟨items, hitems, h⟩ := bind_eq_ok.mp h
  obtain ⟨⟨joins, b₁⟩, hjoins, h⟩ := bind_eq_ok.mp h
  obtain ⟨⟨filter, b₂⟩, hfilter, h⟩ := bind_eq_ok.mp h
  obtain ⟨outputs, houtputs, h⟩ := bind_eq_ok.mp h
  obtain ⟨⟨having, b₃⟩, hhaving, h⟩ := bind_eq_ok.mp h
  cases h
  have hcollected := flattens_collected (flattens_of_ok hctx)
  have hnone : ∀ root joins, (⟨root, joins, []⟩ : Names).Whitelisted := fun _ _ o ho => by cases ho
  have hwhitelisted := outputCalls_whitelisted houtputs
  have hfilled := renderJoins_fills hd (hnone _ _) hjoins
  have hfilled' := renderClause_fills hd (hnone _ _) (slots_simple " WHERE " rfl) hfilter
  have hfilled'' := renderClause_fills hd hwhitelisted (slots_simple " HAVING " rfl) hhaving
  rw [hcollected.joins] at hfilled
  rw [valuesList_wherePred, hcollected.wherePreds] at hfilled'
  rw [valuesList_having, hcollected.having] at hfilled''
  have hargs : b₃.args = valuesList (joinPredicates e ++ Statement.selections e ++ havings e) := by
    rw [hfilled''.args, hfilled'.args, hfilled.args, valuesList_append, valuesList_append]
    rfl
  refine ⟨?_, hargs⟩
  have horder : ∀ o ∈ ctx.order.flatMap (orderItems cfg.nullsLast
      ⟨ctx.root, ctx.joins.map JoinNode.aliasName, outputs⟩), o.Whitelisted := by
    intro o ho
    obtain ⟨t, -, ho⟩ := List.mem_flatMap.mp ho
    have hterm := Names.column_whitelisted hwhitelisted "" t.field
    unfold orderItems at ho
    rcases List.mem_append.mp ho with ho | ho
    · split_ifs at ho
      · rw [List.mem_singleton.mp ho]
        exact hterm
      · cases ho
    · rw [List.mem_singleton.mp ho]
      exact hterm
  have hplaces : (range b₃.args.length).map d.placeholder = (⟨[], 0⟩ : Builder).next d (valuesList (joinPredicates e)) ++
      b₁.next d (valuesList (Statement.selections e)) ++ b₂.next d (valuesList (havings e)) := by
    have hargs₂ : b₂.args = (⟨[], 0⟩ : Builder).args ++ (valuesList (joinPredicates e) ++ valuesList (Statement.selections e)) := by
      rw [hfilled'.args, hfilled.args, append_assoc]
    rw [← next_eq_append hfilled.args, ← next_eq_append hargs₂, hargs, valuesList_append, valuesList_append, range_eq_range']
    rfl
  show r.Slots _ _ _ ((range b₃.args.length).map d.placeholder)
  rw [hplaces]
  exact slots_select hd (selectItems_whitelisted hitems) hfilled.slots hfilled'.slots hfilled''.slots horder

end Read

section Write
open Reader (slots_simple slots_empty)
variable {d : Dialect} {r : Reader} (hd : d.ReadBy r)
include hd

omit hd in
lemma slots_each {α : Type} {l : List α} {f g : α → String} (h : ∀ a, r.Slots false false (f a) [g a]) :
    r.Slots false false (", ".intercalate (l.map f)) (l.map g) := by
  have hall : ∀ x ∈ l.map fun a => (f a, [g a]), r.Slots false false x.1 x.2 := List.forall_mem_map.mpr fun a _ => h a
  have hread := Reader.slots_list hall
  rw [map_map, List.flatMap_map, ← List.map_eq_flatMap] at hread
  exact hread

lemma slots_fieldList (cols : List String) : r.Slots false false (Statement.fieldList d cols) [] :=
  slots_plainList (List.forall_mem_map.mpr fun n _ => slots_name hd n)

lemma slots_values (ks : List Nat) :
    r.Slots true true ("(" ++ ", ".intercalate (ks.map d.placeholder) ++ ")") (ks.map d.placeholder) := by
  have hread := ((slots_simple "(" rfl).append (slots_each (l := ks) (slots_param hd)) rfl).append (slots_simple ")" rfl) rfl
  simp only [nil_append, append_nil] at hread
  exact hread

lemma slots_tuples (width n start : Nat) : ∃ xs : List (String × List String),
    xs.map Prod.fst = Statement.tupleTexts d width n start ∧
      xs.flatMap Prod.snd = (List.range' start (n * width)).map d.placeholder ∧ ∀ x ∈ xs, r.Slots false false x.1 x.2 := by
  induction n generalizing start with
  | zero => exact ⟨[], rfl, by simp, by simp⟩
  | succ n ih =>
    obtain ⟨xs, htexts, hplaces, hall⟩ := ih (start + width)
    refine ⟨("(" ++ ", ".intercalate ((range' start width).map d.placeholder) ++ ")",
      (range' start width).map d.placeholder) :: xs, ?_, ?_, ?_⟩
    · rw [map_cons, htexts, Statement.tupleTexts]
    · rw [List.flatMap_cons, hplaces, ← map_append, List.range'_append_1, Nat.succ_mul, Nat.add_comm width]
    · exact List.forall_mem_cons.mpr ⟨(slots_values hd _).weak, hall⟩

lemma slots_set (set : List (String × Value)) : r.Slots false false (", ".intercalate
      ((set.zipIdx).map fun s => d.quoteIdent s.1.1 ++ " = " ++ d.placeholder s.2))
    ((List.range set.length).map d.placeholder) := by
  have hplaces : (set.zipIdx).map (fun s => d.placeholder s.2) = (range set.length).map d.placeholder := by
    rw [range_eq_range', ← List.zipIdx_map_snd 0 set, map_map]
    rfl
  rw [← hplaces]
  apply slots_each
  intro s
  exact ((slots_name hd s.1.1).append (slots_simple " = " rfl) rfl).append (slots_param hd s.2) rfl

lemma renderWhere_slots {maxIN : Int} {p : Predicate} {args args' : List Value} {q : Pred}
    (h : Statement.renderWhere maxIN p args = .ok (q, args')) :
    r.Slots false false (q.text d) ((List.range' args.length (values p).length).map d.placeholder) ∧ args' = args ++ values p := by
  obtain ⟨_, -, h⟩ := bind_eq_ok.mp h
  obtain ⟨⟨q, b⟩, hq, h⟩ := bind_eq_ok.mp h
  cases h
  rw [Statement.mapError_eq_ok] at hq
  exact slots_renderPredicate hd (fun o ho => by cases ho) hq

omit hd in
lemma length_flatten_of_find? {width : Nat} {tuples : List (List Value)} (h : tuples.find? (·.length ≠ width) = none) :
    tuples.flatten.length = tuples.length * width := by
  have hall : ∀ t ∈ tuples, t.length = width := by simpa using h
  rw [List.length_flatten, List.map_congr_left hall]
  simp

def Filled (d : Dialect) (r : Reader) (rendering : Statement.Rendering) (vs : List Value) : Prop :=
  r.Slots false false rendering.sql ((List.range rendering.args.length).map d.placeholder) ∧ rendering.args = vs

lemma renderInsert_slots {returning : List String} {target : RelationRef} {columns : List String} {tuples : List (List Value)}
    {rendering : Statement.Rendering} (h : Statement.renderInsert d returning target columns tuples = .ok rendering) :
    Filled d r rendering tuples.flatten := by
  unfold Statement.renderInsert at h
  split at h
  · cases h
  split at h
  · cases h
  rename_i hfind
  cases h
  refine ⟨?_, rfl⟩
  have hlast : r.Slots true false (if returning = [] then "" else " RETURNING " ++ Statement.fieldList d returning) [] := by
    split_ifs
    · exact slots_empty
    · exact (slots_simple " RETURNING " rfl).append (slots_fieldList hd returning) rfl
  obtain ⟨xs, htexts, hplaces, hall⟩ := slots_tuples hd columns.length tuples.length 0
  have htuples := Reader.slots_list hall
  rw [htexts, hplaces, ← length_flatten_of_find? hfind, ← range_eq_range'] at htuples
  have hread := ((((((slots_simple "INSERT INTO " rfl).append (slots_table hd target) rfl).append (slots_simple " (" rfl) rfl).append
    (slots_fieldList hd columns) rfl).append (slots_simple ") VALUES " rfl) rfl).append htuples rfl).append hlast rfl
  simp only [nil_append, append_nil] at hread
  exact hread

lemma renderUpdate_slots {maxIN : Int} {target : RelationRef} {p : Predicate} {set : List (String × Value)}
    {rendering : Statement.Rendering} (h : Statement.renderUpdate d maxIN target p set = .ok rendering) :
    Filled d r rendering (set.map Prod.snd ++ values p) := by
  unfold Statement.renderUpdate at h
  split at h
  · cases h
  obtain ⟨⟨q, args⟩, hq, h⟩ := bind_eq_ok.mp h
  cases h
  obtain ⟨hslots, rfl⟩ := renderWhere_slots hd hq
  have hread := (((((slots_simple "UPDATE " rfl).append (slots_table hd target) rfl).append (slots_simple " SET " rfl) rfl).append
    (slots_set hd set) rfl).append (slots_simple " WHERE " rfl) rfl).append hslots rfl
  refine ⟨?_, rfl⟩
  simp only [nil_append, append_nil] at hread
  simp only [length_append, range_eq_range', ← List.range'_append_1, map_append, List.length_map, Nat.zero_add] at hread ⊢
  exact hread

lemma renderDelete_slots {maxIN : Int} {target : RelationRef} {p : Predicate} {rendering : Statement.Rendering}
    (h : Statement.renderDelete d maxIN target p = .ok rendering) : Filled d r rendering (values p) := by
  unfold Statement.renderDelete at h
  split at h
  · cases h
  obtain ⟨⟨q, args⟩, hq, h⟩ := bind_eq_ok.mp h
  cases h
  obtain ⟨hslots, rfl⟩ := renderWhere_slots hd hq
  have hread := (((slots_simple "DELETE FROM " rfl).append (slots_table hd target) rfl).append (slots_simple " WHERE " rfl) rfl).append hslots rfl
  refine ⟨?_, rfl⟩
  rw [nil_append, nil_append, nil_append, List.length_nil, ← range_eq_range'] at hread
  exact hread

theorem compile_slots {returning : Bool} {o : Statement.Options} {n : Statement.Node} {c : Statement.Compiled}
    (h : Statement.compile d returning o n = .ok c) :
    r.Slots false false c.sql ((List.range c.args.length).map d.placeholder) ∧ c.args = nodeValues n := by
  unfold Statement.compile at h
  split at h
  · cases h
  obtain ⟨rendering, hrender, h⟩ := bind_eq_ok.mp h
  cases h
  cases n with
  | read e =>
    obtain ⟨select, hselect, hrender⟩ := bind_eq_ok.mp hrender
    cases hrender
    rw [Statement.mapError_eq_ok] at hselect
    exact renderSelect_slots hd hselect
  | insert target columns tuples => exact renderInsert_slots hd hrender
  | update target p set => exact renderUpdate_slots hd hrender
  | delete target p => exact renderDelete_slots hd hrender
  | call procedure args =>
    cases hrender
    refine ⟨?_, rfl⟩
    have hread := ((slots_simple "CALL " rfl).append (slots_table hd procedure) rfl).append (slots_values hd (range args.length)) rfl
    simpa [Statement.renderCall, String.append_assoc] using hread.weak

end Write

end SqlMcpServer.Codegen
