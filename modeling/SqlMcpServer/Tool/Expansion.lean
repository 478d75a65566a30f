import SqlMcpServer.Rbac.Discovery
import SqlMcpServer.Tool.Expand

namespace SqlMcpServer.Tool

open List
open Relalg

def Keyable (decimal : Bool) (v : DriverValue) : Prop := v = .null ∨ (v.meaning decimal).isSome

lemma tupleMeaning_of_parts {α : Type} (lib : Strconv) (v : α → DriverValue) (d : α → Bool) {l : List α}
    (hkeyable : ∀ a ∈ l, Keyable (d a) (v a)) {parts : List String}
    (h : joinParts lib (l.map v) (l.map d) = some parts) : ∃ ms, tupleMeaning (l.map v) (l.map d) = some ms := by
  induction l generalizing parts with
  | nil => exact ⟨[], rfl⟩
  | cons a l ih =>
    rw [forall_mem_cons] at hkeyable
    simp only [map_cons, joinParts, headD_cons, tail_cons, Option.bind_eq_bind, Option.bind_eq_some_iff] at h
    obtain ⟨part, hpart, parts', hparts, -⟩ := h
    have hmeaning : ((v a).meaning (d a)).isSome := by
      refine hkeyable.1.resolve_left ?_
      intro hnull
      rw [hnull] at hpart
      cases hpart
    obtain ⟨m, hm⟩ := Option.isSome_iff_exists.mp hmeaning
    obtain ⟨ms, hms⟩ := ih hkeyable.2 hparts
    exact ⟨m :: ms, by simp [tupleMeaning, hm, hms]⟩

lemma parts_eq_of_key {α : Type} (lib : Strconv) {v w : α → DriverValue} {d e : α → Bool} {l : List α}
    (hv : ∀ a ∈ l, Keyable (d a) (v a)) (hw : ∀ a ∈ l, Keyable (e a) (w a)) {key : String}
    (hvkey : joinKeyOf lib (l.map v) (l.map d) = some key) (hwkey : joinKeyOf lib (l.map w) (l.map e) = some key) :
    ∃ parts, joinParts lib (l.map v) (l.map d) = some parts ∧ joinParts lib (l.map w) (l.map e) = some parts := by
  obtain ⟨ps, hps, -⟩ := Option.map_eq_some_iff.mp hvkey
  obtain ⟨qs, hqs, -⟩ := Option.map_eq_some_iff.mp hwkey
  obtain ⟨ms, hms⟩ := tupleMeaning_of_parts lib v d hv hps
  obtain ⟨ns, hns⟩ := tupleMeaning_of_parts lib w e hw hqs
  rw [joinKeyOf_meaning lib hms, Option.some.injEq] at hvkey
  rw [joinKeyOf_meaning lib hns, Option.some.injEq] at hwkey
  obtain ⟨hmparts, hmjoin, hmlen⟩ := joinParts_meaning lib hms
  obtain ⟨hnparts, hnjoin, hnlen⟩ := joinParts_meaning lib hns
  rw [length_map] at hmlen hnlen
  have heq : ms = ns := valueParts_inj lib hmjoin hnjoin (hmlen.trans hnlen.symm) (hvkey.trans hwkey.symm)
  exact ⟨_, hmparts, heq ▸ hnparts⟩

lemma exists_parts_iff {α : Type} (lib : Strconv) {v w : α → DriverValue} {d e : α → Bool} {l : List α} :
    (∃ parts, joinParts lib (l.map v) (l.map d) = some parts ∧ joinParts lib (l.map w) (l.map e) = some parts) ↔
      ∀ a ∈ l, ∃ part, joinPart lib (d a) (v a) = some part ∧ joinPart lib (e a) (w a) = some part := by
  induction l with
  | nil => simp [joinParts]
  | cons a l ih =>
    rw [forall_mem_cons, ← ih]
    simp only [map_cons, joinParts, headD_cons, tail_cons, Option.bind_eq_bind, Option.bind_eq_some_iff,
      Option.pure_def, Option.some.injEq]
    constructor
    · rintro ⟨parts, ⟨p, hp, ps, hps, rfl⟩, ⟨q, hq, qs, hqs, heq⟩⟩
      obtain ⟨rfl, rfl⟩ := List.cons.inj heq
      exact ⟨⟨q, hp, hq⟩, qs, hps, hqs⟩
    · rintro ⟨⟨p, hp, hq⟩, ps, hps, hqs⟩
      exact ⟨p :: ps, ⟨p, hp, ps, hps, rfl⟩, p, hq, ps, hqs, rfl⟩

section Relation
variable (relation : Relationship)

lemma locals_eq : (relationJoin relation).locals = (joinPairs (relationJoin relation)).map (·.left) := by
  have hlen : (relationJoin relation).locals.length = (relationJoin relation).target.length := by simp [relationJoin]
  rw [joinPairs, map_map]
  exact (map_fst_zip hlen.le).symm

lemma target_eq : (relationJoin relation).target = (joinPairs (relationJoin relation)).map (·.right) := by
  have hlen : (relationJoin relation).locals.length = (relationJoin relation).target.length := by simp [relationJoin]
  rw [joinPairs, map_map]
  exact (map_snd_zip hlen.ge).symm

lemma target_ne_nil (h : relation.joinOn ≠ []) : (relationJoin relation).target ≠ [] := by
  simpa [relationJoin, sorted, ← length_pos_iff] using h

end Relation

section Tables
variable {R : Type} {r : RelationRef} (table : Served R r)

lemma Served.keeps_andPreds (p q : Predicate) (row : R) :
    table.keeps (andPreds p q) row = (table.keeps p row && table.keeps q row) := by
  unfold andPreds
  by_cases hp : p.isNil
  · rw [if_pos hp, Rbac.eq_nil_of_isNil hp, table.keeps_nil, Bool.true_and]
  rw [if_neg hp]
  by_cases hq : q.isNil
  · rw [if_pos hq, Rbac.eq_nil_of_isNil hq, table.keeps_nil, Bool.and_true]
  · rw [if_neg hq, table.keeps_and]
    simp

def tupleMatches (columns : List String) (row : R) (t : List DriverValue) : Bool :=
  (columns.zip t).all fun p => table.keeps (.cond ⟨p.1, .eq, p.2.arg⟩) row

lemma keeps_joinPredicate {columns : List String} {tuples : List (List DriverValue)}
    (hlen : ∀ t ∈ tuples, t.length = columns.length) (row : R) :
    table.keeps (joinPredicate columns tuples) row = tuples.any (tupleMatches table columns row) := by
  unfold joinPredicate
  split
  · rename_i column
    rw [table.keeps_in, any_map, Bool.eq_iff_iff, List.any_eq_true, List.any_eq_true]
    refine exists_congr fun t => and_congr_right fun ht => ?_
    obtain ⟨v, rfl⟩ := length_eq_one_iff.mp (hlen t ht)
    simp [tupleMatches]
  · have hors : ∀ ts : List (List DriverValue),
        (ts.map fun t => Predicate.and ((columns.zip t).map fun p => .cond ⟨p.1, .eq, p.2.arg⟩)).any
          (fun p => table.keeps p row) = ts.any (tupleMatches table columns row) := by
      intro ts
      rw [any_map]
      congr 1
      funext t
      simp only [Function.comp_apply, table.keeps_and, all_map, tupleMatches]
      rfl
    rw [← hors]
    split
    · rename_i p hp
      rw [hp, List.any_cons, List.any_nil, Bool.or_false]
    · exact table.keeps_or _ _

end Tables

def joins {R : Type} {r : RelationRef} (table : Served R r) (relation : Relationship) (parentRow : KeptRow) (row : R) : Bool :=
  (joinPairs (relationJoin relation)).all fun p => table.keeps (.cond ⟨p.right, .eq, (parentRow p.left).arg⟩) row

lemma tupleMatches_eq_joins {R : Type} {r : RelationRef} (table : Served R r) (relation : Relationship)
    (parentRow : KeptRow) (row : R) :
    tupleMatches table (relationJoin relation).target row ((relationJoin relation).locals.map parentRow) =
      joins table relation parentRow row := by
  rw [tupleMatches, joins, locals_eq, target_eq, map_map, zip_map', all_map]
  rfl

/-- The target table's values have keys, and its equality agrees with them. -/
structure KeysAgree {R : Type} (lib : Strconv) (parent : Entity) (target : Resolved) (table : Served R target.entity.ref)
    (relation : Relationship) (parents : List KeptRow) : Prop where
  parentValues : ∀ p ∈ joinPairs (relationJoin relation), ∀ row ∈ parents,
    Keyable (decimalColumn parent p.left) (row p.left)
  targetValues : ∀ p ∈ joinPairs (relationJoin relation), ∀ row ∈ table.rows,
    Keyable (decimalColumn target.entity p.right) (table.value row p.right)
  equality : ∀ p ∈ joinPairs (relationJoin relation), ∀ row ∈ table.rows, ∀ parentRow ∈ parents,
    table.keeps (.cond ⟨p.right, .eq, (parentRow p.left).arg⟩) row = true ↔
      ∃ part, joinPart lib (decimalColumn target.entity p.right) (table.value row p.right) = some part ∧
        joinPart lib (decimalColumn parent p.left) (parentRow p.left) = some part

section KeysAgree
variable {R : Type} {lib : Strconv} {parent : Entity} {target : Resolved} {table : Served R target.entity.ref}
  {relation : Relationship} {parents : List KeptRow} (h : KeysAgree lib parent target table relation parents)
include h

lemma KeysAgree.joins_iff {row : R} (hrow : row ∈ table.rows) {parentRow : KeptRow} (hparent : parentRow ∈ parents) :
    joins table relation parentRow row = true ↔
      ∃ key, rowJoinKey lib (table.value row) (relationJoin relation).target
          (decimalColumns target.entity (relationJoin relation).target) = some key ∧
        rowJoinKey lib parentRow (relationJoin relation).locals
          (decimalColumns parent (relationJoin relation).locals) = some key := by
  have hparts : joins table relation parentRow row = true ↔ ∀ p ∈ joinPairs (relationJoin relation),
      ∃ part, joinPart lib (decimalColumn target.entity p.right) (table.value row p.right) = some part ∧
        joinPart lib (decimalColumn parent p.left) (parentRow p.left) = some part := by
    rw [joins, List.all_eq_true]
    exact forall₂_congr fun p hp => h.equality p hp row hrow parentRow hparent
  have hlists := exists_parts_iff lib (l := joinPairs (relationJoin relation)) (v := fun p => table.value row p.right)
    (w := fun p => parentRow p.left) (d := fun p => decimalColumn target.entity p.right)
    (e := fun p => decimalColumn parent p.left)
  rw [hparts, ← hlists]
  simp only [rowJoinKey, decimalColumns, locals_eq, target_eq, map_map]
  constructor
  · rintro ⟨parts, hrowParts, hparentParts⟩
    exact ⟨_, congrArg (Option.map _) hrowParts, congrArg (Option.map _) hparentParts⟩
  · rintro ⟨key, hrowKey, hparentKey⟩
    exact parts_eq_of_key lib (fun p hp => h.targetValues p hp row hrow)
      (fun p hp => h.parentValues p hp parentRow hparent) hrowKey hparentKey

end KeysAgree

section Tuples
variable (lib : Strconv) (columns : List String) (decimal : List Bool)

lemma uniqueTuplesFrom_eq (rows : List KeptRow) (seen : List String) :
    uniqueTuplesFrom lib columns decimal rows seen =
      (Grouping.distinctFrom (fun row => rowJoinKey lib row columns decimal)
        (rows.filter fun row => (rowJoinKey lib row columns decimal).isSome) (seen.map some)).map
        fun row => columns.map row := by
  induction rows generalizing seen with
  | nil => rfl
  | cons row rows ih =>
    rw [uniqueTuplesFrom]
    cases hkey : rowJoinKey lib row columns decimal with
    | none =>
      rw [filter_cons_of_neg (by simp [hkey])]
      exact ih seen
    | some key =>
      rw [filter_cons_of_pos (by simp [hkey]), Grouping.distinctFrom, hkey]
      simp only [mem_map, Option.some.injEq, exists_eq_right]
      by_cases hseen : key ∈ seen
      · rw [if_pos hseen, if_pos hseen, ih]
      · rw [if_neg hseen, if_neg hseen, ih]
        rfl

def tupleKey (t : List DriverValue) : String := (joinKeyOf lib t decimal).getD ""

lemma mem_uniqueJoinTuples {rows : List KeptRow} {t : List DriverValue}
    (h : t ∈ uniqueJoinTuples lib rows columns decimal) :
    ∃ row ∈ rows, t = columns.map row ∧ rowJoinKey lib row columns decimal = some (tupleKey lib decimal t) := by
  rw [uniqueJoinTuples, uniqueTuplesFrom_eq] at h
  obtain ⟨row, hrow, rfl⟩ := mem_map.mp h
  have hmem := (Grouping.distinctFrom_sublist _ _ _).subset hrow
  obtain ⟨hrows, hsome⟩ := mem_filter.mp hmem
  obtain ⟨key, hkey⟩ := Option.isSome_iff_exists.mp hsome
  refine ⟨row, hrows, rfl, ?_⟩
  have htuple : joinKeyOf lib (columns.map row) decimal = some key := hkey
  rw [tupleKey, htuple, Option.getD_some]
  exact hkey

lemma exists_uniqueJoinTuple {rows : List KeptRow} {row : KeptRow} {key : String} (hrow : row ∈ rows)
    (hkey : rowJoinKey lib row columns decimal = some key) :
    ∃ t ∈ uniqueJoinTuples lib rows columns decimal, tupleKey lib decimal t = key := by
  have hmem : some key ∈ (Grouping.distinctFrom (fun row => rowJoinKey lib row columns decimal)
      (rows.filter fun row => (rowJoinKey lib row columns decimal).isSome) []).map
      fun row => rowJoinKey lib row columns decimal := by
    rw [Grouping.keys_distinctFrom]
    exact ⟨mem_map.mpr ⟨row, mem_filter.mpr ⟨hrow, by rw [hkey]; rfl⟩, hkey⟩, not_mem_nil⟩
  obtain ⟨first, hfirst, hfirstKey⟩ := mem_map.mp hmem
  refine ⟨columns.map first, ?_, ?_⟩
  · rw [uniqueJoinTuples, uniqueTuplesFrom_eq]
    exact mem_map_of_mem hfirst
  · have htuple : joinKeyOf lib (columns.map first) decimal = some key := hfirstKey
    rw [tupleKey, htuple, Option.getD_some]

lemma nodup_tupleKeys (rows : List KeptRow) :
    ((uniqueJoinTuples lib rows columns decimal).map (tupleKey lib decimal)).Nodup := by
  have hkeys : (uniqueJoinTuples lib rows columns decimal).map (some ∘ tupleKey lib decimal) =
      (Grouping.distinctFrom (fun row => rowJoinKey lib row columns decimal)
        (rows.filter fun row => (rowJoinKey lib row columns decimal).isSome) []).map
        fun row => rowJoinKey lib row columns decimal := by
    rw [uniqueJoinTuples, uniqueTuplesFrom_eq, map_map]
    apply map_congr_left
    intro row hrow
    obtain ⟨-, hsome⟩ := mem_filter.mp ((Grouping.distinctFrom_sublist _ _ _).subset hrow)
    obtain ⟨key, hkey⟩ := Option.isSome_iff_exists.mp hsome
    have htuple : joinKeyOf lib (columns.map row) decimal = some key := hkey
    simp only [Function.comp_apply, tupleKey, htuple, Option.getD_some, hkey]
  have hnodup := Grouping.nodup_keys_distinctFrom (fun row => rowJoinKey lib row columns decimal)
    (rows.filter fun row => (rowJoinKey lib row columns decimal).isSome) []
  rw [← hkeys, ← map_map] at hnodup
  exact hnodup.of_map

end Tuples

lemma decision_returns_reads (req : Rbac.Request) {res : Resolved} {candidates : List Rbac.Grant}
    (hread : req.action = .read) (hfields : req.fields = []) (hreads : req.readFields ≠ [])
    (hcolumns : ∀ c ∈ req.readFields, ∃ attr ∈ res.attributes, attr.name = c)
    (hallowed : (Rbac.decision req res candidates).allowed = true) :
    ∀ c ∈ req.readFields, c ∈ (Rbac.decision req res candidates).fields := by
  intro c hc
  obtain ⟨projected, serving, hproject, hprojected, -⟩ := Rbac.decision_allowed hallowed
  rw [hprojected]
  have hused : (Rbac.usedFields req).1 = req.readFields := by simp [Rbac.usedFields, hreads]
  rw [hused] at hproject
  simp only [Rbac.project, hread, Rbac.returnsRows, hfields, Bool.not_true, Bool.false_eq_true, if_false, ne_eq,
    not_true_eq_false] at hproject
  split_ifs at hproject with hempty hserving
  cases hproject
  -- Some grant covers the request; every one that does reads the column.
  obtain ⟨f, hf⟩ := exists_mem_of_ne_nil _ hempty
  obtain ⟨grant, hgrant, -⟩ := Rbac.mem_unionProjection.mp hf
  have hcovers := (mem_filter.mp hgrant).2
  obtain ⟨attr, hattr, hname⟩ := hcolumns c hc
  refine Rbac.mem_unionProjection.mpr ⟨grant, hgrant, Rbac.mem_grantProjection.mpr ⟨?_, ?_⟩⟩
  · simpa [Rbac.projectFields] using ⟨attr, hattr, hname⟩
  · intro acl hacl
    simp only [Rbac.coversFields, hacl, Bool.and_eq_true, beq_iff_eq] at hcovers
    refine Rbac.lists_of_firstDenied ?_ hcovers.1 c hc
    intro hmem
    obtain ⟨attr', -, hname'⟩ := hcolumns "" hmem
    exact attr'.named hname'

lemma resolve_of_resolveDMLEntity {tc : Context} {name : String} {res : Resolved} (h : resolveDMLEntity tc name = .ok res) :
    tc.registry.resolve name = some res := by
  unfold resolveDMLEntity at h
  split at h
  · cases h
  · split_ifs at h
    cases h
    assumption

lemma authorized_returns_reads (tc : Context) {a : Rbac.GrantAuthorizer} (memo : Rbac.GrantAuthorizer.Memo a)
    (hregistry : a.registry = tc.registry) (hauthorize : tc.authorize = fun req => .ok (Rbac.authorize a memo req).1)
    {req : Rbac.Request} {res : Resolved} {g : Rbac.Decision} (hres : tc.registry.resolve req.entity = some res)
    (hread : req.action = .read) (hfields : req.fields = []) (hreads : req.readFields ≠ [])
    (hcolumns : ∀ c ∈ req.readFields, ∃ attr ∈ res.attributes, attr.name = c) (hg : authorizeRequest tc req = .ok g) :
    ∀ c ∈ req.readFields, c ∈ g.fields := by
  have hgrant : g = (Rbac.authorize a memo req).1 ∧ g.allowed = true := by
    simp only [authorizeRequest, hauthorize, hres] at hg
    split_ifs at hg with hdenied hempty hunavailable
    cases hg
    exact ⟨rfl, by simpa using hdenied⟩
  obtain ⟨rfl, hallowed⟩ := hgrant
  rw [Rbac.authorize_fst memo (hregistry ▸ hres)] at hallowed ⊢
  exact decision_returns_reads { req with role := a.normalize req.role } hread hfields hreads hcolumns hallowed

/-- No query of an expansion reaches a row limit: its rows are within the call's, and the
gate's bound leaves them all. -/
def NoLimitHit {R : Type} (tc : ExpandContext) (lib : Strconv) (parent : Entity) (target : Resolved)
    (table : Served R target.entity.ref) (relation : Relationship) (g : Rbac.Decision) (parents : List KeptRow) : Prop :=
  let join := relationJoin relation
  ∀ batch ∈ HashJoin.batches (batchSize tc join)
      (uniqueJoinTuples lib parents join.locals (decimalColumns parent join.locals)),
    let rows := (table.query (expandQuery target join g batch)).length
    (0 < tc.maxRows → rows ≤ tc.maxRows) ∧
      ∀ n, tc.gate (bounded tc (expandQuery target join g batch)) = .ok (some n) →
        rows ≤ n ∧ (0 < tc.maxRows → rows < tc.maxRows)

def NotExceeded (e : ExpandError) : Prop := ∃ cause, e = .tool cause

section Main
variable {R : Type} {tc : ExpandContext} {lib : Strconv} {parent : Entity} {target : Resolved}
  {table : Served R target.entity.ref} {relation : Relationship} {g : Rbac.Decision} {parents : List KeptRow}

lemma expandBatch_gives (hg : authorizeRequest tc.toContext (expandRequest tc relation) = .ok g)
    {batch : List (List DriverValue)}
    (hrows : 0 < tc.maxRows → (table.query (expandQuery target (relationJoin relation) g batch)).length ≤ tc.maxRows)
    (hcut : ∀ n, tc.gate (bounded tc (expandQuery target (relationJoin relation) g batch)) = .ok (some n) →
      (table.query (expandQuery target (relationJoin relation) g batch)).length ≤ n ∧
        (0 < tc.maxRows → (table.query (expandQuery target (relationJoin relation) g batch)).length < tc.maxRows)) :
    Except.Gives NotExceeded
      ((table.query (expandQuery target (relationJoin relation) g batch)).map fun row => ⟨row, g.fields⟩)
      (expandBatch tc target table relation batch) := by
  have hbounded : table.query (bounded tc (expandQuery target (relationJoin relation) g batch)) =
      table.query (expandQuery target (relationJoin relation) g batch) := by
    unfold bounded
    split
    · rename_i hpos
      have := hrows hpos
      rw [table.query_limit, take_of_length_le]
      omega
    · rfl
  unfold expandBatch
  rw [hg]
  dsimp only
  cases hgate : tc.gate (bounded tc (expandQuery target (relationJoin relation) g batch)) with
  | error e => exact .error ⟨e, rfl⟩
  | ok cut =>
    have hall : cutAt cut (table.query (expandQuery target (relationJoin relation) g batch)) =
        table.query (expandQuery target (relationJoin relation) g batch) := by
      cases cut with
      | none => rfl
      | some n => exact take_of_length_le (hcut n hgate).1
    dsimp only
    rw [hbounded, hall, if_neg, if_neg]
    · exact .ok
    · rintro ⟨hsome, hpos, hle⟩
      obtain ⟨n, rfl⟩ := Option.isSome_iff_exists.mp hsome
      have := (hcut n hgate).2 hpos
      omega
    · rintro ⟨hpos, hlt⟩
      have := hrows hpos
      omega

def targetKey (lib : Strconv) (target : Resolved) (table : Served R target.entity.ref) (relation : Relationship) (row : R) :
    Option String :=
  rowJoinKey lib (table.value row) (relationJoin relation).target
    (decimalColumns target.entity (relationJoin relation).target)

def parentKey (lib : Strconv) (parent : Entity) (relation : Relationship) (row : KeptRow) : Option String :=
  rowJoinKey lib row (relationJoin relation).locals (decimalColumns parent (relationJoin relation).locals)

def expandTuples (lib : Strconv) (parent : Entity) (relation : Relationship) (parents : List KeptRow) :
    List (List DriverValue) :=
  uniqueJoinTuples lib parents (relationJoin relation).locals (decimalColumns parent (relationJoin relation).locals)

def batchRows (table : Served R target.entity.ref) (relation : Relationship) (g : Rbac.Decision)
    (batch : List (List DriverValue)) : List R :=
  table.query (expandQuery target (relationJoin relation) g batch)

lemma childKey_eq (hreturned : ∀ c ∈ (relationJoin relation).target, c ∈ g.fields) (row : R) :
    rowJoinKey lib (Child.kept table ⟨row, g.fields⟩) (relationJoin relation).target
      (decimalColumns target.entity (relationJoin relation).target) = targetKey lib target table relation row := by
  have hvalues : (relationJoin relation).target.map (Child.kept table ⟨row, g.fields⟩) =
      (relationJoin relation).target.map (table.value row) := by
    apply map_congr_left
    intro c hc
    exact if_pos (hreturned c hc)
  rw [rowJoinKey, hvalues]
  rfl

section Grouped
variable (hagrees : KeysAgree lib parent target table relation parents)
include hagrees

lemma mem_batchRows {batch : List (List DriverValue)} (hbatch : ∀ t ∈ batch, t ∈ expandTuples lib parent relation parents)
    {row : R} (hrow : row ∈ table.rows) :
    table.keeps (andPreds (joinPredicate (relationJoin relation).target batch) g.rowFilter) row = true ↔
      (∃ t ∈ batch, targetKey lib target table relation row =
        some (tupleKey lib (decimalColumns parent (relationJoin relation).locals) t)) ∧
      table.keeps g.rowFilter row = true := by
  have htuple : ∀ t ∈ batch, ∃ parentRow ∈ parents, t = (relationJoin relation).locals.map parentRow ∧
      parentKey lib parent relation parentRow =
        some (tupleKey lib (decimalColumns parent (relationJoin relation).locals) t) :=
    fun t ht => mem_uniqueJoinTuples lib _ _ (hbatch t ht)
  have hlen : ∀ t ∈ batch, t.length = (relationJoin relation).target.length := by
    intro t ht
    obtain ⟨parentRow, -, rfl, -⟩ := htuple t ht
    simp [relationJoin]
  rw [table.keeps_andPreds, keeps_joinPredicate table hlen, Bool.and_eq_true, List.any_eq_true]
  refine and_congr_left fun _ => exists_congr fun t => and_congr_right fun ht => ?_
  obtain ⟨parentRow, hparent, rfl, hkey⟩ := htuple t ht
  rw [tupleMatches_eq_joins, hagrees.joins_iff hrow hparent]
  constructor
  · rintro ⟨key, hrowKey, hparentKey⟩
    exact hrowKey.trans (hparentKey.symm.trans hkey)
  · intro hrowKey
    exact ⟨_, hrowKey, hkey⟩

lemma targetKey_of_mem_batchRows {batch : List (List DriverValue)}
    (hbatch : ∀ t ∈ batch, t ∈ expandTuples lib parent relation parents) {row : R}
    (hrow : row ∈ batchRows table relation g batch) :
    ∃ t ∈ batch, targetKey lib target table relation row =
      some (tupleKey lib (decimalColumns parent (relationJoin relation).locals) t) := by
  obtain ⟨hrows, hkeeps⟩ := mem_filter.mp ((table.query_select _ _).mem_iff.mp hrow)
  exact ((mem_batchRows hagrees hbatch hrows).mp hkeeps).1

/-- What a batch selects under the key of a parent it has the tuple of: the admitted rows
that join the parent. -/
lemma batchRows_perm {batch : List (List DriverValue)} (hbatch : ∀ t ∈ batch, t ∈ expandTuples lib parent relation parents)
    {parentRow : KeptRow} (hparent : parentRow ∈ parents) {key : String}
    (hkey : parentKey lib parent relation parentRow = some key)
    (htuple : ∃ t ∈ batch, tupleKey lib (decimalColumns parent (relationJoin relation).locals) t = key) :
    ((batchRows table relation g batch).filter fun row => targetKey lib target table relation row = some key).Perm
      (table.rows.filter fun row => table.keeps g.rowFilter row && joins table relation parentRow row) := by
  refine ((table.query_select _ _).filter _).trans ?_
  rw [filter_filter]
  apply List.Perm.of_eq
  apply filter_congr
  intro row hrow
  rw [Bool.eq_iff_iff, Bool.and_eq_true, Bool.and_eq_true, decide_eq_true_eq, mem_batchRows hagrees hbatch hrow,
    hagrees.joins_iff hrow hparent]
  constructor
  · rintro ⟨hrowKey, -, hkeeps⟩
    exact ⟨hkeeps, key, hrowKey, hkey⟩
  · rintro ⟨hkeeps, key', hrowKey, hparentKey⟩
    obtain rfl : key = key' := Option.some.inj (hkey.symm.trans hparentKey)
    obtain ⟨t, ht, rfl⟩ := htuple
    exact ⟨hrowKey, ⟨t, ht, hrowKey⟩, hkeeps⟩

lemma grouped_eq_batchRows {size : Nat} (hsize : 0 < size) {parentRow : KeptRow} (hparent : parentRow ∈ parents)
    {key : String} (hkey : parentKey lib parent relation parentRow = some key) :
    ∃ batch ∈ HashJoin.batches size (expandTuples lib parent relation parents),
      (∃ t ∈ batch, tupleKey lib (decimalColumns parent (relationJoin relation).locals) t = key) ∧
      ((HashJoin.batches size (expandTuples lib parent relation parents)).flatMap (batchRows table relation g)).filter
          (fun row => targetKey lib target table relation row = some key) =
        (batchRows table relation g batch).filter fun row => targetKey lib target table relation row = some key := by
  obtain ⟨t, ht, rfl⟩ := exists_uniqueJoinTuple lib _ _ hparent hkey
  obtain ⟨batch, hbatch, hmem⟩ := HashJoin.exists_batch hsize ht
  refine ⟨batch, hbatch, ⟨t, hmem, rfl⟩, ?_⟩
  apply HashJoin.filter_flatMap_fetch (tupleKey lib (decimalColumns parent (relationJoin relation).locals)) _ _ hbatch hmem
  · rw [HashJoin.flatten_batches hsize]
    exact nodup_tupleKeys lib _ _ parents
  · intro part hpart row hrow
    refine targetKey_of_mem_batchRows hagrees ?_ hrow
    intro t ht
    rw [← HashJoin.flatten_batches hsize (expandTuples lib parent relation parents)]
    exact mem_flatten.mpr ⟨part, hpart, ht⟩

end Grouped

lemma batchSize_pos (tc : ExpandContext) (join : JoinColumns) : 0 < batchSize tc join :=
  lt_max_of_lt_left Nat.one_pos

lemma queryExpandedChildren_gives (hg : authorizeRequest tc.toContext (expandRequest tc relation) = .ok g)
    (hreturned : ∀ c ∈ (relationJoin relation).target, c ∈ g.fields)
    (hlimit : NoLimitHit tc lib parent target table relation g parents) :
    Except.Gives NotExceeded
      (fun key => (((HashJoin.batches (batchSize tc (relationJoin relation)) (expandTuples lib parent relation parents)).flatMap
        (batchRows table relation g)).filter fun row => targetKey lib target table relation row = some key).map
          fun row => ⟨row, g.fields⟩)
      (queryExpandedChildren tc lib target table relation (expandTuples lib parent relation parents)) := by
  set key := fun child : Child R => rowJoinKey lib (child.kept table) (relationJoin relation).target
    (decimalColumns target.entity (relationJoin relation).target) with hkey
  have hloop : Except.Gives NotExceeded
      ((HashJoin.batches (batchSize tc (relationJoin relation)) (expandTuples lib parent relation parents)).foldl
        (fun grouped batch => ((batchRows table relation g batch).map fun row => (⟨row, g.fields⟩ : Child R)).foldl
          (HashJoin.add key) grouped) fun _ => [])
      (queryExpandedChildren tc lib target table relation (expandTuples lib parent relation parents)) := by
    apply Except.Gives.foldlM
    intro grouped batch hbatch
    obtain ⟨hrows, hcut⟩ := hlimit batch hbatch
    exact (expandBatch_gives hg hrows hcut).bind .ok
  convert hloop using 1
  funext k
  rw [HashJoin.foldl_fetch key (fun batch => (batchRows table relation g batch).map fun row => (⟨row, g.fields⟩ : Child R)),
    nil_append, ← map_flatMap, filter_map]
  congr 2
  funext row
  simp only [Function.comp_apply, hkey, childKey_eq hreturned]

lemma grouped_gives (hg : authorizeRequest tc.toContext (expandRequest tc relation) = .ok g)
    (hreturned : ∀ c ∈ (relationJoin relation).target, c ∈ g.fields)
    (hlimit : NoLimitHit tc lib parent target table relation g parents) :
    Except.Gives NotExceeded
      (fun key => (((HashJoin.batches (batchSize tc (relationJoin relation)) (expandTuples lib parent relation parents)).flatMap
        (batchRows table relation g)).filter fun row => targetKey lib target table relation row = some key).map
          fun row => ⟨row, g.fields⟩)
      (if expandTuples lib parent relation parents = [] then .ok fun _ => []
        else queryExpandedChildren tc lib target table relation (expandTuples lib parent relation parents)) := by
  by_cases hnil : expandTuples lib parent relation parents = []
  · rw [if_pos hnil, hnil, HashJoin.batches_nil (batchSize_pos tc _)]
    exact .ok
  · rw [if_neg hnil]
    exact queryExpandedChildren_gives hg hreturned hlimit

lemma parentKey_of_null {row : KeptRow} (h : ∃ p ∈ joinPairs (relationJoin relation), row p.left = .null) :
    parentKey lib parent relation row = none := by
  obtain ⟨p, hp, hnull⟩ := h
  have hparts : joinParts lib ((joinPairs (relationJoin relation)).map fun p => row p.left)
      ((joinPairs (relationJoin relation)).map fun p => decimalColumn parent p.left) = none := by
    by_contra hsome
    obtain ⟨parts, hparts⟩ := Option.ne_none_iff_exists'.mp hsome
    obtain ⟨part, hpart, -⟩ := (exists_parts_iff lib).mp ⟨parts, hparts, hparts⟩ p hp
    rw [hnull] at hpart
    cases hpart
  rw [parentKey, rowJoinKey, decimalColumns, locals_eq, map_map, map_map, joinKeyOf]
  exact congrArg (Option.map _) hparts

end Main

def attachedOf {R : Type} (relation : Relationship) (fields : List String) (children : List R) : Attached R :=
  if relation.single then .one (children.head?.map (⟨·, fields⟩)) else .many (children.map (⟨·, fields⟩))

/-- An expansion is a join. Where no query reaches a row limit, an expansion fails for no such
limit, and what it attaches to each parent are the target rows the row filter admits whose
join columns all equal the parent's, each as often as the table has it, in the order of the
query that returned them, and none for a NULL; or the first of them for a relationship that
names one row. The join columns are columns of the target, as a configuration is checked. -/
theorem expansion_is_join {R : Type} (tc : ExpandContext) (lib : Strconv) (tables : ∀ relation, Served R relation)
    (a : Rbac.GrantAuthorizer) (memo : Rbac.GrantAuthorizer.Memo a) (hregistry : a.registry = tc.registry)
    (hauthorize : tc.authorize = fun req => .ok (Rbac.authorize a memo req).1) (parent : Entity) (relation : Relationship)
    (target : Resolved) (g : Rbac.Decision) (parents : List KeptRow)
    (hrelation : relationshipByName parent relation.name = some relation)
    (htarget : resolveDMLEntity tc.toContext relation.target = .ok target) (hjoin : relation.joinOn ≠ [])
    (hcolumns : ∀ c ∈ (relationJoin relation).target, ∃ attr ∈ target.attributes, attr.name = c)
    (hagrees : KeysAgree lib parent target (tables target.entity.ref) relation parents)
    (hg : authorizeRequest tc.toContext (expandRequest tc relation) = .ok g)
    (hlimit : NoLimitHit tc lib parent target (tables target.entity.ref) relation g parents) :
    expandOneRelationship tc lib tables parent parents relation.name ≠ .error .exceeded ∧
    ∀ attached, expandOneRelationship tc lib tables parent parents relation.name = .ok attached →
      attached.length = parents.length ∧ ∀ (i : Nat) (row : KeptRow), parents[i]? = some row → ∃ children : List R,
        attached[i]? = some (attachedOf relation g.fields children) ∧
        children.Perm ((tables target.entity.ref).rows.filter fun r =>
          (tables target.entity.ref).keeps g.rowFilter r && joins (tables target.entity.ref) relation row r) ∧
        (∃ batch, children.Sublist
          ((tables target.entity.ref).query (expandQuery target (relationJoin relation) g batch))) ∧
        ((∃ p ∈ joinPairs (relationJoin relation), row p.left = .null) → children = []) := by
  set table := tables target.entity.ref with htable
  have hreturned : ∀ c ∈ (relationJoin relation).target, c ∈ g.fields :=
    authorized_returns_reads tc.toContext memo hregistry hauthorize (resolve_of_resolveDMLEntity htarget) rfl rfl
      (target_ne_nil relation hjoin) hcolumns hg
  have hgrouped := grouped_gives hg hreturned hlimit
  have hexpand : ∃ x, Except.Gives NotExceeded
      (fun key => (((HashJoin.batches (batchSize tc (relationJoin relation)) (expandTuples lib parent relation parents)).flatMap
        (batchRows table relation g)).filter fun row => targetKey lib target table relation row = some key).map
          fun row => (⟨row, g.fields⟩ : Child R)) x ∧
      expandOneRelationship tc lib tables parent parents relation.name =
        x.map fun grouped => attachExpandedChildren lib parent relation grouped parents := by
    unfold expandOneRelationship
    rw [hrelation, Option.getD_some]
    dsimp only
    rw [htarget]
    dsimp only
    cases tc.route target.entity .read with
    | error e => exact ⟨.error (.tool e), .error ⟨e, rfl⟩, rfl⟩
    | ok _ => exact ⟨_, hgrouped, rfl⟩
  obtain ⟨x, hx, hout⟩ := hexpand
  rw [hout]
  cases hx with
  | error he =>
    obtain ⟨cause, rfl⟩ := he
    exact ⟨by simp [Except.map], by simp [Except.map]⟩
  | ok =>
    refine ⟨by simp [Except.map], ?_⟩
    intro attached hattached
    obtain rfl := Except.ok.inj hattached
    refine ⟨length_map _, ?_⟩
    intro i row hi
    have hrow : row ∈ parents := mem_of_getElem? hi
    simp only [attachExpandedChildren, getElem?_map, hi, Option.map_some]
    cases hkey : parentKey lib parent relation row with
    | none =>
      have hnone : ∀ r ∈ table.rows, joins table relation row r ≠ true := by
        intro r hr hjoins
        obtain ⟨key, -, hparentKey⟩ := (hagrees.joins_iff hr hrow).mp hjoins
        exact Option.some_ne_none key (hparentKey.symm.trans hkey)
      refine ⟨[], ?_, ?_, ⟨[], nil_sublist _⟩, fun _ => rfl⟩
      · unfold parentKey at hkey
        simp only [attachChildren, hkey, attachedOf]
        rfl
      · rw [filter_eq_nil_iff.mpr]
        intro r hr
        rw [Bool.and_eq_true]
        exact fun h => hnone r hr h.2
    | some key =>
      obtain ⟨batch, hbatch, htuple, hrows⟩ := grouped_eq_batchRows (g := g) hagrees (batchSize_pos tc _) hrow hkey
      have hmem : ∀ t ∈ batch, t ∈ expandTuples lib parent relation parents := by
        intro t ht
        rw [← HashJoin.flatten_batches (batchSize_pos tc (relationJoin relation)) (expandTuples lib parent relation parents)]
        exact mem_flatten.mpr ⟨batch, hbatch, ht⟩
      refine ⟨(batchRows table relation g batch).filter fun r => targetKey lib target table relation r = some key, ?_,
        batchRows_perm hagrees hmem hrow hkey htuple, ⟨batch, filter_sublist⟩, ?_⟩
      · unfold parentKey at hkey
        simp only [attachChildren, hkey, hrows, attachedOf, head?_map]
      · intro hnull
        rw [parentKey_of_null hnull] at hkey
        cases hkey

namespace Items

mutual
def holds (row : KeptRow) : Predicate → Bool
  | .nil => true
  | .cond ⟨field, .eq, v⟩ => row field ≠ .null ∧ (row field).arg = v
  | .cond ⟨field, .isIn, .list vs⟩ => vs.any fun v => row field ≠ .null ∧ (row field).arg = v
  | .and ps => holdsAll row ps
  | .or ps => holdsAny row ps
  | _ => false

def holdsAll (row : KeptRow) : List Predicate → Bool
  | [] => true
  | p :: ps => holds row p && holdsAll row ps

def holdsAny (row : KeptRow) : List Predicate → Bool
  | [] => false
  | p :: ps => holds row p || holdsAny row ps
end

lemma holdsAll_eq (row : KeptRow) (ps : List Predicate) : holdsAll row ps = ps.all fun p => holds row p := by
  induction ps with
  | nil => rfl
  | cons p ps ih => rw [holdsAll, ih, List.all_cons]

lemma holdsAny_eq (row : KeptRow) (ps : List Predicate) : holdsAny row ps = ps.any fun p => holds row p := by
  induction ps with
  | nil => rfl
  | cons p ps ih => rw [holdsAny, ih, List.any_cons]

abbrev Item := DriverValue × String

def value (item : Item) : KeptRow := fun c => if c = "order" then item.1 else .text item.2

def rows : List Item := [(.int 7, "pen"), (.int 8, "ink"), (.null, "cap"), (.int 7, "pad")]

def answer (rows : List Item) : Expr → List Item
  | .project (.select _ p) _ => rows.filter fun item => holds (value item) p
  | .limit e n _ => (answer rows e).take n.toNat
  | _ => rows

def table (relation : RelationRef) : Served Item relation where
  rows := rows
  keeps p item := holds (value item) p
  query := answer rows
  value := value
  keeps_nil _ := rfl
  keeps_and ps item := holdsAll_eq (value item) ps
  keeps_or ps item := holdsAny_eq (value item) ps
  keeps_in _ _ _ := rfl
  query_select _ _ := .refl _
  query_limit _ _ := rfl

def relation : Relationship := { name := "items", target := "items", cardinality := "has-many", joinOn := [("id", "order")] }

def orders : Entity := { name := "orders", attributes := [{ name := "id" }], relations := [relation] }

def items : Entity := { name := "items", attributes := [{ name := "order" }, { name := "article" }] }

def authorizer : Rbac.GrantAuthorizer where
  registry := { entities := [orders, items], named := by decide, nodup := by decide }
  policy := { principals := [("clerk", { grants := [("items", [{ id := "items", actions := [.read] }])] })] }
  lower := id

def context : ExpandContext where
  registry := authorizer.registry
  authorize req := .ok (Rbac.authorize authorizer {} req).1
  role := "clerk"
  parsers := ⟨fun _ => none, fun _ => none⟩
  maxINListSize := 1
  maxRows := 10
  gate _ := .ok none

def lib : Strconv := ⟨fun _ => true, fun _ => none⟩

def parents : List KeptRow := [fun _ => .int 7, fun _ => .null, fun _ => .int 8]

def grant : Rbac.Decision := { allowed := true, fields := ["order", "article"], grants := ["items"] }

lemma agrees : KeysAgree lib orders items.resolved (table items.ref) relation parents where
  parentValues := by
    rintro p hp row (_ | ⟨_, _ | ⟨_, _ | ⟨_, ⟨⟩⟩⟩⟩)
    · exact .inr rfl
    · exact .inl rfl
    · exact .inr rfl
  targetValues := by
    intro p hp
    obtain rfl : p = ⟨"id", "order"⟩ := mem_singleton.mp hp
    rintro row (_ | ⟨_, _ | ⟨_, _ | ⟨_, _ | ⟨_, ⟨⟩⟩⟩⟩⟩)
    · exact .inr rfl
    · exact .inr rfl
    · exact .inl rfl
    · exact .inr rfl
  equality := by
    intro p hp
    obtain rfl : p = ⟨"id", "order"⟩ := mem_singleton.mp hp
    rintro row (_ | ⟨_, _ | ⟨_, _ | ⟨_, _ | ⟨_, ⟨⟩⟩⟩⟩⟩) parentRow (_ | ⟨_, _ | ⟨_, _ | ⟨_, ⟨⟩⟩⟩⟩) <;>
      simp [table, holds, value, joinPart, DriverValue.arg]
    all_goals decide

theorem expansion_is_join_items :
    expandOneRelationship context lib table orders parents "items" =
      .ok [.many [⟨(.int 7, "pen"), grant.fields⟩, ⟨(.int 7, "pad"), grant.fields⟩], .many [],
        .many [⟨(.int 8, "ink"), grant.fields⟩]] ∧
    ∃ children : List Item, children.Perm [(.int 7, "pen"), (.int 7, "pad")] ∧
      (attachedOf relation grant.fields children : Attached Item) =
        .many [⟨(.int 7, "pen"), grant.fields⟩, ⟨(.int 7, "pad"), grant.fields⟩] := by
  have hout : expandOneRelationship context lib table orders parents "items" =
      .ok [.many [⟨(.int 7, "pen"), grant.fields⟩, ⟨(.int 7, "pad"), grant.fields⟩], .many [],
        .many [⟨(.int 8, "ink"), grant.fields⟩]] := rfl
  have hlimit : NoLimitHit context lib orders items.resolved (table items.ref) relation grant parents := by
    rintro batch (_ | ⟨_, _ | ⟨_, ⟨⟩⟩⟩) <;> exact ⟨fun _ => by decide, fun n hn => by cases hn⟩
  obtain ⟨children, hattached, hperm, -, -⟩ := ((expansion_is_join context lib table authorizer {} rfl rfl orders relation
    items.resolved grant parents rfl rfl (by decide) (by decide) agrees rfl hlimit).2 _ hout).2 0 _ rfl
  exact ⟨hout, children, hperm, (Option.some.inj hattached).symm⟩

end Items

end SqlMcpServer.Tool
