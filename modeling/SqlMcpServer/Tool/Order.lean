import SqlMcpServer.Tool.Related

/-!
# Orders and cursors

`order.go` and the keyset of `tool.go`: how a read orders its rows (the fields asked for,
then the cursor key's columns, so the order is total) and resumes after a cursor.
-/

namespace SqlMcpServer.Tool

open List
open Relalg

structure OrderJSON where
  field : String
  dir : String := ""
deriving DecidableEq, Repr

structure ReadInput where
  entity : String
  fields : List String := []
  expand : List String := []
  filter : List Cond := []
  orderBy : List OrderJSON := []
  distinct : Bool := false
  limit : Int := 0
  offset : Int := 0
  cursor : Values := ∅
  transaction : String := ""

def maxOrderTerms : Nat := 8

structure ReadOrder where
  terms : List OrderTerm := []
  pageable : Bool := false
  /-- The key's columns added to the terms. -/
  keyFields : List String := []

def ReadOrder.fields (o : ReadOrder) : List String := o.terms.map (·.field)

/-- `strings.ToLower(dir)`, asc when empty; `none` when neither asc nor desc. -/
def directionOf (dir : String) : Option String :=
  let lower := String.ofList (dir.toList.map GoStrings.toLower)
  if lower = "" ∨ lower = "asc" then some "asc" else if lower = "desc" then some "desc" else none

def orderTerm (res : Resolved) (input : ReadInput) (t : OrderJSON) (rel : Related) :
    Except ToolError (OrderTerm × Bool) :=
  match directionOf t.dir with
  | none => .error (.orderDirection t.dir)
  | some dir =>
    if (pathOf res.entity t.field).isSome then
      if input.distinct then .error (.distinctOrder t.field)
      else .ok (⟨rel.field t.field, dir, true⟩, true)
    else do
      FieldUses.check { compared := [t.field] } res
      -- Checked above, so there is an attribute; without one Go reads an empty name.
      let a := res.entity.attributeByName t.field
      let name := (a.map (·.name)).getD ""
      let aliasName := (a.map (·.aliasName)).getD ""
      if input.distinct ∧ ¬ input.fields.any (fun f => f == name || f == aliasName) then
        .error (.distinctOrder t.field)
      else return (⟨name, dir, a.any (·.domain.nullable)⟩, false)

def orderTerms (res : Resolved) (input : ReadInput) (rel : Related) :
    List OrderJSON → List OrderTerm → Bool → Except ToolError (List OrderTerm × Bool)
  | [], terms, across => .ok (terms, across)
  | t :: ts, terms, across => do
    let (term, related) ← orderTerm res input t rel
    if (terms.map (·.field)).contains term.field then
      if related then orderTerms res input rel ts terms across else .error (.orderedTwice t.field)
    else orderTerms res input rel ts (terms ++ [term]) (across || related)

def hasMaskedField (res : Resolved) (fields : List String) : Bool :=
  match validateUnmaskedFields res fields with
  | .ok () => false
  | .error _ => true

def addedKey (key ordered : List String) : List String :=
  (firstOccurrences key).filter fun c => !ordered.contains c

def planReadOrder (res : Resolved) (input : ReadInput) (rel : Related) : Except ToolError ReadOrder :=
  if input.orderBy = [] then .ok {}
  else if maxOrderTerms < input.orderBy.length then .error .tooManyOrderTerms
  else do
    let (terms, across) ← orderTerms res input rel input.orderBy [] false
    match res.entity.cursorKey with
    | some key =>
      if !input.distinct && !hasMaskedField res key then
        let added := addedKey key (terms.map (·.field))
        return { terms := terms ++ added.map (⟨·, "asc", false⟩), pageable := !across, keyFields := added }
      else return { terms }
    | none => return { terms }

def ReadOrder.withoutKey (o : ReadOrder) : ReadOrder :=
  { terms := o.terms.filter fun t => !o.keyFields.contains t.field }

def readsKey (tc : Context) (req : Rbac.Request) (o : ReadOrder) : Bool :=
  if o.keyFields = [] then true
  else
    match tc.authorize { req with readFields := req.readFields ++ o.keyFields } with
    | .ok dec => dec.allowed
    | .error _ => false

def orderRead (tc : Context) (res : Resolved) (input : ReadInput) (req : Rbac.Request) (rel : Related) :
    Except ToolError (ReadOrder × Rbac.Request) :=
  if input.distinct ∧ (input.fields = [] ∨ input.expand ≠ [] ∨ input.cursor.keys ≠ []) then
    .error .distinctNeedsFields
  else do
    let order ← planReadOrder res input rel
    let own := (splitPaths res.entity order.fields).1
    let req := { req with readFields := req.readFields ++ own.filter fun f => !order.keyFields.contains f }
    let order := if readsKey tc req order then order else order.withoutKey
    let req := { req with readFields := req.readFields ++ order.keyFields }
    if order.pageable ∧ input.fields ≠ [] then
      let add := fun (fields : List String) f =>
        if fields.any (fun x => columnOf res.entity x == f) then fields else fields ++ [f]
      return (order, { req with fields := order.fields.foldl add req.fields })
    else return (order, req)

/-- Holds for the values of a term's field ordered after `v`; nil when none is. -/
def afterValue (t : OrderTerm) (v : Value) : Predicate :=
  if Interp.isNull v then .nil
  else
    let past := Predicate.cond ⟨t.field, if t.dir = "desc" then .lt else .gt, v⟩
    if t.nullable then .or [past, .cond ⟨t.field, .isNull, .null⟩] else past

def equalsValue (field : String) (v : Value) : Predicate :=
  if Interp.isNull v then .cond ⟨field, .isNull, .null⟩ else .cond ⟨field, .eq, v⟩

/-- The loop of `orderCursor`: the disjuncts of the terms left, after those before. -/
def cursorDisjuncts (wrong : ToolError) (cursor : Values) :
    List OrderTerm → List OrderTerm → Except ToolError (List Predicate)
  | [], _ => .ok []
  | t :: ts, before =>
    match cursor.lookup t.field with
    | none => .error wrong
    | some v =>
      if Interp.isNull v ∧ ¬ t.nullable then .error wrong
      else do
        let rest ← cursorDisjuncts wrong cursor ts (before ++ [t])
        let after := afterValue t v
        let equal := before.map fun b => equalsValue b.field ((cursor.lookup b.field).getD .null)
        return if after.isNil then rest else conjunction (equal ++ [after]) :: rest

/-- Resumes a read ordered by `o` after the cursor. -/
def orderCursor (o : ReadOrder) (cursor : Values) : Except ToolError Predicate :=
  if !o.pageable then .error .orderDoesNotPage
  else if cursor.keys.length ≠ o.terms.length then .error (.wrongCursor o.fields)
  else do
    match ← cursorDisjuncts (.wrongCursor o.fields) cursor o.terms [] with
    | [] => .error (.wrongCursor o.fields)
    | [p] => return p
    | ps => return .or ps

def cursorPart (cursor : Values) : List String → List (String × Value)
  | [] => []
  | pk :: pks =>
    match cursor.lookup pk with
    | none => []
    | some v => (pk, v) :: cursorPart cursor pks

/-- `a > va OR (a = va AND b > vb) OR ...`, from the equalities before. -/
def keysetFrom : List (String × Value) → List Predicate → List Predicate
  | [], _ => []
  | (c, v) :: rest, before =>
    conjunction (before ++ [.cond ⟨c, .gt, v⟩]) :: keysetFrom rest (before ++ [.cond ⟨c, .eq, v⟩])

def keysetAfter (pks : List String) (cursor : Values) : Predicate × List String :=
  let part := cursorPart cursor pks
  match keysetFrom part [] with
  | [] => (.nil, [])
  | [p] => (p, part.map (·.1))
  | ps => (.or ps, part.map (·.1))

def cursorPredicate (tc : Context) (e : Entity) (cursor : Values) : Except ToolError (Predicate × List String) :=
  if cursor.keys = [] then .ok (.nil, [])
  else
    match e.cursorKey with
    | none => .error (.noCursorKey e.name)
    | some key =>
      let (keyset, cols) := keysetAfter key cursor
      if cols.length ≠ cursor.keys.length then .error (.cursorNotLeading key)
      else do return (← coercePredicate tc.parsers e keyset, cols)

def readCursor (tc : Context) (e : Entity) (order : ReadOrder) (input : ReadInput) :
    Except ToolError (Predicate × List String) :=
  if input.orderBy = [] then cursorPredicate tc e input.cursor
  else if input.cursor.keys = [] then .ok (.nil, [])
  else do
    let p ← orderCursor order input.cursor
    return (← coercePredicate tc.parsers e p, [])

lemma plain_afterValue (t : OrderTerm) (v : Value) : Plain (· = t.field) (afterValue t v) := by
  unfold afterValue
  split
  · exact .nil
  · simp only
    split
    · refine .or fun p hp => ?_
      simp only [mem_cons, not_mem_nil, or_false] at hp
      rcases hp with rfl | rfl <;> exact .cond rfl
    · exact .cond rfl

lemma plain_equalsValue (field : String) (v : Value) : Plain (· = field) (equalsValue field v) := by
  unfold equalsValue
  split <;> exact .cond rfl

lemma plain_cursorDisjuncts {wrong : ToolError} {cursor : Values} {terms before : List OrderTerm}
    {ps : List Predicate} (h : cursorDisjuncts wrong cursor terms before = .ok ps) :
    ∀ p ∈ ps, Plain (· ∈ (before ++ terms).map (·.field)) p := by
  induction terms generalizing before ps with
  | nil =>
    rw [cursorDisjuncts, Except.ok.injEq] at h
    simp [← h]
  | cons t ts ih =>
    rw [cursorDisjuncts] at h
    split at h
    · cases h
    split at h
    · cases h
    · obtain ⟨rest, hrest, h⟩ := Except.bind_eq_ok.mp h
      rw [Except.pure_eq_ok, Except.ok.injEq] at h
      have htail := ih hrest
      rw [append_assoc, singleton_append] at htail
      subst h
      split
      · exact htail
      · intro p hp
        rcases mem_cons.mp hp with rfl | hp
        · refine each_conjunction fun q hq => ?_
          rcases mem_append.mp hq with hq | hq
          · obtain ⟨b, hb, rfl⟩ := mem_map.mp hq
            refine (plain_equalsValue b.field _).mono (fun c hc => ?_) fun _ _ _ => id
            rw [hc]
            exact mem_map_of_mem (mem_append_left _ hb)
          · obtain rfl := mem_singleton.mp hq
            refine (plain_afterValue t _).mono (fun c hc => ?_) fun _ _ _ => id
            rw [hc]
            exact mem_map_of_mem (by simp)
        · exact htail p hp

lemma plain_orderCursor {o : ReadOrder} {cursor : Values} {p : Predicate} (h : orderCursor o cursor = .ok p) :
    Plain (· ∈ o.fields) p := by
  unfold orderCursor at h
  split at h
  · cases h
  split at h
  · cases h
  · obtain ⟨ps, hps, h⟩ := Except.bind_eq_ok.mp h
    have hall : ∀ p ∈ ps, Plain (· ∈ o.fields) p := plain_cursorDisjuncts hps
    split at h
    · cases h
    · cases h
      exact hall p (by simp)
    · cases h
      exact .or hall

lemma plain_keysetFrom {part : List (String × Value)} {before : List Predicate} {F : String → Prop}
    (hbefore : ∀ p ∈ before, Plain F p) (hpart : ∀ cv ∈ part, F cv.1) : ∀ p ∈ keysetFrom part before, Plain F p := by
  induction part generalizing before with
  | nil => simp [keysetFrom]
  | cons cv rest ih =>
    have hnext : ∀ op, ∀ p ∈ before ++ [.cond ⟨cv.1, op, cv.2⟩], Plain F p := by
      intro op p hp
      rcases mem_append.mp hp with hp | hp
      · exact hbefore p hp
      · exact mem_singleton.mp hp ▸ .cond (hpart cv (by simp))
    intro p hp
    rw [keysetFrom] at hp
    rcases mem_cons.mp hp with rfl | hp
    · exact each_conjunction (hnext .gt)
    · exact ih (hnext .eq) (fun cv hcv => hpart cv (mem_cons_of_mem _ hcv)) p hp

lemma keysetAfter_spec (pks : List String) (cursor : Values) :
    Plain (· ∈ (keysetAfter pks cursor).2) (keysetAfter pks cursor).1 ∧
      ∀ c ∈ (keysetAfter pks cursor).2, c ∈ cursor.keys := by
  have hpart : ∀ cv ∈ cursorPart cursor pks, cv.1 ∈ cursor.keys := by
    induction pks with
    | nil => simp [cursorPart]
    | cons pk pks ih =>
      rw [cursorPart]
      split
      · simp
      · rename_i v hv
        intro cv hcv
        rcases mem_cons.mp hcv with rfl | hcv
        · exact AList.mem_keys.mp (AList.lookup_isSome.mp (by simp [hv]))
        · exact ih cv hcv
  have hcols : ∀ c ∈ (cursorPart cursor pks).map (·.1), c ∈ cursor.keys := by
    intro c hc
    obtain ⟨cv, hcv, rfl⟩ := mem_map.mp hc
    exact hpart cv hcv
  have hps : ∀ p ∈ keysetFrom (cursorPart cursor pks) [], Plain (· ∈ (cursorPart cursor pks).map (·.1)) p :=
    plain_keysetFrom (by simp) fun cv hcv => mem_map_of_mem hcv
  unfold keysetAfter
  simp only
  split
  · exact ⟨.nil, by simp⟩
  · rename_i p hp
    exact ⟨hps p (by simp [hp]), hcols⟩
  · exact ⟨.or hps, hcols⟩

/-- What resumes a read compares the columns it sorts by: those of the order, or without
one key columns the cursor names. -/
lemma readCursor_spec {tc : Context} {e : Entity} {order : ReadOrder} {input : ReadInput} {keyset : Predicate}
    {cols : List String} (h : readCursor tc e order input = .ok (keyset, cols)) :
    Plain (fun f => f ∈ cols ∨ f ∈ order.fields) keyset ∧ (∀ c ∈ cols, c ∈ input.cursor.keys) ∧
      (input.orderBy ≠ [] → cols = []) := by
  unfold readCursor at h
  split at h
  · rename_i hno
    unfold cursorPredicate at h
    split at h
    · cases h
      exact ⟨.nil, by simp, fun _ => rfl⟩
    split at h
    · cases h
    · rename_i key _
      simp only at h
      split at h
      · cases h
      · obtain ⟨p, hp, h⟩ := Except.bind_eq_ok.mp h
        cases h
        obtain ⟨hplain, hkeys⟩ := keysetAfter_spec key input.cursor
        refine ⟨each_coercePredicate (F := fun f => f ∈ _ ∨ f ∈ order.fields) ?_ hp, hkeys, fun hne => (hne hno).elim⟩
        exact hplain.mono (fun _ => .inl) fun _ _ _ => id
  split at h
  · cases h
    exact ⟨.nil, by simp, fun _ => rfl⟩
  · obtain ⟨p, hp, h⟩ := Except.bind_eq_ok.mp h
    obtain ⟨q, hq, h⟩ := Except.bind_eq_ok.mp h
    cases h
    refine ⟨each_coercePredicate (F := fun f => f ∈ _ ∨ f ∈ order.fields) ?_ hq, by simp, fun _ => rfl⟩
    exact (plain_orderCursor hp).mono (fun _ => .inr) fun _ _ _ => id

end SqlMcpServer.Tool
