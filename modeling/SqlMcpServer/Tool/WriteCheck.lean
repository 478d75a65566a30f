import SqlMcpServer.Relalg.Check
import SqlMcpServer.Tool.Fields

/-!
# Writes stay in scope

`write_check.go`: a create inserts only a row its caller could read, and an update never moves a
row out of its caller's reach.
-/

namespace SqlMcpServer.Tool

open List
open Relalg Interp

def rowOf (e : Entity) (values : Values) : Values :=
  values.entries.foldl (fun row kv => row.insert (columnOf e kv.1) kv.2) ∅

mutual
def pinnedFrom : Predicate → Values → Values
  | .and preds, out => pinnedList preds out
  | .cond c, out =>
    if c.op = .eq then
      match c.value with
      | .null => out
      | .list _ => out
      | v => out.insert c.field v
    else out
  | _, out => out

def pinnedList : List Predicate → Values → Values
  | [], out => out
  | p :: ps, out => pinnedList ps (pinnedFrom p out)
end

def pinned (scope : Predicate) : Values := pinnedFrom scope ∅

def exactAt (parsers : Parsers) (e : Entity) (column : String) (v : Value) : Value :=
  match attributeOf e column with
  | some a => exactValue parsers a.domain.type v
  | none => v

def exactValues (parsers : Parsers) (e : Entity) (row : Values) : Env := fun column =>
  (row.lookup column).map (exactAt parsers e column)

def scopeFields (e : Entity) (scope : Predicate) : List String :=
  let names := (fields scope).filterMap fun column =>
    match attributeOf e column with
    | some a => if a.excluded then none else some (if a.aliasName = "" then a.name else a.aliasName)
    | none => none
  (firstOccurrences names).insertionSort (· ≤ ·)

def insertedRow (e : Entity) (scope : Predicate) (values : Values) : Values :=
  (pinned scope).entries.foldl (fun row kv => if kv.1 ∈ row then row else row.insert kv.1 kv.2) (rowOf e values)

def insertColumns (parsers : Parsers) (e : Entity) (scope : Predicate) (values : Values) :
    Except ToolError (List String × List Value) :=
  let row := insertedRow e scope values
  match check scope (exactValues parsers e row) with
  | (_, .holds, _) =>
    let columns := row.keys.insertionSort (· ≤ ·)
    .ok (columns, columns.map fun c => (row.lookup c).getD .null)
  | (_, _, cause) => .error (.rowPolicyViolation (scopeFields e scope) cause)

def updateCheck (parsers : Parsers) (e : Entity) (scope : Predicate) (set : Values) : Except ToolError Predicate :=
  match check scope (exactValues parsers e (rowOf e set)) with
  | (_, .holds, _) => .ok .nil
  | (residual, .depends, _) => .ok residual
  | (_, .fails, cause) => .error (.rowPolicyViolation (scopeFields e scope) cause)

lemma firstRepeated_eq_none {cs seen : List String} (h : firstRepeated cs seen = none) :
    cs.Nodup ∧ ∀ c ∈ cs, c ∉ seen := by
  induction cs generalizing seen with
  | nil => simp
  | cons c cs ih =>
    rw [firstRepeated] at h
    by_cases hc : seen.contains c
    · simp only [hc, if_true] at h
      cases h
    simp only [hc] at h
    obtain ⟨hnodup, hfresh⟩ := ih h
    have hc : c ∉ seen := by simpa using hc
    refine ⟨nodup_cons.mpr ⟨fun hmem => hfresh c hmem (by simp), hnodup⟩, fun d hd => ?_⟩
    rcases mem_cons.mp hd with rfl | hd
    · exact hc
    · exact fun hmem => hfresh d hd (mem_cons_of_mem _ hmem)

variable {e : Entity}

lemma columnsOf_nodup {fields : List String} (h : distinctColumns e fields = .ok ()) :
    (columnsOf e fields).Nodup := by
  unfold distinctColumns at h
  cases hr : firstRepeated (columnsOf e fields) [] with
  | some c => simp [hr] at h
  | none => exact (firstRepeated_eq_none hr).1

lemma lookup_foldl_insert_of_notMem {c : String} (entries : List (Sigma fun _ : String => Value))
    (row : Values) (h : ∀ kv ∈ entries, columnOf e kv.1 ≠ c) :
    (entries.foldl (fun row kv => row.insert (columnOf e kv.1) kv.2) row).lookup c = row.lookup c := by
  induction entries generalizing row with
  | nil => rfl
  | cons kv entries ih =>
    rw [foldl_cons, ih _ (fun kv hkv => h kv (mem_cons_of_mem _ hkv))]
    exact AList.lookup_insert_ne (Ne.symm (h kv (by simp)))

lemma lookup_foldl_insert (entries : List (Sigma fun _ : String => Value)) (row : Values)
    (hnodup : (entries.map fun kv => columnOf e kv.1).Nodup) {kv : Sigma fun _ : String => Value}
    (hmem : kv ∈ entries) :
    (entries.foldl (fun row kv => row.insert (columnOf e kv.1) kv.2) row).lookup (columnOf e kv.1) =
      some kv.2 := by
  induction entries generalizing row with
  | nil => cases hmem
  | cons first entries ih =>
    rw [map_cons, nodup_cons] at hnodup
    rw [foldl_cons]
    rcases mem_cons.mp hmem with rfl | hmem
    · rw [lookup_foldl_insert_of_notMem]
      · exact AList.lookup_insert row
      · intro other hother heq
        exact hnodup.1 (mem_map.mpr ⟨other, hother, heq⟩)
    · exact ih _ hnodup.2 hmem

variable {values : Values} {v : Value}

lemma mem_entries_of_lookup {field : String} (h : values.lookup field = some v) :
    (⟨field, v⟩ : Sigma fun _ : String => Value) ∈ values.entries :=
  AList.mem_lookup_iff.mp h

lemma rowOf_lookup (hdistinct : distinctColumns e values.keys = .ok ())
    {field : String} (h : values.lookup field = some v) :
    (rowOf e values).lookup (columnOf e field) = some v := by
  refine lookup_foldl_insert values.entries ∅ ?_ (mem_entries_of_lookup h)
  have hnodup := columnsOf_nodup hdistinct
  unfold columnsOf AList.keys List.keys at hnodup
  rw [map_map] at hnodup
  exact hnodup

lemma insertedRow_lookup {scope : Predicate} {c : String}
    (h : (rowOf e values).lookup c = some v) : (insertedRow e scope values).lookup c = some v := by
  have key : ∀ (entries : List (Sigma fun _ : String => Value)) (row : Values), row.lookup c = some v →
      (entries.foldl (fun row kv => if kv.1 ∈ row then row else row.insert kv.1 kv.2) row).lookup c = some v := by
    intro entries
    induction entries with
    | nil => exact fun row hrow => hrow
    | cons kv entries ih =>
      intro row hrow
      rw [foldl_cons]
      apply ih
      by_cases hkv : kv.1 ∈ row
      · rw [if_pos hkv, hrow]
      · have hne : c ≠ kv.1 := by
          rintro rfl
          exact hkv (AList.lookup_isSome.mp (by rw [hrow]; rfl))
        rw [if_neg hkv, AList.lookup_insert_ne hne, hrow]
  exact key _ _ h

def HoldsTuple (parsers : Parsers) (e : Entity) (columns : List String) (tuple : List Value) (row : Env) : Prop :=
  ∀ c v, (c, v) ∈ columns.zip tuple → row c = some (exactAt parsers e c v)

/-- `after` is the row with the assigned columns replaced by the values of SET. -/
def Assigned (parsers : Parsers) (e : Entity) (set : Values) (row after : Env) : Prop :=
  (∀ field v, set.lookup field = some v →
    after (columnOf e field) = some (exactAt parsers e (columnOf e field) v)) ∧
  ∀ c, (∀ field ∈ set.keys, columnOf e field ≠ c) → after c = row c

lemma rowOf_origin {c : String} (h : (rowOf e values).lookup c = some v) :
    ∃ field, values.lookup field = some v ∧ columnOf e field = c := by
  have key : ∀ (entries : List (Sigma fun _ : String => Value)) (row : Values),
      (entries.foldl (fun row kv => row.insert (columnOf e kv.1) kv.2) row).lookup c = some v →
      (∃ kv ∈ entries, columnOf e kv.1 = c ∧ kv.2 = v) ∨ row.lookup c = some v := by
    intro entries
    induction entries with
    | nil => exact fun row hrow => .inr hrow
    | cons kv entries ih =>
      intro row hrow
      rw [foldl_cons] at hrow
      rcases ih _ hrow with ⟨kv', hmem, hkv'⟩ | hins
      · exact .inl ⟨kv', mem_cons_of_mem _ hmem, hkv'⟩
      · by_cases hc : columnOf e kv.1 = c
        · subst hc
          rw [AList.lookup_insert, Option.some.injEq] at hins
          exact .inl ⟨kv, by simp, rfl, hins⟩
        · rw [AList.lookup_insert_ne (Ne.symm hc)] at hins
          exact .inr hins
  rcases key values.entries ∅ h with ⟨kv, hmem, hc, hv⟩ | hempty
  · exact ⟨kv.1, hv ▸ AList.mem_lookup_iff.mpr hmem, hc⟩
  · simp at hempty

lemma rowOf_lookup_ne_none {field : String} (h : field ∈ values.keys) :
    (rowOf e values).lookup (columnOf e field) ≠ none := by
  have key : ∀ (entries : List (Sigma fun _ : String => Value)) (row : Values),
      columnOf e field ∈ row ∨ field ∈ entries.map Sigma.fst →
      columnOf e field ∈ entries.foldl (fun row kv => row.insert (columnOf e kv.1) kv.2) row := by
    intro entries
    induction entries with
    | nil => simp
    | cons kv entries ih =>
      intro row hrow
      rw [foldl_cons]
      apply ih
      rw [AList.mem_insert]
      rcases hrow with hrow | hrow
      · exact .inl (.inr hrow)
      · rw [map_cons, mem_cons] at hrow
        rcases hrow with rfl | hrow
        · exact .inl (.inl rfl)
        · exact .inr hrow
  rw [Ne, AList.lookup_eq_none, not_not]
  exact key values.entries ∅ (.inr h)

lemma insertColumns_ok {parsers : Parsers} {scope : Predicate}
    {columns : List String} {tuple : List Value} (h : insertColumns parsers e scope values = .ok (columns, tuple)) :
    (∃ r cause, check scope (exactValues parsers e (insertedRow e scope values)) = (r, .holds, cause)) ∧
      ∀ c v, (insertedRow e scope values).lookup c = some v → (c, v) ∈ columns.zip tuple := by
  simp only [insertColumns] at h
  split at h
  · rename_i r cause hcheck
    refine ⟨⟨r, cause, hcheck⟩, fun c v hv => ?_⟩
    cases h
    have hmem : c ∈ (insertedRow e scope values).keys.insertionSort (· ≤ ·) := by
      rw [mem_insertionSort, ← AList.mem_keys, ← AList.lookup_isSome, hv]
      rfl
    rw [zip_map_right, mem_map]
    refine ⟨(c, c), ?_, by simp [hv]⟩
    obtain ⟨i, hi, hc⟩ := getElem_of_mem hmem
    exact mem_iff_getElem.mpr ⟨i, by simpa using hi, by simp [hc]⟩
  · cases h

lemma truth_andPreds {db : DB} {ρ : Env} {p q : Predicate} :
    truth db ρ (andPreds p q) = .true ↔ truth db ρ p = .true ∧ truth db ρ q = .true := by
  unfold andPreds
  cases p <;> cases q <;> simp [Predicate.isNil]

lemma updateCheck_sound {parsers : Parsers} {scope r : Predicate} {set : Values}
    (h : updateCheck parsers e scope set = .ok r) {db : DB} {row after : Env}
    (hassigned : Assigned parsers e set row after) (hr : truth db row r = .true) :
    truth db after scope = .true := by
  have hagrees : Agrees (exactValues parsers e (rowOf e set)) after := by
    intro c v hv
    obtain ⟨w, hw, rfl⟩ := Option.map_eq_some_iff.mp hv
    obtain ⟨field, hfield, rfl⟩ := rowOf_origin hw
    exact hassigned.1 field w hfield
  unfold updateCheck at h
  split at h
  · rename_i hcheck
    exact check_holds hcheck db hagrees
  · rename_i residual cause hcheck
    cases h
    obtain ⟨hval, hex, hopen⟩ := check_depends hcheck
    rw [hval db after hagrees, ← hr]
    refine truth_congr hex fun c hc => ?_
    -- A residual condition names a column that is not assigned.
    refine hassigned.2 c.field fun field hfield heq => ?_
    have hnone := Option.map_eq_none_iff.mp (hopen c hc)
    exact rowOf_lookup_ne_none hfield (heq ▸ hnone)
  · cases h

/-- Writes stay in scope: a row that holds what a create inserts is in scope, whatever its
other columns hold, and has each value the caller gave unchanged when no column is given
twice; and an update of rows that match the residual leaves them in scope. -/
theorem writes_stay_in_scope (parsers : Parsers) (e : Entity) (scope : Predicate) (values : Values) :
    (∀ columns tuple, insertColumns parsers e scope values = .ok (columns, tuple) →
      (∀ (db : DB) (row : Env), HoldsTuple parsers e columns tuple row → truth db row scope = .true) ∧
      (distinctColumns e values.keys = .ok () →
        ∀ field v, values.lookup field = some v → (columnOf e field, v) ∈ columns.zip tuple)) ∧
    (∀ r, updateCheck parsers e scope values = .ok r → ∀ (db : DB) (row after : Env),
      Assigned parsers e values row after →
      (truth db row r = .true → truth db after scope = .true) ∧
      ∀ filter, truth db row (andPreds (andPreds filter scope) r) = .true → truth db after scope = .true) := by
  refine ⟨fun columns tuple hins => ⟨fun db row hrow => ?_, fun hdistinct field v hv => ?_⟩,
    fun r hcheck db row after hassigned => ⟨fun hr => ?_, fun filter hfull => ?_⟩⟩
  · obtain ⟨⟨r, cause, hcheck⟩, hmem⟩ := insertColumns_ok hins
    refine check_holds hcheck db fun c v hv => ?_
    obtain ⟨w, hw, rfl⟩ := Option.map_eq_some_iff.mp hv
    exact hrow c w (hmem c w hw)
  · exact (insertColumns_ok hins).2 _ _ (insertedRow_lookup (rowOf_lookup hdistinct hv))
  · exact updateCheck_sound hcheck hassigned hr
  · exact updateCheck_sound hcheck hassigned (truth_andPreds.mp hfull).2

def payments : Entity :=
  { name := "payments",
    attributes := [{ name := "amount", aliasName := "sum", domain := { type := "numeric(10,2)" } },
      { name := "tenant", excluded := true, named := Attribute.named_tenant }] }

def tenantScope : Predicate := .cond ⟨"tenant", .eq, .num 7⟩

def digitParsers : Parsers := ⟨fun s => s.toNat?.map (fun n => (n : Rat)), fun s => s.toNat?.map (fun n => (n : Rat))⟩

def paid : Values := ⟨[⟨"sum", .str "12"⟩], by simp [List.NodupKeys, List.keys]⟩

theorem writes_stay_in_scope_paid :
    distinctColumns payments paid.keys = .ok () ∧
      insertColumns digitParsers payments tenantScope paid = .ok (["amount", "tenant"], [.str "12", .num 7]) ∧
      (∀ (db : DB) (row : Env), HoldsTuple digitParsers payments ["amount", "tenant"] [.str "12", .num 7] row →
        truth db row tenantScope = .true) ∧
      ("amount", Value.str "12") ∈ ["amount", "tenant"].zip [Value.str "12", .num 7] :=
  ⟨rfl, rfl, ((writes_stay_in_scope digitParsers payments tenantScope paid).1 _ _ rfl).1,
    ((writes_stay_in_scope digitParsers payments tenantScope paid).1 _ _ rfl).2 rfl "sum" _ rfl⟩

/-- A map that names one column by its name and by its alias loses a value. -/
theorem insertColumns_loses_value :
    ∃ (values : Values) (columns : List String) (tuple : List Value),
      insertColumns digitParsers payments .nil values = .ok (columns, tuple) ∧
      ∃ field v, values.lookup field = some v ∧ (columnOf payments field, v) ∉ columns.zip tuple := by
  refine ⟨⟨[⟨"amount", .num 1⟩, ⟨"sum", .num 2⟩], by simp [List.NodupKeys, List.keys]⟩, ["amount"], [.num 2], rfl, "amount", .num 1, rfl, ?_⟩
  have hcol : columnOf payments "amount" = "amount" := rfl
  rw [hcol]
  simp

end SqlMcpServer.Tool
