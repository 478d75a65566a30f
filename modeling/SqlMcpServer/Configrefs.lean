import SqlMcpServer.Entity
import SqlMcpServer.Lib.GoStrings
import SqlMcpServer.Lib.Naming

/-!
# References among configured entities

`core/config` and `x/configrefs`: an entity's ID names it, otherwise any of its partially
qualified names that is no other entity's.
-/

namespace SqlMcpServer

/-- What names an entity of a configuration. -/
structure EntityName where
  name : String
  dataSource : String := ""
  schema : String := ""
deriving DecidableEq, Repr

namespace EntityName

def id (e : EntityName) : String := Entity.id e.dataSource e.schema e.name

/-- `ReferencesOf`, the last being the ID. -/
def references (e : EntityName) : List String := Entity.referencesOf e.dataSource e.schema e.name

def datasourceName (e : EntityName) : String := if e.dataSource = "" then "default" else e.dataSource

def canonical (e : EntityName) : EntityName := { e with dataSource := e.datasourceName }

@[simp] lemma datasourceName_ne_empty (e : EntityName) : e.datasourceName ≠ "" := by
  unfold datasourceName
  split_ifs with h
  · decide
  · exact h

lemma id_eq (e : EntityName) : e.id =
    if e.schema = "" then e.datasourceName ++ "." ++ e.name
    else e.datasourceName ++ "." ++ e.schema ++ "." ++ e.name := rfl

lemma references_eq (e : EntityName) : e.references =
    if e.schema = "" then [e.name, e.id]
    else if e.schema = e.datasourceName then [e.name, e.schema ++ "." ++ e.name, e.id]
    else [e.name, e.schema ++ "." ++ e.name, e.datasourceName ++ "." ++ e.name, e.id] := by
  have hid : Entity.id e.datasourceName e.schema e.name = e.id := by
    rw [id_eq, Entity.id, if_neg e.datasourceName_ne_empty]
  have hrefs : e.references = if e.schema = "" then [e.name, e.datasourceName ++ "." ++ e.name]
      else if e.schema = e.datasourceName then [e.name, e.schema ++ "." ++ e.name, Entity.id e.datasourceName e.schema e.name]
      else [e.name, e.schema ++ "." ++ e.name, e.datasourceName ++ "." ++ e.name,
        Entity.id e.datasourceName e.schema e.name] := rfl
  rw [hrefs, hid]
  by_cases hschema : e.schema = ""
  · rw [if_pos hschema, if_pos hschema, id_eq, if_pos hschema]
  · rw [if_neg hschema, if_neg hschema]

lemma id_mem_references (e : EntityName) : e.id ∈ e.references := by
  rw [references_eq]
  split_ifs <;> simp

@[simp] lemma datasourceName_canonical (e : EntityName) : e.canonical.datasourceName = e.datasourceName :=
  if_neg e.datasourceName_ne_empty

@[simp] lemma id_canonical (e : EntityName) : e.canonical.id = e.id := by
  rw [id_eq, id_eq, datasourceName_canonical]
  rfl

@[simp] lemma references_canonical (e : EntityName) : e.canonical.references = e.references := by
  rw [references_eq, references_eq, datasourceName_canonical, id_canonical]
  rfl

/-! ## IDs tell their parts

Entity names, datasource names and schemas contain no dots. -/

structure Dotless (e : EntityName) : Prop where
  name : '.' ∉ e.name.toList
  dataSource : '.' ∉ e.dataSource.toList
  schema : '.' ∉ e.schema.toList

instance (e : EntityName) : Decidable e.Dotless :=
  decidable_of_iff ('.' ∉ e.name.toList ∧ '.' ∉ e.dataSource.toList ∧ '.' ∉ e.schema.toList)
    ⟨fun h => ⟨h.1, h.2.1, h.2.2⟩, fun h => ⟨h.name, h.dataSource, h.schema⟩⟩

lemma dot_notMem_datasourceName {e : EntityName} (h : e.Dotless) : '.' ∉ e.datasourceName.toList := by
  unfold datasourceName
  split_ifs
  · decide
  · exact h.dataSource

lemma toList_id (e : EntityName) : e.id.toList =
    if e.schema = "" then e.datasourceName.toList ++ '.' :: e.name.toList
    else e.datasourceName.toList ++ '.' :: (e.schema.toList ++ '.' :: e.name.toList) := by
  rw [id_eq]
  split_ifs <;> simp

lemma canonical_eq_of_id {e f : EntityName} (he : e.Dotless) (hf : f.Dotless) (h : e.id = f.id) :
    e.canonical = f.canonical := by
  have htext := congrArg String.toList h
  rw [toList_id, toList_id] at htext
  have hde := dot_notMem_datasourceName he
  have hdf := dot_notMem_datasourceName hf
  have hsame : e.datasourceName = f.datasourceName ∧ e.schema = f.schema ∧ e.name = f.name := by
    split_ifs at htext with hse hsf hsf
    · obtain ⟨hd, hn⟩ := GoStrings.append_sep_inj hde hdf htext
      exact ⟨String.toList_inj.mp hd, hse.trans hsf.symm, String.toList_inj.mp hn⟩
    · obtain ⟨-, hn⟩ := GoStrings.append_sep_inj hde hdf htext
      exact absurd (hn ▸ by simp) he.name
    · obtain ⟨-, hn⟩ := GoStrings.append_sep_inj hde hdf htext
      exact absurd (hn ▸ by simp) hf.name
    · obtain ⟨hd, hrest⟩ := GoStrings.append_sep_inj hde hdf htext
      obtain ⟨hs, hn⟩ := GoStrings.append_sep_inj he.schema hf.schema hrest
      exact ⟨String.toList_inj.mp hd, String.toList_inj.mp hs, String.toList_inj.mp hn⟩
  obtain ⟨hd, hs, hn⟩ := hsame
  rw [canonical, canonical, hd, hs, hn]

lemma empty_notMem_references {e : EntityName} (h : e.name ≠ "") : "" ∉ e.references := by
  have hdot : ∀ a : String, "" ≠ a ++ "." ++ e.name := fun a ha => by simpa using congrArg String.toList ha
  have hid : "" ≠ e.id := by
    rw [id_eq]
    split_ifs
    · exact hdot _
    · exact hdot _
  rw [references_eq]
  split_ifs <;> simp only [List.mem_cons, List.not_mem_nil, or_false, not_or]
  · exact ⟨h.symm, hid⟩
  · exact ⟨h.symm, hdot _, hid⟩
  · exact ⟨h.symm, hdot _, hdot _, hid⟩

end EntityName

def entityNaming : Naming EntityName String := ⟨EntityName.id, EntityName.references, EntityName.id_mem_references⟩

end SqlMcpServer
