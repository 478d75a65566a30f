import SqlMcpServer.Workspace.MergeLaws

namespace SqlMcpServer.Workspaces

namespace Schema
variable {s : Schema} {p : String} {path : Path}

lemma property_normalizeFields (m : Fields) (p k : String) :
    (s.normalizeFields m p).property k = (m.property k).bind fun v => s.normalize v (fieldPattern p k) := by
  induction m with
  | nil => rfl
  | cons e m ih =>
    obtain ⟨l, w⟩ := e
    rw [normalizeFields, Fields.property_set, Fields.property, ih]
    split_ifs with hk
    · rw [hk]
      rfl
    · rfl

lemma canonicalAt_object (m : Fields) (p : String) : s.canonicalAt p (some (.object m)) = .object (s.normalizeFields m p) := by
  rw [canonicalAt, Option.bind_some, normalize]
  rfl

lemma eq_object_of_canonicalAt {v : Option Value} {m : Fields} (h : s.canonicalAt p v = .object m) :
    ∃ m', v = some (.object m') := by
  cases v with
  | none => cases h
  | some v =>
    rw [canonicalAt, Option.bind_some] at h
    cases v with
    | object m' => exact ⟨m', rfl⟩
    | null =>
      rw [normalize] at h
      split_ifs at h <;> cases h
    | bool b =>
      rw [normalize] at h
      split_ifs at h <;> cases h
    | text t =>
      rw [normalize] at h
      split_ifs at h <;> cases h
    | num n =>
      rw [normalize] at h
      cases h
    | list els =>
      rw [normalize] at h
      cases h

lemma normalize_eq_none {v : Value} (h : s.unset p = false) : s.normalize v p ≠ none := by
  cases v <;> rw [normalize] <;> simp [h]

lemma object_eq_some {v : Option Value} {m : Fields} : object v = some m ↔ v = some (.object m) := by
  constructor
  · intro h
    unfold object at h
    split at h
    · cases h
      rfl
    · cases h
  · rintro rfl
    rfl

lemma eq_object_of_same {m : Fields} {b : Option Value} (h : s.canonicalAt p (some (.object m)) = s.canonicalAt p b) :
    ∃ m', b = some (.object m') ∧ s.normalizeFields m p = s.normalizeFields m' p := by
  rw [canonicalAt_object] at h
  obtain ⟨m', rfl⟩ := eq_object_of_canonicalAt h.symm
  rw [canonicalAt_object, Value.object.injEq] at h
  exact ⟨m', rfl, h⟩

lemma normalize_property {a b : Option Value} (h : s.canonicalAt p a = s.canonicalAt p b) (k : String) :
    (((object a).bind fun m => m.property k).bind fun v => s.normalize v (fieldPattern p k)) =
      ((object b).bind fun m => m.property k).bind fun v => s.normalize v (fieldPattern p k) := by
  cases ha : object a with
  | some m =>
    rw [object_eq_some] at ha
    subst ha
    obtain ⟨m', rfl, hfields⟩ := eq_object_of_same h
    have hprop := congrArg (fun m => Fields.property m k) hfields
    simp only [property_normalizeFields] at hprop
    exact hprop
  | none =>
    cases hb : object b with
    | none => rfl
    | some m' =>
      rw [object_eq_some] at hb
      subst hb
      obtain ⟨m, rfl, -⟩ := eq_object_of_same h.symm
      cases ha

end Schema

end SqlMcpServer.Workspaces
