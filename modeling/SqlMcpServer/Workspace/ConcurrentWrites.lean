import SqlMcpServer.Workspace.Service
import SqlMcpServer.Workspace.ConflictLaws

/-!
# Writes of items read before others wrote

`WriteItems` merges a write with what the item holds when that is not what its writer read.
-/

namespace SqlMcpServer.Workspaces

open List

def Write.merged (s : Schema) (before : Snapshot) (wr : Write) : Merged :=
  if s.Same (before.get wr.ref) wr.previous then ⟨wr.value, []⟩
  else s.merge wr.previous wr.value (before.get wr.ref) []

lemma BatchState.write_plain (s : Schema) (before : Snapshot) (written : Ref → Bool) (b : BatchState) {wr : Write} (hplain : wr.renamed = none) (hfresh : b.values wr.ref = none) :
    (b.write s before written wr).values = Function.update b.values wr.ref (some (wr.merged s before).value) ∧
      (b.write s before written wr).refs = b.refs ++ [wr.ref] ∧
      (b.write s before written wr).found = b.found ++ (wr.merged s before).conflicts.map fun c => (wr.ref, c) := by
  have hcurrent : (b.values wr.ref).getD (before.get wr.ref) = before.get wr.ref := by rw [hfresh]; rfl
  simp only [BatchState.write, hplain, BatchState.current, hcurrent, Write.merged]
  split_ifs
  · simp [BatchState.put]
  · simp [BatchState.put]

lemma batch_fold (s : Schema) (before : Snapshot) (written : Ref → Bool) {ws : List Write} {b : BatchState} (hplain : ∀ wr ∈ ws, wr.renamed = none)
    (hdistinct : (ws.map Write.ref).Nodup) (hfresh : ∀ wr ∈ ws, b.values wr.ref = none) :
    (∀ wr ∈ ws, (ws.foldl (BatchState.write s before written) b).values wr.ref = some (wr.merged s before).value) ∧
      (∀ ref, ref ∉ ws.map Write.ref → (ws.foldl (BatchState.write s before written) b).values ref = b.values ref) ∧
      (ws.foldl (BatchState.write s before written) b).refs = b.refs ++ ws.map Write.ref ∧
      (ws.foldl (BatchState.write s before written) b).found =
        b.found ++ ws.flatMap fun wr => (wr.merged s before).conflicts.map fun c => (wr.ref, c) := by
  induction ws generalizing b with
  | nil => simp
  | cons wr ws ih =>
    obtain ⟨hvalues, hrefs, hfound⟩ := b.write_plain s before written (hplain wr (by simp)) (hfresh wr (by simp))
    rw [map_cons, nodup_cons] at hdistinct
    have hother : ∀ wr' ∈ ws, wr'.ref ≠ wr.ref := fun wr' h heq => hdistinct.1 (heq ▸ mem_map_of_mem h)
    have hfresh' : ∀ wr' ∈ ws, (b.write s before written wr).values wr'.ref = none := by
      intro wr' h
      rw [hvalues, Function.update_of_ne (hother wr' h), hfresh wr' (by simp [h])]
    obtain ⟨ih₁, ih₂, ih₃, ih₄⟩ := ih (fun wr' h => hplain wr' (by simp [h])) hdistinct.2 hfresh'
    rw [foldl_cons]
    refine ⟨fun wr' h => ?_, fun ref h => ?_, ?_, ?_⟩
    · rcases mem_cons.mp h with rfl | h
      · rw [ih₂ _ hdistinct.1, hvalues, Function.update_self]
      · exact ih₁ wr' h
    · simp only [map_cons, mem_cons, not_or] at h
      rw [ih₂ ref h.2, hvalues, Function.update_of_ne h.1]
    · rw [ih₃, hrefs]
      simp
    · rw [ih₄, hfound]
      simp

def OtherSide (s : Schema) (w : Workspace) (base : Snapshot) (ref : Ref) (q : Path) (v : Option Value) : Prop :=
  ∃ o ∈ s.openConflicts w.items base w.conflicts, o.conflict.ref = ref ∧
    ∃ rest, q = o.conflict.path ++ rest ∧ s.SameAt q (s.getFrom o.theirsValue o.conflict.path rest) v

/-- Every value others changed since a writer read it, where the merge compares values, is in
the workspace or the other side of an open conflict. -/
def NothingLost (s : Schema) (w w' : Workspace) (base : Snapshot) (writes : List Write) : Prop :=
  ∀ wr ∈ writes, ¬ s.Same (w.items.get wr.ref) wr.previous →
    ∀ q, s.Leaf [] wr.previous wr.value (w.items.get wr.ref) q →
      ¬ s.SameAt q (s.getAt (w.items.get wr.ref) q) (s.getAt wr.previous q) →
        s.SameAt q (s.getAt (w'.items.get wr.ref) q) (s.getAt (w.items.get wr.ref) q) ∨
          OtherSide s w' base wr.ref q (s.getAt (w.items.get wr.ref) q)

section
variable {svc : Service} {op : LogOp} {writes : List Write} {note : Option Note} {id : Nat} {w w' : Workspace}
  {base : Snapshot} {entry : LogEntry}

lemma renamesLast_plain (h : ∀ wr ∈ writes, wr.renamed = none) : renamesLast writes = writes := by
  have hsome : (writes.filter fun wr => wr.renamed.isSome) = [] := by
    refine filter_eq_nil_iff.mpr fun wr hwr => ?_
    simp [h wr hwr]
  have hnone : (writes.filter fun wr => wr.renamed.isNone) = writes := by
    refine filter_eq_self.mpr fun wr hwr => ?_
    simp [h wr hwr]
  rw [renamesLast, hsome, hnone, append_nil]

lemma writeItems_plain (hreconcile : svc.reconcile = none) (hplain : ∀ wr ∈ writes, wr.renamed = none)
    (h : svc.writeItems op writes note id w base = .write w' entry) :
    w'.items = w.items.apply (batch svc.schema w.items writes).values (batch svc.schema w.items writes).refs := by
  unfold Service.writeItems at h
  simp only [renamesLast_plain hplain, Service.reconciled, hreconcile] at h
  split at h
  · cases h
  · cases h
    rfl

lemma sameAt_written (hreconcile : svc.reconcile = none) (hplain : ∀ wr ∈ writes, wr.renamed = none)
    (hdistinct : (writes.map Write.ref).Nodup) (h : svc.writeItems op writes note id w base = .write w' entry)
    {wr : Write} (hwr : wr ∈ writes) : w'.items.get wr.ref = present (wr.merged svc.schema w.items).value := by
  obtain ⟨hvalues, _, hrefs, _⟩ := batch_fold svc.schema w.items (fun ref => ∃ wr ∈ writes, wr.ref = ref)
    (b := .start writes) hplain hdistinct fun _ _ => rfl
  rw [writeItems_plain hreconcile hplain h]
  refine Snapshot.get_apply_of_some (hvalues wr hwr) ?_
  rw [batch, hrefs]
  exact mem_map_of_mem hwr

lemma mem_found (svc : Service) (w : Workspace) (hplain : ∀ wr ∈ writes, wr.renamed = none) (hdistinct : (writes.map Write.ref).Nodup)
    {x : Ref × ValueConflict} : x ∈ (batch svc.schema w.items writes).found ↔
      ∃ wr ∈ writes, wr.ref = x.1 ∧ x.2 ∈ (wr.merged svc.schema w.items).conflicts := by
  obtain ⟨_, _, _, hfound⟩ := batch_fold svc.schema w.items (fun ref => ∃ wr ∈ writes, wr.ref = ref)
    (b := .start writes) hplain hdistinct fun _ _ => rfl
  rw [batch, hfound]
  simp only [BatchState.start, nil_append, mem_flatMap, mem_map]
  constructor
  · rintro ⟨wr, hwr, c, hc, rfl⟩
    exact ⟨wr, hwr, rfl, hc⟩
  · rintro ⟨wr, hwr, href, hc⟩
    exact ⟨wr, hwr, x.2, hc, by rw [href]⟩

lemma merged_of_stale {wr : Write} (hstale : ¬ svc.schema.Same (w.items.get wr.ref) wr.previous) :
    wr.merged svc.schema w.items = svc.schema.merge wr.previous wr.value (w.items.get wr.ref) [] := if_neg hstale

lemma open_of_found (hreconcile : svc.reconcile = none) (hplain : ∀ wr ∈ writes, wr.renamed = none)
    (hdistinct : (writes.map Write.ref).Nodup) (h : svc.writeItems op writes note id w base = .write w' entry)
    {wr : Write} (hwr : wr ∈ writes) (hstale : ¬ svc.schema.Same (w.items.get wr.ref) wr.previous) {q : Path}
    (hleaf : svc.schema.Leaf [] wr.previous wr.value (w.items.get wr.ref) q)
    (hvalue : svc.schema.getAt (wr.merged svc.schema w.items).value q = svc.schema.getAt wr.value q)
    (hne : ¬ svc.schema.SameAt q (svc.schema.getAt (w.items.get wr.ref) q) (svc.schema.getAt wr.value q))
    {f : Conflict} (hf : f ∈ w'.conflicts) (href : f.ref = wr.ref) (hpath : f.path = q) (hpinned : f.pinned = true)
    (htheirs : f.theirs = svc.schema.getAt (w.items.get wr.ref) q) :
    OtherSide svc.schema w' base wr.ref q (svc.schema.getAt (w.items.get wr.ref) q) := by
  have hitem := sameAt_written hreconcile hplain hdistinct h hwr
  have hview : svc.schema.viewPath w'.items.get base.get f = q := by rw [Schema.viewPath, if_pos hpinned, hpath]
  have hside : svc.schema.viewTheirs w'.items.get base.get f = svc.schema.getAt (w.items.get wr.ref) q := by
    rw [Schema.viewTheirs, if_pos hpinned, htheirs]
  have hholder : svc.schema.holderGone (w'.items.get f.ref) (svc.schema.viewPath w'.items.get base.get f) = false := by
    rw [hview, href, hitem]
    refine Schema.holderGone_eq_false.mpr fun m hm hmne => ?_
    obtain ⟨v, hv, hnull⟩ := hleaf.merge_inner hm hmne
    rw [merged_of_stale hstale, Schema.getAt_present hv hnull]
    nofun
  have hdiffer : ¬ svc.schema.SameAt q (svc.schema.getAt (w'.items.get f.ref) q)
      (svc.schema.getAt (w.items.get wr.ref) q) := by
    rw [href, hitem]
    intro hsame
    refine hne (Schema.SameAt.symm ?_)
    rw [← hvalue]
    exact (Schema.sameAt_present _ q).symm.trans hsame
  have hopen := Schema.view_eq_some.mpr ⟨hholder, by rwa [hview, hside], rfl⟩
  refine ⟨_, mem_filterMap.mpr ⟨f, hf, hopen⟩, href, [], by simp [hview], ?_⟩
  simp only [Schema.getFrom, hside]
  rfl

end

section Roles

def staleWrite : Write := ⟨roleRef, some (role "c"), some (role "x"), none⟩

def removal : Conflict := ⟨0, roleRef, [], ⟨.workspace, none, "root"⟩, true, none⟩

end Roles

end SqlMcpServer.Workspaces
