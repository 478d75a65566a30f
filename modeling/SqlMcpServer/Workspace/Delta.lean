import SqlMcpServer.Workspace.ConflictLaws
import SqlMcpServer.Workspace.Versions

/-!
# Delta sync

`configapp.WorkspaceItems`: the items of a workspace changed since a version, as its log tells
them.
-/

namespace SqlMcpServer.Workspaces

open List

open SqlMcpServer.Revisions (Revision Payload MemoryStore)

/-- The operations whose log entry lists every item they changed. -/
def deltaOps : LogOp → Bool
  | .edit | .apply | .merge | .resolve | .checkpoint => true
  | .update | .reset | .load | .commit => false

structure WorkspaceItem where
  ref : Ref
  value : Option Value
deriving DecidableEq, Repr

structure WorkspaceItems where
  complete : Bool
  items : List WorkspaceItem
deriving DecidableEq, Repr

/-- The writes a delta is read from at most. -/
def maxDeltaWrites : Int := 200

def addSeen (refs items : List Ref) : List Ref :=
  items.foldl (fun refs ref => if ref ∈ refs then refs else refs ++ [ref]) refs

/-- The loop of `changedSince`, newest first; writes after `version` come first. -/
def changedFrom (since version : Int) : Int → List Ref → List LogEntry → Option (List Ref)
  | _, _, [] => none
  | next, refs, e :: log =>
    if e.version > version then changedFrom since version next refs log
    else if e.version ≠ next ∨ ¬ deltaOps e.op then none
    else if next - 1 = since then some (addSeen refs e.items)
    else changedFrom since version (next - 1) (addSeen refs e.items) log

/-- `changedSince`: `none` when the log cannot tell. -/
def changedSince (log : List LogEntry) (since version : Int) : Option (List Ref) :=
  if since = version then some []
  else if version - since > maxDeltaWrites then none
  else changedFrom since version version [] (log.take (version - since + 16).toNat)

def Item.listed (it : Item) : WorkspaceItem := ⟨it.ref, some it.value⟩

def itemsAt (s : Snapshot) (refs : List Ref) : List WorkspaceItem :=
  (s.items.filter fun it => it.ref ∈ refs).map Item.listed ++
    (refs.filter fun ref => s.get ref = none).map fun ref => ⟨ref, none⟩

def workspaceItems (log : List LogEntry) (w : Workspace) (since : Option Int) : WorkspaceItems :=
  match (since.filter fun v => 0 ≤ v ∧ v ≤ w.version).bind fun v => changedSince log v w.version with
  | some refs => ⟨false, itemsAt w.items refs⟩
  | none => ⟨true, w.items.items.map Item.listed⟩

def sync (held : Ref → Option Value) (answer : WorkspaceItems) (ref : Ref) : Option Value :=
  match Keyed.find WorkspaceItem.ref ref answer.items with
  | some it => it.value
  | none => if answer.complete then none else held ref

lemma sync_complete (held : Ref → Option Value) (s : Snapshot) (ref : Ref) :
    sync held ⟨true, s.items.map Item.listed⟩ ref = s.get ref := by
  have hfind : Keyed.find WorkspaceItem.ref ref (s.items.map Item.listed) = (Keyed.find Item.ref ref s.items).map Item.listed :=
    Keyed.find_map _ fun _ => rfl
  unfold sync Snapshot.get
  rw [hfind]
  cases Keyed.find Item.ref ref s.items <;> rfl

lemma find_kept (s : Snapshot) (refs : List Ref) (ref : Ref) :
    Keyed.find Item.ref ref (s.items.filter fun it => it.ref ∈ refs) =
      if ref ∈ refs then Keyed.find Item.ref ref s.items else none := by
  unfold Keyed.find
  rw [find?_filter]
  split_ifs with h
  · congr 1
    funext it
    by_cases hit : it.ref = ref
    · simp [hit, h]
    · simp [hit]
  · refine find?_eq_none.mpr fun it _ hit => ?_
    simp only [Bool.and_eq_true, decide_eq_true_eq] at hit
    exact h (hit.2 ▸ hit.1)

lemma find_gone (s : Snapshot) (refs : List Ref) (ref : Ref) :
    Keyed.find id ref (refs.filter fun ref => s.get ref = none) = if ref ∈ refs ∧ s.get ref = none then some ref else none := by
  split_ifs with h
  · cases hfind : Keyed.find id ref (refs.filter fun ref => s.get ref = none) with
    | none =>
      rw [Keyed.find_eq_none_iff, map_id] at hfind
      exact absurd (mem_filter.mpr ⟨h.1, by simpa using h.2⟩) hfind
    | some x =>
      obtain ⟨_, rfl⟩ := Keyed.mem_of_find hfind
      rfl
  · rw [Keyed.find_eq_none_iff, map_id]
    intro hmem
    obtain ⟨hmem, hnone⟩ := mem_filter.mp hmem
    exact h ⟨hmem, by simpa using hnone⟩

lemma sync_itemsAt (held : Ref → Option Value) (s : Snapshot) (refs : List Ref) (ref : Ref) :
    sync held ⟨false, itemsAt s refs⟩ ref = if ref ∈ refs then s.get ref else held ref := by
  have hkept : Keyed.find WorkspaceItem.ref ref ((s.items.filter fun it => it.ref ∈ refs).map Item.listed) =
      (if ref ∈ refs then Keyed.find Item.ref ref s.items else none).map Item.listed := by
    rw [← find_kept]
    exact Keyed.find_map _ fun _ => rfl
  have hgone : Keyed.find WorkspaceItem.ref ref ((refs.filter fun ref => s.get ref = none).map fun ref => ⟨ref, none⟩) =
      (if ref ∈ refs ∧ s.get ref = none then some ref else none).map fun ref => ⟨ref, none⟩ := by
    rw [← find_gone]
    exact Keyed.find_map _ fun _ => rfl
  have hfind : Keyed.find WorkspaceItem.ref ref (itemsAt s refs) = _ := find?_append.trans (congrArg₂ Option.or hkept hgone)
  unfold sync
  rw [hfind]
  by_cases href : ref ∈ refs
  · simp only [href, if_true, true_and]
    cases hitem : Keyed.find Item.ref ref s.items with
    | none =>
      have hget : s.get ref = none := by rw [Snapshot.get, hitem]; rfl
      simp [hget]
    | some it =>
      have hget : s.get ref = some it.value := by rw [Snapshot.get, hitem]; rfl
      simp [hget, Item.listed]
  · simp [href]

def BatchState.Listed (b : BatchState) : Prop := ∀ ref, b.values ref ≠ none → ref ∈ b.refs

namespace BatchState.Listed
variable {b b' : BatchState}

lemma of_eq (h : b.Listed) (hvalues : b'.values = b.values) (hrefs : b'.refs = b.refs) : b'.Listed := by
  intro ref href
  rw [hrefs]
  apply h
  rwa [← hvalues]

lemma put (h : b.Listed) (ref : Ref) (v : Option Value) : (b.put ref v).Listed := by
  intro r hr
  apply mem_append.mpr
  by_cases heq : r = ref
  · exact .inr (mem_singleton.mpr heq)
  · refine .inl (h r ?_)
    simpa [BatchState.put, Function.update_of_ne heq] using hr

lemma moveOn (h : b.Listed) (to_ from_ : Ref) : (b.moveOn to_ from_).Listed := by
  unfold BatchState.moveOn
  split
  · exact h.of_eq rfl rfl
  · exact h

lemma rename (h : b.Listed) (before : Snapshot) (written : Ref → Bool) (to_ from_ : Ref) : (b.rename before written to_ from_).Listed := by
  have hto : (b.renameTo to_ from_).Listed := h.of_eq rfl rfl
  have hmove := h.moveOn to_ from_
  unfold BatchState.rename
  simp only
  split_ifs
  · exact hto
  · exact hto.put from_ none
  · exact hmove
  · exact hmove.put from_ none
  · exact h

lemma write (h : b.Listed) (s : Schema) (before : Snapshot) (written : Ref → Bool) (wr : Write) :
    (b.write s before written wr).Listed := by
  have hlater : ({ b with later := Function.update b.later wr.ref (b.later wr.ref - 1) } : BatchState).Listed := h.of_eq rfl rfl
  cases hr : wr.renamed with
  | none =>
    simp only [BatchState.write, hr]
    split_ifs
    · exact hlater.put _ _
    · exact (hlater.of_eq rfl rfl).put _ _
  | some from_ =>
    have hrenamed := hlater.rename before written wr.ref from_
    simp only [BatchState.write, hr]
    split_ifs
    · exact hrenamed.put _ _
    · exact (hrenamed.of_eq rfl rfl).put _ _

end BatchState.Listed

lemma batch_listed (s : Schema) (before : Snapshot) (writes : List Write) : (batch s before writes).Listed := by
  have hfold : ∀ (written : Ref → Bool) (ws : List Write) (b : BatchState), b.Listed →
      (ws.foldl (BatchState.write s before written) b).Listed := by
    intro written ws
    induction ws with
    | nil => exact fun b hb => hb
    | cons wr ws ih => exact fun b hb => ih _ (hb.write s before written wr)
  exact hfold _ _ _ fun ref href => absurd rfl href

section
variable {svc : Service} {w w' : Workspace} {base : Snapshot} {id : Nat} {entry : LogEntry} {ref : Ref}

lemma writeItems_listed {op : LogOp} {writes : List Write} {note : Option Note}
    (h : svc.writeItems op writes note id w base = .write w' entry) (href : ref ∉ entry.items) :
    svc.schema.Same (w'.items.get ref) (w.items.get ref) := by
  unfold Service.writeItems at h
  split at h
  · cases h
  · simp only at h
    split at h
    · cases h
    · rename_i items refs hreconciled
      cases h
      set b := batch svc.schema w.items (renamesLast writes)
      have hafter : ∀ r, r ∉ b.refs → (w.items.apply b.values b.refs).get r = w.items.get r := by
        intro r hr
        apply Snapshot.get_apply_of_none
        by_contra hvalue
        exact hr (batch_listed _ _ _ r hvalue)
      unfold Service.reconciled at hreconciled
      split at hreconciled
      · cases hreconciled
        exact congrArg _ (hafter ref href)
      · obtain ⟨now, _, heq⟩ := Option.map_eq_some_iff.mp hreconciled
        cases heq
        rw [mem_append, not_or] at href
        have hnow : svc.schema.Same ((w.items.apply b.values b.refs).get ref) (items.get ref) := by
          by_contra hne
          exact href.2 (mem_filter.mpr ⟨Schema.mem_changes_of_not_same hne, by simpa using href.1⟩)
        rw [hafter ref href.1] at hnow
        exact hnow.symm

lemma resolve_listed {conflict : Nat} {theirs : Bool} (h : svc.resolve conflict theirs w base = .write w' entry)
    (href : ref ∉ entry.items) : w'.items.get ref = w.items.get ref := by
  unfold Service.resolve at h
  split at h
  · cases h
  · cases h
  · rename_i items left hresolve
    cases h
    unfold Schema.resolve at hresolve
    split at hresolve
    · cases hresolve
    · rename_i o ho
      simp only at hresolve
      split_ifs at hresolve with hplace htheirs <;> cases hresolve
      · -- The item set is the one of the conflict the log names.
        apply Snapshot.get_apply_of_none
        obtain ⟨c, hc, hview⟩ := Option.bind_eq_some_iff.mp ho
        obtain ⟨_, _, rfl⟩ := Schema.view_eq_some.mp hview
        refine if_neg fun heq => href ?_
        simp only [hc, Option.map_some, Option.getD_some, mem_singleton]
        exact heq
      · rfl

lemma Applied.listed {change : Change} {e : LogEntry} (h : Applied svc change base w w' e) (hop : deltaOps e.op = true)
    (href : ref ∉ e.items) : svc.schema.Same (w'.items.get ref) (w.items.get ref) := by
  obtain ⟨id, who, out, entry, hrun, rfl, rfl⟩ := h
  change svc.schema.Same (out.items.get ref) (w.items.get ref)
  have hop' : deltaOps entry.op = true := hop
  have href' : ref ∉ entry.items := href
  clear hop href
  cases change with
  | writeItems op writes note => exact writeItems_listed hrun href'
  | update to_ next =>
    simp only [Change.run, Service.update] at hrun
    split_ifs at hrun
    cases hrun
    cases hop'
  | reset to_ next =>
    cases hrun
    cases hop'
  | resolve conflict theirs => exact congrArg _ (resolve_listed hrun href')
  | mergeDraft draft from_ published fromItems draftItems onto =>
    simp only [Change.run, Service.mergeDraft] at hrun
    split_ifs at hrun
    cases hrun
    by_contra hne
    exact href' (Schema.mem_changes_of_not_same fun hsame => hne hsame.symm)
  | load rev content keep published onto =>
    simp only [Change.run, Service.load] at hrun
    split_ifs at hrun <;> cases hrun <;> cases hop'
  | checkpoint draft builtVersion builtBase =>
    cases hrun
    exact rfl
  | moveAfterCommit snap published next committed =>
    cases hrun
    cases hop'

end

section
variable {svc : Service} {root : Workspace} {ws : List Workspace} {es : List LogEntry}

lemma head_mem (ws : List Workspace) (root : Workspace) : ws.head?.getD root ∈ ws ++ [root] := by
  cases ws with
  | nil => exact mem_singleton_self _
  | cons w ws => exact mem_cons_self

lemma mem_addSeen {refs items : List Ref} {ref : Ref} : ref ∈ addSeen refs items ↔ ref ∈ refs ∨ ref ∈ items := by
  induction items generalizing refs with
  | nil => simp [addSeen]
  | cons r items ih =>
    have hcons : addSeen refs (r :: items) = addSeen (if r ∈ refs then refs else refs ++ [r]) items := rfl
    rw [hcons, ih, mem_cons]
    split_ifs with hr
    · constructor
      · exact fun h => h.imp_right .inr
      · rintro (h | rfl | h)
        · exact .inl h
        · exact .inl hr
        · exact .inr h
    · rw [mem_append, mem_singleton, or_assoc]

lemma changedFrom_take {since version next : Int} {refs out : List Ref} {n : Nat}
    (h : changedFrom since version next refs (es.take n) = some out) : changedFrom since version next refs es = some out := by
  induction es generalizing next refs n with
  | nil => simpa using h
  | cons e es ih =>
    cases n with
    | zero => cases h
    | succ n =>
      rw [take_succ_cons] at h
      unfold changedFrom at h ⊢
      split_ifs at h ⊢
      · exact ih h
      · exact h
      · exact ih h

lemma Chain.changedFrom (h : Chain svc root ws es) (hroot : root.version = 0) {since version next : Int} {refs out : List Ref}
    (hout : changedFrom since version next refs es = some out) (hnext : next ≤ version) (hsince : since < next) :
    refs ⊆ out ∧ ∀ wa wb, wa ∈ ws ++ [root] → wa.version = since → wb ∈ ws → wb.version = next →
      ∀ ref, ref ∉ out → svc.schema.Same (wb.items.get ref) (wa.items.get ref) := by
  induction h generalizing next refs with
  | none => cases hout
  | @cons ws es change base w' e hchain h ih =>
    have hchain' : Chain svc root (w' :: ws) (e :: es) := .cons hchain h
    obtain ⟨hw', he⟩ := h.version
    unfold Workspaces.changedFrom at hout
    split_ifs at hout with hlater hstop hlast
    · -- A write made after the version asked for.
      obtain ⟨hrefs, hsame⟩ := ih hout hnext hsince
      refine ⟨hrefs, fun wa wb ha hav hb hbv => ?_⟩
      have hwa : wa ≠ w' := by rintro rfl; omega
      have hwb : wb ≠ w' := by rintro rfl; omega
      exact hsame wa wb ((mem_cons.mp ha).resolve_left hwa) hav ((mem_cons.mp hb).resolve_left hwb) hbv
    · -- The write after the version held.
      cases hout
      obtain ⟨hnext', hop⟩ := not_or.mp hstop
      refine ⟨fun ref href => mem_addSeen.mpr (.inl href), fun wa wb ha hav hb hbv ref href => ?_⟩
      have hwb : wb = w' := hchain'.unique hroot (mem_append_left _ hb) (mem_append_left _ mem_cons_self) (by omega)
      have hwa : wa = ws.head?.getD root :=
        hchain'.unique hroot ha (mem_cons_of_mem _ (head_mem ws root)) (by omega)
      subst hwb hwa
      exact h.listed (by simpa using hop) fun hmem => href (mem_addSeen.mpr (.inr hmem))
    · obtain ⟨hnext', hop⟩ := not_or.mp hstop
      obtain ⟨hrefs, hsame⟩ := ih hout (by omega) (by omega)
      refine ⟨fun ref href => hrefs (mem_addSeen.mpr (.inl href)), fun wa wb ha hav hb hbv ref href => ?_⟩
      have hwb : wb = w' := hchain'.unique hroot (mem_append_left _ hb) (mem_append_left _ mem_cons_self) (by omega)
      have hwa : wa ≠ w' := by rintro rfl; omega
      subst hwb
      have hstep := h.listed (by simpa using hop) fun hmem => href (hrefs (mem_addSeen.mpr (.inr hmem)))
      cases ws with
      | nil =>
        cases hchain
        cases hout
      | cons w ws =>
        have hbefore := hsame wa w ((mem_cons.mp ha).resolve_left hwa) hav mem_cons_self (by simp at hw'; omega) ref href
        exact hstep.trans hbefore

end

section
variable {svc : Service} {hash : Payload → String} {m : MemoryStore} {s : State} {wa wb : Workspace}

lemma changedSince_eq_some {log : List LogEntry} {since version : Int} {refs : List Ref} (h : changedSince log since version = some refs) :
    since = version ∨ changedFrom since version version [] log = some refs := by
  unfold changedSince at h
  split_ifs at h with hsame hfar
  · exact .inl hsame
  · exact .inr (changedFrom_take h)

lemma Inv.held_in_chain (hinv : Inv svc s) (ha : IsVersion svc s wa) (hlt : wa.version < wb.version)
    (hfirst : 0 < wa.version ∨ wb.version = 0 ∨ Chain svc wa s.versions s.log) :
    ∃ root, root.version = 0 ∧ Chain svc root s.versions s.log ∧ wa ∈ s.versions ++ [root] := by
  have hnonneg := hinv.isVersion_nonneg ha
  by_cases hpos : 0 < wa.version
  · rcases ha with ha | ⟨base, ha, _⟩
    · obtain ⟨id, base, _, hchain⟩ := hinv.made.chain (ne_nil_of_mem ha)
      exact ⟨_, rfl, hchain, mem_append_left _ ha⟩
    · rw [ha] at hpos
      exact absurd hpos (lt_irrefl _)
  · have hzero : wa.version = 0 := by omega
    rcases hfirst with h | h | hchain
    · exact absurd h hpos
    · omega
    · exact ⟨wa, hzero, hchain, mem_append_right _ (mem_singleton_self _)⟩

/-- Delta sync is exact: a console that holds a version and takes the answer of a later one on
the same base in holds the later one's items, if the version it held is one that was kept, or
nothing was written yet, or the first version was made of the workspace it held. -/
theorem delta_sync_exact (hm : m.WF) (hcodec : ReadsPayload svc) (h : Runs svc hash m s) (ha : IsVersion svc s wa)
    (hb : IsVersion svc s wb) (hle : wa.version ≤ wb.version) (hbase : wa.base = wb.base)
    (hfirst : 0 < wa.version ∨ wb.version = 0 ∨ Chain svc wa s.versions s.log) {held : Ref → Option Value}
    (hheld : ∀ ref, svc.schema.Same (held ref) (wa.items.get ref)) (ref : Ref) :
    svc.schema.Same (sync held (workspaceItems s.log wb (some wa.version)) ref) (wb.items.get ref) := by
  have hinv := h.inv hm
  unfold workspaceItems
  split
  · rename_i refs hrefs
    rw [sync_itemsAt]
    split_ifs with hmem
    · exact rfl
    · refine (hheld ref).trans ?_
      obtain ⟨since, hfilter, hchanged⟩ := Option.bind_eq_some_iff.mp hrefs
      obtain ⟨hsince, _⟩ := Option.filter_eq_some_iff.mp hfilter
      cases hsince
      rcases changedSince_eq_some hchanged with hsame | hfrom
      · obtain rfl := hinv.same_version hcodec ha hb hsame hbase
        exact rfl
      · by_cases hlt : wa.version < wb.version
        · obtain ⟨root, hroot, hchain, hmem'⟩ := hinv.held_in_chain ha hlt hfirst
          have hb' : wb ∈ s.versions := by
            rcases hb with hb | ⟨base, hb, _⟩
            · exact hb
            · have := hinv.isVersion_nonneg ha
              rw [hb, Workspace.unwritten] at hlt
              simp only at hlt
              omega
          exact ((hchain.changedFrom hroot hfrom (le_refl _) hlt).2 wa wb hmem' rfl hb' rfl ref hmem).symm
        · obtain rfl := hinv.same_version hcodec ha hb (by omega) hbase
          exact rfl
  · rw [sync_complete]
    exact rfl

end

theorem delta_sync_exact_role : ∃ s wa wb, Runs roleService (fun _ => "") .empty s ∧ wa ∈ s.versions ∧ wb ∈ s.versions ∧
    wa.version = 1 ∧ wb.version = 2 ∧
    ∀ ref, roleService.schema.Same (sync wa.items.get (workspaceItems s.log wb (some wa.version)) ref) (wb.items.get ref) := by
  have hrun : (Transition.run (State.step roleService fun _ => "") (.init .empty) twoWrites).map
      (fun s => s.versions.map fun w => (w.base, w.version)) = some [(1, 2), (1, 1)] := by decide
  obtain ⟨s, hs, hversions⟩ := Option.map_eq_some_iff.mp hrun
  obtain ⟨wb, rest, hlist, hb, hrest⟩ := map_eq_cons_iff.mp hversions
  obtain ⟨wa, rest', rfl, ha, _⟩ := map_eq_cons_iff.mp hrest
  obtain ⟨hbbase, hbversion⟩ := Prod.mk.inj hb
  obtain ⟨habase, haversion⟩ := Prod.mk.inj ha
  have hreach : Runs roleService (fun _ => "") .empty s := Transition.reachable_of_run (.start trivial) hs
  have hamem : wa ∈ s.versions := by rw [hlist]; simp
  have hbmem : wb ∈ s.versions := by rw [hlist]; simp
  exact ⟨s, wa, wb, hreach, hamem, hbmem, haversion, hbversion,
    delta_sync_exact MemoryStore.wf_empty roleService_readsPayload hreach (.inl hamem) (.inl hbmem) (by omega)
      (habase.trans hbbase.symm) (.inl (by omega)) fun _ => rfl⟩

/-- The first write of a workspace loads it on revision 1, and is made after revision 2 is
published; a draft that takes revision 2 back is then taken in. -/
def staleFirstWrite : List Action :=
  publishElsewhere [1] 1 0 ++ inTurn 0 (.writeItems .edit [⟨⟨"role", "viewer"⟩, some (role "v"), none, none⟩] none) 3 ++
    publishElsewhere [2] 2 1 ++ [.turn 0 0 0, .elsewhere 0 (.create ⟨2, [1], "", ""⟩)] ++ inTurn 1 (.mergeDraft 3) 8

/-- A console that read the workspace on revision 2 before anything was written keeps a value
that is not the workspace's: what was taken in is the value the first write found. -/
theorem delta_sync_misses_first_base : ∃ s wb, Runs roleService (fun _ => "") .empty s ∧
    IsVersion roleService s (.unwritten 2 (roleItems "y")) ∧ IsVersion roleService s wb ∧ wb.version = 2 ∧ wb.base = 2 ∧
    ¬ roleService.schema.Same (sync (roleItems "y").get (workspaceItems s.log wb (some 0)) roleRef) (wb.items.get roleRef) := by
  have hrun : (Transition.run (State.step roleService fun _ => "") (.init .empty) staleFirstWrite).map
      (fun s => (s.stored.map fun w => (w.version, w.base,
        sync (roleItems "y").get (workspaceItems s.log w (some 0)) roleRef, w.items.get roleRef),
        (s.history.get? 2).map Revision.payload)) =
      some (some (2, 2, some (role "y"), some (role "x")), some [2]) := by rfl
  obtain ⟨s, hs, hfacts⟩ := Option.map_eq_some_iff.mp hrun
  obtain ⟨hstored, hrevision⟩ := Prod.mk.inj hfacts
  obtain ⟨wb, hwb, hfacts⟩ := Option.map_eq_some_iff.mp hstored
  simp only [Prod.mk.injEq] at hfacts
  obtain ⟨hversion, hbase, hsync, hitem⟩ := hfacts
  obtain ⟨r, hr, hpayload⟩ := Option.map_eq_some_iff.mp hrevision
  have hreach : Runs roleService (fun _ => "") .empty s := Transition.reachable_of_run (.start trivial) hs
  have hmem : wb ∈ s.versions := by
    rw [(hreach.inv MemoryStore.wf_empty).stored] at hwb
    exact mem_of_head? hwb
  have hitems : roleService.itemsOf r = some (roleItems "y") := by
    change described.lookup r.payload = _
    rw [hpayload]
    rfl
  refine ⟨s, wb, hreach, .inr ⟨_, rfl, r, r, (MemoryStore.get?_mem hr).2, hr, rfl, hitems⟩, .inl hmem, hversion, hbase, ?_⟩
  rw [hsync, hitem]
  decide

end SqlMcpServer.Workspaces
