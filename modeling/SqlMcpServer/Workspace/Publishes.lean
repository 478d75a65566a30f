import Mathlib.Data.List.Infix
import SqlMcpServer.Workspace.Service
import SqlMcpServer.Workspace.ConflictLaws

namespace SqlMcpServer.Workspaces

open List Schema

variable {q : Path} {now base : Snapshot} {pending found : List Conflict} {source : Option Source}

namespace Schema
variable {s : Schema}

def Differs (s : Schema) (a b : Option Value) (q : Path) : Prop := ∀ m, m <+: q → ¬ s.SameAt m (s.getAt a m) (s.getAt b m)

variable {b : Option Value}

lemma Differs.mono {a : Option Value} {m : Path} (h : s.Differs a b q) (hm : m <+: q) : s.Differs a b m :=
  fun x hx => h x (hx.trans hm)

def Held (s : Schema) (a : Option Value) (q : Path) : Prop := ∀ m, m <+: q → m ≠ q → s.getAt a m ≠ none

def Divides (s : Schema) (b l n : Option Value) (q : Path) : Prop :=
  s.Contested q (s.getAt b q) (s.getAt l q) (s.getAt n q) ∧ s.parts (s.getAt b q) (s.getAt l q) (s.getAt n q) q ≠ .whole

section
variable {b l n : Option Value} {path : Path}

lemma base_of_objects {bo lo no : Fields} (h : s.parts b l n path = .objects bo lo no) (k : String) :
    s.getFrom b path [.element k] = none := by
  unfold parts at h
  split at h
  · rfl
  · rfl
  · simp only at h
    split at h <;> cases h

lemma base_of_lists {bs ls ns : KeyedList} (h : s.parts b l n path = .lists bs ls ns) (k : String) :
    s.getFrom b path [.field k] = none := by
  obtain ⟨hb, _⟩ := parts_lists h
  obtain ⟨els, hels⟩ := keyed_eq_some hb
  cases b with
  | none => rfl
  | some v =>
    rw [Option.getD_some] at hels
    rw [hels]
    rfl

/-- The merge goes on under a path, and the merged value is there. -/
structure Goes (s : Schema) (path : Path) (b l n : Option Value) (r : Merged) (q : Path) : Prop where
  contested : s.Contested (path ++ q) (s.getFrom b path q) (s.getFrom l path q) (s.getFrom n path q)
  divides : s.parts (s.getFrom b path q) (s.getFrom l path q) (s.getFrom n path q) (path ++ q) ≠ .whole
  there : ∃ v, s.getFrom r.value path q = some v ∧ v ≠ .null

lemma Goes.cons {t : Step} {r r' : Merged} {b' l' n' : Option Value} (h : s.Goes (path ++ [t]) b' l' n' r' q)
    (hb : s.getFrom b path [t] = b') (hl : s.getFrom l path [t] = l') (hn : s.getFrom n path [t] = n')
    (hvalue : s.getFrom r.value path [t] = r'.value) : s.Goes path b l n r (t :: q) := by
  have hpath : path ++ t :: q = path ++ [t] ++ q := by simp
  subst hb hl hn
  constructor
  · rw [getFrom_cons l, getFrom_cons b, getFrom_cons n, hpath]
    exact h.contested
  · rw [getFrom_cons l, getFrom_cons b, getFrom_cons n, hpath]
    exact h.divides
  · rw [getFrom_cons r.value, hvalue]
    exact h.there

end

lemma leaf_or_goes {path : Path} {l n : Option Value} {fuel : Nat} (hfuel : depthOf l < fuel)
    (h : ∀ m, m <+: q → ¬ s.SameAt (path ++ m) (s.getFrom l path m) (s.getFrom b path m)) :
    (∃ m, m <+: q ∧ s.Leaf path b l n m) ∨ s.Goes path b l n (s.mergeWithin fuel b l n path) q := by
  induction q generalizing path b l n fuel with
  | nil =>
    by_cases hstop : s.Contested path b l n → s.parts b l n path = .whole
    · exact .inl ⟨[], prefix_rfl, .stop hstop⟩
    · obtain ⟨hc, hparts⟩ := Classical.not_imp.mp hstop
      obtain ⟨fuel, rfl⟩ : ∃ f, fuel = f + 1 := ⟨fuel - 1, by omega⟩
      refine .inr ⟨by simpa [getFrom] using hc, by simpa [getFrom] using hparts, ?_⟩
      cases hsplit : s.parts b l n path with
      | objects bo lo no =>
        rw [mergeWithin_objects hc hsplit]
        exact ⟨_, rfl, by simp⟩
      | lists bs ls ns =>
        rw [mergeWithin_lists hc hsplit]
        exact ⟨_, rfl, by simp⟩
      | whole => exact absurd hsplit hparts
  | cons t q ih =>
    by_cases hstop : s.Contested path b l n → s.parts b l n path = .whole
    · exact .inl ⟨[], nil_prefix, .stop hstop⟩
    · obtain ⟨hc, hparts⟩ := Classical.not_imp.mp hstop
      obtain ⟨fuel, rfl⟩ : ∃ f, fuel = f + 1 := ⟨fuel - 1, by omega⟩
      -- What the step leads to differs too.
      have hunder : ∀ m, m <+: q → ¬ s.SameAt (path ++ [t] ++ m) (s.getFrom (s.getFrom l path [t]) (path ++ [t]) m)
          (s.getFrom (s.getFrom b path [t]) (path ++ [t]) m) := by
        intro m hm hsame
        refine h (t :: m) (cons_prefix_cons.mpr ⟨rfl, hm⟩) ?_
        rw [getFrom_cons l, getFrom_cons b]
        simpa using hsame
      have hstep : ¬ s.SameAt (path ++ [t]) (s.getFrom l path [t]) (s.getFrom b path [t]) := by
        simpa [getFrom] using hunder [] nil_prefix
      cases hsplit : s.parts b l n path with
      | objects bo lo no =>
        rw [mergeWithin_objects hc hsplit]
        obtain ⟨rfl, rfl, hb⟩ := parts_objects hsplit
        cases t with
        | element k =>
          rw [base_of_objects hsplit] at hstep
          exact absurd rfl hstep
        | field k =>
          have hb' : s.getFrom b path [.field k] = bo.property k := hb k
          have hl' : s.getFrom (some (.object lo)) path [.field k] = lo.property k := rfl
          rw [hb', hl'] at hunder
          have hdepth := depthOf_property (m := lo) (k := k)
          have hfuel' : depthOf (lo.property k) < fuel := by omega
          rcases ih (n := no.property k) hfuel' hunder with ⟨m, hm, hleaf⟩ | hgoes
          · exact .inl ⟨.field k :: m, cons_prefix_cons.mpr ⟨rfl, hm⟩, .field hc hsplit hleaf⟩
          · exact .inr (hgoes.cons hb' rfl rfl (value_mergeObjects _ _ _ _ fuel k))
      | lists bs ls ns =>
        rw [mergeWithin_lists hc hsplit]
        obtain ⟨_, hl, hn, hb⟩ := parts_lists hsplit
        cases t with
        | field k =>
          obtain ⟨els, rfl⟩ := keyed_eq_some hl
          rw [base_of_lists hsplit] at hstep
          exact absurd rfl hstep
        | element k =>
          have hb' : s.getFrom b path [.element k] = bs.get k := hb k
          have hl' : s.getFrom l path [.element k] = ls.get k := by rw [getFrom, hl]; rfl
          have hn' : s.getFrom n path [.element k] = ns.get k := by rw [getFrom, hn]; rfl
          cases hgroup : anyGroup bs ls ns k with
          | true => exact .inl ⟨[.element k], cons_prefix_cons.mpr ⟨rfl, nil_prefix⟩, .group hc hsplit hgroup⟩
          | false =>
            rw [hb', hl'] at hunder
            have hvalue := value_mergeLists bs fuel (keyedBy_get hl) (keyedBy_get hn) k
            rw [atElement_single fuel hgroup] at hvalue
            have hdepth : depthOf (ls.get k) < depthOf l := by
              simp only [anyGroup, Bool.or_eq_false_iff] at hgroup
              exact depthOf_get hl hgroup.1.2
            have hfuel' : depthOf (ls.get k) < fuel := by omega
            rcases ih (n := ns.get k) hfuel' hunder with ⟨m, hm, hleaf⟩ | hgoes
            · exact .inl ⟨.element k :: m, cons_prefix_cons.mpr ⟨rfl, hm⟩, .element hc hsplit hgroup hleaf⟩
            · exact .inr (hgoes.cons hb' hl' hn' hvalue)
      | whole => exact absurd hsplit hparts

lemma merge_stops_or_goes {l : Option Value} (n : Option Value) (h : s.Differs l b q) :
    (∃ m, m <+: q ∧ s.Leaf [] b l n m) ∨ s.Goes [] b l n (s.merge b l n []) q :=
  leaf_or_goes (Nat.lt_succ_self _) h

lemma merge_keeps {l n : Option Value} (h : s.Differs l b q) :
    s.getAt (s.merge b l n []).value q = s.getAt l q ∨ s.Goes [] b l n (s.merge b l n []) q := by
  rcases merge_stops_or_goes n h with ⟨m, ⟨rest, rfl⟩, hleaf⟩ | hgoes
  · refine .inl ?_
    obtain ⟨hvalue, _⟩ := merge_leaf hleaf
    rw [if_neg (h m (prefix_append _ _))] at hvalue
    change s.getFrom _ [] (m ++ rest) = s.getFrom _ [] (m ++ rest)
    rw [getFrom_append, getFrom_append]
    exact congrArg (fun v => s.getFrom v ([] ++ m) rest) hvalue
  · exact .inr hgoes

lemma view_of_differs {now base : Ref → Option Value} {c : Conflict} (hpinned : c.pinned = false) (hq : c.path <+: q)
    (hheld : s.Held (now c.ref) q) (hdiffers : s.Differs (now c.ref) (base c.ref) q) :
    ∃ o, s.view now base c = some o ∧ o.conflict.path <+: q ∧ o.conflict.ref = c.ref := by
  have hpath : s.viewPath now base c <+: q := (viewPath_above now base c).trans hq
  have htheirs : s.viewTheirs now base c = s.getAt (base c.ref) (s.viewPath now base c) := by
    rw [viewTheirs, if_neg (by simp [hpinned])]
  refine ⟨_, view_eq_some.mpr ⟨?_, ?_, rfl⟩, hpath, rfl⟩
  · refine holderGone_eq_false.mpr fun m hm hne => hheld m (hm.trans hpath) fun heq => hne ?_
    exact hm.eq_of_length (Nat.le_antisymm hm.length_le (heq ▸ hpath.length_le))
  · rw [htheirs]
    exact hdiffers _ hpath

lemma mem_carried {c : Conflict} :
    c ∈ s.carried pending found now base source ↔
      ∃ p ∈ pending, (¬ ∃ f ∈ found, p.Within f) ∧
        ∃ o, s.view now.get base.get (if p.pinned then p else { p with source := source.getD p.source }) = some o ∧
          o.conflict = c := by
  simp only [carried, mem_filterMap]
  refine exists_congr fun p => and_congr_right fun _ => ?_
  by_cases h : ∃ f ∈ found, p.Within f
  · rw [if_pos h]
    simp [h]
  · rw [if_neg h, Option.map_eq_some_iff]
    exact (and_iff_right h).symm

lemma carry_covers {p : Conflict}
    (hp : p ∈ pending) (hpinned : p.pinned = false) (hq : p.path <+: q) (hheld : s.Held (now.get p.ref) q)
    (hdiffers : s.Differs (now.get p.ref) (base.get p.ref) q) :
    ∃ c ∈ s.carry pending found now base source, c.ref = p.ref ∧ c.path <+: q := by
  by_cases hreplaced : ∃ f ∈ found, p.Within f
  · obtain ⟨f, hf, href, hwithin⟩ := hreplaced
    by_cases hunder : ∃ c ∈ s.carried pending found now base source, f.Within c
    · obtain ⟨c, hc, href', hwithin'⟩ := hunder
      exact ⟨c, mem_append_left _ hc, href'.symm.trans href.symm, hwithin'.trans (hwithin.trans hq)⟩
    · exact ⟨f, mem_append_right _ (mem_filter.mpr ⟨hf, by simpa using hunder⟩), href.symm, hwithin.trans hq⟩
  · let p' : Conflict := { p with source := source.getD p.source }
    obtain ⟨o, ho, hpath, href⟩ : ∃ o, s.view now.get base.get p' = some o ∧ _ := view_of_differs hpinned hq hheld hdiffers
    refine ⟨o.conflict, mem_append_left _ (mem_carried.mpr ⟨p, hp, hreplaced, o, ?_, rfl⟩), href, hpath⟩
    rw [if_neg (by simp [hpinned])]
    exact ho

lemma carry_found {f : Conflict} (hf : f ∈ found) :
    ∃ c ∈ s.carry pending found now base source, c.ref = f.ref ∧ c.path <+: f.path := by
  by_cases hunder : ∃ c ∈ s.carried pending found now base source, f.Within c
  · obtain ⟨c, hc, href, hwithin⟩ := hunder
    exact ⟨c, mem_append_left _ hc, href.symm, hwithin⟩
  · exact ⟨f, mem_append_right _ (mem_filter.mpr ⟨hf, by simpa using hunder⟩), rfl, prefix_rfl⟩

end Schema

/-- A value contested: the workspace and a publish changed it differently. -/
abbrev Values := Ref → Path → Prop

section
variable (svc : Service)

def StillDiffers (w : Workspace) (base : Snapshot) (ref : Ref) (q : Path) : Prop :=
  svc.schema.Differs (w.items.get ref) (base.get ref) q

/-- The values an update finds changed differently on both sides: where the merge stops, and those
under it the workspace holds. -/
def Contests (w : Workspace) (base next : Snapshot) (ref : Ref) (q : Path) : Prop :=
  ∃ m, m <+: q ∧ svc.schema.Leaf [] (base.get ref) (w.items.get ref) (next.get ref) m ∧
    svc.schema.Contested m (svc.schema.getAt (base.get ref) m) (svc.schema.getAt (w.items.get ref) m)
      (svc.schema.getAt (next.get ref) m) ∧
    ∀ m', m <+: m' → m' <+: q → m' ≠ q → svc.schema.getAt (w.items.get ref) m' ≠ none

/-- Runs of a workspace: with its base's items, the ID the next conflict found gets, and the
values contested. An edit reads what it writes over, so it finds no conflict of its own. -/
inductive Run : Workspace → Snapshot → Nat → Values → Prop
  | start {w : Workspace} {base : Snapshot} (hnone : w.conflicts = []) : Run w base 0 fun _ _ => False
  | edit {w w' : Workspace} {base : Snapshot} {id : Nat} {contested : Values} {op : LogOp} {writes : List Write}
      {note : Option Note} {entry : LogEntry} (hrun : Run w base id contested)
      (hread : (batch svc.schema w.items (renamesLast writes)).found = [])
      (h : svc.writeItems op writes note id w base = .write w' entry) :
      Run w' base id fun ref q =>
        contested ref q ∧ svc.schema.Held (w'.items.get ref) q ∧ StillDiffers svc w' base ref q
  | update {w w' : Workspace} {base next : Snapshot} {id : Nat} {contested : Values} {to_ : Int} {entry : LogEntry}
      (hrun : Run w base id contested) (h : svc.update to_ next id w base = .write w' entry) :
      Run w' next (id + (svc.schema.replay base w.items next (Service.publishedSource to_) false id).2.length) fun ref q =>
        (contested ref q ∨ Contests svc w base next ref q) ∧ StillDiffers svc w' next ref q
  | resolve {w w' : Workspace} {base : Snapshot} {id conflict : Nat} {theirs : Bool} {contested : Values} {entry : LogEntry}
      {o : Open} (hrun : Run w base id contested)
      (hchosen : svc.schema.chosen w.items base w.conflicts conflict = some o)
      (h : svc.resolve conflict theirs w base = .write w' entry) :
      Run w' base id fun ref q =>
        contested ref q ∧ ¬ (ref = o.conflict.ref ∧ o.conflict.path <+: q) ∧
          svc.schema.Held (w'.items.get ref) q ∧ StillDiffers svc w' base ref q

end

structure RunInv (svc : Service) (w : Workspace) (base : Snapshot) (id : Nat) (contested : Values) : Prop where
  unpinned : ∀ c ∈ w.conflicts, c.pinned = false
  ids : (w.conflicts.map Conflict.id).Nodup
  fresh : ∀ c ∈ w.conflicts, c.id < id
  held : ∀ ref q, contested ref q → svc.schema.Held (w.items.get ref) q
  differs : ∀ ref q, contested ref q → StillDiffers svc w base ref q
  covered : ∀ ref q, contested ref q → ∃ c ∈ w.conflicts, c.ref = ref ∧ c.path <+: q

section
variable {svc : Service} {w w' : Workspace} {base next : Snapshot} {id : Nat} {contested : Values} {entry : LogEntry}

variable {s : Schema}

lemma Schema.carried_keeps
    {c : Conflict} (h : c ∈ s.carried pending found now base source) :
    ∃ p ∈ pending, c.id = p.id ∧ c.pinned = p.pinned := by
  obtain ⟨p, hp, _, o, ho, rfl⟩ := mem_carried.mp h
  obtain ⟨_, _, rfl⟩ := view_eq_some.mp ho
  refine ⟨p, hp, ?_⟩
  split_ifs <;> exact ⟨rfl, rfl⟩

lemma Schema.carried_ids (pending found : List Conflict) (now base : Snapshot) (source : Option Source) :
    ((s.carried pending found now base source).map Conflict.id).Sublist (pending.map Conflict.id) := by
  refine Keyed.filterMap_sublist (fun p c h => ?_) pending
  simp only at h
  split_ifs at h
  all_goals
    obtain ⟨o, ho, rfl⟩ := Option.map_eq_some_iff.mp h
    obtain ⟨_, _, rfl⟩ := view_eq_some.mp ho
    rfl

lemma Schema.numbered_ids (source : Source) (pinned : Bool) (id : Nat) (found : List (Ref × ValueConflict)) :
    (Schema.numbered source pinned id found).map Conflict.id = List.range' id found.length := by
  rw [numbered, map_map, ← zipIdx_map_snd]
  rfl

lemma run_edit (hinv : RunInv svc w base id contested) {op : LogOp} {writes : List Write} {note : Option Note}
    (hread : (batch svc.schema w.items (renamesLast writes)).found = [])
    (h : svc.writeItems op writes note id w base = .write w' entry) :
    RunInv svc w' base id fun ref q =>
      contested ref q ∧ svc.schema.Held (w'.items.get ref) q ∧ StillDiffers svc w' base ref q := by
  have hconflicts := Service.writeItems_conflicts h
  have hfound : svc.foundBy w writes id = [] := by
    rw [Service.foundBy, hread]
    rfl
  rw [hfound] at hconflicts
  have hcarry : w'.conflicts = svc.schema.carried w.conflicts [] w'.items base none := by
    rw [hconflicts, carry, filter_nil, append_nil]
  refine ⟨fun c hc => ?_, ?_, fun c hc => ?_, fun ref q hq => hq.2.1, fun ref q hq => hq.2.2, fun ref q hq => ?_⟩
  · obtain ⟨p, hp, _, hpinned⟩ := carried_keeps (hcarry ▸ hc)
    rw [hpinned]
    exact hinv.unpinned p hp
  · rw [hcarry]
    exact (carried_ids _ _ _ _ _).nodup hinv.ids
  · obtain ⟨p, hp, hid, _⟩ := carried_keeps (hcarry ▸ hc)
    rw [hid]
    exact hinv.fresh p hp
  · obtain ⟨hq, hheld, hdiffers⟩ := hq
    obtain ⟨c, hc, rfl, hpath⟩ := hinv.covered ref q hq
    rw [hconflicts]
    exact carry_covers hc (hinv.unpinned c hc) hpath hheld hdiffers

variable {ref : Ref}

lemma Schema.get_replay_differs {old local_ next : Snapshot} {source : Source} {pinned : Bool}
    (hdiffers : s.Differs (local_.get ref) (old.get ref) q) :
    (s.replay old local_ next source pinned id).1.get ref = (s.replayItem old local_ next ref).value := by
  have hroot : ¬ s.Same (old.get ref) (local_.get ref) := fun h => hdiffers [] nil_prefix (Eq.symm h)
  rw [get_replay hroot]
  apply present_of_ne_null
  rcases merge_keeps (n := next.get ref) (hdiffers.mono nil_prefix) with h | h
  · rw [show (s.replayItem old local_ next ref).value = local_.get ref from h]
    exact Snapshot.get_ne_null
  · obtain ⟨v, hv, hnull⟩ := h.there
    intro heq
    rw [show (s.replayItem old local_ next ref).value = some v from hv, Option.some.injEq] at heq
    exact hnull heq

lemma Schema.held_replay {old local_ next : Snapshot} {source : Source} {pinned : Bool}
    (hheld : s.Held (local_.get ref) q) (hdiffers : s.Differs (local_.get ref) (old.get ref) q) :
    s.Held ((s.replay old local_ next source pinned id).1.get ref) q := by
  intro m hm hne
  rw [get_replay_differs hdiffers]
  rcases merge_keeps (n := next.get ref) (hdiffers.mono hm) with h | h
  · rw [show s.getAt (s.replayItem old local_ next ref).value m = _ from h]
    exact hheld m hm hne
  · obtain ⟨v, hv, _⟩ := h.there
    rw [show s.getAt (s.replayItem old local_ next ref).value m = some v from hv]
    nofun

lemma held_update {source : Source} {pinned : Bool} (h : Contests svc w base next ref q)
    (hdiffers : svc.schema.Differs ((svc.schema.replay base w.items next source pinned id).1.get ref) (next.get ref) q) :
    svc.schema.Held ((svc.schema.replay base w.items next source pinned id).1.get ref) q := by
  obtain ⟨m, hmq, hleaf, hc, hunder⟩ := h
  have hroot : ¬ svc.schema.Same (base.get ref) (w.items.get ref) := by
    intro hsame
    -- An item that did not change is the next one.
    apply hdiffers [] nil_prefix
    apply (sameAt_replay []).trans
    rw [replayItem, merge_same _ hsame]
    rfl
  have hvalue := (merge_leaf hleaf).1
  rw [if_neg hc.1] at hvalue
  have hitem : (svc.schema.replayItem base w.items next ref).value ≠ some .null := by
    intro hnull
    by_cases hm : m = []
    · subst hm
      exact Snapshot.get_ne_null (hvalue.symm.trans hnull)
    · obtain ⟨v, hv, hne⟩ := hleaf.merge_inner nil_prefix (Ne.symm hm)
      exact hne (Option.some.inj (hv.symm.trans hnull))
  rw [get_replay hroot, present_of_ne_null hitem]
  intro m' hm' hne
  by_cases hle : m <+: m'
  · -- From where the merge stops on, the merged value is the workspace's.
    obtain ⟨rest, rfl⟩ := hle
    have hsame : svc.schema.getAt (svc.schema.replayItem base w.items next ref).value (m ++ rest) =
        svc.schema.getAt (w.items.get ref) (m ++ rest) := by
      change svc.schema.getFrom _ [] (m ++ rest) = svc.schema.getFrom _ [] (m ++ rest)
      rw [getFrom_append, getFrom_append]
      exact congrArg (fun v => svc.schema.getFrom v ([] ++ m) rest) hvalue
    rw [hsame]
    exact hunder _ (prefix_append _ _) hm' hne
  · have hlt : m' <+: m := ( prefix_or_prefix_of_prefix hm' hmq).resolve_right hle
    obtain ⟨v, hv, _⟩ := hleaf.merge_inner hlt fun heq => hle (heq ▸ prefix_rfl)
    intro hnone
    cases hv.symm.trans hnone

lemma run_update (hinv : RunInv svc w base id contested) {to_ : Int} (h : svc.update to_ next id w base = .write w' entry) :
    RunInv svc w' next (id + (svc.schema.replay base w.items next (Service.publishedSource to_) false id).2.length) fun ref q =>
      (contested ref q ∨ Contests svc w base next ref q) ∧ StillDiffers svc w' next ref q := by
  unfold Service.update at h
  split_ifs at h
  cases h
  set r := svc.schema.replay base w.items next (Service.publishedSource to_) false id with hr
  have hheld : ∀ ref q, (contested ref q ∨ Contests svc w base next ref q) ∧
      svc.schema.Differs (r.1.get ref) (next.get ref) q → svc.schema.Held (r.1.get ref) q := by
    rintro ref q ⟨hq | hq, hdiffers⟩
    · exact held_replay (hinv.held ref q hq) (hinv.differs ref q hq)
    · exact held_update hq hdiffers
  have hfresh : ∀ f ∈ r.2, id ≤ f.id ∧ f.id < id + r.2.length ∧ f.pinned = false := by
    intro f hf
    obtain ⟨vc, _, _, _, hpinned, _, hle, hlt⟩ := mem_numbered hf
    refine ⟨hle, ?_, hpinned⟩
    have hlen : r.2.length = _ := length_map _
    rw [length_zipIdx] at hlen
    omega
  refine ⟨fun c hc => ?_, ?_, fun c hc => ?_, hheld, fun ref q hq => hq.2, fun ref q hq => ?_⟩
  · rcases mem_append.mp hc with hc | hc
    · obtain ⟨p, hp, _, hpinned⟩ := carried_keeps hc
      rw [hpinned]
      exact hinv.unpinned p hp
    · exact (hfresh c (mem_filter.mp hc).1).2.2
  · change ((svc.schema.carry w.conflicts r.2 r.1 next (some (Service.publishedSource to_))).map Conflict.id).Nodup
    rw [carry, map_append]
    refine List.Nodup.append ((carried_ids _ _ _ _ _).nodup hinv.ids) ?_ fun n hn hn' => ?_
    · have hids : (r.2.map Conflict.id).Nodup := by
        rw [hr, replay, numbered_ids]
        exact nodup_range'
      exact (filter_sublist.map _).nodup hids
    · obtain ⟨c, hc, rfl⟩ := mem_map.mp hn
      obtain ⟨f, hf, hid⟩ := mem_map.mp hn'
      obtain ⟨p, hp, hpid, _⟩ := carried_keeps hc
      have := hinv.fresh p hp
      have := (hfresh f (mem_filter.mp hf).1).1
      omega
  · rcases mem_append.mp hc with hc | hc
    · obtain ⟨p, hp, hid, _⟩ := carried_keeps hc
      have := hinv.fresh p hp
      omega
    · exact (hfresh c (mem_filter.mp hc).1).2.1
  · have hheld' := hheld ref q hq
    obtain ⟨hq | hq, hdiffers⟩ := hq
    · obtain ⟨c, hc, rfl, hpath⟩ := hinv.covered ref q hq
      exact carry_covers hc (hinv.unpinned c hc) hpath hheld' hdiffers
    · obtain ⟨m, hmq, hleaf, hcontested, _⟩ := hq
      obtain ⟨hmem, _⟩ := ((merge_leaf hleaf).2 ⟨m, _, _⟩).mpr ⟨rfl, hcontested⟩
      obtain ⟨f, hf, rfl, rfl, _⟩ : ∃ f ∈ r.2, f.ref = ref ∧ f.path = m ∧ _ := exists_replay hmem
      obtain ⟨c, hc, href, hpath⟩ := carry_found hf
      exact ⟨c, hc, href, hpath.trans hmq⟩

lemma run_resolve (hinv : RunInv svc w base id contested) {conflict : Nat} {theirs : Bool} {o : Open}
    (hchosen : svc.schema.chosen w.items base w.conflicts conflict = some o)
    (h : svc.resolve conflict theirs w base = .write w' entry) :
    RunInv svc w' base id fun ref q =>
      contested ref q ∧ ¬ (ref = o.conflict.ref ∧ o.conflict.path <+: q) ∧
        svc.schema.Held (w'.items.get ref) q ∧ StillDiffers svc w' base ref q := by
  have hleft : w'.conflicts = w.conflicts.filter fun d =>
      ¬ (d.id = conflict ∨ d.Within o.conflict ∧ o.conflict.path.length < d.path.length ∧ d.source = o.conflict.source) ∧
        (svc.schema.view w'.items.get base.get d).isSome := by
    simp only [Service.resolve, resolve, hchosen] at h
    split_ifs at h <;> cases h <;> rfl
  have hsub : w'.conflicts.Sublist w.conflicts := by
    rw [hleft]
    exact filter_sublist
  refine ⟨fun c hc => hinv.unpinned c (hsub.subset hc), (hsub.map _).nodup hinv.ids, fun c hc => hinv.fresh c (hsub.subset hc),
    fun ref q hq => hq.2.2.1, fun ref q hq => hq.2.2.2, ?_⟩
  rintro ref q ⟨hq, happart, hheld, hdiffers⟩
  obtain ⟨c, hc, rfl, hpath⟩ := hinv.covered ref q hq
  refine ⟨c, ?_, rfl, hpath⟩
  rw [hleft, mem_filter]
  obtain ⟨o', ho', _⟩ := view_of_differs (hinv.unpinned c hc) hpath hheld hdiffers
  simp only [ho', Option.isSome_some, and_true, decide_eq_true_eq]
  refine ⟨hc, ?_⟩
  rintro (hid | ⟨⟨href, hwithin⟩, _⟩)
  · -- The conflict chosen is this one: IDs are distinct.
    obtain ⟨d, hd, hview⟩ := Option.bind_eq_some_iff.mp hchosen
    obtain ⟨hdmem, hdid⟩ := mem_filter.mp (mem_of_getLast? hd)
    have hdc : d = c := inj_on_of_nodup_map hinv.ids hdmem hc ((of_decide_eq_true hdid).trans hid.symm)
    subst hdc
    obtain ⟨_, _, rfl⟩ := view_eq_some.mp hview
    exact happart ⟨rfl, (viewPath_above _ _ _).trans hpath⟩
  · exact happart ⟨href, hwithin.trans hpath⟩

lemma update_keeps {to_ : Int} (h : svc.update to_ next id w base = .write w' entry)
    (hdiffers : StillDiffers svc w base ref q) :
    svc.schema.getAt (w'.items.get ref) q = svc.schema.getAt (w.items.get ref) q ∨
      svc.schema.Divides (base.get ref) (w.items.get ref) (next.get ref) q := by
  unfold Service.update at h
  split_ifs at h
  cases h
  rw [Service.moveOnto]
  simp only [get_replay_differs hdiffers]
  rcases merge_keeps (n := next.get ref) hdiffers with hkept | hgoes
  · exact .inl hkept
  · exact .inr ⟨hgoes.contested, hgoes.divides⟩

lemma contests_or_divides (hheld : svc.schema.Held (w.items.get ref) q)
    (hlocal : svc.schema.Differs (w.items.get ref) (base.get ref) q) (hnext : svc.schema.Differs (next.get ref) (base.get ref) q)
    (hboth : svc.schema.Differs (next.get ref) (w.items.get ref) q) :
    Contests svc w base next ref q ∨ svc.schema.Divides (base.get ref) (w.items.get ref) (next.get ref) q := by
  rcases merge_stops_or_goes (next.get ref) hlocal with ⟨m, hm, hleaf⟩ | hgoes
  · exact .inl ⟨m, hm, hleaf, ⟨hlocal m hm, hnext m hm, hboth m hm⟩, fun m' _ hm' hne => hheld m' hm' hne⟩
  · exact .inr ⟨hgoes.contested, hgoes.divides⟩

lemma run_inv (h : Run svc w base id contested) : RunInv svc w base id contested := by
  induction h with
  | start hnone => exact ⟨by simp [hnone], by simp [hnone], by simp [hnone], nofun, nofun, nofun⟩
  | edit _ hread h ih => exact run_edit ih hread h
  | update _ h ih => exact run_update ih h
  | resolve _ hchosen h ih => exact run_resolve ih hchosen h

end

end SqlMcpServer.Workspaces
