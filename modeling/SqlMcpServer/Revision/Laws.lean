import SqlMcpServer.Revision

namespace SqlMcpServer.Revisions

open List

def Revision.inState (state : RevState) (r : Revision) : Revision := { r with state }

def Revision.publishedAs (at_ : Int) (r : Revision) : Revision := { r with state := .published, publishedAt := at_ }

def setState (id : Int) (state : RevState) (revs : List Revision) : List Revision :=
  Keyed.update Revision.id id (Revision.inState state) revs

def setPublished (id : Int) (at_ : Int) (revs : List Revision) : List Revision :=
  Keyed.update Revision.id id (Revision.publishedAs at_) revs

namespace MemoryStore

structure WF (m : MemoryStore) : Prop where
  ids : (m.revs.map Revision.id).Nodup
  pos : ∀ r ∈ m.revs, 0 < r.id
  fresh : ∀ r ∈ m.revs, r.id < m.nextID
  next : 0 < m.nextID
  first : m.revs = [] → m.nextID = 1
  one : ∀ r ∈ m.revs, ∀ r' ∈ m.revs, r.state = .published → r'.state = .published → r = r'
  seq : 0 ≤ m.seq

def Fits (op : Op) : Prop := ∀ revs, op = .importHistory revs → ∀ r ∈ revs, r.id < 4611686018427387904

structure Becomes (r r' : Revision) : Prop where
  id : r'.id = r.id
  parentID : r'.parentID = r.parentID
  contentHash : r'.contentHash = r.contentHash
  payload : r'.payload = r.payload
  state : r.state.CanBecome r'.state

lemma Becomes.refl (r : Revision) : Becomes r r := ⟨rfl, rfl, rfl, rfl, .inl rfl⟩

structure Grows (m m' : MemoryStore) : Prop where
  wf : m'.WF
  kept : ∀ r ∈ m.revs, ∃ r' ∈ m'.revs, Becomes r r'
  added : ∀ r' ∈ m'.revs, (∃ r ∈ m.revs, Becomes r r') ∨ m.nextID ≤ r'.id
  seq : m'.seq = m.seq + 1

lemma wf_empty : empty.WF := by
  constructor <;> simp [empty]

section
variable {m : MemoryStore} {id : Int} {r current : Revision}

lemma get?_mem (h : m.get? id = some r) : r ∈ m.revs ∧ r.id = id := Keyed.mem_of_find h

lemma published?_mem (h : m.published? = some r) : r ∈ m.revs ∧ r.state = .published :=
  ⟨mem_of_find?_eq_some h, by simpa using find?_some h⟩

variable {expected : Int}

lemma checkCurrent_ok (hwf : m.WF) (h : m.checkCurrent expected = .ok current) :
    current.id = expected ∧
      (expected ≠ 0 ∧ m.published? = some current ∧ current ∈ m.revs ∧ current.state = .published ∨
        expected = 0 ∧ m.published? = none) := by
  simp only [checkCurrent] at h
  split_ifs at h with hid
  cases h
  rw [not_not] at hid
  refine ⟨hid, ?_⟩
  cases hp : m.published? with
  | none =>
    rw [hp] at hid
    exact .inr ⟨hid.symm, rfl⟩
  | some r =>
    obtain ⟨hmem, hstate⟩ := published?_mem hp
    rw [hp] at hid
    have := hwf.pos r hmem
    exact .inl ⟨by simp only [Option.getD_some] at hid; omega, rfl, hmem, hstate⟩

lemma current_mem (hwf : m.WF) (hc : m.checkCurrent expected = .ok current) (hne : current.id ≠ 0) :
    current ∈ m.revs ∧ current.state = .published := by
  obtain ⟨hid, ⟨_, _, hmem⟩ | ⟨hzero, _⟩⟩ := checkCurrent_ok hwf hc
  · exact hmem
  · exact absurd (hid.trans hzero) hne

lemma update_wf (id : Int) (hwf : m.WF) (f : Revision → Revision) (hf : ∀ r, (f r).id = r.id) :
    ((Keyed.update Revision.id id f m.revs).map Revision.id).Nodup ∧
      ∀ r ∈ Keyed.update Revision.id id f m.revs, 0 < r.id ∧ r.id < m.nextID := by
  refine ⟨?_, fun r' hr' => ?_⟩
  · rw [Keyed.map_key_update fun r h => by rw [hf, h]]
    exact hwf.ids
  · obtain ⟨r, hr, rfl⟩ := Keyed.mem_update.mp hr'
    have hid : (if r.id = id then f r else r).id = r.id := by split_ifs <;> simp [hf]
    rw [hid]
    exact ⟨hwf.pos r hr, hwf.fresh r hr⟩

lemma grows_of (hwf : m.WF) {m' : MemoryStore} {g : Revision → Revision} {extra : List Revision}
    (hg : ∀ r ∈ m.revs, Becomes r (g r)) (hrevs : m'.revs = m.revs.map g ++ extra)
    (hextra : extra = [] ∧ m'.nextID = m.nextID ∨ (∃ r, extra = [r] ∧ r.id = m.nextID) ∧ m'.nextID = m.nextID + 1)
    (hseq : m'.seq = m.seq + 1)
    (hone : ∀ r ∈ m'.revs, ∀ r' ∈ m'.revs, r.state = .published → r'.state = .published → r.id = r'.id) :
    Grows m m' := by
  have hids : (m.revs.map g).map Revision.id = m.revs.map Revision.id := by
    rw [map_map]
    exact map_congr_left fun r hr => (hg r hr).id
  have hmem : ∀ r' ∈ m'.revs, (∃ r ∈ m.revs, r' = g r) ∨ r'.id = m.nextID ∧ m'.nextID = m.nextID + 1 := by
    intro r' hr'
    rw [hrevs] at hr'
    rcases mem_append.mp hr' with hr' | hr'
    · obtain ⟨r, hr, rfl⟩ := mem_map.mp hr'
      exact .inl ⟨r, hr, rfl⟩
    · rcases hextra with ⟨rfl, _⟩ | ⟨⟨x, rfl, hx⟩, hnext⟩
      · simp at hr'
      · rw [mem_singleton] at hr'
        exact .inr ⟨hr' ▸ hx, hnext⟩
  have hnext : m.nextID ≤ m'.nextID := by omega
  have hnodup : (m'.revs.map Revision.id).Nodup := by
    rw [hrevs, map_append, hids]
    rcases hextra with ⟨rfl, _⟩ | ⟨⟨x, rfl, hx⟩, _⟩
    · simpa using hwf.ids
    · rw [map_singleton, nodup_append]
      refine ⟨hwf.ids, nodup_singleton _, fun a ha b hb => ?_⟩
      obtain ⟨r, hr, rfl⟩ := mem_map.mp ha
      rw [mem_singleton] at hb
      have := hwf.fresh r hr
      omega
  refine ⟨⟨hnodup, fun r' hr' => ?_, fun r' hr' => ?_, ?_, fun hnil => ?_, fun r hr r' hr' hp hp' => ?_, ?_⟩,
    fun r hr => ?_, fun r' hr' => ?_, hseq⟩
  · rcases hmem r' hr' with ⟨r, hr, rfl⟩ | ⟨hid, _⟩
    · rw [(hg r hr).id]
      exact hwf.pos r hr
    · rw [hid]
      exact hwf.next
  · rcases hmem r' hr' with ⟨r, hr, rfl⟩ | ⟨hid, hnext'⟩
    · have := hwf.fresh r hr
      have := (hg r hr).id
      omega
    · omega
  · have := hwf.next
    omega
  · rw [hrevs, append_eq_nil_iff, map_eq_nil_iff] at hnil
    rcases hextra with ⟨_, hsame⟩ | ⟨⟨x, rfl, _⟩, _⟩
    · rw [hsame, hwf.first hnil.1]
    · cases hnil.2
  · exact Keyed.eq_of_key hnodup hr hr' (hone r hr r' hr' hp hp')
  · have := hwf.seq
    omega
  · exact ⟨g r, hrevs ▸ mem_append_left _ (mem_map_of_mem hr), hg r hr⟩
  · rcases hmem r' hr' with ⟨r, hr, rfl⟩ | ⟨hid, _⟩
    · exact .inl ⟨r, hr, hg r hr⟩
    · exact .inr (by omega)

lemma nextID_fresh (hwf : m.WF) : m.nextID ∉ m.revs.map Revision.id := by
  intro hmem
  obtain ⟨r, hr, heq⟩ := mem_map.mp hmem
  have := hwf.fresh r hr
  omega

lemma create_eq (hash : Payload → String) (now : Int) (d : Draft) (hwf : m.WF) : m.create hash now d =
      (.ok (newDraft hash m.nextID d now), ⟨m.revs ++ [newDraft hash m.nextID d now], m.nextID + 1, m.seq + 1⟩) := by
  have hset : Keyed.set Revision.id (newDraft hash m.nextID d now) m.revs = m.revs ++ [newDraft hash m.nextID d now] :=
    Keyed.set_eq_append (nextID_fresh hwf)
  simp only [create, MemoryStore.set, hset]

def supersede (id : Int) (revs : List Revision) : List Revision := if id ≠ 0 then setState id .superseded revs else revs

lemma map_id_supersede (id : Int) (revs : List Revision) : (supersede id revs).map Revision.id = revs.map Revision.id := by
  rw [supersede]
  split_ifs
  · exact Keyed.map_key_update fun _ h => h
  · rfl

variable {target : Revision}

lemma publish_eq (hwf : m.WF) (ht : m.get? id = some target)
    (hdraft : target.state = .draft) (hc : m.checkCurrent expected = .ok current) (now : Int) :
    m.publish now id expected = (.ok (target.publishedAs (timestamp now)),
      ⟨setPublished id (timestamp now) (supersede current.id m.revs), m.nextID, m.seq + 1⟩) := by
  obtain ⟨hmem, rfl⟩ := get?_mem ht
  simp only [publish, ht, hdraft, ne_eq, not_true_eq_false, if_false, hc]
  by_cases hne : current.id = 0
  · have hset := Keyed.set_eq_update (Revision.publishedAs (timestamp now)) hwf.ids hmem rfl
    rw [supersede, if_neg (not_not.mpr hne), if_neg (not_not.mpr hne), setPublished, ← hset]
    simp only [MemoryStore.set]
    rfl
  · obtain ⟨hcmem, hcstate⟩ := current_mem hwf hc hne
    have hother : target.id ≠ current.id := by
      intro heq
      rw [Keyed.eq_of_key hwf.ids hmem hcmem heq, hcstate] at hdraft
      cases hdraft
    have hset : m.set (current.inState .superseded) = { m with revs := setState current.id .superseded m.revs } := by
      rw [MemoryStore.set, Keyed.set_eq_update (Revision.inState .superseded) hwf.ids hcmem rfl, setState]
    have hnodup := (update_wf current.id hwf (Revision.inState .superseded) (fun _ => rfl)).1
    have hstill : target ∈ setState current.id .superseded m.revs :=
      Keyed.mem_update.mpr ⟨target, hmem, by rw [if_neg hother]⟩
    have hset' : Keyed.set Revision.id (target.publishedAs (timestamp now)) (setState current.id .superseded m.revs) =
        setPublished target.id (timestamp now) (setState current.id .superseded m.revs) :=
      Keyed.set_eq_update (Revision.publishedAs (timestamp now)) hnodup hstill rfl
    rw [Revision.inState] at hset
    rw [supersede, if_pos hne, if_pos hne, hset]
    simp only [MemoryStore.set]
    rw [← hset']
    rfl

lemma discard_eq (hwf : m.WF) (ht : m.get? id = some target)
    (hdraft : target.state = .draft) :
    m.discard id = (.ok (target.inState .discarded), ⟨setState id .discarded m.revs, m.nextID, m.seq + 1⟩) := by
  obtain ⟨hmem, rfl⟩ := get?_mem ht
  have hset := Keyed.set_eq_update (Revision.inState .discarded) hwf.ids hmem rfl
  simp only [discard, ht, hdraft, ne_eq, not_true_eq_false, if_false]
  rw [setState, ← hset]
  simp only [MemoryStore.set]
  rfl

lemma rollback_eq (hwf : m.WF) {target : Int}
    (hne : expected ≠ 0) (hc : m.checkCurrent expected = .ok current) {source : Revision}
    (hs : rollbackTarget m.revs current target = .ok source) (now : Int) (who : Meta) :
    m.rollback now expected target who = (.ok (rolledBackTo m.nextID source now who),
      ⟨setState current.id .rolledBack m.revs ++ [rolledBackTo m.nextID source now who], m.nextID + 1, m.seq + 1⟩) := by
  have hcmem := (current_mem hwf hc ((checkCurrent_ok hwf hc).1 ▸ hne)).1
  have hset : m.set (current.inState .rolledBack) = { m with revs := setState current.id .rolledBack m.revs } := by
    rw [MemoryStore.set, Keyed.set_eq_update (Revision.inState .rolledBack) hwf.ids hcmem rfl, setState]
  have hfresh : m.nextID ∉ (setState current.id .rolledBack m.revs).map Revision.id := by
    have hkeys : (setState current.id .rolledBack m.revs).map Revision.id = m.revs.map Revision.id :=
      Keyed.map_key_update fun _ h => h
    rw [hkeys]
    exact nextID_fresh hwf
  have hset' : Keyed.set Revision.id (rolledBackTo m.nextID source now who) (setState current.id .rolledBack m.revs) =
      setState current.id .rolledBack m.revs ++ [rolledBackTo m.nextID source now who] := Keyed.set_eq_append hfresh
  rw [Revision.inState] at hset
  simp only [rollback, hne, if_false, hc, hs, hset]
  simp only [MemoryStore.set, hset']

variable {hash : Payload → String} {revs : List Revision}

lemma validateFrom_ok {seen : List Int} {n k : Nat}
    (h : validateFrom hash revs seen n = .ok k) :
    (revs.map Revision.id).Nodup ∧ (∀ r ∈ revs, 0 < r.id ∧ r.id ∉ seen) ∧
      k = n + revs.countP fun r => r.state = .published := by
  induction revs generalizing seen n with
  | nil =>
    cases h
    simp
  | cons r rest ih =>
    rw [validateFrom] at h
    by_cases hid : r.id ≤ 0 ∨ r.id ∈ seen
    · rw [if_pos hid] at h
      cases h
    rw [if_neg hid] at h
    by_cases hvalid : (!r.state.isValid) = true
    · rw [if_pos hvalid] at h
      cases h
    rw [if_neg hvalid] at h
    cases hv : r.verify hash with
    | error e =>
      rw [hv] at h
      cases h
    | ok u =>
      rw [hv] at h
      obtain ⟨hnodup, hpos, hk⟩ := ih h
      rw [not_or] at hid
      refine ⟨?_, fun x hx => ?_, ?_⟩
      · rw [map_cons, nodup_cons]
        refine ⟨fun hmem => ?_, hnodup⟩
        obtain ⟨x, hx, heq⟩ := mem_map.mp hmem
        exact (hpos x hx).2 (by rw [heq]; exact mem_cons_self)
      · rcases mem_cons.mp hx with rfl | hx
        · exact ⟨by omega, hid.2⟩
        · exact ⟨(hpos x hx).1, fun hmem => (hpos x hx).2 (mem_cons_of_mem _ hmem)⟩
      · rw [hk, countP_cons]
        split_ifs with hp hp' hp' <;> simp_all
        omega

lemma validateHistory_ok (h : validateHistory hash revs = .ok ()) :
    (revs.map Revision.id).Nodup ∧ (∀ r ∈ revs, 0 < r.id) ∧ (revs.countP fun r => r.state = .published) ≤ 1 := by
  obtain ⟨k, hk, h⟩ := Except.bind_eq_ok.mp h
  rw [Except.refuseIf_eq_ok] at h
  obtain ⟨hnodup, hpos, hcount⟩ := validateFrom_ok hk
  exact ⟨hnodup, fun r hr => (hpos r hr).1, by omega⟩

def nextAfter (n : Int) (revs : List Revision) : Int := revs.foldl (fun n r => max n (r.id + 1)) n

lemma foldl_importOne (hnodup : ((m.revs ++ revs).map Revision.id).Nodup)
    (hids : ∀ r ∈ revs, 0 < r.id ∧ r.id < 4611686018427387904) :
    revs.foldl importOne m = ⟨m.revs ++ revs, nextAfter m.nextID revs, m.seq⟩ := by
  induction revs generalizing m with
  | nil => simp [nextAfter]
  | cons r rest ih =>
    obtain ⟨hpos, hlt⟩ := hids r (by simp)
    have hfresh : r.id ∉ m.revs.map Revision.id := by
      rw [map_append, nodup_append] at hnodup
      intro hmem
      exact hnodup.2.2 r.id hmem r.id (by simp) rfl
    have hone : importOne m r = ⟨m.revs ++ [r], max m.nextID (r.id + 1), m.seq⟩ := by
      have hnext : int64 (r.id + 1) = r.id + 1 := int64_id (by omega) (by unfold maxInt64; omega)
      simp only [importOne, MemoryStore.set, Keyed.set_eq_append hfresh, hnext]
      congr 1
      split_ifs <;> omega
    rw [foldl_cons, hone, ih]
    · simp [nextAfter]
    · simpa using hnodup
    · exact fun x hx => hids x (mem_cons_of_mem _ hx)

lemma le_nextAfter (n : Int) (revs : List Revision) : n ≤ nextAfter n revs ∧ ∀ r ∈ revs, r.id < nextAfter n revs := by
  induction revs generalizing n with
  | nil => simp [nextAfter]
  | cons r rest ih =>
    obtain ⟨hle, hall⟩ := ih (max n (r.id + 1))
    have hfold : nextAfter n (r :: rest) = nextAfter (max n (r.id + 1)) rest := rfl
    rw [hfold]
    refine ⟨by omega, fun x hx => ?_⟩
    rcases mem_cons.mp hx with rfl | hx
    · omega
    · exact hall x hx

lemma importHistory_eq (hwf : m.WF)
    (hids : ∀ r ∈ revs, r.id < 4611686018427387904) (hvalid : validateHistory hash revs = .ok ()) (hnil : m.revs = []) :
    m.importHistory hash revs = (.ok (), ⟨revs, nextAfter 1 revs, m.seq + 1⟩) := by
  obtain ⟨hnodup, hpos, _⟩ := validateHistory_ok hvalid
  have hfold : revs.foldl importOne m = ⟨m.revs ++ revs, nextAfter m.nextID revs, m.seq⟩ :=
    foldl_importOne (by simpa [hnil] using hnodup) fun r hr => ⟨hpos r hr, hids r hr⟩
  simp only [importHistory, hvalid, hnil, ne_eq, not_true_eq_false, if_false, hfold, nil_append, hwf.first hnil]

lemma Becomes.inState {state : RevState} (h : r.state.CanBecome state) : Becomes r (r.inState state) :=
  ⟨rfl, rfl, rfl, rfl, h⟩

lemma create_grows (hash : Payload → String) (now : Int) (d : Draft) (hwf : m.WF) :
    Grows m ⟨m.revs ++ [newDraft hash m.nextID d now], m.nextID + 1, m.seq + 1⟩ := by
  refine grows_of hwf (fun r _ => Becomes.refl r) (by rw [map_id']) (.inr ⟨⟨_, rfl, rfl⟩, rfl⟩) rfl
    fun r hr r' hr' hp hp' => ?_
  -- The draft that was added is not published.
  have hold : ∀ x ∈ m.revs ++ [newDraft hash m.nextID d now], x.state = .published → x ∈ m.revs := by
    intro x hx hstate
    rcases mem_append.mp hx with hx | hx
    · exact hx
    · rw [mem_singleton.mp hx] at hstate
      cases hstate
  rw [hwf.one r (hold r hr hp) r' (hold r' hr' hp') hp hp']

lemma discard_grows (hwf : m.WF) (ht : m.get? id = some target) (hdraft : target.state = .draft) :
    Grows m ⟨setState id .discarded m.revs, m.nextID, m.seq + 1⟩ := by
  obtain ⟨hmem, rfl⟩ := get?_mem ht
  refine grows_of hwf (g := fun r => if r.id = target.id then r.inState .discarded else r) (fun r hr => ?_)
    (append_nil _).symm (.inl ⟨rfl, rfl⟩) rfl fun r hr r' hr' hp hp' => ?_
  · split_ifs with hid
    · rw [Keyed.eq_of_key hwf.ids hr hmem hid]
      exact .inState (.inr (.inl ⟨hdraft, .inr rfl⟩))
    · exact .refl r
  · have hold : ∀ x ∈ setState target.id .discarded m.revs, x.state = .published → x ∈ m.revs := by
      intro x hx hstate
      obtain ⟨y, hy, rfl⟩ := Keyed.mem_update.mp hx
      split_ifs at hstate ⊢
      · cases hstate
      · exact hy
    rw [hwf.one r (hold r hr hp) r' (hold r' hr' hp') hp hp']

lemma none_published (hwf : m.WF) (hc : m.checkCurrent expected = .ok current) {state : RevState}
    (hstate : state ≠ .published) (hne : current.id ≠ 0) : ∀ x ∈ setState current.id state m.revs, x.state ≠ .published := by
  obtain ⟨hcmem, hcstate⟩ := current_mem hwf hc hne
  intro x hx hp
  obtain ⟨y, hy, rfl⟩ := Keyed.mem_update.mp hx
  split_ifs at hp with heq
  · exact hstate hp
  · exact heq (by rw [hwf.one y hy current hcmem hp hcstate])

lemma none_published_supersede (hwf : m.WF) (hc : m.checkCurrent expected = .ok current) :
    ∀ x ∈ supersede current.id m.revs, x.state ≠ .published := by
  by_cases hne : current.id ≠ 0
  · rw [supersede, if_pos hne]
    exact none_published hwf hc nofun hne
  · rw [supersede, if_neg hne]
    obtain ⟨hid, ⟨hne', _⟩ | ⟨_, hnone⟩⟩ := checkCurrent_ok hwf hc
    · rw [hid] at hne
      exact absurd hne' hne
    · intro x hx
      simpa using find?_eq_none.mp hnone x hx

lemma publish_grows (hwf : m.WF) (ht : m.get? id = some target) (hdraft : target.state = .draft)
    (hc : m.checkCurrent expected = .ok current) (at_ : Int) :
    Grows m ⟨setPublished id at_ (supersede current.id m.revs), m.nextID, m.seq + 1⟩ := by
  obtain ⟨hmem, rfl⟩ := get?_mem ht
  let give : Revision → Revision := fun r => if current.id ≠ 0 ∧ r.id = current.id then r.inState .superseded else r
  have hgive : supersede current.id m.revs = m.revs.map give := by
    by_cases hne : current.id ≠ 0
    · simp [supersede, setState, Keyed.update, give, hne]
    · simp only [supersede, give, hne, if_false, false_and, map_id']
  have hbecomes : ∀ r ∈ m.revs, Becomes r (if r.id = target.id then (give r).publishedAs at_ else give r) := by
    intro r hr
    by_cases hid : r.id = target.id
    · -- The draft is not the revision that gives way.
      have htarget := Keyed.eq_of_key hwf.ids hr hmem hid
      have hsame : give r = r := by
        refine if_neg ?_
        rintro ⟨hne, hcur⟩
        obtain ⟨hcmem, hcstate⟩ := current_mem hwf hc hne
        rw [htarget] at hcur
        rw [Keyed.eq_of_key hwf.ids hmem hcmem hcur, hcstate] at hdraft
        cases hdraft
      rw [if_pos hid, hsame]
      exact ⟨rfl, rfl, rfl, rfl, .inr (.inl ⟨by rw [htarget, hdraft], .inl rfl⟩)⟩
    · rw [if_neg hid]
      simp only [give]
      split_ifs with hcur
      · obtain ⟨hcmem, hcstate⟩ := current_mem hwf hc hcur.1
        refine .inState (.inr (.inr ⟨?_, .inl rfl⟩))
        rw [Keyed.eq_of_key hwf.ids hr hcmem hcur.2, hcstate]
      · exact .refl r
  have hidgive : ∀ r, (give r).id = r.id := by
    intro r
    simp only [give]
    split_ifs <;> rfl
  refine grows_of hwf hbecomes ?_ (.inl ⟨rfl, rfl⟩) rfl fun r hr r' hr' hp hp' => ?_
  · simp only [append_nil, hgive, setPublished, Keyed.update, map_map]
    refine map_congr_left fun r _ => ?_
    simp only [Function.comp_apply, hidgive]
  · have honly : ∀ x ∈ setPublished target.id at_ (supersede current.id m.revs), x.state = .published → x.id = target.id := by
      intro x hx hstate
      obtain ⟨y, hy, rfl⟩ := Keyed.mem_update.mp hx
      split_ifs at hstate ⊢ with hid
      · exact hid
      · exact absurd hstate (none_published_supersede hwf hc y hy)
    rw [honly r hr hp, honly r' hr' hp']

lemma rollback_grows (hwf : m.WF) (hne : expected ≠ 0) (hc : m.checkCurrent expected = .ok current)
    (source : Revision) (now : Int) (who : Meta) :
    Grows m ⟨setState current.id .rolledBack m.revs ++ [rolledBackTo m.nextID source now who], m.nextID + 1, m.seq + 1⟩ := by
  have hcur : current.id ≠ 0 := (checkCurrent_ok hwf hc).1 ▸ hne
  obtain ⟨hcmem, hcstate⟩ := current_mem hwf hc hcur
  refine grows_of hwf (g := fun r => if r.id = current.id then r.inState .rolledBack else r) (fun r hr => ?_) rfl
    (.inr ⟨⟨_, rfl, rfl⟩, rfl⟩) rfl fun r hr r' hr' hp hp' => ?_
  · split_ifs with hid
    · refine .inState (.inr (.inr ⟨?_, .inr rfl⟩))
      rw [Keyed.eq_of_key hwf.ids hr hcmem hid, hcstate]
    · exact .refl r
  · have honly : ∀ x ∈ setState current.id .rolledBack m.revs ++ [rolledBackTo m.nextID source now who],
        x.state = .published → x.id = m.nextID := by
      intro x hx hstate
      rcases mem_append.mp hx with hx | hx
      · exact absurd hstate (none_published hwf hc (by simp) hcur x hx)
      · rw [mem_singleton.mp hx]
        rfl
    rw [honly r hr hp, honly r' hr' hp']

lemma importHistory_grows (hwf : m.WF)
    (hvalid : validateHistory hash revs = .ok ()) (hnil : m.revs = []) : Grows m ⟨revs, nextAfter 1 revs, m.seq + 1⟩ := by
  obtain ⟨hnodup, hpos, hcount⟩ := validateHistory_ok hvalid
  obtain ⟨hle, hlt⟩ := le_nextAfter 1 revs
  refine ⟨⟨hnodup, hpos, hlt, by simp only; omega, fun h => ?_, fun r hr r' hr' hp hp' => ?_, ?_⟩, by simp [hnil],
    fun r hr => .inr ?_, rfl⟩
  · subst h
    rfl
  · have hfilter : (revs.filter fun r => r.state = .published).length ≤ 1 := by rwa [← countP_eq_length_filter]
    have hmem : r ∈ revs.filter fun r => r.state = .published := mem_filter.mpr ⟨hr, by simpa using hp⟩
    have hmem' : r' ∈ revs.filter fun r => r.state = .published := mem_filter.mpr ⟨hr', by simpa using hp'⟩
    obtain ⟨x, hx⟩ := length_eq_one_iff.mp (Nat.le_antisymm hfilter (length_pos_of_mem hmem))
    rw [hx, mem_singleton] at hmem hmem'
    rw [hmem, hmem']
  · have := hwf.seq
    simp only
    omega
  · have := hpos r hr
    rw [hwf.first hnil]
    omega

/-- An operation fails and leaves the store as it is, or it succeeds and lets it grow. -/
theorem apply_sound (hash : Payload → String) (now : Int) (op : Op) (hwf : m.WF) (hfits : Fits op) :
    (∃ e, m.apply hash now op = (.error e, m)) ∨
      (∃ a, (m.apply hash now op).1 = .ok a) ∧ Grows m (m.apply hash now op).2 := by
  cases op with
  | create d =>
    simp only [apply, create_eq hash now d hwf]
    exact .inr ⟨⟨_, rfl⟩, create_grows hash now d hwf⟩
  | publish id expected =>
    cases ht : m.get? id with
    | none => exact .inl ⟨_, by simp [apply, publish, ht]; rfl⟩
    | some target =>
      by_cases hdraft : target.state = .draft
      · cases hc : m.checkCurrent expected with
        | error e => exact .inl ⟨e, by simp [apply, publish, ht, hdraft, hc]; rfl⟩
        | ok current =>
          simp only [apply, publish_eq hwf ht hdraft hc]
          exact .inr ⟨⟨_, rfl⟩, publish_grows hwf ht hdraft hc _⟩
      · exact .inl ⟨_, by simp [apply, publish, ht, hdraft]; rfl⟩
  | discard id =>
    cases ht : m.get? id with
    | none => exact .inl ⟨_, by simp [apply, discard, ht]; rfl⟩
    | some target =>
      by_cases hdraft : target.state = .draft
      · simp only [apply, discard_eq hwf ht hdraft]
        exact .inr ⟨⟨_, rfl⟩, discard_grows hwf ht hdraft⟩
      · exact .inl ⟨_, by simp [apply, discard, ht, hdraft]; rfl⟩
  | rollback expected target who =>
    by_cases hne : expected = 0
    · exact .inl ⟨_, by simp [apply, rollback, hne]; rfl⟩
    · cases hc : m.checkCurrent expected with
      | error e => exact .inl ⟨e, by simp [apply, rollback, hne, hc]; rfl⟩
      | ok current =>
        cases hs : rollbackTarget m.revs current target with
        | error e => exact .inl ⟨e, by simp [apply, rollback, hne, hc, hs]; rfl⟩
        | ok source =>
          simp only [apply, rollback_eq hwf hne hc hs]
          exact .inr ⟨⟨_, rfl⟩, rollback_grows hwf hne hc source now who⟩
  | importHistory revs =>
    cases hvalid : validateHistory hash revs with
    | error e => exact .inl ⟨e, by simp [apply, importHistory, hvalid]; rfl⟩
    | ok u =>
      by_cases hnil : m.revs = []
      · simp only [apply, importHistory_eq hwf (hfits revs rfl) hvalid hnil]
        exact .inr ⟨⟨_, rfl⟩, importHistory_grows hwf hvalid hnil⟩
      · exact .inl ⟨_, by simp [apply, importHistory, hvalid, hnil]; rfl⟩

end

end MemoryStore

end SqlMcpServer.Revisions
