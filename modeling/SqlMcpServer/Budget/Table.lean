import SqlMcpServer.Budget

/-!
# The table and its idle lists

The holders are what the table and the global idle list say of each principal, and the idle list
holds the states that are listed.
-/

namespace SqlMcpServer.Budget

open List
open Function (update update_of_ne update_self)
open GoInt (int64)

namespace Manager

def table (m : Manager) : Scope → Option State := fun scope => m.sessions.lookup scope

def states (m : Manager) (p : Principal) : Nat := m.sessions.keys.countP fun scope => scope.principal = p

def share (m : Manager) (p : Principal) : Option Holder :=
  if m.states p = 0 then none else some ⟨m.states p, m.idle.filter fun scope => scope.principal = p⟩

structure Shaped (m : Manager) : Prop where
  nodup : m.idle.Nodup
  idle : ∀ scope, scope ∈ m.idle ↔ ∃ st, m.table scope = some st ∧ st.listed = true
  holders : ∀ p, m.holders.lookup p = m.share p
  size : m.sessions.keys.length ≤ m.maxStates

structure SameSettings (m m' : Manager) : Prop where
  roles : m'.roles = m.roles
  tenants : m'.tenants = m.tenants
  inflight : m'.inflight = m.inflight
  ttl : m'.ttl = m.ttl
  maxStates : m'.maxStates = m.maxStates

lemma SameSettings.refl (m : Manager) : m.SameSettings m := ⟨rfl, rfl, rfl, rfl, rfl⟩

variable {m : Manager}

lemma SameSettings.trans {m' m'' : Manager} (h : m.SameSettings m') (h' : m'.SameSettings m'') :
    m.SameSettings m'' :=
  ⟨h'.roles.trans h.roles, h'.tenants.trans h.tenants, h'.inflight.trans h.inflight, h'.ttl.trans h.ttl,
    h'.maxStates.trans h.maxStates⟩

lemma SameSettings.limits {m' : Manager} (h : m.SameSettings m') (scope : Scope) : m'.limits scope = m.limits scope := by
  rw [Manager.limits, Manager.limits, h.roles, h.tenants]

variable {scope : Scope} {st : State}

lemma mem_keys (h : m.table scope = some st) : scope ∈ m.sessions.keys := by
  rw [← AList.mem_keys, ← AList.lookup_isSome]
  rw [table] at h
  simp [h]

lemma states_pos (h : m.table scope = some st) : 0 < m.states scope.principal := by
  rw [states, countP_pos_iff]
  exact ⟨scope, mem_keys h, by simp⟩

lemma notMem_keys (h : m.table scope = none) : scope ∉ m.sessions.keys := by
  rw [← AList.mem_keys, ← AList.lookup_eq_none]
  exact h

lemma table_insert (sessions : AList fun _ : Scope => State) (scope : Scope) (st : State) :
    (fun s => (sessions.insert scope st).lookup s) = update (fun s => sessions.lookup s) scope (some st) := by
  funext s
  by_cases hs : s = scope
  · subst hs
    rw [AList.lookup_insert, update_self]
  · rw [AList.lookup_insert_ne hs, update_of_ne hs]

lemma table_erase (sessions : AList fun _ : Scope => State) (scope : Scope) :
    (fun s => (sessions.erase scope).lookup s) = update (fun s => sessions.lookup s) scope none := by
  funext s
  by_cases hs : s = scope
  · subst hs
    rw [AList.lookup_erase, update_self]
  · rw [AList.lookup_erase_ne hs, update_of_ne hs]

lemma keys_insert_perm (h : m.table scope = some st) (st' : State) :
    (m.sessions.insert scope st').keys.Perm m.sessions.keys := by
  rw [AList.keys_insert]
  exact (perm_cons_erase (mem_keys h)).symm

lemma keys_insert_new (h : m.table scope = none) (st : State) :
    (m.sessions.insert scope st).keys = scope :: m.sessions.keys := by
  rw [AList.keys_insert, erase_of_not_mem (notMem_keys h)]

lemma table_store (m : Manager) (scope : Scope) (st : State) :
    (m.store scope st).table = update m.table scope (some st) := table_insert m.sessions scope st

lemma states_store (h : m.table scope = some st) (st' : State) (p : Principal) :
    (m.store scope st').states p = m.states p := (keys_insert_perm h st').countP_eq _

lemma sameSettings_store (m : Manager) (scope : Scope) (st : State) : m.SameSettings (m.store scope st) :=
  ⟨rfl, rfl, rfl, rfl, rfl⟩

lemma Shaped.store (hm : m.Shaped) {st' : State} (h : m.table scope = some st)
    (hlisted : st'.listed = st.listed) : (m.store scope st').Shaped where
  nodup := hm.nodup
  idle := by
    intro s
    rw [table_store]
    show s ∈ m.idle ↔ _
    rw [hm.idle s]
    by_cases hs : s = scope
    · subst hs
      simp [h, hlisted]
    · rw [update_of_ne hs]
  holders := by
    intro p
    show m.holders.lookup p = _
    rw [hm.holders p, share, share, states_store h]
    rfl
  size := by
    show (m.sessions.insert scope st').keys.length ≤ _
    rw [(keys_insert_perm h st').length_eq]
    exact hm.size

lemma Shaped.holder (hm : m.Shaped) (h : m.table scope = some st) :
    m.holders.lookup scope.principal =
      some ⟨m.states scope.principal, m.idle.filter fun s => s.principal = scope.principal⟩ := by
  rw [hm.holders, share, if_neg (states_pos h).ne']

lemma lookup_holders_insert (holders : AList fun _ : Principal => Holder) (p q : Principal) (h : Holder) :
    (holders.insert p h).lookup q = if q = p then some h else holders.lookup q := by
  split_ifs with hq
  · rw [hq, AList.lookup_insert]
  · rw [AList.lookup_insert_ne hq]

/-- The global list changed to `idle`, and the list of a scope's principal with it. -/
def relist (m : Manager) (scope : Scope) (st : State) (idle : List Scope) : Manager :=
  { m.store scope st with
    idle := idle
    holders := m.holders.insert scope.principal
      ⟨m.states scope.principal, idle.filter fun s => s.principal = scope.principal⟩ }

lemma Shaped.relist (hm : m.Shaped) {st' : State} {idle : List Scope}
    (h : m.table scope = some st) (hnodup : idle.Nodup) (hself : scope ∈ idle ↔ st'.listed = true)
    (hmem : ∀ s, s ≠ scope → (s ∈ idle ↔ s ∈ m.idle))
    (hfilter : ∀ p, p ≠ scope.principal →
      idle.filter (fun s => s.principal = p) = m.idle.filter fun s => s.principal = p) :
    (m.relist scope st' idle).Shaped where
  nodup := hnodup
  idle := by
    intro s
    show s ∈ idle ↔ ∃ st'', (m.store scope st').table s = some st'' ∧ st''.listed = true
    rw [table_store]
    by_cases hs : s = scope
    · subst hs
      simp [hself]
    · rw [update_of_ne hs, hmem s hs, hm.idle s]
  holders := by
    intro p
    show (m.holders.insert scope.principal _).lookup p =
      if (m.store scope st').states p = 0 then none
      else some ⟨(m.store scope st').states p, idle.filter fun s => s.principal = p⟩
    rw [lookup_holders_insert, states_store h]
    split_ifs with hp hzero hzero
    · -- The state itself is the principal's.
      have hholder := hm.holder h
      rw [hp] at hzero
      rw [hm.holders, share, if_pos hzero] at hholder
      cases hholder
    · rw [hp]
    · rw [hm.holders, share, if_pos hzero]
    · rw [hm.holders, share, if_neg hzero, hfilter p hp]
  size := by
    show (m.sessions.insert scope st').keys.length ≤ m.maxStates
    rw [(keys_insert_perm h st').length_eq]
    exact hm.size

lemma Shaped.notMem_idle (hm : m.Shaped) (h : m.table scope = some st)
    (hlisted : st.listed = false) : scope ∉ m.idle := by
  rw [hm.idle]
  rintro ⟨st', hst', hl⟩
  rw [h, Option.some.injEq] at hst'
  rw [← hst', hlisted] at hl
  cases hl

lemma idleLocked_spec (hm : m.Shaped) (h : m.table scope = some st)
    (hlisted : st.listed = false) :
    ∃ m', m.idleLocked scope = some m' ∧ m'.Shaped ∧ m.SameSettings m' ∧
      m'.table = update m.table scope (some { st with listed := true }) := by
  have hnot := hm.notMem_idle h hlisted
  refine ⟨m.relist scope { st with listed := true } (m.idle ++ [scope]), ?_, hm.relist h ?_ ?_ ?_ ?_,
    ⟨rfl, rfl, rfl, rfl, rfl⟩, table_store m scope _⟩
  · have hlookup : m.sessions.lookup scope = some st := h
    simp only [idleLocked, hlookup, hm.holder h, Option.bind_eq_bind, Option.bind_some, Manager.relist, filter_append]
    simp
  · rw [nodup_append]
    refine ⟨hm.nodup, nodup_singleton _, ?_⟩
    intro a ha b hb heq
    rw [mem_singleton] at hb
    exact hnot (hb ▸ heq ▸ ha)
  · simp
  · intro s hs
    simp [hs]
  · intro p hp
    rw [filter_append]
    simp [Ne.symm hp]

lemma busyLocked_spec (hm : m.Shaped) (h : m.table scope = some st) :
    ∃ m', m.busyLocked scope = some m' ∧ m'.Shaped ∧ m.SameSettings m' ∧
      m'.table = update m.table scope (some { st with listed := false }) ∧
      m'.sessions.keys.length = m.sessions.keys.length := by
  have hlookup : m.sessions.lookup scope = some st := h
  cases hlisted : st.listed with
  | false =>
    refine ⟨m, by simp [busyLocked, hlookup, hlisted], hm, .refl m, ?_, rfl⟩
    have hsame : { st with listed := false } = st := by rw [← hlisted]
    rw [hsame, ← h, Function.update_eq_self]
  | true =>
    refine ⟨m.relist scope { st with listed := false } (m.idle.erase scope), ?_, hm.relist h ?_ ?_ ?_ ?_,
      ⟨rfl, rfl, rfl, rfl, rfl⟩, table_store m scope _, (keys_insert_perm h _).length_eq⟩
    · simp [busyLocked, hlookup, hlisted, hm.holder h, Manager.relist, erase_filter]
    · exact hm.nodup.erase scope
    · simp [hm.nodup.mem_erase_iff]
    · intro s hs
      rw [mem_erase_of_ne hs]
    · intro p hp
      rw [← erase_filter, erase_of_not_mem]
      simp [Ne.symm hp]

def without (m : Manager) (scope : Scope) : Manager :=
  { m with
    sessions := m.sessions.erase scope
    holders :=
      if m.states scope.principal ≤ 1 then m.holders.erase scope.principal
      else m.holders.insert scope.principal
        ⟨m.states scope.principal - 1, m.idle.filter fun s => s.principal = scope.principal⟩ }

lemma removeLocked_eq (hm : m.Shaped) (h : m.table scope = some st) :
    m.removeLocked scope = some (m.without scope) := by
  rw [removeLocked, hm.holder h]
  rfl

lemma states_without (h : m.table scope = some st) (p : Principal) :
    (m.without scope).states p = m.states p - if p = scope.principal then 1 else 0 := by
  show (m.sessions.erase scope).keys.countP _ = _
  rw [AList.keys_erase, countP_erase, states]
  simp [mem_keys h, @eq_comm _ p]

lemma table_without (m : Manager) (scope : Scope) : (m.without scope).table = update m.table scope none :=
  table_erase m.sessions scope

lemma Shaped.without (hm : m.Shaped) (h : m.table scope = some st)
    (hlisted : st.listed = false) : (m.without scope).Shaped where
  nodup := hm.nodup
  idle := by
    intro s
    show s ∈ m.idle ↔ _
    rw [table_without]
    by_cases hs : s = scope
    · subst hs
      simp [hm.notMem_idle h hlisted]
    · rw [update_of_ne hs, hm.idle s]
  holders := by
    intro p
    rw [share, states_without h]
    by_cases hp : p = scope.principal
    · subst hp
      show AList.lookup _ (if _ then _ else _) = _
      simp only [if_true]
      split_ifs with hone hzero hzero
      · rw [AList.lookup_erase]
      · omega
      · omega
      · rw [AList.lookup_insert]
        rfl
    · have hsame := hm.holders p
      rw [share] at hsame
      show AList.lookup _ (if _ then _ else _) = _
      rw [if_neg hp, Nat.sub_zero]
      split_ifs at hsame ⊢
      · rw [AList.lookup_erase_ne hp, hsame]
      · rw [AList.lookup_erase_ne hp, hsame]
        rfl
      · rw [AList.lookup_insert_ne hp, hsame]
      · rw [AList.lookup_insert_ne hp, hsame]
        rfl
  size := by
    show (m.sessions.erase scope).keys.length ≤ m.maxStates
    rw [AList.keys_erase]
    exact length_erase_le.trans hm.size

lemma length_without (h : m.table scope = some st) :
    (m.without scope).sessions.keys.length + 1 = m.sessions.keys.length := by
  have hpos := length_pos_of_mem (mem_keys h)
  show (m.sessions.erase scope).keys.length + 1 = _
  rw [AList.keys_erase, length_erase_of_mem (mem_keys h)]
  omega

lemma dropLocked_spec (hm : m.Shaped) (h : m.table scope = some st) :
    ∃ m', m.dropLocked scope = some m' ∧ m'.Shaped ∧ m.SameSettings m' ∧
      m'.table = update m.table scope none ∧ m'.sessions.keys.length + 1 = m.sessions.keys.length := by
  obtain ⟨m₁, hbusy, hm₁, hsame, htable, hlen⟩ := busyLocked_spec hm h
  have hself : m₁.table scope = some { st with listed := false } := by rw [htable, update_self]
  refine ⟨m₁.without scope, ?_, hm₁.without hself rfl, hsame.trans ⟨rfl, rfl, rfl, rfl, rfl⟩, ?_, ?_⟩
  · have hlookup : m.sessions.lookup scope = some st := h
    rw [dropLocked, hlookup]
    show (m.busyLocked scope).bind _ = _
    rw [hbusy, Option.bind_some, removeLocked_eq hm₁ hself]
  · rw [table_without, htable, Function.update_idem]
  · rw [length_without hself, hlen]

def withNew (m : Manager) (scope : Scope) (now : Int) : Manager :=
  { m.store scope { touched := now } with
    holders := m.holders.insert scope.principal
      ⟨m.states scope.principal + 1, m.idle.filter fun s => s.principal = scope.principal⟩ }

lemma states_withNew (h : m.table scope = none) (now : Int) (p : Principal) :
    (m.withNew scope now).states p = m.states p + if p = scope.principal then 1 else 0 := by
  show (m.sessions.insert scope _).keys.countP _ = _
  rw [keys_insert_new h, countP_cons, states]
  simp [@eq_comm _ p]

lemma table_withNew (m : Manager) (scope : Scope) (now : Int) :
    (m.withNew scope now).table = update m.table scope (some { touched := now }) := table_store m scope _

lemma Shaped.withNew (hm : m.Shaped) (h : m.table scope = none)
    (hroom : m.sessions.keys.length < m.maxStates) (now : Int) : (m.withNew scope now).Shaped where
  nodup := hm.nodup
  idle := by
    intro s
    show s ∈ m.idle ↔ _
    rw [table_withNew, hm.idle s]
    by_cases hs : s = scope
    · subst hs
      simp [h]
    · rw [update_of_ne hs]
  holders := by
    intro p
    rw [share, states_withNew h]
    show (m.holders.insert scope.principal _).lookup p = _
    rw [lookup_holders_insert]
    split_ifs with hp hzero hzero
    · omega
    · rw [hp]
      rfl
    · rw [hm.holders, share, if_pos (by omega)]
    · rw [hm.holders, share, if_neg (by omega)]
      rfl
  size := by
    show (m.sessions.insert scope _).keys.length ≤ m.maxStates
    rw [keys_insert_new h, length_cons]
    omega

lemma Shaped.filter_idle_of_states (hm : m.Shaped) {p : Principal} (h : m.states p = 0) :
    (m.idle.filter fun s => s.principal = p) = [] := by
  rw [filter_eq_nil_iff]
  intro s hs hp
  obtain ⟨st, hst, -⟩ := (hm.idle s).mp hs
  rw [states, countP_eq_zero] at h
  exact h s (mem_keys hst) hp

lemma addLocked_spec (hm : m.Shaped) (h : m.table scope = none)
    (hroom : m.sessions.keys.length < m.maxStates) (now : Int) :
    ∃ m', m.addLocked scope now = some m' ∧ m'.Shaped ∧ m.SameSettings m' ∧
      m'.table = update m.table scope (some { touched := now, listed := true }) := by
  have hself : (m.withNew scope now).table scope = some { touched := now } := by rw [table_withNew, update_self]
  obtain ⟨m', hidle, hm', hsame, htable⟩ := idleLocked_spec (hm.withNew h hroom now) hself rfl
  have hbase : m.SameSettings (m.withNew scope now) := ⟨rfl, rfl, rfl, rfl, rfl⟩
  refine ⟨m', ?_, hm', hbase.trans hsame, ?_⟩
  · have hnew : (m.holders.lookup scope.principal).getD {} =
        ⟨m.states scope.principal, m.idle.filter fun s => s.principal = scope.principal⟩ := by
      rw [hm.holders, share]
      split_ifs with hzero
      · rw [hzero, hm.filter_idle_of_states hzero]
        rfl
      · rfl
    rw [addLocked, hnew]
    exact hidle
  · rw [htable, table_withNew, Function.update_idem]

def Offers (m : Manager) (h : Holder) : Prop := ∃ p, m.holders.lookup p = some h ∧ h.idle ≠ []

variable {h : Holder}

lemma Shaped.offers (hm : m.Shaped) {p : Principal} (hp : m.holders.lookup p = some h)
    (hhead : h.idle.head? = some scope) :
    scope ∈ m.idle ∧ scope.principal = p ∧ h.states = m.states p := by
  rw [hm.holders, share] at hp
  split_ifs at hp with hzero
  rw [Option.some.injEq] at hp
  subst hp
  have hmem := mem_of_mem_head? hhead
  rw [mem_filter, decide_eq_true_eq] at hmem
  exact ⟨hmem.1, hmem.2, rfl⟩

lemma Shaped.head_of_offers (hm : m.Shaped) (hoffers : m.Offers h) :
    ∃ scope, h.idle.head? = some scope ∧ scope ∈ m.idle ∧ h.states = m.states scope.principal := by
  obtain ⟨p, hp, hne⟩ := hoffers
  obtain ⟨scope, rest, hlist⟩ := exists_cons_of_ne_nil hne
  have hhead : h.idle.head? = some scope := by rw [hlist]; rfl
  obtain ⟨hmem, rfl, hstates⟩ := hm.offers hp hhead
  exact ⟨scope, hhead, hmem, hstates⟩

lemma Shaped.lruLocked (hm : m.Shaped) (hoffers : m.Offers h) : ∃ t, m.lruLocked h = some t := by
  obtain ⟨scope, hhead, hmem, -⟩ := hm.head_of_offers hoffers
  obtain ⟨st, hst, -⟩ := (hm.idle scope).mp hmem
  refine ⟨st.touched, ?_⟩
  have hlookup : m.sessions.lookup scope = some st := hst
  simp [Manager.lruLocked, hhead, hlookup]

lemma Shaped.preferred (hm : m.Shaped) (hoffers : m.Offers h) {most : Option Holder}
    (hmost : ∀ best, most = some best → m.Offers best) : ∃ b, m.preferred h most = some b := by
  cases most with
  | none => exact ⟨true, rfl⟩
  | some best =>
    obtain ⟨t, ht⟩ := hm.lruLocked hoffers
    obtain ⟨u, hu⟩ := hm.lruLocked (hmost best rfl)
    unfold Manager.preferred
    dsimp only
    split_ifs
    · exact ⟨true, rfl⟩
    · exact ⟨decide (t < u), by simp [ht, hu]⟩
    · exact ⟨false, rfl⟩

lemma Shaped.mostLocked (hm : m.Shaped) {order : List Principal}
    (horder : ∀ p ∈ order, ∃ h, m.holders.lookup p = some h) :
    ∃ most, m.mostLocked order = some most ∧ ∀ best, most = some best → m.Offers best := by
  unfold Manager.mostLocked
  generalize hstart : (none : Option Holder) = start
  have hoffers : ∀ best, start = some best → m.Offers best := by
    rintro best rfl
    cases hstart
  clear hstart
  induction order generalizing start with
  | nil => exact ⟨start, rfl, hoffers⟩
  | cons p order ih =>
    rw [forall_mem_cons] at horder
    obtain ⟨⟨h, hp⟩, horder⟩ := horder
    rw [foldlM_cons]
    simp only [hp, Option.bind_eq_bind, Option.bind_some]
    by_cases hempty : h.idle = []
    · simp only [hempty, if_true, Option.pure_def, Option.bind_some]
      exact ih horder start hoffers
    · obtain ⟨b, hb⟩ := hm.preferred ⟨p, hp, hempty⟩ hoffers
      simp only [hempty, if_false, hb, Option.pure_def, Option.bind_some]
      apply ih horder
      intro best hbest
      split_ifs at hbest with hprefer
      · rw [Option.some.injEq] at hbest
        exact hbest ▸ ⟨p, hp, hempty⟩
      · exact hoffers best hbest

/-- A state dropped to make room is idle, and the requesting principal's or one of a
principal that holds more. -/
lemma Shaped.victimLocked (hm : m.Shaped) {order : List Principal} (horder : order.Perm m.holders.keys)
    (p : Principal) :
    ∃ victim, m.victimLocked order p = some victim ∧
      ∀ scope, victim = some scope →
        scope ∈ m.idle ∧ (scope.principal = p ∨ m.states p < m.states scope.principal) := by
  unfold Manager.victimLocked
  dsimp only
  cases hown : (m.holders.lookup p).bind (·.idle.head?) with
  | some scope =>
    refine ⟨some scope, rfl, ?_⟩
    rintro _ ⟨⟩
    obtain ⟨h, hp, hhead⟩ := Option.bind_eq_some_iff.mp hown
    obtain ⟨hmem, hprincipal, -⟩ := hm.offers hp hhead
    exact ⟨hmem, .inl hprincipal⟩
  | none =>
    have hvisit : ∀ q ∈ order, ∃ h, m.holders.lookup q = some h := by
      intro q hq
      exact Option.isSome_iff_exists.mp (AList.lookup_isSome.mpr (AList.mem_keys.mpr (horder.mem_iff.mp hq)))
    obtain ⟨most, hmost, hoffers⟩ := hm.mostLocked hvisit
    simp only [hmost, Option.bind_eq_bind, Option.bind_some]
    cases most with
    | none => exact ⟨none, rfl, by simp⟩
    | some best =>
      by_cases hmore : (m.holders.lookup p).any (best.states ≤ ·.states) = true
      · exact ⟨none, by simp [hmore], by simp⟩
      · obtain ⟨scope, hhead, hmem, hstates⟩ := hm.head_of_offers (hoffers best rfl)
        refine ⟨some scope, by simp [hmore, hhead], ?_⟩
        rintro _ ⟨⟩
        refine ⟨hmem, .inr ?_⟩
        rw [← hstates]
        obtain ⟨st, hst, -⟩ := (hm.idle scope).mp hmem
        have hpos := states_pos hst
        rw [hm.holders, share] at hmore
        split_ifs at hmore with hzero
        · omega
        · simpa using hmore

end Manager

end SqlMcpServer.Budget
