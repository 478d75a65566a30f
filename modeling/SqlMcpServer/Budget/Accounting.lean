import SqlMcpServer.Budget.Table

namespace SqlMcpServer.Budget

open List
open Function (update update_of_ne update_self)
open GoInt (int64)

def callsOf (leases : Multiset Lease) (scope : Scope) : Int := leases.countP fun l => l.scope = scope

def reservedOf (leases : Multiset Lease) (scope : Scope) : Int :=
  ((leases.filter fun l => l.scope = scope).map Lease.reservedCost).sum

def callsOfTenant (leases : Multiset Lease) (tenant : String) : Int := leases.countP fun l => l.scope.tenant = tenant

lemma callsOf_cons (l : Lease) (leases : Multiset Lease) (scope : Scope) :
    callsOf (l ::ₘ leases) scope = callsOf leases scope + if l.scope = scope then 1 else 0 := by
  rw [callsOf, Multiset.countP_cons, callsOf]
  split_ifs <;> simp

lemma callsOfTenant_cons (l : Lease) (leases : Multiset Lease) (tenant : String) :
    callsOfTenant (l ::ₘ leases) tenant = callsOfTenant leases tenant + if l.scope.tenant = tenant then 1 else 0 := by
  rw [callsOfTenant, Multiset.countP_cons, callsOfTenant]
  split_ifs <;> simp

lemma reservedOf_cons (l : Lease) (leases : Multiset Lease) (scope : Scope) :
    reservedOf (l ::ₘ leases) scope = reservedOf leases scope + if l.scope = scope then l.reservedCost else 0 := by
  rw [reservedOf, reservedOf]
  by_cases h : l.scope = scope
  · rw [Multiset.filter_cons_of_pos (p := fun l' : Lease => l'.scope = scope) _ h, if_pos h, Multiset.map_cons, Multiset.sum_cons, add_comm]
  · rw [Multiset.filter_cons_of_neg (p := fun l' : Lease => l'.scope = scope) _ h, if_neg h, add_zero]

lemma callsOf_nonneg (leases : Multiset Lease) (scope : Scope) : 0 ≤ callsOf leases scope := Int.natCast_nonneg _

lemma callsOfTenant_nonneg (leases : Multiset Lease) (tenant : String) : 0 ≤ callsOfTenant leases tenant :=
  Int.natCast_nonneg _

variable {leases : Multiset Lease} {scope : Scope}

lemma reservedOf_of_calls (h : callsOf leases scope = 0) :
    reservedOf leases scope = 0 := by
  have hnone : leases.filter (fun l => l.scope = scope) = 0 := by
    rw [Multiset.filter_eq_nil, ← Multiset.countP_eq_zero]
    exact Int.natCast_eq_zero.mp h
  rw [reservedOf, hnone]
  rfl

def load : Option State → Int × Int
  | some st => (st.inflight, st.reserved)
  | none => (0, 0)

def IdleListed (table : Scope → Option State) : Prop :=
  ∀ scope st, table scope = some st → (st.listed = true ↔ st.inflight = 0)

def Loaded (table : Scope → Option State) (leases : Multiset Lease) : Prop :=
  ∀ scope, load (table scope) = (callsOf leases scope, int64 (reservedOf leases scope))

variable {table : Scope → Option State} {st : State}

lemma Loaded.state (h : Loaded table leases)
    (hst : table scope = some st) :
    st.inflight = callsOf leases scope ∧ st.reserved = int64 (reservedOf leases scope) := by
  have hload := h scope
  rw [hst, load, Prod.mk.injEq] at hload
  exact hload

lemma Loaded.exists_state (h : Loaded table leases) {l : Lease}
    (hl : l ∈ leases) : ∃ st, table l.scope = some st := by
  have hload := h l.scope
  cases hst : table l.scope with
  | some st => exact ⟨st, rfl⟩
  | none =>
    rw [hst, load, Prod.mk.injEq] at hload
    have hpos : 0 < leases.countP fun l' => l'.scope = l.scope := Multiset.countP_pos.mpr ⟨l, hl, rfl⟩
    rw [callsOf] at hload
    omega

lemma Loaded.update {leases' : Multiset Lease} (h : Loaded table leases)
    {st : Option State}
    (hself : load st = (callsOf leases' scope, int64 (reservedOf leases' scope)))
    (hother : ∀ s, s ≠ scope → callsOf leases' s = callsOf leases s ∧ reservedOf leases' s = reservedOf leases s) :
    Loaded (update table scope st) leases' := by
  intro s
  by_cases hs : s = scope
  · subst hs
    rw [update_self, hself]
  · obtain ⟨hcalls, hreserved⟩ := hother s hs
    rw [update_of_ne hs, h s, hcalls, hreserved]

lemma idleListed_update {st : Option State}
    (h : ∀ s st', s ≠ scope → table s = some st' → (st'.listed = true ↔ st'.inflight = 0))
    (hself : ∀ st', st = some st' → (st'.listed = true ↔ st'.inflight = 0)) : IdleListed (update table scope st) := by
  intro s st' hst'
  by_cases hs : s = scope
  · subst hs
    rw [update_self] at hst'
    exact hself st' hst'
  · rw [update_of_ne hs] at hst'
    exact h s st' hs hst'

lemma IdleListed.update (h : IdleListed table) {st : Option State}
    (hself : ∀ st', st = some st' → (st'.listed = true ↔ st'.inflight = 0)) : IdleListed (update table scope st) :=
  idleListed_update (fun s st' _ => h s st') hself

/-- The linked structures agree, and the table says what the leases hold. -/
structure Manager.Books (m : Manager) (leases : Multiset Lease) : Prop where
  shaped : m.Shaped
  idle : IdleListed m.table
  loaded : Loaded m.table leases

variable {m : Manager}

namespace Manager.Books
variable {leases : Multiset Lease}

lemma load_idle (h : m.Books leases) (hst : m.table scope = some st)
    (hidle : st.inflight = 0) : load none = (callsOf leases scope, int64 (reservedOf leases scope)) := by
  have hcalls : callsOf leases scope = 0 := by rw [← (h.loaded.state hst).1, hidle]
  rw [hcalls, reservedOf_of_calls hcalls]
  rfl

lemma drop (h : m.Books leases) (hst : m.table scope = some st)
    (hidle : st.inflight = 0) :
    ∃ m', m.dropLocked scope = some m' ∧ m'.Books leases ∧ m.SameSettings m' ∧
      m'.table = update m.table scope none ∧ m'.sessions.keys.length + 1 = m.sessions.keys.length := by
  obtain ⟨m', hdrop, hshaped, hsame, htable, hlen⟩ := dropLocked_spec h.shaped hst
  refine ⟨m', hdrop, ⟨hshaped, ?_, ?_⟩, hsame, htable, hlen⟩
  · rw [htable]
    exact h.idle.update (by simp)
  · rw [htable]
    exact h.loaded.update (h.load_idle hst hidle) fun _ _ => ⟨rfl, rfl⟩

lemma idle_state (h : m.Books leases) (hmem : scope ∈ m.idle) :
    ∃ st, m.table scope = some st ∧ st.inflight = 0 := by
  obtain ⟨st, hst, hlisted⟩ := (h.shaped.idle scope).mp hmem
  exact ⟨st, hst, (h.idle scope st hst).mp hlisted⟩

lemma pruneLoop (h : m.Books leases) (now : Int) (turns : Nat) :
    ∃ m', Manager.pruneLoop now turns m = some m' ∧ m'.Books leases ∧ m.SameSettings m' := by
  induction turns generalizing m with
  | zero => exact ⟨m, rfl, h, .refl m⟩
  | succ turns ih =>
    unfold Manager.pruneLoop
    split
    · exact ⟨m, rfl, h, .refl m⟩
    · rename_i scope rest hidle
      obtain ⟨st, hst, hzero⟩ := h.idle_state (show scope ∈ m.idle by rw [hidle]; exact mem_cons_self)
      have hlookup : m.sessions.lookup scope = some st := hst
      obtain ⟨m₁, hdrop, hm₁, hsame, -, -⟩ := h.drop hst hzero
      simp only [hlookup, Option.bind_eq_bind, Option.bind_some]
      split_ifs
      · exact ⟨m, rfl, h, .refl m⟩
      · obtain ⟨m₂, hloop, hm₂, hsame'⟩ := ih hm₁
        exact ⟨m₂, by simp [hdrop, hloop], hm₂, hsame.trans hsame'⟩

lemma prune (h : m.Books leases) (now : Int) :
    ∃ m', m.pruneLocked now = some m' ∧ m'.Books leases ∧ m.SameSettings m' := h.pruneLoop now _

lemma add (h : m.Books leases) (hnone : m.table scope = none)
    (hroom : m.sessions.keys.length < m.maxStates) (now : Int) :
    ∃ m', m.addLocked scope now = some m' ∧ m'.Books leases ∧ m.SameSettings m' ∧ (∃ st, m'.table scope = some st) ∧
      ∀ s, m'.table s = none → m.table s = none := by
  obtain ⟨m', hadd, hshaped, hsame, htable⟩ := addLocked_spec h.shaped hnone hroom now
  refine ⟨m', hadd, ⟨hshaped, ?_, ?_⟩, hsame, ?_, ?_⟩
  · rw [htable]
    apply h.idle.update
    rintro _ ⟨⟩
    simp
  · rw [htable]
    refine h.loaded.update ?_ fun _ _ => ⟨rfl, rfl⟩
    rw [← h.loaded scope, hnone]
    rfl
  · exact ⟨_, by rw [htable, update_self]⟩
  · intro s hs
    rw [htable] at hs
    by_cases heq : s = scope
    · rw [heq, hnone]
    · rwa [update_of_ne heq] at hs

lemma acquireState (h : m.Books leases) {order : List Principal}
    (horder : order.Perm m.holders.keys) (scope : Scope) (now : Int) :
    ∃ r, m.acquireStateLocked order scope now = some r ∧
      ∀ m', r = some m' → m'.Books leases ∧ m.SameSettings m' ∧ (∃ st, m'.table scope = some st) ∧
        ∀ s, m'.table s = none → m.table s ≠ none →
          s.principal = scope.principal ∨ m.states scope.principal < m.states s.principal := by
  unfold Manager.acquireStateLocked
  split
  · rename_i st hst
    refine ⟨some m, rfl, ?_⟩
    rintro _ ⟨⟩
    exact ⟨h, .refl m, ⟨st, hst⟩, fun s hnone hsome => absurd hnone hsome⟩
  · rename_i hnone
    by_cases hfull : m.maxStates ≤ m.sessions.keys.length
    · obtain ⟨victim, hvictim, hidle⟩ := h.shaped.victimLocked horder scope.principal
      simp only [if_pos hfull, hvictim, Option.bind_eq_bind, Option.bind_some]
      cases victim with
      | none => exact ⟨none, rfl, by simp⟩
      | some v =>
        obtain ⟨st, hst, hzero⟩ := h.idle_state (hidle v rfl).1
        obtain ⟨m₁, hdrop, hm₁, hsame, htable, hlen⟩ := h.drop hst hzero
        have hnone₁ : m₁.table scope = none := by
          rw [htable]
          by_cases hv : scope = v
          · rw [hv, update_self]
          · rw [update_of_ne hv]
            exact hnone
        have hroom : m₁.sessions.keys.length < m₁.maxStates := by
          have hsize := h.shaped.size
          rw [hsame.maxStates]
          omega
        obtain ⟨m₂, hadd, hm₂, hsame', hst₂, hkept⟩ := hm₁.add hnone₁ hroom now
        refine ⟨some m₂, by simp [hdrop, hadd], ?_⟩
        rintro _ ⟨⟩
        refine ⟨hm₂, hsame.trans hsame', hst₂, ?_⟩
        intro s hgone hhad
        have hgone₁ := hkept s hgone
        rw [htable] at hgone₁
        by_cases hs : s = v
        · rw [hs]
          exact (hidle v rfl).2
        · rw [update_of_ne hs] at hgone₁
          exact absurd hgone₁ hhad
    · obtain ⟨m₂, hadd, hm₂, hsame, hst₂, hkept⟩ := h.add hnone (by omega) now
      refine ⟨some m₂, by simp [hfull, hadd], ?_⟩
      rintro _ ⟨⟩
      exact ⟨hm₂, hsame, hst₂, fun s hgone hhad => absurd (hkept s hgone) hhad⟩

lemma store (h : m.Books leases) {st' : State} (hst : m.table scope = some st)
    (hlisted : st'.listed = st.listed) (hinflight : st'.inflight = st.inflight) (hreserved : st'.reserved = st.reserved) :
    (m.store scope st').Books leases where
  shaped := h.shaped.store hst hlisted
  idle := by
    rw [table_store]
    apply h.idle.update
    rintro _ ⟨⟩
    rw [hlisted, hinflight]
    exact h.idle scope st hst
  loaded := by
    rw [table_store]
    refine h.loaded.update ?_ fun _ _ => ⟨rfl, rfl⟩
    rw [← h.loaded scope, hst, load, load, hinflight, hreserved]

lemma closeLocked (h : m.Books leases) (session : String)
    (hst : m.table scope = some st) :
    ∃ m', Manager.closeLocked session m scope = some m' ∧ m'.Books leases ∧ m.SameSettings m' ∧
      ∀ s, s ≠ scope → m'.table s = m.table s := by
  have hlookup : m.sessions.lookup scope = some st := hst
  unfold Manager.closeLocked
  by_cases hsession : scope.session = session
  · rw [if_pos hsession]
    simp only [hlookup, Option.bind_eq_bind, Option.bind_some]
    have hstore : (m.store scope { st with cost := 0 }).Books leases := h.store hst rfl rfl rfl
    have hself : (m.store scope { st with cost := 0 }).table scope = some { st with cost := 0 } := by
      rw [table_store, update_self]
    by_cases hzero : st.inflight = 0
    · rw [if_pos hzero]
      obtain ⟨m', hdrop, hm', hsame, htable, -⟩ := hstore.drop hself hzero
      refine ⟨m', hdrop, hm', (sameSettings_store m scope _).trans hsame, ?_⟩
      intro s hs
      rw [htable, update_of_ne hs, table_store, update_of_ne hs]
    · rw [if_neg hzero]
      refine ⟨_, rfl, hstore.store hself rfl rfl rfl, (sameSettings_store m scope _).trans (sameSettings_store _ scope _), ?_⟩
      intro s hs
      rw [table_store, update_of_ne hs, table_store, update_of_ne hs]
  · exact ⟨m, if_neg hsession, h, .refl m, fun _ _ => rfl⟩

lemma closeLoop (h : m.Books leases) (session : String) {scopes : List Scope} (hnodup : scopes.Nodup)
    (hkeys : ∀ s ∈ scopes, ∃ st, m.table s = some st) :
    ∃ m', scopes.foldlM (Manager.closeLocked session) m = some m' ∧ m'.Books leases ∧ m.SameSettings m' := by
  induction scopes generalizing m with
  | nil => exact ⟨m, rfl, h, .refl m⟩
  | cons scope scopes ih =>
    rw [nodup_cons] at hnodup
    rw [forall_mem_cons] at hkeys
    obtain ⟨st, hst⟩ := hkeys.1
    obtain ⟨m₁, hclose, hm₁, hsame, hother⟩ := h.closeLocked session hst
    have hrest : ∀ s ∈ scopes, ∃ st, m₁.table s = some st := by
      intro s hs
      rw [hother s (fun heq => hnodup.1 (heq ▸ hs))]
      exact hkeys.2 s hs
    obtain ⟨m₂, hloop, hm₂, hsame'⟩ := ih hm₁ hnodup.2 hrest
    exact ⟨m₂, by rw [foldlM_cons, hclose]; exact hloop, hm₂, hsame.trans hsame'⟩

lemma closeSession (h : m.Books leases) (session : String) :
    ∃ m', m.closeSession session = some m' ∧ m'.Books leases ∧ m.SameSettings m' := by
  unfold Manager.closeSession
  split_ifs
  · exact ⟨m, rfl, h, .refl m⟩
  · apply h.closeLoop session m.sessions.keys_nodup
    intro s hs
    exact Option.isSome_iff_exists.mp (AList.lookup_isSome.mpr (AList.mem_keys.mpr hs))

end Manager.Books

def Manager.TenantsCounted (m : Manager) (leases : Multiset Lease) : Prop :=
  ∀ tenant, tenant ≠ "" → m.inflight tenant = callsOfTenant leases tenant

namespace Manager.Books
variable {leases : Multiset Lease}

lemma setTenant (h : m.Books leases) (tenant : String) (calls : Int) :
    (m.setTenant tenant calls).Books leases := by
  unfold Manager.setTenant
  split_ifs
  · exact h
  · exact ⟨⟨h.shaped.nodup, h.shaped.idle, h.shaped.holders, h.shaped.size⟩, h.idle, h.loaded⟩

end Manager.Books

lemma Manager.table_setTenant (m : Manager) (tenant : String) (calls : Int) : (m.setTenant tenant calls).table = m.table := by
  unfold Manager.setTenant
  split_ifs <;> rfl

lemma Manager.inflight_setTenant {tenant : String} (calls : Int) {t : String} (ht : t ≠ "") :
    (m.setTenant tenant calls).inflight t = if t = tenant then calls else m.inflight t := by
  unfold Manager.setTenant
  by_cases heq : t = tenant
  · rw [← heq, if_neg ht, if_pos rfl]
    exact update_self ..
  · rw [if_neg heq]
    split_ifs
    · rfl
    · exact update_of_ne heq ..

structure Manager.SameLimits (m m' : Manager) : Prop where
  roles : m'.roles = m.roles
  tenants : m'.tenants = m.tenants
  maxStates : m'.maxStates = m.maxStates

variable {m' : Manager}

lemma Manager.SameSettings.sameLimits (h : m.SameSettings m') : m.SameLimits m' :=
  ⟨h.roles, h.tenants, h.maxStates⟩

lemma Manager.SameLimits.trans {m'' : Manager} (h : m.SameLimits m') (h' : m'.SameLimits m'') : m.SameLimits m'' :=
  ⟨h'.roles.trans h.roles, h'.tenants.trans h.tenants, h'.maxStates.trans h.maxStates⟩

lemma Manager.TenantsCounted.same (h : m.TenantsCounted leases)
    (hsame : m.SameSettings m') : m'.TenantsCounted leases := by
  intro tenant ht
  rw [hsame.inflight, h tenant ht]

lemma Manager.sameLimits_setTenant (m : Manager) (tenant : String) (calls : Int) :
    m.SameLimits (m.setTenant tenant calls) := by
  unfold Manager.setTenant
  split_ifs <;> exact ⟨rfl, rfl, rfl⟩

namespace Manager.Books
variable {leases : Multiset Lease}

lemma begins (h : m.Books leases) (hst : m.table scope = some st)
    (r : Reservation) (now : Int) (limits : Limits) :
    ∃ m', m.beginLocked scope r now = some m' ∧ m'.Books (⟨scope, limits, r.cost⟩ ::ₘ leases) ∧ m.SameLimits m' ∧
      m'.inflight = (m.setTenant scope.tenant (m.inflight scope.tenant + 1)).inflight ∧
      m'.table scope = some (beginCall { st with listed := false } r now) := by
  have hbooks := h.setTenant scope.tenant (m.inflight scope.tenant + 1)
  have hlimits := m.sameLimits_setTenant scope.tenant (m.inflight scope.tenant + 1)
  have hst₀ : (m.setTenant scope.tenant (m.inflight scope.tenant + 1)).table scope = some st := by
    rw [table_setTenant, hst]
  obtain ⟨m₁, hbusy, hshaped, hsame, htable, -⟩ := busyLocked_spec hbooks.shaped hst₀
  rw [table_setTenant] at htable
  have hself : m₁.table scope = some { st with listed := false } := by rw [htable, update_self]
  have hlookup : m₁.sessions.lookup scope = some { st with listed := false } := hself
  obtain ⟨hinflight, hreserved⟩ := h.loaded.state hst
  have hnonneg := callsOf_nonneg leases scope
  refine ⟨m₁.store scope (beginCall { st with listed := false } r now), ?_, ⟨hshaped.store hself rfl, ?_, ?_⟩,
    hlimits.trans (hsame.trans (sameSettings_store m₁ scope _)).sameLimits, hsame.inflight, by rw [table_store, update_self]⟩
  · simp [Manager.beginLocked, hbusy, hlookup]
  · rw [table_store, htable, Function.update_idem]
    apply h.idle.update
    rintro _ ⟨⟩
    simp only [beginCall, Bool.false_eq_true, false_iff]
    omega
  · rw [table_store, htable, Function.update_idem]
    refine h.loaded.update ?_ ?_
    · rw [callsOf_cons, reservedOf_cons, if_pos rfl, if_pos rfl, load, beginCall]
      simp only [hinflight, hreserved, GoInt.int64_add]
    · intro s hs
      rw [callsOf_cons, reservedOf_cons, if_neg (Ne.symm hs), if_neg (Ne.symm hs)]
      simp

lemma afterCall (hshaped : m.Shaped) (hst : m.table scope = some st)
    (hlisted : st.listed = false) (hnonneg : 0 ≤ st.inflight) (hidle : ∀ s st', s ≠ scope → m.table s = some st' →
      (st'.listed = true ↔ st'.inflight = 0)) (hloaded : Loaded m.table leases) :
    ∃ m', m.afterCall scope st = some m' ∧ m'.Books leases ∧ m.SameSettings m' := by
  obtain ⟨hinflight, hreserved⟩ := hloaded.state hst
  unfold Manager.afterCall
  by_cases hpos : 0 < st.inflight
  · refine ⟨m, if_pos hpos, ⟨hshaped, ?_, hloaded⟩, .refl m⟩
    rw [← Function.update_eq_self scope m.table, hst]
    apply idleListed_update hidle
    rintro _ ⟨⟩
    rw [hlisted]
    simp [hpos.ne']
  · have hzero : st.inflight = 0 := by omega
    rw [if_neg hpos]
    by_cases hclosed : st.closed = true
    · obtain ⟨m', hdrop, hshaped', hsame, htable, -⟩ := dropLocked_spec hshaped hst
      refine ⟨m', by rw [if_pos hclosed, hdrop], ⟨hshaped', ?_, ?_⟩, hsame⟩
      · rw [htable]
        exact idleListed_update hidle (by simp)
      · rw [htable]
        refine hloaded.update ?_ fun _ _ => ⟨rfl, rfl⟩
        have hcalls : callsOf leases scope = 0 := by rw [← hinflight, hzero]
        rw [hcalls, reservedOf_of_calls hcalls]
        rfl
    · obtain ⟨m', hlist, hshaped', hsame, htable⟩ := idleLocked_spec hshaped hst hlisted
      refine ⟨m', by rw [if_neg hclosed, hlist], ⟨hshaped', ?_, ?_⟩, hsame⟩
      · rw [htable]
        apply idleListed_update hidle
        rintro _ ⟨⟩
        simp [hzero]
      · rw [htable]
        refine hloaded.update ?_ fun _ _ => ⟨rfl, rfl⟩
        rw [load, hinflight, hreserved]

lemma ends (h : m.Books leases) {l : Lease} (hl : l ∈ leases) (usage : Usage) (now : Int) :
    ∃ m' flag, m.complete l usage now = some (m', flag) ∧ m'.Books (leases.erase l) ∧ m.SameLimits m' ∧
      m'.inflight = (m.setTenant l.scope.tenant
        (if m.inflight l.scope.tenant - 1 ≤ 0 then 0 else m.inflight l.scope.tenant - 1)).inflight := by
  obtain ⟨st, hst⟩ := h.loaded.exists_state hl
  obtain ⟨hinflight, hreserved⟩ := h.loaded.state hst
  have hcons := Multiset.cons_erase hl
  set rest := leases.erase l with hrest
  have hcalls : callsOf leases l.scope = callsOf rest l.scope + 1 := by rw [← hcons, callsOf_cons, if_pos rfl]
  have hsum : reservedOf leases l.scope = reservedOf rest l.scope + l.reservedCost := by
    rw [← hcons, reservedOf_cons, if_pos rfl]
  have hnonneg := callsOf_nonneg rest l.scope
  -- A call runs in the state, so it is on no idle list.
  have hlisted : st.listed = false := by
    rw [← Bool.not_eq_true, h.idle l.scope st hst]
    omega
  set calls := if m.inflight l.scope.tenant - 1 ≤ 0 then 0 else m.inflight l.scope.tenant - 1 with hcallsOf
  have hlimits := m.sameLimits_setTenant l.scope.tenant calls
  have hst₀ : (m.setTenant l.scope.tenant calls).table l.scope = some st := by rw [table_setTenant, hst]
  have hshaped := (h.setTenant l.scope.tenant calls).shaped.store hst₀
    (show (endCall st l usage now).listed = st.listed from rfl)
  have hself : ((m.setTenant l.scope.tenant calls).store l.scope (endCall st l usage now)).table l.scope =
      some (endCall st l usage now) := by rw [table_store, update_self]
  have hloaded : Loaded ((m.setTenant l.scope.tenant calls).store l.scope (endCall st l usage now)).table rest := by
    rw [table_store, table_setTenant]
    refine h.loaded.update ?_ ?_
    · rw [load, endCall]
      simp only [hinflight, hreserved, hcalls, hsum, GoInt.int64_sub, add_sub_cancel_right]
    · intro s hs
      rw [← hcons, callsOf_cons, reservedOf_cons, if_neg (Ne.symm hs), if_neg (Ne.symm hs)]
      simp
  have hidle : ∀ s st', s ≠ l.scope →
      ((m.setTenant l.scope.tenant calls).store l.scope (endCall st l usage now)).table s = some st' →
      (st'.listed = true ↔ st'.inflight = 0) := by
    intro s st' hs hst'
    rw [table_store, table_setTenant, update_of_ne hs] at hst'
    exact h.idle s st' hst'
  obtain ⟨m', hafter, hbooks, hsame⟩ := afterCall hshaped hself hlisted
    (by show 0 ≤ st.inflight - 1; omega) hidle hloaded
  have hlookup : m.sessions.lookup l.scope = some st := hst
  refine ⟨m', l.exceeded usage (endCall st l usage now).cost, ?_, hbooks,
    hlimits.trans ((sameSettings_store _ l.scope _).trans hsame).sameLimits, hsame.inflight⟩
  simp only [Manager.complete, hlookup, Option.bind_eq_bind, Option.bind_some]
  rw [← hcallsOf, hafter]
  rfl

end Manager.Books

/-- The books are kept, the tenants counted, and no reservation is negative. -/
structure System.Kept (s : System) : Prop where
  books : s.manager.Books s.leases
  tenants : s.manager.TenantsCounted s.leases
  costs : ∀ l ∈ s.leases, 0 ≤ l.reservedCost

structure WithinLimits (m : Manager) (scope : Scope) (limits : Limits) (tenantMax : Int) : Prop where
  state : ∃ st, m.table scope = some st ∧
    (0 < limits.maxSessionCost → st.cost + st.reserved ≤ limits.maxSessionCost) ∧
    (0 < limits.maxConcurrent → st.inflight ≤ limits.maxConcurrent)
  tenant : 0 < tenantMax → m.inflight scope.tenant ≤ tenantMax

/-- A reservation the limits admit leaves the session's cost within them: no sum of the
check leaves int64's range the wrong way. -/
lemma within_of_admitted {limits : Limits} {r : Reservation} (hr : 0 ≤ r.cost) (hreserved : -2 ^ 63 ≤ st.reserved)
    (h : Manager.overLimits limits st r = false) :
    (0 < limits.maxSessionCost → st.cost + int64 (st.reserved + r.cost) ≤ limits.maxSessionCost) ∧
      (0 < limits.maxConcurrent → st.inflight + 1 ≤ limits.maxConcurrent) := by
  simp only [Manager.overLimits, Bool.or_eq_false_iff, Bool.and_eq_false_iff, decide_eq_false_iff_not, not_lt, not_le] at h
  obtain ⟨⟨hconcurrent, -⟩, hcost⟩ := h
  constructor
  · intro hpos
    obtain ⟨⟨hlt, hheld⟩, hroom⟩ := hcost.resolve_left (by omega)
    have hleft := GoInt.int64_le (show 0 ≤ limits.maxSessionCost - st.cost by omega)
    have hrange := GoInt.int64_range (limits.maxSessionCost - st.cost)
    generalize int64 (limits.maxSessionCost - st.cost) = left at *
    have hrest := GoInt.int64_le (show 0 ≤ left - st.reserved by omega)
    have hexact := GoInt.keepsInt64_int64 (st.reserved + r.cost) (by omega) (by omega)
    omega
  · intro hpos
    have := hconcurrent.resolve_left (by omega)
    omega

lemma Manager.TenantsCounted.begins (h : m.TenantsCounted leases) (l : Lease)
    (hinflight : m'.inflight = (m.setTenant l.scope.tenant (m.inflight l.scope.tenant + 1)).inflight) :
    m'.TenantsCounted (l ::ₘ leases) := by
  intro tenant ht
  rw [hinflight, inflight_setTenant _ ht, callsOfTenant_cons, h tenant ht]
  by_cases heq : tenant = l.scope.tenant
  · rw [if_pos heq, if_pos heq.symm, ← heq, h tenant ht]
  · rw [if_neg heq, if_neg (Ne.symm heq), add_zero]

lemma Manager.TenantsCounted.ends (h : m.TenantsCounted leases) {l : Lease}
    (hl : l ∈ leases)
    (hinflight : m'.inflight = (m.setTenant l.scope.tenant
      (if m.inflight l.scope.tenant - 1 ≤ 0 then 0 else m.inflight l.scope.tenant - 1)).inflight) :
    m'.TenantsCounted (leases.erase l) := by
  intro tenant ht
  have hcons := callsOfTenant_cons l (leases.erase l) tenant
  have hnonneg := callsOfTenant_nonneg (leases.erase l) tenant
  rw [Multiset.cons_erase hl] at hcons
  rw [hinflight, inflight_setTenant _ ht]
  by_cases heq : tenant = l.scope.tenant
  · rw [if_pos heq.symm] at hcons
    rw [if_pos heq, ← heq, h tenant ht]
    split_ifs <;> omega
  · rw [if_neg (Ne.symm heq), add_zero] at hcons
    rw [if_neg heq, h tenant ht, hcons]

variable {s : System}

/-- A call is admitted within the limits, or refused; room is made from the caller's own states or
a larger share. -/
lemma acquire_spec (h : s.Kept) {order : List Principal} (horder : s.visits order = true) (scope : Scope)
    (r : Reservation) :
    ∃ m lease, s.manager.acquireWithReservation order scope r s.now = some (m, lease) ∧
      System.Kept ⟨m, lease.elim s.leases (· ::ₘ s.leases), s.now⟩ ∧ s.manager.SameLimits m ∧
      ∀ l, lease = some l → l.scope = scope ∧
        WithinLimits m scope (s.manager.limits scope) (s.manager.tenantConcurrency scope.tenant) := by
  obtain ⟨m₁, hprune, hbooks₁, hsame₁⟩ := h.books.prune s.now
  have hvisits : order.Perm m₁.holders.keys := by simpa [System.visits, hprune] using horder
  obtain ⟨found, hfound, hstate⟩ := hbooks₁.acquireState hvisits scope s.now
  have htenants₁ := h.tenants.same hsame₁
  simp only [Manager.acquireWithReservation, hprune, hfound, Option.bind_eq_bind, Option.bind_some]
  cases found with
  | none => exact ⟨m₁, none, rfl, ⟨hbooks₁, htenants₁, h.costs⟩, hsame₁.sameLimits, by simp⟩
  | some m₂ =>
    obtain ⟨hbooks₂, hsame₂, ⟨st, hst⟩, -⟩ := hstate m₂ rfl
    have hlookup : m₂.sessions.lookup scope = some st := hst
    have hsame := hsame₁.trans hsame₂
    have htenants₂ := htenants₁.same hsame₂
    simp only [hlookup, Option.bind_some]
    by_cases hover : Manager.overLimits (m₁.limits scope) st (Manager.normalizeReservation r) = true
    · exact ⟨m₂, none, by simp [hover], ⟨hbooks₂, htenants₂, h.costs⟩, hsame.sameLimits, by simp⟩
    · by_cases hfull : m₂.tenantFull scope.tenant = true
      · exact ⟨m₂, none, by simp [hover, hfull], ⟨hbooks₂, htenants₂, h.costs⟩, hsame.sameLimits, by simp⟩
      · obtain ⟨m₃, hbegin, hbooks₃, hlimits, hinflight, hst₃⟩ :=
          hbooks₂.begins hst (Manager.normalizeReservation r) s.now (m₁.limits scope)
        refine ⟨m₃, some ⟨scope, m₁.limits scope, (Manager.normalizeReservation r).cost⟩, by simp [hover, hfull, hbegin],
          ⟨hbooks₃, htenants₂.begins _ hinflight, ?_⟩, hsame.sameLimits.trans hlimits, ?_⟩
        · intro l hl
          rcases Multiset.mem_cons.mp hl with rfl | hl
          · exact le_max_right _ _
          · exact h.costs l hl
        · rintro _ ⟨⟩
          have hrange := GoInt.int64_range (reservedOf s.leases scope)
          have hheld := (hbooks₂.loaded.state hst).2
          obtain ⟨hcost, hconcurrent⟩ := within_of_admitted (r := Manager.normalizeReservation r) (le_max_right _ _)
            (by rw [hheld]; exact hrange.1) (by simpa using hover)
          rw [hsame₁.limits] at hcost hconcurrent
          refine ⟨rfl, ⟨_, hst₃, hcost, hconcurrent⟩, ?_⟩
          intro hpos
          have htenant : scope.tenant ≠ "" := by
            rintro hempty
            simp [Manager.tenantConcurrency, hempty] at hpos
          have hmax : m₂.tenantConcurrency scope.tenant = s.manager.tenantConcurrency scope.tenant := by
            rw [Manager.tenantConcurrency, Manager.tenantConcurrency, hsame.tenants]
          rw [hinflight, Manager.inflight_setTenant _ htenant, if_pos rfl]
          simp only [Manager.tenantFull, hmax, Bool.and_eq_true, decide_eq_true_eq, not_and, not_le] at hfull
          have := hfull hpos
          omega

lemma System.Kept.step {s' : System} (h : s.Kept) {a : Action} (hstep : s.step a = some s') :
    s'.Kept ∧ s'.manager.maxStates = s.manager.maxStates := by
  cases a with
  | acquire scope r order =>
    simp only [System.step] at hstep
    split_ifs at hstep with horder
    obtain ⟨m, lease, hacquire, hkept, hlimits, -⟩ := acquire_spec h horder scope r
    simp only [hacquire, Option.bind_eq_bind, Option.bind_some, Option.pure_def, Option.some.injEq] at hstep
    rw [← hstep]
    exact ⟨hkept, hlimits.maxStates⟩
  | complete l usage =>
    simp only [System.step] at hstep
    split_ifs at hstep with hl
    obtain ⟨m, flag, hcomplete, hbooks, hlimits, hinflight⟩ := h.books.ends hl usage s.now
    simp only [hcomplete, Option.bind_eq_bind, Option.bind_some, Option.pure_def, Option.some.injEq] at hstep
    rw [← hstep]
    exact ⟨⟨hbooks, h.tenants.ends hl hinflight, fun l' hl' => h.costs l' (Multiset.mem_of_mem_erase hl')⟩,
      hlimits.maxStates⟩
  | closeSession session =>
    obtain ⟨m, hclose, hbooks, hsame⟩ := h.books.closeSession session
    simp only [System.step, hclose, Option.map_some, Option.some.injEq] at hstep
    rw [← hstep]
    exact ⟨⟨hbooks, h.tenants.same hsame, h.costs⟩, hsame.maxStates⟩
  | updateLimits roles tenants =>
    cases hstep
    exact ⟨⟨⟨⟨h.books.shaped.nodup, h.books.shaped.idle, h.books.shaped.holders, h.books.shaped.size⟩, h.books.idle,
      h.books.loaded⟩, h.tenants, h.costs⟩, rfl⟩
  | wait elapsed =>
    cases hstep
    exact ⟨⟨h.books, h.tenants, h.costs⟩, rfl⟩

def start (roles : String → Limits) (tenants : String → Option Limits) (ttl maxStates now : Int) : System :=
  ⟨newWithBounds roles tenants ttl maxStates, 0, now⟩

lemma kept_start (roles : String → Limits) (tenants : String → Option Limits) (ttl maxStates now : Int) :
    (start roles tenants ttl maxStates now).Kept where
  books :=
    { shaped := ⟨nodup_nil, by simp [start, newWithBounds, Manager.table], fun _ => rfl, Nat.zero_le _⟩
      idle := by
        intro scope st h
        cases h
      loaded := fun _ => rfl }
  tenants := fun _ _ => rfl
  costs := by simp [start]

abbrev Reachable (start : System) : System → Prop := Transition.Reachable System.step (fun _ => True) start

lemma kept_of_reachable {roles : String → Limits} {tenants : String → Option Limits} {ttl maxStates now : Int}
    (h : Reachable (start roles tenants ttl maxStates now) s) :
    s.Kept ∧ s.manager.maxStates = (start roles tenants ttl maxStates now).manager.maxStates := by
  induction h with
  | start _ => exact ⟨kept_start roles tenants ttl maxStates now, rfl⟩
  | step _ hstep _ ih => exact ⟨(ih.1.step hstep).1, (ih.1.step hstep).2.trans ih.2⟩

structure System.Accounts (s : System) (bound : Nat) : Prop where
  /-- A scope's calls are its uncompleted leases, its reservation their sum: in int64, and
  exactly where the sum fits. -/
  scopes : ∀ scope st, s.manager.table scope = some st →
    st.inflight = callsOf s.leases scope ∧ st.reserved = int64 (reservedOf s.leases scope) ∧
      (reservedOf s.leases scope < 2 ^ 63 → st.reserved = reservedOf s.leases scope)
  tenants : ∀ tenant, tenant ≠ "" → s.manager.inflight tenant = callsOfTenant s.leases tenant
  /-- A state a lease runs in is in the table, and `Complete` finds it. -/
  running : ∀ l ∈ s.leases, (∃ st, s.manager.table l.scope = some st) ∧
    ∀ usage, (s.manager.complete l usage s.now).isSome
  idle : s.manager.idle.Nodup ∧
    ∀ scope, scope ∈ s.manager.idle ↔ ∃ st, s.manager.table scope = some st ∧ st.inflight = 0
  /-- A principal's share counts its states and lists its idle ones, each once. -/
  holders : ∀ p, match s.manager.holders.lookup p with
    | some h => h.states = s.manager.states p ∧ h.idle.Nodup ∧
        ∀ scope, scope ∈ h.idle ↔ scope.principal = p ∧ ∃ st, s.manager.table scope = some st ∧ st.inflight = 0
    | none => s.manager.states p = 0
  size : s.manager.sessions.keys.length ≤ bound

lemma reservedOf_nonneg (h : ∀ l ∈ leases, 0 ≤ l.reservedCost) (scope : Scope) :
    0 ≤ reservedOf leases scope := by
  apply Multiset.sum_nonneg
  intro x hx
  obtain ⟨l, hl, rfl⟩ := Multiset.mem_map.mp hx
  exact h l (Multiset.mem_of_mem_filter hl)

lemma System.Kept.mem_idle (h : s.Kept) (scope : Scope) :
    scope ∈ s.manager.idle ↔ ∃ st, s.manager.table scope = some st ∧ st.inflight = 0 := by
  rw [h.books.shaped.idle]
  constructor
  · rintro ⟨st, hst, hlisted⟩
    exact ⟨st, hst, (h.books.idle scope st hst).mp hlisted⟩
  · rintro ⟨st, hst, hzero⟩
    exact ⟨st, hst, (h.books.idle scope st hst).mpr hzero⟩

lemma System.Kept.accounts (h : s.Kept) : s.Accounts s.manager.maxStates where
  scopes := by
    intro scope st hst
    obtain ⟨hcalls, hreserved⟩ := h.books.loaded.state hst
    refine ⟨hcalls, hreserved, ?_⟩
    intro hfits
    have hnonneg := reservedOf_nonneg h.costs scope
    rw [hreserved, GoInt.keepsInt64_int64 _ (by omega) hfits]
  tenants := h.tenants
  running := by
    intro l hl
    refine ⟨h.books.loaded.exists_state hl, ?_⟩
    intro usage
    obtain ⟨m, flag, hcomplete, -⟩ := h.books.ends hl usage s.now
    rw [hcomplete]
    rfl
  idle := ⟨h.books.shaped.nodup, h.mem_idle⟩
  holders := by
    intro p
    rw [h.books.shaped.holders p, Manager.share]
    split_ifs with hzero
    · exact hzero
    · refine ⟨rfl, h.books.shaped.nodup.filter _, ?_⟩
      intro scope
      rw [mem_filter, decide_eq_true_eq, h.mem_idle, and_comm]
  size := h.books.shaped.size

end SqlMcpServer.Budget
