import SqlMcpServer.Tool.Transaction

namespace SqlMcpServer.Transactions

open List
open Function (update update_of_ne update_self)

/-- The outcome is how the transaction stands on the database. -/
def Matches : Outcome → TxState → Prop
  | .committed, tx => tx = .committed
  | .rolledBack, tx | .expired, tx => tx = .rolledBack
  | .unknown, tx => tx = .lost

def Handle.Doomed (h : Handle) : Prop :=
  match h.stage with
  | .aborting _ | .finishing _ false => True
  | .burying _ | .ended => h.tx = .rolledBack
  | _ => False

def Handle.Sound (h : Handle) : Prop :=
  match h.stage with
  | .begun => h.closed = false ∧ h.tx = .opened ∧ h.endings = 0 ∧ h.holder = none
  | .registered | .finishing _ _ => h.closed = false ∧ h.tx = .opened ∧ h.endings = 0
  | .aborting o => h.closed = false ∧ h.tx = .opened ∧ h.endings = 0 ∧ Matches o .rolledBack
  | .burying o => h.closed = true ∧ h.holder = none ∧ h.endings = 1 ∧ Matches o h.tx
  | .ended => h.closed = true ∧ h.holder = none ∧ h.endings = 1 ∧ h.tx ≠ .opened

structure Evolves (h h' : Handle) : Prop where
  session : h'.session = h.session
  scope : h'.scope = h.scope
  connection : h'.connection = h.connection
  dirty : h.dirty ⊆ h'.dirty
  closed : h.closed = true → h'.closed = true ∧ h'.tx = h.tx ∧ h'.dirty = h.dirty
  doomed : h.Doomed → h'.Doomed
  begun : h.stage ≠ .begun → h'.stage ≠ .begun
  registered : h.stage = .registered →
    h'.stage = .registered ∨ h'.Doomed ∨ ∃ i, h'.stage = .finishing i true
  ended : h.stage = .ended → h'.stage = .ended

lemma Evolves.refl (h : Handle) : Evolves h h :=
  ⟨rfl, rfl, rfl, List.Subset.refl _, fun hc => ⟨hc, rfl, rfl⟩, id, id, .inl, id⟩

def Call.Owns (c : Call) (h : Handle) : Prop := h.session = c.caller.session ∧ h.scope = c.caller.scope

/-- The token whose handle a goroutine has a fact of. -/
def PC.token : PC → Option Token
  | .found c | .expiring c | .granted c | .holds c | .running c | .failing c | .finishing c | .returning c _
  | .awaiting c _ => some c.token
  | _ => none

def PC.Says : PC → Handle → Prop
  | .expiring c, h | .granted c, h | .holds c, h | .running c, h | .failing c, h | .finishing c, h => c.Owns h
  | .returning c (some targets), h => c.Owns h ∧ h.tx = .committed ∧ h.dirty = targets ∧ h.closed = true
  | .returning c none, h => c.Owns h
  | .awaiting c _, h => c.Owns h ∧ h.Doomed
  | _, _ => True

def PC.Fact (p : PC) (h : Handle) : Prop := h.stage ≠ .begun ∧ p.Says h

def Event.token : Event → Option Token
  | .marked t _ _ | .ran t _ _ | .failed t _ | .committed t _ _ | .told t _ _ => some t
  | .closed => none

def Event.caller : Event → Option Caller
  | .marked _ c _ | .ran _ c _ | .failed _ c | .committed _ c _ | .told _ c _ => some c
  | .closed => none

/-- What an event says of its handle whatever happens later. -/
def Event.Fact : Event → Handle → Prop
  | .marked _ c targets, h | .ran _ c targets, h => h.session = c.session ∧ h.scope = c.scope ∧ targets ⊆ h.dirty
  | .failed _ c, h | .told _ c _, h => h.session = c.session ∧ h.scope = c.scope
  | .committed _ c targets, h =>
    h.session = c.session ∧ h.scope = c.scope ∧ h.tx = .committed ∧ h.dirty = targets ∧ h.closed = true
  | .closed, _ => True

lemma Call.Owns.evolves {c : Call} {h h' : Handle} (hc : c.Owns h) (he : Evolves h h') : c.Owns h' :=
  ⟨he.session.trans hc.1, he.scope.trans hc.2⟩

lemma PC.Fact.evolves {p : PC} {h h' : Handle} (hp : p.Fact h) (he : Evolves h h') : p.Fact h' := by
  refine ⟨he.begun hp.1, ?_⟩
  have hp := hp.2
  cases p with
  | expiring c | granted c | holds c | running c | failing c | finishing c => exact Call.Owns.evolves hp he
  | returning c committed =>
    cases committed with
    | none => exact Call.Owns.evolves hp he
    | some targets =>
      obtain ⟨hc, htx, hdirty, hclosed⟩ := hp
      obtain ⟨hclosed', htx', hdirty'⟩ := he.closed hclosed
      exact ⟨hc.evolves he, htx'.trans htx, hdirty'.trans hdirty, hclosed'⟩
  | awaiting c _ => exact ⟨Call.Owns.evolves hp.1 he, he.doomed hp.2⟩
  | _ => trivial

lemma Event.Fact.evolves {e : Event} {h h' : Handle} (hf : e.Fact h) (he : Evolves h h') : e.Fact h' := by
  cases e with
  | marked _ c targets | ran _ c targets =>
    exact ⟨he.session.trans hf.1, he.scope.trans hf.2.1, List.Subset.trans hf.2.2 he.dirty⟩
  | failed _ c | told _ c _ => exact ⟨he.session.trans hf.1, he.scope.trans hf.2⟩
  | committed _ c targets =>
    obtain ⟨hsession, hscope, htx, hdirty, hclosed⟩ := hf
    obtain ⟨hclosed', htx', hdirty'⟩ := he.closed hclosed
    exact ⟨he.session.trans hsession, he.scope.trans hscope, htx'.trans htx, hdirty'.trans hdirty, hclosed'⟩
  | closed => trivial

def isRegistered (which : Handle → Prop) [DecidablePred which] (h : Option Handle) : Bool :=
  h.any fun h => h.stage = .registered ∧ which h

def State.registered (s : State) (which : Handle → Prop) [DecidablePred which] : Nat :=
  s.tokens.countP fun t => isRegistered which (s.handles t)

def Tombstone.Fact (b : Tombstone) (h : Handle) : Prop :=
  h.stage = .ended ∧ b.session = h.session ∧ b.scope = h.scope ∧ Matches b.outcome h.tx

structure Inv (s : State) : Prop where
  sound : ∀ t h, s.handles t = some h → h.Sound
  tokens : ∀ t, t ∈ s.tokens ↔ (s.handles t).isSome
  nodup : s.tokens.Nodup
  openCount : ∀ scope, s.openCount scope = s.registered fun h => h.scope = scope
  byConnection : ∀ connection, s.byConnection connection = s.registered fun h => h.connection = connection
  tombstones : ∀ t b, s.tombstones t = some b → ∃ h, s.handles t = some h ∧ b.Fact h
  pcs : ∀ i t, (s.pc i).token = some t → ∃ h, s.handles t = some h ∧ (s.pc i).Fact h
  events : ∀ e ∈ s.log, ∀ t, e.token = some t → ∃ h, s.handles t = some h ∧ e.Fact h
  closed : s.closed = true → ∀ t h, s.handles t = some h → h.stage ≠ .registered
  logged : .closed ∈ s.log → s.closed = true

def Grows (s s' : State) : Prop := ∀ t h, s.handles t = some h → ∃ h', s'.handles t = some h' ∧ Evolves h h'

lemma countP_drop {α : Type} {p q : α → Bool} {l : List α} {a : α} (hnodup : l.Nodup) (ha : a ∈ l)
    (hsame : ∀ x, x ≠ a → p x = q x) (hp : p a = true) (hq : q a = false) : l.countP p = l.countP q + 1 := by
  induction l with
  | nil => simp at ha
  | cons b l ih =>
    rw [nodup_cons] at hnodup
    rw [countP_cons, countP_cons]
    by_cases hb : b = a
    · subst hb
      have hrest : l.countP p = l.countP q :=
        countP_congr fun x hx => by rw [hsame x fun heq => hnodup.1 (heq ▸ hx)]
      simp [hp, hq, hrest]
    · have hmem : a ∈ l := (mem_cons.mp ha).resolve_left fun h => hb h.symm
      rw [ih hnodup.2 hmem, hsame b hb]
      omega

section Primitives
variable {s : State} {t : Token} {h h' : Handle}

lemma handles_put (s : State) (t u : Token) (h : Handle) :
    (s.put t h).handles u = if u = t then some h else s.handles u := by
  simp [State.put, Function.update_apply]

lemma handles_put_self (s : State) (t : Token) (h : Handle) : (s.put t h).handles t = some h := by
  rw [handles_put, if_pos rfl]

lemma Grows.put (ht : s.handles t = some h) (he : Evolves h h') : Grows s (s.put t h') := by
  intro u g hg
  rw [handles_put]
  by_cases hu : u = t
  · subst hu
    rw [ht, Option.some.injEq] at hg
    subst hg
    exact ⟨h', by simp, he⟩
  · exact ⟨g, by simp [hu, hg], .refl g⟩

lemma Tombstone.Fact.evolves {b : Tombstone} (hf : b.Fact h) (hsound : h.Sound) (he : Evolves h h') : b.Fact h' := by
  obtain ⟨hstage, hsession, hscope, hm⟩ := hf
  have hclosed : h.closed = true := by
    rw [Handle.Sound, hstage] at hsound
    exact hsound.1
  refine ⟨he.ended hstage, hsession.trans he.session.symm, hscope.trans he.scope.symm, ?_⟩
  rwa [(he.closed hclosed).2.1]

lemma Inv.grow (hi : Inv s) {s' : State} (hgrow : Grows s s') (hsound : ∀ t h, s'.handles t = some h → h.Sound)
    (htokens : ∀ t, t ∈ s'.tokens ↔ (s'.handles t).isSome) (hnodup : s'.tokens.Nodup)
    (hopen : ∀ scope, s'.openCount scope = s'.registered fun h => h.scope = scope)
    (hconn : ∀ connection, s'.byConnection connection = s'.registered fun h => h.connection = connection)
    (htomb : s'.tombstones = s.tombstones) (hpc : s'.pc = s.pc) (hlog : s'.log = s.log) (hclosed : s'.closed = s.closed)
    (hnone : s.closed = true → ∀ t h, s'.handles t = some h → h.stage ≠ .registered) : Inv s' where
  sound := hsound
  tokens := htokens
  nodup := hnodup
  openCount := hopen
  byConnection := hconn
  tombstones t b hb := by
    obtain ⟨h, hh, hf⟩ := hi.tombstones t b (htomb ▸ hb)
    obtain ⟨h', hh', he⟩ := hgrow t h hh
    exact ⟨h', hh', hf.evolves (hi.sound t h hh) he⟩
  pcs i t ht := by
    rw [hpc] at ht ⊢
    obtain ⟨h, hh, hf⟩ := hi.pcs i t ht
    obtain ⟨h', hh', he⟩ := hgrow t h hh
    exact ⟨h', hh', hf.evolves he⟩
  events e he t ht := by
    obtain ⟨h, hh, hf⟩ := hi.events e (hlog ▸ he) t ht
    obtain ⟨h', hh', hev⟩ := hgrow t h hh
    exact ⟨h', hh', hf.evolves hev⟩
  closed hc := hnone (hclosed ▸ hc)
  logged hmem := hclosed ▸ hi.logged (hlog ▸ hmem)

lemma registered_put (hi : Inv s) (ht : s.handles t = some h) (h' : Handle) (which : Handle → Prop) [DecidablePred which] :
    (s.put t h').registered which + (if h.stage = .registered ∧ which h then 1 else 0) =
      s.registered which + (if h'.stage = .registered ∧ which h' then 1 else 0) := by
  have hmem : t ∈ s.tokens := by simp [hi.tokens, ht]
  have hsame : ∀ u, u ≠ t → isRegistered which ((s.put t h').handles u) = isRegistered which (s.handles u) := by
    intro u hu
    rw [handles_put, if_neg hu]
  have hold : isRegistered which (s.handles t) = decide (h.stage = .registered ∧ which h) := by
    simp [isRegistered, ht]
  have hnew : isRegistered which ((s.put t h').handles t) = decide (h'.stage = .registered ∧ which h') := by
    rw [handles_put, if_pos rfl]
    simp [isRegistered]
  unfold State.registered
  change List.countP _ s.tokens + _ = _
  by_cases hp : h.stage = .registered ∧ which h
  · by_cases hq : h'.stage = .registered ∧ which h'
    · rw [if_pos hp, if_pos hq]
      refine congrArg (· + 1) (countP_congr fun u _ => ?_)
      by_cases hu : u = t
      · rw [hu, hold, hnew, decide_eq_true hp, decide_eq_true hq]
      · rw [hsame u hu]
    · rw [if_pos hp, if_neg hq]
      exact (countP_drop hi.nodup hmem (fun u hu => (hsame u hu).symm) (by simpa [hold] using hp)
        (by simpa [hnew] using hq)).symm
  · by_cases hq : h'.stage = .registered ∧ which h'
    · rw [if_neg hp, if_pos hq]
      exact countP_drop hi.nodup hmem hsame (by simpa [hnew] using hq) (by simpa [hold] using hp)
    · rw [if_neg hp, if_neg hq]
      refine countP_congr fun u _ => ?_
      by_cases hu : u = t
      · rw [hu, hold, hnew, decide_eq_false hp, decide_eq_false hq]
      · rw [hsame u hu]

lemma sound_put (hi : Inv s) (hsound : h'.Sound) : ∀ u g, (s.put t h').handles u = some g → g.Sound := by
  intro u g hg
  rw [handles_put] at hg
  split at hg
  · cases hg
    exact hsound
  · exact hi.sound u g hg

lemma tokens_put (hi : Inv s) (ht : s.handles t = some h) (u : Token) :
    u ∈ s.tokens ↔ ((s.put t h').handles u).isSome := by
  rw [handles_put]
  split
  · subst u
    simp [hi.tokens, ht]
  · exact hi.tokens u

lemma Inv.put (hi : Inv s) (ht : s.handles t = some h) (he : Evolves h h') (hsound : h'.Sound)
    (hreg : h'.stage = .registered ↔ h.stage = .registered) : Inv (s.put t h') := by
  refine hi.grow (Grows.put ht he) (sound_put hi hsound) (tokens_put hi ht) hi.nodup (fun scope => ?_)
    (fun connection => ?_) rfl rfl rfl rfl fun hclosed u g hg => ?_
  · have := registered_put hi ht h' fun h => h.scope = scope
    simp only [hreg, he.scope] at this
    exact (hi.openCount scope).trans (by omega)
  · have := registered_put hi ht h' fun h => h.connection = connection
    simp only [hreg, he.connection] at this
    exact (hi.byConnection connection).trans (by omega)
  · rw [handles_put] at hg
    split at hg
    · cases hg
      rw [ne_eq, hreg]
      exact hi.closed hclosed t h ht
    · exact hi.closed hclosed u g hg

lemma Inv.goto (hi : Inv s) {i : Thread} {p : PC}
    (hp : ∀ t, p.token = some t → ∃ h, s.handles t = some h ∧ p.Fact h) : Inv (s.goto i p) := by
  refine { hi with pcs := fun j t ht => ?_ }
  by_cases hj : j = i
  · subst hj
    simp only [State.goto, update_self] at ht ⊢
    exact hp t ht
  · simp only [State.goto, update_of_ne hj] at ht ⊢
    exact hi.pcs j t ht

lemma Inv.goto_none (hi : Inv s) {i : Thread} {p : PC} (hp : p.token = none) : Inv (s.goto i p) :=
  hi.goto (by simp [hp])

lemma Inv.goto_some (hi : Inv s) {i : Thread} {p : PC} (hp : p.token = some t) (ht : s.handles t = some h)
    (hf : p.Fact h) : Inv (s.goto i p) := by
  refine hi.goto fun u hu => ?_
  rw [hp, Option.some.injEq] at hu
  exact ⟨h, hu ▸ ht, hf⟩

lemma Inv.record (hi : Inv s) {e : Event} (ht : s.handles t = some h) (he : e.token = some t) (hf : e.Fact h) :
    Inv (s.record e) := by
  refine { hi with events := fun f hmem u hu => ?_, logged := fun hmem => ?_ }
  · rcases mem_cons.mp hmem with rfl | hmem
    · rw [he, Option.some.injEq] at hu
      exact ⟨h, hu ▸ ht, hf⟩
    · exact hi.events f hmem u hu
  · refine hi.logged ((mem_cons.mp hmem).resolve_left ?_)
    rintro rfl
    simp [Event.token] at he

/-- The paths that take a handle out of the table. -/
def Stage.takes : Stage → Prop
  | .aborting o => Matches o .rolledBack
  | .finishing _ _ => True
  | _ => False

lemma Handle.Sound.taken (hsound : h.Sound) (hreg : h.stage = .registered) (stage : Stage) (htakes : stage.takes) :
    { h with stage }.Sound ∧ Evolves h { h with stage } := by
  rw [Handle.Sound, hreg] at hsound
  cases stage with
  | aborting o =>
    refine ⟨⟨hsound.1, hsound.2.1, hsound.2.2, htakes⟩, rfl, rfl, rfl, List.Subset.refl _, fun hc => ⟨hc, rfl, rfl⟩, ?_, ?_, ?_, ?_⟩ <;>
      simp [Handle.Doomed, hreg]
  | finishing i commit =>
    refine ⟨hsound, rfl, rfl, rfl, List.Subset.refl _, fun hc => ⟨hc, rfl, rfl⟩, ?_, ?_, ?_, ?_⟩ <;>
      cases commit <;> simp [Handle.Doomed, hreg]
  | begun | registered | burying _ | ended => exact htakes.elim

lemma Inv.take (hi : Inv s) (ht : s.handles t = some h) (hreg : h.stage = .registered) {stage : Stage}
    (htakes : stage.takes) : Inv (s.take t h stage) := by
  obtain ⟨hsound, he⟩ := (hi.sound t h ht).taken hreg stage htakes
  have hne : stage ≠ .registered := by
    rintro rfl
    exact htakes
  refine hi.grow (Grows.put ht he) (sound_put hi hsound) (tokens_put hi ht) hi.nodup (fun scope => ?_)
    (fun connection => ?_) rfl rfl rfl rfl fun hclosed u g hg => ?_
  · have hcount := registered_put hi ht { h with stage } fun h => h.scope = scope
    change update s.openCount h.scope (s.openCount h.scope - 1) scope =
      (s.put t { h with stage }).registered _
    by_cases hsc : scope = h.scope
    · subst hsc
      rw [update_self, hi.openCount]
      simp only [hreg, hne, and_self, if_true, false_and, if_false] at hcount
      omega
    · rw [update_of_ne hsc, hi.openCount]
      simp only [hreg, hne, Ne.symm hsc, and_false, if_false] at hcount
      omega
  · have hcount := registered_put hi ht { h with stage } fun h => h.connection = connection
    change update s.byConnection h.connection (s.byConnection h.connection - 1) connection =
      (s.put t { h with stage }).registered _
    by_cases hsc : connection = h.connection
    · subst hsc
      rw [update_self, hi.byConnection]
      simp only [hreg, hne, and_self, if_true, false_and, if_false] at hcount
      omega
    · rw [update_of_ne hsc, hi.byConnection]
      simp only [hreg, hne, Ne.symm hsc, and_false, if_false] at hcount
      omega
  · exact absurd hreg (hi.closed hclosed t h ht)

lemma Inv.begin (hi : Inv s) (ht : t ∉ s.tokens) (hsound : h.Sound) (hstage : h.stage = .begun) :
    Inv { s.put t h with tokens := t :: s.tokens } := by
  have hnone : s.handles t = none := by simpa [hi.tokens] using ht
  have hgrow : Grows s { s.put t h with tokens := t :: s.tokens } := by
    intro u g hg
    have hu : u ≠ t := by
      rintro rfl
      simp [hnone] at hg
    exact ⟨g, by simpa [handles_put, hu] using hg, .refl g⟩
  have hcount (which : Handle → Prop) [DecidablePred which] :
      State.registered { s.put t h with tokens := t :: s.tokens } which = s.registered which := by
    unfold State.registered
    rw [countP_cons]
    have hnew : isRegistered which ((s.put t h).handles t) = false := by
      simp [handles_put, isRegistered, hstage]
    simp only [hnew, Bool.false_eq_true, if_false]
    refine countP_congr fun u hu => ?_
    rw [handles_put, if_neg fun (heq : u = t) => ht (heq ▸ hu)]
  refine hi.grow hgrow (sound_put hi hsound) (fun u => ?_) (nodup_cons.mpr ⟨ht, hi.nodup⟩)
    (fun scope => (hi.openCount scope).trans (hcount _).symm)
    (fun connection => (hi.byConnection connection).trans (hcount _).symm) rfl rfl rfl rfl fun hclosed u g hg => ?_
  · by_cases hu : u = t
    · simp [handles_put, hu]
    · simpa [handles_put, hu] using hi.tokens u
  · simp only [handles_put] at hg
    split at hg
    · cases hg
      simp [hstage]
    · exact hi.closed hclosed u g hg

lemma Handle.Sound.registered (hsound : h.Sound) (hstage : h.stage = .begun) (used idle : Nat) :
    { h with stage := .registered, used, idle }.Sound ∧ Evolves h { h with stage := .registered, used, idle } := by
  rw [Handle.Sound, hstage] at hsound
  refine ⟨⟨hsound.1, hsound.2.1, hsound.2.2.1⟩, rfl, rfl, rfl, List.Subset.refl _, fun hc => ⟨hc, rfl, rfl⟩, ?_, ?_, ?_, ?_⟩ <;>
    simp [Handle.Doomed, hstage]

lemma Inv.register (hi : Inv s) (ht : s.handles t = some h) (hstage : h.stage = .begun) (hopen : s.closed = false) :
    Inv (s.register t h) := by
  obtain ⟨hsound, he⟩ := (hi.sound t h ht).registered hstage s.now s.idle
  refine hi.grow (Grows.put ht he) (sound_put hi hsound) (tokens_put hi ht) hi.nodup (fun scope => ?_)
    (fun connection => ?_) rfl rfl rfl rfl fun hclosed => by simp [hopen] at hclosed
  · have hcount := registered_put hi ht { h with stage := .registered, used := s.now, idle := s.idle }
      fun h => h.scope = scope
    change update s.openCount h.scope (s.openCount h.scope + 1) scope = (s.put t _).registered _
    by_cases hsc : scope = h.scope
    · subst hsc
      rw [update_self, hi.openCount]
      simpa [hstage] using hcount.symm
    · rw [update_of_ne hsc, hi.openCount]
      simpa [hstage, Ne.symm hsc] using hcount.symm
  · have hcount := registered_put hi ht { h with stage := .registered, used := s.now, idle := s.idle }
      fun h => h.connection = connection
    change update s.byConnection h.connection (s.byConnection h.connection + 1) connection =
      (s.put t _).registered _
    by_cases hsc : connection = h.connection
    · subst hsc
      rw [update_self, hi.byConnection]
      simpa [hstage] using hcount.symm
    · rw [update_of_ne hsc, hi.byConnection]
      simpa [hstage, Ne.symm hsc] using hcount.symm

lemma prune_sub {now : Nat} {l : List Token} {ts : Token → Option Tombstone} {b : Tombstone}
    (h : (prune now l ts).2 t = some b) : ts t = some b := by
  induction l generalizing ts with
  | nil => exact h
  | cons u rest ih =>
    unfold prune at h
    split at h
    · split at h
      · exact h
      · have := ih h
        by_cases hu : t = u
        · subst hu
          simp at this
        · rwa [update_of_ne hu] at this
    · exact ih h

lemma Handle.Sound.buried (hsound : h.Sound) {o : Outcome} (hstage : h.stage = .burying o) :
    { h with stage := .ended }.Sound ∧ Evolves h { h with stage := .ended } := by
  rw [Handle.Sound, hstage] at hsound
  obtain ⟨hclosed, hholder, hendings, hm⟩ := hsound
  have htx : h.tx ≠ .opened := by
    intro htx
    rw [htx] at hm
    cases o <;> simp [Matches] at hm
  refine ⟨⟨hclosed, hholder, hendings, htx⟩, rfl, rfl, rfl, List.Subset.refl _, fun hc => ⟨hc, rfl, rfl⟩, ?_, ?_, ?_, ?_⟩ <;>
    simp [Handle.Doomed, hstage]

lemma Inv.bury (hi : Inv s) (ht : s.handles t = some h) {o : Outcome} (hstage : h.stage = .burying o) :
    Inv (s.bury t h o) := by
  have hsound := hi.sound t h ht
  have hput : Inv (s.put t { h with stage := .ended }) :=
    hi.put ht (hsound.buried hstage).2 (hsound.buried hstage).1 (by simp [hstage])
  refine { hput with tombstones := fun u b hb => ?_ }
  have hb := prune_sub hb
  by_cases hu : u = t
  · subst hu
    rw [update_self, Option.some.injEq] at hb
    subst hb
    rw [Handle.Sound, hstage] at hsound
    exact ⟨{ h with stage := .ended }, by simp [State.bury, handles_put], rfl, rfl, rfl, hsound.2.2.2⟩
  · rw [update_of_ne hu] at hb
    exact hput.tombstones u b hb

lemma Handle.Sound.discarded (hsound : h.Sound) (hstage : h.stage = .begun) :
    { h.close .rolledBack .rolledBack with stage := .ended }.Sound ∧
      Evolves h { h.close .rolledBack .rolledBack with stage := .ended } := by
  rw [Handle.Sound, hstage] at hsound
  obtain ⟨hclosed, _, hendings, hholder⟩ := hsound
  refine ⟨⟨rfl, hholder, by simp [Handle.close, hendings], nofun⟩, rfl, rfl, rfl, List.Subset.refl _, ?_, ?_, ?_, ?_, ?_⟩ <;>
    simp [Handle.Doomed, Handle.close, hstage, hclosed]

lemma Inv.discard (hi : Inv s) (ht : s.handles t = some h) (hstage : h.stage = .begun) :
    Inv (s.discard t h) := by
  obtain ⟨hsound, he⟩ := (hi.sound t h ht).discarded hstage
  exact hi.put ht he hsound (by simp [hstage])

end Primitives

end SqlMcpServer.Transactions
