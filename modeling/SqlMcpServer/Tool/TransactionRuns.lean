import SqlMcpServer.Tool.TransactionLaws
import Mathlib.Tactic.SplitIfs

namespace SqlMcpServer.Transactions

open List

section Bulk
variable {s : State} {which : Handle → Bool} {outcome : Outcome}

def Takes (which : Handle → Bool) (outcome : Outcome) (s s' : State) : Prop :=
  ∀ t, s'.handles t = s.handles t ∨ ∃ h, s.handles t = some h ∧ h.stage = .registered ∧ which h = true ∧
    s'.handles t = some { h with stage := .aborting outcome }

lemma Takes.trans {s' s'' : State} (h : Takes which outcome s s') (h' : Takes which outcome s' s'') :
    Takes which outcome s s'' := by
  intro t
  rcases h t with heq | ⟨g, hg, hreg, hwhich, hg'⟩
  · rw [← heq]
    exact h' t
  · rcases h' t with heq' | ⟨k, hk, hkreg, _⟩
    · exact .inr ⟨g, hg, hreg, hwhich, heq'.trans hg'⟩
    · -- A handle that was taken is not registered any more.
      rw [hg', Option.some.injEq] at hk
      simp [← hk] at hkreg

lemma takeIf_takes (t : Token) : Takes which outcome s (s.takeIf which outcome t) := by
  intro u
  unfold State.takeIf
  split
  · rename_i h ht
    split_ifs with hreg
    · by_cases hu : u = t
      · subst hu
        exact .inr ⟨h, ht, hreg.1, hreg.2, by simp [State.take, handles_put]⟩
      · exact .inl (by simp [State.take, handles_put, hu])
    · exact .inl rfl
  · exact .inl rfl

lemma Inv.takeIf (hi : Inv s) (ho : Matches outcome .rolledBack) (t : Token) : Inv (s.takeIf which outcome t) := by
  unfold State.takeIf
  split
  · rename_i h ht
    split_ifs with hreg
    · exact hi.take ht hreg.1 ho
    · exact hi
  · exact hi

lemma takeIf_none (t : Token) {h : Handle} (ht : (s.takeIf which outcome t).handles t = some h) :
    ¬ (h.stage = .registered ∧ which h = true) := by
  unfold State.takeIf at ht
  split at ht
  · rename_i g hg
    split_ifs at ht with hreg
    · simp only [State.take, handles_put, if_true, Option.some.injEq] at ht
      simp [← ht]
    · rw [hg, Option.some.injEq] at ht
      exact ht ▸ hreg
  · rename_i hnone
    simp [hnone] at ht

lemma takeIf_frame (t : Token) : (s.takeIf which outcome t).pc = s.pc ∧ (s.takeIf which outcome t).log = s.log := by
  unfold State.takeIf
  split
  · split_ifs <;> exact ⟨rfl, rfl⟩
  · exact ⟨rfl, rfl⟩

lemma foldl_takeIf (l : List Token) (hi : Inv s) (ho : Matches outcome .rolledBack) :
    Inv (l.foldl (State.takeIf which outcome) s) ∧ Takes which outcome s (l.foldl (State.takeIf which outcome) s) ∧
    (∀ t ∈ l, ∀ h, (l.foldl (State.takeIf which outcome) s).handles t = some h →
      ¬ (h.stage = .registered ∧ which h = true)) ∧
    (l.foldl (State.takeIf which outcome) s).pc = s.pc ∧ (l.foldl (State.takeIf which outcome) s).log = s.log := by
  induction l generalizing s with
  | nil => exact ⟨hi, fun _ => .inl rfl, by simp, rfl, rfl⟩
  | cons t l ih =>
    obtain ⟨hinv, htakes, hnone, hpc, hlog⟩ := ih (hi.takeIf ho t)
    refine ⟨hinv, (takeIf_takes t).trans htakes, fun u hu h hh => ?_, hpc.trans (takeIf_frame t).1,
      hlog.trans (takeIf_frame t).2⟩
    rcases mem_cons.mp hu with rfl | hu
    · rcases htakes u with heq | ⟨g, _, _, _, hg'⟩
      · exact takeIf_none u (heq ▸ hh)
      · rw [foldl_cons, hg', Option.some.injEq] at hh
        simp [← hh]
    · exact hnone u hu h hh

lemma takeAll_spec (hi : Inv s) (which : Handle → Bool) (outcome : Outcome) (ho : Matches outcome .rolledBack) :
    Inv (s.takeAll which outcome) ∧ Takes which outcome s (s.takeAll which outcome) ∧
    (∀ t h, (s.takeAll which outcome).handles t = some h → ¬ (h.stage = .registered ∧ which h = true)) ∧
    (s.takeAll which outcome).pc = s.pc ∧ (s.takeAll which outcome).log = s.log := by
  obtain ⟨hinv, htakes, hnone, hframe⟩ := foldl_takeIf s.tokens hi ho
  refine ⟨hinv, htakes, fun t h hh => hnone t ?_ h hh, hframe⟩
  rcases htakes t with heq | ⟨g, hg, _⟩
  · exact (hi.tokens t).mpr (by rw [← heq]; exact Option.isSome_of_mem hh)
  · exact (hi.tokens t).mpr (by simp [hg])

lemma takeAll_closed : { s with closed := true }.takeAll which outcome = { s.takeAll which outcome with closed := true } := by
  unfold State.takeAll
  refine foldl_hom (fun s : State => { s with closed := true }) fun s t => ?_
  simp only [State.takeIf]
  split
  · split_ifs <;> rfl
  · rfl

lemma Inv.close (hi : Inv s) (outcome : Outcome) (ho : Matches outcome .rolledBack) :
    Inv (({ s with closed := true }.takeAll (fun _ => true) outcome).record .closed) ∧
    Takes (fun _ => true) outcome s (({ s with closed := true }.takeAll (fun _ => true) outcome).record .closed) := by
  obtain ⟨hinv, htakes, hnone, _, _⟩ := takeAll_spec hi (fun _ => true) outcome ho
  rw [takeAll_closed]
  refine ⟨{ hinv with events := fun e he t ht => ?_, closed := fun _ t h hh hreg => ?_, logged := fun _ => rfl },
    htakes⟩
  · rcases mem_cons.mp he with rfl | he
    · simp [Event.token] at ht
    · exact hinv.events e he t ht
  · exact hnone t h hh ⟨hreg, rfl⟩

end Bulk

def PC.call : PC → Option Call
  | .looking c | .found c | .expiring c | .waiting c | .missed c | .granted c | .holds c | .running c | .failing c
  | .finishing c | .returning c _ | .awaiting c _ => some c
  | _ => none

/-- Who may change a handle: the call that began it, a call of its session and scope, its timers,
its session's end, the manager's, and an ending that began. -/
def Authorized (s : State) (a : Action) (t : Token) (h : Handle) : Prop :=
  match a with
  | .abandon i | .addHandle i => s.pc i = .begun t
  | .expire i | .proceed i | .finish i _ _ | .startStatement i _ | .endStatement i _ | .fail i =>
    ∃ c, (s.pc i).call = some c ∧ c.token = t ∧ c.Owns h
  | .expiryTimer u | .checkIdle u => u = t
  | .abort u | .bury u => u = t ∧ h.stage ≠ .registered
  | .rollbackSession session => session ≠ "" ∧ h.session = session
  | .close => True
  | _ => False

def Emits (s : State) : Event → Prop
  | .failed t caller => ∃ i c, c.token = t ∧ c.caller = caller ∧
    (s.pc i = .awaiting c .reportFailed ∨
      s.pc i = .failing c ∧ ∃ h, s.handles t = some h ∧ h.stage ≠ .registered)
  | .told t caller outcome => ∃ i c, c.token = t ∧ c.caller = caller ∧
    (s.pc i = .missed c ∧ s.endedError t caller = some outcome ∨
      outcome = .expired ∧ (s.pc i = .awaiting c .tellExpired ∨
        s.pc i = .expiring c ∧ ∃ h, s.handles t = some h ∧ h.stage ≠ .registered))
  | _ => True

def FailsFrom (s s' : State) : Prop :=
  ∀ j c, s'.pc j = .failing c → s.pc j = .failing c ∨ ∃ h', s'.handles c.token = some h' ∧ h'.closed = false

structure Keeps (s : State) (a : Action) (s' : State) : Prop where
  inv : Inv s'
  handles : ∀ t h, s.handles t = some h →
    ∃ h', s'.handles t = some h' ∧ Evolves h h' ∧ (h' ≠ h → Authorized s a t h)
  registers : ∀ t h', s'.handles t = some h' → h'.stage = .registered → ∃ h, s.handles t = some h ∧
    (h.stage = .registered ∨ h'.scope = h.scope ∧ h'.connection = h.connection ∧ s.closed = false ∧
      s.hasCapacity h.scope h.connection = true)
  log : s'.log = s.log ∨ ∃ e, s'.log = e :: s.log ∧ Emits s e
  failing : FailsFrom s s'

section Steps
variable {s s' : State} {a : Action} {i : Thread} {c : Call} {t : Token} {h h' : Handle}

lemma Inv.fact (hi : Inv s) {p : PC} (hpc : s.pc i = p) (hp : p.token = some t) (ht : s.handles t = some h) :
    p.Fact h := by
  obtain ⟨g, hg, hf⟩ := hi.pcs i t (by rw [hpc, hp])
  rw [ht, Option.some.injEq] at hg
  rw [hg, ← hpc]
  exact hf

lemma FailsFrom.of_eq (h : s'.pc = s.pc) : FailsFrom s s' := fun j c hc => .inl (by rw [← h, hc])

lemma FailsFrom.goto {p : PC} (h : s'.pc = Function.update s.pc i p) (hp : ∀ c, p ≠ .failing c) : FailsFrom s s' := by
  intro j c hc
  rw [h] at hc
  by_cases hj : j = i
  · subst hj
    rw [Function.update_self] at hc
    exact absurd hc (hp c)
  · rw [Function.update_of_ne hj] at hc
    exact .inl hc

lemma Keeps.same (hinv : Inv s') (hh : s'.handles = s.handles) (hlog : s'.log = s.log ∨ ∃ e, s'.log = e :: s.log ∧ Emits s e)
    (hfailing : FailsFrom s s') : Keeps s a s' where
  inv := hinv
  handles t h ht := ⟨h, by rw [hh, ht], .refl h, fun hne => absurd rfl hne⟩
  registers t h' ht hreg := ⟨h', by rw [← hh, ht], .inl hreg⟩
  log := hlog
  failing := hfailing

lemma Keeps.one (hinv : Inv s') (hh : s'.handles = (s.put t h').handles) (ht : s.handles t = some h) (he : Evolves h h')
    (hauth : Authorized s a t h)
    (hreg : h'.stage = .registered → h.stage = .registered ∨ s.closed = false ∧ s.hasCapacity h.scope h.connection = true)
    (hlog : s'.log = s.log ∨ ∃ e, s'.log = e :: s.log ∧ Emits s e) (hfailing : FailsFrom s s') : Keeps s a s' where
  inv := hinv
  handles u g hg := by
    rw [hh, handles_put]
    by_cases hu : u = t
    · subst hu
      rw [ht, Option.some.injEq] at hg
      subst hg
      exact ⟨h', by simp, he, fun _ => hauth⟩
    · exact ⟨g, by simp [hu, hg], .refl g, fun hne => absurd rfl hne⟩
  registers u g hg hgreg := by
    rw [hh, handles_put] at hg
    split at hg
    · subst u
      cases hg
      refine ⟨h, ht, (hreg hgreg).imp_right fun hcap => ⟨he.scope, he.connection, hcap⟩⟩
    · exact ⟨g, hg, .inl hgreg⟩
  log := hlog
  failing := hfailing

lemma Inv.keeps_goto_none (hi : Inv s) {p : PC} (hp : p.token = none) : Keeps s a (s.goto i p) := by
  refine .same (hi.goto_none hp) rfl (.inl rfl) (.goto rfl ?_)
  rintro c rfl
  simp [PC.token] at hp

lemma Inv.keeps_goto (hi : Inv s) {p : PC} (hp : p.token = some t) (hne : ∀ c, p ≠ .failing c) (ht : s.handles t = some h)
    (hf : p.Fact h) : Keeps s a (s.goto i p) :=
  .same (hi.goto_some hp ht hf) rfl (.inl rfl) (.goto rfl hne)

lemma Inv.keeps_tell (hi : Inv s) {e : Event} (ht : s.handles t = some h) (he : e.token = some t) (hf : e.Fact h)
    (hemits : Emits s e) : Keeps s a ((s.record e).goto i .idle) :=
  .same ((hi.record ht he hf).goto_none rfl) rfl (.inr ⟨e, rfl, hemits⟩) (.goto rfl nofun)

lemma Inv.keeps_take (hi : Inv s) {p : PC} (ht : s.handles t = some h) (hreg : h.stage = .registered)
    {stage : Stage} (htakes : stage.takes) (hauth : Authorized s a t h) (hp : p.token = some t)
    (hne : ∀ c, p ≠ .failing c) (hf : p.Fact { h with stage }) : Keeps s a ((s.take t h stage).goto i p) := by
  refine .one ((hi.take ht hreg htakes).goto_some hp (handles_put_self ..) hf) rfl ht
    ((hi.sound t h ht).taken hreg stage htakes).2 hauth (fun hstage => ?_) (.inl rfl) (.goto rfl hne)
  exact .inl hreg

lemma stepBeginTx_keeps (hi : Inv s) (hs : stepBeginTx s i t = some s') : Keeps s a s' := by
  unfold stepBeginTx at hs
  split at hs
  · by_cases ht : t ∈ s.tokens
    · rw [if_pos ht] at hs
      cases hs
    · rw [if_neg ht] at hs
      cases hs
      have hbegin {h : Handle} (hsound : h.Sound) (hstage : h.stage = .begun) :
          Keeps s a ({ s.put t h with tokens := t :: s.tokens }.goto i (.begun t)) := by
        have hnew : ∀ u g, s.handles u = some g → u ≠ t := by
          rintro u g hg rfl
          exact ht ((hi.tokens u).mpr (by simp [hg]))
        refine ⟨(hi.begin ht hsound hstage).goto_none rfl, fun u g hg => ⟨g, ?_, .refl g, fun hne => absurd rfl hne⟩,
          fun u g hg hreg => ⟨g, ?_, .inl hreg⟩, .inl rfl, .goto rfl nofun⟩
        · exact (handles_put s t u h).trans ((if_neg (hnew u g hg)).trans hg)
        · simp only [State.goto, handles_put] at hg
          split at hg
          · cases hg
            simp [hstage] at hreg
          · exact hg
      refine hbegin ?_ rfl
      exact ⟨rfl, rfl, rfl, rfl⟩
  · cases hs

lemma Inv.keeps_discard (hi : Inv s) (ht : s.handles t = some h) (hstage : h.stage = .begun) (hauth : Authorized s a t h) :
    Keeps s a ((s.discard t h).goto i .idle) :=
  .one ((hi.discard ht hstage).goto_none rfl) rfl ht ((hi.sound t h ht).discarded hstage).2 hauth nofun (.inl rfl)
    (.goto rfl nofun)

lemma stepAbandon_keeps (hi : Inv s) (hs : stepAbandon s i = some s') : Keeps s (.abandon i) s' := by
  unfold stepAbandon at hs
  split at hs
  · rename_i t hpc
    split at hs
    · rename_i h ht
      split_ifs at hs with hstage
      cases hs
      exact hi.keeps_discard ht hstage hpc
    · cases hs
  · cases hs

lemma stepAddHandle_keeps (hi : Inv s) (hs : stepAddHandle s i = some s') : Keeps s (.addHandle i) s' := by
  unfold stepAddHandle at hs
  split at hs
  · rename_i t hpc
    split at hs
    · rename_i h ht
      split_ifs at hs with hstage hfull <;> cases hs
      · rw [not_not] at hstage
        exact hi.keeps_discard ht hstage hpc
      · rw [not_not] at hstage
        have hroom : s.closed = false ∧ s.hasCapacity h.scope h.connection = true := by simpa using hfull
        exact .one ((hi.register ht hstage hroom.1).goto_none rfl) rfl ht ((hi.sound t h ht).registered hstage _ _).2 hpc
          (fun _ => .inr hroom) (.inl rfl) (.goto rfl nofun)
    · cases hs
  · cases hs

lemma stepLook_keeps (hi : Inv s) (hs : stepLook s i = some s') : Keeps s a s' := by
  unfold stepLook at hs
  split at hs
  · split at hs
    · rename_i h ht
      split_ifs at hs with hreg hending <;> cases hs
      · exact hi.keeps_goto rfl nofun ht ⟨by simp [hreg], trivial⟩
      · exact hi.keeps_goto_none rfl
      · exact hi.keeps_goto_none rfl
    · cases hs
      exact hi.keeps_goto_none rfl
  · cases hs

lemma stepCheck_keeps (hi : Inv s) (hs : stepCheck s i = some s') : Keeps s a s' := by
  unfold stepCheck at hs
  split at hs
  · rename_i c hpc
    split at hs
    · rename_i h ht
      have hf := hi.fact hpc rfl ht
      split_ifs at hs with hother hstale hexpired <;> cases hs
      · exact hi.keeps_goto_none rfl
      · exact hi.keeps_goto_none rfl
      · simp only [not_or, ne_eq, not_not] at hother
        exact hi.keeps_goto rfl nofun ht ⟨hf.1, hother.1, hother.2.1⟩
      · simp only [not_or, ne_eq, not_not] at hother
        exact hi.keeps_goto rfl nofun ht ⟨hf.1, hother.1, hother.2.1⟩
    · cases hs
  · cases hs

lemma endOr_keeps (hi : Inv s) {outcome : Outcome} {after : After} {e : Event} (ho : Matches outcome .rolledBack)
    (he : e.token = some c.token)
    (hc : ∀ h, s.handles c.token = some h → c.Owns h ∧ e.Fact h ∧ Authorized s a c.token h ∧
      (h.stage ≠ .registered → Emits s e))
    (hs : s.endOr i c outcome after e = some s') : Keeps s a s' := by
  unfold State.endOr at hs
  split at hs
  · rename_i h ht
    obtain ⟨howns, hfact, hauth, hemits⟩ := hc h ht
    split_ifs at hs with hreg <;> cases hs
    · exact hi.keeps_take ht hreg ho hauth rfl nofun ⟨nofun, howns, trivial⟩
    · exact hi.keeps_tell ht he hfact (hemits hreg)
  · cases hs

lemma stepExpire_keeps (hi : Inv s) (hs : stepExpire s i = some s') : Keeps s (.expire i) s' := by
  unfold stepExpire at hs
  split at hs
  · rename_i c hpc
    refine endOr_keeps hi ?_ rfl (fun h ht => ?_) hs
    · rfl
    · have hf := (hi.fact hpc rfl ht).2
      refine ⟨hf, hf, ⟨c, by rw [hpc]; rfl, rfl, hf⟩, fun hreg => ?_⟩
      exact ⟨i, c, rfl, rfl, .inr ⟨rfl, .inr ⟨hpc, h, ht, hreg⟩⟩⟩
  · cases hs

lemma stepWaited_keeps (hi : Inv s) (hs : stepWaited s i = some s') : Keeps s a s' := by
  unfold stepWaited at hs
  split at hs
  · split at hs
    · split_ifs at hs
      cases hs
      exact hi.keeps_goto_none rfl
    · cases hs
  · cases hs

lemma Inv.endedError_fact (hi : Inv s) {caller : Caller} {outcome : Outcome} (h : s.endedError t caller = some outcome) :
    ∃ h, s.handles t = some h ∧ h.stage = .ended ∧ h.session = caller.session ∧ h.scope = caller.scope ∧
      Matches outcome h.tx := by
  unfold State.endedError at h
  split at h
  · rename_i b hb
    split_ifs at h with hmine
    cases h
    obtain ⟨h, ht, hstage, hsession, hscope, hm⟩ := hi.tombstones _ b hb
    exact ⟨h, ht, hstage, hsession.symm.trans hmine.2.1, hscope.symm.trans hmine.2.2, hm⟩
  · cases h

lemma stepEndedError_keeps (hi : Inv s) (hs : stepEndedError s i = some s') : Keeps s a s' := by
  unfold stepEndedError at hs
  split at hs
  · rename_i c hpc
    split at hs
    · rename_i outcome hended
      cases hs
      obtain ⟨h, ht, _, hsession, hscope, _⟩ := hi.endedError_fact hended
      exact hi.keeps_tell ht rfl ⟨hsession, hscope⟩ ⟨i, c, rfl, rfl, .inl ⟨hpc, hended⟩⟩
    · cases hs
      exact hi.keeps_goto_none rfl
  · cases hs

lemma Handle.Sound.touched (hsound : h.Sound) (hbegun : h.stage ≠ .begun) (hopen : h.closed = false)
    (holder : Option Thread) (used : Nat) {dirty : List CacheTarget} (hdirty : h.dirty ⊆ dirty) :
    { h with dirty, holder, used }.Sound ∧ Evolves h { h with dirty, holder, used } := by
  refine ⟨?_, rfl, rfl, rfl, hdirty, fun hc => by simp [hopen] at hc, id, id, .inl, id⟩
  unfold Handle.Sound at hsound ⊢
  cases hstage : h.stage <;> simp_all

lemma stepProceed_keeps (hi : Inv s) (hs : stepProceed s i = some s') : Keeps s (.proceed i) s' := by
  unfold stepProceed at hs
  split at hs
  · rename_i c hpc
    split at hs
    · rename_i h ht
      have hf := hi.fact hpc rfl ht
      have hauth : Authorized s (.proceed i) c.token h := ⟨c, by rw [hpc]; rfl, rfl, hf.2⟩
      split at hs
      · cases hs
        exact hi.keeps_goto_none rfl
      · cases hs
        exact hi.keeps_goto rfl nofun ht hf
      · rename_i targets hpurpose
        split_ifs at hs with hbusy hclosed <;> cases hs
        · exact hi.keeps_goto_none rfl
        · obtain ⟨hsound, he⟩ := (hi.sound _ h ht).touched hf.1 (eq_false_of_ne_true hclosed) h.holder h.used
            (subset_append_left h.dirty targets)
          refine .one (((hi.put ht he hsound Iff.rfl).record (handles_put_self ..) rfl ?_).goto_none rfl) rfl ht he hauth
            .inl (.inr ⟨_, rfl, trivial⟩) (.goto rfl nofun)
          exact ⟨hf.2.1, hf.2.2, subset_append_right _ _⟩
      all_goals
        split_ifs at hs with hreg <;> cases hs
        · exact hi.keeps_take ht hreg trivial hauth rfl nofun ⟨nofun, hf.2⟩
        · exact hi.keeps_goto_none rfl
    · cases hs
  · cases hs

lemma Handle.Sound.closed (hsound : h.Sound) (htakes : h.stage.takes) (hholder : h.holder = none) {tx : TxState}
    {outcome : Outcome} (hm : Matches outcome tx) (hdoomed : h.Doomed → tx = .rolledBack) :
    (h.close tx outcome).Sound ∧ Evolves h (h.close tx outcome) := by
  have hopen : h.closed = false ∧ h.tx = .opened ∧ h.endings = 0 := by
    unfold Handle.Sound at hsound
    unfold Stage.takes at htakes
    cases hstage : h.stage <;> simp_all
  refine ⟨⟨rfl, hholder, by simp [Handle.close, hopen], hm⟩, rfl, rfl, rfl, List.Subset.refl _,
    fun hc => by simp [hopen] at hc, hdoomed, nofun, fun hreg => ?_, fun hended => ?_⟩
  · simp [hreg, Stage.takes] at htakes
  · simp [hended, Stage.takes] at htakes

lemma stepFinish_keeps (hi : Inv s) {cancelled : Bool} {answer : Answer}
    (hs : stepFinish s i cancelled answer = some s') : Keeps s (.finish i cancelled answer) s' := by
  unfold stepFinish at hs
  split at hs
  · rename_i c hpc
    split at hs
    · rename_i h ht
      have hf := hi.fact hpc rfl ht
      split_ifs at hs with hturn
      cases hs
      obtain ⟨hstage, hholder⟩ := hturn
      have hsound := hi.sound _ h ht
      have hopen : h.closed = false := by
        rw [Handle.Sound, hstage] at hsound
        exact hsound.1
      have hclose {tx : TxState} (outcome : Outcome) (hm : Matches outcome tx) (hd : h.Doomed → tx = .rolledBack)
          {r : Option (List CacheTarget)} (hr : (PC.returning c r).Says (h.close tx outcome)) :
          Keeps s (.finish i cancelled answer) ((s.put c.token (h.close tx outcome)).goto i (.returning c r)) := by
        obtain ⟨hsound', he⟩ := hsound.closed (by rw [hstage]; trivial) hholder hm hd
        have hput := hi.put ht he hsound' (by simp [Handle.close, hstage])
        exact .one (hput.goto_some rfl (handles_put_self ..) ⟨by simp [Handle.close], hr⟩) rfl ht he
          ⟨c, by rw [hpc]; rfl, rfl, hf.2⟩ (by simp [Handle.close]) (.inl rfl)
          (.goto rfl (by simp))
      simp only [Handle.finish, hopen, Bool.false_eq_true, if_false]
      split_ifs with hback
      · exact hclose .rolledBack rfl (fun _ => rfl) hf.2
      · have hlive : ¬ h.Doomed := by
          simp only [Bool.or_eq_true, not_or, Bool.not_eq_true'] at hback
          simp [Handle.Doomed, hstage, hback.2]
        cases answer with
        | ok => exact hclose .committed rfl (fun hd => absurd hd hlive) ⟨hf.2, rfl, rfl, rfl⟩
        | refused => exact hclose .rolledBack rfl (fun _ => rfl) hf.2
        | lost => exact hclose .unknown rfl (fun hd => absurd hd hlive) hf.2
    · cases hs
  · cases hs

lemma stepBury_keeps (hi : Inv s) (hs : stepBury s t = some s') : Keeps s (.bury t) s' := by
  unfold stepBury at hs
  split at hs
  · rename_i h ht
    split at hs
    · rename_i outcome hstage
      cases hs
      exact .one (hi.bury ht hstage) rfl ht ((hi.sound t h ht).buried hstage).2 ⟨rfl, by simp [hstage]⟩ nofun (.inl rfl)
        (.of_eq rfl)
    · cases hs
  · cases hs

lemma stepReturn_keeps (hi : Inv s) (hs : stepReturn s i = some s') : Keeps s a s' := by
  unfold stepReturn at hs
  split at hs
  · rename_i c committed hpc
    split at hs
    · rename_i h ht
      have hf := (hi.fact hpc rfl ht).2
      split_ifs at hs
      split at hs
      · cases hs
        exact hi.keeps_tell ht rfl ⟨hf.1.1, hf.1.2, hf.2⟩ trivial
      · cases hs
        exact hi.keeps_goto_none rfl
    · cases hs
  · cases hs

lemma stepAbort_keeps (hi : Inv s) (hs : stepAbort s t = some s') : Keeps s (.abort t) s' := by
  unfold stepAbort at hs
  split at hs
  · rename_i h ht
    split at hs
    · rename_i outcome hstage
      split_ifs at hs with hholder
      cases hs
      have hsound := hi.sound t h ht
      have hgoing := hsound
      rw [Handle.Sound, hstage] at hgoing
      obtain ⟨hopen, _, _, hm⟩ := hgoing
      obtain ⟨hsound', he⟩ := hsound.closed (by rw [hstage]; exact hm) hholder hm fun _ => rfl
      rw [Handle.abort, if_neg (by simp [hopen])]
      exact .one (hi.put ht he hsound' (by simp [Handle.close, hstage])) rfl ht he ⟨rfl, by simp [hstage]⟩
        (by simp [Handle.close]) (.inl rfl) (.of_eq rfl)
    · cases hs
  · cases hs

lemma stepSettle_keeps (hi : Inv s) (hs : stepSettle s i = some s') : Keeps s a s' := by
  unfold stepSettle at hs
  split at hs
  · rename_i c after hpc
    split at hs
    · rename_i h ht
      have hf := (hi.fact hpc rfl ht).2
      split_ifs at hs
      split at hs
      · cases hs
        exact hi.keeps_tell ht rfl hf.1 ⟨i, c, rfl, rfl, .inr ⟨rfl, .inl hpc⟩⟩
      · cases hs
        exact hi.keeps_tell ht rfl hf.1 ⟨i, c, rfl, rfl, .inl hpc⟩
    · cases hs
  · cases hs

lemma stepTimer_keeps (hi : Inv s) {due : Handle → Bool} (hauth : ∀ h, Authorized s a t h)
    (hs : stepTimer s t due = some s') : Keeps s a s' := by
  unfold stepTimer at hs
  split at hs
  · rename_i h ht
    split_ifs at hs with hdue
    cases hs
    exact .one (hi.take ht hdue.1 rfl) rfl ht ((hi.sound t h ht).taken hdue.1 (.aborting .expired) rfl).2 (hauth h)
      (fun _ => .inl hdue.1) (.inl rfl) (.of_eq rfl)
  · cases hs

lemma stepStart_keeps (hi : Inv s) {targets : List CacheTarget} (hs : stepStart s i targets = some s') :
    Keeps s (.startStatement i targets) s' := by
  unfold stepStart at hs
  split at hs
  · rename_i c hpc
    split at hs
    · rename_i h ht
      have hf := hi.fact hpc rfl ht
      split_ifs at hs with hbusy hclosed hunmarked <;> cases hs
      · exact hi.keeps_goto rfl nofun ht hf
      · obtain ⟨hsound, he⟩ := (hi.sound _ h ht).touched hf.1 (eq_false_of_ne_true hclosed) (some i) s.now
          (List.Subset.refl h.dirty)
        -- A write's mark is in the log, and with it its targets are in the handle.
        have hmarked : targets ⊆ h.dirty := by
          by_cases hread : targets = []
          · simp [hread]
          · obtain ⟨g, hg, hfact⟩ := hi.events _ (by simpa [hread] using hunmarked) c.token rfl
            rw [ht, Option.some.injEq] at hg
            subst hg
            exact hfact.2.2
        refine .one (((hi.put ht he hsound Iff.rfl).record (handles_put_self ..) rfl ?_).goto_some rfl
          (handles_put_self ..) hf) rfl ht he ⟨c, by rw [hpc]; rfl, rfl, hf.2⟩ .inl (.inr ⟨_, rfl, trivial⟩)
          (.goto rfl nofun)
        exact ⟨hf.2.1, hf.2.2, hmarked⟩
    · cases hs
  · cases hs

lemma Handle.Sound.running (hsound : h.Sound) (hholder : h.holder = some i) : h.closed = false := by
  unfold Handle.Sound at hsound
  cases hstage : h.stage <;> simp_all

lemma stepEnd_keeps (hi : Inv s) {failed : Bool} (hs : stepEnd s i failed = some s') : Keeps s (.endStatement i failed) s' := by
  unfold stepEnd at hs
  split at hs
  · rename_i c hpc
    split at hs
    · rename_i h ht
      have hf := hi.fact hpc rfl ht
      by_cases hholder : h.holder = some i
      · rw [if_neg (not_not.mpr hholder)] at hs
        cases hs
        have hopen := (hi.sound _ h ht).running hholder
        obtain ⟨hsound, he⟩ := (hi.sound _ h ht).touched hf.1 hopen none s.now (List.Subset.refl h.dirty)
        have hput := hi.put ht he hsound Iff.rfl
        refine .one (hput.goto ?_) rfl ht he ⟨c, by rw [hpc]; rfl, rfl, hf.2⟩ .inl (.inl rfl) ?_
        · cases failed <;> rintro u ⟨⟩ <;> exact ⟨_, handles_put_self .., hf⟩
        · intro j d hd
          by_cases hj : j = i
          · subst hj
            cases failed <;> simp [State.goto] at hd
            subst hd
            exact .inr ⟨_, handles_put_self .., hopen⟩
          · exact .inl (by simpa [State.goto, State.put, Function.update_of_ne hj] using hd)
      · rw [if_pos hholder] at hs
        cases hs
    · cases hs
  · cases hs

lemma stepFail_keeps (hi : Inv s) (hs : stepFail s i = some s') : Keeps s (.fail i) s' := by
  unfold stepFail at hs
  split at hs
  · rename_i c hpc
    refine endOr_keeps hi ?_ rfl (fun h ht => ?_) hs
    · rfl
    · have hf := (hi.fact hpc rfl ht).2
      refine ⟨hf, hf, ⟨c, by rw [hpc]; rfl, rfl, hf⟩, fun hreg => ?_⟩
      exact ⟨i, c, rfl, rfl, .inr ⟨hpc, h, ht, hreg⟩⟩
  · cases hs

lemma Takes.keeps {which : Handle → Bool} {outcome : Outcome} (htakes : Takes which outcome s s') (hi : Inv s)
    (ho : Matches outcome .rolledBack) (hinv : Inv s') (hauth : ∀ t h, which h = true → Authorized s a t h)
    (hlog : s'.log = s.log ∨ ∃ e, s'.log = e :: s.log ∧ Emits s e) (hpc : s'.pc = s.pc) : Keeps s a s' where
  inv := hinv
  handles t h ht := by
    rcases htakes t with heq | ⟨g, hg, hreg, hwhich, hg'⟩
    · exact ⟨h, heq.trans ht, .refl h, fun hne => absurd rfl hne⟩
    · rw [ht, Option.some.injEq] at hg
      subst hg
      exact ⟨_, hg', ((hi.sound t h ht).taken hreg (.aborting outcome) ho).2, fun _ => hauth t h hwhich⟩
  registers t h' ht hreg := by
    rcases htakes t with heq | ⟨g, _, _, _, hg'⟩
    · exact ⟨h', heq ▸ ht, .inl hreg⟩
    · rw [ht, Option.some.injEq] at hg'
      simp [hg'] at hreg
  log := hlog
  failing := .of_eq hpc

lemma Inv.keeps_settings (hi : Inv s) {perConnection maxOpen ttl idle now : Nat} :
    Keeps s a { s with perConnection, maxOpen, ttl, idle, now } :=
  .same { hi with } rfl (.inl rfl) (.of_eq rfl)

theorem step_keeps (hi : Inv s) (hs : step s a = some s') : Keeps s a s' := by
  cases a with
  | checkBeginCapacity i caller connection datasource =>
    simp only [step] at hs
    split_ifs at hs
    cases hs
    exact hi.keeps_goto_none rfl
  | configuration i | beginFails i | cancelWait i | release i =>
    simp only [step] at hs
    split at hs
    · cases hs
      exact hi.keeps_goto_none rfl
    · cases hs
  | beginTx i t => exact stepBeginTx_keeps hi hs
  | abandon i => exact stepAbandon_keeps hi hs
  | addHandle i => exact stepAddHandle_keeps hi hs
  | setConnectionLimit n | setIdleTimeout n | updateLimits n m | tick n =>
    cases hs
    exact hi.keeps_settings
  | call i c =>
    simp only [step] at hs
    split_ifs at hs
    cases hs
    exact hi.keeps_goto_none rfl
  | look i => exact stepLook_keeps hi hs
  | check i => exact stepCheck_keeps hi hs
  | expire i => exact stepExpire_keeps hi hs
  | waited i => exact stepWaited_keeps hi hs
  | endedError i => exact stepEndedError_keeps hi hs
  | proceed i => exact stepProceed_keeps hi hs
  | finish i cancelled answer => exact stepFinish_keeps hi hs
  | bury t => exact stepBury_keeps hi hs
  | return_ i => exact stepReturn_keeps hi hs
  | abort t => exact stepAbort_keeps hi hs
  | settle i => exact stepSettle_keeps hi hs
  | expiryTimer t | checkIdle t => exact stepTimer_keeps hi (fun _ => rfl) hs
  | rollbackSession session =>
    simp only [step] at hs
    split_ifs at hs with hempty <;> cases hs
    · exact .same hi rfl (.inl rfl) (.of_eq rfl)
    · obtain ⟨hinv, htakes, _, hpc, hlog⟩ := takeAll_spec hi (fun h => h.session = session) .rolledBack rfl
      exact htakes.keeps hi rfl hinv (fun _ h hsession => ⟨hempty, by simpa using hsession⟩) (.inl hlog) hpc
  | close =>
    simp only [step] at hs
    split_ifs at hs with hclosed <;> cases hs
    · refine .same { hi with events := fun e he t ht => ?_, logged := fun _ => hclosed } rfl (.inr ⟨_, rfl, trivial⟩)
        (.of_eq rfl)
      rcases mem_cons.mp he with rfl | he
      · simp [Event.token] at ht
      · exact hi.events e he t ht
    · obtain ⟨hinv, htakes⟩ := hi.close .rolledBack rfl
      obtain ⟨_, _, _, hpc, hlog⟩ := takeAll_spec hi (fun _ => true) .rolledBack rfl
      rw [takeAll_closed] at hinv htakes ⊢
      exact htakes.keeps hi rfl hinv (fun _ _ _ => trivial) (.inr ⟨.closed, congrArg _ hlog, trivial⟩) hpc
  | startStatement i targets => exact stepStart_keeps hi hs
  | endStatement i failed => exact stepEnd_keeps hi hs
  | fail i => exact stepFail_keeps hi hs

end Steps

lemma inv_init (ttl maxOpen : Nat) : Inv (init ttl maxOpen) := by
  constructor <;> simp [init, State.registered, PC.token]

theorem inv_reachable {ok : State → Prop} {ttl maxOpen : Nat} {s : State}
    (hs : Transition.Reachable step ok (init ttl maxOpen) s) : Inv s :=
  hs.invariant (inv_init ttl maxOpen) fun _ _ _ hi _ _ hstep => (step_keeps hi hstep).inv

end SqlMcpServer.Transactions
