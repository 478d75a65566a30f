import SqlMcpServer.Tool.TransactionRuns

namespace SqlMcpServer.Transactions
open Transition

/-- The handle is taken by a Commit that is still to end it. -/
def Stage.isCommitting : Stage → Bool
  | .finishing _ true => true
  | _ => false

section
variable {s s' : State} {a : Action} {t : Token} {h : Handle}

lemma Handle.Sound.doomed_of (hsound : h.Sound) (hbegun : h.stage ≠ .begun) (hreg : h.stage ≠ .registered)
    (hcommit : h.stage.isCommitting = false) (hcommitted : h.tx ≠ .committed) (hlost : h.tx ≠ .lost) : h.Doomed := by
  unfold Handle.Sound at hsound
  unfold Handle.Doomed
  cases hstage : h.stage with
  | begun => exact absurd hstage hbegun
  | registered => exact absurd hstage hreg
  | aborting o => trivial
  | finishing j commit => cases commit <;> simp_all [Stage.isCommitting]
  | burying o =>
    rw [hstage] at hsound
    cases o <;> simp_all [Matches]
  | ended =>
    rw [hstage] at hsound
    cases htx : h.tx <;> simp_all

lemma Handle.Sound.opened (hsound : h.Sound) (hopen : h.closed = false) : h.tx = .opened := by
  unfold Handle.Sound at hsound
  cases hstage : h.stage <;> simp_all

lemma Handle.Doomed.not_committed (hd : h.Doomed) (hsound : h.Sound) : h.tx ≠ .committed := by
  unfold Handle.Doomed at hd
  unfold Handle.Sound at hsound
  cases hstage : h.stage <;> simp_all

lemma Handle.Doomed.tx (hd : h.Doomed) (hsound : h.Sound) : h.tx = .rolledBack ∨ h.tx = .opened := by
  unfold Handle.Doomed at hd
  unfold Handle.Sound at hsound
  cases hstage : h.stage <;> simp_all

def NoCommitWhileFailing (t : Token) (s : State) : Prop :=
  ∀ i c h, s.pc i = .failing c → c.token = t → s.handles t = some h → h.stage.isCommitting = false

/-- A statement that failed or is about to say so dooms its transaction. -/
structure FailureEnds (t : Token) (s : State) : Prop where
  inv : Inv s
  failing : ∀ i c h, s.pc i = .failing c → c.token = t → s.handles t = some h → h.stage = .registered ∨ h.Doomed
  failed : ∀ caller, .failed t caller ∈ s.log → ∃ h, s.handles t = some h ∧ h.Doomed

lemma failureEnds_step (hf : FailureEnds t s) (hok : NoCommitWhileFailing t s') (hs : step s a = some s') :
    FailureEnds t s' := by
  have hk := step_keeps hf.inv hs
  refine ⟨hk.inv, fun i c h' hpc htoken ht' => ?_, fun caller hmem => ?_⟩
  · have hnow := hok i c h' hpc htoken ht'
    have hsound' := hk.inv.sound t h' ht'
    have hfrom := hk.failing i c hpc
    rw [htoken] at hfrom
    rcases hfrom with hpc | ⟨g, hg, hopen⟩
    · obtain ⟨h, ht, _⟩ := hf.inv.pcs i t (by rw [hpc, ← htoken]; rfl)
      obtain ⟨g, hg, he, _⟩ := hk.handles t h ht
      rw [ht', Option.some.injEq] at hg
      subst hg
      rcases hf.failing i c h hpc htoken ht with hreg | hdoomed
      · rcases he.registered hreg with hreg' | hdoomed' | ⟨j, hj⟩
        · exact .inl hreg'
        · exact .inr hdoomed'
        · simp [hj, Stage.isCommitting] at hnow
      · exact .inr (he.doomed hdoomed)
    · -- The lock was only just released, so nothing ended the transaction yet.
      rw [ht', Option.some.injEq] at hg
      subst hg
      by_cases hreg : h'.stage = .registered
      · exact .inl hreg
      · have hbegun : h'.stage ≠ .begun := (hk.inv.fact hpc (by rw [← htoken]; rfl) ht').1
        have htx := hsound'.opened hopen
        exact .inr (hsound'.doomed_of hbegun hreg hnow (by simp [htx]) (by simp [htx]))
  · have hold (hmem : .failed t caller ∈ s.log) : ∃ h, s'.handles t = some h ∧ h.Doomed := by
      obtain ⟨h, ht, hdoomed⟩ := hf.failed caller hmem
      obtain ⟨h', ht', he, _⟩ := hk.handles t h ht
      exact ⟨h', ht', he.doomed hdoomed⟩
    rcases hk.log with hlog | ⟨e, hlog, hemits⟩
    · exact hold (hlog ▸ hmem)
    · rw [hlog] at hmem
      rcases List.mem_cons.mp hmem with rfl | hmem
      · obtain ⟨i, c, htoken, _, hat⟩ := hemits
        have hdoomed : ∃ h, s.handles t = some h ∧ h.Doomed := by
          rcases hat with hpc | ⟨hpc, h, ht, hreg⟩
          · obtain ⟨h, ht, hfact⟩ := hf.inv.pcs i t (by rw [hpc, ← htoken]; rfl)
            rw [hpc] at hfact
            exact ⟨h, ht, hfact.2.2⟩
          · exact ⟨h, ht, (hf.failing i c h hpc htoken ht).resolve_left hreg⟩
        obtain ⟨h, ht, hdoomed⟩ := hdoomed
        obtain ⟨h', ht', he, _⟩ := hk.handles t h ht
        exact ⟨h', ht', he.doomed hdoomed⟩
      · exact hold hmem

end

/-- Once a statement was reported as having rolled its transaction back, no Commit of it
succeeds, in every run where no Commit has the handle while the failure is to be acted on. -/
theorem failed_statement_ends_transaction {ttl maxOpen : Nat} {t : Token} {s : State}
    (hs : Reachable step (NoCommitWhileFailing t) (init ttl maxOpen) s) {caller : Caller}
    (hfailed : .failed t caller ∈ s.log) :
    (∃ h, s.handles t = some h ∧ h.tx ≠ .committed) ∧ ∀ other targets, .committed t other targets ∉ s.log := by
  have hends : FailureEnds t s := by
    refine hs.invariant ⟨inv_init ttl maxOpen, ?_, ?_⟩ fun s s' a hf _ hok hstep => failureEnds_step hf hok hstep
    · simp [init]
    · simp [init]
  obtain ⟨h, ht, hdoomed⟩ := hends.failed caller hfailed
  have hnot := hdoomed.not_committed (hends.inv.sound t h ht)
  refine ⟨⟨h, ht, hnot⟩, fun other targets hmem => ?_⟩
  obtain ⟨g, hg, _, _, htx, _⟩ := hends.inv.events _ hmem t rfl
  rw [ht, Option.some.injEq] at hg
  exact hnot (hg ▸ htx)

section Traces

def agent : Caller := ⟨"session", "reader"⟩

def agentCall (purpose : Purpose) : Call := ⟨7, agent, "", none, purpose⟩

def beginTrace : List Action :=
  [.checkBeginCapacity 0 agent 1 "main", .configuration 0, .beginTx 0 7, .addHandle 0]

def statementTrace : List Action :=
  [.call 0 (agentCall .db), .look 0, .check 0, .proceed 0, .startStatement 0 []]

def failTrace : List Action := [.endStatement 0 true, .fail 0]

theorem failed_statement_ends_transaction_example :
    ∃ s, Reachable step (NoCommitWhileFailing 7) (init 0 0) s ∧ .failed 7 agent ∈ s.log ∧
      ∀ other targets, .committed 7 other targets ∉ s.log := by
  let check : State → Bool := fun s => (s.handles 7).all fun h => !h.stage.isCommitting
  have hcheck : ∀ s, check s = true → NoCommitWhileFailing 7 s := by
    intro s hs i c h _ _ ht
    simpa [check, ht] using hs
  have hrun : ((run (fun s a => (step s a).filter check) (init 0 0)
      (beginTrace ++ statementTrace ++ failTrace ++ [.abort 7, .bury 7, .settle 0])).map State.log) =
      some [.failed 7 agent, .ran 7 agent []] := by decide
  obtain ⟨s, hs, hlog⟩ := Option.map_eq_some_iff.mp hrun
  have hreach := reachable_of_checked hcheck (.start (hcheck _ rfl)) hs
  have hfailed : .failed 7 agent ∈ s.log := by simp [hlog]
  exact ⟨s, hreach, hfailed, (failed_statement_ends_transaction hreach hfailed).2⟩

/-- A Commit that takes the handle while the statement runs commits after it failed. -/
theorem failed_statement_committed :
    ∃ s, Reachable step (fun _ => True) (init 0 0) s ∧ .failed 7 agent ∈ s.log ∧ .committed 7 agent [] ∈ s.log := by
  have hrun : (run step (init 0 0) (beginTrace ++ statementTrace ++
      [.call 1 (agentCall .commit), .look 1, .check 1, .proceed 1] ++ failTrace ++
      [.finish 1 false .ok, .bury 7, .return_ 1])).map State.log =
      some [.committed 7 agent [], .failed 7 agent, .ran 7 agent []] := by decide
  obtain ⟨s, hs, hlog⟩ := Option.map_eq_some_iff.mp hrun
  exact ⟨s, reachable_of_run (.start trivial) hs, by simp [hlog], by simp [hlog]⟩

end Traces

def Told (outcome : Outcome) (h : Handle) : Prop :=
  Matches outcome h.tx ∧ h.closed = true ∨ Matches outcome .rolledBack ∧ h.Doomed

def OutcomesTrue (t : Token) (s : State) : Prop :=
  Inv s ∧ ∀ caller outcome, .told t caller outcome ∈ s.log → ∃ h, s.handles t = some h ∧ Told outcome h

def NoCommitWhileExpiring (t : Token) (s : State) : Prop :=
  ∀ i c h, s.pc i = .expiring c → c.token = t → s.handles t = some h →
    h.stage.isCommitting = false ∧ h.tx ≠ .committed ∧ h.tx ≠ .lost

section
variable {s s' : State} {a : Action} {t : Token} {h h' : Handle} {outcome : Outcome}

lemma Told.evolves (ht : Told outcome h) (he : Evolves h h') : Told outcome h' := by
  rcases ht with ⟨hm, hclosed⟩ | ⟨hm, hd⟩
  · obtain ⟨hclosed', htx, _⟩ := he.closed hclosed
    exact .inl ⟨by rwa [htx], hclosed'⟩
  · exact .inr ⟨hm, he.doomed hd⟩

lemma told_emitted (hi : Inv s) (hok : NoCommitWhileExpiring t s) {caller : Caller} (he : Emits s (.told t caller outcome)) :
    ∃ h, s.handles t = some h ∧ Told outcome h := by
  obtain ⟨i, c, htoken, _, ⟨_, hended⟩ | ⟨rfl, hpc | ⟨hpc, h, ht, hreg⟩⟩⟩ := he
  · obtain ⟨h, ht, hstage, _, _, hm⟩ := hi.endedError_fact hended
    have hsound := hi.sound t h ht
    rw [Handle.Sound, hstage] at hsound
    exact ⟨h, ht, .inl ⟨hm, hsound.1⟩⟩
  · obtain ⟨h, ht, hfact⟩ := hi.pcs i t (by rw [hpc, ← htoken]; rfl)
    rw [hpc] at hfact
    exact ⟨h, ht, .inr ⟨rfl, hfact.2.2⟩⟩
  · obtain ⟨hcommit, hcommitted, hlost⟩ := hok i c h hpc htoken ht
    have hbegun : h.stage ≠ .begun := (hi.fact hpc (by rw [← htoken]; rfl) ht).1
    exact ⟨h, ht, .inr ⟨rfl, (hi.sound t h ht).doomed_of hbegun hreg hcommit hcommitted hlost⟩⟩

lemma outcomesTrue_step (ho : OutcomesTrue t s) (hok : NoCommitWhileExpiring t s) (hs : step s a = some s') :
    OutcomesTrue t s' := by
  obtain ⟨hi, htold⟩ := ho
  have hk := step_keeps hi hs
  refine ⟨hk.inv, fun caller outcome hmem => ?_⟩
  have hwas : ∃ h, s.handles t = some h ∧ Told outcome h := by
    rcases hk.log with hlog | ⟨e, hlog, hemits⟩
    · exact htold caller outcome (hlog ▸ hmem)
    · rw [hlog] at hmem
      rcases List.mem_cons.mp hmem with rfl | hmem
      · exact told_emitted hi hok hemits
      · exact htold caller outcome hmem
  obtain ⟨h, ht, hto⟩ := hwas
  obtain ⟨h', ht', he, _⟩ := hk.handles t h ht
  exact ⟨h', ht', hto.evolves he⟩

end

/-- Whoever is told how a transaction ended is of its session and scope and is told how it
ended, or how it can only end when it is still being rolled back, in every run where no
lookup finds a handle expired that a Commit took meanwhile. -/
theorem told_outcome_true {ttl maxOpen : Nat} {t : Token} {s : State}
    (hs : Reachable step (NoCommitWhileExpiring t) (init ttl maxOpen) s) {caller : Caller} {outcome : Outcome}
    (htold : .told t caller outcome ∈ s.log) :
    ∃ h, s.handles t = some h ∧ h.session = caller.session ∧ h.scope = caller.scope ∧
      (h.tx ≠ .opened → Matches outcome h.tx) ∧ (h.tx = .opened → Matches outcome .rolledBack ∧ h.Doomed) ∧
      (outcome = .unknown ↔ h.tx = .lost) := by
  have hall : OutcomesTrue t s := by
    refine hs.invariant ⟨inv_init ttl maxOpen, ?_⟩ fun s s' a ho hok _ hstep => outcomesTrue_step ho hok hstep
    simp [init]
  obtain ⟨hi, htrue⟩ := hall
  obtain ⟨h, ht, hto⟩ := htrue caller outcome htold
  obtain ⟨g, hg, hsession, hscope⟩ := hi.events _ htold t rfl
  rw [ht, Option.some.injEq] at hg
  subst hg
  refine ⟨h, ht, hsession, hscope, ?_⟩
  rcases hto with ⟨hm, hclosed⟩ | ⟨hm, hd⟩
  · refine ⟨fun _ => hm, fun htx => ?_, ?_⟩
    · rw [htx] at hm
      cases outcome <;> simp [Matches] at hm
    · cases outcome <;> simp_all [Matches]
  · have hback : outcome = .rolledBack ∨ outcome = .expired := by
      cases outcome <;> simp_all [Matches]
    rcases hd.tx (hi.sound t h ht) with htx | htx
    · exact ⟨fun _ => htx ▸ hm, fun hopen => ⟨hm, hd⟩, by rcases hback with rfl | rfl <;> simp [htx]⟩
    · exact ⟨fun hne => absurd htx hne, fun _ => ⟨hm, hd⟩, by rcases hback with rfl | rfl <;> simp [htx]⟩

section Traces

theorem told_outcome_true_example :
    ∃ s, Reachable step (NoCommitWhileExpiring 7) (init 5 0) s ∧ .told 7 agent .expired ∈ s.log ∧
      ∃ h, s.handles 7 = some h ∧ h.session = "session" := by
  let check : State → Bool := fun s => (s.handles 7).all fun h =>
    !h.stage.isCommitting && decide (h.tx ≠ .committed) && decide (h.tx ≠ .lost)
  have hcheck : ∀ s, check s = true → NoCommitWhileExpiring 7 s := by
    intro s hs i c h _ _ ht
    simpa [check, ht, and_assoc] using hs
  have hrun : ((run (fun s a => (step s a).filter check) (init 5 0) (beginTrace ++
      [.tick 9, .call 0 (agentCall .validate), .look 0, .check 0, .expire 0, .abort 7, .bury 7, .settle 0])).map State.log) =
      some [.told 7 agent .expired] := by decide
  obtain ⟨s, hs, hlog⟩ := Option.map_eq_some_iff.mp hrun
  have hreach := reachable_of_checked hcheck (.start (hcheck _ rfl)) hs
  have htold : .told 7 agent .expired ∈ s.log := by simp [hlog]
  obtain ⟨h, ht, hsession, _⟩ := told_outcome_true hreach htold
  exact ⟨s, hreach, htold, h, ht, hsession⟩

/-- A lookup reads the table, a Commit takes the handle and succeeds, and once the time is
up the lookup tells that the transaction expired. -/
theorem told_expired_committed :
    ∃ s h, Reachable step (fun _ => True) (init 5 0) s ∧ .told 7 agent .expired ∈ s.log ∧
      .committed 7 agent [] ∈ s.log ∧ s.handles 7 = some h ∧ h.tx = .committed := by
  have hrun : (run step (init 5 0) (beginTrace ++
      [.call 0 (agentCall .validate), .look 0, .call 1 (agentCall .commit), .look 1, .check 1, .proceed 1,
        .finish 1 false .ok, .bury 7, .return_ 1, .tick 9, .check 0, .expire 0])).map State.log =
      some [.told 7 agent .expired, .committed 7 agent []] := by decide
  obtain ⟨s, hs, hlog⟩ := Option.map_eq_some_iff.mp hrun
  have hreach := reachable_of_run (.start trivial) hs
  have hcommitted : .committed 7 agent [] ∈ s.log := by simp [hlog]
  obtain ⟨h, ht, _, _, htx, _⟩ := (inv_reachable hreach).events _ hcommitted 7 rfl
  exact ⟨s, h, hreach, by simp [hlog], hcommitted, ht, htx⟩

end Traces

/-- In every run: a transaction is ended once unless it is still open, the counts are those
of the handles in the table, a handle gets into it only below both bounds, only for its own
session and scope is a handle used or ended, a commit returns what every write in it may
have changed, and once the manager was closed the table is empty. -/
theorem transactions_accounted {ttl maxOpen : Nat} {s : State}
    (hs : Reachable step (fun _ => True) (init ttl maxOpen) s) :
    (∀ t h, s.handles t = some h → if h.tx = .opened then h.endings = 0 ∧ h.stage ≠ .ended else h.endings = 1) ∧
    (∀ scope, s.openCount scope = s.registered fun h => h.scope = scope) ∧
    (∀ connection, s.byConnection connection = s.registered fun h => h.connection = connection) ∧
    (∀ a s', step s a = some s' → ∀ t h', s'.handles t = some h' → h'.stage = .registered →
      (∃ h, s.handles t = some h ∧ h.stage = .registered) ∨
      s.closed = false ∧ (0 < s.maxOpen → s.openCount h'.scope < s.maxOpen) ∧
        (0 < s.perConnection → s.byConnection h'.connection < s.perConnection)) ∧
    (∀ a s', step s a = some s' → ∀ t h, s.handles t = some h → s'.handles t = some h ∨ Authorized s a t h) ∧
    (∀ e ∈ s.log, ∀ t caller, e.token = some t → e.caller = some caller →
      ∃ h, s.handles t = some h ∧ h.session = caller.session ∧ h.scope = caller.scope) ∧
    (∀ t caller targets, .committed t caller targets ∈ s.log →
      ∀ other changed, .ran t other changed ∈ s.log → changed ⊆ targets) ∧
    (.closed ∈ s.log → ∀ t h, s.handles t = some h → h.stage ≠ .registered) := by
  have hi := inv_reachable hs
  refine ⟨fun t h ht => ?_, hi.openCount, hi.byConnection, fun a s' hstep t h' ht' hreg => ?_,
    fun a s' hstep t h ht => ?_, fun e he t caller htoken hcaller => ?_, fun t caller targets hc other changed hr => ?_,
    fun hc => hi.closed (hi.logged hc)⟩
  · have hsound := hi.sound t h ht
    unfold Handle.Sound at hsound
    cases hstage : h.stage with
    | burying o => cases o <;> simp_all [Matches]
    | begun | registered | aborting _ | finishing _ _ | ended => simp_all
  · obtain ⟨h, ht, hwas | ⟨hscope, hconnection, hopen, hroom⟩⟩ := (step_keeps hi hstep).registers t h' ht' hreg
    · exact .inl ⟨h, ht, hwas⟩
    · simp only [State.hasCapacity, Bool.and_eq_true, Bool.or_eq_true, beq_iff_eq, decide_eq_true_eq] at hroom
      rw [hscope, hconnection]
      exact .inr ⟨hopen, by omega, by omega⟩
  · obtain ⟨h', ht', _, hauth⟩ := (step_keeps hi hstep).handles t h ht
    by_cases heq : h' = h
    · exact .inl (heq ▸ ht')
    · exact .inr (hauth heq)
  · obtain ⟨h, ht, hfact⟩ := hi.events e he t htoken
    refine ⟨h, ht, ?_⟩
    cases e with
    | marked _ c _ | ran _ c _ | committed _ c _ =>
      cases hcaller
      exact ⟨hfact.1, hfact.2.1⟩
    | failed _ c | told _ c _ =>
      cases hcaller
      exact hfact
    | closed => cases hcaller
  · obtain ⟨h, ht, _, _, _, hdirty, _⟩ := hi.events _ hc t rfl
    obtain ⟨g, hg, _, _, hsub⟩ := hi.events _ hr t rfl
    rw [ht, Option.some.injEq] at hg
    subst hg
    exact hdirty ▸ hsub

theorem transactions_accounted_example : ∃ s, Reachable step (fun _ => True) (init 5 1) s ∧
    s.openCount "reader" = 1 ∧ s.registered (fun h => h.scope = "reader") = 1 := by
  have hrun : (run step (init 5 1) beginTrace).map (fun s => s.openCount "reader") = some 1 := by decide
  obtain ⟨s, hs, hcount⟩ := Option.map_eq_some_iff.mp hrun
  have hreach := reachable_of_run (.start trivial) hs
  exact ⟨s, hreach, hcount, (transactions_accounted hreach).2.1 "reader" ▸ hcount⟩

end SqlMcpServer.Transactions
