import SqlMcpServer.Codegen
import SqlMcpServer.Sql.Semantics

/-!
# Predicates as they are written

`Writes` says which SQL predicate stands for a predicate of a chain, whatever the builder had
written before.
-/

namespace SqlMcpServer.Codegen

open List
open Except (bind_eq_ok refuseIf)
open Relalg Interp Sql

def existsAlias (n : Nat) : String := "x" ++ toString n

/-- The SQL predicate stands for the predicate, when the statement's arguments are `args`. -/
inductive Writes (ns : Names) (args : List Value) : String → Predicate → Pred → Prop where
  | cond {scope : String} {c : Condition} {placeholders : List Nat}
      (hargs : (placeholders.map fun n => args.getD n .null) = operands c.op c.value) :
      Writes ns args scope (.cond c) (.cond (ns.column scope c.field) c.op placeholders)
  | and {scope : String} {ps : List Predicate} {qs : List Pred} (hlen : ps.length = qs.length)
      (h : ∀ pq ∈ ps.zip qs, Writes ns args scope pq.1 pq.2) : Writes ns args scope (.and ps) (.and qs)
  | or {scope : String} {ps : List Predicate} {qs : List Pred} (hlen : ps.length = qs.length)
      (h : ∀ pq ∈ ps.zip qs, Writes ns args scope pq.1 pq.2) : Writes ns args scope (.or ps) (.or qs)
  | not {scope : String} {p : Predicate} {q : Pred} (h : Writes ns args scope p q) :
      Writes ns args scope (.not p) (.not q)
  | exAll {r : RelationRef} {on : List JoinPair} {n : Nat} :
      Writes ns args "" (.ex r on .nil) (.ex r (existsAlias n) (renderPairs ns "" on) none)
  | ex {r : RelationRef} {on : List JoinPair} {p : Predicate} {q : Pred} {n : Nat} (hp : p.isNil = false)
      (h : Writes ns args (existsAlias n) p q) :
      Writes ns args "" (.ex r on p) (.ex r (existsAlias n) (renderPairs ns "" on) (some q))
  | nil {scope : String} : Writes ns args scope .nil .empty

/-- What the builder adds in writing something: values bound to the placeholders written. -/
structure Adds (b b' : Builder) (placeholders : List Nat) : Prop where
  args : b.args <+: b'.args
  placeholders : placeholders = List.range' b.args.length (b'.args.length - b.args.length)

lemma Adds.nothing (b : Builder) : Adds b b [] := ⟨prefix_rfl, by simp⟩

variable {b b' : Builder}

lemma Adds.trans {b'' : Builder} {ms ns : List Nat} (h : Adds b b' ms) (h' : Adds b' b'' ns) :
    Adds b b'' (ms ++ ns) := by
  refine ⟨h.args.trans h'.args, ?_⟩
  have hle := h.args.length_le
  have hle' := h'.args.length_le
  rw [h.placeholders, h'.placeholders]
  have hsplit : b''.args.length - b.args.length =
      (b'.args.length - b.args.length) + (b''.args.length - b'.args.length) := by omega
  rw [hsplit, ← range'_append_1]
  congr 2
  omega

lemma Adds.bind (b : Builder) (vs : List Value) : Adds b (b.bind vs).2 (b.bind vs).1 := by
  refine ⟨prefix_append _ _, ?_⟩
  simp [Builder.bind]

lemma getD_bind {vs args : List Value} (h : (b.bind vs).2.args <+: args) :
    ((b.bind vs).1.map fun n => args.getD n .null) = vs := by
  obtain ⟨rest, rfl⟩ := h
  simp only [Builder.bind]
  apply ext_getElem
  · simp
  · intro i hi hi'
    simp [getElem?_append, hi']

lemma bind_nil (b : Builder) : b.bind [] = ([], b) := by simp [Builder.bind]

variable {ns : Names} {maxIN : Int} {scope : String}

lemma renderCondition_eq {c : Condition} {q : Pred}
    (h : renderCondition maxIN ns scope c b = .ok (q, b')) :
    q = .cond (ns.column scope c.field) c.op (b.bind (operands c.op c.value)).1 ∧
      b' = (b.bind (operands c.op c.value)).2 := by
  obtain ⟨field, op, value⟩ := c
  have hlist : ∀ op, (do
      let vs ← toValues value
      refuseIf (vs = []) .emptyIn
      refuseIf (maxIN < vs.length) (.inCardinality vs.length maxIN)
      return (Pred.cond (ns.column scope field) op (b.bind vs).1, (b.bind vs).2)) = .ok (q, b') →
        ∃ vs, value = .list vs ∧ q = .cond (ns.column scope field) op (b.bind vs).1 ∧ b' = (b.bind vs).2 := by
    intro op h
    obtain ⟨vs, hvs, h⟩ := bind_eq_ok.mp h
    obtain ⟨_, -, h⟩ := bind_eq_ok.mp h
    obtain ⟨_, -, h⟩ := bind_eq_ok.mp h
    cases h
    cases value <;> simp only [toValues, reduceCtorEq, Except.ok.injEq] at hvs
    exact ⟨vs, by rw [hvs], rfl, rfl⟩
  cases op with
  | isNull | isNotNull =>
    cases h
    simp [operands, bind_nil]
  | isIn | notIn =>
    obtain ⟨vs, rfl, rfl, rfl⟩ := hlist _ h
    exact ⟨rfl, rfl⟩
  | _ =>
    cases h
    exact ⟨rfl, rfl⟩

lemma renderCondition_writes {c : Condition} {q : Pred}
    (h : renderCondition maxIN ns scope c b = .ok (q, b')) :
    Adds b b' q.placeholders ∧ ∀ args, b'.args <+: args → Writes ns args scope (.cond c) q := by
  obtain ⟨rfl, rfl⟩ := renderCondition_eq h
  exact ⟨.bind b _, fun _ hargs => .cond (getD_bind hargs)⟩

def Rendered (ns : Names) (scope : String) (p : Predicate) (q : Pred) (b b' : Builder) : Prop :=
  Adds b b' q.placeholders ∧ ∀ args, b'.args <+: args → Writes ns args scope p q

lemma renderPredicates_rendered {ps : List Predicate}
    {qs : List Pred} (ih : ∀ p ∈ ps, ∀ {b b' : Builder} {q : Pred},
      renderPredicate maxIN ns scope p b = .ok (q, b') → Rendered ns scope p q b b')
    (h : renderPredicates maxIN ns scope ps b = .ok (qs, b')) :
    Adds b b' (predPlaceholders qs) ∧ ps.length = qs.length ∧
      ∀ args, b'.args <+: args → ∀ pq ∈ ps.zip qs, Writes ns args scope pq.1 pq.2 := by
  induction ps generalizing b qs with
  | nil =>
    rw [renderPredicates] at h
    cases h
    exact ⟨.nothing _, rfl, by simp⟩
  | cons p ps ihps =>
    rw [renderPredicates] at h
    obtain ⟨⟨q, b₁⟩, hq, h⟩ := bind_eq_ok.mp h
    obtain ⟨⟨rest, b₂⟩, hrest, h⟩ := bind_eq_ok.mp h
    cases h
    obtain ⟨hadds, hwrites⟩ := ih p (by simp) hq
    obtain ⟨hadds', hlen, hall⟩ := ihps (fun p' hp' => ih p' (mem_cons_of_mem _ hp')) hrest
    refine ⟨hadds.trans hadds', by simp [hlen], fun args hargs pq hpq => ?_⟩
    rw [zip_cons_cons] at hpq
    rcases mem_cons.mp hpq with rfl | hpq
    · exact hwrites args (hadds'.args.trans hargs)
    · exact hall args hargs pq hpq

theorem renderPredicate_rendered {p : Predicate}
    {q : Pred} (h : renderPredicate maxIN ns scope p b = .ok (q, b')) : Rendered ns scope p q b b' := by
  induction p using Predicate.ind generalizing scope b b' q with
  | nil =>
    rw [renderPredicate] at h
    cases h
    exact ⟨.nothing _, fun _ _ => .nil⟩
  | cond c =>
    rw [renderPredicate] at h
    exact renderCondition_writes h
  | and ps ih =>
    rw [renderPredicate] at h
    obtain ⟨⟨qs, b₁⟩, hqs, h⟩ := bind_eq_ok.mp h
    cases h
    obtain ⟨hadds, hlen, hall⟩ := renderPredicates_rendered (fun p hp => ih p hp) hqs
    exact ⟨hadds, fun args hargs => .and hlen (hall args hargs)⟩
  | or ps ih =>
    rw [renderPredicate] at h
    obtain ⟨⟨qs, b₁⟩, hqs, h⟩ := bind_eq_ok.mp h
    cases h
    obtain ⟨hadds, hlen, hall⟩ := renderPredicates_rendered (fun p hp => ih p hp) hqs
    exact ⟨hadds, fun args hargs => .or hlen (hall args hargs)⟩
  | not p ih =>
    rw [renderPredicate] at h
    obtain ⟨⟨q₁, b₁⟩, hq, h⟩ := bind_eq_ok.mp h
    cases h
    obtain ⟨hadds, hwrites⟩ := ih hq
    exact ⟨hadds, fun args hargs => .not (hwrites args hargs)⟩
  | ex r on p ih =>
    rw [renderPredicate] at h
    split at h
    · cases h
    rename_i hscope
    rw [ne_eq, not_not] at hscope
    subst hscope
    simp only at h
    split at h
    · rename_i hnil
      have hp : p = .nil := by cases p <;> simp [Predicate.isNil] at hnil ⊢
      cases h
      subst hp
      exact ⟨⟨prefix_rfl, by simp [Pred.placeholders]⟩, fun _ _ => .exAll⟩
    · rename_i hnil
      obtain ⟨⟨q₁, b₁⟩, hq, h⟩ := bind_eq_ok.mp h
      cases h
      obtain ⟨hadds, hwrites⟩ := ih hq
      refine ⟨⟨hadds.args, ?_⟩, fun args hargs => .ex (by simpa using hnil) (hwrites args hargs)⟩
      rw [Pred.placeholders]
      exact hadds.placeholders

@[simp] lemma predTruths_eq_map (db : DB) (args : List Value) (qs : List Pred) (ρ : Denotation) :
    predTruths db args qs ρ = qs.map fun q => q.truth db args ρ := by
  induction qs with
  | nil => rfl
  | cons q qs ih => rw [predTruths, ih, map_cons]

lemma validate_group {maxIN : Nat} {ps : List Predicate}
    (h : validateWithin maxIN (.and ps) = .ok () ∨ validateWithin maxIN (.or ps) = .ok ()) :
    ps ≠ [] ∧ ∀ p ∈ ps, p.isNil = false ∧ validateWithin maxIN p = .ok () := by
  cases ps with
  | nil => simp [validateWithin] at h
  | cons p ps =>
    rw [validateWithin, validateWithin, validatePredicateList_ok, validatePredicateList_ok, or_self] at h
    exact ⟨by simp, h⟩

lemma validate_ex {maxIN : Nat} {r : RelationRef} {on : List JoinPair} {p : Predicate}
    (h : validateWithin maxIN (.ex r on p) = .ok ()) : on ≠ [] ∧ validateWithin maxIN p = .ok () := by
  rw [validateWithin] at h
  split at h
  · cases h
  rename_i hjoin
  split at h
  · cases h
  · push Not at hjoin
    exact ⟨hjoin.2, h⟩

end SqlMcpServer.Codegen
