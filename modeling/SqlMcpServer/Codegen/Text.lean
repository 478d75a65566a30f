import SqlMcpServer.Sql.ReadBack
import SqlMcpServer.Codegen.Statement

namespace SqlMcpServer.Codegen

open List
open Except (bind_eq_ok)
open Relalg Sql
open scoped Lexer

mutual
def values : Predicate → List Value
  | .nil => []
  | .cond c => operands c.op c.value
  | .and ps | .or ps => valuesList ps
  | .not p => values p
  | .ex _ _ p => values p

def valuesList : List Predicate → List Value
  | [] => []
  | p :: ps => values p ++ valuesList ps
end

mutual
def existsCount : Predicate → Nat
  | .nil | .cond _ => 0
  | .and ps | .or ps => existsCountList ps
  | .not p => existsCount p
  | .ex _ _ p => existsCount p + 1

def existsCountList : List Predicate → Nat
  | [] => 0
  | p :: ps => existsCount p + existsCountList ps
end

section Tree
variable (ns : Names)

def joinTree (aliasName scope : String) (j : JoinPair) : Tree :=
  .leaf (.join (.of aliasName j.right) (ns.col scope j.left))

mutual
/-- The tree of a predicate, a condition by its column, operator and number of values, with so
many EXISTS written before it. -/
def tree (scope : String) : Nat → Predicate → Tree
  | _, .nil => .and []
  | _, .cond c => .leaf (.test (ns.column scope c.field) c.op (operands c.op c.value).length)
  | n, .and ps => .group .and (trees scope n ps)
  | n, .or ps => .group .or (trees scope n ps)
  | n, .not p => .not (tree scope n p)
  | n, .ex r on p =>
    .nest (tableCol r, existsAlias (n + 1)) (.group .and (on.map (joinTree ns (existsAlias (n + 1)) scope) ++
      if p.isNil then [] else [tree (existsAlias (n + 1)) (n + 1) p]))

def trees (scope : String) : Nat → List Predicate → List Tree
  | _, [] => []
  | n, p :: ps => tree scope n p :: trees scope (n + existsCount p) ps
end

end Tree

def Names.Whitelisted (ns : Names) : Prop := ∀ o ∈ ns.outputs, o.2.func.valid = true

lemma Names.column_whitelisted {ns : Names} (h : ns.Whitelisted) (scope name : String) : (ns.column scope name).Whitelisted := by
  unfold Names.column
  split
  · rename_i call hcall
    split_ifs
    · obtain ⟨before, after, heq, -⟩ := lookup_eq_some_iff.mp hcall
      exact h (name, call) (mem_reverse.mp (heq ▸ by simp))
    · trivial
  · trivial

structure Binds (b b' : Builder) (vs : List Value) (exists_ : Nat) : Prop where
  args : b'.args = b.args ++ vs
  exists_eq : b'.exists_ = b.exists_ + exists_

lemma Binds.nothing (b : Builder) : Binds b b [] 0 := ⟨by simp, rfl⟩

lemma Binds.trans {b b' b'' : Builder} {vs vs' : List Value} {m n : Nat} (h : Binds b b' vs m) (h' : Binds b' b'' vs' n) :
    Binds b b'' (vs ++ vs') (m + n) := by
  refine ⟨?_, ?_⟩
  · rw [h'.args, h.args, append_assoc]
  · rw [h'.exists_eq, h.exists_eq, Nat.add_assoc]

lemma Binds.bind (b : Builder) (vs : List Value) : Binds b (b.bind vs).2 vs 0 := ⟨rfl, rfl⟩

def Builder.next (b : Builder) (d : Dialect) (vs : List Value) : List String :=
  (List.range' b.args.length vs.length).map d.placeholder

lemma Binds.next_append {b b' : Builder} {vs : List Value} {n : Nat} (h : Binds b b' vs n) (d : Dialect) (vs' : List Value) :
    b.next d (vs ++ vs') = b.next d vs ++ b'.next d vs' := by
  rw [Builder.next, Builder.next, Builder.next, h.args, length_append, length_append, ← map_append,
    range'_append_1]

section Written
open Reader (spans_simple)
variable {maxIN : Int} {ns : Names} {d : Dialect} {r : Reader} (hd : d.ReadBy r) (hns : ns.Whitelisted)
include hd hns

/-- What is written for a predicate reads as its tokens, with the next placeholders among them
in order, which its values are bound to. -/
structure Spelled (d : Dialect) (r : Reader) (p : Predicate) (q : Pred) (b b' : Builder) : Prop where
  reads : r.Spans false false (q.text d) (q.tokens d)
  params : Sql.params (q.tokens d) = b.next d (values p)
  binds : Binds b b' (values p) (existsCount p)

omit hd hns in
lemma predTexts_eq (d : Dialect) (qs : List Pred) : predTexts d qs = qs.map (Pred.text d) := by
  induction qs with
  | nil => rfl
  | cons q qs ih => rw [predTexts, ih, map_cons]

omit hd hns in
lemma predTokens_eq (d : Dialect) (qs : List Pred) : predTokens d qs = qs.map (Pred.tokens d) := by
  induction qs with
  | nil => rfl
  | cons q qs ih => rw [predTokens, ih, map_cons]

omit hd hns in
lemma renderPredicates_spelled {scope : String} {ps : List Predicate} (ih : ∀ p ∈ ps, ∀ {b b' : Builder} {q : Pred},
      renderPredicate maxIN ns scope p b = .ok (q, b') → Spelled d r p q b b') {b b' : Builder} {qs : List Pred}
    (h : renderPredicates maxIN ns scope ps b = .ok (qs, b')) :
    (∀ q ∈ qs, r.Spans false false (q.text d) (q.tokens d)) ∧ (predTokens d qs).flatMap Sql.params = b.next d (valuesList ps) ∧
      Binds b b' (valuesList ps) (existsCountList ps) := by
  induction ps generalizing b qs with
  | nil =>
    rw [renderPredicates] at h
    cases h
    exact ⟨by simp, rfl, .nothing _⟩
  | cons p ps ihps =>
    rw [renderPredicates] at h
    obtain ⟨⟨q, b₁⟩, hq, h⟩ := bind_eq_ok.mp h
    obtain ⟨⟨rest, b₂⟩, hrest, h⟩ := bind_eq_ok.mp h
    cases h
    obtain ⟨hread, hparams, hbinds⟩ := ih p (by simp) hq
    obtain ⟨hreads, hparams', hbinds'⟩ := ihps (fun p' hp' => ih p' (mem_cons_of_mem _ hp')) hrest
    refine ⟨forall_mem_cons.mpr ⟨hread, hreads⟩, ?_, hbinds.trans hbinds'⟩
    rw [predTokens, flatMap_cons, hparams, hparams', valuesList, hbinds.next_append]

omit hd hns in
lemma params_group {t : Token} (ht : Sql.params [t] = []) (qs : List Pred) :
    Sql.params (.sym .opening :: [t].intercalate (predTokens d qs) ++ [.sym .closing]) = (predTokens d qs).flatMap Sql.params := by
  have hbody := params_intercalate ht (predTokens d qs)
  rw [params_append, ← hbody]
  exact append_nil _

omit hd hns in
lemma spans_group {sep : String} {t : Token} (hsep : r.Spans true true sep [t]) {qs : List Pred}
    (h : ∀ q ∈ qs, r.Spans false false (q.text d) (q.tokens d)) :
    r.Spans false false ("(" ++ sep.intercalate (predTexts d qs) ++ ")")
      (.sym .opening :: [t].intercalate (predTokens d qs) ++ [.sym .closing]) := by
  have hall : ∀ x ∈ qs.map fun q => (q.text d, q.tokens d), r.Spans false false x.1 x.2 := forall_mem_map.mpr h
  have hread := Reader.spans_intercalate hsep _ hall
  rw [map_map, map_map] at hread
  rw [predTexts_eq, predTokens_eq]
  exact (((spans_simple "(" [.sym .opening] rfl rfl).append hread rfl).append (spans_simple ")" _ rfl rfl) rfl).weak

omit hd hns in
lemma text_exists (d : Dialect) (t : RelationRef) (aliasName : String) (on : List (String × Col)) (p : Option Pred) :
    (Pred.ex t aliasName on p).text d =
      "EXISTS (SELECT 1 FROM " ++ tableText d t ++ " AS " ++ d.quoteIdent aliasName ++ " WHERE " ++ onText d aliasName on ++
        (p.elim "" fun q => " AND " ++ q.text d) ++ ")" := by
  cases p <;> rfl

omit hd hns in
lemma tokens_exists (d : Dialect) (t : RelationRef) (aliasName : String) (on : List (String × Col)) (p : Option Pred) :
    (Pred.ex t aliasName on p).tokens d =
      existsTokens t aliasName ++ [Token.word "AND"].intercalate (on.map (pairTokens aliasName)) ++
        (p.elim [] fun q => .word "AND" :: q.tokens d) ++ [.sym .closing] := by
  cases p <;> rfl

omit hd hns in
lemma params_exists (d : Dialect) (t : RelationRef) (aliasName : String) (on : List (String × Col)) (p : Option Pred) :
    Sql.params ((Pred.ex t aliasName on p).tokens d) = p.elim [] fun q => Sql.params (q.tokens d) := by
  have hon : Sql.params ([Token.word "AND"].intercalate (on.map (pairTokens aliasName))) = [] := by
    rw [params_intercalate rfl, flatMap_map, flatMap_eq_nil_iff]
    exact fun p _ => params_pair aliasName p
  rw [tokens_exists, params_append, params_append, params_append, params_existsTokens, hon]
  cases p with
  | none => rfl
  | some q => exact append_nil _

omit hns in
lemma spans_exists (t : RelationRef) (aliasName : String) (on : List (String × Col)) (p : Option Pred)
    (h : ∀ q ∈ p, r.Spans false false (q.text d) (q.tokens d)) :
    r.Spans false false ((Pred.ex t aliasName on p).text d) ((Pred.ex t aliasName on p).tokens d) := by
  have hopen := (spans_existsOpen hd t aliasName).append (spans_on hd aliasName on) rfl
  have hclosing : r.Spans true true ")" [.sym .closing] := spans_simple ")" _ rfl rfl
  rw [text_exists, tokens_exists]
  cases p with
  | none =>
    rw [Option.elim_none, Option.elim_none, String.append_empty, append_nil]
    exact (hopen.append hclosing rfl).weak
  | some q =>
    have hpred := (spans_simple " AND " [.word "AND"] rfl rfl).append (h q rfl) rfl
    exact ((hopen.append hpred rfl).append hclosing rfl).weak

theorem renderPredicate_spelled {scope : String} {p : Predicate} {b b' : Builder} {q : Pred}
    (h : renderPredicate maxIN ns scope p b = .ok (q, b')) : Spelled d r p q b b' := by
  induction p using Predicate.ind generalizing scope b b' q with
  | nil =>
    rw [renderPredicate] at h
    cases h
    exact ⟨Reader.spans_empty.weak, rfl, .nothing _⟩
  | cond c =>
    rw [renderPredicate] at h
    obtain ⟨rfl, rfl⟩ := renderCondition_eq h
    refine ⟨spans_cond hd (Names.column_whitelisted hns _ _) _ _, params_cond d _ _ _ ?_, .bind b _⟩
    intro hop
    have hnone : operands c.op c.value = [] := by rcases hop with hop | hop <;> rw [hop] <;> rfl
    rw [hnone, bind_nil]
  | and ps ih =>
    rw [renderPredicate] at h
    obtain ⟨⟨qs, b₁⟩, hqs, h⟩ := bind_eq_ok.mp h
    cases h
    obtain ⟨hreads, hparams, hbinds⟩ := renderPredicates_spelled (fun p hp => ih p hp) hqs
    exact ⟨spans_group (spans_simple " AND " _ rfl rfl) hreads, (params_group rfl qs).trans hparams, hbinds⟩
  | or ps ih =>
    rw [renderPredicate] at h
    obtain ⟨⟨qs, b₁⟩, hqs, h⟩ := bind_eq_ok.mp h
    cases h
    obtain ⟨hreads, hparams, hbinds⟩ := renderPredicates_spelled (fun p hp => ih p hp) hqs
    exact ⟨spans_group (spans_simple " OR " _ rfl rfl) hreads, (params_group rfl qs).trans hparams, hbinds⟩
  | not p ih =>
    rw [renderPredicate] at h
    obtain ⟨⟨q₁, b₁⟩, hq, h⟩ := bind_eq_ok.mp h
    cases h
    obtain ⟨hread, hparams, hbinds⟩ := ih hq
    exact ⟨(spans_simple "NOT " [.word "NOT"] rfl rfl).append hread rfl, hparams, hbinds⟩
  | ex t on p ih =>
    rw [renderPredicate] at h
    split at h
    · cases h
    simp only at h
    split at h
    · rename_i hnil
      have hp : p = .nil := by cases p <;> simp [Predicate.isNil] at hnil ⊢
      cases h
      subst hp
      exact ⟨spans_exists hd _ _ _ _ (by simp), params_exists d _ _ _ none, ⟨by simp [values], by simp [existsCount]⟩⟩
    · obtain ⟨⟨q₁, b₁⟩, hq, h⟩ := bind_eq_ok.mp h
      cases h
      obtain ⟨hread, hparams, hbinds⟩ := ih hq
      refine ⟨spans_exists hd _ _ _ _ (by simpa using hread), (params_exists d _ _ _ (some q₁)).trans hparams, ⟨hbinds.args, ?_⟩⟩
      rw [hbinds.exists_eq, existsCount]
      dsimp only
      omega

omit hd hns in
lemma takes_of_validate {c : Condition} {maxV : Nat} (h : validateCondition c maxV = .ok ()) :
    Op.Takes c.op (operands c.op c.value).length := by
  obtain ⟨field, op, value⟩ := c
  unfold validateCondition at h
  split_ifs at h with hfield hop
  cases op with
  | isNull | isNotNull => rfl
  | isIn | notIn =>
    cases value with
    | list vs =>
      dsimp only at h
      split_ifs at h with hlen
      exact fun h0 => hlen (.inl h0)
    | _ => cases h
  | invalid name => simp [Op.valid] at hop
  | _ => rfl

omit hd hns in
lemma length_bind (b : Builder) (vs : List Value) : (b.bind vs).1.length = vs.length := by simp [Builder.bind]

omit hd hns in
lemma intercalate_concat {α : Type} (s : α) {l : List (List α)} (hne : l ≠ []) (x : List α) :
    [s].intercalate (l ++ [x]) = [s].intercalate l ++ s :: x := by
  induction l with
  | nil => exact absurd rfl hne
  | cons y l ih =>
    cases l with
    | nil => simp [intercalate_cons_cons, intercalate_singleton]
    | cons z l =>
      have htail := ih (by simp)
      simp only [cons_append] at htail ⊢
      rw [intercalate_cons_cons, htail, intercalate_cons_cons, append_assoc _ _ (s :: x)]

lemma renderPredicates_parses {scope : String} {ps : List Predicate} (ih : ∀ p ∈ ps, ∀ {b b' : Builder} {q : Pred},
      renderPredicate maxIN ns scope p b = .ok (q, b') → Precedence.Reads grammar (q.tokens d) (tree ns scope b.exists_ p))
    {b b' : Builder} {qs : List Pred} (h : renderPredicates maxIN ns scope ps b = .ok (qs, b')) :
    ∃ xs : List (List Token × Tree), xs.map Prod.fst = predTokens d qs ∧ xs.map Prod.snd = trees ns scope b.exists_ ps ∧
      xs.length = ps.length ∧ ∀ x ∈ xs, Precedence.Reads grammar x.1 x.2 := by
  induction ps generalizing b qs with
  | nil =>
    rw [renderPredicates] at h
    cases h
    exact ⟨[], rfl, rfl, rfl, by simp⟩
  | cons p ps ihps =>
    rw [renderPredicates] at h
    obtain ⟨⟨q, b₁⟩, hq, h⟩ := bind_eq_ok.mp h
    obtain ⟨⟨rest, b₂⟩, hrest, h⟩ := bind_eq_ok.mp h
    cases h
    have hcount := (renderPredicate_spelled hd hns hq).binds.exists_eq
    obtain ⟨xs, hfst, hsnd, hlen, hreads⟩ := ihps (fun p' hp' => ih p' (mem_cons_of_mem _ hp')) hrest
    refine ⟨(q.tokens d, tree ns scope b.exists_ p) :: xs, ?_, ?_, by simp [hlen], ?_⟩
    · rw [map_cons, hfst, predTokens]
    · rw [map_cons, hsnd, trees, hcount]
    · exact forall_mem_cons.mpr ⟨ih p (by simp) hq, hreads⟩

omit hd hns in
lemma parses_exists (d : Dialect) (t : RelationRef) (aliasName : String) {on : List (String × Col)} (hne : on ≠ [])
    (p : Option (Pred × Tree)) (h : ∀ x ∈ p, Precedence.Reads grammar (x.1.tokens d) x.2) :
    Precedence.Reads grammar ((Pred.ex t aliasName on (p.map Prod.fst)).tokens d)
      (.nest (tableCol t, aliasName)
        (.group .and (on.map (fun x => .leaf (.join (.of aliasName x.1) x.2)) ++ p.toList.map Prod.snd))) := by
  let xs : List (List Token × Tree) :=
    on.map (fun x => (pairTokens aliasName x, .leaf (.join (.of aliasName x.1) x.2))) ++ p.toList.map fun x => (x.1.tokens d, x.2)
  have hreads : ∀ x ∈ xs, Precedence.Reads grammar x.1 x.2 := by
    intro x hx
    rcases mem_append.mp hx with hx | hx
    · obtain ⟨y, -, rfl⟩ := mem_map.mp hx
      exact reads_join aliasName y
    · obtain ⟨y, hy, rfl⟩ := mem_map.mp hx
      exact h y (Option.mem_toList.mp hy)
  have hfst : (Pred.ex t aliasName on (p.map Prod.fst)).tokens d =
      existsTokens t aliasName ++ [grammar.conj].intercalate (xs.map Prod.fst) ++ [grammar.closing] := by
    rw [tokens_exists]
    cases p with
    | none => simp [xs, grammar, Function.comp_def]
    | some x =>
      simp only [xs, Option.toList_some, map_append, map_map, map_cons, map_nil]
      rw [intercalate_concat _ (by simpa using hne)]
      simp [grammar, Function.comp_def]
  have hsnd : xs.map Prod.snd = on.map (fun x => .leaf (.join (.of aliasName x.1) x.2)) ++ p.toList.map Prod.snd := by
    simp [xs, Function.comp_def]
  obtain ⟨ts, hts⟩ : ∃ ts, existsTokens t aliasName = .word "EXISTS" :: ts := ⟨_, rfl⟩
  rw [hfst, hts, ← hsnd]
  refine Precedence.Reads.nest xs (by decide) (by decide) ?_ (by simp [xs, hne]) hreads
  intro rest
  rw [← hts]
  exact readExists_tokens t aliasName

/-- What is written for a predicate the validator accepts reads back as its tree. -/
theorem renderPredicate_parses {scope : String} {p : Predicate} {maxV : Nat} {b b' : Builder} {q : Pred}
    (hvalid : validateWithin maxV p = .ok ()) (hnil : p.isNil = false)
    (h : renderPredicate maxIN ns scope p b = .ok (q, b')) :
    Precedence.Reads grammar (q.tokens d) (tree ns scope b.exists_ p) := by
  induction p using Predicate.ind generalizing scope b b' q with
  | nil => cases hnil
  | cond c =>
    rw [renderPredicate] at h
    obtain ⟨rfl, rfl⟩ := renderCondition_eq h
    rw [validateWithin] at hvalid
    have hread := reads_test d (Names.column_whitelisted hns scope c.field) (b.bind (operands c.op c.value)).1
      (by rw [length_bind]; exact takes_of_validate hvalid)
    rw [length_bind] at hread
    exact hread
  | and ps ih =>
    rw [renderPredicate] at h
    obtain ⟨⟨qs, b₁⟩, hqs, h⟩ := bind_eq_ok.mp h
    cases h
    obtain ⟨hne, hall⟩ := validate_group (.inl hvalid)
    obtain ⟨xs, hfst, hsnd, hlen, hreads⟩ :=
      renderPredicates_parses hd hns (fun p hp => ih p hp (hall p hp).2 (hall p hp).1) hqs
    have hread := Precedence.Reads.conj xs (fun h => hne (eq_nil_of_length_eq_zero (by rw [← hlen, h]; rfl))) hreads
    rw [hfst, hsnd] at hread
    exact hread
  | or ps ih =>
    rw [renderPredicate] at h
    obtain ⟨⟨qs, b₁⟩, hqs, h⟩ := bind_eq_ok.mp h
    cases h
    obtain ⟨hne, hall⟩ := validate_group (.inr hvalid)
    obtain ⟨xs, hfst, hsnd, hlen, hreads⟩ :=
      renderPredicates_parses hd hns (fun p hp => ih p hp (hall p hp).2 (hall p hp).1) hqs
    have hread := Precedence.Reads.disj xs (fun h => hne (eq_nil_of_length_eq_zero (by rw [← hlen, h]; rfl))) hreads
    rw [hfst, hsnd] at hread
    exact hread
  | not p ih =>
    rw [renderPredicate] at h
    obtain ⟨⟨q₁, b₁⟩, hq, h⟩ := bind_eq_ok.mp h
    cases h
    rw [validateWithin] at hvalid
    split at hvalid
    · cases hvalid
    rename_i hp
    exact (ih hvalid (by simpa using hp) hq).not
  | ex t on p ih =>
    have hv := validate_ex hvalid
    have hon : renderPairs ns scope on ≠ [] := by simpa [renderPairs] using hv.1
    have hjoins : (renderPairs ns scope on).map (fun x => Precedence.Tree.leaf (Leaf.join (.of (existsAlias (b.exists_ + 1)) x.1) x.2)) =
        on.map (joinTree ns (existsAlias (b.exists_ + 1)) scope) := by
      rw [renderPairs, map_map]
      rfl
    rw [renderPredicate] at h
    split at h
    · cases h
    simp only at h
    rw [tree, ← hjoins]
    split at h
    · rename_i hp
      cases h
      rw [if_pos hp]
      exact parses_exists d t _ hon none (by simp)
    · rename_i hp
      obtain ⟨⟨q₁, b₁⟩, hq, h⟩ := bind_eq_ok.mp h
      cases h
      rw [if_neg hp]
      exact parses_exists d t _ hon (some (q₁, _)) (by rintro x ⟨⟩; exact ih hv.2 (by simpa using hp) hq)

end Written

end SqlMcpServer.Codegen
