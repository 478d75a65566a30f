import SqlMcpServer.Codegen.Arguments
import SqlMcpServer.Codegen.Blank

namespace SqlMcpServer.Codegen

open List
open Relalg Sql
open scoped Lexer

section Written
variable {maxIN : Int} (hmax : 0 < maxIN) {ns : Names}
include hmax

lemma renderCondition_ok {scope : String} {c : Condition} (hvalid : validateCondition c maxIN.toNat = .ok ()) (b : Builder) :
    ∃ q b', renderCondition maxIN ns scope c b = .ok (q, b') := by
  obtain ⟨field, op, value⟩ := c
  unfold validateCondition at hvalid
  split_ifs at hvalid with hfield hop
  have hin : ∀ vs : List Value, ¬ (vs.length = 0 ∨ maxIN.toNat < vs.length) → ∀ op, ∃ q b', (do
      Except.refuseIf (vs = []) .emptyIn
      Except.refuseIf (maxIN < vs.length) (.inCardinality vs.length maxIN)
      return (Pred.cond (ns.column scope field) op (b.bind vs).1, (b.bind vs).2) : Except CodegenError (Pred × Builder)) = .ok (q, b') := by
    intro vs hlen op
    have hne : vs ≠ [] := fun h => hlen (.inl (by rw [h]; rfl))
    refine ⟨.cond (ns.column scope field) op (b.bind vs).1, (b.bind vs).2,
      Except.bind_eq_ok.mpr ⟨(), Except.refuseIf_eq_ok.mpr hne, ?_⟩⟩
    exact Except.bind_eq_ok.mpr ⟨(), Except.refuseIf_eq_ok.mpr (by omega), rfl⟩
  cases op with
  | isIn | notIn =>
    cases value with
    | list vs =>
      dsimp only at hvalid
      split_ifs at hvalid with hlen
      exact hin vs hlen _
    | _ => cases hvalid
  | _ => exact ⟨_, _, rfl⟩

omit hmax in
lemma renderPredicates_ok {scope : String} {ps : List Predicate}
    (ih : ∀ p ∈ ps, ∀ b, ∃ q b', renderPredicate maxIN ns scope p b = .ok (q, b')) (b : Builder) :
    ∃ qs b', renderPredicates maxIN ns scope ps b = .ok (qs, b') := by
  induction ps generalizing b with
  | nil => exact ⟨_, _, by rw [renderPredicates]⟩
  | cons p ps ihps =>
    obtain ⟨q, b₁, hq⟩ := ih p (by simp) b
    obtain ⟨qs, b₂, hqs⟩ := ihps (fun p hp => ih p (mem_cons_of_mem _ hp)) b₁
    refine ⟨q :: qs, b₂, ?_⟩
    rw [renderPredicates, hq, Except.ok_bind]
    dsimp only
    rw [hqs]
    rfl

omit hmax in
lemma hasExists_of_validate {maxV : Nat} {r : RelationRef} {on : List JoinPair} {p : Predicate}
    (h : validateWithin maxV (.ex r on p) = .ok ()) : hasExists p = false := by
  rw [validateWithin] at h
  split_ifs at h with hjoin hnests
  simpa using hnests

/-- A predicate the validator accepts is written; only one inside a join or an EXISTS must
have no EXISTS of its own. -/
theorem renderPredicate_ok {scope : String} {p : Predicate} (hvalid : validateWithin maxIN.toNat p = .ok ())
    (hscope : scope = "" ∨ hasExists p = false) (b : Builder) : ∃ q b', renderPredicate maxIN ns scope p b = .ok (q, b') := by
  induction p using Predicate.ind generalizing scope b with
  | nil => exact ⟨_, _, by rw [renderPredicate]⟩
  | cond c =>
    rw [renderPredicate]
    rw [validateWithin] at hvalid
    exact renderCondition_ok hmax hvalid b
  | and ps ih =>
    rw [hasExists, hasExistsList_eq_false] at hscope
    obtain ⟨-, hall⟩ := validate_group (.inl hvalid)
    obtain ⟨qs, b', hqs⟩ :=
      renderPredicates_ok (fun p hp b => ih p hp (hall p hp).2 (hscope.imp_right fun h => h p hp) b) b
    exact ⟨.and qs, b', by rw [renderPredicate, hqs]; rfl⟩
  | or ps ih =>
    rw [hasExists, hasExistsList_eq_false] at hscope
    obtain ⟨-, hall⟩ := validate_group (.inr hvalid)
    obtain ⟨qs, b', hqs⟩ :=
      renderPredicates_ok (fun p hp b => ih p hp (hall p hp).2 (hscope.imp_right fun h => h p hp) b) b
    exact ⟨.or qs, b', by rw [renderPredicate, hqs]; rfl⟩
  | not p ih =>
    rw [validateWithin] at hvalid
    split at hvalid
    · cases hvalid
    obtain ⟨q, b', hq⟩ := ih hvalid hscope b
    exact ⟨.not q, b', by rw [renderPredicate, hq]; rfl⟩
  | ex r on p ih =>
    rw [renderPredicate, if_neg (by simpa using hscope.resolve_right (by simp [hasExists]))]
    split_ifs
    · exact ⟨_, _, rfl⟩
    · obtain ⟨q, b', hq⟩ := ih (validate_ex hvalid).2 (.inr (hasExists_of_validate hvalid)) _
      exact ⟨_, _, Except.bind_eq_ok.mpr ⟨_, hq, rfl⟩⟩

end Written

/-- Text and values of statements, for a dialect whose quoted identifiers and placeholders are
single tokens, a quoted identifier that of its name. A predicate the validator accepts is
written outside joins and EXISTS, and inside where it has no EXISTS of its own; its text,
parsed by SQL's precedence, is its tree. The placeholders of a statement are the dialect's
first ones in order, and the arguments are the expression's values in the order their places
are written. Expressions that differ in values only have the same text. -/
theorem text_without_values {d : Dialect} {r : Reader} (hd : d.ReadBy r) :
    (∀ (maxIN : Int) (root : String) (joins : List String) (aggregates : List AggCall) (outputs : List (String × Call))
        (scope : String) (p : Predicate) (b : Builder),
      outputCalls ⟨root, joins, []⟩ aggregates = .ok outputs →
      validatePredicateWithMaxINCardinality p maxIN = .ok () → p.isNil = false →
      (scope = "" ∨ hasExists p = false → ∃ q b', renderPredicate maxIN ⟨root, joins, outputs⟩ scope p b = .ok (q, b')) ∧
        ∀ q b', renderPredicate maxIN ⟨root, joins, outputs⟩ scope p b = .ok (q, b') →
          r.parse (q.text d) = some (tree ⟨root, joins, outputs⟩ scope b.exists_ p)) ∧
    (∀ (returning : Bool) (o : Statement.Options) (n : Statement.Node) (c : Statement.Compiled),
      Statement.compile d returning o n = .ok c →
      (∃ ts, r.tokens c.sql = some ts ∧ params ts = (List.range c.args.length).map d.placeholder) ∧ c.args = nodeValues n) ∧
    ∀ (returning : Bool) (o : Statement.Options) (n n' : Statement.Node) (c c' : Statement.Compiled),
      blankNode n = blankNode n' → Statement.compile d returning o n = .ok c → Statement.compile d returning o n' = .ok c' →
      c.sql = c'.sql := by
  refine ⟨?_, ?_, fun _ _ _ _ _ _ => compile_alike⟩
  · intro maxIN root joins aggregates outputs scope p b houtputs hvalid hnil
    have hns := outputCalls_whitelisted houtputs
    unfold validatePredicateWithMaxINCardinality at hvalid
    split_ifs at hvalid with hmax
    refine ⟨fun hscope => renderPredicate_ok (by omega) hvalid hscope b, fun q b' hq => ?_⟩
    have htokens := (renderPredicate_spelled hd hns hq).reads.tokens_eq
    rw [Reader.parse, htokens]
    exact (renderPredicate_parses hd hns hvalid hnil hq).parse_eq
  · intro returning o n c hc
    obtain ⟨⟨ts, hread, hparams⟩, hargs⟩ := compile_slots hd hc
    exact ⟨⟨ts, hread.tokens_eq, hparams⟩, hargs⟩

namespace MySQL

/-- A name inside backquotes: a backquote of its own is doubled. -/
def escape : List Char → List Char
  | [] => []
  | c :: cs => if c = '\x60' then c :: c :: escape cs else c :: escape cs

def dialect : Dialect where
  quoteIdent n := String.ofList ('\x60' :: escape n.toList ++ ['\x60'])
  placeholder _ := "?"
  nullsLast := false

/-- The name up to the closing backquote, and the rest. -/
def unescape : List Char → Option (List Char × List Char)
  | [] => none
  | '\x60' :: '\x60' :: cs => (unescape cs).map fun p => ('\x60' :: p.1, p.2)
  | '\x60' :: cs => some ([], cs)
  | c :: cs => (unescape cs).map fun p => (c :: p.1, p.2)

lemma unescape_shrinks {cs name rest : List Char} (h : unescape cs = some (name, rest)) : rest.length < cs.length := by
  induction cs using unescape.induct generalizing name with
  | case1 => cases h
  | case2 cs ih =>
    rw [unescape] at h
    obtain ⟨p, hp, heq⟩ := Option.map_eq_some_iff.mp h
    cases heq
    have hlt := ih hp
    simp only [length_cons]
    omega
  | case3 cs hne =>
    rw [unescape] at h
    · cases h
      simp
    · exact hne
  | case4 c cs hne hne' ih =>
    rw [unescape] at h
    · obtain ⟨p, hp, heq⟩ := Option.map_eq_some_iff.mp h
      cases heq
      have hlt := ih hp
      simp only [length_cons]
      omega
    · exact hne
    · exact hne'

lemma unescape_escape (n : List Char) {rest : List Char} (hrest : ∀ c ∈ rest.head?, c ≠ '\x60') :
    unescape (escape n ++ '\x60' :: rest) = some (n, rest) := by
  induction n with
  | nil =>
    rw [escape, nil_append, unescape]
    rintro cs rfl
    exact hrest '\x60' rfl rfl
  | cons c n ih =>
    rw [escape]
    split_ifs with hc
    · rw [hc, cons_append, cons_append, unescape, ih]
      rfl
    · rw [cons_append, unescape, ih]
      · rfl
      · exact fun cs h => absurd h hc
      · exact hc

def read : List Char → Option (Token × List Char)
  | '\x60' :: cs => (unescape cs).map fun p => (.name (String.ofList p.1), p.2)
  | '?' :: cs => some (.param "?", cs)
  | _ => none

def reader : Reader where
  read := read
  shrinks {cs t rest} h := by
    unfold read at h
    split at h
    · obtain ⟨p, hp, heq⟩ := Option.map_eq_some_iff.mp h
      cases heq
      exact Nat.lt_succ_of_lt (unescape_shrinks hp)
    · cases h
      simp
    · cases h
  plain {c} hc cs := by
    have hquote : ¬ Plain '\x60' := by decide
    have hmark : ¬ Plain '?' := by decide
    unfold read
    split
    · rename_i heq
      cases heq
      exact absurd hc hquote
    · rename_i heq
      cases heq
      exact absurd hc hmark
    · rfl

lemma dialect_readBy : dialect.ReadBy reader := by
  have hmark : "?".toList = ['?'] := by decide
  refine ⟨?_, fun _ rest _ => by rw [show dialect.placeholder _ = "?" from rfl, hmark]; rfl⟩
  intro n rest hrest
  have hdelimiters : ∀ c ∈ [' ', '(', ')', ',', '.'], c ≠ '\x60' := by decide
  have hread := unescape_escape n.toList fun c hc => hdelimiters c (hrest c hc)
  simp only [dialect, String.toList_ofList, cons_append, append_assoc, nil_append]
  show (unescape (escape n.toList ++ '\x60' :: rest)).map _ = _
  rw [hread]
  simp

/-- `a = v AND NOT b IN (x, y)` -/
def filter (v x y : Value) : Predicate := .and [.cond ⟨"a", .eq, v⟩, .not (.cond ⟨"b", .isIn, .list [x, y]⟩)]

theorem text_without_values_mysql :
    (∃ q b', renderPredicate 1000 ⟨"", [], []⟩ "" (filter (.num 1) (.num 2) (.num 3)) ⟨[], 0⟩ = .ok (q, b') ∧
      reader.parse (q.text dialect) = some (tree ⟨"", [], []⟩ "" 0 (filter (.num 1) (.num 2) (.num 3)))) ∧
    ∃ c c', Statement.compile dialect false {} (.delete ⟨"", "t"⟩ (filter (.num 1) (.num 2) (.num 3))) = .ok c ∧
      Statement.compile dialect false {} (.delete ⟨"", "t"⟩ (filter (.str "x' OR 1 = 1") (.num 2) .null)) = .ok c' ∧
      c.sql = c'.sql ∧ c.args = [.num 1, .num 2, .num 3] := by
  obtain ⟨hpredicates, hstatements, hvalues⟩ := text_without_values dialect_readBy
  refine ⟨?_, ?_⟩
  · obtain ⟨hwritten, hparses⟩ := hpredicates 1000 "" [] [] [] "" (filter (.num 1) (.num 2) (.num 3)) ⟨[], 0⟩ rfl rfl rfl
    obtain ⟨q, b', hq⟩ := hwritten (.inl rfl)
    exact ⟨q, b', hq, hparses q b' hq⟩
  · have hc : Statement.compile dialect false {} (.delete ⟨"", "t"⟩ (filter (.num 1) (.num 2) (.num 3))) = .ok _ := rfl
    have hc' : Statement.compile dialect false {} (.delete ⟨"", "t"⟩ (filter (.str "x' OR 1 = 1") (.num 2) .null)) = .ok _ := rfl
    have halike : blankNode (.delete ⟨"", "t"⟩ (filter (.num 1) (.num 2) (.num 3))) =
        blankNode (.delete ⟨"", "t"⟩ (filter (.str "x' OR 1 = 1") (.num 2) .null)) := rfl
    exact ⟨_, _, hc, hc', hvalues _ _ _ _ _ _ halike hc hc', (hstatements _ _ _ _ hc).2⟩

end MySQL

end SqlMcpServer.Codegen
