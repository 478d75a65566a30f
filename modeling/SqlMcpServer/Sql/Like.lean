import SqlMcpServer.Lib.GoRegexp
import SqlMcpServer.Sql.Semantics

/-!
# LIKE as a regular expression

The text `likeRegexp` gives to `regexp.Compile`, and that what it matches is what LIKE matches.
-/

namespace SqlMcpServer.Interp

open GoRegexp List Relalg
open Sql (like)

lemma likeMatch_eq_like (p text : List Char) : likeMatch (likeRegexp p false) text = like p text := by
  have hplain : ∀ (c : Char) (p : List Char), (c = '\\' → p = [] → False) →
      (∀ d q, c = '\\' → p = d :: q → False) → c ≠ '\\' := by
    intro c p hnil hcons hc
    cases p with
    | nil => exact hnil hc rfl
    | cons d q => exact hcons d q hc rfl
  fun_induction like p text with
  | case1 text => simp [likeRegexp, likeMatch]
  | case2 text => rcases text with _ | ⟨d, _ | ⟨e, ds⟩⟩ <;> simp [likeRegexp, likeMatch, eq_comm]
  | case3 c p d text ih => simp [likeRegexp, likeMatch, ih]
  | case4 c p => simp [likeRegexp, likeMatch]
  | case5 p text ih =>
    have hfun : likeMatch (likeRegexp p false) = like p := funext ih
    simp [likeRegexp, likeMatch, hfun]
  | case6 p d text ih => simp [likeRegexp, likeMatch, ih]
  | case7 c p d text hnil hcons hseq hone ih =>
    have hesc := hplain c p hnil hcons
    simp [likeRegexp, likeMatch, hesc, show c ≠ '%' from hseq, show c ≠ '_' from hone, ih]
  | case8 c p hnil hcons hseq =>
    have hesc := hplain c p hnil hcons
    by_cases hone : c = '_' <;> simp [likeRegexp, likeMatch, hesc, show c ≠ '%' from hseq, hone]

/-- The loop of `likeRegexp`, with its `escaped`. -/
def likeText : List Char → Bool → List Char
  | [], escaped => if escaped then quoteMeta '\\' else []
  | c :: cs, true => quoteMeta c ++ likeText cs false
  | c :: cs, false =>
    if c = '\\' then likeText cs true
    else if c = '%' then ['.', '*'] ++ likeText cs false
    else if c = '_' then ['.'] ++ likeText cs false
    else quoteMeta c ++ likeText cs false

def likeRegexpText (pattern : List Char) : List Char :=
  ['(', '?', 's', ')', '\\', 'A'] ++ likeText pattern false ++ ['\\', 'z']

def LikeToken.piece : LikeToken → Piece
  | .lit c => .one (.char c)
  | .anyOne => .one (.any true)
  | .anySeq => .many (.any true)

lemma likeText_head (cs : List Char) (escaped : Bool) : (likeText cs escaped ++ ['\\', 'z']).head? ≠ some '*' := by
  fun_induction likeText cs escaped with
  | case1 => simp [quoteMeta, special]
  | case2 => simp
  | case3 c cs ih =>
    rw [append_assoc]
    exact quoteMeta_head c _
  | case4 cs ih => exact ih
  | case5 | case6 => simp
  | case7 c cs =>
    rw [append_assoc]
    exact quoteMeta_head c _

lemma parse_likeText (cs : List Char) (escaped : Bool) :
    parse (likeText cs escaped ++ ['\\', 'z']) true = some ((likeRegexp cs escaped).map LikeToken.piece ++ [.stop]) := by
  fun_induction likeText cs escaped with
  | case1 => rfl
  | case2 escaped hesc =>
    rw [eq_false_of_ne_true hesc]
    rfl
  | case3 c cs ih =>
    rw [append_assoc, parse_quoteMeta, ih]
    rfl
  | case4 cs ih =>
    rw [ih]
    rfl
  | case5 cs hesc ih =>
    refine (parse_anySeq (likeText cs false ++ _) true).trans ?_
    rw [ih]
    rfl
  | case6 cs hesc hseq ih =>
    rw [cons_append, cons_append, nil_append, parse_dot (likeText_head cs false), ih]
    rfl
  | case7 c cs hesc hseq hone ih =>
    rw [append_assoc, parse_quoteMeta, ih, likeRegexp, if_neg hesc, if_neg hseq, if_neg hone]
    rfl

lemma matchHere_piece (ts : List LikeToken) (first : Bool) (text : List Char) :
    matchHere (ts.map LikeToken.piece ++ [.stop]) first text = likeMatch ts text := by
  induction ts generalizing first text with
  | nil => simp [matchHere, likeMatch]
  | cons t ts ih =>
    cases t with
    | lit c => cases text <;> simp [LikeToken.piece, matchHere, likeMatch, Atom.fits, ih]
    | anyOne => cases text <;> simp [LikeToken.piece, matchHere, likeMatch, Atom.fits, ih]
    | anySeq =>
      have hfun : matchHere (ts.map LikeToken.piece ++ [.stop]) false = likeMatch ts := funext (ih false)
      rw [map_cons, cons_append, LikeToken.piece, matchHere_anySeq, hfun, ih, likeMatch]
      cases text <;> simp [tails]

/-- The expression a LIKE pattern is translated to compiles, and matches the texts LIKE matches. -/
theorem likeRegexp_matches_like (pattern text : String) :
    ∃ ps, compile (likeRegexpText pattern.toList) = some ps ∧
      matchString ps text.toList = Sql.like pattern.toList text.toList ∧
      evalLike (.str text) (.str pattern) = .ok (Kleene.ofBool (matchString ps text.toList)) := by
  have hmatch : matchString (.start :: ((likeRegexp pattern.toList false).map LikeToken.piece ++ [.stop])) text.toList =
      likeMatch (likeRegexp pattern.toList false) text.toList := by
    rw [matchString_start, matchHere_piece]
  refine ⟨_, ?_, hmatch.trans (likeMatch_eq_like _ _), ?_⟩
  · rw [compile, likeRegexpText]
    simp only [cons_append, nil_append, parse, parse_likeText]
    rfl
  · rw [evalLike, hmatch]

end SqlMcpServer.Interp
