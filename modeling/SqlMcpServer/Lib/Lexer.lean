import Mathlib.Data.List.TakeWhile
import Mathlib.Data.List.Basic
import Mathlib.Tactic.Lemma

/-!
# Lexers

A lexer reads special tokens (quoted names, symbols) where it finds them, skips spaces, and
takes words as long as they go.
-/

universe u

/-- What a lexer reads. A special token takes at least one character. -/
structure Lexer (τ : Type u) where
  space : Char → Bool
  word : Char → Bool
  ofWord : List Char → τ
  special : List Char → Option (τ × List Char)
  shrinks : ∀ {cs t rest}, special cs = some (t, rest) → rest.length < cs.length

namespace Lexer

-- What is asked of the characters of a literal is decided along the literal, not over all
-- characters there are.
scoped instance (priority := high) decidableForallChars (cs : List Char) (p : Char → Prop) [DecidablePred p] :
    Decidable (∀ c ∈ cs, p c) :=
  List.decidableBAll p cs

scoped instance (priority := high) decidableForallChar (c : Option Char) (p : Char → Prop) [DecidablePred p] :
    Decidable (∀ c' ∈ c, p c') :=
  match c with
  | none => isTrue (by simp)
  | some c => decidable_of_iff (p c) (by simp)

variable {τ : Type u} (l : Lexer τ)

def lex : List Char → Option (List τ)
  | [] => some []
  | c :: cs =>
    match _h : l.special (c :: cs) with
    | some (t, rest) => (lex rest).map (t :: ·)
    | none =>
      if l.space c then lex cs
      else if l.word c then (lex (cs.dropWhile l.word)).map (l.ofWord (c :: cs.takeWhile l.word) :: ·)
      else none
termination_by cs => cs.length
decreasing_by
  · exact l.shrinks ‹_›
  · simp
  · exact Nat.lt_succ_of_le (List.dropWhile_suffix _).length_le

variable {l} {follow follow' : List Char → Prop} {s s' : List Char} {ts ts' : List τ}

lemma lex_special {c : Char} {cs rest : List Char} {t : τ} (h : l.special (c :: cs) = some (t, rest)) :
    l.lex (c :: cs) = (l.lex rest).map (t :: ·) := by
  rw [lex]
  split
  · rename_i heq
    rw [h] at heq
    cases heq
    rfl
  · rename_i heq
    rw [h] at heq
    cases heq

lemma lex_plain {c : Char} {cs : List Char} (h : l.special (c :: cs) = none) :
    l.lex (c :: cs) = if l.space c then l.lex cs
      else if l.word c then (l.lex (cs.dropWhile l.word)).map (l.ofWord (c :: cs.takeWhile l.word) :: ·)
      else none := by
  rw [lex]
  split
  · rename_i heq
    rw [h] at heq
    cases heq
  · rfl

variable (l) in
/-- Before any text that is as `follow` asks, `s` reads as `ts`. -/
def Reads (follow : List Char → Prop) (s : List Char) (ts : List τ) : Prop :=
  ∀ rest, follow rest → l.lex (s ++ rest) = (l.lex rest).map (ts ++ ·)

lemma Reads.nil : l.Reads follow [] [] := by
  intro rest _
  simp

lemma Reads.mono (h : l.Reads follow s ts) (hfollow : ∀ rest, follow' rest → follow rest) : l.Reads follow' s ts :=
  fun rest hrest => h rest (hfollow rest hrest)

lemma Reads.lex_eq (h : l.Reads follow s ts) (hnil : follow []) : l.lex s = some ts := by
  have hread := h [] hnil
  rw [List.append_nil, lex] at hread
  simpa using hread

lemma Reads.append (h : l.Reads follow s ts) (h' : l.Reads follow' s' ts') (hfollow : ∀ rest, follow' rest → follow (s' ++ rest)) :
    l.Reads follow' (s ++ s') (ts ++ ts') := by
  intro rest hrest
  rw [List.append_assoc, h _ (hfollow rest hrest), h' rest hrest, Option.map_map]
  congr 1
  funext us
  simp

lemma Reads.space {c : Char} (hc : l.space c = true) (hspecial : ∀ rest, l.special (c :: rest) = none) : l.Reads follow [c] [] := by
  intro rest _
  rw [List.singleton_append, lex_plain (hspecial rest), if_pos hc]
  simp

lemma Reads.special {t : τ} (h : ∀ rest, follow rest → l.special (s ++ rest) = some (t, rest)) : l.Reads follow s [t] := by
  intro rest hrest
  have hread := h rest hrest
  cases s with
  | nil => exact absurd (l.shrinks hread) (Nat.lt_irrefl _)
  | cons c s =>
    rw [List.cons_append] at hread ⊢
    rw [lex_special hread]
    rfl

lemma Reads.word {c : Char} {w : List Char} (hword : ∀ c' ∈ c :: w, l.word c' = true) (hspace : l.space c = false)
    (hspecial : ∀ rest, l.special (c :: rest) = none) (hfollow : ∀ rest, follow rest → ∀ c' ∈ rest.head?, l.word c' = false) :
    l.Reads follow (c :: w) [l.ofWord (c :: w)] := by
  intro rest hrest
  have hend : rest.takeWhile l.word = [] ∧ rest.dropWhile l.word = rest := by
    cases rest with
    | nil => exact ⟨rfl, rfl⟩
    | cons c' rest =>
      have hc' := hfollow _ hrest c' (by simp)
      simp [hc']
  have hw : ∀ c' ∈ w, l.word c' = true := fun c' hc' => hword c' (List.mem_cons_of_mem _ hc')
  rw [List.cons_append, lex_plain (hspecial _), if_neg (by simp [hspace]), if_pos (hword c (by simp)),
    List.takeWhile_append_of_pos hw, List.dropWhile_append_of_pos hw, hend.1, hend.2, List.append_nil]
  rfl

end Lexer
