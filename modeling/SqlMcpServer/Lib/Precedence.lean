import Mathlib.Data.List.Basic
import Mathlib.Data.Nat.Basic
import Mathlib.Tactic.Lemma
import Mathlib.Tactic.SplitIfs

/-!
# Conditions by precedence

Conditions of leaves, NOT, AND and OR, binding in this order, with parentheses and nested
conditions (of a subquery, say) that a closing parenthesis ends.
-/

universe u v w

namespace Precedence

open List

inductive Tree (L : Type v) (H : Type w) where
  | leaf (l : L)
  | and (ts : List (Tree L H))
  | or (ts : List (Tree L H))
  | not (t : Tree L H)
  /-- A nested condition, under what opened it. -/
  | nest (h : H) (t : Tree L H)

/-- A group of one is its member. -/
def Tree.group {L : Type v} {H : Type w} (mk : List (Tree L H) → Tree L H) : List (Tree L H) → Tree L H
  | [t] => t
  | ts => mk ts

/-- The tokens of the connectives, and how leaves and what opens a nested condition are read. -/
structure Grammar (τ : Type u) (L : Type v) (H : Type w) where
  conj : τ
  disj : τ
  neg : τ
  opening : τ
  closing : τ
  leaf : List τ → Option (L × List τ)
  nest : List τ → Option (H × List τ)
  conj_ne_disj : conj ≠ disj
  conj_ne_closing : conj ≠ closing
  disj_ne_closing : disj ≠ closing
  opening_ne_neg : opening ≠ neg

section Lengths
variable {τ : Type u}

lemma length_le_intercalate {ts : List τ} {tss : List (List τ)} (sep : τ) (h : ts ∈ tss) :
    ts.length ≤ ([sep].intercalate tss).length := by
  induction tss with
  | nil => cases h
  | cons us tss ih =>
    cases tss with
    | nil =>
      rw [mem_singleton.mp h, intercalate_singleton]
    | cons vs tss =>
      rw [intercalate_cons_cons, length_append, length_append]
      rcases mem_cons.mp h with rfl | h
      · omega
      · have := ih h
        omega

lemma length_le_length_intercalate (sep : τ) (tss : List (List τ)) : tss.length ≤ ([sep].intercalate tss).length + 1 := by
  induction tss with
  | nil => simp
  | cons us tss ih =>
    cases tss with
    | nil => simp
    | cons vs tss =>
      rw [intercalate_cons_cons, length_append, length_append, length_cons]
      simp only [length_singleton]
      omega

end Lengths

section Parser
variable {τ : Type u} {L : Type v} {H : Type w} [DecidableEq τ]

def chain {α : Type v} (sep : τ) (item : List τ → Option (α × List τ)) : Nat → List τ → Option (List α × List τ)
  | 0, _ => none
  | n + 1, ts =>
    match item ts with
    | none => none
    | some (a, []) => some ([a], [])
    | some (a, t :: rest) =>
      if t = sep then (chain sep item n rest).map fun p => (a :: p.1, p.2) else some ([a], t :: rest)

variable (g : Grammar τ L H)

def negated (primary : List τ → Option (Tree L H × List τ)) : List τ → Option (Tree L H × List τ)
  | [] => none
  | t :: ts =>
    if t = g.neg then (negated primary ts).map fun p => (.not p.1, p.2) else primary (t :: ts)

/-- A condition to the closing parenthesis. -/
def closed (inner : List τ → Option (Tree L H × List τ)) (ts : List τ) : Option (Tree L H × List τ) :=
  match inner ts with
  | some (t, c :: rest) => if c = g.closing then some (t, rest) else none
  | _ => none

def primary (inner : List τ → Option (Tree L H × List τ)) : List τ → Option (Tree L H × List τ)
  | [] => none
  | t :: ts =>
    if t = g.opening then closed g inner ts
    else
      match g.nest (t :: ts) with
      | some (h, body) => (closed g inner body).map fun p => (.nest h p.1, p.2)
      | none => (g.leaf (t :: ts)).map fun p => (.leaf p.1, p.2)

/-- The AND of conditions, each what `item` reads. -/
def conjunction (item : List τ → Option (Tree L H × List τ)) (ts : List τ) : Option (Tree L H × List τ) :=
  (chain g.conj item (ts.length + 1) ts).map fun p => (Tree.group .and p.1, p.2)

def disjunction (item : List τ → Option (Tree L H × List τ)) (ts : List τ) : Option (Tree L H × List τ) :=
  (chain g.disj item (ts.length + 1) ts).map fun p => (Tree.group .or p.1, p.2)

/-- A condition in at most so many parentheses. -/
def condition : Nat → List τ → Option (Tree L H × List τ)
  | 0 => fun _ => none
  | n + 1 => disjunction g (conjunction g (negated g (primary g (condition n))))

/-- The condition a list of tokens is, all of it. -/
def parse (ts : List τ) : Option (Tree L H) :=
  match condition g (ts.length + 1) ts with
  | some (t, []) => some t
  | _ => none

variable {g}

lemma chain_intercalate {α : Type v} {sep : τ} {item : List τ → Option (α × List τ)} (follow : List τ → Prop)
    (hsep : ∀ rest, follow (sep :: rest)) {xs : List (List τ × α)} (hne : xs ≠ [])
    (hitem : ∀ x ∈ xs, ∀ rest, follow rest → item (x.1 ++ rest) = some (x.2, rest)) {rest : List τ} (hrest : follow rest)
    (hhead : rest.head? ≠ some sep) {n : Nat} (hn : xs.length ≤ n) :
    chain sep item n ([sep].intercalate (xs.map Prod.fst) ++ rest) = some (xs.map Prod.snd, rest) := by
  induction xs generalizing n with
  | nil => exact absurd rfl hne
  | cons x xs ih =>
    obtain ⟨n, rfl⟩ : ∃ m, n = m + 1 := ⟨n - 1, by simp at hn; omega⟩
    cases xs with
    | nil =>
      rw [map_cons, map_nil, intercalate_singleton, chain, hitem x (by simp) rest hrest]
      cases rest with
      | nil => rfl
      | cons t rest =>
        have ht : t ≠ sep := by simpa using hhead
        simp [ht]
    | cons y ys =>
      have htail := ih (by simp) (fun x hx => hitem x (mem_cons_of_mem _ hx)) (n := n) (by simpa using hn)
      rw [map_cons] at htail
      rw [map_cons, map_cons, intercalate_cons_cons, append_assoc, append_assoc,
        singleton_append, chain, hitem x (by simp) _ (hsep _)]
      simp only [if_true]
      rw [htail]
      rfl

variable (g) in
/-- What may follow a condition. -/
def Ends (rest : List τ) : Prop := rest = [] ∨ ∃ t ∈ [g.conj, g.disj, g.closing], rest.head? = some t

variable (g) in
/-- Before whatever may follow, tokens are read as a condition AND binds no tighter than. -/
def Reads (ts : List τ) (t : Tree L H) : Prop :=
  ∀ n, ts.length ≤ n → ∀ rest, Ends g rest → negated g (primary g (condition g n)) (ts ++ rest) = some (t, rest)

omit [DecidableEq τ] in
lemma head_ne_of_closes {rest : List τ} (h : rest = [] ∨ rest.head? = some g.closing) :
    rest.head? ≠ some g.conj ∧ rest.head? ≠ some g.disj := by
  rcases h with rfl | h
  · simp
  · rw [h]
    simp [g.conj_ne_closing.symm, g.disj_ne_closing.symm]

lemma conjunction_intercalate {n : Nat} (xs : List (List τ × Tree L H)) (hne : xs ≠ []) (h : ∀ x ∈ xs, Reads g x.1 x.2)
    (hn : ([g.conj].intercalate (xs.map Prod.fst)).length ≤ n) {rest : List τ} (hrest : Ends g rest)
    (hhead : rest.head? ≠ some g.conj) :
    conjunction g (negated g (primary g (condition g n))) ([g.conj].intercalate (xs.map Prod.fst) ++ rest) =
      some (.group .and (xs.map Prod.snd), rest) := by
  rw [conjunction, chain_intercalate (Ends g) ?_ hne ?_ hrest hhead ?_]
  · rfl
  · intro rest
    exact .inr ⟨g.conj, by simp, rfl⟩
  · intro x hx
    exact h x hx n (Nat.le_trans (length_le_intercalate g.conj (mem_map_of_mem hx)) hn)
  · have hlen := length_le_length_intercalate g.conj (xs.map Prod.fst)
    rw [length_map] at hlen
    rw [length_append]
    omega

lemma condition_conj {n : Nat} (xs : List (List τ × Tree L H)) (hne : xs ≠ []) (h : ∀ x ∈ xs, Reads g x.1 x.2)
    (hn : ([g.conj].intercalate (xs.map Prod.fst)).length ≤ n) {rest : List τ}
    (hrest : rest = [] ∨ rest.head? = some g.closing) :
    condition g (n + 1) ([g.conj].intercalate (xs.map Prod.fst) ++ rest) = some (.group .and (xs.map Prod.snd), rest) := by
  have hhead := head_ne_of_closes hrest
  have hends : Ends g rest := hrest.imp id fun h => ⟨g.closing, by simp, h⟩
  have hitem := conjunction_intercalate xs hne h hn hends hhead.1
  rw [condition, disjunction, chain, hitem]
  cases rest with
  | nil => rfl
  | cons t rest =>
    have ht : t ≠ g.disj := by simpa using hhead.2
    simp [ht, Tree.group]

lemma condition_disj {n : Nat} {xs : List (List τ × Tree L H)} (hne : xs ≠ []) (h : ∀ x ∈ xs, Reads g x.1 x.2)
    (hn : ([g.disj].intercalate (xs.map Prod.fst)).length ≤ n) {rest : List τ}
    (hrest : rest = [] ∨ rest.head? = some g.closing) :
    condition g (n + 1) ([g.disj].intercalate (xs.map Prod.fst) ++ rest) = some (.group .or (xs.map Prod.snd), rest) := by
  have hhead := head_ne_of_closes hrest
  rw [condition, disjunction,
    chain_intercalate (fun rest => Ends g rest ∧ rest.head? ≠ some g.conj) ?_ hne ?_ ⟨?_, hhead.1⟩ hhead.2 ?_]
  · rfl
  · intro rest
    exact ⟨.inr ⟨g.disj, by simp, rfl⟩, by simpa using g.conj_ne_disj.symm⟩
  · intro x hx rest hrest
    have hlen := Nat.le_trans (length_le_intercalate g.disj (mem_map_of_mem hx)) hn
    have hone := conjunction_intercalate (n := n) [x] (by simp) (by simpa using h x hx) (by simpa using hlen)
      hrest.1 hrest.2
    simpa [Tree.group] using hone
  · exact hrest.imp id fun h => ⟨g.closing, by simp, h⟩
  · have hlen := length_le_length_intercalate g.disj (xs.map Prod.fst)
    rw [length_map] at hlen
    rw [length_append]
    omega

lemma Reads.not {ts : List τ} {t : Tree L H} (h : Reads g ts t) : Reads g (g.neg :: ts) (.not t) := by
  intro n hn rest hrest
  rw [cons_append, negated, if_pos rfl, h n (by simp at hn; omega) rest hrest]
  rfl

lemma Reads.leaf {t : τ} {ts : List τ} {l : L} (hneg : t ≠ g.neg) (hopening : t ≠ g.opening)
    (hnest : ∀ rest, g.nest (t :: ts ++ rest) = none)
    (hleaf : ∀ rest, Ends g rest → g.leaf (t :: ts ++ rest) = some (l, rest)) : Reads g (t :: ts) (.leaf l) := by
  intro n _ rest hrest
  have hnest := hnest rest
  have hleaf := hleaf rest hrest
  rw [cons_append] at hnest hleaf ⊢
  rw [negated, if_neg hneg, primary, if_neg hopening, hnest, hleaf]
  rfl

lemma Reads.group {body : List τ} {t : Tree L H}
    (h : ∀ n, body.length ≤ n → ∀ rest, condition g (n + 1) (body ++ g.closing :: rest) = some (t, g.closing :: rest)) :
    Reads g (g.opening :: body ++ [g.closing]) t := by
  intro n hn rest _
  obtain ⟨m, rfl⟩ : ∃ m, n = m + 1 := ⟨n - 1, by simp at hn; omega⟩
  have hbody := h m (by simp at hn; omega) rest
  rw [append_assoc, cons_append, singleton_append, negated, if_neg g.opening_ne_neg, primary, if_pos rfl,
    closed, hbody]
  simp

lemma Reads.conj (xs : List (List τ × Tree L H)) (hne : xs ≠ []) (h : ∀ x ∈ xs, Reads g x.1 x.2) :
    Reads g (g.opening :: [g.conj].intercalate (xs.map Prod.fst) ++ [g.closing]) (.group .and (xs.map Prod.snd)) :=
  .group fun _ hn _ => condition_conj xs hne h hn (.inr rfl)

lemma Reads.disj (xs : List (List τ × Tree L H)) (hne : xs ≠ []) (h : ∀ x ∈ xs, Reads g x.1 x.2) :
    Reads g (g.opening :: [g.disj].intercalate (xs.map Prod.fst) ++ [g.closing]) (.group .or (xs.map Prod.snd)) :=
  .group fun _ hn _ => condition_disj hne h hn (.inr rfl)

lemma Reads.nest {t : τ} {ts : List τ} {o : H} (xs : List (List τ × Tree L H)) (hneg : t ≠ g.neg) (hopening : t ≠ g.opening)
    (hnest : ∀ rest, g.nest (t :: ts ++ rest) = some (o, rest)) (hne : xs ≠ []) (h : ∀ x ∈ xs, Reads g x.1 x.2) :
    Reads g (t :: ts ++ [g.conj].intercalate (xs.map Prod.fst) ++ [g.closing]) (.nest o (.group .and (xs.map Prod.snd))) := by
  intro n hn rest _
  obtain ⟨m, rfl⟩ : ∃ m, n = m + 1 := ⟨n - 1, by simp at hn; omega⟩
  have hbody : condition g (m + 1) ([g.conj].intercalate (xs.map Prod.fst) ++ (g.closing :: rest)) = _ :=
    condition_conj xs hne h (by simp at hn; omega) (.inr rfl)
  have hnest := hnest ([g.conj].intercalate (xs.map Prod.fst) ++ (g.closing :: rest))
  rw [append_assoc, append_assoc, singleton_append]
  rw [cons_append] at hnest ⊢
  rw [negated, if_neg hneg, primary, if_neg hopening, hnest]
  dsimp only
  rw [closed, hbody]
  simp

/-- What is read as a condition parses as it. -/
theorem Reads.parse_eq {ts : List τ} {t : Tree L H} (h : Reads g ts t) : parse g ts = some t := by
  have hread : condition g (ts.length + 1) ([g.conj].intercalate ([(ts, t)].map Prod.fst) ++ []) = _ :=
    condition_conj [(ts, t)] (by simp) (by simpa using h) (by simp) (.inl rfl)
  simp only [map_cons, map_nil, intercalate_singleton, append_nil] at hread
  rw [parse, hread]
  rfl

end Parser

end Precedence
