import Mathlib.Data.List.Basic
import Mathlib.Logic.Relation

/-!
# Searches with a seen set

Two ways of visiting everything a graph reaches from a start, each key at most once: a queue, and
a recursive walk that shares what it has seen across branches.
-/

namespace Search

open List
universe u v w z
variable {α : Type u} {β : Type v} {κ : Type w} {ε : Type z} [DecidableEq κ]

def unseen (keys seen : List κ) : Nat := keys.countP (· ∉ seen)

variable {seen seen' : List κ}

lemma unseen_anti (keys : List κ) (h : seen ⊆ seen') : unseen keys seen' ≤ unseen keys seen := by
  apply countP_mono_left
  intro k _ hk
  simp only [decide_eq_true_eq] at hk ⊢
  exact fun hmem => hk (h hmem)

variable {keys : List κ}

lemma unseen_cons_lt {k : κ} (hk : k ∈ keys) (hnew : k ∉ seen) :
    unseen keys (k :: seen) < unseen keys seen := by
  induction keys with
  | nil => cases hk
  | cons x xs ih =>
    unfold unseen at ih ⊢
    rw [countP_cons, countP_cons]
    have hle : xs.countP (· ∉ k :: seen) ≤ xs.countP (· ∉ seen) := unseen_anti xs (subset_cons_self k seen)
    by_cases hx : x = k
    · subst hx
      rw [if_neg (by simp), if_pos (by simpa using hnew)]
      omega
    · have hmem : k ∈ xs := (mem_cons.mp hk).resolve_left (Ne.symm hx)
      have hlt := ih hmem
      have hsame : (x ∉ k :: seen) ↔ x ∉ seen := by simp [hx]
      rw [decide_eq_decide.mpr hsame]
      omega

lemma unseen_le_length (keys seen : List κ) : unseen keys seen ≤ keys.length := countP_le_length

variable {a : α} {fuel : Nat}

section Queue
variable (key : α → κ) (visit : α → Except ε (β × List α))

/-- Works off a queue: skips what was seen, else collects what the visit gives and queues what it
adds, until the queue is empty or a visit ends the search. -/
def worklist : Nat → List α → List κ → List β → Option (Except ε (List β))
  | 0, _, _, _ => none
  | fuel + 1, queue, seen, out =>
    match queue.dropWhile fun a => key a ∈ seen with
    | [] => some (.ok out)
    | a :: rest =>
      match visit a with
      | .error e => some (.error e)
      | .ok (b, next) => worklist fuel (rest ++ next) (key a :: seen) (out ++ [b])

def Adds (a b : α) : Prop := ∃ out next, visit a = .ok (out, next) ∧ b ∈ next

variable {key visit}

variable {queue : List α}

lemma mem_of_dropWhile_eq {rest : List α}
    (h : (queue.dropWhile fun a => key a ∈ seen) = a :: rest) :
    key a ∉ seen ∧ ∀ x ∈ queue, key x ∈ seen ∨ x = a ∨ x ∈ rest := by
  induction queue with
  | nil => cases h
  | cons q queue ih =>
    by_cases hq : key q ∈ seen
    · rw [dropWhile_cons_of_pos (by simpa using hq)] at h
      obtain ⟨hnew, hall⟩ := ih h
      refine ⟨hnew, fun x hx => ?_⟩
      rcases mem_cons.mp hx with rfl | hx
      · exact .inl hq
      · exact hall x hx
    · rw [dropWhile_cons_of_neg (by simpa using hq)] at h
      obtain ⟨rfl, rfl⟩ := cons.inj h
      exact ⟨hq, fun x hx => .inr (mem_cons.mp hx)⟩

lemma subset_of_dropWhile_eq {rest : List α}
    (h : (queue.dropWhile fun a => key a ∈ seen) = a :: rest) : a :: rest ⊆ queue :=
  h ▸ (dropWhile_sublist _).subset

lemma seen_of_dropWhile_eq_nil (h : (queue.dropWhile fun a => key a ∈ seen) = []) :
    ∀ x ∈ queue, key x ∈ seen := by
  induction queue with
  | nil => simp
  | cons q queue ih =>
    by_cases hq : key q ∈ seen
    · rw [dropWhile_cons_of_pos (by simpa using hq)] at h
      intro x hx
      rcases mem_cons.mp hx with rfl | hx
      · exact hq
      · exact ih h x hx
    · rw [dropWhile_cons_of_neg (by simpa using hq)] at h
      cases h

/-- A queue worked off has visited nodes and collected their results: all of the queue, and all a
visit added, was seen or is visited. -/
lemma worklist_ok {P : α → Prop} (hP : ∀ a b, P a → Adds visit a b → P b)
    {out res : List β} (hqueue : ∀ a ∈ queue, P a) (h : worklist key visit fuel queue seen out = some (.ok res)) :
    ∃ vs : List α, (∀ v ∈ vs, P v) ∧ (∀ a ∈ queue, key a ∈ seen ∨ key a ∈ vs.map key) ∧
      (∀ v ∈ vs, ∃ b next, visit v = .ok (b, next) ∧ b ∈ res ∧ ∀ x ∈ next, key x ∈ seen ∨ key x ∈ vs.map key) ∧
      (∀ b ∈ res, b ∈ out ∨ ∃ v ∈ vs, ∃ next, visit v = .ok (b, next)) ∧ out ⊆ res := by
  induction fuel generalizing queue seen out with
  | zero => cases h
  | succ fuel ih =>
    rw [worklist] at h
    split at h
    · rename_i hdrop
      cases h
      exact ⟨[], by simp, fun a ha => .inl (seen_of_dropWhile_eq_nil hdrop a ha), by simp, fun b hb => .inl hb,
        List.Subset.refl _⟩
    · rename_i a rest hdrop
      have hsub := subset_of_dropWhile_eq hdrop
      have ha : P a := hqueue a (hsub mem_cons_self)
      split at h
      · cases h
      · rename_i b next hvisit
        have hnext : ∀ x ∈ rest ++ next, P x := by
          intro x hx
          rcases mem_append.mp hx with hx | hx
          · exact hqueue x (hsub (mem_cons_of_mem _ hx))
          · exact hP a x ha ⟨b, next, hvisit, hx⟩
        obtain ⟨vs, hvs, hq, hclosed, hres, hout⟩ := ih hnext h
        -- what the rest of the run has seen before it starts includes `a`
        have hwiden : ∀ x, key x ∈ key a :: seen ∨ key x ∈ vs.map key → key x ∈ seen ∨ key x ∈ (a :: vs).map key := by
          intro x hx
          simp only [mem_cons, map_cons] at hx ⊢
          tauto
        refine ⟨a :: vs, ?_, ?_, ?_, ?_, fun x hx => hout (mem_append_left _ hx)⟩
        · intro v hv
          rcases mem_cons.mp hv with rfl | hv
          · exact ha
          · exact hvs v hv
        · intro x hx
          rcases (mem_of_dropWhile_eq hdrop).2 x hx with hx | rfl | hx
          · exact .inl hx
          · exact .inr (by simp)
          · exact hwiden x (hq x (mem_append_left _ hx))
        · intro v hv
          rcases mem_cons.mp hv with rfl | hv
          · exact ⟨b, next, hvisit, hout (by simp), fun x hx => hwiden x (hq x (mem_append_right _ hx))⟩
          · obtain ⟨b', next', hv', hb', hx'⟩ := hclosed v hv
            exact ⟨b', next', hv', hb', fun x hx => hwiden x (hx' x hx)⟩
        · intro x hx
          rcases hres x hx with hx | ⟨v, hv, next', hv'⟩
          · rcases mem_append.mp hx with hx | hx
            · exact .inl hx
            · rw [mem_singleton.mp hx]
              exact .inr ⟨a, by simp, next, hvisit⟩
          · exact .inr ⟨v, mem_cons_of_mem _ hv, next', hv'⟩

lemma worklist_error {P : α → Prop} (hP : ∀ a b, P a → Adds visit a b → P b)
    {out : List β} {e : ε} (hqueue : ∀ a ∈ queue, P a)
    (h : worklist key visit fuel queue seen out = some (.error e)) : ∃ a, P a ∧ visit a = .error e := by
  induction fuel generalizing queue seen out with
  | zero => cases h
  | succ fuel ih =>
    rw [worklist] at h
    split at h
    · cases h
    · rename_i a rest hdrop
      have hsub := subset_of_dropWhile_eq hdrop
      have ha : P a := hqueue a (hsub mem_cons_self)
      split at h
      · rename_i e' hvisit
        cases h
        exact ⟨a, ha, hvisit⟩
      · rename_i b next hvisit
        refine ih (fun x hx => ?_) h
        rcases mem_append.mp hx with hx | hx
        · exact hqueue x (hsub (mem_cons_of_mem _ hx))
        · exact hP a x ha ⟨b, next, hvisit, hx⟩

lemma worklist_isSome {P : α → Prop} (hP : ∀ a b, P a → Adds visit a b → P b)
    (huniverse : ∀ a, P a → key a ∈ keys) {out : List β}
    (hqueue : ∀ a ∈ queue, P a) (hfuel : unseen keys seen < fuel) :
    ∃ res, worklist key visit fuel queue seen out = some res := by
  induction fuel generalizing queue seen out with
  | zero => omega
  | succ fuel ih =>
    rw [worklist]
    split
    · exact ⟨_, rfl⟩
    · rename_i a rest hdrop
      have hsub := subset_of_dropWhile_eq hdrop
      have ha : P a := hqueue a (hsub mem_cons_self)
      split
      · exact ⟨_, rfl⟩
      · rename_i b next hvisit
        have hlt := unseen_cons_lt (huniverse a ha) (mem_of_dropWhile_eq hdrop).1
        apply ih
        · intro x hx
          rcases mem_append.mp hx with hx | hx
          · exact hqueue x (hsub (mem_cons_of_mem _ hx))
          · exact hP a x ha ⟨b, next, hvisit, hx⟩
        · omega

end Queue

section Walk
variable (key : α → κ) (stop : α → Bool) (next : α → List (Except ε α))

/-- Walks each of the nodes in turn, until one is refused. -/
def walkEach (walk : α → List κ → Option (Except ε (List κ))) :
    List (Except ε α) → List κ → Option (Except ε (List κ))
  | [], seen => some (.ok seen)
  | .error e :: _, _ => some (.error e)
  | .ok a :: rest, seen =>
    match walk a seen with
    | some (.ok seen) => walkEach walk rest seen
    | r => r

/-- Walks what a node leads to, marking it as seen first; a node to stop at or seen before
is left alone. -/
def walk : Nat → α → List κ → Option (Except ε (List κ))
  | 0, _, _ => none
  | fuel + 1, a, seen =>
    if stop a ∨ key a ∈ seen then some (.ok seen) else walkEach (walk fuel) (next a) (key a :: seen)

def Leads (a b : α) : Prop := stop a = false ∧ .ok b ∈ next a

/-- Everything `a` leads to was let through, and stops the walk or is seen. -/
def Expanded (seen : List κ) (a : α) : Prop := ∀ x ∈ next a, ∃ b, x = .ok b ∧ (stop b ∨ key b ∈ seen)

/-- What was seen before is seen after, and what is new is of nodes expanded after it. -/
structure Grown (P : α → Prop) (seen seen' : List κ) : Prop where
  kept : seen ⊆ seen'
  fresh : ∀ k ∈ seen', k ∈ seen ∨ ∃ a, P a ∧ stop a = false ∧ key a = k ∧ Expanded key stop next seen' a

variable {key stop next} {P : α → Prop}

omit [DecidableEq κ] in
lemma Expanded.mono (h : Expanded key stop next seen a) (hsub : seen ⊆ seen') :
    Expanded key stop next seen' a := by
  intro x hx
  obtain ⟨b, rfl, hb⟩ := h x hx
  exact ⟨b, rfl, hb.imp_right fun hmem => hsub hmem⟩

omit [DecidableEq κ] in
lemma Grown.refl (seen : List κ) : Grown key stop next P seen seen := ⟨List.Subset.refl _, fun _ hk => .inl hk⟩

omit [DecidableEq κ] in
lemma Grown.trans {s₁ s₂ s₃ : List κ} (h₁ : Grown key stop next P s₁ s₂) (h₂ : Grown key stop next P s₂ s₃) :
    Grown key stop next P s₁ s₃ := by
  refine ⟨List.Subset.trans h₁.kept h₂.kept, fun k hk => ?_⟩
  rcases h₂.fresh k hk with hk | hnew
  · rcases h₁.fresh k hk with hk | ⟨a, ha, hstop, hkey, hex⟩
    · exact .inl hk
    · exact .inr ⟨a, ha, hstop, hkey, hex.mono h₂.kept⟩
  · exact .inr hnew

omit [DecidableEq κ] in
lemma walkEach_ok {walk : α → List κ → Option (Except ε (List κ))}
    (hwalk : ∀ a seen seen', P a → walk a seen = some (.ok seen') →
      Grown key stop next P seen seen' ∧ (stop a ∨ key a ∈ seen'))
    {xs : List (Except ε α)} (hP : ∀ a, .ok a ∈ xs → P a)
    (h : walkEach walk xs seen = some (.ok seen')) :
    Grown key stop next P seen seen' ∧ ∀ x ∈ xs, ∃ b, x = .ok b ∧ (stop b ∨ key b ∈ seen') := by
  induction xs generalizing seen with
  | nil =>
    cases h
    exact ⟨.refl _, by simp⟩
  | cons x xs ih =>
    cases x with
    | error e => cases h
    | ok a =>
      rw [walkEach] at h
      split at h
      · rename_i mid hmid
        obtain ⟨hgrown, ha⟩ := hwalk a seen mid (hP a mem_cons_self) hmid
        obtain ⟨hrest, hall⟩ := ih (fun b hb => hP b (mem_cons_of_mem _ hb)) h
        refine ⟨hgrown.trans hrest, fun x hx => ?_⟩
        rcases mem_cons.mp hx with rfl | hx
        · exact ⟨a, rfl, ha.imp_right fun hmem => hrest.kept hmem⟩
        · exact hall x hx
      · rename_i hne
        exact absurd h (hne _)

lemma walk_ok (hP : ∀ a b, P a → Leads stop next a b → P b) (ha : P a)
    (h : walk key stop next fuel a seen = some (.ok seen')) :
    Grown key stop next P seen seen' ∧ (stop a ∨ key a ∈ seen') := by
  induction fuel generalizing a seen seen' with
  | zero => cases h
  | succ fuel ih =>
    rw [walk] at h
    split at h
    · rename_i hleft
      cases h
      exact ⟨.refl _, hleft⟩
    · rename_i hgo
      simp only [not_or, Bool.not_eq_true] at hgo
      obtain ⟨hgrown, hall⟩ := walkEach_ok (fun b s s' hb hw => ih hb hw) (fun b hb => hP a b ha ⟨hgo.1, hb⟩) h
      have hmem : key a ∈ seen' := hgrown.kept mem_cons_self
      refine ⟨⟨fun k hk => hgrown.kept (mem_cons_of_mem _ hk), fun k hk => ?_⟩, .inr hmem⟩
      rcases hgrown.fresh k hk with hk | hnew
      · rcases mem_cons.mp hk with rfl | hk
        · exact .inr ⟨a, ha, hgo.1, rfl, hall⟩
        · exact .inl hk
      · exact .inr hnew

/-- A walk that was not refused let through everything the chains from its start lead to,
if the nodes of one key lead to the same. -/
theorem walk_covers {start : α} (h : walk key stop next fuel start [] = some (.ok seen'))
    (hkey : ∀ a b, Relation.ReflTransGen (Leads stop next) start a → Relation.ReflTransGen (Leads stop next) start b →
      key a = key b → next a = next b)
    (ha : Relation.ReflTransGen (Leads stop next) start a) (hstop : stop a = false) :
    ∀ x ∈ next a, ∃ b, x = .ok b := by
  obtain ⟨hgrown, hstart⟩ := walk_ok (fun a b ha hab => ha.tail hab) Relation.ReflTransGen.refl h
  -- a node not stopped at whose key was seen is expanded, through the node seen under it
  have hexpanded : ∀ b, Relation.ReflTransGen (Leads stop next) start b → key b ∈ seen' →
      Expanded key stop next seen' b := by
    intro b hb hseen
    obtain ⟨c, hc, -, hcb, hex⟩ := (hgrown.fresh (key b) hseen).resolve_left (by simp)
    unfold Expanded
    rw [hkey b c hb hc hcb.symm]
    exact hex
  have hreached : stop a ∨ key a ∈ seen' := by
    induction ha with
    | refl => exact hstart
    | tail hb hbc ih =>
      obtain ⟨d, hd, hdone⟩ := hexpanded _ hb ((ih hbc.1).resolve_left (by simp [hbc.1])) _ hbc.2
      cases hd
      exact hdone
  intro x hx
  obtain ⟨b, hb, -⟩ := hexpanded a ha (hreached.resolve_left (by simp [hstop])) x hx
  exact ⟨b, hb⟩

lemma walkEach_isSome {walk : α → List κ → Option (Except ε (List κ))}
    (hwalk : ∀ a seen, P a → unseen keys seen < fuel →
      ∃ r, walk a seen = some r ∧ ∀ seen', r = .ok seen' → seen ⊆ seen')
    {xs : List (Except ε α)} (hP : ∀ a, .ok a ∈ xs → P a) (hfuel : unseen keys seen < fuel) :
    ∃ r, walkEach walk xs seen = some r ∧ ∀ seen', r = .ok seen' → seen ⊆ seen' := by
  induction xs generalizing seen with
  | nil => exact ⟨_, rfl, fun seen' h => by cases h; exact List.Subset.refl _⟩
  | cons x xs ih =>
    cases x with
    | error e => exact ⟨_, rfl, fun seen' h => by cases h⟩
    | ok a =>
      obtain ⟨r, hr, hsub⟩ := hwalk a seen (hP a mem_cons_self) hfuel
      cases r with
      | error e => exact ⟨.error e, by rw [walkEach, hr], fun seen' h => by cases h⟩
      | ok mid =>
        have hle := unseen_anti keys (hsub mid rfl)
        obtain ⟨r, hr', hsub'⟩ := ih (fun b hb => hP b (mem_cons_of_mem _ hb)) (show unseen keys mid < fuel by omega)
        refine ⟨r, by rw [walkEach, hr]; exact hr', fun seen' h => ?_⟩
        exact List.Subset.trans (hsub mid rfl) (hsub' seen' h)

lemma walk_isSome (hP : ∀ a b, P a → Leads stop next a b → P b)
    (huniverse : ∀ a, P a → key a ∈ keys) (ha : P a)
    (hfuel : unseen keys seen < fuel) :
    ∃ r, walk key stop next fuel a seen = some r ∧ ∀ seen', r = .ok seen' → seen ⊆ seen' := by
  induction fuel generalizing a seen with
  | zero => omega
  | succ fuel ih =>
    rw [walk]
    split
    · exact ⟨_, rfl, fun seen' h => by cases h; exact List.Subset.refl _⟩
    · rename_i hgo
      simp only [not_or, Bool.not_eq_true] at hgo
      have hlt := unseen_cons_lt (huniverse a ha) hgo.2
      have hnext : ∀ b, .ok b ∈ next a → P b := fun b hb => hP a b ha ⟨hgo.1, hb⟩
      obtain ⟨r, hr, hsub⟩ := walkEach_isSome (P := P) (fun b s hb hs => ih hb hs) hnext
        (show unseen keys (key a :: seen) < fuel by omega)
      exact ⟨r, hr, fun seen' h k hk => hsub seen' h (mem_cons_of_mem _ hk)⟩

end Walk

end Search
