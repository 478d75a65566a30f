import SqlMcpServer.Workspace.Merge

namespace SqlMcpServer.Workspaces

open List

/-- A step up to the key of an element. -/
def Step.shape : Step → Option String
  | .field k => some k
  | .element _ => none

def shape (path : Path) : List (Option String) := path.map Step.shape

def ofName (c : Char) : Bool := c ≠ '.' && c ≠ '['

/-- Property names without a pattern's own characters, the first of them not empty. -/
structure Plain (path : Path) : Prop where
  names : ∀ k, .field k ∈ path → ∀ c ∈ k.toList, ofName c = true
  first : path.head? ≠ some (.field "")

/-- What a step adds to a pattern that has something already. -/
def stepText : Step → List Char
  | .field k => '.' :: k.toList
  | .element _ => ['[', ']']

def stepsText (path : Path) : List Char := path.flatMap stepText

/-- What a step starts a pattern with. -/
def firstText : Step → List Char
  | .field k => k.toList
  | .element _ => ['[', ']']

lemma toList_patternStep (first : Bool) (step : Step) :
    (patternStep first step).toList = if first then firstText step else stepText step := by
  have hbrackets : "[]".toList = ['[', ']'] := by decide
  cases step with
  | field k => cases first <;> simp [patternStep, stepText, firstText, String.toList_append]
  | element k => cases first <;> exact hbrackets

lemma foldl_pattern {b : String} (hb : b ≠ "") (path : Path) :
    (path.foldl (fun b s => b ++ patternStep (b = "") s) b).toList = b.toList ++ stepsText path := by
  induction path generalizing b with
  | nil => simp [stepsText]
  | cons step path ih =>
    have hstep : b ++ patternStep false step ≠ "" := fun h => hb (String.append_eq_empty_iff.mp h).1
    rw [foldl_cons, decide_eq_false hb, ih hstep, String.toList_append, toList_patternStep, append_assoc]
    rfl

lemma firstText_ne_nil {step : Step} (h : step ≠ .field "") : firstText step ≠ [] := by
  cases step with
  | field k =>
    intro hnil
    exact h (by rw [String.toList_eq_nil_iff.mp hnil])
  | element k => exact cons_ne_nil _ _

lemma toList_pattern {step : Step} (path : Path) (h : step ≠ .field "") :
    (pattern (step :: path)).toList = firstText step ++ stepsText path := by
  have htext := toList_patternStep true step
  rw [if_pos rfl] at htext
  have hne : patternStep true step ≠ "" := by
    intro hempty
    rw [hempty] at htext
    exact firstText_ne_nil h htext.symm
  rw [pattern, foldl_cons, decide_eq_true rfl, String.empty_append, foldl_pattern hne, htext]

lemma takeWhile_name {k t : List Char} (hk : ∀ c ∈ k, ofName c = true) (ht : ∀ c ∈ t.head?, ofName c = false) :
    (k ++ t).takeWhile ofName = k := by
  rw [takeWhile_append_of_pos hk]
  cases t with
  | nil => simp
  | cons c t => simp [ht c rfl]

lemma name_inj {k k' t t' : List Char} (hk : ∀ c ∈ k, ofName c = true) (hk' : ∀ c ∈ k', ofName c = true)
    (ht : ∀ c ∈ t.head?, ofName c = false) (ht' : ∀ c ∈ t'.head?, ofName c = false) (h : k ++ t = k' ++ t') : k = k' ∧ t = t' := by
  have heq : k = k' := by rw [← takeWhile_name hk ht, h, takeWhile_name hk' ht']
  subst heq
  exact ⟨rfl, append_cancel_left h⟩

lemma head_stepsText (path : Path) : ∀ c ∈ (stepsText path).head?, ofName c = false := by
  cases path with
  | nil => simp [stepsText]
  | cons step path =>
    cases step <;> simp [stepsText, stepText, ofName]

lemma stepsText_inj {p q : Path} (hp : ∀ k, .field k ∈ p → ∀ c ∈ k.toList, ofName c = true)
    (hq : ∀ k, .field k ∈ q → ∀ c ∈ k.toList, ofName c = true) (h : stepsText p = stepsText q) : shape p = shape q := by
  induction p generalizing q with
  | nil =>
    cases q with
    | nil => rfl
    | cons step q => cases step <;> simp [stepsText, stepText] at h
  | cons step p ih =>
    cases q with
    | nil => cases step <;> simp [stepsText, stepText] at h
    | cons step' q =>
      have hrest := @ih q (fun k hk => hp k (mem_cons_of_mem _ hk)) fun k hk => hq k (mem_cons_of_mem _ hk)
      simp only [stepsText, flatMap_cons] at h hrest
      cases step with
      | field k =>
        cases step' with
        | field k' =>
          simp only [stepText, cons_append, List.cons.injEq, true_and] at h
          obtain ⟨hk, htail⟩ := name_inj (hp k (by simp)) (hq k' (by simp)) (head_stepsText p) (head_stepsText q) h
          have hshape : some k :: shape p = some k' :: shape q := by rw [hrest htail, String.toList_inj.mp hk]
          exact hshape
        | element k' => simp [stepText] at h
      | element k =>
        cases step' with
        | field k' => simp [stepText] at h
        | element k' =>
          have htail : List.flatMap stepText p = List.flatMap stepText q := by simpa [stepText] using h
          have hshape : none :: shape p = none :: shape q := by rw [hrest htail]
          exact hshape

lemma Plain.first_ne {step : Step} {path : Path} (h : Plain (step :: path)) : step ≠ .field "" := by
  intro heq
  exact h.first (by rw [heq]; rfl)

lemma Plain.pattern_ne_nil {step : Step} {path : Path} (h : Plain (step :: path)) : (pattern (step :: path)).toList ≠ [] := by
  rw [toList_pattern path h.first_ne]
  intro hnil
  exact firstText_ne_nil h.first_ne (append_eq_nil_iff.mp hnil).1

lemma Plain.pattern_field_ne {k k' : String} {p q : Path} (hp : Plain (.field k :: p)) (hq : Plain (.element k' :: q)) :
    (pattern (.field k :: p)).toList ≠ (pattern (.element k' :: q)).toList := by
  rw [toList_pattern p hp.first_ne, toList_pattern q hq.first_ne]
  have hname := hp.names k (by simp)
  have hne := firstText_ne_nil hp.first_ne
  simp only [firstText] at hne ⊢
  cases hk : k.toList with
  | nil => exact absurd hk hne
  | cons c cs =>
    intro h
    rw [cons_append, cons_append] at h
    have hc := hname c (by rw [hk]; simp)
    rw [(List.cons.inj h).1] at hc
    exact absurd hc (by decide)

lemma shape_of_pattern {p q : Path} (hp : Plain p) (hq : Plain q) (h : pattern p = pattern q) : shape p = shape q := by
  have htext : (pattern p).toList = (pattern q).toList := by rw [h]
  match p, q with
  | [], [] => rfl
  | [], step :: q => exact absurd htext.symm hq.pattern_ne_nil
  | step :: p, [] => exact absurd htext hp.pattern_ne_nil
  | .field k :: p, .field k' :: q =>
    rw [toList_pattern p hp.first_ne, toList_pattern q hq.first_ne] at htext
    exact stepsText_inj hp.names hq.names (congrArg ('.' :: ·) htext)
  | .element k :: p, .element k' :: q =>
    rw [toList_pattern p hp.first_ne, toList_pattern q hq.first_ne] at htext
    exact stepsText_inj hp.names hq.names htext
  | .field k :: p, .element k' :: q => exact absurd htext (hp.pattern_field_ne hq)
  | .element k :: p, .field k' :: q => exact absurd htext.symm (hq.pattern_field_ne hp)

/-- A rule written for one path, a key of a list or an unset value, is the one looked up at
another, by the text of the pattern. -/
def Schema.Applies (s : Schema) (p q : Path) : Prop :=
  (s.lists (pattern p) ≠ none ∨ s.unset (pattern p) = true) ∧ pattern p = pattern q

lemma plain_of_shape {p q : Path} (hp : Plain p) (h : shape p = shape q) : Plain q := by
  have hfield : ∀ k, .field k ∈ q → .field k ∈ p := by
    intro k hk
    have hmem : some k ∈ shape p := by
      rw [h]
      exact mem_map_of_mem hk
    obtain ⟨step, hstep, heq⟩ := mem_map.mp hmem
    cases step with
    | field k' =>
      cases heq
      exact hstep
    | element k' => cases heq
  refine ⟨fun k hk => hp.names k (hfield k hk), fun hfirst => hp.first ?_⟩
  have hhead : (shape p).head? = some (some "") := by
    rw [h, shape, head?_map, hfirst]
    rfl
  rw [shape, head?_map] at hhead
  obtain ⟨step, hstep, heq⟩ := Option.map_eq_some_iff.mp hhead
  cases step with
  | field k =>
    cases heq
    exact hstep
  | element k => cases heq

end SqlMcpServer.Workspaces
