import Mathlib.Data.List.Forall2
import Mathlib.Tactic.Lemma

namespace Except
universe u v
variable {ε : Type u} {α β : Type v}

@[simp] lemma ok_bind (a : α) (f : α → Except ε β) : ((Except.ok a : Except ε α) >>= f) = f a := rfl

@[simp] lemma error_bind (e : ε) (f : α → Except ε β) : ((Except.error e : Except ε α) >>= f) = .error e :=
  rfl

@[simp] lemma pure_eq_ok (a : α) : (pure a : Except ε α) = .ok a := rfl

variable {x : Except ε α} {f : α → Except ε β}

lemma bind_eq_ok {b : β} :
    (x >>= f) = .ok b ↔ ∃ a, x = .ok a ∧ f a = .ok b := by
  cases x with
  | error e => simp
  | ok a => simp

def refuseIf (c : Prop) [Decidable c] (e : ε) : Except ε PUnit := if c then .error e else .ok ()

@[simp] lemma refuseIf_eq_ok {c : Prop} [Decidable c] {e : ε} {u : PUnit} :
    refuseIf c e = .ok u ↔ ¬ c := by
  unfold refuseIf
  split <;> simp [*]

variable {as : List α} {bs : List β}

lemma mapM_eq_ok :
    as.mapM f = .ok bs ↔ List.Forall₂ (fun a b => f a = .ok b) as bs := by
  induction as generalizing bs with
  | nil => cases bs <;> simp
  | cons a as ih =>
    rw [List.mapM_cons, bind_eq_ok]
    constructor
    · rintro ⟨b, hb, h⟩
      obtain ⟨rest, hrest, h⟩ := bind_eq_ok.mp h
      rw [pure_eq_ok, ok.injEq] at h
      subst h
      exact .cons hb (ih.mp hrest)
    · intro h
      cases h with
      | cons hb hrest => exact ⟨_, hb, bind_eq_ok.mpr ⟨_, ih.mpr hrest, rfl⟩⟩

lemma exists_of_mem_mapM (h : as.mapM f = .ok bs) {b : β} (hb : b ∈ bs) :
    ∃ a ∈ as, f a = .ok b := by
  have hall := mapM_eq_ok.mp h
  clear h
  induction hall with
  | nil => cases hb
  | @cons a b' as bs hab _ ih =>
    rcases List.mem_cons.mp hb with rfl | hb
    · exact ⟨a, by simp, hab⟩
    · obtain ⟨a', ha', hab'⟩ := ih hb
      exact ⟨a', List.mem_cons_of_mem _ ha', hab'⟩

lemma mapM_congr {g : α → Except ε β} (h : ∀ a ∈ as, f a = g a) : as.mapM f = as.mapM g := by
  induction as with
  | nil => rfl
  | cons a as ih =>
    rw [List.mapM_cons, List.mapM_cons, h a (by simp), ih fun b hb => h b (List.mem_cons_of_mem _ hb)]

lemma eq_map_of_mapM_eq_ok {g : α → β}
    (hfg : ∀ a ∈ as, ∀ b, f a = .ok b → b = g a) (h : as.mapM f = .ok bs) : bs = as.map g := by
  have hall := mapM_eq_ok.mp h
  clear h
  induction hall with
  | nil => rfl
  | cons hb _ ih =>
    rw [List.map_cons, hfg _ (by simp) _ hb, ih (fun a ha => hfg a (List.mem_cons_of_mem _ ha))]

/-- A computation gives a value, or fails for one of the reasons `P`. -/
inductive Gives (P : ε → Prop) (a : α) : Except ε α → Prop where
  | ok : Gives P a (.ok a)
  | error {e : ε} (h : P e) : Gives P a (.error e)

lemma Gives.bind {P : ε → Prop} {a : α} {b : β} (hx : Gives P a x)
    (hf : Gives P b (f a)) : Gives P b (x >>= f) := by
  cases hx with
  | ok => exact hf
  | error h => exact .error h

lemma Gives.foldlM {P : ε → Prop} {γ : Type v} {f : β → γ → Except ε β} {g : β → γ → β} {cs : List γ}
    (h : ∀ b, ∀ c ∈ cs, Gives P (g b c) (f b c)) (init : β) : Gives P (cs.foldl g init) (cs.foldlM f init) := by
  induction cs generalizing init with
  | nil => exact .ok
  | cons c cs ih =>
    rw [List.foldlM_cons]
    exact (h init c (by simp)).bind (ih (fun b d hd => h b d (List.mem_cons_of_mem _ hd)) _)

/-- Two computations fail with one error, or give related values. -/
inductive Both (R : α → β → Prop) : Except ε α → Except ε β → Prop where
  | ok {a : α} {b : β} (h : R a b) : Both R (.ok a) (.ok b)
  | error (e : ε) : Both R (.error e) (.error e)

variable {γ δ : Type v}

variable {R : α → β → Prop}

lemma Both.bind {S : γ → δ → Prop} {y : Except ε β} {f : α → Except ε γ}
    {g : β → Except ε δ} (h : Both R x y) (hfg : ∀ a b, R a b → Both S (f a) (g b)) :
    Both S (x >>= f) (y >>= g) := by
  cases h with
  | ok hab => exact hfg _ _ hab
  | error e => exact .error e

lemma Both.mono {S : α → β → Prop} {y : Except ε β} (h : Both R x y) (hRS : ∀ a b, R a b → S a b) :
    Both S x y := by
  cases h with
  | ok hab => exact .ok (hRS _ _ hab)
  | error e => exact .error e

lemma Both.and_left {P : α → Prop} {y : Except ε β} (h : Both R x y)
    (hP : ∀ a, x = .ok a → P a) : Both (fun a b => R a b ∧ P a) x y := by
  cases h with
  | ok hab => exact .ok ⟨hab, hP _ rfl⟩
  | error e => exact .error e

lemma Both.refl {R : α → α → Prop} (hR : ∀ a, R a a) (x : Except ε α) : Both R x x := by
  cases x with
  | error e => exact .error e
  | ok a => exact .ok (hR a)

lemma Both.bind_left {S : γ → δ → Prop} (x : Except ε α) {f : α → Except ε γ} {g : α → Except ε δ}
    (hfg : ∀ a, Both S (f a) (g a)) : Both S (x >>= f) (x >>= g) := by
  refine (Both.refl (R := Eq) (fun _ => rfl) x).bind ?_
  rintro a _ rfl
  exact hfg a

lemma Both.eq {y : Except ε α} (h : Both Eq x y) : x = y := by
  cases h with
  | ok hab => rw [hab]
  | error e => rfl

lemma Both.mapM {S : γ → δ → Prop} {f : α → Except ε γ} {g : β → Except ε δ}
    (h : List.Forall₂ R as bs) (hfg : ∀ a b, R a b → Both S (f a) (g b)) :
    Both (List.Forall₂ S) (as.mapM f) (bs.mapM g) := by
  induction h with
  | nil => exact .ok .nil
  | cons hab _ ih =>
    rw [List.mapM_cons, List.mapM_cons]
    exact (hfg _ _ hab).bind fun c d hcd => ih.bind fun cs ds hcds => .ok (.cons hcd hcds)

/-- Where both computations succeed, they give related values. -/
def Agree (R : α → β → Prop) (x : Except ε α) (y : Except ε β) : Prop := ∀ a b, x = .ok a → y = .ok b → R a b

lemma Agree.ok {a : α} {b : β} (h : R a b) : Agree R (.ok a : Except ε α) (.ok b) := by
  rintro _ _ ⟨⟩ ⟨⟩
  exact h

lemma Agree.bind {S : γ → δ → Prop} {y : Except ε β} {f : α → Except ε γ} {g : β → Except ε δ} (h : Agree R x y)
    (hfg : ∀ a b, R a b → Agree S (f a) (g b)) : Agree S (x >>= f) (y >>= g) := by
  intro c d hc hd
  obtain ⟨a, ha, hc⟩ := bind_eq_ok.mp hc
  obtain ⟨b, hb, hd⟩ := bind_eq_ok.mp hd
  exact hfg a b (h a b ha hb) c d hc hd

lemma Agree.refl {R : α → α → Prop} (hR : ∀ a, R a a) (x : Except ε α) : Agree R x x := by
  rintro a _ ha hb
  cases ha.symm.trans hb
  exact hR a

lemma Agree.after {x : Except ε α} {y : Except ε β} {S : γ → δ → Prop} {f : α → Except ε γ} {g : β → Except ε δ}
    (hfg : ∀ a b, Agree S (f a) (g b)) : Agree S (x >>= f) (y >>= g) :=
  Agree.bind (R := fun _ _ => True) (fun _ _ _ _ => trivial) fun a b _ => hfg a b

end Except
