/-!
# Outcomes of a run

A run ends in a state, whether it succeeds or fails. `EStateM.Result.state` reads that state, and
the equations below say what the steps that look at the state or change it do. -/

namespace EStateM.Result

variable {ε σ τ α : Type}

/-- The state in which a run ends. -/
def state : EStateM.Result ε σ α → σ
  | .ok _ s => s
  | .error _ s => s

/-- The result of a run that succeeds. -/
def value? : EStateM.Result ε σ α → Option α
  | .ok a _ => some a
  | .error _ _ => none

/-- The same outcome, in another state. -/
def mapState (h : σ → τ) : EStateM.Result ε σ α → EStateM.Result ε τ α
  | .ok a s => .ok a (h s)
  | .error e s => .error e (h s)

/-- The run does not fail with an error in `E`. -/
def Avoids (E : ε → Prop) (r : EStateM.Result ε σ α) : Prop := ∀ e s, r = .error e s → ¬ E e

/-- Whether a run succeeds. -/
def isOk : EStateM.Result ε σ α → Bool
  | .ok _ _ => true
  | .error _ _ => false

@[simp] theorem state_ok (a : α) (s : σ) : (ok a s : EStateM.Result ε σ α).state = s := rfl

@[simp] theorem state_error (e : ε) (s : σ) : (error e s : EStateM.Result ε σ α).state = s := rfl

@[simp] theorem isOk_ok (a : α) (s : σ) : (ok a s : EStateM.Result ε σ α).isOk = true := rfl

@[simp] theorem isOk_error (e : ε) (s : σ) : (error e s : EStateM.Result ε σ α).isOk = false := rfl

theorem isOk_iff {r : EStateM.Result ε σ α} : r.isOk = true ↔ ∃ a s, r = .ok a s := by
  constructor
  · intro h
    cases r with
    | ok a s => exact ⟨a, s, rfl⟩
    | error e s => cases h
  · rintro ⟨a, s, rfl⟩
    rfl

theorem eq_ok_of_value? {r : EStateM.Result ε σ α} {a : α} (h : r.value? = some a) :
    r = .ok a r.state := by
  cases r with
  | ok b s =>
    cases h
    rfl
  | error e s => cases h

/-- A run has the result `a` if it passes a test that nothing else passes. -/
theorem eq_ok_of_any {r : EStateM.Result ε σ α} {a : α} {test : α → Bool}
    (htest : ∀ b, test b = true → a = b) (h : r.value?.any test = true) : r = .ok a r.state := by
  obtain ⟨b, hb, hpasses⟩ := (Option.any_eq_true _ _).mp h
  rw [htest b hpasses]
  exact eq_ok_of_value? hb

@[simp] theorem mapState_ok (h : σ → τ) (a : α) (s : σ) :
    (ok a s : EStateM.Result ε σ α).mapState h = .ok a (h s) := rfl

@[simp] theorem mapState_error (h : σ → τ) (e : ε) (s : σ) :
    (error e s : EStateM.Result ε σ α).mapState h = .error e (h s) := rfl

@[simp] theorem state_mapState (h : σ → τ) (r : EStateM.Result ε σ α) :
    (r.mapState h).state = h r.state := by
  cases r <;> rfl

@[simp] theorem isOk_mapState (h : σ → τ) (r : EStateM.Result ε σ α) :
    (r.mapState h).isOk = r.isOk := by
  cases r <;> rfl

@[simp] theorem avoids_ok (E : ε → Prop) (a : α) (s : σ) :
    (ok a s : EStateM.Result ε σ α).Avoids E :=
  fun _ _ h => by cases h

@[simp] theorem avoids_error_iff {E : ε → Prop} {e : ε} {s : σ} :
    (error e s : EStateM.Result ε σ α).Avoids E ↔ ¬ E e := by
  constructor
  · intro h
    exact h e s rfl
  · intro he e' s' h
    cases h
    exact he

instance (E : ε → Prop) [DecidablePred E] (r : EStateM.Result ε σ α) : Decidable (r.Avoids E) :=
  match r with
  | .ok a s => isTrue (avoids_ok E a s)
  | .error _ _ => decidable_of_iff _ avoids_error_iff.symm

@[simp] theorem avoids_mapState (E : ε → Prop) (h : σ → τ) (r : EStateM.Result ε σ α) :
    (r.mapState h).Avoids E ↔ r.Avoids E := by
  cases r with
  | ok a s => simp
  | error e s => simp

/-- The same outcome, in states that are related by `S`. -/
inductive Alike (S : σ → τ → Prop) : EStateM.Result ε σ α → EStateM.Result ε τ α → Prop
  | ok {a : α} {s : σ} {t : τ} : S s t → Alike S (.ok a s) (.ok a t)
  | error {e : ε} {s : σ} {t : τ} : S s t → Alike S (.error e s) (.error e t)

theorem Alike.state {S : σ → τ → Prop} {r : EStateM.Result ε σ α} {r' : EStateM.Result ε τ α}
    (h : Alike S r r') : S r.state r'.state := by
  cases h <;> assumption

theorem Alike.isOk_eq {S : σ → τ → Prop} {r : EStateM.Result ε σ α} {r' : EStateM.Result ε τ α}
    (h : Alike S r r') : r'.isOk = r.isOk := by
  cases h <;> rfl

theorem Alike.mapState {σ' τ' : Type} {S : σ → τ → Prop} {S' : σ' → τ' → Prop} {h : σ → σ'}
    {k : τ → τ'} {r : EStateM.Result ε σ α} {r' : EStateM.Result ε τ α} (halike : Alike S r r')
    (hS : ∀ s t, S s t → S' (h s) (k t)) :
    Alike S' (r.mapState h) (r'.mapState k) := by
  cases halike with
  | ok hs => exact .ok (hS _ _ hs)
  | error hs => exact .error (hS _ _ hs)

theorem Alike.eq_mapState {S : σ → τ → Prop} {h : σ → τ} {r : EStateM.Result ε σ α}
    {r' : EStateM.Result ε τ α} (halike : Alike S r r') (hS : ∀ s t, S s t → t = h s) :
    r' = r.mapState h := by
  cases halike with
  | ok hs => rw [hS _ _ hs, mapState_ok]
  | error hs => rw [hS _ _ hs, mapState_error]

end EStateM.Result

namespace ObjectLang

section

variable {ε σ α β : Type}

theorem bind_run (x : EStateM ε σ α) (k : α → EStateM ε σ β) (s : σ) :
    (x >>= k) s = match x s with
      | .ok a s => k a s
      | .error e s => .error e s := rfl

theorem bind_run_ok {x : EStateM ε σ α} {s s' : σ} {a : α} (h : x s = .ok a s')
    (k : α → EStateM ε σ β) : (x >>= k) s = k a s' := by
  rw [bind_run, h]

theorem bind_run_error {x : EStateM ε σ α} {s s' : σ} {e : ε} (h : x s = .error e s')
    (k : α → EStateM ε σ β) : (x >>= k) s = .error e s' := by
  rw [bind_run, h]

/-- A run of two parts succeeds if both do. -/
theorem bind_run_eq_ok_iff {x : EStateM ε σ α} {k : α → EStateM ε σ β} {s t : σ} {b : β} :
    (x >>= k) s = .ok b t ↔ ∃ a s', x s = .ok a s' ∧ k a s' = .ok b t := by
  rw [bind_run]
  constructor
  · intro h
    cases hx : x s with
    | ok a s' => exact ⟨a, s', rfl, by rw [hx] at h; exact h⟩
    | error e s' => rw [hx] at h; cases h
  · rintro ⟨a, s', hx, hk⟩
    rw [hx]
    exact hk

/-- A run of two parts fails if one of them does. -/
theorem bind_run_eq_error_iff {x : EStateM ε σ α} {k : α → EStateM ε σ β} {s t : σ} {e : ε} :
    (x >>= k) s = .error e t ↔ x s = .error e t ∨ ∃ a s', x s = .ok a s' ∧ k a s' = .error e t := by
  rw [bind_run]
  constructor
  · intro h
    cases hx : x s with
    | ok a s' =>
      rw [hx] at h
      exact .inr ⟨a, s', rfl, h⟩
    | error e' s' =>
      rw [hx] at h
      cases h
      exact .inl rfl
  · rintro (hx | ⟨a, s', hx, hk⟩)
    · rw [hx]
    · rw [hx]
      exact hk

/-- An error that a whole run avoids is avoided by its first part. -/
theorem avoids_of_bind {E : ε → Prop} {x : EStateM ε σ α} {k : α → EStateM ε σ β} {s : σ}
    (h : ((x >>= k) s).Avoids E) : (x s).Avoids E := by
  intro e s' hx
  exact h e s' (bind_run_error hx k)

/-- Two runs of two parts are alike if the first parts are, and the second parts after these. -/
theorem bind_run_alike {S : σ → σ → Prop} {x y : EStateM ε σ α} {k l : α → EStateM ε σ β}
    {s t : σ} (h : (x s).Alike S (y t))
    (hk : ∀ a s' t', x s = .ok a s' → S s' t' → (k a s').Alike S (l a t')) :
    ((x >>= k) s).Alike S ((y >>= l) t) := by
  rw [bind_run, bind_run]
  generalize hx : x s = r at h
  generalize y t = r' at h
  cases h with
  | ok hst => exact hk _ _ _ hx hst
  | error hst => exact .error hst

theorem pure_run (a : α) (s : σ) : (pure a : EStateM ε σ α) s = .ok a s := rfl

theorem pure_run_eq_ok_iff {a b : α} {s t : σ} :
    (pure a : EStateM ε σ α) s = .ok b t ↔ a = b ∧ s = t := by
  rw [pure_run]
  constructor
  · intro h
    cases h
    exact ⟨rfl, rfl⟩
  · rintro ⟨rfl, rfl⟩
    rfl

/-- The run does not fail with an error in `E`, and `Q` holds of what it ends with if it succeeds.
-/
def Ends (E : ε → Prop) (x : EStateM ε σ α) (s : σ) (Q : α → σ → Prop) : Prop :=
  match x s with
  | .ok a s' => Q a s'
  | .error e _ => ¬ E e

namespace Ends

variable {E : ε → Prop} {x : EStateM ε σ α} {k : α → EStateM ε σ β} {s : σ}
  {P Q : α → σ → Prop} {R : β → σ → Prop}

theorem of_ok {a : α} {s' : σ} (h : x s = .ok a s') (hQ : Q a s') : Ends E x s Q := by
  rw [Ends, h]
  exact hQ

theorem of_error {e : ε} {s' : σ} (h : x s = .error e s') (he : ¬ E e) : Ends E x s Q := by
  rw [Ends, h]
  exact he

theorem bind (hx : Ends E x s P) (hk : ∀ a s', P a s' → Ends E (k a) s' R) :
    Ends E (x >>= k) s R := by
  rw [Ends] at hx ⊢
  rw [bind_run]
  cases h : x s with
  | ok a s' =>
    rw [h] at hx
    exact hk a s' hx
  | error e s' =>
    rw [h] at hx
    exact hx

theorem mono (hx : Ends E x s P) (h : ∀ a s', x s = .ok a s' → P a s' → Q a s') :
    Ends E x s Q := by
  rw [Ends] at hx ⊢
  cases hr : x s with
  | ok a s' =>
    rw [hr] at hx
    exact h a s' hr hx
  | error e s' =>
    rw [hr] at hx
    exact hx

/-- What a run ends with if it succeeds. -/
theorem of_run {a : α} {s' : σ} (hx : Ends E x s Q) (h : x s = .ok a s') : Q a s' := by
  rw [Ends, h] at hx
  exact hx

theorem avoids (hx : Ends E x s P) : (x s).Avoids E := by
  intro e s' hr
  rw [Ends, hr] at hx
  exact hx

end Ends

theorem get_bind_run (k : σ → EStateM ε σ β) (s : σ) : (get >>= k) s = k s s := rfl

end

end ObjectLang
