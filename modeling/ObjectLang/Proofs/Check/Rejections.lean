import ObjectLang.Check.Operator

/-!
# Rejections for types

Operands and values are rejected for the types that they have, and what is reported is about these
types. In particular a mismatch is reported of two types that differ: a type always fits itself.
-/

namespace ObjectLang

/-- The error reports that a type does not fit itself. -/
def CheckError.MismatchesItself : CheckError → Prop
  | .typeMismatch expected found => expected = found
  | _ => False

namespace Ty

variable {found expected left right : Ty} {e : CheckError}

theorem requireSubtype_eq_error (h : found.requireSubtype expected = .error e) :
    e = .typeMismatch expected found ∧ expected ≠ found := by
  unfold requireSubtype at h
  split at h
  · cases h
  · next hsub =>
    cases h
    refine ⟨rfl, ?_⟩
    rintro rfl
    simp [subtypeOf] at hsub

theorem requireSame_eq_error (h : left.requireSame right = .error e) :
    e = .typeMismatch left right ∧ left ≠ right := by
  unfold requireSame at h
  split at h
  · cases h
  · next hne =>
    cases h
    exact ⟨rfl, fun heq => hne heq.symm⟩

end Ty

namespace Operator

variable {op : Operator} {left right : Ty} {e : CheckError}

/-- A sequence of two tests fails with the failure of one of them. -/
theorem error_of_bind {α β : Type} {x : Except CheckError α} {k : α → Except CheckError β}
    (h : (x >>= k) = .error e) : x = .error e ∨ ∃ a, k a = .error e := by
  cases x with
  | ok a => exact .inr ⟨a, h⟩
  | error e' =>
    cases h
    exact .inl rfl

/-- Operands are rejected as a pair, because their types differ, or because one of them does not fit
what the operator wants of it. -/
inductive Rejects (op : Operator) (left right : Ty) : CheckError → Prop where
  | operands : Rejects op left right (.invalidOperands op left right)
  | different : left ≠ right → Rejects op left right (.typeMismatch left right)
  | unfit {found expected : Ty} : found ∈ [left, right] →
      expected ∈ [Ty.comparable, Ty.equatable, Ty.boolean] → expected ≠ found →
      Rejects op left right (.typeMismatch expected found)

theorem rejects_of_requireSame (h : left.requireSame right = .error e) :
    Rejects op left right e := by
  obtain ⟨rfl, hne⟩ := Ty.requireSame_eq_error h
  exact .different hne

theorem rejects_of_requireSubtype {found expected : Ty} (hfound : found ∈ [left, right])
    (hexpected : expected ∈ [Ty.comparable, Ty.equatable, Ty.boolean])
    (h : found.requireSubtype expected = .error e) : Rejects op left right e := by
  obtain ⟨rfl, hne⟩ := Ty.requireSubtype_eq_error h
  exact .unfit hfound hexpected hne

theorem rejects_of_arithmeticTy (h : op.arithmeticTy left right = .error e) :
    Rejects op left right e := by
  unfold arithmeticTy at h
  split at h
  · rcases error_of_bind h with h | ⟨_, h⟩
    · exact rejects_of_requireSame h
    · cases h
  · cases h
    exact .operands

theorem rejects_of_resultTy (h : op.resultTy left right = .error e) :
    Rejects op left right e := by
  have hleft : left ∈ [left, right] := List.mem_cons_self
  have hright : right ∈ [left, right] := List.mem_cons_of_mem _ List.mem_cons_self
  cases op with
  | add =>
    simp only [resultTy] at h
    split at h
    · cases h
    · exact rejects_of_arithmeticTy h
  | sub | mul | div => exact rejects_of_arithmeticTy h
  | less | lessEq | greater | greaterEq =>
    rcases error_of_bind h with h | ⟨_, h⟩
    · exact rejects_of_requireSubtype hleft (by simp) h
    · rcases error_of_bind h with h | ⟨_, h⟩
      · exact rejects_of_requireSame h
      · cases h
  | eq | notEq | and | or =>
    rcases error_of_bind h with h | ⟨_, h⟩
    · exact rejects_of_requireSubtype hleft (by simp) h
    · rcases error_of_bind h with h | ⟨_, h⟩
      · exact rejects_of_requireSubtype hright (by simp) h
      · cases h

theorem Rejects.not_mismatchesItself (h : Rejects op left right e) : ¬ e.MismatchesItself := by
  cases h with
  | operands => exact id
  | different hne => exact hne
  | unfit _ _ hne => exact hne

end Operator

theorem Ty.not_mismatchesItself_of_requireSubtype {found expected : Ty} {e : CheckError}
    (h : found.requireSubtype expected = .error e) : ¬ e.MismatchesItself := by
  obtain ⟨rfl, hne⟩ := requireSubtype_eq_error h
  exact hne

end ObjectLang
