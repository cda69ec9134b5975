import ObjectLang.Proofs.Agreement
import ObjectLang.Proofs.TypeSystem.Steps
import ObjectLang.Proofs.Value.Admission

/-!
# Values where results may be missing

A call gives the empty value if the function falls off its end, whatever it declares to return. From
then on the empty value may be anywhere. `Value.Meets` says that a value is of its type, or is such
a missing result.

A missing operand does not spoil the result of an operation: it makes the operation fail, or the
result does not depend on it. So accepted operations, and the functions of the host, give values
that meet the type of their result even if their operands and arguments are missing.
-/

namespace ObjectLang

/-- The value is of a kind that the type admits, and what can be iterated over is a list of whole
numbers. If there are `missing` results, the empty value may stand for any value. -/
def Value.Meets (missing : Prop) (v : Value) (ty : Ty) : Prop :=
  (ty.admits v.kind = true ∧ (ty = .iterable → v.Conforms .iterable)) ∨ missing ∧ v = .nil

namespace Value.Meets

variable {missing missing' : Prop} {v : Value} {ty target : Ty}

theorem any (missing : Prop) (v : Value) : v.Meets missing .any := .inl ⟨rfl, nofun⟩

theorem of_admits (h : ty.admits v.kind = true) (hty : ty ≠ .iterable) : v.Meets missing ty :=
  .inl ⟨h, fun heq => absurd heq hty⟩

theorem mono (h : v.Meets missing ty) (hmissing : missing → missing') : v.Meets missing' ty := by
  rcases h with h | ⟨hm, hv⟩
  · exact .inl h
  · exact .inr ⟨hmissing hm, hv⟩

theorem literal (missing : Prop) (value : Literal) : value.value.Meets missing value.ty := by
  cases value <;> exact .of_admits rfl nofun

/-- What meets a type meets those above it. -/
theorem below (h : v.Meets missing ty) (hbelow : ty.Below target) : v.Meets missing target := by
  rcases h with ⟨hkind, hitems⟩ | hnil
  · have hadmits := Ty.admits_of_subtypeOf hkind (Ty.subtypeOf_iff_below.mpr hbelow)
    refine .inl ⟨hadmits, fun htarget => ?_⟩
    cases hbelow with
    | refl => exact hitems htarget
    | _ => cases htarget
  · exact .inr hnil

theorem kind_or_nil (h : v.Meets missing ty) : ty.admits v.kind = true ∨ missing ∧ v = .nil :=
  h.imp_left And.left

/-- One iterates over whole numbers. -/
theorem integer_of_mem {items : List Value} (h : (Value.list items).Meets missing .iterable)
    {item : Value} (hitem : item ∈ items) : ∃ n, item = .integer n := by
  rcases h with ⟨-, hitems⟩ | ⟨-, hnil⟩
  · obtain ⟨numbers, heq⟩ := hitems rfl
    cases heq
    obtain ⟨n, -, rfl⟩ := List.mem_map.mp hitem
    exact ⟨n, rfl⟩
  · cases hnil

end Value.Meets

/-! ## Operators -/

namespace Operator

variable {missing : Prop} {op : Operator} {left right ty : Ty} {a b v : Value}
  {print : Value → String}

/-- The result of arithmetic is of the kind of both operands. -/
theorem kinds_of_arithmetic (h : op.arithmetic a b = .ok v) :
    v.kind = a.kind ∧ v.kind = b.kind ∧ (v.kind = .integer ∨ v.kind = .decimal) := by
  unfold arithmetic at h
  split at h
  case h_4 | h_8 =>
    split at h
    · cases h
    · cases h
      exact ⟨rfl, rfl, by simp [Value.kind]⟩
  case h_9 => cases h
  all_goals
    cases h
    exact ⟨rfl, rfl, by simp [Value.kind]⟩

/-- If one of the operands is a text or missing, an addition gives a text. -/
theorem kind_of_addition (h : addition print a b = .ok v)
    (hkind : a.kind = .string ∨ a = .nil ∨ b.kind = .string ∨ b = .nil) : v.kind = .string := by
  unfold addition at h
  split at h
  · cases h
    rfl
  · next hno =>
    obtain ⟨ha, hb, hv⟩ := kinds_of_arithmetic h
    rw [not_or] at hno
    rcases hkind with hkind | rfl | hkind | rfl
    · exact absurd hkind hno.1
    · rw [ha] at hv
      rcases hv with hv | hv <;> cases hv
    · exact absurd hkind hno.2
    · rw [hb] at hv
      rcases hv with hv | hv <;> cases hv

theorem kind_of_ordering {test : Ordering → Bool} (h : op.ordering test a b = .ok v) :
    v.kind = .boolean := by
  unfold ordering at h
  split at h
  · cases h
    rfl
  · cases h

/-- Arithmetic on two numbers of a type gives a number of the type, since it fails if an operand is
missing. -/
theorem Types.kind_of_arithmetic (hop : op ∈ [add, sub, mul, div])
    (hty : ty ∈ [Ty.integer, .decimal]) (ha : a.Meets missing ty) (hb : b.Meets missing ty)
    (hv : op.apply print a b = .ok v) : ty.admits v.kind = true := by
  have hnumber {c : Value} (hc : c.Meets missing ty) :
      ty.admits c.kind = true ∧ c.kind ≠ .string ∨ c = .nil := by
    rcases hc.kind_or_nil with hkind | ⟨-, rfl⟩
    · refine .inl ⟨hkind, fun hstring => ?_⟩
      rw [hstring] at hkind
      simp only [List.mem_cons, List.not_mem_nil, or_false] at hty
      rcases hty with rfl | rfl <;> cases hkind
    · exact .inr rfl
  have hnostring {c : Value} (hc : c.Meets missing ty) : c.kind ≠ .string := by
    rcases hnumber hc with ⟨-, h⟩ | rfl
    · exact h
    · decide
  have harithmetic : op.arithmetic a b = .ok v := by
    simp only [List.mem_cons, List.not_mem_nil, or_false] at hop
    rcases hop with rfl | rfl | rfl | rfl
    · change addition print a b = .ok v at hv
      rwa [addition, if_neg (not_or.mpr ⟨hnostring ha, hnostring hb⟩)] at hv
    all_goals exact hv
  obtain ⟨hkind, -, hnumeric⟩ := kinds_of_arithmetic harithmetic
  rcases hnumber ha with ⟨h, -⟩ | rfl
  · rwa [hkind]
  · rw [hkind] at hnumeric
    rcases hnumeric with h | h <;> cases h

/-- What an accepted operation gives meets its type, even if operands are missing. -/
theorem Types.meets_apply (h : op.Types left right ty) (ha : a.Meets missing left)
    (hb : b.Meets missing right) (hv : op.apply print a b = .ok v) : v.Meets missing ty := by
  have hstring (hkind : v.kind = .string) : v.Meets missing .string :=
    .of_admits (decide_eq_true hkind) nofun
  have hboolean (hkind : v.kind = .boolean) : v.Meets missing .boolean :=
    .of_admits (decide_eq_true hkind) nofun
  cases h with
  | joinRight =>
    refine hstring (kind_of_addition hv ?_)
    rcases ha.kind_or_nil with h | ⟨-, h⟩
    · exact .inl (of_decide_eq_true h)
    · exact .inr (.inl h)
  | joinLeft =>
    refine hstring (kind_of_addition hv (.inr (.inr ?_)))
    rcases hb.kind_or_nil with h | ⟨-, h⟩
    · exact .inl (of_decide_eq_true h)
    · exact .inr h
  | arithmetic hop hty =>
    refine .of_admits (kind_of_arithmetic hop hty ha hb hv) ?_
    rintro rfl
    simp at hty
  | ordering hop _ =>
    simp only [List.mem_cons, List.not_mem_nil, or_false] at hop
    rcases hop with rfl | rfl | rfl | rfl <;> exact hboolean (kind_of_ordering hv)
  | equality hop _ _ =>
    simp only [List.mem_cons, List.not_mem_nil, or_false] at hop
    rcases hop with rfl | rfl <;>
    · cases hv
      exact hboolean rfl
  | logic hop =>
    simp only [List.mem_cons, List.not_mem_nil, or_false] at hop
    rcases hop with rfl | rfl <;>
    · obtain ⟨_, -, hresult⟩ := except_bind_eq_ok hv
      cases hresult
      exact hboolean rfl

/-- What the left operand decides meets the type of the operation. -/
theorem Types.meets_decidedBy (h : op.Types left right ty) (hv : op.decidedBy a = .ok (some v)) :
    v.Meets missing ty := by
  refine .of_admits (admits_of_decidedBy (resultTy_eq_ok_iff.mpr h) hv) ?_
  rintro rfl
  cases h with
  | arithmetic _ hty => simp at hty

end Operator

/-! ## Functions of the host -/

namespace Eval

variable {name : String} {v : Value} {w w' : World}

theorem oneArgument_eq_ok {arguments : List Value} (h : oneArgument name arguments w = .ok v w') :
    w' = w := by
  unfold oneArgument at h
  split at h <;> cases h
  rfl

/-- What a function of the host gives meets the type that the checker knows. -/
theorem host_eq_ok (missing : Prop) {f : HostFunction} {params : List Ty} {returns : Ty}
    (hf : f.ty? = some (.function params returns)) {arguments : List Value}
    (h : host name f arguments w = .ok v w') : w.Same w' ∧ v.Meets missing returns := by
  cases f with
  | log =>
    cases hf
    obtain ⟨u, w₁, hargument, hrest⟩ := bind_run_eq_ok_iff.mp h
    obtain rfl := oneArgument_eq_ok hargument
    cases hrest
    exact ⟨⟨rfl, rfl⟩, .any _ _⟩
  | print =>
    cases hf
    obtain ⟨u, w₁, hargument, hrest⟩ := bind_run_eq_ok_iff.mp h
    obtain rfl := oneArgument_eq_ok hargument
    cases hrest
    exact ⟨⟨rfl, rfl⟩, .of_admits rfl nofun⟩
  | range =>
    cases hf
    unfold host at h
    dsimp only at h
    split at h <;> cases h
    exact ⟨.refl w, .inl ⟨rfl, fun _ => ⟨_, rfl⟩⟩⟩
  | _ => cases hf

end Eval

end ObjectLang
