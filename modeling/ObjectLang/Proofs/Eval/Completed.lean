import ObjectLang.Proofs.Eval.Growth

/-!
# Completed steps

What is known of the world, and of the value, when a step of a run has not failed. -/

namespace ObjectLang.Eval

variable {f : FrameId} {name : String} {v : Value} {u : Unit} {w w' : World}

theorem tick_eq_ok {m : MeterId} (h : tick m w = .ok u w') : w'.store = w.store := by
  rw [tick_run] at h
  dsimp only at h
  split at h
  · cases h
  · cases h
    rfl

theorem lookup_eq_ok (h : lookup f name w = .ok v w') :
    w.store.lookup f name = some v ∧ w' = w := by
  unfold lookup at h
  rw [get_bind_run] at h
  cases hv : w.store.lookup f name with
  | none =>
    rw [hv] at h
    cases h
  | some v' =>
    rw [hv] at h
    cases h
    exact ⟨rfl, rfl⟩

theorem result_eq_ok {α : Type} {r : Except EvalError α} {a : α} (h : result r w = .ok a w') :
    r = .ok a ∧ w' = w := by
  cases r with
  | ok b =>
    cases h
    exact ⟨rfl, rfl⟩
  | error e => cases h

theorem requireFree_eq_ok (h : requireFree f name w = .ok u w') :
    name ∉ w.store.names f ∧ w' = w := by
  cases hd : w.store.defines f name with
  | true =>
    rw [requireFree_of_defines hd] at h
    cases h
  | false =>
    rw [requireFree_of_free hd] at h
    cases h
    exact ⟨(w.store.defines_eq_false_iff f name).mp hd, rfl⟩

theorem define_eq_ok (h : define f name v w = .ok u w') :
    name ∉ w.store.names f ∧ w' = { w with store := w.store.append f name v } := by
  obtain ⟨_, w₁, hfree, happend⟩ := bind_run_eq_ok_iff.mp h
  obtain ⟨hname, rfl⟩ := requireFree_eq_ok hfree
  cases happend
  exact ⟨hname, rfl⟩

theorem newClosure_eq_ok {c : Context} {d : Definition} {captured : FrameId} {isMethod : Bool}
    {id : FunctionId} (h : newClosure c d captured isMethod w = .ok id w') :
    id = w.functions.size ∧ w' = w.withFunction (d.function captured c.meter isMethod) := by
  cases hrepeated : firstRepeated? [] (d.parameters.map (·.name)) with
  | some name =>
    rw [newClosure_of_repeated w hrepeated] at h
    cases h
  | none =>
    rw [newClosure_of_distinct w hrepeated] at h
    cases h
    exact ⟨rfl, rfl⟩

theorem membersOf_eq_ok {members : FrameId} (h : membersOf v w = .ok members w') :
    (∃ label, v = .object label members) ∧ w' = w := by
  cases v with
  | object label members' =>
    cases h
    exact ⟨⟨label, rfl⟩, rfl⟩
  | _ => cases h

theorem callable_eq_ok {id : FunctionId} (h : callable name v w = .ok id w') :
    v = .function id ∧ w' = w := by
  cases v with
  | function id' =>
    cases h
    exact ⟨rfl, rfl⟩
  | _ => cases h

theorem itemsOf_eq_ok {items : List Value} (h : itemsOf v w = .ok items w') :
    v = .list items ∧ w' = w := by
  cases v with
  | list items' =>
    cases h
    exact ⟨rfl, rfl⟩
  | _ => cases h

theorem member_eq_ok {members : FrameId} (h : member members name w = .ok v w') :
    w.store.own? members name = some v ∧ w' = w := by
  unfold member at h
  rw [get_bind_run] at h
  cases hv : w.store.own? members name with
  | none =>
    rw [hv] at h
    cases h
  | some v' =>
    rw [hv] at h
    cases h
    exact ⟨rfl, rfl⟩

theorem set_eq_ok {found : Bool} (h : set f name v w = .ok found w') :
    w' = w ∨ ∃ g, w.store.owner? f name = some g ∧
      w' = { w with store := w.store.replace g name v } := by
  unfold set at h
  rw [get_bind_run] at h
  cases hg : w.store.owner? f name with
  | none =>
    rw [hg] at h
    cases h
    exact .inl rfl
  | some g =>
    rw [hg] at h
    cases h
    exact .inr ⟨g, rfl, rfl⟩

theorem setOwn_eq_ok {found : Bool} (h : setOwn f name v w = .ok found w') :
    w' = w ∨ w' = { w with store := w.store.replace f name v } := by
  unfold setOwn at h
  rw [get_bind_run] at h
  split at h <;> cases h
  · exact .inr rfl
  · exact .inl rfl

theorem requireArguments_eq_ok {bindings : List String} {arguments : List Value}
    (h : requireArguments name bindings arguments w = .ok u w') :
    arguments.length = bindings.length ∧ w' = w := by
  unfold requireArguments at h
  split at h <;> cases h
  exact ⟨‹_›, rfl⟩

end ObjectLang.Eval
