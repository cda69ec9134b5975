import ObjectLang.Proofs.Check.Guard
import ObjectLang.Proofs.Program.Isolated
import ObjectLang.Proofs.TypeSystem.Lookup
import ObjectLang.Proofs.TypeSystem.Soundness

/-!
# What a program leaves in its frame

The statements of a program put their bindings into the frame that the program is checked in, one
after another. When a statement is rejected, the bindings of the statements before it stay. What
the rejected statement itself has bound depends on its kind: a function is bound before its body is
checked, so that it may call itself, and stays bound when the body is rejected, while a declaration
is bound last. No other frame that existed before gets anything, however deep the fault is.
-/

namespace ObjectLang

/-- What a rejected statement leaves in its frame, in which the names `bound` were bound before. -/
inductive Stmt.Leaves (bound : List String) : Stmt → List (String × Ty) → Prop where
  /-- A function with a free name and a signature whose types exist stays bound. -/
  | define {d : Definition} {signature : Check.Signature} :
      d.name ∉ bound → Check.Signature.Types d signature →
      Leaves bound (.define d) [(d.name, signature.ty)]
  | nothing {s : Stmt} :
      (∀ d signature, s = .define d → Check.Signature.Types d signature → d.name ∈ bound) →
      Leaves bound s []

namespace Check

/-- What a program has put into the frame `f` of the store `s`, according to how its check ends. -/
inductive Effect (f : FrameId) (s : Store Ty) (p : Program) :
    EStateM.Result CheckError (Store Ty) TypedProgram → Prop where
  | accepted {typed : TypedProgram} {t : Store Ty} :
      blockNames typed.statements = p.statements.flatMap (·.binds) →
      t.bindings f = s.bindings f ++ blockBindings typed.statements →
      Effect f s p (.ok typed t)
  /-- The statement `st` is rejected, those before it are accepted. -/
  | rejected {before rest : List Stmt} {st : Stmt} {typed : List TypedStmt} {mid t : Store Ty}
      {e : CheckError} {left : List (String × Ty)} :
      p.statements = before ++ st :: rest →
      stmts f before s = .ok typed mid → stmt f st mid = .error e t →
      blockNames typed = before.flatMap (·.binds) → st.Leaves (mid.names f) left →
      t.bindings f = s.bindings f ++ blockBindings typed ++ left →
      Effect f s p (.error e t)

section

variable {f : FrameId} {name : String} {ty : Ty} {s t : Store Ty} {e : CheckError}

/-! ## Rejected steps -/

theorem requireFree_eq_error (h : requireFree f name s = .error e t) :
    name ∈ s.names f ∧ t = s := by
  rw [requireFree, get_bind_run] at h
  by_cases hdefines : s.defines f name
  · rw [if_pos hdefines] at h
    cases h
    exact ⟨(s.defines_iff f name).mp hdefines, rfl⟩
  · rw [if_neg hdefines] at h
    cases h

theorem define_eq_error (h : define f name ty s = .error e t) : name ∈ s.names f ∧ t = s := by
  rcases bind_run_eq_error_iff.mp h with hfree | ⟨_, _, _, happend⟩
  · exact requireFree_eq_error hfree
  · cases happend

/-- A part that binds nothing leaves every frame as it is, also if it is rejected. -/
theorem Confined.bindings_eq {α : Type} {x : CheckM α} (hx : Confined none x) (hf : f < s.size)
    {r : EStateM.Result CheckError (Store Ty) α} (h : x s = r) :
    r.state.bindings f = s.bindings f := by
  have hview := (hx s).view_eq f hf (by simp)
  rw [h, Store.view_id, Store.view_id] at hview
  exact hview

/-! ## Statements -/

/-- An accepted statement has bound its name with its type. -/
theorem stmt_bindings {st : Stmt} {ts : TypedStmt} (hf : f < s.size)
    (h : stmt f st s = .ok ts t) :
    t.bindings f = s.bindings f ++ ts.bindings ∧ ts.bindings.map Prod.fst = st.binds := by
  have hquiet (hhome : st.home f = none) (hbinds : st.binds = []) :
      t.bindings f = s.bindings f ++ ts.bindings ∧ ts.bindings.map Prod.fst = st.binds := by
    have hconfined := confined.stmt f st
    rw [hhome] at hconfined
    rw [bindings_of_home h hhome, hbinds, List.append_nil]
    exact ⟨hconfined.bindings_eq hf h, rfl⟩
  cases st with
  | declare d =>
    simp only [stmt, bind_run_eq_ok_iff, pure_run_eq_ok_iff, requireFree_run_iff,
      define_run_iff] at h
    obtain ⟨_, _, ⟨_, rfl⟩, td, s₁, hd, _, _, ⟨_, rfl⟩, rfl, rfl⟩ := h
    have hconfined := confined.declaration f d
    have hf₁ := hf.trans_le (hconfined.grows hd).size_le
    have hkept := hconfined.bindings_eq hf hd
    have hname := declaration_name hd
    refine ⟨?_, by simp [TypedStmt.bindings, Stmt.binds, hname]⟩
    rw [Store.bindings_append, if_pos ⟨rfl, hf₁⟩]
    exact congrArg (· ++ [(td.name, td.ty)]) hkept
  | define d =>
    simp only [stmt, bind_run_eq_ok_iff, pure_run_eq_ok_iff, requireFree_run_iff,
      define_run_iff, signature_run_iff] at h
    obtain ⟨_, _, ⟨_, rfl⟩, signature, _, ⟨_, rfl⟩, _, _, ⟨_, rfl⟩, td, _, hd, rfl, rfl⟩ := h
    have hkept := (confined.definition f none d signature).bindings_eq (by simpa using hf) hd
    obtain ⟨hname, hty⟩ := definition_heading hd
    refine ⟨?_, by simp [TypedStmt.bindings, Stmt.binds, hname]⟩
    rw [Store.bindings_append, if_pos ⟨rfl, hf⟩] at hkept
    rw [TypedStmt.bindings, hname, hty]
    exact hkept
  | branch | forEach | ret | expression | assign => exact hquiet rfl rfl

/-- A rejected declaration has bound nothing. -/
theorem declare_leaves {d : Declaration} (hf : f < s.size)
    (h : stmt f (.declare d) s = .error e t) : t.bindings f = s.bindings f := by
  have hconfined := confined.declaration f d
  rw [stmt] at h
  rcases bind_run_eq_error_iff.mp h with hfree | ⟨_, s₁, hfree, hchecked⟩
  · rw [(requireFree_eq_error hfree).2]
  obtain ⟨_, rfl⟩ := requireFree_eq_ok hfree
  rcases bind_run_eq_error_iff.mp hchecked with hd | ⟨td, s₂, hd, hbound⟩
  · exact hconfined.bindings_eq hf hd
  have hkept := hconfined.bindings_eq hf hd
  rcases bind_run_eq_error_iff.mp hbound with hdefine | ⟨_, _, _, hdone⟩
  · rw [(define_eq_error hdefine).2]
    exact hkept
  · cases hdone

/-- A rejected function is bound if its name was free and its signature has types. -/
theorem define_leaves {d : Definition} (hf : f < s.size)
    (h : stmt f (.define d) s = .error e t) :
    ∃ left, (Stmt.define d).Leaves (s.names f) left ∧
      t.bindings f = s.bindings f ++ left := by
  rw [stmt] at h
  rcases bind_run_eq_error_iff.mp h with hfree | ⟨_, s₁, hfree, hresolved⟩
  · -- the name is bound already
    obtain ⟨hname, rfl⟩ := requireFree_eq_error hfree
    refine ⟨[], .nothing fun d' _ hd' _ => ?_, by simp⟩
    cases hd'
    exact hname
  obtain ⟨hname, rfl⟩ := requireFree_eq_ok hfree
  rcases bind_run_eq_error_iff.mp hresolved with hsignature | ⟨signature, s₂, hsignature, hbound⟩
  · -- a type of the signature does not exist, or a parameter is repeated
    have hkept := (confined.signature d).bindings_eq hf hsignature
    refine ⟨[], .nothing fun d' signature hd' htypes => ?_, by simpa using hkept⟩
    cases hd'
    rw [signature_run_iff.mpr ⟨htypes, rfl⟩] at hsignature
    cases hsignature
  obtain ⟨htypes, rfl⟩ := signature_run_iff.mp hsignature
  rcases bind_run_eq_error_iff.mp hbound with hdefine | ⟨_, s₃, hdefine, hchecked⟩
  · exact absurd (define_eq_error hdefine).1 hname
  obtain ⟨_, rfl⟩ := define_eq_ok hdefine
  rcases bind_run_eq_error_iff.mp hchecked with hbody | ⟨_, _, _, hdone⟩
  · -- the body is rejected
    have hkept := (confined.definition f none d signature).bindings_eq (by simpa using hf) hbody
    rw [EStateM.Result.state_error, Store.bindings_append, if_pos ⟨rfl, hf⟩] at hkept
    exact ⟨_, .define hname htypes, hkept⟩
  · cases hdone

/-- What a rejected statement leaves in its frame. -/
theorem stmt_leaves {st : Stmt} (hf : f < s.size) (h : stmt f st s = .error e t) :
    ∃ left, st.Leaves (s.names f) left ∧ t.bindings f = s.bindings f ++ left := by
  have hquiet (hhome : st.home f = none) (hst : ∀ d, st ≠ .define d) :
      ∃ left, st.Leaves (s.names f) left ∧ t.bindings f = s.bindings f ++ left := by
    have hconfined := confined.stmt f st
    rw [hhome] at hconfined
    have hkept := hconfined.bindings_eq hf h
    exact ⟨[], .nothing fun d _ hd _ => absurd hd (hst d), by simpa using hkept⟩
  cases st with
  | declare d =>
    have hkept := declare_leaves hf h
    exact ⟨[], .nothing fun d' _ hd' _ => (by cases hd'), by simpa using hkept⟩
  | define d => exact define_leaves hf h
  | branch | forEach | ret | expression | assign => exact hquiet rfl fun _ hd => by cases hd

/-! ## Programs -/

/-- Accepted statements have bound their names with their types, in their order. -/
theorem stmts_bindings {body : List Stmt} {typed : List TypedStmt} (hf : f < s.size)
    (h : stmts f body s = .ok typed t) :
    t.bindings f = s.bindings f ++ blockBindings typed ∧
      blockNames typed = body.flatMap (·.binds) := by
  induction body generalizing s typed with
  | nil =>
    rw [stmts] at h
    cases h
    simp [blockNames, blockBindings]
  | cons st rest ih =>
    simp only [stmts, bind_run_eq_ok_iff, pure_run_eq_ok_iff] at h
    obtain ⟨ts, s₁, hst, trest, s₂, hrest, rfl, rfl⟩ := h
    have hsize := ((confined.of_home (confined.stmt f st)).grows hst).size_le
    obtain ⟨hbindings, hnames⟩ := stmt_bindings hf hst
    obtain ⟨hbindings', hnames'⟩ := ih (hf.trans_le hsize) hrest
    constructor
    · rw [hbindings', hbindings, List.append_assoc]
      rfl
    · rw [blockNames, blockBindings, List.flatMap_cons, List.map_append, hnames,
        List.flatMap_cons, ← hnames']
      rfl

/-- If statements are rejected, then one of them is, and those before it are accepted. -/
theorem stmts_eq_error {body : List Stmt} (h : stmts f body s = .error e t) :
    ∃ before st rest typed mid, body = before ++ st :: rest ∧
      stmts f before s = .ok typed mid ∧ stmt f st mid = .error e t := by
  induction body generalizing s with
  | nil =>
    rw [stmts] at h
    cases h
  | cons st rest ih =>
    rw [stmts] at h
    rcases bind_run_eq_error_iff.mp h with hst | ⟨ts, s₁, hst, h⟩
    · exact ⟨[], st, rest, [], s, rfl, by rw [stmts]; rfl, hst⟩
    rcases bind_run_eq_error_iff.mp h with hrest | ⟨_, _, _, h⟩
    · obtain ⟨before, st', rest', typed, mid, rfl, hbefore, hst'⟩ := ih hrest
      refine ⟨st :: before, st', rest', ts :: typed, mid, rfl, ?_, hst'⟩
      rw [stmts, bind_run_ok hst, bind_run_ok hbefore]
      rfl
    · cases h

/-- What a program has put into its frame, whether it is accepted or rejected. -/
theorem effect_program (hf : f < s.size) (p : Program) : Effect f s p (program f p s) := by
  have hrun : program f p s = (stmts f p.statements >>= fun body => pure ⟨body⟩) s := rfl
  rw [hrun]
  cases h : stmts f p.statements s with
  | ok typed t =>
    rw [bind_run_ok h]
    obtain ⟨hbindings, hnames⟩ := stmts_bindings hf h
    exact .accepted hnames hbindings
  | error e t =>
    rw [bind_run_error h]
    obtain ⟨before, st, rest, typed, mid, hsplit, hbefore, hst⟩ := stmts_eq_error h
    have hsize := ((confined.stmts f before).grows hbefore).size_le
    obtain ⟨hbindings, hnames⟩ := stmts_bindings hf hbefore
    obtain ⟨left, hleft, hbindings'⟩ := stmt_leaves (hf.trans_le hsize) hst
    exact .rejected hsplit hbefore hst hnames hleft (by rw [hbindings', hbindings])

end

end Check

namespace Checker

/-- However a program ends, the checker is back in the frame that it started in, this frame has got
the bindings of the statements up to the fault, and all other frames are what they were. -/
theorem program_effect (v : Checker) (hv : v.frame < v.types.size) (p : Program) :
    program p v = (Check.program v.frame p v.types).mapState (⟨v.frame, ·⟩) ∧
      (program p v).state.frame = v.frame ∧
      (∀ f < v.types.size,
        (program p v).state.types.parent? f = v.types.parent? f ∧
        (f ≠ v.frame → (program p v).state.types.bindings f = v.types.bindings f)) ∧
      Check.Effect v.frame v.types p (Check.program v.frame p v.types) := by
  have hfollows := Follows.program v.frame p v.types
  have hstate : (program p v).state = ⟨v.frame, (Check.program v.frame p v.types).state⟩ := by
    rw [show program p v = _ from hfollows, EStateM.Result.state_mapState]
  have hgrows : Store.Grows id (some v.frame) v.types (Check.program v.frame p v.types).state :=
    Check.confined.bind (Check.confined.stmts v.frame p.statements)
      (fun body => Check.confined.weaken _ (Check.confined.pure (⟨body⟩ : TypedProgram))) v.types
  refine ⟨hfollows, by rw [hstate], fun f hf => ?_, Check.effect_program hv p⟩
  rw [hstate]
  refine ⟨hgrows.parent_eq f hf, fun hne => ?_⟩
  have hview := hgrows.view_eq f hf (by simpa using hne.symm)
  rwa [Store.view_id, Store.view_id] at hview

/-- The body of `show` is rejected, two blocks deep, so `last` is never looked at. -/
def halting : Program :=
  ⟨[.declare ⟨"count", none, some (.literal (.integer 1))⟩,
    .define ⟨"show", [⟨"item", some "String"⟩], some "Integer",
      [.branch (.literal (.boolean true))
        [.declare ⟨"inner", none, some (.object none [⟨"part", none, some (.variable "item")⟩] [])⟩,
          .forEach "index" (.literal (.integer 2)) []] []]⟩,
    .declare ⟨"last", none, some (.literal .nil)⟩]⟩

theorem program_effect_halting :
    1 < isolatedTypes.size ∧ (program halting ⟨1, isolatedTypes⟩).isOk = false ∧
      (program halting ⟨1, isolatedTypes⟩).state.frame = 1 ∧
      (program halting ⟨1, isolatedTypes⟩).state.types.bindings 0 = isolatedTypes.bindings 0 ∧
      (program halting ⟨1, isolatedTypes⟩).state.types.bindings 1 =
        [("count", .integer), ("show", .function [.string] .integer)] := by
  have hsize : 1 < isolatedTypes.size := by decide
  obtain ⟨_, hframe, hothers, _⟩ := program_effect ⟨1, isolatedTypes⟩ hsize halting
  have hroot := (hothers 0 (by decide)).2 (by decide)
  exact ⟨hsize, by decide +kernel, hframe, hroot, by decide +kernel⟩

end Checker

end ObjectLang
