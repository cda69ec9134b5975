import ObjectLang.Proofs.Check.Effect
import ObjectLang.Proofs.Eval.Completed
import ObjectLang.Proofs.Scope.Owners

/-!
# What was checked holds at the write

A declaration first looks whether its name is free, then evaluates the initial value, and binds the
name last. An assignment first looks whether its target exists, then evaluates the new value, and
writes last, without looking at the outcome. Between the check and the write anything may run: calls
of functions that hold on to the same frames, an assignment to the same target, the same statement
again.

Both are safe for one reason. Evaluation adds no name to a frame that it finds (`Eval.Confined`),
and never takes one away. So a name that was free is still free, and a name still belongs to the
frame to which it belonged before. The checker is written in the same way, and is safe for the same
reason.
-/

namespace ObjectLang

/-! ## Writing one cell -/

namespace Store

variable {α : Type} {s t : Store α} {f g : FrameId} {name : String} {v : α}

/-- `t` differs from `s` only in what the frame `g` itself says about the name, and this is `v`. -/
structure Writes (g : FrameId) (name : String) (v : α) (s t : Store α) : Prop where
  size_eq : t.size = s.size
  parent?_eq : ∀ f, t.parent? f = s.parent? f
  names_eq : ∀ f, t.names f = s.names f
  written : t.own? g name = some v
  others : ∀ f name', ¬ (f = g ∧ name' = name) → t.own? f name' = s.own? f name'

theorem writes_replace (h : name ∈ s.names g) (v : α) : Writes g name v s (s.replace g name v) where
  size_eq := size_replace s g name v
  parent?_eq f := parent?_replace s g f name v
  names_eq f := names_replace s g f name v
  written := by
    obtain ⟨old, hold⟩ := Option.isSome_iff_exists.mp ((s.own?_isSome_iff g name).mpr h)
    rw [own?_replace, if_pos rfl, hold]
    rfl
  others _ _ hne := own?_replace_of_ne s v hne

namespace Writes

theorem owner?_eq (h : Writes g name v s t) (f : FrameId) (name' : String) :
    t.owner? f name' = s.owner? f name' :=
  owner?_congr (chain_congr h.parent?_eq f) fun f' _ => by rw [h.names_eq f']

/-- The name means `v` wherever it belongs to the frame that was written. -/
theorem lookup_eq (h : Writes g name v s t) (howner : t.owner? f name = some g) :
    t.lookup f name = some v := by
  rw [Store.lookup_eq, howner, Option.bind_some, h.written]

end Writes

/-- Only frames that exist see a name that belongs to a frame. -/
theorem lt_size_of_owner? (h : s.owner? f name = some g) : f < s.size := by
  cases hparent : s.parent? f with
  | some p => exact s.parent?_lt_size hparent
  | none =>
    have hmem : g ∈ s.chain f := List.mem_of_find?_eq_some h
    rw [s.chain_eq f, hparent, Option.elim_none, List.mem_singleton] at hmem
    exact lt_size_of_mem_names (hmem ▸ mem_names_of_owner? h)

end Store

namespace Eval

variable {w w' : World} {f g : FrameId} {name : String} {v : Value}

/-- Wherever the name belongs to the frame `g` it is read as `v`, as a variable and as a member of
any object with these members. -/
structure Reads (g : FrameId) (name : String) (v : Value) (w : World) : Prop where
  asVariable : ∀ f, w.store.owner? f name = some g → lookup f name w = .ok v w
  asMember : ∀ label, (do member (← membersOf (.object label g)) name) w = .ok v w

theorem reads_of_writes {t : Store Value} (h : Store.Writes g name v w.store t) :
    Reads g name v { w with store := t } where
  asVariable _ howner := lookup_of_eq_some (h.lookup_eq howner)
  asMember _ := member_of_own? h.written

/-- How an assignment to the cell of a name in the frame `g` ends, after the new value was evaluated
with the given result: it fails in the same way and writes nothing, or it writes this cell alone. -/
inductive Assigns (write : Value → EvalM Bool) (g : FrameId) (name : String) :
    EStateM.Result Stop World Value → EStateM.Result Stop World Completion → Prop where
  | failed {e : Stop} {w : World} : Assigns write g name (.error e w) (.error e w)
  | written {v : Value} {w : World} {t : Store Value} :
      Store.Writes g name v w.store t → write v w = .ok true { w with store := t } →
      Reads g name v { w with store := t } →
      Assigns write g name (.ok v w) (.ok (.normal v) { w with store := t })

/-- An assignment that ends with a write that succeeds. -/
theorem assigns_of_write {write : Value → EvalM Bool} {value : EvalM Value}
    (hwrite : ∀ v w', value w = .ok v w' →
      name ∈ w'.store.names g ∧
        write v w' = .ok true { w' with store := w'.store.replace g name v }) :
    Assigns write g name (value w)
      ((do let v ← value; let _ ← write v; return Completion.normal v : EvalM Completion) w) := by
  cases hvalue : value w with
  | error e w' =>
    rw [bind_run_error hvalue]
    exact .failed
  | ok v w' =>
    obtain ⟨hname, hwritten⟩ := hwrite v w' hvalue
    have hwrites := Store.writes_replace hname v
    rw [bind_run_ok hvalue, bind_run_ok hwritten]
    exact .written hwrites hwritten (reads_of_writes hwrites)

/-! ## What evaluation leaves as it is -/

section

variable {α : Type} {x : EvalM α} {a : α}

theorem Confined.names_eq (hx : Confined none x) (h : x w = .ok a w') (hf : f < w.store.size) :
    w'.store.names f = w.store.names f := by
  have hgrows := hx w
  rw [h] at hgrows
  exact hgrows.names_eq hf

theorem Confined.owner?_eq (hx : Confined none x) (h : x w = .ok a w')
    (howner : w.store.owner? f name = some g) : w'.store.owner? f name = some g := by
  have hgrows := hx w
  rw [h] at hgrows
  rw [← howner]
  exact hgrows.store.owner?_eq (Store.lt_size_of_owner? howner) fun _ _ hg => nomatch hg

theorem Confined.define_run (hx : Confined none x) (hf : f < w.store.size)
    (hfree : requireFree f name w = .ok () w) (h : x w = .ok a w') (v : Value) :
    define f name v w' = .ok () { w' with store := w'.store.append f name v } := by
  have hname := (requireFree_eq_ok hfree).1
  rw [← hx.names_eq h hf] at hname
  exact define_of_free ((w'.store.defines_eq_false_iff f name).mpr hname) v

end

section

variable {invoke : Invoke} (hi : ∀ id arguments, Confined none (invoke id arguments)) {c : Context}
include hi

/-- A declaration whose name is free when it starts can bind it when it has its value. -/
theorem declaration_run {d : Declaration} (hf : c.frame < w.store.size)
    (hfree : requireFree c.frame d.name w = .ok () w)
    (hvalue : optionalExpr invoke c d.value w = .ok v w') :
    declaration invoke c d w =
      .ok v { w' with store := w'.store.append c.frame d.name v } := by
  obtain ⟨name, typeName, value⟩ := d
  have hdefine := (Confined.optionalExpr hi c value).define_run hf hfree hvalue v
  rw [declaration, bind_run_ok hfree, bind_run_ok hvalue, bind_run_ok hdefine]
  rfl

/-- An assignment to a variable writes to the frame that the name belonged to when it started. -/
theorem assigns_variable {name : String} {value : Expr} {old : Value} {w₁ : World}
    (htick : tick c.meter w = .ok () w₁) (hold : lookup c.frame name w₁ = .ok old w₁) :
    ∃ g, w₁.store.owner? c.frame name = some g ∧
      Assigns (set c.frame name) g name (expr invoke c value w₁)
        (stmt invoke c (.assign (.variable name) value) w) ∧
      ∀ v w', stmt invoke c (.assign (.variable name) value) w = .ok (.normal v) w' →
        w'.store.owner? c.frame name = some g ∧ lookup c.frame name w' = .ok v w' := by
  have hmeaning := (lookup_eq_ok hold).1
  rw [Store.lookup_eq] at hmeaning
  obtain ⟨g, howner, -⟩ := Option.bind_eq_some_iff.mp hmeaning
  -- evaluating the new value adds no name to the chain, so the same frame still owns the name
  have hkept {v : Value} {w' : World} (hvalue : expr invoke c value w₁ = .ok v w') :
      w'.store.owner? c.frame name = some g :=
    (Confined.expr hi c value).owner?_eq hvalue howner
  have hassigns : Assigns (set c.frame name) g name (expr invoke c value w₁)
      (stmt invoke c (.assign (.variable name) value) w) := by
    rw [stmt, bind_run_ok htick, bind_run_ok hold]
    refine assigns_of_write fun v w' hvalue => ?_
    exact ⟨Store.mem_names_of_owner? (hkept hvalue), set_of_owner (hkept hvalue) v⟩
  refine ⟨g, howner, hassigns, fun v w' hrun => ?_⟩
  rw [hrun] at hassigns
  generalize hvalue : expr invoke c value w₁ = r at hassigns
  cases hassigns with
  | written hwrites _ hreads =>
    have howner' := (hwrites.owner?_eq c.frame name).trans (hkept hvalue)
    exact ⟨howner', hreads.asVariable c.frame howner'⟩

/-- An assignment to a property writes to the members of the object that it started with. -/
theorem assigns_property {receiver value : Expr} {name : String} {label : Option String}
    {members : FrameId} {old : Value} {w₁ w₂ : World} (htick : tick c.meter w = .ok () w₁)
    (hreceiver : expr invoke c receiver w₁ = .ok (.object label members) w₂)
    (hold : member members name w₂ = .ok old w₂) :
    Assigns (setOwn members name) members name (expr invoke c value w₂)
      (stmt invoke c (.assign (.property receiver name) value) w) := by
  have hname := Store.mem_names_of_own? (member_eq_ok hold).1
  have hobject : membersOf (.object label members) w₂ = .ok members w₂ := rfl
  rw [stmt, bind_run_ok htick, bind_run_ok hreceiver, bind_run_ok hobject, bind_run_ok hold]
  -- members may get new values meanwhile, but the frame keeps their names
  refine assigns_of_write fun v w' hvalue => ?_
  rw [← (Confined.expr hi c value).names_eq hvalue (Store.lt_size_of_mem_names hname)] at hname
  obtain ⟨now, hnow⟩ := Option.isSome_iff_exists.mp ((w'.store.own?_isSome_iff _ _).mpr hname)
  exact ⟨hname, setOwn_of_own? hnow v⟩

end

/-- Making a function does not touch the frames. -/
theorem newClosure_define_run {c : Context} {d : Definition} {captured : FrameId} {isMethod : Bool}
    {id : FunctionId} (hfree : requireFree f d.name w = .ok () w)
    (h : newClosure c d captured isMethod w = .ok id w') :
    define f d.name (.function id) w' =
      .ok () { w' with store := w'.store.append f d.name (.function id) } := by
  obtain ⟨-, rfl⟩ := newClosure_eq_ok h
  have hname := (requireFree_eq_ok hfree).1
  have hdefines : (w.withFunction (d.function captured c.meter isMethod)).store.defines f d.name =
      false := (w.store.defines_eq_false_iff f d.name).mpr hname
  exact define_of_free hdefines _

end Eval

/-! ## The checker -/

namespace Check

variable {f g : FrameId} {s t : Store Ty}

/-- A declaration whose name is free before it is checked can be bound afterwards. -/
theorem declaration_define_run {d : Declaration} {td : TypedDeclaration} (hg : g < s.size)
    (hfree : requireFree g d.name s = .ok () s) (h : declaration f d s = .ok td t) :
    define g td.name td.ty t = .ok () (t.append g td.name td.ty) := by
  have hbindings := (confined.declaration f d).bindings_eq hg h
  have hname := (requireFree_eq_ok hfree).1
  rw [← declaration_name h, Store.names, ← hbindings] at hname
  exact define_run_iff.mpr ⟨hname, rfl⟩

/-- A signature is resolved without touching the frames. -/
theorem signature_define_run {d : Definition} {signature : Signature}
    (hfree : requireFree g d.name s = .ok () s) (h : Check.signature d s = .ok signature t) :
    define g d.name signature.ty t = .ok () (t.append g d.name signature.ty) := by
  obtain ⟨-, rfl⟩ := signature_run_iff.mp h
  exact define_run_iff.mpr ⟨(requireFree_eq_ok hfree).1, rfl⟩

end Check

/-- What is checked before something is evaluated holds when a name is written afterwards: in the
context `c`, with at most `n` calls inside of each other, and in the checker. -/
structure ChecksHold (n : Nat) (c : Context) : Prop where
  /-- A name that a declaration finds free is free when it is bound, whatever the initial value does
  meanwhile. -/
  declaration (d : Declaration) (w : World) : c.frame < w.store.size →
    Eval.requireFree c.frame d.name w = .ok () w →
    ∀ v w', Eval.optionalExpr (Eval.call n) c d.value w = .ok v w' →
      let w'' := { w' with store := w'.store.append c.frame d.name v }
      Eval.define c.frame d.name v w' = .ok () w'' ∧
        Eval.declaration (Eval.call n) c d w = .ok v w''
  /-- So is a name that a definition finds free. -/
  definition (d : Definition) (captured : FrameId) (isMethod : Bool) (f : FrameId) (w : World) :
    Eval.requireFree f d.name w = .ok () w →
    ∀ id w', Eval.newClosure c d captured isMethod w = .ok id w' →
      Eval.define f d.name (.function id) w' =
        .ok () { w' with store := w'.store.append f d.name (.function id) }
  /-- An assignment that finds its variable writes to the frame in which the variable was found, to
  nothing else, and only if the new value could be evaluated. Then the variable is read as the new
  value. -/
  ofVariable (name : String) (value : Expr) (old : Value) (w w₁ : World) :
    Eval.tick c.meter w = .ok () w₁ → Eval.lookup c.frame name w₁ = .ok old w₁ →
    ∃ g, w₁.store.owner? c.frame name = some g ∧
      Eval.Assigns (Eval.set c.frame name) g name (Eval.expr (Eval.call n) c value w₁)
        (Eval.stmt (Eval.call n) c (.assign (.variable name) value) w) ∧
      ∀ v w', Eval.stmt (Eval.call n) c (.assign (.variable name) value) w =
          .ok (.normal v) w' →
        w'.store.owner? c.frame name = some g ∧ Eval.lookup c.frame name w' = .ok v w'
  /-- An assignment that finds its property writes to the members in which it was found. -/
  ofProperty (receiver : Expr) (name : String) (value : Expr) (label : Option String)
    (members : FrameId) (old : Value) (w w₁ w₂ : World) : Eval.tick c.meter w = .ok () w₁ →
    Eval.expr (Eval.call n) c receiver w₁ = .ok (.object label members) w₂ →
    Eval.member members name w₂ = .ok old w₂ →
    Eval.Assigns (Eval.setOwn members name) members name (Eval.expr (Eval.call n) c value w₂)
      (Eval.stmt (Eval.call n) c (.assign (.property receiver name) value) w)
  /-- A name that the checker finds free for a declaration is free when it is bound. -/
  checkedDeclaration (f g : FrameId) (d : Declaration) (s : Store Ty) : g < s.size →
    Check.requireFree g d.name s = .ok () s →
    ∀ td t, Check.declaration f d s = .ok td t →
      Check.define g td.name td.ty t = .ok () (t.append g td.name td.ty)
  /-- So is a name that the checker finds free for a definition. -/
  checkedDefinition (g : FrameId) (d : Definition) (s : Store Ty) :
    Check.requireFree g d.name s = .ok () s →
    ∀ signature t, Check.signature d s = .ok signature t →
      Check.define g d.name signature.ty t = .ok () (t.append g d.name signature.ty)

/-- Whatever is evaluated between a check and the write that it is for, the check still holds. -/
theorem checks_hold_at_writes (n : Nat) (c : Context) : ChecksHold n c where
  declaration d _ hf hfree v _ hvalue :=
    have hi := Eval.call_confined n
    ⟨(Eval.Confined.optionalExpr hi c d.value).define_run hf hfree hvalue v,
      Eval.declaration_run hi hf hfree hvalue⟩
  definition _ _ _ _ _ hfree _ _ hclosure := Eval.newClosure_define_run hfree hclosure
  ofVariable _ _ _ _ _ htick hold := Eval.assigns_variable (Eval.call_confined n) htick hold
  ofProperty _ _ _ _ _ _ _ _ _ htick hreceiver hold :=
    Eval.assigns_property (Eval.call_confined n) htick hreceiver hold
  checkedDeclaration _ _ _ _ hg hfree _ _ hd := Check.declaration_define_run hg hfree hd
  checkedDefinition _ _ _ hfree _ _ hsignature := Check.signature_define_run hfree hsignature

/-- Two functions that assign to what is assigned to when they are called. -/
def bumping : List Stmt :=
  [.declare ⟨"x", none, some (.literal (.integer 1))⟩,
    .define ⟨"bump", [], none,
      [.assign (.variable "x") (.literal (.integer 5)), .ret (some (.literal (.integer 7)))]⟩,
    .declare ⟨"o", none, some (.object none [⟨"n", none, some (.literal (.integer 1))⟩] [])⟩,
    .declare ⟨"p", none, some (.variable "o")⟩,
    .define ⟨"poke", [], none,
      [.assign (.property (.variable "p") "n") (.literal (.integer 5)),
        .ret (some (.literal (.integer 7)))]⟩]

/-- The world in which the functions stand in the frame 1, and the object's members in the frame 2.
-/
def bumped : World :=
  (Eval.stmts (Eval.call 1) ⟨1, 0⟩ .nil bumping (isolatedWorld.withMeter {})).state

/-- The functions are called for the initial value of a new name, and for the new values of the very
targets that they assign to. -/
theorem checks_hold_at_writes_bumping :
    let c : Context := ⟨1, 0⟩
    let call (name : String) := Expr.call name []
    let run target value := Eval.stmt (Eval.call 1) c (.assign target value) bumped
    (∃ v w, Eval.declaration (Eval.call 1) c ⟨"y", none, some (call "bump")⟩ bumped = .ok v w) ∧
    Eval.Assigns (Eval.set 1 "x") 1 "x" (Eval.expr (Eval.call 1) c (call "bump") (bumped.charge 0))
      (run (.variable "x") (call "bump")) ∧
    (∃ v w, run (.variable "x") (call "bump") = .ok (.normal v) w ∧
      Eval.lookup 1 "x" w = .ok v w) ∧
    (∃ w, Eval.Assigns (Eval.setOwn 2 "n") 2 "n" (Eval.expr (Eval.call 1) c (call "poke") w)
      (run (.property (.variable "o") "n") (call "poke"))) ∧
    (run (.property (.variable "o") "n") (call "poke")).isOk = true ∧
    (∃ td t, Check.declaration 1 ⟨"y", none, some (.literal .nil)⟩ isolatedTypes = .ok td t ∧
      Check.define 1 td.name td.ty t = .ok () (t.append 1 td.name td.ty)) := by
  intro c call run
  have hchecks := checks_hold_at_writes 1 c
  have htick : Eval.tick c.meter bumped = .ok () (bumped.charge 0) :=
    Eval.tick_of_room (n := 0) ⟨by decide +kernel, by decide +kernel⟩
  have hx : (bumped.charge 0).store.lookup 1 "x" = some (.integer 1) := by decide +kernel
  obtain ⟨g, howner, hassigns, hread⟩ :=
    hchecks.ofVariable "x" (call "bump") _ _ _ htick (Eval.lookup_of_eq_some hx)
  have hone : (bumped.charge 0).store.owner? 1 "x" = some 1 := by decide +kernel
  rw [howner, Option.some.injEq] at hone
  subst hone
  refine ⟨?_, hassigns, ?_, ?_, by decide +kernel, ?_⟩
  · have hfree : Eval.requireFree 1 "y" bumped = .ok () bumped :=
      Eval.requireFree_of_free (by decide +kernel)
    obtain ⟨v, w, hvalue⟩ := EStateM.Result.isOk_iff.mp
      (show (Eval.expr (Eval.call 1) c (call "bump") bumped).isOk = true by decide +kernel)
    exact ⟨_, _, (hchecks.declaration ⟨"y", none, some (call "bump")⟩ bumped (by decide +kernel)
      hfree v w hvalue).2⟩
  · obtain ⟨_, w, hrun⟩ := EStateM.Result.isOk_iff.mp
      (show (run (.variable "x") (call "bump")).isOk = true by decide +kernel)
    have hends : ∃ r, Eval.Assigns (Eval.set 1 "x") 1 "x" r (run (.variable "x") (call "bump")) :=
      ⟨_, hassigns⟩
    rw [hrun] at hends
    obtain ⟨_, ⟨⟩⟩ := hends
    exact ⟨_, _, hrun, (hread _ _ hrun).2⟩
  · have htick' : Eval.tick c.meter (bumped.charge 0) = .ok () ((bumped.charge 0).charge 0) :=
      Eval.tick_of_room (n := 0) ⟨by decide +kernel, by decide +kernel⟩
    have ho : ((bumped.charge 0).charge 0).store.lookup 1 "o" = some (.object none 2) := by decide +kernel
    have hn : ((bumped.charge 0).charge 0).store.own? 2 "n" = some (.integer 1) := by decide +kernel
    exact ⟨_, hchecks.ofProperty (.variable "o") "n" (call "poke") none 2 _ _ _ _ htick
      ((bind_run_ok htick' _).trans (Eval.lookup_of_eq_some ho)) (Eval.member_of_own? hn)⟩
  · obtain ⟨td, t, hd⟩ := EStateM.Result.isOk_iff.mp
      (show (Check.declaration 1 ⟨"y", none, some (.literal .nil)⟩ isolatedTypes).isOk = true by
        decide +kernel)
    have hfree : Check.requireFree 1 "y" isolatedTypes = .ok () isolatedTypes :=
      Check.requireFree_run_iff.mpr ⟨by decide +kernel, rfl⟩
    exact ⟨td, t, hd, hchecks.checkedDeclaration 1 1 _ isolatedTypes (by decide) hfree td t hd⟩

end ObjectLang
