import ObjectLang.Proofs.Eval.Naming
import ObjectLang.Proofs.ObjectShape

/-!
# Equality

The operators `==` and `!=` are an equivalence and its negation. They look at what a value is,
except that an object is known by the frame of its members. Of the values that come up when a host
and its programs use one environment, no two are equal unless they are the same value: an object is
given its name once, and every reference to it carries this name. So equal values have the same text.
-/

namespace ObjectLang

/-! ## The operators -/

/-- Equality is an equivalence that tells kinds, functions and objects apart. -/
structure Operator.TellsApart (print : Value → String) : Prop where
  equivalence : Equivalence (eq.Holds print)
  /-- Both operators can be applied to any two values, and one negates the other. -/
  negation (a b : Value) : ∃ t, eq.evaluate print a b = .ok (.boolean t) ∧
    notEq.evaluate print a b = .ok (.boolean (!t))
  kind_eq {a b : Value} : eq.Holds print a b → a.kind = b.kind
  function_iff {id : FunctionId} {v : Value} :
    eq.Holds print (.function id) v ↔ v = .function id
  object_iff {name : Option String} {members : FrameId} {v : Value} :
    eq.Holds print (.object name members) v ↔ ∃ name', v = .object name' members

theorem Operator.tellsApart (print : Value → String) : TellsApart print where
  equivalence := by
    have heq : eq.Holds print = fun a b => a.same b = true :=
      funext₂ fun a b => propext eq_holds_iff
    exact heq ▸ Value.same_equivalence
  negation a b := ⟨a.same b, rfl, rfl⟩
  kind_eq h := Value.kind_eq_of_same (eq_holds_iff.mp h)
  function_iff := eq_holds_iff.trans Value.same_function_iff
  object_iff := eq_holds_iff.trans Value.same_object_iff

/-! ## Stages -/

/-- How far a host and its programs have come, with the values that they have got on the way. -/
structure Stage where
  world : World
  results : List Value

namespace Stage

/-- There is nothing but an environment. -/
def start : Stage := ⟨(Eval.environment {}).state, []⟩

/-- What can come next. At each moment of a task further tasks can be started, as a statement starts
the expressions in it. -/
inductive Step : Stage → Stage → Prop where
  /-- The host opens a frame. -/
  | frame {w : World} {vs : List Value} (p : FrameId) : Step ⟨w, vs⟩ ⟨w.opened p, vs⟩
  /-- The host makes an evaluator. -/
  | evaluator {w : World} {vs : List Value} (limits : Limits) :
      Step ⟨w, vs⟩ ⟨w.withMeter limits, vs⟩
  /-- A task is on the way, or has failed. -/
  | moment {w : World} {vs : List Value} {task : Task} {n : Nat} {c : Context}
      {m : Moment Eval.Event World} :
      m ∈ (task.traced n c ⟨w, []⟩).state.past → Step ⟨w, vs⟩ ⟨m.state, vs⟩
  /-- A task is complete. -/
  | completes {w w' : World} {vs : List Value} {task : Task} {n : Nat} {c : Context}
      {completion : Completion} :
      task.performFueled n c w = .ok completion w' → Step ⟨w, vs⟩ ⟨w', completion.value :: vs⟩

/-- The second stage comes after the first one. -/
abbrev LeadsTo : Stage → Stage → Prop := Relation.ReflTransGen Step

/-- The values that are at hand: what tasks have given, what a frame binds, what has been logged,
and the items of the lists among them. -/
inductive Has (s : Stage) : Value → Prop where
  | result {v : Value} : v ∈ s.results → s.Has v
  | bound {f : FrameId} {b : String × Value} : b ∈ s.world.store.bindings f → s.Has b.2
  | logged {v : Value} : v ∈ s.world.logged → s.Has v
  | item {items : List Value} {v : Value} : s.Has (.list items) → v ∈ items → s.Has v

/-- The naming is the one of the stage. -/
structure NamedBy (N : Naming) (s : Stage) : Prop where
  world : s.world.NamedBy N
  results : ∀ v ∈ s.results, v.NamedBy N

variable {s s' : Stage} {N : Naming} {w : World} {v : Value}

theorem Has.namedBy (h : s.NamedBy N) (hv : s.Has v) : v.NamedBy N := by
  induction hv with
  | result hv => exact h.results _ hv
  | bound hb => exact h.world.bound _ _ hb
  | logged hv => exact h.world.logged _ hv
  | item _ hv ih => exact Value.allNamedBy_iff.mp ih _ hv

/-- An environment has its functions, and no objects. -/
theorem namedBy_start : ∃ N, start.NamedBy N := by
  refine ⟨⟨fun id => start.world.functions[id]?.map (·.name), fun _ => none⟩,
    ⟨⟨fun _ => rfl, fun _ _ heq => ?_, fun f b hb => ?_, nofun⟩, nofun⟩⟩
  · cases heq
  · cases f with
    | zero =>
      have hbindings : start.world.store.bindings 0 =
          [("log", .function 0), ("print", .function 1), ("list", .function 2),
            ("range", .function 3)] := rfl
      rw [hbindings] at hb
      simp only [List.mem_cons, List.not_mem_nil, or_false] at hb
      rcases hb with rfl | rfl | rfl | rfl <;> rfl
    | succ f =>
      have hnone : start.world.store.bindings (f + 1) = [] :=
        Store.bindings_of_size_le _ (Nat.le_add_left 1 f)
      rw [hnone] at hb
      cases hb

/-- What a task makes gets names while it is on the way. -/
theorem namedBy_task (h : w.NamedBy N) (task : Task) (n : Nat) (c : Context) :
    (∀ m ∈ (task.traced n c ⟨w, []⟩).state.past, ∃ N', N ≤ N' ∧ m.state.NamedBy N') ∧
    ∀ completion w', task.performFueled n c w = .ok completion w' →
      ∃ N', N ≤ N' ∧ w'.NamedBy N' ∧ completion.value.NamedBy N' := by
  have hkeeps := Ledger.Keeps.task (L := Ledger.naming N) (n := N) n (c := c) trivial task
  obtain ⟨N', -, hcovers, hvalue⟩ := hkeeps N ⟨w, []⟩ le_rfl ⟨⟨le_rfl, h⟩, nofun⟩
  refine ⟨fun m hm => ?_, fun completion w' hrun => ?_⟩
  · obtain ⟨N'', -, hle, hnamed⟩ := hcovers.past m hm
    exact ⟨N'', hle, hnamed⟩
  · have hfollows := (Eval.tracked_task n c task).follows ⟨w, []⟩
    cases htraced : task.traced n c ⟨w, []⟩ with
    | error e r =>
      rw [htraced, hrun] at hfollows
      cases hfollows
    | ok completion' r =>
      rw [htraced, hrun] at hfollows
      cases hfollows
      rw [htraced] at hcovers
      exact ⟨N', hcovers.now.1, hcovers.now.2, hvalue completion r htraced⟩

/-- Each step adds names to those that there are. -/
theorem Step.namedBy (h : s.NamedBy N) (hstep : Step s s') : ∃ N', N ≤ N' ∧ s'.NamedBy N' := by
  have hresults {N' : Naming} (hle : N ≤ N') : ∀ v ∈ s.results, v.NamedBy N' :=
    fun v hv => (h.results v hv).mono hle
  cases hstep with
  | frame p =>
    obtain ⟨N', hle, hnamed, -⟩ := h.world.opened p none
    exact ⟨N', hle, hnamed, hresults hle⟩
  | evaluator limits =>
    exact ⟨N, le_rfl, ⟨h.world.functions_eq, h.world.objects_lt, h.world.bound, h.world.logged⟩,
      hresults le_rfl⟩
  | @moment w vs task n c m hm =>
    obtain ⟨N', hle, hnamed⟩ := (namedBy_task h.world task n c).1 m hm
    exact ⟨N', hle, hnamed, hresults hle⟩
  | @completes w w' vs task n c completion hrun =>
    obtain ⟨N', hle, hnamed, hvalue⟩ := (namedBy_task h.world task n c).2 completion w' hrun
    exact ⟨N', hle, hnamed, List.forall_mem_cons.mpr ⟨hvalue, hresults hle⟩⟩

/-- So does everything that comes later. -/
theorem LeadsTo.namedBy (h : s.NamedBy N) (hleads : s.LeadsTo s') :
    ∃ N', N ≤ N' ∧ s'.NamedBy N' := by
  induction hleads with
  | refl => exact ⟨N, le_rfl, h⟩
  | tail _ hstep ih =>
    obtain ⟨N', hle, hnamed⟩ := ih
    obtain ⟨N'', hle', hnamed'⟩ := Step.namedBy hnamed hstep
    exact ⟨N'', hle.trans hle', hnamed'⟩

end Stage

/-! ## Equal values -/

/-- Equality is an equivalence that tells kinds, functions and objects apart, and inequality is its
negation. Each object and each function has one name for the whole of its life, and a value at hand
and a value at hand later that are equal have the same text from then on. -/
theorem equal_values_print_alike :
    (∀ print, Operator.TellsApart print) ∧
    ∀ s s' : Stage, Stage.start.LeadsTo s → s.LeadsTo s' →
      (∀ a b, s.Has a → s'.Has b → Operator.eq.Holds s'.world.print a b →
        ∀ s'' : Stage, s'.LeadsTo s'' → s''.world.print a = s''.world.print b) ∧
      (∀ name name' members, s.Has (.object name members) → s'.Has (.object name' members) →
        name' = name) ∧
      ∀ id, s.Has (.function id) → id < s.world.functions.size ∧
        s'.world.functionName id = s.world.functionName id := by
  refine ⟨Operator.tellsApart, fun s s' hs hs' => ?_⟩
  obtain ⟨N₀, hstart⟩ := Stage.namedBy_start
  obtain ⟨N, -, hN⟩ := hs.namedBy hstart
  obtain ⟨N', hle, hN'⟩ := hs'.namedBy hN
  have heq {a b : Value} (ha : s.Has a) (hb : s'.Has b) (hsame : a.same b = true) : a = b :=
    Value.eq_of_same ((ha.namedBy hN).mono hle) (hb.namedBy hN') hsame
  refine ⟨fun a b ha hb hab s'' _ => ?_, fun name name' members ha hb => ?_, fun id hid => ?_⟩
  · rw [heq ha hb (Operator.eq_holds_iff.mp hab)]
  · have hobject := heq ha hb (Value.same_object_iff.mpr ⟨name', rfl⟩)
    exact (Value.object.inj hobject).1.symm
  · obtain ⟨name, hname⟩ := Option.isSome_iff_exists.mp (hid.namedBy hN)
    obtain ⟨hlt, hearlier⟩ := hN.world.functionName_eq hname
    obtain ⟨-, hlater⟩ := hN'.world.functionName_eq (hle.1 id name hname)
    exact ⟨hlt, hlater.trans hearlier.symm⟩

/-- A program that makes an object with a name, and a list in which the object and one of its
methods are. -/
def listing : Program :=
  ⟨[.declare ⟨"o", none, some (.object (some "N") [⟨"x", none, some (.literal (.integer 1))⟩]
      [⟨"m", [], none, []⟩])⟩,
    .declare ⟨"l", none, some (.call "list" [.variable "o", .property (.variable "o") "m"])⟩]⟩

/-- A statement that changes the field of the object. -/
def renewal : Stmt := .assign (.property (.variable "o") "x") (.literal (.integer 2))

namespace Stage

/-- The program has been run in a frame inside of that of the environment. -/
def listed : Stage :=
  ⟨((Task.program listing).performFueled 1 ⟨1, 0⟩ (isolatedWorld.withMeter {})).state,
    [.list [.object (some "N") 2, .function 4]]⟩

/-- Then the field of the object has been changed. -/
def changed : Stage :=
  ⟨((Task.stmt renewal).performFueled 1 ⟨1, 0⟩ listed.world).state, .integer 2 :: listed.results⟩

end Stage

/-- What equals the object in the list, after the field of the object has been changed, prints as
the object does then. -/
theorem equal_values_print_alike_listing :
    Stage.start.LeadsTo Stage.listed ∧ Stage.listed.LeadsTo Stage.changed ∧
    Stage.listed.Has (.object (some "N") 2) ∧ Stage.listed.Has (.function 4) ∧
    (∀ b, Stage.changed.Has b →
      Operator.eq.Holds Stage.changed.world.print (.object (some "N") 2) b →
      Stage.changed.world.print b = "Object(N) \x7b x = `2`, m = `DEF m(?) DO ? END` \x7d") ∧
    (∀ name, Stage.changed.Has (.object name 2) → name = some "N") ∧
    Stage.changed.world.functionName 4 = Stage.listed.world.functionName 4 := by
  have hopened : Stage.start.LeadsTo ⟨isolatedWorld, []⟩ := .single (.frame 0)
  have hevaluator : Stage.start.LeadsTo ⟨isolatedWorld.withMeter {}, []⟩ :=
    hopened.tail (.evaluator {})
  have hlisted : Stage.Step ⟨isolatedWorld.withMeter {}, []⟩ Stage.listed := by
    have hrun : (Task.program listing).performFueled 1 ⟨1, 0⟩ (isolatedWorld.withMeter {}) =
        .ok (.normal (.list [.object (some "N") 2, .function 4])) Stage.listed.world :=
      EStateM.Result.eq_ok_of_value? (by decide +kernel)
    exact .completes hrun
  have hchanged : Stage.listed.Step Stage.changed := by
    have hrun : (Task.stmt renewal).performFueled 1 ⟨1, 0⟩ Stage.listed.world =
        .ok (.normal (.integer 2)) Stage.changed.world :=
      EStateM.Result.eq_ok_of_value? (by decide +kernel)
    exact .completes hrun
  have hlist : Stage.listed.Has (.list [.object (some "N") 2, .function 4]) :=
    .result List.mem_cons_self
  have hobject : Stage.listed.Has (.object (some "N") 2) := .item hlist (by simp)
  have hmethod : Stage.listed.Has (.function 4) := .item hlist (by simp)
  have htext : Stage.changed.world.print (.object (some "N") 2) =
      "Object(N) \x7b x = `2`, m = `DEF m(?) DO ? END` \x7d" := by decide +kernel
  obtain ⟨hprint, hname, hfunction⟩ := equal_values_print_alike.2 Stage.listed Stage.changed
    (hevaluator.tail hlisted) (.single hchanged)
  refine ⟨hevaluator.tail hlisted, .single hchanged, hobject, hmethod, fun b hb hequal => ?_,
    fun name hlater => hname _ name 2 hobject hlater, (hfunction 4 hmethod).2⟩
  rw [← hprint _ b hobject hb hequal Stage.changed .refl, htext]

end ObjectLang
