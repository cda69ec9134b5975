import ObjectLang.Proofs.Eval.Moves

/-!
# Bindings without assignments

Nothing but an assignment gives a name a new value. As long as neither a task nor a function that it
can call assigns, every frame only gets further bindings after those it has, be it the frame of a
block, of a call or of the members of an object. This holds between any two moments of the task,
also if it fails in the end. -/

namespace ObjectLang

/-! ## Worlds without assignments -/

/-- In the world `w'` every frame has the bindings that it has in `w`, and perhaps others after
them. Functions and objects among the values are the same ones. -/
def World.Extends (w w' : World) : Prop := ∀ f, w.store.bindings f <+: w'.store.bindings f

/-- No function of the world assigns. -/
def World.ReadOnly (w : World) : Prop :=
  ∀ id c, (w.function id).code = .closure c → WrittenInStmts .readOnly c.body

namespace World

variable {w w' w'' : World}

/-- All names may be mentioned, so the whole world is in reach. -/
theorem readOnly_iff : w.ReadOnly ↔ w.Encloses .readOnly .whole := by
  constructor
  · intro h
    exact ⟨fun _ _ _ _ => trivial, fun _ _ b _ _ => b.2.within_whole,
      fun id _ c hc => ⟨fun _ _ => trivial, h id c hc, trivial⟩, fun _ _ => trivial,
      fun _ _ => trivial⟩
  · intro h id c hc
    exact (h.code id trivial c hc).body

/-- A world in which all functions are the host's. -/
theorem readOnly_of_owners (h : w.owners = ∅) : w.ReadOnly :=
  fun _ _ hc => absurd hc (code_ne_closure h)

namespace Extends

theorem refl (w : World) : w.Extends w := fun _ => List.prefix_rfl

theorem trans (h : w.Extends w') (h' : w'.Extends w'') : w.Extends w'' :=
  fun f => (h f).trans (h' f)

/-- Moves only add bindings if there are no assignments. -/
theorem of_move {S : Region} (h : Move .readOnly S w w') : w.Extends w' := by
  cases h with
  | opened _ =>
    intro f
    rw [opened, Store.bindings_newFrame]
  | append _ _ _ =>
    intro f
    dsimp only
    rw [Store.bindings_append]
    split
    · exact List.prefix_append _ _
    · exact List.prefix_rfl
  | replace hassigns _ _ _ => exact hassigns.elim
  | stay | charge _ | enter _ | leave _ | function _ | print _ | log _ => exact .refl _

end Extends

end World

/-! ## Moments of a task -/

namespace Eval

/-- All moments of a run so far are in line: the bindings of each are there at every later one. -/
structure Rising (r : Trace Event World) : Prop where
  moments : r.past.Pairwise fun later earlier => earlier.state.Extends later.state
  now : ∀ m ∈ r.past, m.state.Extends r.state

theorem Rising.next {r : Trace Event World} (h : Rising r) (event : Option Event) {w : World}
    (hw : r.state.Extends w) : Rising (r.next event w) := by
  have hpast : ∀ m ∈ r.past, m.state.Extends w := fun m hm => (h.now m hm).trans hw
  exact ⟨List.pairwise_cons.mpr ⟨hpast, h.moments⟩, List.forall_mem_cons.mpr ⟨.refl w, hpast⟩⟩

/-- The world in which a task is performed, as the first moment of its trace. -/
def startTrace (w : World) : Trace Event World := ⟨w, [⟨none, w⟩]⟩

theorem rising_start (w : World) : Rising (startTrace w) :=
  ⟨List.pairwise_singleton _ _, fun m hm => by
    rw [List.mem_singleton.mp hm]
    exact .refl w⟩

end Eval

/-- The moments of a task that is performed in the world `w`, the latest one first. -/
def Task.moments (task : Task) (c : Context) (w : World) : List (Moment Eval.Event World) :=
  (task.traced w.freeDepth c (Eval.startTrace w)).state.past

/-- The task gives no binding a new value, and leaves a world in which no task does. -/
structure Task.Preserves (task : Task) (c : Context) (w : World) : Prop where
  /-- The trace is that of the task. -/
  follows : (task.traced w.freeDepth c (Eval.startTrace w)).mapState Trace.state = task.perform c w
  /-- Of any two moments the later one has the bindings of the earlier one. -/
  moments : (task.moments c w).Pairwise fun later earlier => earlier.state.Extends later.state
  /-- So has the end, whether the task succeeds or fails. -/
  ends : ∀ m ∈ task.moments c w, m.state.Extends (task.perform c w).state
  readOnly : (task.perform c w).state.ReadOnly

theorem Task.WrittenIn.preserves {task : Task} (htask : task.WrittenIn .readOnly) (c : Context)
    {w : World} (hw : w.ReadOnly) : task.Preserves c w := by
  have hfollows := (Eval.tracked_task w.freeDepth c task).follows (Eval.startTrace w)
  rw [Eval.startTrace, ← task.perform_run c w] at hfollows
  have hbuilt := Eval.Traced.built_task (V := .readOnly) (S := .whole) trivial w.freeDepth
    (c := c) trivial htask
  obtain ⟨hrising, -, -⟩ := hbuilt.keeps (I := Eval.Rising)
    (fun r event w' hr _ hmove => hr.next event (.of_move hmove)) (Eval.rising_start w)
    (World.readOnly_iff.mp hw)
  have hstate : (task.traced w.freeDepth c (Eval.startTrace w)).state.state =
      (task.perform c w).state := by
    rw [← hfollows, EStateM.Result.state_mapState]
    rfl
  have hencloses := htask.encloses (S := .whole) (c := c) trivial trivial (World.readOnly_iff.mp hw)
  exact ⟨hfollows, hrising.moments, hstate ▸ hrising.now, World.readOnly_iff.mpr hencloses⟩

/-- A program without assignments that is run on its own gives no binding a new value: at any two
moments of the run the bindings of a frame at the earlier one are the first of its bindings at the
later one, and the run ends with them. The same holds of every task without assignments in every
world none of whose functions assigns. -/
theorem bindings_immutable :
    (∀ (limits : Limits) (c : Context) (p : Program), p.WrittenIn .readOnly →
      (Task.program p).Preserves c (isolatedWorld.withMeter limits)) ∧
    ∀ w : World, w.ReadOnly → ∀ (c : Context) (task : Task), task.WrittenIn .readOnly →
      task.Preserves c w := by
  refine ⟨fun limits c p hp => ?_, fun w hw c task htask => htask.preserves c hw⟩
  have howners : isolatedWorld.owners = ∅ := by decide
  have htask : Task.WrittenIn .readOnly (.program p) := hp
  exact htask.preserves c (World.readOnly_of_owners (w := isolatedWorld.withMeter limits) howners)

/-- A declaration of a name that the frame binds fails, before its initial value is looked at. -/
theorem Eval.stmt_declare_of_defines (invoke : Invoke) {c : Context} {d : Declaration} {w : World}
    {n : Nat} (hroom : w.Room c.meter (n + 1))
    (h : (w.charge c.meter).store.defines c.frame d.name = true) :
    stmt invoke c (.declare d) w =
      .error (.error (.alreadyDefined d.name)) (w.charge c.meter) := by
  obtain ⟨name, typeName, value⟩ := d
  rw [stmt, bind_run_ok (tick_of_room hroom), declaration]
  exact bind_run_error (bind_run_error (requireFree_of_defines h) _) _

/-- A program that calls a function from a loop and from a method. -/
def survey : Program :=
  ⟨[.declare ⟨"base", none, some (.literal (.integer 10))⟩,
    .define ⟨"above", [⟨"n", none⟩], none,
      [.ret (some (.binary .add (.variable "n") (.variable "base")))]⟩,
    .declare ⟨"gauge", none, some (.object none
      [⟨"least", none, some (.literal (.integer 1))⟩]
      [⟨"read", [⟨"n", none⟩], none,
        [.declare ⟨"high", none, some (.call "above" [.variable "n"])⟩,
         .ret (some (.binary .add (.property (.variable thisName) "least")
          (.variable "high")))]⟩])⟩,
    .forEach "n" (.call "list" [.literal (.integer 1), .literal (.integer 2)])
      [.declare ⟨"high", none, some (.call "above" [.variable "n"])⟩,
       .expression (.call "print" [.variable "high"])],
    .expression (.method (.variable "gauge") "read" [.literal (.integer 5)])]⟩

/-- After the program a declaration of a name that it has bound fails, and changes nothing either.
-/
theorem bindings_immutable_survey :
    let c : Context := ⟨1, 0⟩
    let start := isolatedWorld.withMeter {}
    let task : Task := .program survey
    let again : Task := .stmt (.declare ⟨"base", none, some (.literal (.integer 0))⟩)
    let w := (task.perform c start).state
    survey.WrittenIn .readOnly ∧ again.WrittenIn .readOnly ∧ w.ReadOnly ∧
    task.perform c start = .ok (.normal (.integer 16)) w ∧
    again.perform c w = .error (.error (.alreadyDefined "base")) (w.charge 0) ∧
    task.Preserves c start ∧ again.Preserves c w := by
  have hsurvey : survey.WrittenIn .readOnly := by
    simp [survey, Program.WrittenIn, WrittenInStmts, Stmt.WrittenIn, Declaration.WrittenIn,
      Definition.WrittenIn, WrittenInOption, Expr.WrittenIn, WrittenInExprs, WrittenInFields,
      WrittenInMethods, Vocabulary.readOnly]
  have hagain : Task.WrittenIn .readOnly
      (.stmt (.declare ⟨"base", none, some (.literal (.integer 0))⟩)) :=
    ⟨trivial, trivial⟩
  have hpreserves := bindings_immutable.1 {} ⟨1, 0⟩ survey hsurvey
  refine ⟨hsurvey, hagain, hpreserves.readOnly,
    EStateM.Result.eq_ok_of_value? (by decide +kernel), ?_, hpreserves, ?_⟩
  · exact Eval.stmt_declare_of_defines (n := 0) _ ⟨by decide +kernel, by decide +kernel⟩
      (by decide +kernel)
  · exact bindings_immutable.2 _ hpreserves.readOnly ⟨1, 0⟩ _ hagain

end ObjectLang
