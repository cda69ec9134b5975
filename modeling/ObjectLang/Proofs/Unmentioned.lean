import ObjectLang.Proofs.Check.Unmentioned
import ObjectLang.Proofs.Eval.Unmentioned

/-!
# Names that a program does not mention

A binding of a name that a program does not mention cannot matter to the program itself. To the
checker it never does. A run, however, may call functions that were there before, and such a
function may mention the name; and it may print objects that were there before, and an object shows
all of its members. What a run gets at is found by following values, parents and the frames that
functions remember. If no function in there mentions the name, and no object in there has its
members in the frame with the binding, then the binding does not matter to the run either. -/

namespace ObjectLang

/-! ## What can be got at -/

/-- What frames, functions and values lead to. -/
inductive Place where
  | frame (f : FrameId)
  | function (id : FunctionId)
  /-- The members of an object. -/
  | members (f : FrameId)
deriving DecidableEq

mutual

/-- What a value leads to at once. -/
def Value.places : Value → List Place
  | .list items => Value.placesOf items
  | .function id => [.function id]
  | .object _ members => [.members members]
  | .nil | .boolean _ | .integer _ | .decimal _ | .string _ => []

/-- What the values lead to at once. -/
def Value.placesOf : List Value → List Place
  | [] => []
  | v :: rest => v.places ++ Value.placesOf rest

end

/-- What can be got at from the frame `start` without asking for the name `n`. -/
inductive World.Leads (w : World) (n : String) (start : FrameId) : Place → Prop where
  | start : Leads w n start (.frame start)
  | parent {f p : FrameId} :
      Leads w n start (.frame f) → w.store.parent? f = some p → Leads w n start (.frame p)
  /-- Frames are asked for single names. -/
  | bound {f : FrameId} {b : String × Value} {place : Place} : Leads w n start (.frame f) →
      b ∈ w.store.bindings f → b.1 ≠ n → place ∈ b.2.places → Leads w n start place
  | members {f : FrameId} : Leads w n start (.members f) → Leads w n start (.frame f)
  /-- Objects show all of their members. -/
  | shown {f : FrameId} {b : String × Value} {place : Place} : Leads w n start (.members f) →
      b ∈ w.store.bindings f → place ∈ b.2.places → Leads w n start place
  | captured {id : FunctionId} {c : Closure} : Leads w n start (.function id) →
      (w.function id).code = .closure c → Leads w n start (.frame c.captured)

/-- What can be got at from the frame `start` is not concerned with a binding of `n` in `g`. -/
structure World.Unaware (w : World) (n : String) (start g : FrameId) : Prop where
  /-- No function mentions the name, be it in its parameters or in its statements. -/
  functions : ∀ id c, w.Leads n start (.function id) → (w.function id).code = .closure c →
    n ∉ c.bindings ∧ WrittenInStmts (.without n) c.body
  /-- No object has its members in the frame. -/
  members : ¬ w.Leads n start (.members g)

/-- The place is in the region. -/
def Region.Contains (S : Region) : Place → Prop
  | .frame f => f ∈ S.frames
  | .function id => id ∈ S.functions
  | .members f => f ∈ S.members

mutual

theorem Value.within_iff {S : Region} :
    ∀ v : Value, v.Within S ↔ ∀ place ∈ v.places, S.Contains place
  | .list items => Value.allWithin_iff_places items
  | .function _ | .object _ _ => by
    rw [Value.places, List.forall_mem_singleton]
    rfl
  | .nil | .boolean _ | .integer _ | .decimal _ | .string _ => ⟨fun _ => nofun, fun _ => trivial⟩

theorem Value.allWithin_iff_places {S : Region} :
    ∀ vs : List Value, Value.AllWithin S vs ↔ ∀ place ∈ Value.placesOf vs, S.Contains place
  | [] => ⟨fun _ => nofun, fun _ => trivial⟩
  | v :: rest => by
    rw [Value.placesOf, List.forall_mem_append]
    exact and_congr v.within_iff (Value.allWithin_iff_places rest)

end

namespace World

variable {w : World} {n : String} {start g : FrameId}

/-- The region of what can be got at. What does not exist yet belongs to it. -/
def reach (w : World) (n : String) (start : FrameId) : Region where
  frames := {f | w.Leads n start (.frame f) ∨ w.store.size ≤ f}
  functions := {id | w.Leads n start (.function id) ∨ w.functions.size ≤ id}
  members := {f | w.Leads n start (.members f) ∨ w.store.size ≤ f}
  members_subset := fun _ hf => hf.imp_left .members

theorem Leads.contains {place : Place} (h : w.Leads n start place) :
    (w.reach n start).Contains place := by
  cases place <;> exact .inl h

/-- Nothing leads out of the region of what can be got at. -/
theorem Unaware.encloses (h : w.Unaware n start g) :
    w.Encloses (.without n) (w.reach n start) := by
  refine ⟨?_, ?_, ?_, fun _ hf => .inr hf, fun _ hid => .inr hid⟩
  · rintro f (hf | hf) p hp
    · exact .inl (.parent hf hp)
    · exact absurd (w.store.parent?_lt_size hp) (Nat.not_lt.mpr hf)
  · rintro f (hf | hf) b hb hread
    · refine b.2.within_iff.mpr fun place hplace => ?_
      rcases hread with hname | hmembers | hnew
      · exact (Leads.bound hf hb hname hplace).contains
      · exact (Leads.shown hmembers hb hplace).contains
      · rw [w.store.bindings_of_size_le hnew] at hb
        cases hb
    · rw [w.store.bindings_of_size_le hf] at hb
      cases hb
  · rintro id (hid | hid) c hc
    · obtain ⟨hbindings, hbody⟩ := h.functions id c hid hc
      refine ⟨fun name hname => ?_, hbody, .inl (.captured hid hc)⟩
      rintro rfl
      exact hbindings hname
    · rw [function_of_size_le hid] at hc
      cases hc

/-- What can be got at does not lie outside of a region that nothing leads out of. -/
theorem Encloses.contains {S : Region} (h : w.Encloses (.without n) S) (hstart : start ∈ S.frames)
    {place : Place} (hplace : w.Leads n start place) : S.Contains place := by
  induction hplace with
  | start => exact hstart
  | parent _ hp ih => exact h.parent _ ih _ hp
  | bound _ hb hname hplace ih =>
    exact (Value.within_iff _).mp (h.bound _ ih _ hb (.inl hname)) _ hplace
  | members _ ih => exact S.members_subset ih
  | shown _ hb hplace ih =>
    exact (Value.within_iff _).mp (h.bound _ (S.members_subset ih) _ hb (.inr ih)) _ hplace
  | captured _ hc ih => exact (h.code _ ih _ hc).captured

theorem Encloses.unaware {S : Region} (h : w.Encloses (.without n) S) (hstart : start ∈ S.frames)
    (hg : g ∉ S.members) : w.Unaware n start g where
  functions id c hid hc := by
    have hwritten := h.code id (h.contains hstart hid) c hc
    exact ⟨fun hn => hwritten.bindings n hn rfl, hwritten.body⟩
  members hleads := hg (h.contains hstart hleads)

/-- What is got at is not concerned with a binding of the name if and only if it is part of a region
that nothing leads out of and in which no object has its members in the frame. -/
theorem unaware_iff (hg : g < w.store.size) : w.Unaware n start g ↔
    ∃ S, w.Encloses (.without n) S ∧ start ∈ S.frames ∧ g ∉ S.members := by
  constructor
  · refine fun h => ⟨w.reach n start, h.encloses, .inl .start, ?_⟩
    rintro (hleads | hnew)
    · exact h.members hleads
    · exact absurd hg (Nat.not_lt.mpr hnew)
  · rintro ⟨S, h, hstart, hmembers⟩
    exact h.unaware hstart hmembers

end World

/-! ## Programs on their own -/

/-- The whole world, with the members of objects in frames that a program on its own opens. -/
def Region.isolated : Region :=
  ⟨Set.univ, Set.univ, {f | isolatedWorld.store.size ≤ f}, Set.subset_univ _⟩

/-- The environment binds host functions, and there are no objects yet. -/
theorem encloses_isolatedWorld (V : Vocabulary) (limits : Limits) :
    (isolatedWorld.withMeter limits).Encloses V .isolated := by
  have howners : isolatedWorld.owners = ∅ := by decide
  refine ⟨fun _ _ _ _ => trivial, fun f _ b hb _ => ?_, fun id _ c hc => ?_, fun _ hf => hf,
    fun _ _ => trivial⟩
  · match f with
    | 0 =>
      have hv : b.2 ∈ [Value.function 0, .function 1, .function 2, .function 3] :=
        List.mem_map_of_mem (f := Prod.snd) hb
      simp only [List.mem_cons, List.not_mem_nil, or_false] at hv
      rcases hv with hv | hv | hv | hv <;> rw [hv] <;> trivial
    | 1 => cases hb
    | f + 2 => cases hb
  · exact absurd hc (World.code_ne_closure (w := isolatedWorld.withMeter limits) howners)

/-- A task on its own that does not mention a name leaves a world that is not concerned with a
binding of the name, be it in the frame of the task or in the environment. -/
theorem Task.WrittenIn.unaware {n : String} (hthis : thisName ≠ n) {task : Task}
    (htask : task.WrittenIn (.without n)) (limits : Limits) (c : Context) (start : FrameId)
    {g : FrameId} (hg : g < isolatedWorld.store.size) :
    (task.perform c (isolatedWorld.withMeter limits)).state.Unaware n start g := by
  have hencloses := htask.encloses (S := .isolated) (c := c) hthis trivial
    (encloses_isolatedWorld _ limits)
  exact hencloses.unaware trivial (Nat.not_le.mpr hg)

/-! ## Runs of programs -/

/-- A run of a program does not depend on a binding that what it gets at is not concerned with, and
prints its value in the same way. -/
theorem Program.run_alike {n : String} (hthis : thisName ≠ n) {p : Program}
    (hp : p.WrittenIn (.without n)) {c : Context} {w u : World} {g : FrameId} {v : Value}
    (hw : w.Unaware n c.frame g) (hg : g < w.store.size) (h : World.Surplus g n v w u) :
    (p.run c w).Alike (World.Surplus g n v) (p.run c u) ∧
    ∀ value w', p.run c w = .ok value w' → (p.run c u).state.print value = w'.print value := by
  have hn : n ∉ (Vocabulary.without n).names := fun hmem => hmem rfl
  obtain ⟨S, hencloses, hstart, hmembers⟩ := (World.unaware_iff hg).mp hw
  have hmentions : thisName ∈ (Vocabulary.without n).names := hthis
  have hbuilt := Eval.Traced.built_stmts hmentions (Eval.Traced.built_call hmentions w.freeDepth)
    hstart .nil trivial p.statements hp
  have hfollows := (Eval.Traced.tracked_stmts (Eval.call_confined w.freeDepth)
    (Eval.Traced.tracked_call w.freeDepth) c .nil p.statements).follows
  obtain ⟨halike, hresult⟩ := hbuilt.alike_of_follows hfollows hn hmembers hencloses h
  have hrun : (p.run c w).Alike (World.Surplus g n v) (p.run c u) := by
    rw [run_eq, run_eq, h.freeDepth_eq]
    refine bind_run_alike halike fun completion _ _ _ h' => ?_
    cases completion with
    | normal value => exact .ok h'
    | returned value => exact .error h'
  refine ⟨hrun, fun value w' hvalue => ?_⟩
  have hcompleted := hvalue
  rw [run_eq] at hcompleted
  obtain ⟨completion, w₁, hstmts, hlast⟩ := bind_run_eq_ok_iff.mp hcompleted
  cases completion with
  | returned v' => cases hlast
  | normal v' =>
    obtain ⟨rfl, rfl⟩ := pure_run_eq_ok_iff.mp hlast
    obtain ⟨hencloses, hwithin⟩ := hresult _ _ hstmts
    rw [hvalue] at hrun
    generalize p.run c u = r' at hrun
    cases hrun with
    | ok h' => exact h'.print_eq hencloses hmembers hwithin

/-- A binding of a name that a program does not mention, of whatever type or value and in whatever
frame, is irrelevant to the program.

The checker comes to the same conclusion with it, and to the same frames except for the binding. If
the frame of the program is one that can take names, and no object type that it sees has its members
in the frame with the binding, then what is shown of the conclusion is the same as well.

A run has the same outcome with it, charges and prints and logs the same, and leaves the same frames
except for the binding, if what it can get at is not concerned with the binding. -/
theorem unmentioned_binding_irrelevant {n : String} (hthis : thisName ≠ n)
    (hreturns : returnsName ≠ n) {p : Program} (hp : p.WrittenIn (.without n)) :
    (∀ (f g : FrameId) (s : Store Ty) (ty : Ty), g < s.size → n ∉ s.names g →
      let r := Check.program f p s
      let r' := Check.program f p (s.append g n ty)
      r.Alike (Store.Surplus g n ty) r' ∧
      (s.Host f → g ∉ s.reach f → Check.ReadsAlike r r')) ∧
    ∀ (c : Context) (g : FrameId) (w : World) (v : Value), g < w.store.size →
      n ∉ w.store.names g → w.Unaware n c.frame g →
      let r := p.run c w
      let r' := p.run c { w with store := w.store.append g n v }
      r.Alike (World.Surplus g n v) r' ∧
      ∀ value w', r = .ok value w' → r'.state.print value = w'.print value := by
  refine ⟨fun f g s ty hg hfree => ?_, fun c g w v hg hfree hw => ?_⟩
  · have halike := Check.Blind.program hthis hreturns f hp s (s.append g n ty)
      (.append_right hg hfree ty)
    exact ⟨halike, fun hf hreach => Check.readsAlike_program halike hf hg hreach⟩
  · exact Program.run_alike hthis hp hw hg ⟨.append_right hg hfree v, rfl, rfl, rfl, rfl⟩

/-- A number, a function that uses it, and an object. -/
def library : Program :=
  ⟨[.declare ⟨"factor", none, some (.literal (.integer 2))⟩,
    .define ⟨"double", [⟨"x", some "Integer"⟩], none,
      [.ret (some (.binary .mul (.variable "x") (.variable "factor")))]⟩,
    .declare ⟨"box", none, some (.object none
      [⟨"side", none, some (.literal (.integer 3))⟩] [])⟩]⟩

/-- A program that uses the library. -/
def doubling : Program :=
  ⟨[.expression (.call "print" [.variable "box"]),
    .expression (.call "double" [.property (.variable "box") "side"])]⟩

/-- Between the two programs a name that neither of them mentions is bound in their frame. -/
theorem unmentioned_binding_irrelevant_doubling :
    let c : Context := ⟨1, 0⟩
    let s := (Check.session 1 [library] isolatedTypes).2
    let r := Check.program 1 doubling s
    let r' := Check.program 1 doubling (s.append 1 "limit" .string)
    let w := ((Task.program library).perform c (isolatedWorld.withMeter {})).state
    let run := doubling.run c w
    let run' := doubling.run c { w with store := w.store.append 1 "limit" (.string "none") }
    (doubling.WrittenIn (.without "limit") ∧ s.Host 1 ∧ 1 ∉ s.reach 1 ∧ w.Unaware "limit" 1 1) ∧
    r.isOk = true ∧ run = .ok (.integer 6) run.state ∧
    run.state.printed.toList = ["Object \x7b side = `3` \x7d"] ∧
    (r.Alike (Store.Surplus 1 "limit" .string) r' ∧ Check.ReadsAlike r r') ∧
    run.Alike (World.Surplus 1 "limit" (.string "none")) run' ∧
    ∀ value w', run = .ok value w' → run'.state.print value = w'.print value := by
  have hthis : thisName ≠ "limit" := by decide
  have hlibrary : Task.WrittenIn (.without "limit") (.program library) := by
    simp [Task.WrittenIn, library, Program.WrittenIn, WrittenInStmts, Stmt.WrittenIn,
      Declaration.WrittenIn, Definition.WrittenIn, WrittenInOption, Expr.WrittenIn,
      WrittenInFields, WrittenInMethods, Vocabulary.without]
  have hdoubling : doubling.WrittenIn (.without "limit") := by
    simp [doubling, Program.WrittenIn, WrittenInStmts, Stmt.WrittenIn, Expr.WrittenIn,
      WrittenInExprs, Vocabulary.without]
  have hisolated : isolatedTypes.Host 1 :=
    .of_within_empty (by decide) fun g _ => closed_isolatedTypes ∅ g
  obtain ⟨hsealed, hhome⟩ := hisolated.sealed_reach
  obtain ⟨K, hlater, hsealed', -⟩ := Check.session_seals [library] hsealed hhome
  have hhost : (Check.session 1 [library] isolatedTypes).2.Host 1 :=
    Store.host_iff.mpr ⟨K, hsealed', hhome.later hlater⟩
  have hunaware := hlibrary.unaware hthis {} ⟨1, 0⟩ 1 (g := 1) (by decide)
  obtain ⟨hcheck, heval⟩ := unmentioned_binding_irrelevant hthis (by decide) hdoubling
  obtain ⟨halike, hreads⟩ := hcheck 1 1 (Check.session 1 [library] isolatedTypes).2 .string
    (by decide +kernel) (by decide +kernel)
  exact ⟨⟨hdoubling, hhost, hhost.notMem, hunaware⟩, by decide +kernel,
    EStateM.Result.eq_ok_of_value? (by decide +kernel), by decide +kernel,
    ⟨halike, hreads hhost hhost.notMem⟩,
    heval ⟨1, 0⟩ 1 _ (.string "none") (by decide +kernel) (by decide +kernel) hunaware⟩

/-- An object, and a function that gives a limit that is not there yet. -/
def bounding : Program :=
  ⟨[.declare ⟨"box", none, some (.object none [] [])⟩,
    .define ⟨"bound", [], none, [.ret (some (.variable "limit"))]⟩]⟩

/-- What a program uses may be concerned with a name that the program does not mention. A function
looks for the name, and an object shows it if it is among the members, as does the type of the
object. -/
theorem unmentioned_binding_relevant_bounding :
    let w := ((Task.program bounding).perform ⟨1, 0⟩ (isolatedWorld.withMeter {})).state
    let s := (Check.session 1 [bounding] isolatedTypes).2
    let asking : Program := ⟨[.expression (.call "bound" [])]⟩
    let showing : Program := ⟨[.expression (.call "print" [.variable "box"])]⟩
    thisName ≠ "limit" ∧ returnsName ≠ "limit" ∧
    asking.WrittenIn (.without "limit") ∧ showing.WrittenIn (.without "limit") ∧
    (∀ g < 3, g < w.store.size ∧ "limit" ∉ w.store.names g ∧
      g < s.size ∧ "limit" ∉ s.names g) ∧
    ¬ (asking.run ⟨1, 0⟩ w).Alike (World.Surplus 1 "limit" (.integer 1))
      (asking.run ⟨1, 0⟩ { w with store := w.store.append 1 "limit" (.integer 1) }) ∧
    ¬ (showing.run ⟨2, 0⟩ w).Alike (World.Surplus 2 "limit" (.integer 1))
      (showing.run ⟨2, 0⟩ { w with store := w.store.append 2 "limit" (.integer 1) }) ∧
    ¬ Check.ReadsAlike (Check.program 1 showing s)
      (Check.program 1 showing (s.append 2 "limit" .integer)) := by
  have hasking : WrittenInStmts (.without "limit") [.expression (.call "bound" [])] := by
    simp [WrittenInStmts, Stmt.WrittenIn, Expr.WrittenIn, WrittenInExprs, Vocabulary.without]
  have hshowing :
      WrittenInStmts (.without "limit") [.expression (.call "print" [.variable "box"])] := by
    simp [WrittenInStmts, Stmt.WrittenIn, Expr.WrittenIn, WrittenInExprs, Vocabulary.without]
  refine ⟨by decide, by decide, hasking, hshowing, by decide +kernel, ?_, ?_, ?_⟩
  · exact fun h => absurd h.isOk_eq (by decide +kernel)
  · exact fun h => absurd h.state.printed_eq (by decide +kernel)
  · exact fun h => absurd (h.types (.object 2) (by decide +kernel)).1 (by decide +kernel)

end ObjectLang
