import ObjectLang.Proofs.Eval.Origin
import ObjectLang.Proofs.Termination

/-!
# Iteration

A range is the list of the whole numbers from one bound to the other, and a loop runs its block once
for each item of its list, in order. The list is evaluated once, before the first iteration, and
each iteration has a frame of its own. So nothing that the block does changes which items later
iterations get, and functions that are made in an iteration go on to read the variables of that
iteration. -/

namespace ObjectLang

/-! ## Ranges -/

/-- Counting up from a number to the bound `b` passes these numbers. -/
inductive CountsUp (b : Int) : Int → List Int → Prop where
  | passed {a : Int} : b < a → CountsUp b a []
  | next {a : Int} {rest : List Int} : a ≤ b → CountsUp b (a + 1) rest → CountsUp b a (a :: rest)

theorem countsUp_integersBetween (a b : Int) : CountsUp b a (integersBetween a b) := by
  induction hcount : (b + 1 - a).toNat generalizing a with
  | zero =>
    have hlt : b < a := by omega
    rw [integersBetween_of_lt hlt]
    exact .passed hlt
  | succ k ih =>
    have hle : a ≤ b := by omega
    rw [integersBetween_of_le hle]
    exact .next hle (ih (a + 1) (by omega))

theorem mem_integersBetween {a b x : Int} : x ∈ integersBetween a b ↔ a ≤ x ∧ x ≤ b := by
  rw [integersBetween, List.mem_map]
  constructor
  · rintro ⟨i, hi, rfl⟩
    rw [List.mem_range] at hi
    omega
  · intro h
    exact ⟨(x - a).toNat, List.mem_range.mpr (by omega), by omega⟩

theorem pairwise_integersBetween (a b : Int) : (integersBetween a b).Pairwise (· < ·) := by
  rw [integersBetween, List.pairwise_map]
  exact List.pairwise_lt_range.imp fun hlt => by omega

namespace Eval

theorem call_range {w : World} {id : FunctionId} (hcode : (w.function id).code = .host .range)
    (n : Nat) (a b : Int) : call n id [.integer a, .integer b] w =
      .ok (.list ((integersBetween a b).map .integer)) w := by
  rw [call_eq, get_bind_run, applyFunction, hcode]
  rfl

end Eval

/-! ## One iteration -/

/-- The world in which the block of a loop starts: a new frame inside of the frame of the loop binds
the variable of the loop to the item. -/
def World.inside (w : World) (p : FrameId) (name : String) (item : Value) : World :=
  { w.opened p with store := (w.opened p).store.append w.store.size name item }

namespace Eval

variable {n : Nat} {c c' : Context} {s : Stmt} {body : List Stmt} {name : String} {item v : Value}
  {w w' w₁ : World}

theorem enterIteration_run (c : Context) (name : String) (item : Value) (w : World) :
    enterIteration c name item w = .ok w.store.size (w.inside c.frame name item) := by
  have hfree : (w.opened c.frame).store.defines w.store.size name = false := by
    rw [Store.defines_eq_false_iff, World.opened, Store.names_newFrame_size]
    exact List.not_mem_nil
  rw [enterIteration, bind_run_ok (newFrame_run c.frame w), bind_run_ok (define_of_free hfree item),
    pure_run]
  rfl

theorem iteration_run (invoke : Invoke) (c : Context) (name : String) (body : List Stmt)
    (item : Value) (w : World) : iteration invoke c name body item w =
      stmts invoke { c with frame := w.store.size } .nil body (w.inside c.frame name item) := by
  rw [iteration, bind_run_ok (enterIteration_run c name item w)]

/-- The frame of the iteration is the only one that is new or has got a name. -/
theorem grows_inside (w : World) (p : FrameId) (name : String) (item : Value) :
    World.Grows (some w.store.size) (w.opened p) (w.inside p name item) :=
  .of_store (.append _ _ _ name item)

theorem lt_size_inside (w : World) (p : FrameId) (name : String) (item : Value) :
    w.store.size < (w.inside p name item).store.size := by
  rw [World.inside, Store.size_append]
  exact w.lt_size_opened p

theorem grows_iteration (n : Nat) (c : Context) (name : String) (body : List Stmt) (item : Value)
    (w : World) : World.Grows none w (iteration (call n) c name body item w).state := by
  rw [iteration_run]
  exact ((grows_inside w c.frame name item).trans
    (Confined.stmts (call_confined n) { c with frame := w.store.size } .nil body _)).enclosed

theorem grows_forEach (n : Nat) (c : Context) (name : String) (body : List Stmt)
    (items : List Value) (w : World) :
    World.Grows none w (forEach (iteration (call n) c name body) items w).state :=
  have h : Confined none (forEach (iteration (call n) c name body) items) :=
    @Stepwise.forEach _ confined.toStepwise (iteration (call n) c name body)
      (iteration (call n) c name body) (fun item => grows_iteration n c name body item) items
  h w

/-! ## Statements of a block -/

theorem grows_stmt (n : Nat) (c : Context) (s : Stmt) (w : World) :
    World.Grows (some c.frame) w (stmt (call n) c s w).state :=
  @Stepwise.of_home _ confined.toStepwise _ _ (stmt (call n) c s) _ _
    (Confined.stmt (call_confined n) c s) w

/-- A branch opens its frame inside of the one that it stands in. -/
theorem opened_of_enterBranch {condition : Expr} {holds : Bool} {frame : FrameId}
    (h : enterBranch (call n) c condition w = .ok (holds, frame) w₁) :
    ∃ w₀, World.Grows none w w₀ ∧ frame = w₀.store.size ∧ w₁ = w₀.opened c.frame := by
  simp only [enterBranch, bind_run_eq_ok_iff, pure_run_eq_ok_iff] at h
  obtain ⟨_, w₂, htick, v, w₃, hexpr, b, w₄, hresult, f, w₅, hframe, heq, rfl⟩ := h
  obtain ⟨-, rfl⟩ := result_eq_ok hresult
  have hcharged := confined.tick c.meter trivial w
  have hcondition := Confined.expr (call_confined n) c condition w₂
  rw [htick] at hcharged
  rw [hexpr] at hcondition
  rw [newFrame_run] at hframe
  cases hframe
  cases heq
  exact ⟨_, hcharged.trans hcondition, rfl, rfl⟩

theorem grows_loopItems (n : Nat) (c : Context) (items : Expr) (w : World) :
    World.Grows none w (loopItems (call n) c items w).state :=
  ((confined.tick c.meter trivial).bind fun _ =>
    (Confined.expr (call_confined n) c items).bind fun v => confined.itemsOf v) w

/-- What is run in a new frame is run inside of the frame that it was opened in. -/
theorem within_of_opened {f : FrameId} {w₂ : World} (hc : f < w.store.size)
    (hw : World.Grows none w w₁)
    (hin : World.Grows (some w₁.store.size) (w₁.opened f) w₂) {g : FrameId}
    (hmem : w₁.store.size ∈ w₂.store.chain g) :
    World.Grows none w w₂ ∧ f ∈ w₂.store.chain g := by
  refine ⟨hw.trans hin.enclosed, w₂.store.mem_chain_trans ?_ hmem⟩
  have hlt : f < w₁.store.size := hc.trans_le hw.store.size_le
  have hparent : (w₁.opened f).store.parent? w₁.store.size = some f :=
    w₁.store.parent?_newFrame_size hlt
  rw [hin.store.chain_eq (w₁.lt_size_opened f), Store.chain_eq, hparent]
  exact List.mem_cons_of_mem _ (Store.mem_chain_self _ f)

/-- The statements that a run of a block comes to are run in frames inside of that of the block. -/
theorem Arrives.within (h : Arrives (call n) c body w c' s w') (hc : c.frame < w.store.size) :
    World.Grows (some c.frame) w w' ∧ c'.frame < w'.store.size ∧
      c.frame ∈ w'.store.chain c'.frame := by
  induction h with
  | @here c s rest w => exact ⟨.refl _ w, hc, w.store.mem_chain_self c.frame⟩
  | @next c c' s s' rest w w₁ w' v hs _ ih =>
    have hgrows := grows_stmt n c s w
    rw [hs] at hgrows
    obtain ⟨hrest, hlt, hmem⟩ := ih (hc.trans_le hgrows.store.size_le)
    exact ⟨hgrows.trans hrest, hlt, hmem⟩
  | @branch c c' condition thenBody elseBody rest s' w w₁ w' holds frame hentered _ ih =>
    obtain ⟨w₀, hw, rfl, rfl⟩ := opened_of_enterBranch hentered
    obtain ⟨hin, hlt, hmem⟩ := ih (w₀.lt_size_opened c.frame)
    obtain ⟨hgrows, hmem⟩ := within_of_opened hc hw hin hmem
    exact ⟨hgrows.weaken _, hlt, hmem⟩
  | @iteration c c' name items body rest s' w w₁ w₂ w₃ w' done remaining item v frame hitems hdone
      hentered _ ih =>
    have hw₁ := grows_loopItems n c items w
    have hw₂ := grows_forEach n c name body done w₁
    rw [hitems] at hw₁
    rw [hdone] at hw₂
    rw [enterIteration_run] at hentered
    cases hentered
    obtain ⟨hin, hlt, hmem⟩ := ih (lt_size_inside w₂ c.frame name item)
    obtain ⟨hgrows, hmem⟩ :=
      within_of_opened hc (hw₁.trans hw₂) ((grows_inside w₂ c.frame name item).trans hin) hmem
    exact ⟨hgrows.weaken _, hlt, hmem⟩

/-! ## All iterations -/

/-- The block of a loop, run for an item from the world before the iteration. -/
def visit (invoke : Invoke) (c : Context) (name : String) (body : List Stmt) (item : Value)
    (w : World) : EStateM.Result Stop World Completion :=
  stmts invoke { c with frame := w.store.size } .nil body (w.inside c.frame name item)

/-- What a loop does with its items: it visits one after another, each in the world that the visit
before has left, until a visit fails or returns. Every visit is kept with the world before it. -/
inductive Visits (visit : Value → World → EStateM.Result Stop World Completion) :
    List Value → World → List (Value × World) → EStateM.Result Stop World Completion → Prop where
  /-- There are no more items. -/
  | done {w : World} : Visits visit [] w [] (.ok (.normal .nil) w)
  /-- The next item comes after a visit that completes with a value. -/
  | next {item v : Value} {items : List Value} {w w' : World} {visits : List (Value × World)}
      {r : EStateM.Result Stop World Completion} :
      visit item w = .ok (.normal v) w' → Visits visit items w' visits r →
      Visits visit (item :: items) w ((item, w) :: visits) r
  /-- A visit that fails or returns is the last one. -/
  | last {item : Value} {items : List Value} {w : World} : Abrupt (visit item w) →
      Visits visit (item :: items) w [(item, w)] (visit item w)

/-- The outcome of a loop is that of its visits. -/
theorem forEach_eq_iff {run : Value → EvalM Completion} {items : List Value}
    {r : EStateM.Result Stop World Completion} :
    forEach run items w = r ↔ ∃ visits, Visits run items w visits r := by
  constructor
  · rintro rfl
    induction items generalizing w with
    | nil => exact ⟨[], .done⟩
    | cons item rest ih =>
      by_cases hnormal : ∃ v w', run item w = .ok (.normal v) w'
      · obtain ⟨v, w', hrun⟩ := hnormal
        obtain ⟨visits, hvisits⟩ := ih (w := w')
        exact ⟨(item, w) :: visits, forEach_of_normal hrun ▸ .next hrun hvisits⟩
      · have habrupt : Abrupt (run item w) := fun v w' hrun => hnormal ⟨v, w', hrun⟩
        exact ⟨[(item, w)], forEach_of_abrupt habrupt ▸ .last habrupt⟩
  · rintro ⟨visits, hvisits⟩
    induction hvisits with
    | done => rfl
    | next hrun _ ih => rw [forEach_of_normal hrun, ih]
    | last habrupt => exact forEach_of_abrupt habrupt

namespace Visits

variable {visit : Value → World → EStateM.Result Stop World Completion} {items : List Value}
  {visits : List (Value × World)} {r : EStateM.Result Stop World Completion}

/-- The items are visited in their order, and none twice. -/
theorem map_isPrefix (h : Visits visit items w visits r) : visits.map Prod.fst <+: items := by
  induction h with
  | done => exact List.prefix_rfl
  | next _ _ ih => exact (List.prefix_cons_inj _).mpr ih
  | last _ => exact ⟨_, rfl⟩

/-- A loop that completes has visited all of its items, and gives nothing. -/
theorem completes (h : Visits visit items w visits r) (hr : r = .ok (.normal v) w') :
    v = .nil ∧ visits.map Prod.fst = items := by
  induction h with
  | done =>
    cases hr
    exact ⟨rfl, rfl⟩
  | next _ _ ih =>
    obtain ⟨hv, hitems⟩ := ih hr
    exact ⟨hv, congrArg (_ :: ·) hitems⟩
  | last habrupt => exact absurd hr (habrupt v w')

/-- A loop that does not complete ends as its last visit does. -/
theorem ends (h : Visits visit items w visits r) (hr : Abrupt r) :
    ∃ earlier item u, visits = earlier ++ [(item, u)] ∧ r = visit item u := by
  induction h with
  | @done w => exact absurd rfl (hr .nil w)
  | @next item v items w w' visits r _ _ ih =>
    obtain ⟨earlier, item', u, rfl, hvisit⟩ := ih hr
    exact ⟨(item, w) :: earlier, item', u, rfl, hvisit⟩
  | @last item items w _ => exact ⟨[], item, w, rfl, rfl⟩

section

variable (hgrows : ∀ item w, World.Grows none w (visit item w).state)
include hgrows

theorem grows (h : Visits visit items w visits r) : ∀ p ∈ visits, World.Grows none w p.2 := by
  induction h with
  | done => nofun
  | @next item v items w w' visits r hvisit _ ih =>
    have hw := hgrows item w
    rw [hvisit] at hw
    exact List.forall_mem_cons.mpr ⟨.refl _ w, fun p hp => hw.trans (ih p hp)⟩
  | @last item items w _ => exact List.forall_mem_cons.mpr ⟨.refl _ w, nofun⟩

/-- Later visits find more frames. -/
theorem pairwise_size (h : Visits visit items w visits r)
    (hlt : ∀ item w, w.store.size < (visit item w).state.store.size) :
    visits.Pairwise fun p q => p.2.store.size < q.2.store.size := by
  induction h with
  | done => exact .nil
  | @next item v items w w' visits r hvisit hrest ih =>
    have hsize := hlt item w
    rw [hvisit] at hsize
    refine .cons (fun q hq => ?_) ih
    exact hsize.trans_le (hrest.grows hgrows q hq).store.size_le
  | @last item items w _ => exact .cons nofun .nil

end

end Visits

theorem iteration_eq_visit (invoke : Invoke) (c : Context) (name : String) (body : List Stmt) :
    iteration invoke c name body = visit invoke c name body :=
  funext fun item => funext fun w => iteration_run invoke c name body item w

/-- A loop fails where its items do, and goes on with its visits if it finds them. -/
theorem stmt_forEach_eq_iff {invoke : Invoke} {items : Expr}
    {r : EStateM.Result Stop World Completion} :
    stmt invoke c (.forEach name items body) w = r ↔
      (∃ e w₁, loopItems invoke c items w = .error e w₁ ∧ r = .error e w₁) ∨
      ∃ values w₁ visits, loopItems invoke c items w = .ok values w₁ ∧
        Visits (visit invoke c name body) values w₁ visits r := by
  rw [stmt_forEach, bind_run, iteration_eq_visit]
  cases loopItems invoke c items w with
  | error e w₁ =>
    constructor
    · rintro rfl
      exact .inl ⟨e, w₁, rfl, rfl⟩
    · rintro (⟨_, _, ⟨⟩, rfl⟩ | ⟨_, _, _, ⟨⟩, _⟩)
      rfl
  | ok values w₁ =>
    constructor
    · intro hr
      obtain ⟨visits, hvisits⟩ := forEach_eq_iff.mp hr
      exact .inr ⟨values, w₁, visits, rfl, hvisits⟩
    · rintro (⟨_, _, ⟨⟩, _⟩ | ⟨_, _, visits, ⟨⟩, hvisits⟩)
      exact forEach_eq_iff.mpr ⟨visits, hvisits⟩

theorem grows_visit (n : Nat) (c : Context) (name : String) (body : List Stmt) (item : Value)
    (w : World) :
    World.Grows (some w.store.size) (w.inside c.frame name item)
      (visit (call n) c name body item w).state :=
  Confined.stmts (call_confined n) { c with frame := w.store.size } .nil body _

/-! ## The frame of an iteration -/

/-- The frame of an iteration holds the variable of the loop and nothing else when its block starts,
and no other frame has changed. -/
theorem bindings_inside (w : World) (p : FrameId) (name : String) (item : Value) (g : FrameId) :
    (w.inside p name item).store.bindings g =
      if g = w.store.size then [(name, item)] else w.store.bindings g := by
  have hopened (g : FrameId) : (w.opened p).store.bindings g = w.store.bindings g :=
    w.store.bindings_newFrame _ g
  rw [World.inside, Store.bindings_append, hopened]
  by_cases hg : g = w.store.size
  · rw [if_pos ⟨hg.symm, w.lt_size_opened p⟩, if_pos hg, hg, w.store.bindings_of_size_le le_rfl, List.nil_append]
  · rw [if_neg fun h => hg h.1.symm, if_neg hg]

theorem parent?_inside (w : World) {p : FrameId} (hp : p < w.store.size) (name : String)
    (item : Value) (g : FrameId) : (w.inside p name item).store.parent? g =
      if g = w.store.size then some p else w.store.parent? g := by
  have hparent : (some p).filter (fun p => decide (p < w.store.size)) = some p := by
    simp [Option.filter, hp]
  rw [World.inside, Store.parent?_append, World.opened, Store.parent?_newFrame, hparent]

/-- The chain of the frame of an iteration goes on with that of the frame of the loop, for good. -/
theorem chain_of_inside {p : FrameId} (hp : p < w.store.size) {g : Option FrameId} {later : World}
    (hlater : World.Grows g (w.inside p name item) later) :
    later.store.chain w.store.size = w.store.size :: later.store.chain p := by
  have hparent := hlater.store.parent_eq _ (lt_size_inside w p name item)
  rw [later.store.chain_eq, hparent, parent?_inside w hp, if_pos rfl]
  rfl

/-- No chain holds the frames of two iterations. -/
theorem eq_of_mem_chain {u : World} {p : FrameId} (hpu : p < u.store.size)
    (hpw : p < w.store.size) {g h : Option FrameId} {later : World} {name : String}
    {item item' : Value} (hu : World.Grows g (u.inside p name item) later)
    (hw : World.Grows h (w.inside p name item') later) {f : FrameId}
    (humem : u.store.size ∈ later.store.chain f) (hwmem : w.store.size ∈ later.store.chain f) :
    u.store.size = w.store.size := by
  -- a frame of an iteration is not in the chain of another one, which goes on with that of the loop
  have hapart {u w : World} {item : Value} {h : Option FrameId} (hpu : p < u.store.size)
      (hpw : p < w.store.size) (hw : World.Grows h (w.inside p name item) later)
      (hmem : u.store.size ∈ later.store.chain w.store.size) : u.store.size = w.store.size := by
    rw [chain_of_inside hpw hw, List.mem_cons] at hmem
    rcases hmem with heq | hmem
    · exact heq
    · exact absurd (later.store.le_of_mem_chain hmem) (Nat.not_le_of_lt hpu)
  rcases later.store.mem_chain_total humem hwmem with hmem | hmem
  · exact hapart hpu hpw hw hmem
  · exact (hapart hpw hpu hu hmem).symm

end Eval

/-! ## Functions of an iteration -/

/-- Calls of the function in `w` read the frame `f`. -/
structure World.Reads (w : World) (k : Closure) (f : FrameId) : Prop where
  /-- The frame is one of those around the function. -/
  mem_chain : f ∈ w.store.chain k.captured
  /-- What a call does not bind means what it means around the function. -/
  lookup_eq : ∀ arguments frame w', Eval.Enters k arguments w frame w' → ∀ x ∉ k.bindings,
    w'.store.lookup frame x = w.store.lookup k.captured x
  /-- Its value is that in `f`, unless a frame in between defines the name. -/
  own_eq : ∀ arguments frame w', Eval.Enters k arguments w frame w' → ∀ x ∉ k.bindings,
    w.store.owner? k.captured x = some f → w'.store.lookup frame x = w.store.own? f x

namespace Eval

variable {k : Closure} {arguments : List Value} {frame f : FrameId} {w w' : World}

theorem store_of_defineAll {u : Unit} {bindings : List (String × Value)}
    (h : defineAll f bindings w = .ok u w') : w'.store = w.store.appendAll f bindings := by
  induction bindings generalizing w with
  | nil =>
    cases h
    rfl
  | cons b rest ih =>
    obtain ⟨_, w₁, hdefine, hrest⟩ := bind_run_eq_ok_iff.mp h
    obtain ⟨-, rfl⟩ := define_eq_ok hdefine
    exact ih hrest

/-- A call runs in a frame that holds its arguments, inside of the one that the function remembers.
-/
theorem Enters.store_eq (h : Enters k arguments w frame w') : frame = w.store.size ∧
    w'.store = (w.store.newFrame (some k.captured)).2.appendAll frame
      (k.bindings.zip arguments) := by
  have hbound := h.bound
  simp only [enterBody, bind_run_eq_ok_iff, pure_run_eq_ok_iff] at hbound
  obtain ⟨_, _, hframe, _, _, hdefine, rfl, rfl⟩ := hbound
  rw [newFrame_run] at hframe
  cases hframe
  exact ⟨rfl, store_of_defineAll hdefine⟩

theorem Enters.lookup_eq (h : Enters k arguments w frame w') (hk : k.captured < w.store.size)
    {x : String} (hx : x ∉ k.bindings) :
    w'.store.lookup frame x = w.store.lookup k.captured x := by
  obtain ⟨rfl, hstore⟩ := h.store_eq
  rw [hstore]
  generalize hbindings : k.bindings.zip arguments = bindings
  let t := (w.store.newFrame (some k.captured)).2
  have hparent : (t.appendAll w.store.size bindings).parent? w.store.size = some k.captured := by
    rw [Store.parent?_appendAll]
    exact w.store.parent?_newFrame_size hk
  have hnone : (t.appendAll w.store.size bindings).own? w.store.size x = none := by
    rw [Store.own?, Store.bindings_appendAll, if_pos ⟨rfl, by simp [t]⟩, Store.bindings_newFrame,
      w.store.bindings_of_size_le le_rfl, List.nil_append, List.lookup_eq_none_iff]
    intro b hb
    rw [← hbindings] at hb
    exact bne_iff_ne.mpr fun heq => hx (heq ▸ (List.of_mem_zip hb).1)
  have hgrows : Store.Grows id (some w.store.size) w.store (t.appendAll w.store.size bindings) :=
    ((Store.Grows.newFrame id w.store _).weaken _).trans (.appendAll id t _ bindings)
  rw [Store.lookup, Store.chain_eq, hparent, List.findSome?_cons, hnone]
  exact hgrows.lookup_eq hk (fun g hg heq => absurd (w.store.le_of_mem_chain hg)
    (Nat.not_le_of_lt (Option.some.inj heq ▸ hk))) x

theorem reads_of_mem_chain (hk : k.captured < w.store.size)
    (hf : f ∈ w.store.chain k.captured) : w.Reads k f := by
  refine ⟨hf, fun _ _ _ h x hx => h.lookup_eq hk hx, fun _ _ _ h x hx howner => ?_⟩
  rw [h.lookup_eq hk hx, Store.lookup_eq, howner, Option.bind_some]

/-- A function and its code last. -/
theorem code_of_grows {g : Option FrameId} (h : World.Grows g w w') {id : FunctionId}
    (hcode : (w.function id).code = .closure k) : (w'.function id).code = .closure k := by
  have hid : id < w.functions.size := by
    by_contra hle
    rw [World.function_of_size_le (Nat.le_of_not_lt hle)] at hcode
    cases hcode
  rw [World.function_of_lt hid] at hcode
  have hid' : id < w'.functions.size := hid.trans_le h.functions.length_le
  rw [World.function_of_lt hid', ← Array.getElem_toList, ← h.functions.getElem (by simpa using hid)]
  exact hcode

end Eval

/-! ## Loops -/

namespace Eval

/-- How an iteration for `item` that starts in `u` stands apart from everything else. -/
structure Apart (n : Nat) (c : Context) (name : String) (body : List Stmt) (item : Value)
    (u : World) : Prop where
  /-- The frame of the iteration is inside of that of the loop. -/
  parent : (u.inside c.frame name item).store.parent? u.store.size = some c.frame
  /-- It holds the variable of the loop and nothing else. -/
  bindings : (u.inside c.frame name item).store.bindings u.store.size = [(name, item)]
  /-- No other frame is touched. -/
  others : ∀ g ≠ u.store.size,
    (u.inside c.frame name item).store.bindings g = u.store.bindings g ∧
    (u.inside c.frame name item).store.parent? g = u.store.parent? g
  /-- A function that the block defines, be it inside of branches and loops, is made inside of the
  frame of the iteration. -/
  defined : ∀ c' d w₁ v w₂, Arrives (call n) { c with frame := u.store.size } body
      (u.inside c.frame name item) c' (.define d) w₁ →
    stmt (call n) c' (.define d) w₁ = .ok (.normal v) w₂ →
    ∃ id k, v = .function id ∧ (w₂.function id).code = .closure k ∧
      k.captured < w₂.store.size ∧ u.store.size ∈ w₂.store.chain k.captured
  /-- All functions that are made during the iteration, methods of objects among them, are made
  inside of the frame of the iteration, or in a call of a function that was there before. -/
  made : ∀ id k, u.functions.size ≤ id →
    ((visit (call n) c name body item u).state.function id).code = .closure k →
    k.captured < (visit (call n) c name body item u).state.store.size ∧
    u.Belongs (visit (call n) c name body item u).state k.captured
  /-- A function that was made inside of the frame reads it for good. -/
  reads : ∀ id k w₁ g later, (w₁.function id).code = .closure k →
    k.captured < w₁.store.size → u.store.size ∈ w₁.store.chain k.captured →
    World.Grows g w₁ later →
    (later.function id).code = .closure k ∧ later.Reads k u.store.size
  /-- The variable of the loop stays bound in the frame. -/
  bound : ∀ g later, World.Grows g (u.inside c.frame name item) later →
    name ∈ later.store.names u.store.size

variable {n : Nat} {c c' : Context} {name : String} {body : List Stmt} {item v : Value}
  {u w w₁ w₂ : World} {d : Definition}

/-- A definition makes a function that remembers the frame of its block. -/
theorem closure_of_define {invoke : Invoke}
    (h : stmt invoke c (.define d) w = .ok (.normal v) w₁) :
    ∃ id k, v = .function id ∧ (w₁.function id).code = .closure k ∧ k.captured = c.frame := by
  simp only [stmt, bind_run_eq_ok_iff, pure_run_eq_ok_iff] at h
  obtain ⟨_, _, -, _, w₀, -, id, _, hclosure, _, _, hdefine, hnormal, rfl⟩ := h
  obtain ⟨rfl, rfl⟩ := newClosure_eq_ok hclosure
  obtain ⟨-, rfl⟩ := define_eq_ok hdefine
  cases hnormal
  have hmade := w₀.function_withFunction (d.function c.frame c.meter false) w₀.functions.size
  rw [if_pos rfl] at hmade
  exact ⟨_, _, rfl, congrArg Function.code hmade, rfl⟩

theorem apart (n : Nat) {c : Context} (name : String) (body : List Stmt) (item : Value) {u : World}
    (hc : c.frame < u.store.size) : Apart n c name body item u where
  parent := by rw [parent?_inside u hc, if_pos rfl]
  bindings := by rw [bindings_inside, if_pos rfl]
  others g hg := by
    rw [bindings_inside, if_neg hg, parent?_inside u hc, if_neg hg]
    exact ⟨rfl, rfl⟩
  defined c' d w₁ v w₂ harrives hrun := by
    obtain ⟨-, hlt, hmem⟩ := harrives.within (lt_size_inside u c.frame name item)
    have hgrows := grows_stmt n c' (.define d) w₁
    rw [hrun] at hgrows
    obtain ⟨id, k, hv, hcode, hcaptured⟩ := closure_of_define hrun
    rw [← hcaptured] at hlt hmem
    refine ⟨id, k, hv, hcode, hlt.trans_le hgrows.store.size_le, ?_⟩
    rwa [← hgrows.store.chain_eq hlt] at hmem
  made id k hid hcode := by
    have hlt := lt_size_inside u c.frame name item
    have hstart : u.Noted {u.store.size} (u.inside c.frame name item) := by
      refine ⟨hlt, le_rfl, fun _ _ => rfl, fun g hg => ?_, fun id hid k hk => ?_⟩
      · obtain rfl := Set.mem_singleton_iff.mp hg
        exact ⟨hlt, .inl (Store.mem_chain_self _ _)⟩
      · rw [World.function_of_size_le (w := u.inside c.frame name item) hid] at hk
        cases hk
    obtain ⟨frames, hnoted⟩ : ∃ frames,
        u.Noted frames (visit (call n) c name body item u).state :=
      noted_stmts n hstart rfl
    exact hnoted.belongs _ (hnoted.made id hid k hcode)
  reads id k w₁ g later hcode hk hmem hgrows := by
    refine ⟨code_of_grows hgrows hcode, reads_of_mem_chain (hk.trans_le hgrows.store.size_le) ?_⟩
    rwa [hgrows.store.chain_eq hk]
  bound g later hgrows := by
    refine hgrows.store.names_subset (lt_size_inside u c.frame name item) ?_
    rw [Store.names, bindings_inside, if_pos rfl]
    exact List.mem_singleton_self name

/-- What a call of `range` gives: the numbers that counting up from `a` to `b` passes, in order. -/
structure GivesRange (id : FunctionId) (a b : Int) (w : World) (range : List Int) : Prop where
  countsUp : CountsUp b a range
  ascending : range.Pairwise (· < ·)
  mem_iff (x : Int) : x ∈ range ↔ a ≤ x ∧ x ≤ b
  call_eq (n : Nat) :
    call n id [.integer a, .integer b] w = .ok (.list (range.map .integer)) w

/-- What is known of the visits of a loop over the values, which end in `r`. -/
structure VisitsInOrder (n : Nat) (c : Context) (name : String) (body : List Stmt)
    (values : List Value) (visits : List (Value × World))
    (r : EStateM.Result Stop World Completion) : Prop where
  /-- The items are visited in order. -/
  items : visits.map Prod.fst <+: values
  /-- A loop that completes has visited all items, and gives nothing. -/
  completes (v : Value) (w : World) : r = .ok (.normal v) w →
    v = .nil ∧ visits.map Prod.fst = values
  /-- A loop that fails or returns ends as its last visit does. -/
  ends : Abrupt r → ∃ earlier item u, visits = earlier ++ [(item, u)] ∧
    r = visit (call n) c name body item u
  /-- Each visit has a frame of its own, newer than those of the visits before. -/
  frames : visits.Pairwise fun p q => p.2.store.size < q.2.store.size
  /-- Each visit stands apart from everything else. -/
  apart : ∀ p ∈ visits, Apart n c name body p.1 p.2
  /-- No frame is inside of the frames of two visits. -/
  separate : ∀ p ∈ visits, ∀ q ∈ visits, ∀ g h later,
    World.Grows g (p.2.inside c.frame name p.1) later →
    World.Grows h (q.2.inside c.frame name q.1) later →
    ∀ f, p.2.store.size ∈ later.store.chain f → q.2.store.size ∈ later.store.chain f → p = q

/-- The loop, started in `w`, goes through the list that it finds. -/
structure VisitsItems (n : Nat) (c : Context) (w : World) (name : String) (items : Expr)
    (body : List Stmt) : Prop where
  /-- A range from one bound to another is a list of whole numbers. -/
  range (id : FunctionId) (a b : Int) (w : World) : (w.function id).code = .host .range →
    ∃ range, GivesRange id a b w range
  /-- The loop finds its list once and then visits the items; it ends as the visits do. -/
  outcome (r : EStateM.Result Stop World Completion) :
    stmt (call n) c (.forEach name items body) w = r ↔
      (∃ e w₁, loopItems (call n) c items w = .error e w₁ ∧ r = .error e w₁) ∨
      ∃ values w₁ visits, loopItems (call n) c items w = .ok values w₁ ∧
        Visits (visit (call n) c name body) values w₁ visits r
  /-- The visits are those of the list that was found. -/
  visited (values : List Value) (w₁ : World) (visits : List (Value × World))
    (r : EStateM.Result Stop World Completion) :
    loopItems (call n) c items w = .ok values w₁ →
    Visits (visit (call n) c name body) values w₁ visits r →
    VisitsInOrder n c name body values visits r

/-- A range from one bound to another ends with the list of the numbers that counting up passes, in
order. A loop finds its list once, and then visits the items of the list one after another, each of
them in an iteration that stands apart, until one fails or returns; then it ends in the same way,
and otherwise it gives nothing. Which items are visited is settled before the first iteration,
whatever the iterations do to the variable of the loop and to other variables. -/
theorem loop_visits_items (n : Nat) {c : Context} {w : World} (name : String) (items : Expr)
    (body : List Stmt) (hc : c.frame < w.store.size) : VisitsItems n c w name items body where
  range id a b w hcode := ⟨integersBetween a b, countsUp_integersBetween a b,
    pairwise_integersBetween a b, fun _ => mem_integersBetween, fun n => call_range hcode n a b⟩
  outcome _ := stmt_forEach_eq_iff
  visited values w₁ visits r hitems hvisits := by
    have hw₁ := grows_loopItems n c items w
    rw [hitems] at hw₁
    have hstep (item : Value) (u : World) :
        World.Grows none u (visit (call n) c name body item u).state :=
      iteration_eq_visit (call n) c name body ▸ grows_iteration n c name body item u
    have hframes : visits.Pairwise fun p q => p.2.store.size < q.2.store.size := by
      refine hvisits.pairwise_size hstep fun item u => ?_
      have hsize := (grows_visit n c name body item u).store.size_le
      exact (lt_size_inside u c.frame name item).trans_le hsize
    have hlt : ∀ p ∈ visits, c.frame < p.2.store.size := fun p hp =>
      hc.trans_le (hw₁.store.size_le.trans (hvisits.grows hstep p hp).store.size_le)
    refine ⟨hvisits.map_isPrefix, fun v w' hr => hvisits.completes hr, hvisits.ends, hframes,
      fun p hp => apart n name body p.1 (hlt p hp), fun p hp q hq g h later hpu hqu f hpf hqf => ?_⟩
    have hsize := eq_of_mem_chain (hlt p hp) (hlt q hq) hpu hqu hpf hqf
    have hnodup : (visits.map fun p => p.2.store.size).Nodup :=
      List.pairwise_map.mpr (hframes.imp Nat.ne_of_lt)
    exact List.inj_on_of_nodup_map hnodup hp hq hsize

/-- A world in which `xs` is a list and `first` is empty. -/
def pickingWorld : World :=
  (stmts (call 5) ⟨1, 0⟩ .nil
    [.declare ⟨"xs", none, some (.call "range" [.literal (.integer 1), .literal (.integer 3)])⟩,
      .declare ⟨"first", none, none⟩] (isolatedWorld.withMeter {})).state

/-- A block that makes a function which gives the variable `i`, keeps the first such function, and
then changes the variable and throws the list away. -/
def picking : List Stmt :=
  [.define ⟨"get", [], none, [.ret (some (.variable "i"))]⟩,
    .branch (.binary .eq (.variable "i") (.literal (.integer 1)))
      [.assign (.variable "first") (.variable "get")] [],
    .assign (.variable "i") (.binary .mul (.variable "i") (.literal (.integer 10))),
    .assign (.variable "xs") (.literal .nil)]

/-- The world after a loop over the list. -/
def pickedWorld : World :=
  (stmt (call 5) ⟨1, 0⟩ (.forEach "i" (.variable "xs") picking) pickingWorld).state

/-- The loop runs the block three times all the same. The function that was kept gives the variable
of the first iteration, with the value that it was changed to. -/
theorem loop_visits_items_picking : 1 < pickingWorld.store.size ∧
    (∃ w₁ visits, loopItems (call 5) ⟨1, 0⟩ (.variable "xs") pickingWorld =
        .ok [.integer 1, .integer 2, .integer 3] w₁ ∧
      Visits (visit (call 5) ⟨1, 0⟩ "i" picking) [.integer 1, .integer 2, .integer 3] w₁ visits
        (.ok (.normal .nil) pickedWorld) ∧
      visits.map Prod.fst = [.integer 1, .integer 2, .integer 3] ∧
      ∀ p ∈ visits, Apart 5 ⟨1, 0⟩ "i" picking p.1 p.2) ∧
    pickedWorld.store.lookup 1 "xs" = some .nil ∧
    ∃ w, expr (call 5) ⟨1, 0⟩ (.call "first" []) pickedWorld = .ok (.integer 10) w := by
  have hc : 1 < pickingWorld.store.size := by decide +kernel
  have hitems : loopItems (call 5) ⟨1, 0⟩ (.variable "xs") pickingWorld =
      .ok [.integer 1, .integer 2, .integer 3]
        (loopItems (call 5) ⟨1, 0⟩ (.variable "xs") pickingWorld).state :=
    EStateM.Result.eq_ok_of_value? (by decide +kernel)
  have hloop : stmt (call 5) ⟨1, 0⟩ (.forEach "i" (.variable "xs") picking) pickingWorld =
      .ok (.normal .nil) pickedWorld :=
    EStateM.Result.eq_ok_of_value? (by decide +kernel)
  have hlist : pickedWorld.store.lookup 1 "xs" = some .nil := by decide +kernel
  have hcall : expr (call 5) ⟨1, 0⟩ (.call "first" []) pickedWorld =
      .ok (.integer 10) (expr (call 5) ⟨1, 0⟩ (.call "first" []) pickedWorld).state :=
    EStateM.Result.eq_ok_of_value? (by decide +kernel)
  have hloops : VisitsItems 5 ⟨1, 0⟩ pickingWorld "i" (.variable "xs") picking :=
    loop_visits_items 5 "i" (.variable "xs") picking hc
  rcases (hloops.outcome _).mp hloop with ⟨_, _, _, hr⟩ | ⟨values, w₁, visits, hvalues, hvisits⟩
  · cases hr
  · have hvisited := hloops.visited values w₁ visits _ hvalues hvisits
    have hfound : [.integer 1, .integer 2, .integer 3] = values :=
      (EStateM.Result.ok.inj (hitems.symm.trans hvalues)).1
    subst hfound
    exact ⟨hc, ⟨w₁, visits, hvalues, hvisits, (hvisited.completes _ _ rfl).2,
      hvisited.apart⟩, hlist, _, hcall⟩

end Eval

end ObjectLang
