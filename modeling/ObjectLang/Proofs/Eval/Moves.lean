import ObjectLang.Proofs.Eval.Region

/-!
# What runs in a region do to the world

Each step of a run in a region changes the world in one of a few ways, which `World.Move` lists.
None of them leads out of the region. So what is kept by every move, as long as nothing leads out of
the region, is kept by every run that is put together from permitted steps. -/

namespace ObjectLang

variable {V : Vocabulary} {S : Region} {w w' : World}

/-! ## What is in the region -/

namespace World.Encloses

variable (h : w.Encloses V S) {f : FrameId} {name : String} {v : Value}
include h

theorem mem_frames_of_mem_chain (hf : f ∈ S.frames) {g : FrameId} (hg : g ∈ w.store.chain f) :
    g ∈ S.frames := by
  induction f using Nat.strong_induction_on with
  | _ f ih =>
    rw [w.store.chain_eq, List.mem_cons] at hg
    rcases hg with rfl | hg
    · exact hf
    · cases hp : w.store.parent? f with
      | none => simp [hp] at hg
      | some p =>
        rw [hp] at hg
        exact ih p (w.store.parent?_lt hp) (h.parent f hf p hp) hg

theorem within_of_own? (hf : f ∈ S.frames) (hname : name ∈ V.names)
    (hv : w.store.own? f name = some v) : v.Within S :=
  h.bound f hf _ (mem_of_lookup_eq_some hv) (.inl hname)

theorem within_of_lookup (hf : f ∈ S.frames) (hname : name ∈ V.names)
    (hv : w.store.lookup f name = some v) : v.Within S := by
  obtain ⟨g, hg, hown⟩ := List.exists_of_findSome?_eq_some hv
  exact h.within_of_own? (h.mem_frames_of_mem_chain hf hg) hname hown

theorem mem_frames_of_owner? (hf : f ∈ S.frames) {g : FrameId}
    (hg : w.store.owner? f name = some g) : g ∈ S.frames :=
  h.mem_frames_of_mem_chain hf (List.mem_of_find?_eq_some hg)

/-- The next frame belongs to the region. -/
theorem size_mem : w.store.size ∈ S.members := h.newFrames _ le_rfl

end World.Encloses

/-! ## Moves -/

/-- What a step in the region does to the world. -/
inductive World.Move (V : Vocabulary) (S : Region) : World → World → Prop where
  | stay {w : World} : Move V S w w
  | charge {w : World} (m : MeterId) : Move V S w (w.charge m)
  | enter {w : World} (m : MeterId) : Move V S w (w.enter m)
  | leave {w : World} (m : MeterId) : Move V S w (w.leave m)
  | opened {w : World} {p : FrameId} : p ∈ S.frames → Move V S w (w.opened p)
  | append {w : World} {f : FrameId} {name : String} {v : Value} : f ∈ S.frames →
      name ∈ V.names → v.Within S → Move V S w { w with store := w.store.append f name v }
  | function {w : World} {function : Function} : function.WrittenIn V S →
      Move V S w (w.withFunction function)
  | replace {w : World} {f : FrameId} {name : String} {v : Value} : V.assigns → f ∈ S.frames →
      name ∈ V.names → v.Within S → Move V S w { w with store := w.store.replace f name v }
  | print {w : World} (text : String) : Move V S w { w with printed := w.printed.push text }
  | log {w : World} {v : Value} : v.Within S →
      Move V S w { w with logged := w.logged.push v }

namespace World

/-- A region is enclosed by a world with the same frames and functions. -/
theorem Encloses.congr (h : w.Encloses V S) (hstore : w'.store = w.store)
    (hfunctions : w'.functions = w.functions) : w'.Encloses V S := by
  constructor
  · rw [hstore]
    exact h.parent
  · rw [hstore]
    exact h.bound
  · intro id hid
    rw [function, hfunctions]
    exact h.code id hid
  · rw [hstore]
    exact h.newFrames
  · rw [hfunctions]
    exact h.newFunctions

theorem Encloses.opened (h : w.Encloses V S) {p : FrameId} (hp : p ∈ S.frames) :
    (w.opened p).Encloses V S := by
  refine ⟨fun f hf q hq => ?_, fun f hf b hb => ?_, h.code, fun f hf => ?_, h.newFunctions⟩
  · rw [World.opened, Store.parent?_newFrame] at hq
    split at hq
    · obtain ⟨heq, -⟩ := Option.filter_eq_some_iff.mp hq
      exact Option.some.inj heq ▸ hp
    · exact h.parent f hf q hq
  · rw [World.opened, Store.bindings_newFrame] at hb
    exact h.bound f hf b hb
  · rw [World.opened, Store.size_newFrame] at hf
    exact h.newFrames f (Nat.le_of_succ_le hf)

/-- A region stays enclosed when a binding in it gets a value of the region. -/
theorem Encloses.modify (h : w.Encloses V S) {f : FrameId} {name : String} {v : Value}
    (hv : v.Within S) {g : List (String × Value) → List (String × Value)}
    (hg : ∀ l, ∀ b ∈ g l, b = (name, v) ∨ b ∈ l) :
    ({ w with store := w.store.modify f g } : World).Encloses V S := by
  refine ⟨fun f' hf' p hp => ?_, fun f' hf' b hb hread => ?_, h.code, fun f' hf' => ?_,
    h.newFunctions⟩
  · rw [Store.parent?_modify] at hp
    exact h.parent f' hf' p hp
  · rw [Store.bindings_modify] at hb
    split at hb
    · rcases hg _ b hb with rfl | hold
      · exact hv
      · exact h.bound f' hf' b hold hread
    · exact h.bound f' hf' b hb hread
  · rw [Store.size_modify] at hf'
    exact h.newFrames f' hf'

theorem Encloses.withFunction (h : w.Encloses V S) {function : Function}
    (hfunction : function.WrittenIn V S) : (w.withFunction function).Encloses V S := by
  refine ⟨h.parent, h.bound, fun id hid => ?_, h.newFrames, fun id hid => ?_⟩
  · rw [function_withFunction]
    split
    · exact hfunction
    · exact h.code id hid
  · rw [World.withFunction, Array.size_push] at hid
    exact h.newFunctions id (Nat.le_of_succ_le hid)

/-- No move leads out of the region. -/
theorem Encloses.move (h : w.Encloses V S) (hmove : Move V S w w') : w'.Encloses V S := by
  cases hmove with
  | stay => exact h
  | charge | enter | leave | print | log => exact h.congr rfl rfl
  | opened hp => exact h.opened hp
  | append _ _ hv => exact h.modify hv fun l b hb => by simpa [or_comm] using hb
  | function hfunction => exact h.withFunction hfunction
  | @replace f name v _ _ _ hv =>
    have hrebind : ∀ l, ∀ b ∈ Store.rebind name v l, b = (name, v) ∨ b ∈ l := by
      intro l b hb
      obtain ⟨b', hb', rfl⟩ := List.mem_map.mp hb
      split
      · exact .inl rfl
      · exact .inr hb'
    exact h.modify hv hrebind

end World

namespace Eval

open World (Move)

/-! ## Steps -/

/-- A run moves the world, and what it gives if it succeeds is as `P` says. -/
structure Moves (V : Vocabulary) (S : Region) (w : World) {α : Type}
    (r : EStateM.Result Stop World α) (P : α → Prop) : Prop where
  move : Move V S w r.state
  result : ∀ a w', r = .ok a w' → P a

namespace Moves

variable {α : Type} {P : α → Prop}

theorem ok {a : α} (hmove : Move V S w w') (h : P a) : Moves V S w (.ok a w') P :=
  ⟨hmove, fun _ _ heq => by cases heq; exact h⟩

theorem error {e : Stop} (hmove : Move V S w w') : Moves V S w (.error e w') P :=
  ⟨hmove, fun _ _ heq => by cases heq⟩

end Moves

theorem moves_oneArgument {name : String} {arguments : List Value} {k : Value → EvalM Value}
    (harguments : ∀ v ∈ arguments, v.Within S)
    (hk : ∀ v : Value, v.Within S → Moves V S w (k v w) (·.Within S)) :
    Moves V S w ((oneArgument name arguments >>= k) w) (·.Within S) := by
  match arguments, harguments with
  | [v], h => exact hk v (h v List.mem_cons_self)
  | [], _ => exact .error .stay
  | _ :: _ :: _, _ => exact .error .stay

theorem moves_host (name : String) (f : HostFunction) {arguments : List Value}
    (harguments : ∀ v ∈ arguments, v.Within S) :
    Moves V S w (host name f arguments w) (·.Within S) := by
  unfold host
  split
  · exact moves_oneArgument harguments fun v hv => .ok (.log hv) hv
  · exact moves_oneArgument harguments fun v hv => .ok (.print _) trivial
  · exact .ok .stay (Value.allWithin_iff.mpr harguments)
  · split
    · refine .ok .stay (Value.allWithin_iff.mpr fun v hv => ?_)
      obtain ⟨_, -, rfl⟩ := List.mem_map.mp hv
      trivial
    · exact .error .stay
    · exact .error .stay
  · split
    · exact .ok .stay trivial
    · exact .error .stay
  · exact moves_oneArgument harguments fun v hv => .error .stay
  · exact .ok .stay trivial

theorem writtenIn_function {c : Context} {d : Definition} {captured : FrameId} {isMethod : Bool}
    (hd : d.WrittenIn V) (hcaptured : captured ∈ S.frames)
    (hthis : isMethod = true → thisName ∈ V.names) :
    (d.function captured c.meter isMethod).WrittenIn V S := by
  obtain ⟨-, hparameters, hbody⟩ := Definition.writtenIn_iff.mp hd
  rintro _ ⟨⟩
  have hnames : ∀ name ∈ d.parameters.map (·.name), name ∈ V.names := by
    intro name hname
    obtain ⟨p, hp, rfl⟩ := List.mem_map.mp hname
    exact hparameters p hp
  refine ⟨?_, hbody, hcaptured⟩
  cases isMethod with
  | true => exact List.forall_mem_cons.mpr ⟨hthis rfl, hnames⟩
  | false => exact hnames

/-- What permitted steps do to a world that leads nowhere out of the region. -/
theorem Permitted.moves {α : Type} {x : EvalM α} {P : α → Prop} (hx : Permitted V S x P)
    (h : w.Encloses V S) : Moves V S w (x w) P := by
  cases hx with
  | tick m =>
    rw [tick_run]
    dsimp only
    split
    · exact .error (.charge m)
    · exact .ok (.charge m) trivial
  | allow m =>
    unfold Eval.allow
    split
    · exact .error .stay
    · exact .ok (.enter m) trivial
  | @outcome α r _ hP =>
    cases r with
    | ok a => exact .ok .stay (hP a rfl)
    | error e => exact .error .stay
  | @apply op a b _ _ =>
    rw [get_bind_run]
    cases hr : op.apply w.print a b with
    | ok v => exact .ok .stay (Operator.within_of_apply hr)
    | error e => exact .error .stay
  | @lookup f name hf hname =>
    unfold Eval.lookup
    rw [get_bind_run]
    cases hv : w.store.lookup f name with
    | none => exact .error .stay
    | some v => exact .ok .stay (h.within_of_lookup hf hname hv)
  | @member members name hmembers hname =>
    unfold Eval.member
    rw [get_bind_run]
    cases hv : w.store.own? members name with
    | none => exact .error .stay
    | some v => exact .ok .stay (h.within_of_own? (S.members_subset hmembers) hname hv)
  | newFrame hp => exact .ok (.opened hp) ⟨S.members_subset h.size_mem, h.size_mem⟩
  | @requireFree f name hf hname =>
    cases hd : w.store.defines f name with
    | true =>
      rw [requireFree_of_defines hd]
      exact .error .stay
    | false =>
      rw [requireFree_of_free hd]
      exact .ok .stay trivial
  | @define f name v hf hname hv =>
    cases hd : w.store.defines f name with
    | true =>
      rw [define_of_defines hd]
      exact .error .stay
    | false =>
      rw [define_of_free hd]
      exact .ok (.append hf hname hv) trivial
  | @newClosure c d captured isMethod hd hcaptured hthis =>
    cases hrepeated : firstRepeated? [] (d.parameters.map (·.name)) with
    | some name =>
      rw [newClosure_of_repeated w hrepeated]
      exact .error .stay
    | none =>
      rw [newClosure_of_distinct w hrepeated]
      exact .ok (.function (writtenIn_function hd hcaptured hthis)) (h.newFunctions _ le_rfl)
  | @set f name v hassigns hf hname hv =>
    unfold Eval.set
    rw [get_bind_run]
    cases hg : w.store.owner? f name with
    | none => exact .ok .stay trivial
    | some g => exact .ok (.replace hassigns (h.mem_frames_of_owner? hf hg) hname hv) trivial
  | @setOwn members name v hassigns hmembers hname hv =>
    unfold Eval.setOwn
    rw [get_bind_run]
    split
    · exact .ok (.replace hassigns (S.members_subset hmembers) hname hv) trivial
    · exact .ok .stay trivial
  | host hv => exact moves_host _ _ hv

/-! ## Runs -/

/-- What is kept by every move, while nothing leads out of the region, is kept by every run. -/
theorem Built.keeps {I : Trace Event World → Prop}
    (hI : ∀ r event w', I r → r.state.Encloses V S → Move V S r.state w' → I (r.next event w'))
    {α : Type} {x : Traced.Run α} {P : α → Prop} (hx : Built V S x P) {r : Trace Event World}
    (hr : I r) (h : r.state.Encloses V S) :
    I (x r).state ∧ (x r).state.state.Encloses V S ∧ ∀ a r', x r = .ok a r' → P a := by
  induction hx generalizing r with
  | pure ha => exact ⟨hr, h, fun _ _ heq => by cases heq; exact ha⟩
  | stop => exact ⟨hr, h, fun _ _ heq => by cases heq⟩
  | @step α x P hx =>
    obtain ⟨hmove, hresult⟩ := hx.moves h
    rw [TraceM.step_run]
    cases hrun : x r.state with
    | ok a w' =>
      rw [hrun] at hmove
      refine ⟨hI r none w' hr h hmove, h.move hmove, ?_⟩
      rintro _ _ ⟨⟩
      exact hresult a w' hrun
    | error e w' =>
      rw [hrun] at hmove
      exact ⟨hI r none w' hr h hmove, h.move hmove, fun _ _ heq => by cases heq⟩
  | mark e => exact ⟨hI r (some e) r.state hr h .stay, h, fun _ _ _ => trivial⟩
  | @bind α β x k P Q _ _ ihx ihk =>
    obtain ⟨hstate, hencloses, hresult⟩ := ihx hr h
    cases hrun : x r with
    | ok a r' =>
      rw [hrun] at hstate hencloses
      rw [bind_run_ok hrun]
      exact ihk a (hresult a r' hrun) hstate hencloses
    | error e r' =>
      rw [hrun] at hstate hencloses
      rw [bind_run_error hrun]
      exact ⟨hstate, hencloses, fun _ _ heq => by cases heq⟩
  | @function α id k P hid _ ih =>
    rw [get_bind_run]
    exact ih _ (h.code id hid) hr h
  | @leaving α x P m _ ih =>
    obtain ⟨hstate, hencloses, hresult⟩ := ih hr h
    rw [closing]
    cases hrun : x r with
    | ok a r' =>
      rw [hrun] at hstate hencloses
      refine ⟨hI r' none _ hstate hencloses (.leave m), hencloses.move (.leave m), ?_⟩
      rintro _ _ ⟨⟩
      exact hresult a r' hrun
    | error e r' =>
      rw [hrun] at hstate hencloses
      exact ⟨hI r' none _ hstate hencloses (.leave m), hencloses.move (.leave m),
        fun _ _ heq => by cases heq⟩

end Eval

/-- A task that is written in the vocabulary does not lead out of the region. -/
theorem Task.WrittenIn.encloses {task : Task} (htask : task.WrittenIn V)
    (hthis : thisName ∈ V.names) {c : Context} (hc : c.frame ∈ S.frames) (h : w.Encloses V S) :
    (task.perform c w).state.Encloses V S := by
  have hfollows := (Eval.tracked_task w.freeDepth c task).follows ⟨w, []⟩
  rw [← task.perform_run c w] at hfollows
  have hbuilt := Eval.Traced.built_task hthis w.freeDepth hc htask
  obtain ⟨-, hencloses, -⟩ := hbuilt.keeps (I := fun _ => True) (fun _ _ _ _ _ _ => trivial)
    (r := ⟨w, []⟩) trivial h
  rw [← hfollows, EStateM.Result.state_mapState]
  exact hencloses

end ObjectLang
