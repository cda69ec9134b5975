import ObjectLang.Proofs.Eval.Moves
import ObjectLang.Proofs.Scope.Surplus

/-!
# Names that are not mentioned, in the evaluator

A run in a region asks frames for names of a vocabulary, and shows the members of objects. So a
binding of another name, in a frame that is not that of the members of an object, makes no
difference to it: the run takes the same steps with it and without it, and the worlds differ by that
binding in the end as they did in the beginning. -/

namespace ObjectLang

/-- The world `u` is `w` with one binding more: the frame `g` of `u` also binds `n` to `v`. -/
structure World.Surplus (g : FrameId) (n : String) (v : Value) (w u : World) : Prop where
  store : Store.Surplus g n v w.store u.store
  functions_eq : u.functions = w.functions
  meters_eq : u.meters = w.meters
  printed_eq : u.printed = w.printed
  logged_eq : u.logged = w.logged

/-! ## Texts -/

section

variable {S : Region}

mutual

/-- The text of a value depends on the texts of the objects that it leads to. -/
theorem Value.textWith_congr {functionName : FunctionId → String}
    {object object' : Option String → FrameId → String}
    (h : ∀ name, ∀ members ∈ S.members, object' name members = object name members) :
    ∀ v : Value, v.Within S → v.textWith functionName object' = v.textWith functionName object
  | .list items, hv => by
    rw [Value.textWith, Value.textWith, Value.textsWith_congr h items hv]
  | .object name members, hv => h name members hv
  | .nil, _ | .boolean _, _ | .integer _, _ | .decimal _, _ | .string _, _ | .function _, _ => rfl

theorem Value.textsWith_congr {functionName : FunctionId → String}
    {object object' : Option String → FrameId → String}
    (h : ∀ name, ∀ members ∈ S.members, object' name members = object name members) :
    ∀ vs : List Value, Value.AllWithin S vs →
      Value.textsWith functionName object' vs = Value.textsWith functionName object vs
  | [], _ => rfl
  | v :: rest, ⟨hv, hrest⟩ => by
    rw [Value.textsWith, Value.textsWith, Value.textWith_congr h v hv,
      Value.textsWith_congr h rest hrest]

end

end

/-- An operator reads the texts of its operands. -/
theorem Operator.apply_congr {op : Operator} {print print' : Value → String} {a b : Value}
    (ha : print' a = print a) (hb : print' b = print b) :
    op.apply print' a b = op.apply print a b := by
  cases op with
  | add =>
    unfold apply addition
    rw [ha, hb]
  | _ => rfl

namespace World.Surplus

variable {V : Vocabulary} {S : Region} {g : FrameId} {n : String} {v : Value} {w u : World}
  (h : World.Surplus g n v w u)
include h

theorem function_eq (id : FunctionId) : u.function id = w.function id := by
  rw [function, function, h.functions_eq]

theorem meter_eq (m : MeterId) : u.meter m = w.meter m := by
  rw [meter, meter, h.meters_eq]

theorem freeDepth_eq : u.freeDepth = w.freeDepth := by
  rw [freeDepth, freeDepth, h.meters_eq]

section

variable (hw : w.Encloses V S) (hg : g ∉ S.members)
include hw hg

/-- An object that does not have its members in the frame is shown as before. -/
theorem objectText_eq (depth : Nat) (opened : List FrameId) (name : Option String) :
    ∀ members ∈ S.members,
      u.objectText depth opened name members = w.objectText depth opened name members := by
  have hnames : u.functionName = w.functionName :=
    funext fun id => congrArg Function.name (h.function_eq id)
  induction depth generalizing opened name with
  | zero => exact fun _ _ => rfl
  | succ depth ih =>
    intro members hmembers
    have hframe : members ≠ g := fun heq => hg (heq ▸ hmembers)
    have htexts : ∀ b ∈ w.store.bindings members,
        b.2.textWith w.functionName (u.objectText depth (members :: opened)) =
          b.2.textWith w.functionName (w.objectText depth (members :: opened)) := by
      intro b hb
      refine Value.textWith_congr (ih (members :: opened)) _ ?_
      exact hw.bound members (S.members_subset hmembers) b hb (.inr hmembers)
    rw [objectText, objectText, h.store.others members hframe, hnames]
    rw [List.map_congr_left fun b hb => by rw [htexts b hb]]

theorem print_eq {value : Value} (hvalue : value.Within S) : u.print value = w.print value := by
  have hnames : u.functionName = w.functionName :=
    funext fun id => congrArg Function.name (h.function_eq id)
  rw [print, print, h.store.size_eq, hnames]
  exact Value.textWith_congr (h.objectText_eq hw hg _ []) value hvalue

end

/-! ## The same changes -/

theorem modifyMeter (m : MeterId) (change : Meter → Meter) :
    World.Surplus g n v (w.modifyMeter m change) (u.modifyMeter m change) :=
  { h with meters_eq := by rw [World.modifyMeter, World.modifyMeter, h.meters_eq] }

theorem opened (p : FrameId) : World.Surplus g n v (w.opened p) (u.opened p) :=
  { h with store := h.store.newFrame (some p) }

theorem append (f : FrameId) {name : String} (hname : name ≠ n) (value : Value) :
    World.Surplus g n v { w with store := w.store.append f name value }
      { u with store := u.store.append f name value } :=
  { h with store := h.store.append f hname value }

theorem replace (f : FrameId) {name : String} (hname : name ≠ n) (value : Value) :
    World.Surplus g n v { w with store := w.store.replace f name value }
      { u with store := u.store.replace f name value } :=
  { h with store := h.store.replace f hname value }

theorem withFunction (function : Function) :
    World.Surplus g n v (w.withFunction function) (u.withFunction function) :=
  { h with functions_eq := by rw [World.withFunction, World.withFunction, h.functions_eq] }

end World.Surplus

namespace Eval

open World (Surplus)

variable {V : Vocabulary} {S : Region} {g : FrameId} {n : String} {v : Value} {w u : World}

/-! ## Steps -/

theorem alike_oneArgument {name : String} {arguments : List Value} {k : Value → EvalM Value}
    (h : Surplus g n v w u)
    (hk : ∀ a ∈ arguments, (k a w).Alike (Surplus g n v) (k a u)) :
    ((oneArgument name arguments >>= k) w).Alike (Surplus g n v)
      ((oneArgument name arguments >>= k) u) := by
  match arguments, hk with
  | [a], hk => exact hk a List.mem_cons_self
  | [], _ => exact .error h
  | _ :: _ :: _, _ => exact .error h

theorem alike_host (name : String) (f : HostFunction) {arguments : List Value}
    (harguments : ∀ a ∈ arguments, a.Within S) (hg : g ∉ S.members) (hw : w.Encloses V S)
    (h : Surplus g n v w u) :
    (host name f arguments w).Alike (Surplus g n v) (host name f arguments u) := by
  unfold host
  split
  · refine alike_oneArgument h fun a _ => .ok { h with logged_eq := ?_ }
    exact congrArg (·.push a) h.logged_eq
  · refine alike_oneArgument h fun a ha => .ok { h with printed_eq := ?_ }
    exact congrArg₂ Array.push h.printed_eq (h.print_eq hw hg (harguments a ha))
  · exact .ok h
  · split
    · exact .ok h
    · exact .error h
    · exact .error h
  · split
    · exact .ok h
    · exact .error h
  · refine alike_oneArgument h fun a ha => ?_
    rw [get_bind_run, get_bind_run, h.print_eq hw hg (harguments a ha)]
    exact .error h
  · exact .ok h

/-- A permitted step does not depend on the binding. -/
theorem Permitted.alike {α : Type} {x : EvalM α} {P : α → Prop} (hx : Permitted V S x P)
    (hn : n ∉ V.names) (hg : g ∉ S.members) (hw : w.Encloses V S) (h : Surplus g n v w u) :
    (x w).Alike (Surplus g n v) (x u) := by
  have other {name : String} (hname : name ∈ V.names) : name ≠ n := fun heq => hn (heq ▸ hname)
  cases hx with
  | tick m =>
    have hcharge : Surplus g n v (w.charge m) (u.charge m) := h.modifyMeter m _
    rw [tick_run, tick_run, hcharge.meter_eq]
    dsimp only
    split
    · exact .error hcharge
    · exact .ok hcharge
  | allow m =>
    unfold Eval.allow
    rw [h.meter_eq]
    split
    · exact .error h
    · exact .ok (h.modifyMeter m _)
  | @outcome α r _ _ =>
    cases r with
    | ok a => exact .ok h
    | error e => exact .error h
  | @apply op a b ha hb =>
    rw [get_bind_run, get_bind_run,
      Operator.apply_congr (h.print_eq hw hg ha) (h.print_eq hw hg hb)]
    cases op.apply w.print a b with
    | ok value => exact .ok h
    | error e => exact .error h
  | @lookup f name _ hname =>
    unfold Eval.lookup
    rw [get_bind_run, get_bind_run, h.store.lookup_eq (other hname)]
    cases w.store.lookup f name with
    | some value => exact .ok h
    | none => exact .error h
  | @member members name _ hname =>
    unfold Eval.member
    rw [get_bind_run, get_bind_run, h.store.own?_eq (other hname)]
    cases w.store.own? members name with
    | some value => exact .ok h
    | none => exact .error h
  | @newFrame p _ =>
    rw [newFrame_run, newFrame_run, h.store.size_eq]
    exact .ok (h.opened p)
  | @requireFree f name _ hname =>
    have hdefines := h.store.defines_eq (other hname) f
    cases hd : w.store.defines f name with
    | true =>
      rw [requireFree_of_defines hd, requireFree_of_defines (hdefines.trans hd)]
      exact .error h
    | false =>
      rw [requireFree_of_free hd, requireFree_of_free (hdefines.trans hd)]
      exact .ok h
  | @define f name value _ hname _ =>
    have hdefines := h.store.defines_eq (other hname) f
    cases hd : w.store.defines f name with
    | true =>
      rw [define_of_defines hd, define_of_defines (hdefines.trans hd)]
      exact .error h
    | false =>
      rw [define_of_free hd, define_of_free (hdefines.trans hd)]
      exact .ok (h.append f (other hname) value)
  | @newClosure c d captured isMethod _ _ _ =>
    cases hrepeated : firstRepeated? [] (d.parameters.map (·.name)) with
    | some name =>
      rw [newClosure_of_repeated w hrepeated, newClosure_of_repeated u hrepeated]
      exact .error h
    | none =>
      rw [newClosure_of_distinct w hrepeated, newClosure_of_distinct u hrepeated, h.functions_eq]
      exact .ok (h.withFunction _)
  | @set f name value _ _ hname _ =>
    unfold Eval.set
    rw [get_bind_run, get_bind_run, h.store.owner?_eq (other hname)]
    cases w.store.owner? f name with
    | some owner => exact .ok (h.replace owner (other hname) value)
    | none => exact .ok h
  | @setOwn members name value _ _ hname _ =>
    unfold Eval.setOwn
    rw [get_bind_run, get_bind_run, h.store.defines_eq (other hname)]
    cases w.store.defines members name with
    | true => exact .ok (h.replace members (other hname) value)
    | false => exact .ok h
  | host hv => exact alike_host _ _ hv hg hw h

/-! ## Runs -/

/-- Traces that end in worlds that differ by the binding. -/
def SurplusTraces (g : FrameId) (n : String) (v : Value) (r r' : Trace Event World) : Prop :=
  Surplus g n v r.state r'.state

/-- A run that is put together from permitted steps does not depend on the binding. -/
theorem Built.alike {α : Type} {x : Traced.Run α} {P : α → Prop} (hx : Built V S x P)
    (hn : n ∉ V.names) (hg : g ∉ S.members) {r r' : Trace Event World}
    (hr : r.state.Encloses V S) (h : SurplusTraces g n v r r') :
    (x r).Alike (SurplusTraces g n v) (x r') := by
  induction hx generalizing r r' with
  | pure _ => exact .ok h
  | stop => exact .error h
  | step hx => exact (hx.alike hn hg hr h).mapState fun _ _ hstep => hstep
  | mark e => exact .ok h
  | bind hx _ ihx ihk =>
    refine bind_run_alike (ihx hr h) fun a s s' hrun h' => ?_
    obtain ⟨-, hencloses, hresult⟩ := hx.keeps (I := fun _ => True) (fun _ _ _ _ _ _ => trivial)
      trivial hr
    rw [hrun] at hencloses hresult
    exact ihk a (hresult a s rfl) hencloses h'
  | @function α id k P hid _ ih =>
    rw [get_bind_run, get_bind_run, World.Surplus.function_eq h]
    exact ih _ (hr.code id hid) hr h
  | leaving m _ ih =>
    exact (ih hr h).mapState fun _ _ h' => World.Surplus.modifyMeter h' m _

/-- Nor does the run that is traced. It stays in the region, and so does what it gives. -/
theorem Built.alike_of_follows {α : Type} {x' : Traced.Run α} {x : EvalM α} {P : α → Prop}
    (hx : Built V S x' P) (hfollows : x'.Follows x) (hn : n ∉ V.names) (hg : g ∉ S.members)
    (hw : w.Encloses V S) (h : Surplus g n v w u) :
    (x w).Alike (Surplus g n v) (x u) ∧ ∀ a w', x w = .ok a w' → w'.Encloses V S ∧ P a := by
  have hkeeps := hx.keeps (I := fun _ => True) (fun _ _ _ _ _ _ => trivial) (r := ⟨w, []⟩)
    trivial hw
  have halike : (x' ⟨w, []⟩).Alike (SurplusTraces g n v) (x' ⟨u, []⟩) := hx.alike hn hg hw h
  rw [← hfollows ⟨w, []⟩, ← hfollows ⟨u, []⟩]
  refine ⟨halike.mapState fun _ _ h' => h', fun a w' hrun => ?_⟩
  obtain ⟨-, hencloses, hresult⟩ := hkeeps
  cases htraced : x' ⟨w, []⟩ with
  | ok a' r =>
    rw [htraced] at hrun hencloses
    cases hrun
    exact ⟨hencloses, hresult a r htraced⟩
  | error e r =>
    rw [htraced] at hrun
    cases hrun

end Eval

end ObjectLang
