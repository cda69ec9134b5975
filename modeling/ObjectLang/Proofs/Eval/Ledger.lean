import Mathlib.Order.Basic
import ObjectLang.Proofs.Eval.Region

/-!
# Notes on a run

What is to be known of a value or a frame may depend on what the run has done so far: which name an
object was given, or in which block a frame was opened. A `Ledger` is a kind of notes that are taken
on the way. Notes are only ever added, and what they say of a value or a frame stays said; the laws
of a ledger say how each step of a run is noted.

If all steps can be noted, then so can all runs: `Ledger.Keeps` is closed under the ways to put runs
together, so that it holds of every tree that is evaluated in a frame that the notes allow. The
notes are right at each moment of the run, also if it fails. -/

namespace ObjectLang

/-- The value that statements have completed with, also if it is returned. -/
def Completion.value : Completion → Value
  | .normal v => v
  | .returned v => v

/-- A kind of notes on a run, and how they are taken. -/
structure Ledger (ν : Type) [Preorder ν] where
  /-- The notes are right. -/
  Fits : ν → World → Prop
  /-- A tree may be evaluated in the frame. -/
  Site : ν → FrameId → Prop
  /-- Frames to evaluate trees in may be opened inside of the frame. -/
  Base : ν → FrameId → Prop
  /-- The value may be at hand. -/
  Known : ν → Value → Prop
  site_mono {n n' : ν} {f : FrameId} : n ≤ n' → Site n f → Site n' f
  known_mono {n n' : ν} {v : Value} : n ≤ n' → Known n v → Known n' v
  base_of_site {n : ν} {f : FrameId} : Site n f → Base n f
  base_mono {n n' : ν} {f : FrameId} : n ≤ n' → Base n f → Base n' f
  /-- What refers to no function and no object is always known. -/
  known_plain {n : ν} {v : Value} : (∀ S, v.Within S) → Known n v
  known_list {n : ν} {vs : List Value} : Known n (.list vs) ↔ ∀ v ∈ vs, Known n v
  /-- What a frame binds is known. -/
  known_bound {n : ν} {w : World} {f : FrameId} {b : String × Value} :
    Fits n w → b ∈ w.store.bindings f → Known n b.2
  /-- Code that can be called belongs into frames inside of one that the notes allow. -/
  base_captured {n : ν} {w : World} {id : FunctionId} {c : Closure} :
    Fits n w → Known n (.function id) → (w.function id).code = .closure c → Base n c.captured
  /-- Meters and printed texts do not matter. -/
  fits_congr {n : ν} {w w' : World} : Fits n w → w'.store = w.store →
    w'.functions = w.functions → w'.logged = w.logged → Fits n w'
  /-- A frame is opened; it may become the members of an object with any name. -/
  opened {n : ν} {w : World} {p : FrameId} (name : Option String) : Fits n w → Base n p →
    ∃ n', n ≤ n' ∧ Fits n' (w.opened p) ∧ Site n' w.store.size ∧
      Known n' (.object name w.store.size)
  /-- A frame gets a binding or a new meaning for one. -/
  modify {n : ν} {w : World} {f : FrameId} {name : String} {v : Value}
    {g : List (String × Value) → List (String × Value)} : Fits n w → Known n v →
    (∀ l, ∀ b ∈ g l, b = (name, v) ∨ b ∈ l) → Fits n { w with store := w.store.modify f g }
  /-- A definition becomes a function. -/
  function {n : ν} {w : World} {captured : FrameId} (d : Definition) (m : MeterId)
    (isMethod : Bool) : Fits n w → Site n captured →
    ∃ n', n ≤ n' ∧ Fits n' (w.withFunction (d.function captured m isMethod)) ∧
      Known n' (.function w.functions.size)
  log {n : ν} {w : World} {v : Value} : Fits n w → Known n v →
    Fits n { w with logged := w.logged.push v }

namespace Ledger

variable {ν : Type} [Preorder ν] (L : Ledger ν)

/-- The notes are right, and at each moment so far some earlier notes were. -/
structure Covers (n : ν) (r : Trace Eval.Event World) : Prop where
  now : L.Fits n r.state
  past : ∀ m ∈ r.past, ∃ n' ≤ n, L.Fits n' m.state

/-- The outcome of a run can be noted, and `P` holds of what it gives and of the notes then. -/
def Notes (n : ν) {α : Type} (r : EStateM.Result Stop World α) (P : α → ν → Prop) : Prop :=
  ∃ n', n ≤ n' ∧ L.Fits n' r.state ∧ ∀ a w, r = .ok a w → P a n'

/-- From wherever the notes are right, the run can be noted, and `P` holds of what it gives and of
the notes then. -/
def Keeps (n : ν) {α : Type} (x : Eval.Traced.Run α) (P : α → ν → Prop) : Prop :=
  ∀ n₁ r, n ≤ n₁ → L.Covers n₁ r → ∃ n₂, n₁ ≤ n₂ ∧ L.Covers n₂ (x r).state ∧
    ∀ a r', x r = .ok a r' → P a n₂

variable {L} {n : ν} {r : Trace Eval.Event World} {α β : Type}

theorem Covers.next {n' : ν} {w : World} (h : L.Covers n r) (hn : n ≤ n') (hw : L.Fits n' w)
    (e : Option Eval.Event) : L.Covers n' (r.next e w) := by
  refine ⟨hw, fun m hm => ?_⟩
  rcases List.mem_cons.mp hm with rfl | hm
  · exact ⟨n', le_rfl, hw⟩
  · obtain ⟨n₀, hle, hfits⟩ := h.past m hm
    exact ⟨n₀, hle.trans hn, hfits⟩

theorem known_of_own? {w : World} {f : FrameId} {name : String} {v : Value} (h : L.Fits n w)
    (hv : w.store.own? f name = some v) : L.Known n v :=
  L.known_bound h (mem_of_lookup_eq_some hv)

theorem known_of_lookup {w : World} {f : FrameId} {name : String} {v : Value} (h : L.Fits n w)
    (hv : w.store.lookup f name = some v) : L.Known n v := by
  obtain ⟨g, -, hown⟩ := List.exists_of_findSome?_eq_some hv
  exact known_of_own? h hown

theorem known_nil : L.Known n .nil := L.known_plain fun _ => trivial

theorem known_integer (i : Int) : L.Known n (.integer i) := L.known_plain fun _ => trivial

namespace Notes

variable {P : α → ν → Prop} {w : World}

theorem ok {n' : ν} {a : α} (hn : n ≤ n') (hw : L.Fits n' w) (h : P a n') :
    L.Notes n (.ok a w) P :=
  ⟨n', hn, hw, fun _ _ heq => by cases heq; exact h⟩

theorem error {e : Stop} (hw : L.Fits n w) : L.Notes n (.error e w) P :=
  ⟨n, le_rfl, hw, fun _ _ heq => by cases heq⟩

end Notes

/-! ## Ways to put runs together -/

namespace Keeps

variable {x : Eval.Traced.Run α} {k : α → Eval.Traced.Run β} {P : α → ν → Prop} {Q : β → ν → Prop}

theorem pure {a : α} (h : ∀ n', n ≤ n' → P a n') : L.Keeps n (pure a) P :=
  fun n₁ r hn hr => ⟨n₁, le_rfl, hr, fun _ _ heq => by cases heq; exact h n₁ hn⟩

theorem stop (e : Stop) : L.Keeps n (throw e) P :=
  fun n₁ _ _ hr => ⟨n₁, le_rfl, hr, fun _ _ heq => by cases heq⟩

theorem mono {P' : α → ν → Prop} (hx : L.Keeps n x P) (h : ∀ a n', n ≤ n' → P a n' → P' a n') :
    L.Keeps n x P' := by
  intro n₁ r hn hr
  obtain ⟨n₂, hn₂, hcovers, hP⟩ := hx n₁ r hn hr
  exact ⟨n₂, hn₂, hcovers, fun a r' heq => h a n₂ (hn.trans hn₂) (hP a r' heq)⟩

theorem bind (hx : L.Keeps n x P) (hk : ∀ a n', n ≤ n' → P a n' → L.Keeps n' (k a) Q) :
    L.Keeps n (x >>= k) Q := by
  intro n₁ r hn hr
  obtain ⟨n₂, hn₂, hcovers, hP⟩ := hx n₁ r hn hr
  cases hrun : x r with
  | error e r' =>
    rw [bind_run_error hrun]
    rw [hrun] at hcovers
    exact ⟨n₂, hn₂, hcovers, fun _ _ heq => by cases heq⟩
  | ok a r' =>
    rw [bind_run_ok hrun]
    rw [hrun] at hcovers
    obtain ⟨n₃, hn₃, hcovers', hQ⟩ :=
      hk a n₂ (hn.trans hn₂) (hP a r' hrun) n₂ r' le_rfl hcovers
    exact ⟨n₃, hn₂.trans hn₃, hcovers', hQ⟩

/-- A step of the plain run is noted by what it makes of the world. -/
theorem step {x : EvalM α} (h : ∀ n₁ w, n ≤ n₁ → L.Fits n₁ w → L.Notes n₁ (x w) P) :
    L.Keeps n (TraceM.step x) P := by
  intro n₁ r hn hr
  obtain ⟨n₂, hn₂, hfits, hP⟩ := h n₁ r.state hn hr.now
  refine ⟨n₂, hn₂, ?_, fun a r' heq => ?_⟩
  · rw [TraceM.step_run, EStateM.Result.state_mapState]
    exact hr.next hn₂ hfits none
  · rw [TraceM.step_run] at heq
    cases hrun : x r.state with
    | error e w' =>
      rw [hrun] at heq
      cases heq
    | ok b w' =>
      rw [hrun] at heq
      cases heq
      exact hP a w' hrun

theorem mark (e : Eval.Event) : L.Keeps n (TraceM.mark e) fun _ _ => True :=
  fun n₁ _ _ hr => ⟨n₁, le_rfl, hr.next le_rfl hr.now (some e), fun _ _ _ => trivial⟩

theorem result {r : Except EvalError α} (h : ∀ a n', n ≤ n' → r = .ok a → P a n') :
    L.Keeps n (TraceM.step (Eval.result r)) P := by
  refine .step fun n₁ w hn hw => ?_
  cases r with
  | ok a => exact .ok le_rfl hw (h a n₁ hn rfl)
  | error e => exact .error hw

theorem fail (e : EvalError) : L.Keeps n (TraceM.step (Eval.fail e)) P :=
  .result (r := .error e) fun _ _ _ heq => by cases heq

/-! ## Steps -/

theorem tick (m : MeterId) : L.Keeps n (TraceM.step (Eval.tick m)) fun _ _ => True := by
  refine .step fun n₁ w _ hw => ?_
  have hcharge : L.Fits n₁ (w.charge m) := L.fits_congr hw rfl rfl rfl
  rw [Eval.tick_run]
  dsimp only
  split
  · exact .error hcharge
  · exact .ok le_rfl hcharge trivial

theorem allow (m : MeterId) : L.Keeps n (TraceM.step (Eval.allow m)) fun _ _ => True := by
  refine .step fun n₁ w _ hw => ?_
  have henter : L.Fits n₁ (w.enter m) := L.fits_congr hw rfl rfl rfl
  unfold Eval.allow
  split
  · exact .error hw
  · exact .ok le_rfl henter trivial

/-- The end of a call. -/
theorem leaving {x : Eval.Traced.Run α} (m : MeterId) (hx : L.Keeps n x P) :
    L.Keeps n (closing (fun r => r.next none (r.state.leave m)) x) P := by
  intro n₁ r hn hr
  obtain ⟨n₂, hn₂, hcovers, hP⟩ := hx n₁ r hn hr
  have hleave : L.Fits n₂ ((x r).state.state.leave m) := L.fits_congr hcovers.now rfl rfl rfl
  refine ⟨n₂, hn₂, ?_, fun a r' heq => ?_⟩
  · rw [closing, EStateM.Result.state_mapState]
    exact hcovers.next le_rfl hleave none
  · rw [closing] at heq
    cases hrun : x r with
    | error e r₁ =>
      rw [hrun] at heq
      cases heq
    | ok b r₁ =>
      rw [hrun] at heq
      cases heq
      exact hP a r₁ hrun

theorem lookup (f : FrameId) (name : String) :
    L.Keeps n (TraceM.step (Eval.lookup f name)) fun v n' => L.Known n' v := by
  refine .step fun n₁ w _ hw => ?_
  unfold Eval.lookup
  rw [get_bind_run]
  cases hv : w.store.lookup f name with
  | none => exact .error hw
  | some v => exact .ok le_rfl hw (known_of_lookup hw hv)

theorem member (members : FrameId) (name : String) :
    L.Keeps n (TraceM.step (Eval.member members name)) fun v n' => L.Known n' v := by
  refine .step fun n₁ w _ hw => ?_
  unfold Eval.member
  rw [get_bind_run]
  cases hv : w.store.own? members name with
  | none => exact .error hw
  | some v => exact .ok le_rfl hw (known_of_own? hw hv)

theorem membersOf (v : Value) :
    L.Keeps n (TraceM.step (Eval.membersOf v)) fun _ _ => True := by
  cases v with
  | object name members => exact .result (r := .ok members) fun _ _ _ _ => trivial
  | _ => exact .fail _

theorem callable (name : String) {v : Value} (hv : L.Known n v) :
    L.Keeps n (TraceM.step (Eval.callable name v)) fun id n' => L.Known n' (.function id) := by
  cases v with
  | function id =>
    exact .result (r := .ok id) fun _ n' hn heq => by cases heq; exact L.known_mono hn hv
  | _ => exact .fail _

theorem itemsOf {v : Value} (hv : L.Known n v) :
    L.Keeps n (TraceM.step (Eval.itemsOf v)) fun items n' => ∀ item ∈ items, L.Known n' item := by
  cases v with
  | list items =>
    exact .result (r := .ok items) fun _ n' hn heq => by
      cases heq
      exact fun item hitem => L.known_mono hn (L.known_list.mp hv item hitem)
  | _ => exact .fail _

theorem requireArguments (name : String) (bindings : List String) (arguments : List Value) :
    L.Keeps n (TraceM.step (Eval.requireArguments name bindings arguments)) fun _ _ => True := by
  unfold Eval.requireArguments
  split
  · exact .result (r := .ok ()) fun _ _ _ _ => trivial
  · exact .fail _

theorem apply (op : Operator) (a b : Value) :
    L.Keeps n (TraceM.step do Eval.result (op.apply (← get).print a b)) fun v n' =>
      L.Known n' v := by
  refine .step fun n₁ w _ hw => ?_
  rw [get_bind_run]
  cases hr : op.apply w.print a b with
  | error e => exact .error hw
  | ok v => exact .ok le_rfl hw (L.known_plain fun _ => Operator.within_of_apply hr)

theorem requireFree (f : FrameId) (name : String) :
    L.Keeps n (TraceM.step (Eval.requireFree f name)) fun _ _ => True := by
  refine .step fun n₁ w _ hw => ?_
  cases hd : w.store.defines f name with
  | true =>
    rw [Eval.requireFree_of_defines hd]
    exact .error hw
  | false =>
    rw [Eval.requireFree_of_free hd]
    exact .ok le_rfl hw trivial

theorem newFrame (name : Option String) {p : FrameId} (hp : L.Base n p) :
    L.Keeps n (TraceM.step (Eval.newFrame p)) fun f n' =>
      L.Site n' f ∧ L.Known n' (.object name f) := by
  refine .step fun n₁ w hn hw => ?_
  obtain ⟨n₂, hn₂, hfits, hsite, hknown⟩ := L.opened name hw (L.base_mono hn hp)
  rw [Eval.newFrame_run]
  exact .ok hn₂ hfits ⟨hsite, hknown⟩

theorem define (f : FrameId) (name : String) {v : Value} (hv : L.Known n v) :
    L.Keeps n (TraceM.step (Eval.define f name v)) fun _ _ => True := by
  refine .step fun n₁ w hn hw => ?_
  cases hd : w.store.defines f name with
  | true =>
    rw [Eval.define_of_defines hd]
    exact .error hw
  | false =>
    rw [Eval.define_of_free hd]
    have happend : ∀ l, ∀ b ∈ l ++ [(name, v)], b = (name, v) ∨ b ∈ l :=
      fun l b hb => by simpa [or_comm] using hb
    exact .ok le_rfl (L.modify hw (L.known_mono hn hv) happend) trivial

theorem newClosure (c : Context) (d : Definition) {captured : FrameId} (isMethod : Bool)
    (hcaptured : L.Site n captured) :
    L.Keeps n (Eval.Traced.newClosure c d captured isMethod) fun id n' =>
      L.Known n' (.function id) := by
  have hstep : L.Keeps n (TraceM.step (Eval.newClosure c d captured isMethod)) fun id n' =>
      L.Known n' (.function id) := by
    refine .step fun n₁ w hn hw => ?_
    cases hrepeated : firstRepeated? [] (d.parameters.map (·.name)) with
    | some name =>
      rw [Eval.newClosure_of_repeated w hrepeated]
      exact .error hw
    | none =>
      obtain ⟨n₂, hn₂, hfits, hknown⟩ :=
        L.function d c.meter isMethod hw (L.site_mono hn hcaptured)
      rw [Eval.newClosure_of_distinct w hrepeated]
      exact .ok hn₂ hfits hknown
  refine .bind hstep fun id n₁ _ hid => .bind (.mark _) fun _ n₂ hn₂ _ => ?_
  exact .pure fun n₃ hn₃ => L.known_mono (hn₂.trans hn₃) hid

theorem fits_replace {w : World} (hw : L.Fits n w) {v : Value} (hv : L.Known n v) (f : FrameId)
    (name : String) : L.Fits n { w with store := w.store.replace f name v } := by
  have hrebind : ∀ l, ∀ b ∈ Store.rebind name v l, b = (name, v) ∨ b ∈ l := by
    intro l b hb
    obtain ⟨b', hb', rfl⟩ := List.mem_map.mp hb
    split
    · exact .inl rfl
    · exact .inr hb'
  exact L.modify hw hv hrebind

theorem set (f : FrameId) (name : String) {v : Value} (hv : L.Known n v) :
    L.Keeps n (TraceM.step (Eval.set f name v)) fun _ _ => True := by
  refine .step fun n₁ w hn hw => ?_
  unfold Eval.set
  rw [get_bind_run]
  cases w.store.owner? f name with
  | none => exact .ok le_rfl hw trivial
  | some g => exact .ok le_rfl (fits_replace hw (L.known_mono hn hv) g name) trivial

theorem setOwn (f : FrameId) (name : String) {v : Value} (hv : L.Known n v) :
    L.Keeps n (TraceM.step (Eval.setOwn f name v)) fun _ _ => True := by
  refine .step fun n₁ w hn hw => ?_
  unfold Eval.setOwn
  rw [get_bind_run]
  split
  · exact .ok le_rfl (fits_replace hw (L.known_mono hn hv) f name) trivial
  · exact .ok le_rfl hw trivial

theorem oneArgument {w : World} {name : String} {arguments : List Value} {k : Value → EvalM α}
    (hw : L.Fits n w) (hk : ∀ v ∈ arguments, L.Notes n (k v w) P) :
    L.Notes n ((Eval.oneArgument name arguments >>= k) w) P := by
  match arguments, hk with
  | [v], hk => exact hk v List.mem_cons_self
  | [], _ => exact .error hw
  | _ :: _ :: _, _ => exact .error hw

/-- A host function gives and logs nothing but its arguments and what is made of plain values. -/
theorem host (name : String) (f : HostFunction) {arguments : List Value}
    (harguments : ∀ v ∈ arguments, L.Known n v) :
    L.Keeps n (TraceM.step (Eval.host name f arguments)) fun v n' => L.Known n' v := by
  refine .step fun n₁ w hn hw => ?_
  have hknown : ∀ v ∈ arguments, L.Known n₁ v := fun v hv => L.known_mono hn (harguments v hv)
  unfold Eval.host
  split
  · exact oneArgument hw fun v hv => .ok le_rfl (L.log hw (hknown v hv)) (hknown v hv)
  · exact oneArgument hw fun v _ => .ok le_rfl (L.fits_congr hw rfl rfl rfl) known_nil
  · exact .ok le_rfl hw (L.known_list.mpr hknown)
  · split
    · refine .ok le_rfl hw (L.known_list.mpr fun v hv => ?_)
      obtain ⟨i, -, rfl⟩ := List.mem_map.mp hv
      exact known_integer i
    · exact .error hw
    · exact .error hw
  · split
    · exact .ok le_rfl hw known_nil
    · exact .error hw
  · exact oneArgument hw fun v _ => .error hw
  · exact .ok le_rfl hw (known_integer _)

/-! ## Trees -/

theorem defineAll (f : FrameId) {bindings : List (String × Value)}
    (h : ∀ b ∈ bindings, L.Known n b.2) :
    L.Keeps n (Eval.Traced.defineAll f bindings) fun _ _ => True := by
  induction bindings generalizing n with
  | nil => exact .pure fun _ _ => trivial
  | cons b rest ih =>
    refine .bind (.define f b.1 (h b List.mem_cons_self)) fun _ n₁ hn₁ _ => ih fun b' hb' => ?_
    exact L.known_mono hn₁ (h b' (List.mem_cons_of_mem _ hb'))

theorem objectMethods {c : Context} (hc : L.Site n c.frame) (members : FrameId)
    (methods : List Definition) :
    L.Keeps n (Eval.Traced.objectMethods c members methods) fun _ _ => True := by
  induction methods generalizing n with
  | nil => exact .pure fun _ _ => trivial
  | cons d rest ih =>
    refine .bind (.requireFree members d.name) fun _ n₁ hn₁ _ => ?_
    have hc₁ := L.site_mono hn₁ hc
    refine .bind (.newClosure c d true hc₁) fun id n₂ hn₂ hid => ?_
    exact .bind (.define members d.name hid) fun _ n₃ hn₃ _ =>
      ih (L.site_mono (hn₂.trans hn₃) hc₁)

theorem forEach {body : Value → Eval.Traced.Run Completion}
    (h : ∀ v n', n ≤ n' → L.Known n' v →
      L.Keeps n' (body v) fun completion n' => L.Known n' completion.value)
    {items : List Value} (hitems : ∀ item ∈ items, L.Known n item) :
    L.Keeps n (Eval.Traced.forEach body items) fun completion n' => L.Known n' completion.value := by
  induction items generalizing n with
  | nil => exact .pure fun _ _ => known_nil
  | cons item rest ih =>
    have hitem := h item n le_rfl (hitems item List.mem_cons_self)
    refine .bind hitem fun completion n₁ hn₁ hvalue => ?_
    cases completion with
    | normal _ =>
      refine ih (fun v n' hn' => h v n' (hn₁.trans hn')) fun item' hitem => ?_
      exact L.known_mono hn₁ (hitems item' (List.mem_cons_of_mem _ hitem))
    | returned v => exact .pure fun n₂ hn₂ => L.known_mono hn₂ hvalue

section Trees

set_option linter.unusedSectionVars false

variable {invoke : Eval.Traced.Invoke}
  (hi : ∀ n id arguments, L.Known n (.function id) → (∀ v ∈ arguments, L.Known n v) →
    L.Keeps n (invoke id arguments) fun v n' => L.Known n' v)

include hi

mutual

theorem expr {n : ν} {c : Context} (hc : L.Site n c.frame) : ∀ e : Expr,
    L.Keeps n (Eval.Traced.expr invoke c e) fun v n' => L.Known n' v
  | .literal value => by
    rw [Eval.Traced.expr]
    refine .bind (.tick _) fun _ _ _ _ => .pure fun _ _ => L.known_plain fun _ => ?_
    cases value <;> trivial
  | .group inner => by
    rw [Eval.Traced.expr]
    exact .bind (.tick _) fun _ _ hn₁ _ => expr (L.site_mono hn₁ hc) inner
  | .binary op left right => by
    rw [Eval.Traced.expr]
    refine .bind (.tick _) fun _ n₁ hn₁ _ => ?_
    have hc₁ := L.site_mono hn₁ hc
    refine .bind (expr hc₁ left) fun a n₂ hn₂ _ => ?_
    have hdecided : L.Keeps n₂ (TraceM.step (Eval.result (op.decidedBy a)))
        fun decided n' => ∀ v, decided = some v → L.Known n' v :=
      .result fun decided n' _ h v hv =>
        L.known_plain fun _ => Operator.within_of_decidedBy (hv ▸ h)
    refine .bind hdecided fun decided n₃ hn₃ hv => ?_
    cases decided with
    | some v => exact .pure fun n₄ hn₄ => L.known_mono hn₄ (hv v rfl)
    | none =>
      exact .bind (expr (L.site_mono (hn₂.trans hn₃) hc₁) right) fun b _ _ _ => .apply op a b
  | .variable name => by
    rw [Eval.Traced.expr]
    exact .bind (.tick _) fun _ _ _ _ => .lookup c.frame name
  | .property receiver name => by
    rw [Eval.Traced.expr]
    refine .bind (.tick _) fun _ _ hn₁ _ => ?_
    refine .bind (expr (L.site_mono hn₁ hc) receiver) fun object _ _ _ => ?_
    exact .bind (.membersOf object) fun members _ _ _ => .member members name
  | .call name arguments => by
    rw [Eval.Traced.expr]
    refine .bind (.tick _) fun _ n₁ hn₁ _ => .bind (.lookup c.frame name) fun target n₂ hn₂ hv => ?_
    refine .bind (.callable name hv) fun id n₃ hn₃ hid => ?_
    have hc₃ := L.site_mono (hn₁.trans (hn₂.trans hn₃)) hc
    exact .bind (exprs hc₃ arguments) fun vs n₄ hn₄ hvs => hi n₄ id vs (L.known_mono hn₄ hid) hvs
  | .method receiver name arguments => by
    rw [Eval.Traced.expr]
    refine .bind (.tick _) fun _ n₁ hn₁ _ => ?_
    have hc₁ := L.site_mono hn₁ hc
    refine .bind (expr hc₁ receiver) fun object n₂ hn₂ hobject => ?_
    refine .bind (.membersOf object) fun members n₃ hn₃ _ => ?_
    refine .bind (.member members name) fun target n₄ hn₄ hv => ?_
    refine .bind (.callable name hv) fun id n₅ hn₅ hid => ?_
    have hn₂₅ := hn₃.trans (hn₄.trans hn₅)
    have hc₅ := L.site_mono (hn₂.trans hn₂₅) hc₁
    refine .bind (exprs hc₅ arguments) fun vs n₆ hn₆ hvs => ?_
    refine hi n₆ id _ (L.known_mono hn₆ hid) (List.forall_mem_cons.mpr ⟨?_, hvs⟩)
    exact L.known_mono (hn₂₅.trans hn₆) hobject
  | .object name fields methods => by
    rw [Eval.Traced.expr]
    refine .bind (.tick _) fun _ n₁ hn₁ _ => ?_
    have hc₁ := L.site_mono hn₁ hc
    refine .bind (.newFrame name (L.base_of_site hc₁)) fun members n₂ hn₂ hmembers => ?_
    have hfields := objectFields (c := { c with frame := members }) hmembers.1 fields
    refine .bind hfields fun _ n₃ hn₃ _ => ?_
    refine .bind (objectMethods (L.site_mono (hn₂.trans hn₃) hc₁) members methods)
      fun _ n₄ hn₄ _ => .bind (.mark _) fun _ n₅ hn₅ _ => .pure fun n₆ hn₆ => ?_
    exact L.known_mono (hn₃.trans (hn₄.trans (hn₅.trans hn₆))) hmembers.2

theorem exprs {n : ν} {c : Context} (hc : L.Site n c.frame) : ∀ es : List Expr,
    L.Keeps n (Eval.Traced.exprs invoke c es) fun vs n' => ∀ v ∈ vs, L.Known n' v
  | [] => by
    rw [Eval.Traced.exprs]
    exact .pure fun _ _ => nofun
  | e :: rest => by
    rw [Eval.Traced.exprs]
    refine .bind (expr hc e) fun v n₁ hn₁ hv => ?_
    refine .bind (exprs (L.site_mono hn₁ hc) rest) fun vs n₂ hn₂ hvs => .pure fun n₃ hn₃ => ?_
    exact List.forall_mem_cons.mpr
      ⟨L.known_mono (hn₂.trans hn₃) hv, fun v hv => L.known_mono hn₃ (hvs v hv)⟩

theorem optionalExpr {n : ν} {c : Context} (hc : L.Site n c.frame) : ∀ e : Option Expr,
    L.Keeps n (Eval.Traced.optionalExpr invoke c e) fun v n' => L.Known n' v
  | none => by
    rw [Eval.Traced.optionalExpr]
    exact .pure fun _ _ => known_nil
  | some e => by
    rw [Eval.Traced.optionalExpr]
    exact expr hc e

theorem declaration {n : ν} {c : Context} (hc : L.Site n c.frame) : ∀ d : Declaration,
    L.Keeps n (Eval.Traced.declaration invoke c d) fun v n' => L.Known n' v
  | ⟨name, _, value⟩ => by
    rw [Eval.Traced.declaration]
    refine .bind (.requireFree c.frame name) fun _ n₁ hn₁ _ => ?_
    refine .bind (optionalExpr (L.site_mono hn₁ hc) value) fun v n₂ _ hv => ?_
    exact .bind (.define c.frame name hv) fun _ n₃ hn₃ _ => .pure fun n₄ hn₄ =>
      L.known_mono (hn₃.trans hn₄) hv

theorem objectFields {n : ν} {c : Context} (hc : L.Site n c.frame) : ∀ ds : List Declaration,
    L.Keeps n (Eval.Traced.objectFields invoke c ds) fun _ _ => True
  | [] => by
    rw [Eval.Traced.objectFields]
    exact .pure fun _ _ => trivial
  | d :: rest => by
    rw [Eval.Traced.objectFields]
    exact .bind (declaration hc d) fun _ _ hn₁ _ => objectFields (L.site_mono hn₁ hc) rest

theorem stmt {n : ν} {c : Context} (hc : L.Site n c.frame) : ∀ s : Stmt,
    L.Keeps n (Eval.Traced.stmt invoke c s) fun completion n' => L.Known n' completion.value
  | .declare d => by
    rw [Eval.Traced.stmt]
    refine .bind (.tick _) fun _ _ hn₁ _ => ?_
    exact .bind (declaration (L.site_mono hn₁ hc) d) fun v _ _ hv => .pure fun _ hn₃ =>
      L.known_mono hn₃ hv
  | .define d => by
    rw [Eval.Traced.stmt]
    refine .bind (.tick _) fun _ n₁ hn₁ _ => .bind (.requireFree _ _) fun _ n₂ hn₂ _ => ?_
    have hc₂ := L.site_mono (hn₁.trans hn₂) hc
    refine .bind (.newClosure c d false hc₂) fun id n₃ _ hid => ?_
    exact .bind (.define _ _ hid) fun _ n₄ hn₄ _ => .pure fun n₅ hn₅ =>
      L.known_mono (hn₄.trans hn₅) hid
  | .branch condition thenBody elseBody => by
    rw [Eval.Traced.stmt]
    refine .bind (.tick _) fun _ n₁ hn₁ _ => ?_
    have hc₁ := L.site_mono hn₁ hc
    refine .bind (expr hc₁ condition) fun v n₂ hn₂ _ => ?_
    refine .bind (P := fun _ _ => True) (.result fun _ _ _ _ => trivial) fun holds n₃ hn₃ _ => ?_
    have hbase := L.base_of_site (L.site_mono (hn₂.trans hn₃) hc₁)
    refine .bind (.newFrame none hbase) fun frame n₄ _ hframe => ?_
    cases holds with
    | true => exact stmts (c := ⟨frame, c.meter⟩) hframe.1 known_nil thenBody
    | false => exact stmts (c := ⟨frame, c.meter⟩) hframe.1 known_nil elseBody
  | .forEach name items body => by
    rw [Eval.Traced.stmt]
    refine .bind (.tick _) fun _ n₁ hn₁ _ => ?_
    have hc₁ := L.site_mono hn₁ hc
    refine .bind (expr hc₁ items) fun v n₂ hn₂ hv => ?_
    refine .bind (.itemsOf hv) fun vs n₃ hn₃ hvs => forEach (fun item n₄ hn₄ hitem => ?_) hvs
    have hbase := L.base_of_site (L.site_mono (hn₂.trans (hn₃.trans hn₄)) hc₁)
    refine .bind (.newFrame none hbase) fun frame n₅ hn₅ hframe => ?_
    refine .bind (.define frame name (L.known_mono hn₅ hitem)) fun _ n₆ hn₆ _ => ?_
    exact stmts (c := ⟨frame, c.meter⟩) (L.site_mono hn₆ hframe.1) known_nil body
  | .ret value => by
    rw [Eval.Traced.stmt]
    refine .bind (.tick _) fun _ _ hn₁ _ => ?_
    exact .bind (optionalExpr (L.site_mono hn₁ hc) value) fun v _ _ hv => .pure fun _ hn₃ =>
      L.known_mono hn₃ hv
  | .expression value => by
    rw [Eval.Traced.stmt]
    refine .bind (.tick _) fun _ _ hn₁ _ => ?_
    exact .bind (expr (L.site_mono hn₁ hc) value) fun v _ _ hv => .pure fun _ hn₃ =>
      L.known_mono hn₃ hv
  | .assign (.variable name) value => by
    rw [Eval.Traced.stmt]
    refine .bind (.tick _) fun _ n₁ hn₁ _ => .bind (.lookup _ _) fun _ n₂ hn₂ _ => ?_
    refine .bind (expr (L.site_mono (hn₁.trans hn₂) hc) value) fun v n₃ _ hv => ?_
    exact .bind (.set _ _ hv) fun _ _ hn₄ _ => .pure fun _ hn₅ => L.known_mono (hn₄.trans hn₅) hv
  | .assign (.property receiver name) value => by
    rw [Eval.Traced.stmt]
    refine .bind (.tick _) fun _ n₁ hn₁ _ => ?_
    have hc₁ := L.site_mono hn₁ hc
    refine .bind (expr hc₁ receiver) fun object n₂ hn₂ _ => ?_
    refine .bind (.membersOf object) fun members n₃ hn₃ _ => ?_
    refine .bind (.member members name) fun _ n₄ hn₄ _ => ?_
    have hc₄ := L.site_mono (hn₂.trans (hn₃.trans hn₄)) hc₁
    refine .bind (expr hc₄ value) fun v n₅ _ hv => ?_
    exact .bind (.setOwn _ _ hv) fun _ _ hn₆ _ => .pure fun _ hn₇ =>
      L.known_mono (hn₆.trans hn₇) hv
  | .assign (.literal _) _ | .assign (.group _) _ | .assign (.binary _ _ _) _
  | .assign (.call _ _) _ | .assign (.method _ _ _) _ | .assign (.object _ _ _) _ => by
    rw [Eval.Traced.stmt.eq_def]
    exact .bind (.tick _) fun _ _ _ _ => .fail _

theorem stmts {n : ν} {c : Context} (hc : L.Site n c.frame) {last : Value}
    (hlast : L.Known n last) : ∀ body : List Stmt,
    L.Keeps n (Eval.Traced.stmts invoke c last body) fun completion n' => L.Known n' completion.value
  | [] => by
    rw [Eval.Traced.stmts]
    exact .pure fun _ hn₁ => L.known_mono hn₁ hlast
  | s :: rest => by
    rw [Eval.Traced.stmts]
    refine .bind (stmt hc s) fun completion n₁ hn₁ hvalue => ?_
    cases completion with
    | normal v => exact stmts (L.site_mono hn₁ hc) hvalue rest
    | returned v => exact .pure fun _ hn₂ => L.known_mono hn₂ hvalue

end

end Trees

/-! ## Calls -/

theorem withCall {x : Eval.Traced.Run α} {P : α → ν → Prop} (m : MeterId) (hx : L.Keeps n x P) :
    L.Keeps n (Eval.Traced.withCall m x) P :=
  .bind (.allow m) fun _ _ hn₁ _ => .leaving m fun n₂ r hn₂ => hx n₂ r (hn₁.trans hn₂)

/-- A call reads its function. -/
theorem function {id : FunctionId} {k : Function → Eval.Traced.Run α} {P : α → ν → Prop}
    (hid : L.Known n (.function id))
    (hk : ∀ function n', n ≤ n' → (∀ c, function.code = .closure c → L.Base n' c.captured) →
      L.Keeps n' (k function) P) :
    L.Keeps n (get >>= fun r => k (r.state.function id)) P := by
  intro n₁ r hn hr
  rw [get_bind_run]
  have hbase : ∀ c, (r.state.function id).code = .closure c → L.Base n₁ c.captured :=
    fun c hc => L.base_captured hr.now (L.known_mono hn hid) hc
  exact hk (r.state.function id) n₁ hn hbase n₁ r le_rfl hr

theorem call : ∀ (fuel : Nat) (n : ν) (id : FunctionId) (arguments : List Value),
    L.Known n (.function id) → (∀ v ∈ arguments, L.Known n v) →
    L.Keeps n (Eval.Traced.call fuel id arguments) fun v n' => L.Known n' v := by
  intro fuel
  induction fuel with
  | zero =>
    intro n id arguments hid harguments
    rw [Eval.Traced.call_eq]
    refine function (k := fun function => Eval.Traced.applyFunction 0 id function arguments) hid
      fun function n₁ hn₁ _ => ?_
    unfold Eval.Traced.applyFunction
    split
    · exact .host _ _ fun v hv => L.known_mono hn₁ (harguments v hv)
    · exact .bind (.requireArguments _ _ _) fun _ _ _ _ => .withCall _ (.stop _)
  | succ fuel ih =>
    intro n id arguments hid harguments
    rw [Eval.Traced.call_eq]
    refine function
      (k := fun function => Eval.Traced.applyFunction (fuel + 1) id function arguments) hid
      fun function n₁ hn₁ hfunction => ?_
    unfold Eval.Traced.applyFunction
    split
    · exact .host _ _ fun v hv => L.known_mono hn₁ (harguments v hv)
    · next c hcode =>
      refine .bind (.requireArguments _ _ _) fun _ n₂ hn₂ _ => .withCall _ ?_
      have hbase := L.base_mono hn₂ (hfunction c hcode)
      refine .bind (.newFrame none hbase) fun frame n₃ hn₃ hframe => ?_
      refine .bind (.defineAll frame fun b hb => ?_) fun _ n₄ hn₄ _ => ?_
      · exact L.known_mono (hn₁.trans (hn₂.trans hn₃)) (harguments _ (List.of_mem_zip hb).2)
      · have hc : L.Site n₄ frame := L.site_mono hn₄ hframe.1
        have hrun := stmts (L := L) (c := ⟨frame, c.meter⟩) ih hc known_nil c.body
        refine .bind hrun fun completion n₅ _ hvalue => ?_
        refine .bind (.mark _) fun _ n₆ hn₆ _ => .pure fun n₇ hn₇ => ?_
        cases completion with
        | normal v => exact known_nil
        | returned v => exact L.known_mono (hn₆.trans hn₇) hvalue

/-! ## Tasks -/

theorem task (fuel : Nat) {c : Context} (hc : L.Site n c.frame) (task : Task) :
    L.Keeps n (task.traced fuel c) fun completion n' => L.Known n' completion.value := by
  cases task with
  | program p =>
    refine .bind (stmts (call fuel) hc known_nil p.statements) fun completion n₁ _ hvalue => ?_
    cases completion with
    | normal v => exact .pure fun _ hn₂ => L.known_mono hn₂ hvalue
    | returned v => exact .fail _
  | stmt s => exact stmt (call fuel) hc s
  | expr e =>
    exact .bind (expr (call fuel) hc e) fun v _ _ hv => .pure fun _ hn₂ => L.known_mono hn₂ hv

end Keeps

end Ledger

end ObjectLang
