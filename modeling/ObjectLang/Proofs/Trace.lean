import ObjectLang.Proofs.Outcome
import ObjectLang.Proofs.Scope.Growth

/-!
# Traces of runs

What holds at some moment *inside* of a run cannot be read off its outcome. A traced run keeps a
list of its moments: the state after each step, with the event that has just come about if it is
worth a record. Apart from that it goes as the plain run does, which `TraceM.Follows` says.

An event may tell something about a frame that holds from then on, since only the frame that is
being filled gets new entries. `Tracks` says what is needed of the parts of a run to see this.
-/

namespace ObjectLang

/-- A moment of a run. -/
structure Moment (ι σ : Type) where
  /-- What has just come about. -/
  event : Option ι
  state : σ

/-- A state, and the moments that have led to it. -/
structure Trace (ι σ : Type) where
  state : σ
  /-- The moments so far, the latest one first. -/
  past : List (Moment ι σ) := []

/-- A run that keeps a list of its moments. -/
abbrev TraceM (ι ε σ : Type) := EStateM ε (Trace ι σ)

section

variable {ι ε σ α β : Type}

/-- Changes the state at the end of a run, however it ends. -/
def closing (h : σ → σ) (x : EStateM ε σ α) : EStateM ε σ α := fun s => (x s).mapState h

/-- What has come about up to the last of the moments. -/
def events (past : List (Moment ι σ)) : List ι := past.filterMap (·.event)

/-- The trace with one more moment. -/
def Trace.next (r : Trace ι σ) (event : Option ι) (s : σ) : Trace ι σ := ⟨s, ⟨event, s⟩ :: r.past⟩

namespace TraceM

/-- One step of a plain run. A step that fails is a moment too. -/
def step (x : EStateM ε σ α) : TraceM ι ε σ α := fun r => (x r.state).mapState (r.next none)

/-- Makes a record of an event. -/
def mark (e : ι) : TraceM ι ε σ Unit := modify fun r => r.next (some e) r.state

/-- The traced run goes as the plain one. -/
def Follows (x' : TraceM ι ε σ α) (x : EStateM ε σ α) : Prop :=
  ∀ r, (x' r).mapState Trace.state = x r.state

theorem step_run (x : EStateM ε σ α) (r : Trace ι σ) :
    (step x : TraceM ι ε σ α) r = (x r.state).mapState (r.next none) := rfl

theorem mark_run (e : ι) (r : Trace ι σ) :
    (mark e : TraceM ι ε σ Unit) r = .ok () (r.next (some e) r.state) := rfl

namespace Follows

variable {x' : TraceM ι ε σ α} {x : EStateM ε σ α} {k' : α → TraceM ι ε σ β}
  {k : α → EStateM ε σ β}

theorem state_eq (h : Follows x' x) (r : Trace ι σ) : (x' r).state.state = (x r.state).state := by
  rw [← h r, EStateM.Result.state_mapState]

theorem of_ok (h : Follows x' x) {r r' : Trace ι σ} {a : α} (hrun : x' r = .ok a r') :
    x r.state = .ok a r'.state := by
  rw [← h r, hrun]
  rfl

theorem of_error (h : Follows x' x) {r r' : Trace ι σ} {e : ε} (hrun : x' r = .error e r') :
    x r.state = .error e r'.state := by
  rw [← h r, hrun]
  rfl

theorem pure (a : α) : Follows (pure a : TraceM ι ε σ α) (pure a) := fun _ => rfl

theorem throw (e : ε) : Follows (throw e : TraceM ι ε σ α) (throw e) := fun _ => rfl

theorem step (x : EStateM ε σ α) : Follows (step x : TraceM ι ε σ α) x := by
  intro r
  rw [step_run]
  cases x r.state <;> rfl

theorem bind (h : Follows x' x) (hk : ∀ a, Follows (k' a) (k a)) :
    Follows (x' >>= k') (x >>= k) := by
  intro r
  cases hrun : x' r with
  | ok a r' => rw [bind_run_ok hrun, bind_run_ok (h.of_ok hrun), hk a r']
  | error e r' =>
    rw [bind_run_error hrun, bind_run_error (h.of_error hrun)]
    rfl

theorem closing (h : σ → σ) (hx : Follows x' x) :
    Follows (closing (fun r => r.next none (h r.state)) x') (closing h x) := by
  intro r
  rw [ObjectLang.closing, ObjectLang.closing, ← hx r]
  cases x' r <;> rfl

/-- A record makes no difference to how the run goes. -/
theorem mark (h : Follows x' x) (e : α → ι) (v : α → β) :
    Follows (x' >>= fun a => do mark (e a); Pure.pure (v a)) (x >>= fun a => Pure.pure (v a)) :=
  h.bind fun _ _ => rfl

end Follows

end TraceM

/-! ## What lasts -/

/-- At each moment everything that has come about by then is as `Good` says. -/
def Lasting (Good : ι → σ → Prop) : List (Moment ι σ) → Prop
  | [] => True
  | m :: past => (∀ e ∈ events (m :: past), Good e m.state) ∧ Lasting Good past

/-- Whenever the event comes about, the state is as `P` says, and so are all later states. -/
def Since (past : List (Moment ι σ)) (e : ι) (P : σ → Prop) : Prop :=
  ∀ later m earlier, past = later ++ m :: earlier → m.event = some e →
    ∀ m' ∈ later ++ [m], P m'.state

theorem Lasting.since {Good : ι → σ → Prop} {past : List (Moment ι σ)} (h : Lasting Good past)
    (e : ι) : Since past e (Good e) := by
  rintro later m earlier rfl he
  induction later with
  | nil =>
    intro m' hm'
    obtain rfl := List.mem_singleton.mp hm'
    exact h.1 e (by simp [events, he])
  | cons l later ih =>
    intro m' hm'
    rcases List.mem_cons.mp hm' with rfl | hm'
    · exact h.1 e (List.mem_filterMap.mpr ⟨m, by simp, he⟩)
    · exact ih h.2 m' hm'

/-- Everything that has come about is as `Good` says, and has always been so since then. -/
structure Trace.Holds (Good : ι → σ → Prop) (r : Trace ι σ) : Prop where
  now : ∀ e ∈ events r.past, Good e r.state
  lasting : Lasting Good r.past

theorem Trace.Holds.nil (Good : ι → σ → Prop) (s : σ) : Trace.Holds Good ⟨s, []⟩ :=
  ⟨fun _ he => (List.not_mem_nil he).elim, trivial⟩

/-- A step that keeps what holds of the past. -/
theorem Trace.Holds.next {Good : ι → σ → Prop} {r : Trace ι σ} (h : r.Holds Good) {event : Option ι}
    {s : σ} (hold : ∀ e ∈ events r.past, Good e s) (hnew : ∀ e ∈ event, Good e s) :
    (r.next event s).Holds Good := by
  have hnow : ∀ e ∈ events (⟨event, s⟩ :: r.past), Good e s := by
    intro e he
    rw [events, List.filterMap_cons] at he
    cases event with
    | none => exact hold e he
    | some e' =>
      rcases List.mem_cons.mp he with rfl | he
      · exact hnew e rfl
      · exact hold e he
  exact ⟨hnow, hnow, h.lasting⟩

end

/-! ## Frames that are filled -/

/-- The frame defines these names, each once and in this order. -/
structure Store.Lists {α : Type} (s : Store α) (f : FrameId) (names : List String) : Prop where
  lt_size : f < s.size
  names_eq : s.names f = names
  nodup : names.Nodup

namespace Store.Lists

variable {α : Type} {s t : Store α} {f : FrameId} {names : List String}

theorem newFrame (s : Store α) (p : Option FrameId) : (s.newFrame p).2.Lists s.size [] :=
  ⟨by simp, s.names_newFrame_size p, List.nodup_nil⟩

theorem append (h : s.Lists f names) {name : String} (hname : name ∉ names) (v : α) :
    (s.append f name v).Lists f (names ++ [name]) := by
  refine ⟨by simpa using h.lt_size, by rw [names_append s h.lt_size, h.names_eq], ?_⟩
  exact List.nodup_append.mpr ⟨h.nodup, by simp, by
    rintro a ha b hb rfl
    exact hname (List.mem_singleton.mp hb ▸ ha)⟩

theorem grows (h : s.Lists f names) {g : Option FrameId} (hgrows : Grows Prod.fst g s t)
    (hg : g ≠ some f) : t.Lists f names :=
  ⟨h.lt_size.trans_le hgrows.size_le, (hgrows.view_eq f h.lt_size hg).trans h.names_eq, h.nodup⟩

end Store.Lists

/-! ## What lasts of frames -/

section

variable {ι ε σ α β γ δ : Type} (store : σ → Store γ) (π : String × γ → δ)
  (place : ι → Option FrameId) (Good : ι → Store γ → Prop)

/-- What an event tells about the frame at its place cannot be undone in other frames. -/
structure Durable : Prop where
  lt_size {e : ι} {s : Store γ} : Good e s → ∀ f ∈ place e, f < s.size
  grows {e : ι} {g : Option FrameId} {s t : Store γ} :
    Good e s → Store.Grows π g s t → (∀ f ∈ place e, g ≠ some f) → Good e t

/-- The frame `g`, which gets new names next, is there, and no event so far is about it. -/
def Trace.Opens (r : Trace ι σ) (g : Option FrameId) : Prop :=
  ∀ f ∈ g, f < (store r.state).size ∧ ∀ e ∈ events r.past, f ∉ place e

/-- A trace has gone on as long as only the frame `g` got new names. New events are about new
frames. -/
structure Trace.Advances (g : Option FrameId) (r r' : Trace ι σ) : Prop where
  holds : r'.Holds fun e s => Good e (store s)
  grows : Store.Grows π g (store r.state) (store r'.state)
  place_of_new : ∀ e ∈ events r'.past, e ∈ events r.past ∨
    ∀ f ∈ place e, (store r.state).size ≤ f

/-- The traced run goes as the plain one, and what its events tell lasts. -/
structure Tracks (g : Option FrameId) (x' : TraceM ι ε σ α) (x : EStateM ε σ α) : Prop where
  follows : x'.Follows x
  advances : ∀ r : Trace ι σ, (r.Holds fun e s => Good e (store s)) → r.Opens store place g →
    r.Advances store π place Good g (x' r).state

variable {store π place Good} {g : Option FrameId} {r r' r'' : Trace ι σ}

namespace Trace

theorem Opens.none : r.Opens store place none := fun _ hf => by cases hf

/-- At the start nothing has come about. -/
theorem Opens.start {s : σ} {f : FrameId} (hf : f < (store s).size) :
    Trace.Opens store place ⟨s, []⟩ (some f) := by
  rintro _ ⟨⟩
  exact ⟨hf, fun e he => (List.not_mem_nil he).elim⟩

theorem Advances.refl (h : r.Holds fun e s => Good e (store s)) :
    r.Advances store π place Good g r :=
  ⟨h, .refl π g _, fun _ he => .inl he⟩

theorem Advances.trans (h : r.Advances store π place Good g r')
    (h' : r'.Advances store π place Good g r'') : r.Advances store π place Good g r'' := by
  refine ⟨h'.holds, h.grows.trans h'.grows, fun e he => ?_⟩
  rcases h'.place_of_new e he with he | hnew
  · exact h.place_of_new e he
  · exact .inr fun f hf => h.grows.size_le.trans (hnew f hf)

theorem Advances.opens (h : r.Advances store π place Good g r') (hr : r.Opens store place g) :
    r'.Opens store place g := by
  intro f hf
  obtain ⟨hlt, hold⟩ := hr f hf
  refine ⟨hlt.trans_le h.grows.size_le, fun e he hplace => ?_⟩
  rcases h.place_of_new e he with he | hnew
  · exact hold e he hplace
  · exact absurd hlt (Nat.not_lt_of_le (hnew f hplace))

/-- A step that brings no event about. -/
theorem Advances.step (hgood : Durable π place Good) (h : r.Holds fun e s => Good e (store s))
    (hr : r.Opens store place g) {s : σ} (hgrows : Store.Grows π g (store r.state) (store s)) :
    r.Advances store π place Good g (r.next none s) := by
  refine ⟨h.next (fun e he => hgood.grows (h.now e he) hgrows ?_) (fun e he => by cases he),
    hgrows, fun e he => .inl he⟩
  intro f hf hg
  exact (hr f hg).2 e he hf

end Trace

namespace Tracks

variable {x' : TraceM ι ε σ α} {x : EStateM ε σ α} {k' : α → TraceM ι ε σ β}
  {k : α → EStateM ε σ β}

theorem pure (a : α) :
    Tracks store π place Good g (pure a : TraceM ι ε σ α) (pure a) :=
  ⟨.pure a, fun _ h _ => .refl h⟩

theorem throw (e : ε) :
    Tracks store π place Good g (throw e : TraceM ι ε σ α) (throw e) :=
  ⟨.throw e, fun _ h _ => .refl h⟩

theorem weaken (h : Tracks store π place Good none x' x) (g : Option FrameId) :
    Tracks store π place Good g x' x := by
  refine ⟨h.follows, fun r hr _ => ?_⟩
  obtain ⟨hholds, hgrows, hplace⟩ := h.advances r hr .none
  exact ⟨hholds, hgrows.weaken g, hplace⟩

theorem bind (h : Tracks store π place Good g x' x)
    (hk : ∀ a, Tracks store π place Good g (k' a) (k a)) :
    Tracks store π place Good g (x' >>= k') (x >>= k) := by
  refine ⟨h.follows.bind fun a => (hk a).follows, fun r hr hopens => ?_⟩
  have hx := h.advances r hr hopens
  cases hrun : x' r with
  | ok a r' =>
    rw [hrun] at hx
    rw [bind_run_ok hrun]
    exact hx.trans ((hk a).advances r' hx.holds (hx.opens hopens))
  | error e r' =>
    rw [hrun] at hx
    rw [bind_run_error hrun]
    exact hx

theorem read {k' : σ → TraceM ι ε σ β} {k : σ → EStateM ε σ β}
    (hk : ∀ s, Tracks store π place Good g (k' s) (k s)) :
    Tracks store π place Good g (get >>= fun r => k' r.state) (get >>= k) :=
  ⟨fun r => (hk r.state).follows r, fun r => (hk r.state).advances r⟩

theorem step (hgood : Durable π place Good)
    (h : ∀ s, Store.Grows π g (store s) (store (x s).state)) :
    Tracks store π place Good g (TraceM.step x) x := by
  refine ⟨.step x, fun r hr hopens => ?_⟩
  rw [TraceM.step_run, EStateM.Result.state_mapState]
  exact .step hgood hr hopens (h r.state)

theorem closing (hgood : Durable π place Good) {h : σ → σ} (hstore : ∀ s, store (h s) = store s)
    (hx : Tracks store π place Good none x' x) :
    Tracks store π place Good none (closing (fun r => r.next none (h r.state)) x')
      (closing h x) := by
  refine ⟨hx.follows.closing h, fun r hr hopens => ?_⟩
  have hadvances := hx.advances r hr hopens
  rw [ObjectLang.closing, EStateM.Result.state_mapState]
  refine hadvances.trans (.step hgood hadvances.holds .none ?_)
  rw [hstore]
  exact .refl π _ _

/-- What is recorded at the end may be about a frame that was opened on the way. -/
theorem mark {e : α → ι} (v : α → β) (hx : Tracks store π place Good g x' x)
    (hnew : ∀ s a t, x s = .ok a t →
      Good (e a) (store t) ∧ ∀ f ∈ place (e a), (store s).size ≤ f) :
    Tracks store π place Good g (x' >>= fun a => do TraceM.mark (e a); Pure.pure (v a))
      (x >>= fun a => Pure.pure (v a)) := by
  refine ⟨hx.follows.mark e v, fun r hr hopens => ?_⟩
  have hadvances := hx.advances r hr hopens
  cases hrun : x' r with
  | error e' r' =>
    rw [hrun] at hadvances
    rw [bind_run_error hrun]
    exact hadvances
  | ok a r' =>
    rw [hrun] at hadvances
    rw [bind_run_ok hrun, bind_run_ok (TraceM.mark_run (e a) r'), pure_run]
    obtain ⟨hholds, hplace⟩ := hnew _ _ _ (hx.follows.of_ok hrun)
    refine ⟨hadvances.holds.next hadvances.holds.now fun e' he' => ?_, hadvances.grows, ?_⟩
    · cases he'
      exact hholds
    · intro e' he'
      rcases List.mem_cons.mp he' with rfl | he'
      · exact .inr hplace
      · exact hadvances.place_of_new e' he'

/-- Names may be put into a frame that is opened on the way. -/
theorem opened (hgood : Durable π place Good) {new : EStateM ε σ FrameId} {p : σ → Option FrameId}
    (hnew : ∀ s, ∃ t, new s = .ok (store s).size t ∧ store t = ((store s).newFrame (p s)).2)
    {k' : FrameId → TraceM ι ε σ β} {k : FrameId → EStateM ε σ β}
    (hk : ∀ f, Tracks store π place Good (some f) (k' f) (k f)) :
    Tracks store π place Good none (TraceM.step new >>= k') (new >>= k) := by
  refine ⟨.bind (.step new) fun f => (hk f).follows, fun r hr _ => ?_⟩
  obtain ⟨t, hrun, ht⟩ := hnew r.state
  have hgrows : Store.Grows π none (store r.state) (store t) := ht ▸ .newFrame π _ _
  have hstep : r.Advances store π place Good none (r.next none t) := .step hgood hr .none hgrows
  have hopens : (r.next none t).Opens store place (some (store r.state).size) := by
    rintro f ⟨⟩
    refine ⟨by rw [Trace.next, ht]; simp, fun e he hplace => ?_⟩
    exact lt_irrefl _ (hgood.lt_size (hr.now e he) _ hplace)
  have hall := (hk (store r.state).size).advances _ hstep.holds hopens
  have hrun' : (TraceM.step new : TraceM ι ε σ FrameId) r =
      .ok (store r.state).size (r.next none t) := by
    rw [TraceM.step_run, hrun]
    rfl
  rw [bind_run_ok hrun']
  refine ⟨hall.holds, hgrows.enclosed le_rfl hall.grows, fun e he => ?_⟩
  rcases hall.place_of_new e he with he | hlater
  · exact .inl he
  · exact .inr fun f hf => hgrows.size_le.trans (hlater f hf)

end Tracks

end

end ObjectLang
