import Mathlib.Logic.Relation
import ObjectLang.Proofs.Eval.Rendering

/-!
# Printing cuts cycles and nothing else

Every value has a text, however the objects in it refer to each other. An object is cut short exactly
where it stands inside of itself. So an object that does not lead back to itself is shown in full
wherever it occurs, also if it occurs several times, and of a value without any such cycle nothing is
cut at all.

Both follow from one lemma on renderings, `World.Renders.transfer`: two ways to cut give the same
text if they agree at every object that the rendering comes to. The objects around a value lead to
everything that the value leads to (`World.Occurs.refers`), so an object that is cut leads to itself.
-/

namespace ObjectLang

/-- The object with this frame is the value or an item of it, also of a list in the list. -/
inductive Value.Mentions : Value → FrameId → Prop where
  | object {name : Option String} {members : FrameId} : Mentions (.object name members) members
  | item {items : List Value} {v : Value} {f : FrameId} :
      v ∈ items → Mentions v f → Mentions (.list items) f

namespace World

/-- The second object is mentioned in a member of the first one. -/
def Refers (w : World) (f g : FrameId) : Prop := ∃ v ∈ w.memberValues f, v.Mentions g

/-- The value leads to the object. -/
def Reaches (w : World) (v : Value) (f : FrameId) : Prop :=
  ∃ g, v.Mentions g ∧ Relation.ReflTransGen w.Refers g f

/-- The object leads back to itself. -/
def OwnAncestor (w : World) (f : FrameId) : Prop := Relation.TransGen w.Refers f f

/-- A value stands in the root, and the path is the list of the objects around it. An object that is
on its own path is not entered again. -/
inductive Occurs (w : World) (root : Value) : List FrameId → Value → Prop where
  | root : Occurs w root [] root
  | item {path : List FrameId} {items : List Value} {v : Value} :
      Occurs w root path (.list items) → v ∈ items → Occurs w root path v
  | member {path : List FrameId} {name : Option String} {members : FrameId} {v : Value} :
      Occurs w root path (.object name members) → members ∉ path → v ∈ w.memberValues members →
      Occurs w root (members :: path) v

variable {w : World} {root v : Value} {path path' : List FrameId} {f : FrameId}

/-! ## What a value leads to -/

theorem reaches_object {name : Option String} {members : FrameId} :
    w.Reaches (.object name members) f ↔ Relation.ReflTransGen w.Refers members f := by
  constructor
  · rintro ⟨_, hmentions, hreach⟩
    cases hmentions
    exact hreach
  · exact fun h => ⟨members, .object, h⟩

theorem Reaches.item {items : List Value} (hmem : v ∈ items) (h : w.Reaches v f) :
    w.Reaches (.list items) f := by
  obtain ⟨g, hmentions, hreach⟩ := h
  exact ⟨g, .item hmem hmentions, hreach⟩

theorem Reaches.refers {members : FrameId} (hmem : v ∈ w.memberValues members)
    (h : w.Reaches v f) : Relation.TransGen w.Refers members f := by
  obtain ⟨g, hmentions, hreach⟩ := h
  exact .head' ⟨v, hmem, hmentions⟩ hreach

/-- The objects around a value lead to whatever the value leads to. -/
theorem Occurs.refers (h : w.Occurs root path v) :
    ∀ g ∈ path, w.Reaches v f → Relation.TransGen w.Refers g f := by
  induction h with
  | root => exact fun _ hg => absurd hg List.not_mem_nil
  | item _ hmem ih => exact fun g hg hv => ih g hg (hv.item hmem)
  | member _ _ hmem ih =>
    intro g hg hv
    have hinner := hv.refers hmem
    rcases List.mem_cons.mp hg with rfl | hg
    · exact hinner
    · exact ih g hg (reaches_object.mpr hinner.to_reflTransGen)

/-! ## Where objects are cut -/

/-- A relation between the paths of two renderings that carries over from a value to its parts, and
under which both renderings cut the same objects. -/
structure SameCuts (w : World) (Cut Cut' : List FrameId → FrameId → Prop)
    (Rel : List FrameId → List FrameId → Value → Prop) : Prop where
  cut {path path' : List FrameId} {name : Option String} {members : FrameId} :
    Rel path path' (.object name members) → (Cut path members ↔ Cut' path' members)
  item {path path' : List FrameId} {items : List Value} {v : Value} :
    Rel path path' (.list items) → v ∈ items → Rel path path' v
  member {path path' : List FrameId} {name : Option String} {members : FrameId} {v : Value} :
    Rel path path' (.object name members) → ¬ Cut path members → v ∈ w.memberValues members →
    Rel (members :: path) (members :: path') v

section

variable {Cut Cut' : List FrameId → FrameId → Prop}
  {Rel : List FrameId → List FrameId → Value → Prop}

theorem SameCuts.symm (h : SameCuts w Cut Cut' Rel) :
    SameCuts w Cut' Cut fun path path' v => Rel path' path v :=
  ⟨fun hrel => (h.cut hrel).symm, h.item,
    fun hrel hcut => h.member hrel fun hcut' => hcut ((h.cut hrel).mp hcut')⟩

mutual

theorem Renders.transfer (hsame : SameCuts w Cut Cut' Rel) :
    ∀ {path path' : List FrameId} {v : Value} {text : String},
      w.Renders Cut path v text → Rel path path' v → w.Renders Cut' path' v text
  | _, _, _, _, .leaf h, _ => .leaf h
  | _, _, _, _, .list h, hrel =>
    .list (RendersAll.transfer hsame h fun _ hmem => hsame.item hrel hmem)
  | _, _, _, _, .cut h, hrel => .cut ((hsame.cut hrel).mp h)
  | _, _, _, _, .shown h hmembers, hrel =>
    .shown (fun hcut => h ((hsame.cut hrel).mpr hcut))
      (RendersAll.transfer hsame hmembers fun _ hmem => hsame.member hrel h hmem)

theorem RendersAll.transfer (hsame : SameCuts w Cut Cut' Rel) :
    ∀ {path path' : List FrameId} {items : List Value} {texts : List String},
      w.RendersAll Cut path items texts → (∀ v ∈ items, Rel path path' v) →
        w.RendersAll Cut' path' items texts
  | _, _, _, _, .nil, _ => .nil
  | _, _, _, _, .cons h hrest, hrel =>
    .cons (Renders.transfer hsame h (hrel _ List.mem_cons_self))
      (RendersAll.transfer hsame hrest fun v hmem => hrel v (List.mem_cons_of_mem _ hmem))

end

theorem renders_congr (hsame : SameCuts w Cut Cut' Rel) (path path' : List FrameId)
    (hrel : Rel path path' v) {text : String} :
    w.Renders Cut path v text ↔ w.Renders Cut' path' v text :=
  ⟨fun h => h.transfer hsame hrel, fun h => h.transfer hsame.symm hrel⟩

end

/-- A rendering depends on the path only for the objects that the value leads to. -/
theorem sameCuts_onPath (w : World) :
    SameCuts w OnPath OnPath fun path path' v =>
      ∀ f, w.Reaches v f → (f ∈ path ↔ f ∈ path') where
  cut hrel := hrel _ (reaches_object.mpr .refl)
  item hrel hmem f hf := hrel f (hf.item hmem)
  member hrel _ hmem f hf := by
    rw [List.mem_cons, List.mem_cons,
      hrel f (reaches_object.mpr (hf.refers hmem).to_reflTransGen)]

/-- Nothing is cut if the value leads to no object of the path and to none that leads to itself. -/
theorem sameCuts_never (w : World) :
    SameCuts w OnPath Never fun path _ v => ∀ f, w.Reaches v f → f ∉ path ∧ ¬ w.OwnAncestor f where
  cut hrel := iff_of_false (hrel _ (reaches_object.mpr .refl)).1 id
  item hrel hmem f hf := hrel f (hf.item hmem)
  member {path _ _ members _} hrel _ hmem f hf := by
    have hinner := hf.refers hmem
    obtain ⟨hpath, hcycle⟩ := hrel f (reaches_object.mpr hinner.to_reflTransGen)
    refine ⟨fun hf' => ?_, hcycle⟩
    rcases List.mem_cons.mp hf' with rfl | hf'
    · exact hcycle hinner
    · exact hpath hf'

/-! ## The text of a graph -/

/-- An object is cut only where it leads back to itself. -/
theorem Occurs.ownAncestor {name : Option String} (h : w.Occurs root path (.object name f))
    (hpath : f ∈ path) : w.OwnAncestor f :=
  h.refers f hpath (reaches_object.mpr .refl)

/-- Nothing around an object that does not lead back to itself matters for its text. -/
theorem Occurs.textIn_eq_print {name : Option String} (h : w.Occurs root path (.object name f))
    (hcycle : ¬ w.OwnAncestor f) :
    w.textIn path (.object name f) = w.print (.object name f) := by
  have hrel : ∀ g, w.Reaches (.object name f) g → (g ∈ path ↔ g ∈ []) := by
    intro g hg
    -- an object of the path that the object leads to would lead back to the object
    refine iff_of_false (fun hpath => hcycle ?_) List.not_mem_nil
    have hback := h.refers g hpath (reaches_object.mpr .refl)
    exact hback.trans_right (reaches_object.mp hg)
  have halone := (renders_congr (sameCuts_onPath w) path [] hrel).mp (renders_textIn w path _)
  rw [renders_iff.mp halone, textIn_nil]

/-- The text of a value is a part of the text of the root, wherever it occurs. -/
theorem Occurs.partOf (h : w.Occurs root path v) : PartOf (w.textIn path v) (w.print root) := by
  induction h with
  | root => exact .refl _
  | item _ hmem ih =>
    rw [textIn_list] at ih
    exact (partOf_listText (List.mem_map_of_mem hmem)).trans ih
  | member _ hpath hmem ih =>
    rw [textIn_object hpath] at ih
    exact (partOf_shownObject hmem).trans ih

theorem renders_never_iff (hcycle : ∀ f, w.Reaches v f → ¬ w.OwnAncestor f) {text : String} :
    w.Renders Never [] v text ↔ text = w.print v := by
  have hrel : ∀ f, w.Reaches v f → f ∉ [] ∧ ¬ w.OwnAncestor f :=
    fun f hf => ⟨List.not_mem_nil, hcycle f hf⟩
  rw [← textIn_nil, ← renders_iff,
    renders_congr (sameCuts_never w) [] [] hrel]

/-- Printing ends for every value and every stack, leaves the stack as it was, and renders the value
with an object cut exactly where it is on its own path. An object that does not lead back to itself
is shown in full at every occurrence, as if it were printed alone, and a value that leads to no cycle
is printed as if objects were never cut. -/
theorem print_cuts_cycles (w : World) (v : Value) :
    (∀ stack, ∃ text, ∀ text' stack',
      w.Prints stack v text' stack' ↔ text' = text ∧ stack' = stack) ∧
    w.Prints [] v (w.print v) [] ∧
    (∀ stack text stack',
      w.Prints stack v text stack' ↔ stack' = stack ∧ w.Renders OnPath stack v text) ∧
    (∀ text, w.Renders OnPath [] v text ↔ text = w.print v) ∧
    (∀ path name f, w.Occurs v path (.object name f) → ¬ w.OwnAncestor f →
      f ∉ path ∧ PartOf (w.print (.object name f)) (w.print v) ∧
        ∀ text, w.Renders OnPath path (.object name f) text ↔ text = w.print (.object name f)) ∧
    ((∀ f, w.Reaches v f → ¬ w.OwnAncestor f) →
      ∀ text, w.Renders Never [] v text ↔ text = w.print v) := by
  refine ⟨fun stack => ⟨w.textIn stack v, fun text stack' => ?_⟩, ?_, ?_, ?_, ?_, ?_⟩
  · rw [prints_iff, renders_iff, and_comm]
  · exact (renders_textIn w [] v).prints
  · exact fun stack text stack' => prints_iff
  · exact fun text => renders_iff
  · intro path name f hoccurs hcycle
    have hprint := hoccurs.textIn_eq_print hcycle
    refine ⟨fun hpath => hcycle (hoccurs.ownAncestor hpath), ?_, fun text => ?_⟩
    · exact hprint ▸ hoccurs.partOf
    · rw [renders_iff, hprint]
  · exact fun hcycle text => renders_never_iff hcycle

/-- An object that has itself as a member and another one twice. -/
def sharing : World where
  store := (Store.empty.newFrame none).2.append 0 "x" (.integer 1) |>.newFrame none |>.2
    |>.append 1 "a" (.object none 0) |>.append 1 "b" (.object none 0)
    |>.append 1 "me" (.object none 1)

theorem print_cuts_cycles_sharing :
    sharing.OwnAncestor 1 ∧ ¬ sharing.OwnAncestor 0 ∧
      sharing.Occurs (.object none 1) [1] (.object none 0) ∧
      sharing.print (.object none 1) =
        "Object \x7b a = `Object \x7b x = `1` \x7d`, b = `Object \x7b x = `1` \x7d`, " ++
          "me = `Object \x7b ... \x7d` \x7d" ∧
      PartOf (sharing.print (.object none 0)) (sharing.print (.object none 1)) ∧
      sharing.Renders Never [] (.object none 0) "Object \x7b x = `1` \x7d" := by
  have hmembers : sharing.memberValues 1 = [.object none 0, .object none 0, .object none 1] := rfl
  have hself : sharing.Refers 1 1 := ⟨.object none 1, by rw [hmembers]; simp, .object⟩
  have hleaf (f : FrameId) : ¬ sharing.Refers 0 f := by
    rintro ⟨v, hmem, hmentions⟩
    rw [show sharing.memberValues 0 = [.integer 1] from rfl, List.mem_singleton] at hmem
    subst hmem
    cases hmentions
  have hcycle : ¬ sharing.OwnAncestor 0 := by
    intro h
    obtain ⟨f, hf, -⟩ := Relation.TransGen.head'_iff.mp h
    exact hleaf f hf
  have hreach : ∀ f, sharing.Reaches (.object none 0) f → ¬ sharing.OwnAncestor f := by
    intro f hf
    rcases (reaches_object.mp hf).cases_head with rfl | ⟨g, hg, -⟩
    · exact hcycle
    · exact absurd hg (hleaf g)
  have hoccurs : sharing.Occurs (.object none 1) [1] (.object none 0) :=
    .member .root List.not_mem_nil (by rw [hmembers]; simp)
  obtain ⟨-, -, -, -, hshared, -⟩ := print_cuts_cycles sharing (.object none 1)
  obtain ⟨-, -, -, -, -, hplain⟩ := print_cuts_cycles sharing (.object none 0)
  exact ⟨.single hself, hcycle, hoccurs, by decide +kernel, (hshared _ _ _ hoccurs hcycle).2.1,
    (hplain hreach _).mpr (by decide +kernel)⟩

end World

end ObjectLang
