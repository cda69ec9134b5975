import ObjectLang.Proofs.Eval.Ledger
import ObjectLang.Proofs.Returns
import Mathlib.Order.CompletePartialOrder

/-!
# Where functions belong

A function remembers the frame in which it was made, and this frame belongs to a block or to a call
that was active at that time. So what a block makes belongs into the frame of the block, or else
into that of a call of a function which was there before the block was entered. -/

namespace ObjectLang

open Eval

/-- The frame `g` of `w` is inside of the frame of a call of a function that was there in `u`. The
call was made after the first frame that was opened in `u`. -/
def World.InCall (u w : World) (g : FrameId) : Prop :=
  ∃ h ∈ w.store.chain g, u.store.size < h ∧ ∃ id k, id < u.functions.size ∧
    (u.function id).code = .closure k ∧ w.store.parent? h = (some k.captured).filter (· < h)

/-- The frame `g` of `w` is inside of the first frame that was opened in `u`, or inside of the frame
of a call of a function that was there before. -/
def World.Belongs (u w : World) (g : FrameId) : Prop :=
  u.store.size ∈ w.store.chain g ∨ u.InCall w g

/-- What is noted of a block whose frame is opened in `u`: the frames that belong to it. -/
structure World.Noted (u : World) (frames : Set FrameId) (w : World) : Prop where
  size_lt : u.store.size < w.store.size
  functions_le : u.functions.size ≤ w.functions.size
  /-- Functions stay what they are. -/
  function_eq : ∀ id < u.functions.size, w.function id = u.function id
  belongs : ∀ g ∈ frames, g < w.store.size ∧ u.Belongs w g
  /-- What has been made since `u` remembers frames of the block. -/
  made : ∀ id, u.functions.size ≤ id → ∀ k, (w.function id).code = .closure k →
    k.captured ∈ frames

variable {u w w' : World} {frames : Set FrameId}

namespace World

theorem Belongs.of_chain_eq {g : FrameId} (h : u.Belongs w g)
    (hchain : w'.store.chain g = w.store.chain g)
    (hparent : ∀ f ∈ w.store.chain g, w'.store.parent? f = w.store.parent? f) :
    u.Belongs w' g := by
  rcases h with h | ⟨f, hf, hlt, id, k, hid, hcode, hp⟩
  · exact .inl (hchain ▸ h)
  · exact .inr ⟨f, hchain ▸ hf, hlt, id, k, hid, hcode, (hparent f hf).trans hp⟩

/-- Where a frame belongs is settled when it is opened. -/
theorem Belongs.grows {π : String × Value → String} {p : Option FrameId} {g : FrameId}
    (h : u.Belongs w g) (hg : g < w.store.size) (hgrows : Store.Grows π p w.store w'.store) :
    u.Belongs w' g :=
  h.of_chain_eq (hgrows.chain_eq hg) fun f hf =>
    hgrows.parent_eq f ((w.store.le_of_mem_chain hf).trans_lt hg)

/-- A frame belongs where its parent does. -/
theorem Belongs.child {g p : FrameId} (h : u.Belongs w p) (hp : w.store.parent? g = some p) :
    u.Belongs w g := by
  have hchain : w.store.chain g = g :: w.store.chain p := by rw [w.store.chain_eq, hp]; rfl
  rcases h with h | ⟨f, hf, hrest⟩
  · exact .inl (hchain ▸ List.mem_cons_of_mem _ h)
  · exact .inr ⟨f, hchain ▸ List.mem_cons_of_mem _ hf, hrest⟩

namespace Noted

/-- Only frames, parents and functions count. -/
theorem congr (h : u.Noted frames w) (hsize : w'.store.size = w.store.size)
    (hparent : ∀ f, w'.store.parent? f = w.store.parent? f)
    (hfunctions : w'.functions = w.functions) : u.Noted frames w' := by
  have hfunction (id : FunctionId) : w'.function id = w.function id := by
    rw [function, function, hfunctions]
  refine ⟨hsize ▸ h.size_lt, hfunctions ▸ h.functions_le, fun id hid => ?_, fun g hg => ?_,
    fun id hid k hk => h.made id hid k (hfunction id ▸ hk)⟩
  · rw [hfunction, h.function_eq id hid]
  · obtain ⟨hlt, hbelongs⟩ := h.belongs g hg
    exact ⟨hsize ▸ hlt, hbelongs.of_chain_eq (Store.chain_congr hparent g) fun f _ => hparent f⟩

/-- A frame may be opened inside of one of the block, or for a call of an older function. -/
theorem opened (h : u.Noted frames w) {p : FrameId}
    (hp : p ∈ frames ∨ ∃ id k, id < u.functions.size ∧ (u.function id).code = .closure k ∧
      p = k.captured) : u.Noted (insert w.store.size frames) (w.opened p) := by
  have hgrows : Store.Grows Prod.fst none w.store (w.opened p).store := .newFrame _ _ _
  have hlt : w.store.size < (w.opened p).store.size := w.lt_size_opened p
  refine ⟨h.size_lt.trans hlt, h.functions_le, h.function_eq, fun g hg => ?_,
    fun id hid k hk => .inr (h.made id hid k hk)⟩
  rcases hg with rfl | hg
  · refine ⟨hlt, ?_⟩
    rcases hp with hp | ⟨id, k, hid, hcode, rfl⟩
    · obtain ⟨hp, hbelongs⟩ := h.belongs p hp
      exact (hbelongs.grows hp hgrows).child (w.store.parent?_newFrame_size hp)
    · refine .inr ⟨w.store.size, Store.mem_chain_self _ _, h.size_lt, id, k, hid, hcode, ?_⟩
      rw [World.opened, Store.parent?_newFrame, if_pos rfl]
  · obtain ⟨hg, hbelongs⟩ := h.belongs g hg
    exact ⟨hg.trans hlt, hbelongs.grows hg hgrows⟩

theorem withFunction (h : u.Noted frames w) {captured : FrameId} (hcaptured : captured ∈ frames)
    (d : Definition) (m : MeterId) (isMethod : Bool) :
    u.Noted frames (w.withFunction (d.function captured m isMethod)) := by
  refine ⟨h.size_lt, ?_, fun id hid => ?_, h.belongs, fun id hid k hk => ?_⟩
  · rw [World.withFunction, Array.size_push]
    exact Nat.le_succ_of_le h.functions_le
  · rw [function_withFunction, if_neg (hid.trans_le h.functions_le).ne, h.function_eq id hid]
  · rw [function_withFunction] at hk
    split at hk
    · cases hk
      exact hcaptured
    · exact h.made id hid k hk

end Noted

end World

/-- The notes on a block whose frame is opened in `u`. -/
def Ledger.ofBlock (u : World) : Ledger (Set FrameId) where
  Fits frames w := u.Noted frames w
  Site frames f := f ∈ frames
  Base frames f := f ∈ frames ∨ ∃ id k, id < u.functions.size ∧
    (u.function id).code = .closure k ∧ f = k.captured
  Known _ _ := True
  site_mono h hf := h hf
  known_mono _ _ := trivial
  base_of_site := .inl
  base_mono h := Or.imp_left fun hf => h hf
  known_plain _ := trivial
  known_list := ⟨fun _ _ _ => trivial, fun _ => trivial⟩
  known_bound _ _ := trivial
  base_captured {frames w id c} h _ hcode := by
    rcases Nat.lt_or_ge id u.functions.size with hid | hid
    · exact .inr ⟨id, c, hid, h.function_eq id hid ▸ hcode, rfl⟩
    · exact .inl (h.made id hid c hcode)
  fits_congr h hstore hfunctions _ :=
    h.congr (by rw [hstore]) (fun f => by rw [hstore]) hfunctions
  opened {frames w p} _ h hp :=
    ⟨insert w.store.size frames, Set.subset_insert _ _, h.opened hp, Set.mem_insert _ _, trivial⟩
  modify h _ _ := h.congr (Store.size_modify _ _ _) (fun f => Store.parent?_modify _ _ _ _) rfl
  function {frames w captured} d m isMethod h hcaptured :=
    ⟨frames, le_rfl, h.withFunction hcaptured d m isMethod, trivial⟩
  log h _ := h.congr rfl (fun _ => rfl) rfl

namespace Eval

/-- All that is made while a block is run belongs to the block or to a call of an older function. -/
theorem noted_stmts (n : Nat) {c : Context} {last : Value} {body : List Stmt}
    (h : u.Noted frames w) (hc : c.frame ∈ frames) :
    ∃ frames', u.Noted frames' (stmts (call n) c last body w).state := by
  have hlast : (Ledger.ofBlock u).Known frames last := trivial
  have hkeeps := Ledger.Keeps.stmts (Ledger.Keeps.call n) hc hlast body
  obtain ⟨frames', -, hcovers, -⟩ := hkeeps frames ⟨w, []⟩ le_rfl ⟨h, nofun⟩
  have hfollows := (Traced.tracked_stmts (call_confined n) (Traced.tracked_call n) c last
    body).follows.state_eq ⟨w, []⟩
  exact ⟨frames', hfollows ▸ hcovers.now⟩

end Eval

end ObjectLang
