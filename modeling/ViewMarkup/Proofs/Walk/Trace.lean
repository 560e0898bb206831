import ViewMarkup.Proofs.Walk.Tags
import ViewMarkup.Proofs.Walk.Views

/-!
# What elements leave in a walk

A walk over elements changes the frame around them and the buffer of this
frame, and nothing else that the code depends on.  A trace says what the elements have written; the
part of it that belongs to the slots of a custom element goes to the splice point of the frame, the
rest to the end of the buffer.

* `Trace.Spells` ties a trace to the code of the elements.
* `absorb` and `weave` are the changes of the frame and of its buffer, and `absorb_followedBy` and
  `weave_followedBy` put two of them together.
* `built` is the walk after elements, given their trace and their code.
-/

namespace ViewMarkup.Walk

open List
open ChildView (indices slotIndices slotIndices_append)
open Script (Node)

variable {options : Options} {c w v : Walk} {d : Draft} {frame parent : Frame} {b : List Fragment}
  {splice : Nat} {t : Trace}

/-- What elements one after the other have written. -/
structure Trace where
  /-- How many elements there are. -/
  nested : Nat
  /-- Slot content is among them. -/
  holds : Bool
  /-- The fragments for the slots of the custom element around. -/
  given : List Fragment
  fragments : List Fragment

namespace Trace

variable {t : Trace}

/-- Nothing written. -/
def none : Trace :=
  ⟨0, false, [], []⟩

/-- The trace of one element followed by that of others. -/
def followedBy (first others : Trace) : Trace :=
  ⟨first.nested + others.nested, first.holds || others.holds, first.given ++ others.given,
    first.fragments ++ others.fragments⟩

/-- The fragments of a trace are the code of the elements, after what stands before it. -/
structure Spells (intro : List Node) (t : Trace) (code : Code) : Prop where
  finished_given : Draft.Finished t.given
  finished : Draft.Finished t.fragments
  given : Draft.codeOf t.given = code.given
  nodes : Draft.codeOf t.fragments = intro ++ code.nodes

/-- Slots have been given contents only if the frame may hold them. -/
structure Fits (t : Trace) (frame : Frame) : Prop where
  custom : t.given ≠ [] → frame.isCustom = true
  free : t.given ≠ [] → frame.holdsSlots = false
  holds : t.given ≠ [] → t.holds = true

theorem spells_none {last : Int} : Spells [] none (.none last) :=
  ⟨Draft.finished_nil, Draft.finished_nil, rfl, rfl⟩

theorem fits_plain (ht : t.given = []) : Fits t frame :=
  ⟨fun h => absurd ht h, fun h => absurd ht h, fun h => absurd ht h⟩

theorem Fits.given_nil (ht : t.Fits frame) (hframe : frame.isCustom = false) : t.given = [] := by
  by_contra hgiven
  rw [ht.custom hgiven] at hframe
  cases hframe

theorem Spells.followedBy {first others : Trace} {code code' : Code} (hfirst : Spells [] first code)
    (hothers : Spells [] others code') : Spells [] (first.followedBy others) (code.followedBy code') where
  finished_given := hfirst.finished_given.append hothers.finished_given
  finished := hfirst.finished.append hothers.finished
  given := by
    show Draft.codeOf (first.given ++ others.given) = code.given ++ code'.given
    rw [Draft.codeOf_append, hfirst.given, hothers.given]
  nodes := by
    show Draft.codeOf (first.fragments ++ others.fragments) = [] ++ (code.nodes ++ code'.nodes)
    rw [Draft.codeOf_append, hfirst.nodes, hothers.nodes]
    rfl

end Trace

/-! ### The frame around -/

/-- Whether a frame keeps its views in a table. -/
def keepsTable (frame : Frame) : Bool :=
  match frame.kind with
  | .slotContent | .skipped => true
  | _ => false

/-- The change of a frame by elements inside, given their trace and their views. -/
def absorb (t : Trace) (views : List ChildView) (frame : Frame) : Frame :=
  { frame with
    nestedCount := frame.nestedCount + t.nested
    children := if keepsTable frame then frame.children else frame.children ++ indices views
    slotChildren := frame.slotChildren ++ slotIndices views
    slotMap :=
      if keepsTable frame then
        views.foldl (fun table view => addSlotView view.slot view.index table) frame.slotMap
      else frame.slotMap
    holdsSlots := frame.holdsSlots || t.holds
    hasOpenChild := false }

theorem absorb_aside (t : Trace) (views : List ChildView) : Draft.Aside (absorb t views) :=
  fun _ _ => rfl

theorem absorb_none (hframe : frame.hasOpenChild = false) : absorb .none [] frame = frame := by
  cases frame
  cases hframe
  simp only [absorb, Trace.none, indices, slotIndices, filter_nil,
    map_nil, append_nil, foldl_nil, Nat.add_zero, Bool.or_false, ite_self]

theorem absorb_followedBy (first others : Trace) (views views' : List ChildView) :
    absorb others views' (absorb first views frame) =
      absorb (first.followedBy others) (views ++ views') frame := by
  have hkeeps : keepsTable (absorb first views frame) = keepsTable frame := rfl
  rw [absorb, hkeeps]
  cases hframe : keepsTable frame with
  | true =>
    simp only [absorb, hframe, Trace.followedBy, if_true, slotIndices_append,
      foldl_append, append_assoc, Nat.add_assoc, Bool.or_assoc]
  | false =>
    simp only [absorb, hframe, Trace.followedBy, Bool.false_eq_true, if_false,
      slotIndices_append, ChildView.indices_append, append_assoc, Nat.add_assoc,
      Bool.or_assoc]

/-- The view that a frame is for, as the frame around records it. -/
def childOf (view : Frame) : ChildView :=
  ⟨view.index, view.tagName = Frame.slotTag, Element.slotFor view.attributes⟩

/-- A view that is recorded has been absorbed when its tag has ended. -/
theorem absorb_view (view : Frame) (fragments : List Fragment) (frame : Frame) :
    shut (recordChild view (entered frame)) =
      absorb ⟨1, false, [], fragments⟩ [childOf view] frame := by
  by_cases hslot : view.tagName = Frame.slotTag
  · cases hkind : frame.kind <;>
      simp [shut, recordChild, entered, absorb, keepsTable, childOf, hslot, hkind, Element.slotFor,
        indices, slotIndices]
  · cases hkind : frame.kind <;>
      simp [shut, recordChild, entered, absorb, keepsTable, childOf, hslot, hkind, Element.slotFor,
        indices, slotIndices]

section

variable (given : List Fragment) (fragments : List Fragment) (frame : Frame)

theorem absorb_bare : shut (entered frame) = absorb ⟨1, false, given, fragments⟩ [] frame := by
  simp [shut, entered, absorb, indices, slotIndices]

theorem absorb_content :
    shut (holding (entered frame)) = absorb ⟨1, true, given, fragments⟩ [] frame := by
  simp [shut, holding, entered, absorb, indices, slotIndices]

end

/-! ### The buffer -/

/-- The content of a buffer after elements, given the splice point of the frame around. -/
def weave (splice : Nat) (t : Trace) (b : List Fragment) : List Fragment :=
  b.take splice ++ t.given ++ b.drop splice ++ t.fragments

theorem weave_plain (ht : t.given = []) (splice : Nat) (b : List Fragment) :
    weave splice t b = b ++ t.fragments := by
  rw [weave, ht, append_nil, take_append_drop]

theorem length_weave (t : Trace) :
    (weave splice t b).length = b.length + t.given.length + t.fragments.length := by
  rw [weave, length_append, length_append, length_append, length_take,
    length_drop]
  omega

theorem finished_weave {intro : List Node} {code : Code} (ht : t.Spells intro code)
    (hb : Draft.Finished b) : Draft.Finished (weave splice t b) :=
  (((hb.of_subset (take_subset _ _)).append ht.finished_given).append
    (hb.of_subset (drop_subset _ _))).append ht.finished

section

variable {first : Trace} {views : List ChildView} {others : Trace} (hfirst : first.Fits frame)
  (hothers : others.Fits (absorb first views frame))
include hfirst hothers

/-- Of two traces in a row only one has something for the splice point. -/
theorem weave_followedBy (hsplice : splice ≤ b.length) :
    weave splice others (weave splice first b) = weave splice (first.followedBy others) b := by
  by_cases hnone : others.given = []
  · rw [weave_plain hnone]
    simp only [weave, Trace.followedBy, hnone, append_nil, append_assoc]
  · have hfree : first.given = [] := by
      by_contra hgiven
      have hheld : (absorb first views frame).holdsSlots = true := by
        show (frame.holdsSlots || first.holds) = true
        rw [hfirst.holds hgiven, Bool.or_true]
      rw [hothers.free hnone] at hheld
      cases hheld
    rw [weave_plain hfree]
    simp only [weave, Trace.followedBy, hfree, nil_append, append_assoc,
      take_append_of_le_length hsplice, drop_append_of_le_length hsplice]

theorem fits_followedBy : (first.followedBy others).Fits frame := by
  have hcases : (first.followedBy others).given ≠ [] → first.given ≠ [] ∨ others.given ≠ [] := by
    intro hgiven
    by_contra hneither
    rw [not_or, not_not, not_not] at hneither
    exact hgiven (by simp only [Trace.followedBy, hneither, append_nil])
  refine ⟨fun h => ?_, fun h => ?_, fun h => ?_⟩
  · exact (hcases h).elim hfirst.custom hothers.custom
  · rcases hcases h with h | h
    · exact hfirst.free h
    · exact (Bool.or_eq_false_iff.mp (hothers.free h)).1
  · rcases hcases h with h | h
    · exact (congrArg (· || others.holds) (hfirst.holds h)).trans (Bool.true_or _)
    · exact (congrArg (first.holds || ·) (hothers.holds h)).trans (Bool.or_true _)

end

/-! ### The walk after elements -/

theorem head?_inTag (c : Walk) (d : Draft) (frame : Frame) (b : List Fragment) :
    ∃ own, (inTag c d frame b).draft.frames.head? = some { frame with own } := by
  cases hown : frame.own with
  | none =>
    refine ⟨none, ?_⟩
    rw [inTag_shared hown, ← hown]
    rfl
  | some own =>
    refine ⟨some b, ?_⟩
    rw [inTag, Draft.setBuffer_push_own (by rw [hown]; rfl)]
    rfl

/-- The splice point of the frame on top. -/
def topSplice (d : Draft) : Nat :=
  (d.frames.head?.map (·.splice)).getD 0

/-- The walk after elements, given their trace and their code. -/
def built (c : Walk) (t : Trace) (code : Code) : Walk :=
  { c with
    treeIndex := code.last
    initialized := c.initialized || c.draft.frames.isEmpty }.withDraft
      ((c.draft.modifyTop (absorb t code.views)).setBuffer
        (weave (topSplice c.draft) t c.draft.buffer))

theorem built_inTag (c : Walk) (d : Draft) (frame : Frame) (b : List Fragment) (t : Trace)
    (code : Code) : built (inTag c d frame b) t code =
      inTag { c with treeIndex := code.last } d (absorb t code.views frame)
        (weave frame.splice t b) := by
  obtain ⟨own, hhead⟩ := head?_inTag c d frame b
  have hsplice : topSplice (inTag c d frame b).draft = frame.splice := by
    rw [topSplice, hhead]
    rfl
  have hempty : (inTag c d frame b).draft.frames.isEmpty = false := by
    cases hframes : (inTag c d frame b).draft.frames with
    | nil => rw [hframes] at hhead; cases hhead
    | cons first rest => rfl
  have hbuffer : (inTag c d frame b).draft.buffer = b := Draft.buffer_setBuffer _ _
  have hdraft : (inTag c d frame b).draft.modifyTop (absorb t code.views) =
      (d.push (absorb t code.views frame)).setBuffer b :=
    Draft.modifyTop_setBuffer (absorb_aside t code.views)
  unfold built
  rw [hsplice, hempty, hbuffer, hdraft, Draft.setBuffer_setBuffer, Bool.or_false]
  rfl

end ViewMarkup.Walk
