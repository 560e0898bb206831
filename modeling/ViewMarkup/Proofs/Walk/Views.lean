import Mathlib.Data.List.Induction
import Mathlib.Data.List.Pairwise
import ViewMarkup.Proofs.Walk.Code

/-!
# The views recorded in a frame

A frame keeps the indices of the views directly inside, those of the slots among them once more, and
in slot content the indices under the names of the slots they are for.  The views themselves, as
`Element.code` lists them, can be recovered from that.

* `ChildView.slotGroups_append` is one step of the table that slot content keeps.
* `Element.codeOf_indices` says that views directly inside one tag have different indices, so that
  the index of a view tells whether it is a slot.
* `childNodes_indices` is the array of views that a frame yields.
-/

namespace ViewMarkup

open List
open Construction (childNodes addChildren addToProperty slotAssignments returnView)
open Script (Node)

variable {last : Int}

namespace ChildView

variable {settings : Settings} {views : List ChildView} {view : ChildView}

/-- The indices of some views. -/
def indices (views : List ChildView) : List Int :=
  views.map (·.index)

/-- The indices of the slots among some views. -/
def slotIndices (views : List ChildView) : List Int :=
  indices (views.filter (·.isSlot))

/-- The indices of some views under the names of the slots they are for. -/
def slotGroups (views : List ChildView) : List (Text × List Int) :=
  (slotNames views).map fun name => (name, indices (views.filter fun view => view.slot = name))

/-- No two views have the same index. -/
def Distinct (views : List ChildView) : Prop :=
  views.Pairwise fun first second => first.index ≠ second.index

section

variable (first : List ChildView) (second : List ChildView)

@[simp] theorem indices_append : indices (first ++ second) = indices first ++ indices second :=
  map_append

@[simp] theorem slotIndices_append :
    slotIndices (first ++ second) = slotIndices first ++ slotIndices second := by
  rw [slotIndices, filter_append, indices_append]
  rfl

end

/-! ### The table of slot content -/

theorem slotNames_append : slotNames (views ++ [view]) =
      if view.slot ∈ slotNames views then slotNames views else slotNames views ++ [view.slot] := by
  have hmem : view.slot ∈ slotNames views ↔ view.slot ∈ views.map fun view => view.slot :=
    mem_eraseDups
  unfold slotNames at hmem ⊢
  rw [map_append, eraseDups_append, map_singleton, cons_removeAll]
  by_cases hold : view.slot ∈ views.map (·.slot)
  · rw [if_pos (hmem.mpr hold), if_neg (by simpa using hold)]
    exact append_nil _
  · rw [if_neg fun h => hold (hmem.mp h), if_pos (by simpa using hold)]
    rfl

theorem nodup_slotNames : (slotNames views).Nodup := by
  induction views using reverseRecOn with
  | nil => exact nodup_nil
  | append_singleton views view ih =>
    rw [slotNames_append]
    split
    · exact ih
    · next hnew =>
      refine nodup_append.mpr ⟨ih, pairwise_singleton _ _, ?_⟩
      intro name hname other hother heq
      rw [mem_singleton.mp hother] at heq
      exact hnew (heq ▸ hname)

/-- A name that is in a table without repetitions gets the index; any other comes last. -/
theorem addSlotView_map {name : Text} {index : Int} {f : Text → List Int} {names : List Text}
    (hnames : names.Nodup) : addSlotView name index (names.map fun n => (n, f n)) =
      if name ∈ names then names.map fun n => (n, if n = name then f n ++ [index] else f n)
      else (names.map fun n => (n, f n)) ++ [(name, [index])] := by
  induction names with
  | nil => rfl
  | cons first rest ih =>
    obtain ⟨hfirst, hrest⟩ := nodup_cons.mp hnames
    rw [map_cons, addSlotView]
    by_cases heq : first = name
    · subst heq
      have hsame : ∀ n ∈ rest, (n, if n = first then f n ++ [index] else f n) = (n, f n) := by
        intro n hn
        have hother : n ≠ first := fun h => hfirst (h ▸ hn)
        rw [if_neg hother]
      rw [if_pos rfl, if_pos mem_cons_self, map_cons, if_pos rfl,
        map_congr_left hsame]
    · have hmem : name ∈ first :: rest ↔ name ∈ rest := by
        rw [mem_cons, or_iff_right fun h => heq h.symm]
      rw [if_neg heq, ih hrest]
      by_cases hold : name ∈ rest
      · rw [if_pos hold, if_pos (hmem.mpr hold), map_cons, if_neg heq]
      · rw [if_neg hold, if_neg fun h => hold (hmem.mp h)]
        rfl

/-- **One step of the table.**  A view is recorded under the slot it is for. -/
theorem slotGroups_append :
    slotGroups (views ++ [view]) = addSlotView view.slot view.index (slotGroups views) := by
  have hgroup : ∀ name, indices ((views ++ [view]).filter fun view => view.slot = name) =
      if name = view.slot then indices (views.filter fun view => view.slot = name) ++ [view.index]
      else indices (views.filter fun view => view.slot = name) := by
    intro name
    rw [filter_append, indices_append]
    by_cases heq : name = view.slot
    · rw [if_pos heq, filter_cons, if_pos (decide_eq_true heq.symm)]
      rfl
    · rw [if_neg heq, filter_cons, if_neg (by simpa using fun h => heq h.symm)]
      exact append_nil _
  unfold slotGroups
  rw [addSlotView_map nodup_slotNames, slotNames_append]
  simp only [hgroup]
  by_cases hold : view.slot ∈ slotNames views
  · rw [if_pos hold, if_pos hold]
  · rw [if_neg hold, if_neg hold, map_append, map_singleton, if_pos rfl]
    have hnone : views.filter (fun other => other.slot = view.slot) = [] := by
      refine filter_eq_nil_iff.mpr fun other hother heq => hold ?_
      rw [← of_decide_eq_true heq]
      exact mem_eraseDups.mpr (mem_map_of_mem hother)
    have hsame : ∀ n ∈ slotNames views,
        (n, if n = view.slot then indices (views.filter fun view => view.slot = n) ++ [view.index]
          else indices (views.filter fun view => view.slot = n)) =
        (n, indices (views.filter fun view => view.slot = n)) := by
      intro n hn
      have hother : n ≠ view.slot := fun h => hold (h ▸ hn)
      rw [if_neg hother]
    rw [map_congr_left hsame, hnone]
    rfl

/-- The table after all views have been recorded. -/
theorem foldl_addSlotView :
    views.foldl (fun table view => addSlotView view.slot view.index table) [] =
      slotGroups views := by
  induction views using reverseRecOn with
  | nil => rfl
  | append_singleton views view ih =>
    rw [foldl_append, ih, slotGroups_append]
    rfl

end ChildView

/-! ### The indices of views -/

/-- The views of some code have indices that have not been handed out before, in ascending order. -/
structure Code.Ascending (last : Int) (code : Code) : Prop where
  last_le : last ≤ code.last
  bounds : ∀ view ∈ code.views, last < view.index ∧ view.index ≤ code.last
  distinct : ChildView.Distinct code.views

theorem Code.Ascending.followedBy {first others : Code} (hfirst : first.Ascending last)
    (hothers : others.Ascending first.last) : (first.followedBy others).Ascending last := by
  refine ⟨Int.le_trans hfirst.last_le hothers.last_le, ?_, ?_⟩
  · intro view hview
    rcases mem_append.mp hview with h | h
    · exact ⟨(hfirst.bounds view h).1, Int.le_trans (hfirst.bounds view h).2 hothers.last_le⟩
    · exact ⟨Int.lt_of_le_of_lt hfirst.last_le (hothers.bounds view h).1,
        (hothers.bounds view h).2⟩
  · refine pairwise_append.mpr ⟨hfirst.distinct, hothers.distinct, ?_⟩
    intro view hview other hother
    exact Int.ne_of_lt
      (Int.lt_of_le_of_lt (hfirst.bounds view hview).2 (hothers.bounds other hother).1)

theorem Code.Ascending.of_no_views {code : Code} (hlast : last ≤ code.last)
    (hviews : code.views = []) : code.Ascending last := by
  refine ⟨hlast, ?_, ?_⟩
  · rw [hviews]
    exact fun _ h => nomatch h
  · rw [hviews]
    exact List.Pairwise.nil

namespace Element

mutual

/-- Indices are handed out one after the other. -/
theorem code_last_le (options : Options) (scope : List (Text × Text)) (owner : Int) (inSlot : Bool) (last : Int) :
    (element : Element) → last ≤ (element.code options scope owner inSlot last).last
  | mk name attributes children => by
      rw [code]
      cases kindOf name with
      | view =>
        have hindex : last ≤ if inSlot then last else last + 1 := by
          split <;> omega
        exact Int.le_trans hindex (codeOf_last_le options _ _ _ _ children)
      | property property | template property | templateArray property | keyedTemplate
      | slotContent => exact codeOf_last_le options scope owner false last children
      | skipped => exact Int.le_refl last

theorem codeOf_last_le (options : Options) (scope : List (Text × Text)) (owner : Int) (inSlot : Bool) (last : Int) :
    (elements : List Element) → last ≤ (codeOf options scope owner inSlot last elements).last
  | [] => Int.le_refl last
  | first :: rest =>
    Int.le_trans (code_last_le options scope owner inSlot last first)
      (codeOf_last_le options scope owner inSlot _ rest)

end

section

variable (options : Options) (scope : List (Text × Text)) (owner : Int) (last : Int)

theorem code_ascending {element : Element} :
    (element.code options scope owner false last).Ascending last := by
  have hlast := code_last_le options scope owner false last element
  obtain ⟨name, attributes, children⟩ := element
  rw [code] at hlast ⊢
  cases hkind : kindOf name with
  | view =>
    rw [hkind] at hlast
    refine ⟨hlast, ?_, pairwise_singleton _ _⟩
    intro view hview
    rw [mem_singleton.mp hview]
    exact ⟨Int.lt_succ last, codeOf_last_le options _ _ _ _ children⟩
  | property property | template property | templateArray property | keyedTemplate | slotContent
  | skipped => rw [hkind] at hlast; exact .of_no_views hlast rfl

/-- Outside slots, the views directly inside one tag have different indices. -/
theorem codeOf_ascending (elements : List Element) :
    (codeOf options scope owner false last elements).Ascending last := by
  induction elements generalizing last with
  | nil => exact .of_no_views (Int.le_refl last) rfl
  | cons first rest ih => exact (code_ascending options scope owner last).followedBy (ih _)

end

end Element

/-! ### The views that a frame yields -/

namespace ChildView

variable {settings : Settings} {views : List ChildView} {frame : Frame}

section

variable (hviews : Distinct views)
include hviews

/-- The index of a view tells whether it is a slot. -/
theorem contains_slotIndices {view : ChildView} (hview : view ∈ views) :
    (slotIndices views).contains view.index = view.isSlot := by
  cases hslot : view.isSlot with
  | true =>
    refine contains_iff_mem.mpr (mem_map.mpr ⟨view, ?_, rfl⟩)
    exact mem_filter.mpr ⟨hview, hslot⟩
  | false =>
    refine Bool.eq_false_iff.mpr fun h => ?_
    obtain ⟨other, hother, hindex⟩ := mem_map.mp (contains_iff_mem.mp h)
    obtain ⟨hmem, hisSlot⟩ := mem_filter.mp hother
    have hsame : other = view := by
      by_contra hne
      have : Std.Symm fun first second : ChildView => first.index ≠ second.index :=
        ⟨fun _ _ h => h.symm⟩
      exact hviews.forall hmem hview hne hindex
    rw [hsame, hslot] at hisSlot
    cases hisSlot

theorem childNodes_indices (hslots : frame.slotChildren = slotIndices views)
    {some : List ChildView} (hsome : some ⊆ views) :
    childNodes settings frame (indices some) = some.map (node settings) := by
  rw [childNodes, indices, map_map]
  refine map_congr_left fun view hview => ?_
  show (if frame.slotChildren.contains view.index then _ else _) = _
  rw [hslots, contains_slotIndices hviews (hsome hview)]
  rfl

theorem addChildren_eq (hchildren : frame.children = indices views)
    (hslots : frame.slotChildren = slotIndices views) :
    addChildren settings frame = addAll settings frame.index views := by
  rw [addChildren, hchildren, childNodes_indices hviews hslots (List.Subset.refl views)]
  cases views <;> rfl

theorem addToProperty_eq (hchildren : frame.children = indices views)
    (hslots : frame.slotChildren = slotIndices views) {property : Text} :
    addToProperty settings frame property =
      addAllTo settings frame.index property views := by
  rw [addToProperty, hchildren, childNodes_indices hviews hslots (List.Subset.refl views)]
  cases views <;> rfl

theorem slotAssignments_eq (htable : frame.slotMap = slotGroups views)
    (hslots : frame.slotChildren = slotIndices views) :
    slotAssignments settings frame = assignSlots settings frame.index views := by
  rw [slotAssignments, htable, slotGroups, map_map]
  refine map_congr_left fun name _ => ?_
  show Node.assign _ (.array (childNodes settings frame (indices _))) = _
  rw [childNodes_indices hviews hslots (filter_sublist.subset)]
  rfl

end

theorem returnView_eq (hchildren : frame.children = indices views) :
    returnView settings frame = returnLast settings views := by
  rw [returnView, returnLast, hchildren, indices, getLast?_map]
  cases views.getLast? <;> rfl

end ChildView

end ViewMarkup
