import Mathlib.Data.List.Forall2
import ViewMarkup.Tag.Frame

/-!
# How views are numbered

What decides the indices of views is a small part of a walk: the last index handed out, whether the
root has closed, and a few facts about every open tag.  A document moves this part on in a few ways
only.

* `Numbering.Moves` lists what an event can do to it, with the views that it opens.
* `Numbering.Sound` says that views are numbered in the order in which they are opened, and
  `Numbering.Sound.moves` that events keep this.
-/

namespace ViewMarkup

open List

/-- What decides the indices of views about an open tag. -/
structure Badge where
  kind : TagKind
  tagName : Text
  index : Int
  ignored : Bool
  nestedCount : Nat

namespace Badge

def isSlot (tag : Badge) : Bool :=
  tag.kind = .view && tag.tagName = Frame.slotTag

/-- A tag of the same kind that has taken one more tag inside. -/
def bump (tag : Badge) : Badge :=
  { tag with nestedCount := tag.nestedCount + 1 }

/-- Whether a tag is a view that has an index. -/
def isOpened (tag : Badge) : Bool :=
  tag.kind = .view && !tag.ignored && tag.index != -1

end Badge

/-- A view that has been opened. -/
structure OpenedView where
  /-- The index that it has got. -/
  index : Int
  /-- The index of the slot that it stands in directly. -/
  slot : Option Int
  /-- It stands in no tag. -/
  isRoot : Bool
  deriving DecidableEq

/-- What decides the indices of views. -/
structure Numbering where
  /-- The last index handed out. -/
  treeIndex : Int
  /-- The root has closed. -/
  initialized : Bool
  /-- The open tags, the innermost first. -/
  tags : List Badge

namespace Numbering
open Badge (isOpened bump)

variable {n m : Numbering} {tag : Badge} {below : List Badge} {views more : List OpenedView}
  {receives : Bool} {tags : List Badge}

/-- The view that is opened in some tags, where an index has been handed out last. -/
def view (treeIndex : Int) (below : List Badge) : OpenedView where
  index := if below.head?.any Badge.isSlot then treeIndex else treeIndex + 1
  slot := (below.head?.filter Badge.isSlot).map Badge.index
  isRoot := below.head?.isNone

/-- A new tag may stand inside some tags. -/
structure Admits (n : Numbering) (tag : Badge) : Prop where
  initialized : n.initialized = false
  parent : ∀ p, n.tags.head? = some p → p.ignored = false
  /-- A slot takes one tag. -/
  single : ∀ p, n.tags.head? = some p → p.isSlot = true → p.nestedCount = 0
  ignored : tag.ignored = false
  nestedCount : tag.nestedCount = 0
  view : tag.kind = .view → tag.index = -1
  part : tag.kind ≠ .view → ∃ p, n.tags.head? = some p ∧ tag.index = p.index

/-- The numbering after a view on top has been opened. -/
def openView (n : Numbering) (tag : Badge) (below : List Badge) : Numbering :=
  { n with
    treeIndex := (view n.treeIndex below).index
    tags := { tag with index := (view n.treeIndex below).index } :: below }

/-- **What an event can do to a numbering**, the views that it opens, and whether a tag receives
attributes before and after it. -/
inductive Moves : Bool → Numbering → List OpenedView → Bool → Numbering → Prop
  /-- The event is not about indices.  Once a tag is complete, the view on top has an index. -/
  | still {before after : Bool} {n : Numbering}
      (hdone : after = false → before = true → ∀ p, n.tags.head? = some p → p.kind = .view →
        p.ignored = false → p.index ≠ -1) : Moves before n [] after n
  /-- A tag is left out. -/
  | skip {n : Numbering} {tag : Badge} (hignored : tag.ignored = true) :
      Moves false n [] true { n with tags := tag :: n.tags }
  /-- A tag is opened. -/
  | enter {n : Numbering} {tag : Badge} (hadmits : Admits n tag) :
      Moves false n [] true { n with tags := tag :: n.tags.modifyHead bump }
  /-- The tag on top is refused once its attributes are known. -/
  | refuse {n : Numbering} {tag : Badge} {below : List Badge} (htags : n.tags = tag :: below)
      (hindex : tag.kind = .view → tag.index = -1) :
      Moves true n [] false { n with tags := { tag with ignored := true } :: below }
  /-- The view on top is opened. -/
  | view {n : Numbering} {tag : Badge} {below : List Badge} (htags : n.tags = tag :: below)
      (hkind : tag.kind = .view) (hignored : tag.ignored = false) (hindex : tag.index = -1) :
      Moves true n [Numbering.view n.treeIndex below] false (n.openView tag below)
  /-- The tag on top is closed. -/
  | pop {n : Numbering} {tag : Badge} {below : List Badge} (htags : n.tags = tag :: below) :
      Moves false n [] false
        { n with
          initialized := n.initialized || (below.isEmpty && !tag.ignored)
          tags := below }

/-- How open tags stand in each other: those that are not left out stand in others that are not, and
carry their index unless they are views. -/
def Ranked : List Badge → Prop
  | [] => True
  | tag :: below => Ranked below ∧ (∀ p, below.head? = some p → p.ignored = false → p.index ≠ -1) ∧
      (tag.ignored = false → (∀ p, below.head? = some p → p.ignored = false ∧ p.nestedCount ≠ 0) ∧
        (tag.kind ≠ .view → ∃ p, below.head? = some p ∧ tag.index = p.index))

/-- No view is waiting for its index. -/
def Settled (n : Numbering) : Prop :=
  ∀ p, n.tags.head? = some p → p.ignored = false → p.index ≠ -1

/-- **Views are numbered in the order in which they have been opened.** -/
structure Sound (views : List OpenedView) (n : Numbering) : Prop where
  /-- Views that stand in no slot have got the indices from zero on. -/
  indices : (views.filter (·.slot.isNone)).map OpenedView.index =
    (range (n.treeIndex + 1).toNat).map Int.ofNat
  last : -1 ≤ n.treeIndex
  /-- A view in a slot has the index of the slot. -/
  fallback : ∀ view ∈ views, ∀ k, view.slot = some k → view.index = k
  ranked : Ranked n.tags
  /-- The index of a slot that has taken no tag is the last one. -/
  slots : ∀ tag ∈ n.tags, tag.isSlot = true → tag.ignored = false → tag.nestedCount = 0 →
    tag.index ≠ -1 → tag.index = n.treeIndex
  /-- So is that of a slot that has taken a view which is waiting for its index. -/
  pending : ∀ tag p rest, n.tags = tag :: p :: rest → tag.ignored = false → tag.index = -1 →
    p.isSlot = true → p.index = n.treeIndex
  /-- The open views are among those that have been opened. -/
  opened : ((n.tags.filter isOpened).map Badge.index).reverse.Sublist
    (views.map OpenedView.index)
  /-- The root has been opened first. -/
  root : ∀ first rest, views = first :: rest → first = ⟨0, none, true⟩ ∧
    ∀ view ∈ rest, view.isRoot = false
  closed : n.initialized = true → views ≠ [] ∧ ∀ tag ∈ n.tags, tag.ignored = true
  /-- Until it closes, the root lies below all open tags. -/
  unclosed : n.initialized = false → views ≠ [] → ∃ root, n.tags.getLast? = some root ∧
    root.isOpened = true ∧ root.index = 0

/-! ### Tags that stand in each other -/

/-- Below a tag that is not left out, no tag is left out, and each has taken a tag. -/
theorem Ranked.around (h : Ranked (tag :: below)) (hignored : tag.ignored = false) :
    ∀ p ∈ below, p.ignored = false ∧ p.nestedCount ≠ 0 := by
  induction below generalizing tag with
  | nil => exact fun _ hp => nomatch hp
  | cons first rest ih =>
    have hfirst := (h.2.2 hignored).1 first rfl
    exact forall_mem_cons.mpr ⟨hfirst, ih h.1 hfirst.1⟩

/-- Below a tag that is not left out, and has an index, lies a view that has one. -/
theorem Ranked.last (h : Ranked (tag :: below)) (hignored : tag.ignored = false)
    (hindex : tag.index ≠ -1) :
    ∃ root, (tag :: below).getLast? = some root ∧ root.isOpened = true := by
  induction below generalizing tag with
  | nil =>
    have hkind : tag.kind = .view := by
      by_contra hkind
      obtain ⟨p, hp, _⟩ := (h.2.2 hignored).2 hkind
      cases hp
    simp [isOpened, hkind, hignored, hindex]
  | cons first rest ih =>
    have hfirst := ((h.2.2 hignored).1 first rfl).1
    obtain ⟨root, hroot, hopened⟩ := ih h.1 hfirst (h.2.1 first rfl hfirst)
    exact ⟨root, by rw [getLast?_cons_cons]; exact hroot, hopened⟩

/-- A tag that is no view carries the index of the view that it belongs to. -/
theorem Ranked.part {above : List Badge} (h : Ranked (above ++ tag :: below))
    (hignored : tag.ignored = false) (hkind : tag.kind ≠ .view) :
    (below.find? fun p => p.kind = .view).map Badge.index = some tag.index := by
  have htag : Ranked (tag :: below) := by
    induction above with
    | nil => exact h
    | cons _ above ih => exact ih h.1
  clear h
  induction below generalizing tag with
  | nil =>
    obtain ⟨p, hp, _⟩ := (htag.2.2 hignored).2 hkind
    cases hp
  | cons first rest ih =>
    obtain ⟨p, hp, hindex⟩ := (htag.2.2 hignored).2 hkind
    cases hp
    by_cases hview : first.kind = .view
    · rw [find?_cons_of_pos (by simpa using hview), hindex]
      rfl
    · rw [find?_cons_of_neg (by simpa using hview), hindex]
      exact ih ((htag.2.2 hignored).1 first rfl).1 hview htag.1

/-- An open view has been opened. -/
theorem Sound.ne_nil (h : Sound views n) (htag : tag ∈ n.tags) (hopened : tag.isOpened = true) :
    views ≠ [] := by
  rintro rfl
  have hmem : tag.index ∈ ((n.tags.filter isOpened).map Badge.index).reverse :=
    mem_reverse.mpr (mem_map_of_mem (mem_filter.mpr ⟨htag, hopened⟩))
  exact nomatch h.opened.subset hmem

theorem Sound.treeIndex_of_nil (h : Sound [] n) : n.treeIndex = -1 := by
  have hlength := congrArg length h.indices
  have hlast := h.last
  simp only [filter_nil, map_nil, length_nil, length_map,
    length_range] at hlength
  omega

/-! ### Events -/

/-- Before the first event, no view has been opened. -/
theorem sound_start : Sound [] ⟨-1, false, []⟩ where
  indices := rfl
  last := Int.le_refl _
  fallback _ h := nomatch h
  ranked := trivial
  slots _ h := nomatch h
  pending _ _ _ h := nomatch h
  opened := nil_sublist _
  root _ _ h := nomatch h
  closed h := nomatch h
  unclosed _ h := absurd rfl h

theorem Sound.skip (h : Sound views n) (hsettled : Settled n) (hignored : tag.ignored = true) :
    Sound views { n with tags := tag :: n.tags } := by
  have hclosed : tag.isOpened = false := by simp [isOpened, hignored]
  refine ⟨h.indices, h.last, h.fallback, ⟨h.ranked, hsettled, ?_⟩, ?_, ?_, ?_, h.root, ?_, ?_⟩
  · intro hnot
    rw [hignored] at hnot
    cases hnot
  · refine forall_mem_cons.mpr ⟨fun _ hnot => ?_, h.slots⟩
    rw [hignored] at hnot
    cases hnot
  · intro top p rest htags hnot
    obtain ⟨rfl, _⟩ := cons.inj htags
    rw [hignored] at hnot
    cases hnot
  · rw [filter_cons_of_neg (by simp [hclosed])]
    exact h.opened
  · intro hinitialized
    obtain ⟨hviews, htags⟩ := h.closed hinitialized
    exact ⟨hviews, forall_mem_cons.mpr ⟨hignored, htags⟩⟩
  · intro hinitialized hviews
    obtain ⟨root, hroot, hopened⟩ := h.unclosed hinitialized hviews
    refine ⟨root, ?_, hopened⟩
    rw [getLast?_cons, hroot]
    rfl

/-- The open views do not change when a tag takes another one inside. -/
theorem opened_bump : ((tags.modifyHead bump).filter isOpened).map Badge.index =
      (tags.filter isOpened).map Badge.index := by
  cases tags with
  | nil => rfl
  | cons top rest =>
    have hbump : top.bump.isOpened = top.isOpened := rfl
    rw [modifyHead_cons, filter_cons, filter_cons, hbump]
    split <;> rfl

theorem Ranked.bump (h : Ranked n.tags) : Ranked (n.tags.modifyHead bump) := by
  cases htags : n.tags with
  | nil => trivial
  | cons top rest =>
    rw [htags] at h
    exact h

theorem head?_bump : (tags.modifyHead bump).head? = tags.head?.map bump := by
  cases tags <;> rfl

theorem getLast?_bump (tags : List Badge) {root : Badge} (h : tags.getLast? = some root) :
    ∃ other, (tags.modifyHead bump).getLast? = some other ∧ other.isOpened = root.isOpened ∧
      other.index = root.index := by
  cases tags with
  | nil => cases h
  | cons top rest =>
    cases rest with
    | nil =>
      cases h
      exact ⟨top.bump, rfl, rfl, rfl⟩
    | cons second rest => exact ⟨root, h, rfl, rfl⟩

theorem isOpened_eq_false (h : tag.kind = .view → tag.index = -1) : tag.isOpened = false := by
  by_cases hkind : tag.kind = .view
  · simp [isOpened, h hkind]
  · simp [isOpened, hkind]

theorem Sound.enter (h : Sound views n) (hsettled : Settled n) (hadmits : Admits n tag) :
    Sound views { n with tags := tag :: n.tags.modifyHead bump } := by
  have hclosed := isOpened_eq_false hadmits.view
  have hparent : ∀ q, (n.tags.modifyHead bump).head? = some q →
      ∃ p, n.tags.head? = some p ∧ q = p.bump := by
    intro q hq
    rw [head?_bump] at hq
    obtain ⟨p, hp, rfl⟩ := Option.map_eq_some_iff.mp hq
    exact ⟨p, hp, rfl⟩
  refine ⟨h.indices, h.last, h.fallback, ⟨h.ranked.bump, ?_, fun _ => ⟨?_, ?_⟩⟩, ?_, ?_, ?_, h.root,
    ?_, ?_⟩
  · intro q hq
    obtain ⟨p, hp, rfl⟩ := hparent q hq
    exact hsettled p hp
  · intro q hq
    obtain ⟨p, hp, rfl⟩ := hparent q hq
    exact ⟨hadmits.parent p hp, Nat.succ_ne_zero _⟩
  · intro hkind
    obtain ⟨p, hp, hindex⟩ := hadmits.part hkind
    exact ⟨p.bump, by rw [head?_bump, hp]; rfl, hindex⟩
  · refine forall_mem_cons.mpr ⟨fun hslot _ _ hindex => ?_, fun other hother => ?_⟩
    · have hkind : tag.kind = .view := by
        rw [Badge.isSlot, Bool.and_eq_true] at hslot
        exact of_decide_eq_true hslot.1
      exact absurd (hadmits.view hkind) hindex
    · cases htags : n.tags with
      | nil =>
        rw [htags] at hother
        cases hother
      | cons top rest =>
        rw [htags] at hother
        rcases mem_cons.mp hother with rfl | hother
        · exact fun _ _ hcount => absurd hcount (Nat.succ_ne_zero _)
        · exact h.slots other (by rw [htags]; exact mem_cons_of_mem _ hother)
  · -- the slot was on top and had taken no tag
    intro top q rest htags _ _ hslot
    obtain ⟨_, htags⟩ := cons.inj htags
    obtain ⟨p, hp, rfl⟩ := hparent q (by rw [htags]; rfl)
    have hignored := hadmits.parent p hp
    exact h.slots p (mem_of_mem_head? hp) hslot hignored (hadmits.single p hp hslot)
      (hsettled p hp hignored)
  · rw [filter_cons_of_neg (by simp [hclosed]), opened_bump]
    exact h.opened
  · intro hinitialized
    rw [show n.initialized = false from hadmits.initialized] at hinitialized
    cases hinitialized
  · intro hinitialized hviews
    obtain ⟨root, hroot, hopened, hindex⟩ := h.unclosed hinitialized hviews
    obtain ⟨other, hother, hsame, hsame'⟩ := getLast?_bump n.tags hroot
    refine ⟨other, ?_, hsame.trans hopened, hsame'.trans hindex⟩
    rw [getLast?_cons, hother]
    rfl

theorem Sound.refuse (h : Sound views n) (htags : n.tags = tag :: below)
    (hindex : tag.kind = .view → tag.index = -1) :
    Sound views { n with tags := { tag with ignored := true } :: below } := by
  have hclosed := isOpened_eq_false hindex
  have hranked := h.ranked
  have hslots := h.slots
  have hopened := h.opened
  rw [htags] at hranked hslots hopened
  refine ⟨h.indices, h.last, h.fallback, ⟨hranked.1, hranked.2.1, nofun⟩, ?_, ?_, ?_, h.root, ?_, ?_⟩
  · exact forall_mem_cons.mpr ⟨fun _ => nofun, (forall_mem_cons.mp hslots).2⟩
  · intro top p rest heq hnot
    obtain ⟨rfl, _⟩ := cons.inj heq
    cases hnot
  · rw [filter_cons_of_neg (by simp [hclosed])] at hopened
    rw [filter_cons_of_neg (by simp [isOpened])]
    exact hopened
  · intro hinitialized
    obtain ⟨hviews, hall⟩ := h.closed hinitialized
    rw [htags] at hall
    exact ⟨hviews, forall_mem_cons.mpr ⟨rfl, (forall_mem_cons.mp hall).2⟩⟩
  · intro hinitialized hviews
    obtain ⟨root, hroot, hroot', hzero⟩ := h.unclosed hinitialized hviews
    rw [htags] at hroot
    cases below with
    | nil =>
      rw [getLast?_singleton] at hroot
      cases hroot
      rw [hclosed] at hroot'
      cases hroot'
    | cons second rest => exact ⟨root, hroot, hroot', hzero⟩

theorem Sound.pop (h : Sound views n) (hsettled : Settled n) (htags : n.tags = tag :: below) :
    Sound views { n with
      initialized := n.initialized || (below.isEmpty && !tag.ignored)
      tags := below } := by
  have hranked := h.ranked
  have hslots := h.slots
  have hopened := h.opened
  rw [htags] at hranked hslots hopened
  refine ⟨h.indices, h.last, h.fallback, hranked.1, (forall_mem_cons.mp hslots).2, ?_, ?_,
    h.root, ?_, ?_⟩
  · intro top p rest heq hnot hindex
    exact absurd hindex (hranked.2.1 top (by rw [show below = _ from heq]; rfl) hnot)
  · rw [filter_cons] at hopened
    split at hopened
    · rw [map_cons, reverse_cons] at hopened
      exact (sublist_append_left _ _).trans hopened
    · exact hopened
  · intro hinitialized
    rcases Bool.or_eq_true .. ▸ hinitialized with hinitialized | hroot
    · obtain ⟨hviews, hall⟩ := h.closed hinitialized
      rw [htags] at hall
      exact ⟨hviews, (forall_mem_cons.mp hall).2⟩
    · -- the tag was the root
      rw [Bool.and_eq_true, Bool.not_eq_true'] at hroot
      have hnil := isEmpty_iff.mp hroot.1
      subst hnil
      obtain ⟨root, hlast, hroot'⟩ := hranked.last hroot.2
        (hsettled tag (by rw [htags]; rfl) hroot.2)
      cases hlast
      exact ⟨h.ne_nil (by rw [htags]; exact mem_cons_self) hroot', nofun⟩
  · intro hinitialized hviews
    rw [Bool.or_eq_false_iff] at hinitialized
    obtain ⟨root, hroot, hroot', hzero⟩ := h.unclosed hinitialized.1 hviews
    rw [htags] at hroot
    cases below with
    | nil =>
      cases hroot
      have hignored : tag.ignored = false := by
        simp only [isOpened, Bool.and_eq_true, Bool.not_eq_true'] at hroot'
        exact hroot'.1.2
      rw [hignored] at hinitialized
      cases hinitialized.2
    | cons second rest => exact ⟨root, hroot, hroot', hzero⟩

section

variable (h : Sound views n) (htags : n.tags = tag :: below) (hignored : tag.ignored = false)
  (hindex : tag.index = -1)
include h htags hignored hindex

/-- A view that is about to be opened stands in no tag if no view has been opened, and only then. -/
theorem Sound.nil_iff : views = [] ↔ below = [] := by
  have hranked := h.ranked
  rw [htags] at hranked
  constructor
  · rintro rfl
    cases below with
    | nil => rfl
    | cons first rest =>
      have hfirst := ((hranked.2.2 hignored).1 first rfl).1
      obtain ⟨root, hlast, hopened⟩ := hranked.1.last hfirst (hranked.2.1 first rfl hfirst)
      have hmem : root ∈ n.tags := by
        rw [htags]
        exact mem_cons_of_mem _ (mem_of_getLast? hlast)
      exact absurd rfl (h.ne_nil hmem hopened)
  · rintro rfl
    by_contra hviews
    cases hinitialized : n.initialized with
    | true =>
      have htag := (h.closed hinitialized).2 tag (by rw [htags]; exact mem_cons_self)
      rw [hignored] at htag
      cases htag
    | false =>
      obtain ⟨root, hroot, hopened, hzero⟩ := h.unclosed hinitialized hviews
      rw [htags, getLast?_singleton] at hroot
      cases hroot
      rw [hindex] at hzero
      cases hzero

/-- The index that a view gets in a slot is that of the slot; otherwise it is a new one. -/
theorem Sound.view_index :
    (∃ p, below.head? = some p ∧ p.index ≠ -1 ∧ p.index = n.treeIndex ∧
      view n.treeIndex below = ⟨n.treeIndex, some p.index, false⟩) ∨
      view n.treeIndex below = ⟨n.treeIndex + 1, none, below.isEmpty⟩ := by
  have hranked := h.ranked
  rw [htags] at hranked
  cases below with
  | nil => exact .inr rfl
  | cons first rest =>
    cases hslot : first.isSlot with
    | true =>
      refine .inl ⟨first, rfl, ?_, h.pending tag first rest htags hignored hindex hslot, ?_⟩
      · exact hranked.2.1 first rfl ((hranked.2.2 hignored).1 first rfl).1
      · simp [view, hslot]
    | false =>
      simp [view, hslot]

end

theorem Sound.openView (h : Sound views n) (htags : n.tags = tag :: below)
    (hkind : tag.kind = .view) (hignored : tag.ignored = false) (hindex : tag.index = -1) :
    Sound (views ++ [view n.treeIndex below]) (n.openView tag below) := by
  have hnil := h.nil_iff htags hignored hindex
  have hcases := h.view_index htags hignored hindex
  have hranked := h.ranked
  have hslots := h.slots
  have hopened := h.opened
  have hlast := h.last
  have hunclosed := h.unclosed
  rw [htags] at hranked hslots hopened hunclosed
  have hinitialized : n.initialized = false := by
    by_contra hinitialized
    have htag := (h.closed (by simpa using hinitialized)).2 tag
      (by rw [htags]; exact mem_cons_self)
    rw [hignored] at htag
    cases htag
  unfold Numbering.openView
  generalize hview : view n.treeIndex below = new at hcases
  have hnew : new.index ≠ -1 := by
    rcases hcases with ⟨p, _, hp, htree, rfl⟩ | rfl
    · exact htree ▸ hp
    · dsimp only
      omega
  refine ⟨?_, ?_, ?_, ⟨hranked.1, hranked.2.1, fun _ => ⟨(hranked.2.2 hignored).1, fun hother =>
    absurd hkind hother⟩⟩, ?_, ?_, ?_, ?_, ?_, ?_⟩
  · rw [filter_append, map_append, h.indices]
    rcases hcases with ⟨p, _, _, _, rfl⟩ | rfl
    · exact append_nil _
    · have hnext : (n.treeIndex + 1 + 1).toNat = (n.treeIndex + 1).toNat + 1 := by omega
      have hindex : Int.ofNat (n.treeIndex + 1).toNat = n.treeIndex + 1 := by
        rw [Int.ofNat_eq_natCast]
        omega
      rw [hnext, range_succ, map_append, map_singleton, hindex]
      rfl
  · rcases hcases with ⟨p, _, _, _, rfl⟩ | rfl <;> dsimp only <;> omega
  · intro other hother k hk
    rcases mem_append.mp hother with hother | hother
    · exact h.fallback other hother k hk
    · rw [mem_singleton.mp hother] at hk ⊢
      rcases hcases with ⟨p, _, _, htree, rfl⟩ | rfl
      · cases hk
        exact htree.symm
      · cases hk
  · refine forall_mem_cons.mpr ⟨fun _ _ _ _ => rfl, fun p hp _ _ hcount => ?_⟩
    exact absurd hcount (hranked.around hignored p hp).2
  · intro top p rest heq _ htop
    obtain ⟨rfl, _⟩ := cons.inj heq
    exact absurd htop hnew
  · have hold : tag.isOpened = false := by simp [isOpened, hindex]
    have hnow : ({ tag with index := new.index } : Badge).isOpened = true := by
      simp [isOpened, hkind, hignored, hnew]
    rw [filter_cons_of_neg (by simp [hold])] at hopened
    rw [filter_cons_of_pos hnow, map_cons, reverse_cons, map_append]
    exact hopened.append_right _
  · intro first rest heq
    cases views with
    | nil =>
      obtain ⟨rfl, rfl⟩ := cons.inj heq
      have hbelow := hnil.mp rfl
      subst hbelow
      have htree := h.treeIndex_of_nil
      refine ⟨?_, nofun⟩
      rw [← hview, htree]
      rfl
    | cons head tail =>
      obtain ⟨rfl, rfl⟩ := cons.inj heq
      obtain ⟨hroot, hrest⟩ := h.root head tail rfl
      refine ⟨hroot, fun other hother => ?_⟩
      rcases mem_append.mp hother with hother | hother
      · exact hrest other hother
      · have hbelow : below ≠ [] := fun hbelow => nomatch hnil.mpr hbelow
        rw [mem_singleton.mp hother]
        rcases hcases with ⟨p, _, _, _, rfl⟩ | rfl
        · rfl
        · exact isEmpty_eq_false_iff.mpr hbelow
  · intro htrue
    rw [show n.initialized = true from htrue] at hinitialized
    cases hinitialized
  · intro _ _
    cases hbelow : below with
    | nil =>
      have htree : n.treeIndex = -1 := by
        have hviews := hnil.mpr hbelow
        subst hviews
        exact h.treeIndex_of_nil
      have hzero : new.index = 0 := by
        rw [← hview, hbelow, htree]
        rfl
      refine ⟨_, rfl, ?_, hzero⟩
      simp [isOpened, hkind, hignored, hnew]
    | cons first rest =>
      have hviews : views ≠ [] := fun hviews => by
        rw [hnil.mp hviews] at hbelow
        cases hbelow
      obtain ⟨root, hroot, hrest⟩ := hunclosed hinitialized hviews
      rw [hbelow, getLast?_cons_cons] at hroot
      exact ⟨root, by rw [getLast?_cons_cons]; exact hroot, hrest⟩

/-- **The step.** -/
theorem Sound.moves {after : Bool} (h : Sound views n) (hsettled : receives = false → Settled n)
    (hm : Moves receives n more after m) :
    Sound (views ++ more) m ∧ (after = false → Settled m) := by
  have hranked := h.ranked
  cases hm with
  | still hdone =>
    rw [append_nil]
    refine ⟨h, fun hafter p hp hignored => ?_⟩
    cases receives with
    | false => exact hsettled rfl p hp hignored
    | true =>
      by_cases hkind : p.kind = .view
      · exact hdone hafter rfl p hp hkind hignored
      · obtain ⟨rest, htags⟩ := head?_eq_some_iff.mp hp
        rw [htags] at hranked
        obtain ⟨q, hq, hindex⟩ := (hranked.2.2 hignored).2 hkind
        rw [hindex]
        exact hranked.2.1 q hq ((hranked.2.2 hignored).1 q hq).1
  | skip hignored =>
    rw [append_nil]
    exact ⟨h.skip (hsettled rfl) hignored, nofun⟩
  | enter hadmits =>
    rw [append_nil]
    exact ⟨h.enter (hsettled rfl) hadmits, nofun⟩
  | refuse htags hindex =>
    rw [append_nil]
    refine ⟨h.refuse htags hindex, fun _ p hp hignored => ?_⟩
    cases hp
    cases hignored
  | view htags hkind hignored hindex =>
    refine ⟨h.openView htags hkind hignored hindex, fun _ p hp _ => ?_⟩
    cases hp
    rcases h.view_index htags hignored hindex with ⟨q, _, hq, htree, heq⟩ | heq
    · rw [heq, ← htree]
      exact hq
    · have hlast := h.last
      rw [heq]
      dsimp only
      omega
  | pop htags =>
    rw [append_nil]
    rw [htags] at hranked
    exact ⟨h.pop (hsettled rfl) htags, fun _ => hranked.2.1⟩

/-- A view on top that is completed has been opened, or it is left out. -/
theorem Moves.opens (h : Moves true n views false m) (hhead : n.tags.head? = some tag)
    (hkind : tag.kind = .view) (hignored : tag.ignored = false) (hindex : tag.index = -1) :
    views = [] ↔ m.tags.head?.any (·.ignored) = true := by
  cases h with
  | still hdone => exact absurd hindex (hdone rfl rfl tag hhead hkind hignored)
  | refuse htags hindex => exact ⟨fun _ => rfl, fun _ => rfl⟩
  | view htags _ hview =>
    rw [htags] at hhead
    cases hhead
    refine ⟨fun h => (nomatch h), fun h => ?_⟩
    cases hignored.symm.trans h

end Numbering

end ViewMarkup
