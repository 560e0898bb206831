import Mathlib.Data.List.Forall2
import ViewMarkup.Proofs.Walk.Moves

/-!
# How open tags stand in each other

Between two tags of a document, every open tag is left out or stands in a tag that may hold it.
Which frames have buffers of their own, and which frames belong to which views, follows from that.

* `Sits` says how a frame stands in the one below it, and `Nested` says so of all frames.
* `Nested.starts` and `Nested.ends`: tags keep this, whatever errors they have.
* `Nested.shaped` is what the end of a tag relies on.
* `Bound.starts` and `Bound.ends`: every binding of an open tag is one of its attributes.
-/

namespace ViewMarkup.Walk

variable {options : Options} {name : Text} {attributes : AttributeMap} {frame parent f g : Frame}
  {frames below fs gs : List Frame} {d : Draft} {w v : Walk} {change : Frame → Frame}

/-- **How a tag stands in the tag around it**, if there is one. -/
inductive Sits (frame : Frame) (parent : Option Frame) : Prop
  | ignored (hignored : frame.ignored = true) (hplaced : frame.placed = false)
      (hcustom : frame.isCustom = false)
  | view (hignored : frame.ignored = false) (hkind : frame.kind = .view) (hown : frame.own = none)
      (hplaced : frame.placed = false) (hparent : ∀ p, parent = some p → p.ignored = false)
  | inner {p : Frame} (hignored : frame.ignored = false) (hkind : frame.kind ≠ .view)
      (hskip : frame.kind ≠ .skipped) (hown : frame.own.isSome = true)
      (hplaced : frame.placed = isFactory frame.kind) (hcustom : frame.isCustom = false)
      (hparent : parent = some p) (hkept : p.ignored = false)
      (hcontent : frame.kind = .slotContent → p.kind = .view ∧ p.isCustom = true)

/-- Every frame stands in the one below it. -/
def Nested : List Frame → Prop
  | [] => True
  | frame :: below => Sits frame below.head? ∧ Nested below

/-! ### Changes that do not matter -/

/-- The second frame is the first one after some tags inside. -/
structure Alike (f g : Frame) : Prop where
  kind : g.kind = f.kind
  ignored : g.ignored = f.ignored
  placed : g.placed = f.placed
  isCustom : g.isCustom = f.isCustom
  own : g.own.isSome = f.own.isSome
  descriptors : g.descriptors = f.descriptors
  namespaces : g.namespaces = f.namespaces

theorem Alike.refl : Alike f f :=
  ⟨rfl, rfl, rfl, rfl, rfl, rfl, rfl⟩

theorem Sits.alike {parent : Option Frame} (h : Sits f parent) (hfg : Alike f g) :
    Sits g parent := by
  cases h with
  | ignored hignored hplaced hcustom =>
    exact .ignored (hfg.ignored.trans hignored) (hfg.placed.trans hplaced)
      (hfg.isCustom.trans hcustom)
  | view hignored hkind hown hplaced hparent =>
    have hnone : g.own.isSome = false := by rw [hfg.own, hown]; rfl
    exact .view (hfg.ignored.trans hignored) (hfg.kind.trans hkind)
      (Option.not_isSome_iff_eq_none.mp (by rw [hnone]; exact Bool.false_ne_true))
      (hfg.placed.trans hplaced) hparent
  | inner hignored hkind hskip hown hplaced hcustom hparent hkept hcontent =>
    rw [← hfg.kind] at hkind hskip hplaced hcontent
    exact .inner (hfg.ignored.trans hignored) hkind hskip (hfg.own.trans hown)
      (hfg.placed.trans hplaced) (hfg.isCustom.trans hcustom) hparent hkept hcontent

theorem Sits.alike_parent (h : Sits frame (some f)) (hfg : Alike f g) : Sits frame (some g) := by
  cases h with
  | ignored hignored hplaced hcustom => exact .ignored hignored hplaced hcustom
  | view hignored hkind hown hplaced hparent =>
    refine .view hignored hkind hown hplaced fun p hp => ?_
    cases hp
    exact hfg.ignored.trans (hparent f rfl)
  | inner hignored hkind hskip hown hplaced hcustom hparent hkept hcontent =>
    cases hparent
    rw [← hfg.kind, ← hfg.isCustom] at hcontent
    exact .inner hignored hkind hskip hown hplaced hcustom rfl (hfg.ignored.trans hkept) hcontent

theorem Nested.alike (h : Nested fs) (hfg : List.Forall₂ Alike fs gs) : Nested gs := by
  induction hfg with
  | nil => exact h
  | @cons f g fs gs hfg hrest ih =>
    obtain ⟨hsits, hnested⟩ := h
    refine ⟨?_, ih hnested⟩
    cases hrest with
    | nil => exact hsits.alike hfg
    | cons hparent _ => exact (hsits.alike hfg).alike_parent hparent

theorem alike_modifyTop (h : ∀ f, Alike f (change f)) (d : Draft) :
    List.Forall₂ Alike d.frames (d.modifyTop change).frames := by
  obtain ⟨frames, body⟩ := d
  cases frames with
  | nil => exact .nil
  | cons f below => exact .cons (h f) (List.forall₂_same.mpr fun f _ => Alike.refl)

theorem alike_setBuffer (d : Draft) (b : List Fragment) :
    List.Forall₂ Alike d.frames (d.setBuffer b).frames := by
  induction d using Draft.push_induction with
  | bare body => exact .nil
  | push frame below ih =>
    cases hown : frame.own with
    | none =>
      rw [Draft.setBuffer_push hown]
      exact .cons Alike.refl ih
    | some own =>
      rw [Draft.setBuffer_push_own (by rw [hown]; rfl)]
      refine .cons ?_ (List.forall₂_same.mpr fun f _ => Alike.refl)
      exact ⟨rfl, rfl, rfl, rfl, by rw [hown]; rfl, rfl, rfl⟩

theorem alike_opening (f : Frame) : Alike f (opening f) :=
  ⟨rfl, rfl, rfl, rfl, rfl, rfl, rfl⟩

theorem alike_entered (f : Frame) : Alike f (entered f) :=
  ⟨rfl, rfl, rfl, rfl, rfl, rfl, rfl⟩

theorem alike_holding (f : Frame) : Alike f (holding f) :=
  ⟨rfl, rfl, rfl, rfl, rfl, rfl, rfl⟩

theorem alike_shut (f : Frame) : Alike f (shut f) :=
  ⟨rfl, rfl, rfl, rfl, rfl, rfl, rfl⟩

theorem alike_recordChild (view f : Frame) : Alike f (recordChild view f) := by
  unfold recordChild
  dsimp only
  split <;> split <;> exact ⟨rfl, rfl, rfl, rfl, rfl, rfl, rfl⟩

theorem Nested.modifyTop (h : Nested d.frames)
    (hchange : ∀ f, Alike f (change f)) : Nested (d.modifyTop change).frames :=
  h.alike (alike_modifyTop hchange d)

theorem Nested.setBuffer (h : Nested d.frames) (b : List Fragment) :
    Nested (d.setBuffer b).frames :=
  h.alike (alike_setBuffer d b)

/-! ### The start of a tag -/

/-- A custom element is a view. -/
theorem Nested.view_of_custom (h : Nested frames) (hparent : frames.head? = some parent)
    (hcustom : parent.isCustom = true) : parent.kind = .view := by
  cases frames with
  | nil => cases hparent
  | cons frame below =>
    cases hparent
    cases h.1 with
    | ignored _ _ hplain | inner _ _ _ _ _ hplain =>
      rw [hplain] at hcustom; cases hcustom
    | view _ hkind => exact hkind

theorem kindOf_template : Element.kindOf Frame.templateTag = .keyedTemplate := by
  decide

/-- A tag that is no view stands in the tag that it belongs to. -/
theorem Accepted.sits (h : Accepted w name frame) (hnested : Nested w.draft.frames)
    (hignored : w.draft.frames.head?.any (·.ignored) = false)
    (hkind : Element.kindOf name ≠ .view) (attributes : AttributeMap) :
    Sits { frame with attributes, placed := isFactory (Element.kindOf name) }
      (w.draft.modifyTop entered).frames.head? := by
  obtain ⟨parent, hhead, rfl⟩ := h.other hkind
  rw [hhead] at hignored
  refine .inner rfl hkind kindOf_ne_skipped rfl rfl rfl (head?_entered hhead) hignored
    fun hcontent => ?_
  have hcustom := (nesting_slotContent (kindOf_slotContent hcontent) (h.nesting parent hhead)).1
  exact ⟨(hnested.view_of_custom hhead hcustom :), hcustom⟩

section

variable {shape : FactoryShape} {settings : Settings}
  (h : factoryShape? settings frame = some shape)
include h

theorem isFactory_of_shape : isFactory frame.kind = true := by
  unfold factoryShape? at h
  split at h
  · next hkind => rw [hkind]; rfl
  · next hkind => rw [hkind]; rfl
  · next hkind => rw [hkind]; rfl
  · cases h

theorem kind_ne_view_of_shape : frame.kind ≠ .view := by
  intro hview
  have hfactory := isFactory_of_shape h
  rw [hview] at hfactory
  cases hfactory

end

/-- The tags below may change as long as they stay alike. -/
theorem Nested.push_alike {e : Draft} (h : Nested (d.push frame).frames)
    (hde : List.Forall₂ Alike d.frames e.frames) : Nested (e.push frame).frames :=
  h.alike (.cons Alike.refl hde)

theorem Nested.opens (h : Nested w.draft.frames)
    (hignored : w.draft.frames.head?.any (·.ignored) = false)
    (haccepted : Accepted w name frame)
    (hopens : Opens options (w.draft.modifyTop entered) { frame with attributes } w v) :
    Nested v.draft.frames := by
  have hbelow := h.modifyTop alike_entered
  obtain ⟨tagName, index, hnew⟩ := haccepted.eq_new
  have hkind := haccepted.kind
  have hinner : Element.kindOf name ≠ .view → ∀ placed, placed = isFactory (Element.kindOf name) →
      Nested ((w.draft.modifyTop entered).push { frame with attributes, placed }).frames :=
    fun hother placed hplaced => ⟨hplaced ▸ haccepted.sits h hignored hother attributes, hbelow⟩
  have hplain : { frame with attributes, placed := false } = { frame with attributes } := by
    rw [hnew]
    rfl
  cases hopens with
  | refused hcore =>
    rw [draft_of_core hcore, hnew]
    exact ⟨.ignored rfl rfl rfl, hbelow⟩
  | property hcase hcore =>
    have hcase : Element.kindOf name = _ := hkind.symm.trans hcase
    rw [draft_of_core hcore, ← hplain]
    exact hinner (by rw [hcase]; exact nofun) false (by rw [hcase]; rfl)
  | factory hshape hcore =>
    have hcase : isFactory (Element.kindOf name) = true :=
      hkind ▸ (isFactory_of_shape hshape :)
    rw [draft_of_core hcore]
    refine Nested.push_alike ?_ (alike_setBuffer _ _)
    exact hinner (hkind ▸ (kind_ne_view_of_shape hshape :)) true hcase.symm
  | slotContent hcase hcore =>
    have hcase : Element.kindOf name = _ := hkind.symm.trans hcase
    rw [draft_of_core hcore, ← hplain]
    refine Nested.push_alike ?_ (alike_modifyTop alike_holding _)
    exact hinner (by rw [hcase]; exact nofun) false (by rw [hcase]; rfl)
  | slot hframe hcore | element hframe _ _ _ hcore =>
    rw [draft_of_core hcore]
    refine @Nested.setBuffer (Draft.push _ _) ⟨?_, hbelow.modifyTop (alike_recordChild _)⟩ _
    refine .view rfl rfl rfl rfl fun p hp => ?_
    rw [Draft.head?_modifyTop, Draft.head?_modifyTop] at hp
    cases hhead : w.draft.frames.head? with
    | none =>
      rw [hhead] at hp
      cases hp
    | some parent =>
      rw [hhead] at hp hignored
      cases hp
      exact (alike_recordChild _ _).ignored.trans hignored

theorem Nested.starts (h : Nested w.draft.frames) (hs : Starts options name attributes w v) :
    Nested v.draft.frames := by
  cases hs with
  | outside hcore =>
    rw [draft_of_core hcore]
    exact h
  | skipped hcore =>
    rw [draft_of_core hcore]
    exact ⟨.ignored rfl rfl rfl, h.modifyTop alike_opening⟩
  | accepted hignored haccepted hopens => exact h.opens hignored haccepted hopens

/-! ### The end of a tag -/

/-- The end of a slot ends its fallback. -/
theorem Leaves.inSlotFallback_eq (h : Leaves options d frame w v) :
    v.inSlotFallback = (w.inSlotFallback && !frame.isSlot) := by
  have hother (hkind : frame.kind ≠ .view) : frame.isSlot = false :=
    Bool.eq_false_iff.mpr fun hslot => hkind (kind_of_isSlot hslot)
  cases h with
  | element _ hslot _ _ hcore | mixed _ hslot _ hcore =>
    rw [hslot, Bool.not_false, Bool.and_true]
    exact (congrArg inSlotFallback hcore :)
  | slot hslot _ hcore =>
    rw [hslot, Bool.not_true, Bool.and_false]
    exact (congrArg inSlotFallback hcore :)
  | property hkind _ _ hcore | slotContent hkind _ _ _ hcore =>
    rw [hother (by rw [hkind]; exact nofun), Bool.not_false, Bool.and_true]
    exact (congrArg inSlotFallback hcore :)
  | factory hshape _ _ hcore =>
    rw [hother (kind_ne_view_of_shape hshape), Bool.not_false, Bool.and_true]
    exact (congrArg inSlotFallback hcore :)

/-- A tag that is closed gives its buffer to the tags below, and changes nothing else of them. -/
theorem Leaves.draft_eq (h : Leaves options d frame w v) :
    ∃ b, v.draft = (d.modifyTop shut).setBuffer b := by
  cases h with
  | element _ _ _ _ hcore | mixed _ _ _ hcore | slot _ _ hcore | property _ _ _ hcore
  | factory _ _ _ hcore | slotContent _ _ _ _ hcore => exact ⟨_, (congrArg draft hcore :)⟩

theorem Nested.ends (h : Nested w.draft.frames) (he : Ends options name w v) :
    Nested v.draft.frames := by
  cases he with
  | outside hcore | bare hcore =>
    rw [draft_of_core hcore]
    exact h
  | unmatched hcore =>
    rw [draft_of_core hcore]
    exact h.modifyTop alike_shut
  | dropped hdraft _ hcore =>
    rw [hdraft] at h
    rw [draft_of_core hcore]
    exact Nested.modifyTop h.2 alike_shut
  | left hdraft _ hleaves =>
    rw [hdraft] at h
    obtain ⟨b, hv⟩ := hleaves.draft_eq
    rw [hv]
    exact (Nested.modifyTop h.2 alike_shut).setBuffer b

theorem Nested.shaped (h : Nested w.draft.frames) :
    ∀ d frame, w.draft = d.push frame → Shaped d frame := by
  intro d frame hdraft
  rw [hdraft] at h
  cases h.1 with
  | ignored hignored hplaced =>
    exact ⟨fun _ => hplaced, by rw [hignored]; exact nofun, by rw [hignored]; exact nofun⟩
  | view hignored hkind hown hplaced =>
    exact ⟨by rw [hignored]; exact nofun, fun _ _ => ⟨hown, hplaced⟩,
      fun _ hother => absurd hkind hother⟩
  | inner hignored hkind hskip hown hplaced _ hparent =>
    exact ⟨by rw [hignored]; exact nofun, fun _ hview => absurd hview hkind,
      fun _ _ => ⟨hskip, hplaced, Option.isSome_iff_exists.mp hown, _, hparent⟩⟩

/-! ### The bindings of open tags -/

/-- The bindings of all open tags have a property. -/
def Bound (P : BindingDescriptor → Prop) (frames : List Frame) : Prop :=
  ∀ frame ∈ frames, ∀ descriptor ∈ frame.descriptors, P descriptor

variable {P : BindingDescriptor → Prop}

theorem Bound.alike (h : Bound P fs) (hfg : List.Forall₂ Alike fs gs) : Bound P gs := by
  induction hfg with
  | nil => exact h
  | cons hfg _ ih =>
    obtain ⟨hf, hrest⟩ := List.forall_mem_cons.mp h
    exact List.forall_mem_cons.mpr ⟨by rwa [hfg.descriptors], ih hrest⟩

theorem Bound.push (h : Bound P d.frames) (hframe : ∀ descriptor ∈ frame.descriptors, P descriptor) :
    Bound P (d.push frame).frames :=
  List.forall_mem_cons.mpr ⟨hframe, h⟩

theorem Bound.opens (h : Bound P d.frames) (hframe : frame.descriptors = [])
    (hname : ∀ name attributes index, frame = viewFrame name attributes index →
      ∀ descriptor ∈ Element.bindings options name attributes, P descriptor)
    (hopens : Opens options d frame w v) : Bound P v.draft.frames := by
  have hnone : ∀ descriptor ∈ frame.descriptors, P descriptor := by
    rw [hframe]
    exact nofun
  cases hopens with
  | refused hcore | property _ hcore =>
    rw [draft_of_core hcore]
    exact h.push hnone
  | factory _ hcore =>
    rw [draft_of_core hcore]
    exact (h.alike (alike_setBuffer d _)).push hnone
  | slotContent _ hcore =>
    rw [draft_of_core hcore]
    exact (h.alike (alike_modifyTop alike_holding d)).push hnone
  | slot _ hcore =>
    rw [draft_of_core hcore]
    refine Bound.alike (Bound.push (h.alike (alike_modifyTop (alike_recordChild _) d)) ?_)
      (alike_setBuffer (Draft.push _ _) _)
    exact nofun
  | element hview _ _ _ hcore =>
    rw [draft_of_core hcore]
    exact ((h.alike (alike_modifyTop (alike_recordChild _) d)).push
      (hname _ _ _ hview)).alike (alike_setBuffer (Draft.push _ _) _)

theorem Bound.starts (h : Bound P w.draft.frames)
    (hname : ∀ descriptor ∈ Element.bindings options name attributes, P descriptor)
    (hs : Starts options name attributes w v) : Bound P v.draft.frames := by
  cases hs with
  | outside hcore =>
    rw [draft_of_core hcore]
    exact h
  | skipped hcore =>
    rw [draft_of_core hcore]
    exact (h.alike (alike_modifyTop alike_opening _)).push nofun
  | @accepted frame _ haccepted hopens =>
    refine (h.alike (alike_modifyTop alike_entered _)).opens ?_ ?_ hopens
    · obtain ⟨_, _, rfl⟩ := haccepted.eq_new
      rfl
    · intro name' attributes' index hview
      obtain ⟨_, rfl, rfl⟩ := haccepted.eq_view hview
      exact hname

theorem Bound.ends (h : Bound P w.draft.frames) (he : Ends options name w v) :
    Bound P v.draft.frames := by
  cases he with
  | outside hcore | bare hcore =>
    rw [draft_of_core hcore]
    exact h
  | unmatched hcore =>
    rw [draft_of_core hcore]
    exact h.alike (alike_modifyTop alike_shut _)
  | dropped hdraft _ hcore =>
    rw [hdraft] at h
    rw [draft_of_core hcore]
    exact Bound.alike (List.forall_mem_cons.mp h).2 (alike_modifyTop alike_shut _)
  | left hdraft _ hleaves =>
    rw [hdraft] at h
    obtain ⟨b, hv⟩ := hleaves.draft_eq
    rw [hv]
    exact (Bound.alike (List.forall_mem_cons.mp h).2 (alike_modifyTop alike_shut _)).alike
      (alike_setBuffer _ b)

end ViewMarkup.Walk
