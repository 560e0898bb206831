import ViewMarkup.Proofs.Walk.Nesting
import ViewMarkup.Proofs.Walk.Passage
import ViewMarkup.Proofs.Walk.Trace

/-!
# From the start of a tag to its end

Balanced tags inside a tag are walked over.  Whatever errors there are on the way, what they add to the
walk is a trace with its code.

* `Stands` is what holds of a walk between two tags whose effects count.
* `Builds` says that tags have added a trace, and `Builds.followedBy` puts two traces together.
* One lemma for each kind of tag says what the tag adds, given what is added inside.
-/

namespace ViewMarkup.Walk

open List
open Script (Node)
open Draft (buffer_modifyTop buffer_setBuffer codeOf codeOf_append codeOf_code finished_code
  finished_nil modifyTop_modifyTop)
open Element (creation kindOf slotName slotNodes slotVariable)
open Frame (isSlot skip slotTag)

variable {options : Options} {name : Text} {attributes : AttributeMap} {frame parent : Frame}
  {d : Draft} {b : List Fragment} {u w v v₁ v₂ v₃ : Walk} {t t' : Trace} {code code' : Code}
  {intro : List Node} {c : Walk} {owner : Int} {shape : FactoryShape} {path : Option Text}
  {index : Int} {inSlot : Bool} {views : List ChildView} {property : Text}

/-! ### Between two tags -/

/-- The tag on top takes tags inside: the code in its buffer is finished, and in a slot without a
fallback the last index is that of the slot. -/
structure Takes (w : Walk) (parent : Frame) : Prop where
  ignored : parent.ignored = false
  shut : parent.hasOpenChild = false
  splice : parent.splice ≤ w.draft.buffer.length
  inSlot : parent.isSlot = true → w.inSlotFallback = true
  home : parent.isSlot = true → parent.nestedCount = 0 → w.treeIndex = parent.index

/-- What holds of a walk between two tags whose effects count. -/
structure Stands (w : Walk) : Prop where
  suppressed : w.suppressed = 0
  finished : Draft.Finished w.draft.buffer
  top : ∀ parent, w.draft.frames.head? = some parent → Takes w parent
  outside : w.draft.frames = [] → w.inSlotFallback = false

theorem stands_start (channel : Channel) : Stands (start channel) :=
  ⟨rfl, finished_nil, fun parent h => (Option.some_ne_none parent h.symm).elim, fun _ => rfl⟩

/-- The frame around what comes next; outside all tags, one that nothing is asked of. -/
def surrounding (w : Walk) : Frame :=
  w.draft.frames.head?.getD (skip [])

theorem surrounding_isSlot : (surrounding w).isSlot = w.draft.frames.head?.any isSlot := by
  unfold surrounding
  cases w.draft.frames.head? with
  | none => rfl
  | some parent => rfl

theorem surrounding_eq (h : w.draft.frames.head? = some parent) : surrounding w = parent := by
  unfold surrounding
  rw [h]
  rfl

section

variable (hdraft : w.draft = d.push frame)
include hdraft

theorem surrounding_push : surrounding w = frame := by
  unfold surrounding
  rw [hdraft]
  rfl

theorem core_eq_inTag : core w = inTag (core w) d frame w.draft.buffer := by
  unfold inTag
  rw [← hdraft, Draft.setBuffer_buffer]
  rfl

theorem built_push (t : Trace) (code : Code) :
    built (core w) t code = inTag { core w with treeIndex := code.last } d
      (absorb t code.views frame) (weave frame.splice t w.draft.buffer) := by
  have hbuilt := built_inTag (core w) d frame w.draft.buffer t code
  rwa [← core_eq_inTag hdraft] at hbuilt

end

section

variable (h : core v = inTag c d frame b)
include h

theorem draft_inTag :
    ∃ own d', v.draft = Draft.push d' { frame with own } ∧ v.draft.buffer = b ∧
      (frame.own = none → d' = d.setBuffer b ∧ own = none) ∧
      (frame.own.isSome = true → d' = d ∧ own = some b) := by
  have hdraft : v.draft = (d.push frame).setBuffer b := (congrArg draft h :)
  have hbuffer : v.draft.buffer = b := by
    rw [hdraft, buffer_setBuffer]
  cases hown : frame.own with
  | none =>
    rw [Draft.setBuffer_push hown] at hdraft
    refine ⟨none, d.setBuffer b, hdraft.trans ?_, hbuffer, fun _ => ⟨rfl, rfl⟩, nofun⟩
    rw [← hown]
  | some own =>
    rw [Draft.setBuffer_push_own (by rw [hown]; rfl)] at hdraft
    exact ⟨some b, d, hdraft, hbuffer, nofun, fun _ => ⟨rfl, rfl⟩⟩

theorem frames_inTag : v.draft.frames ≠ [] := by
  obtain ⟨own, d', hdraft, _⟩ := draft_inTag h
  rw [hdraft]
  exact cons_ne_nil _ _

/-- The walk after the start of a tag that takes tags inside. -/
theorem stands_inTag (hsuppressed : c.suppressed = 0)
    (hb : Draft.Finished b) (hframe : Closable frame) (hsplice : frame.splice ≤ b.length)
    (hslot : frame.isSlot = true → c.inSlotFallback = true ∧ c.treeIndex = frame.index) :
    Stands v := by
  obtain ⟨own, d', hdraft, hbuffer, _⟩ := draft_inTag h
  constructor
  case suppressed => exact (congrArg suppressed h :).trans hsuppressed
  case finished =>
    rw [hbuffer]
    exact hb
  case top =>
    intro parent hparent
    rw [hdraft] at hparent
    cases hparent
    constructor
    case ignored => exact hframe.ignored
    case shut => exact hframe.hasOpenChild
    case splice =>
      rw [hbuffer]
      exact hsplice
    case inSlot => exact fun hself => (congrArg inSlotFallback h :).trans (hslot hself).1
    case home => exact fun hself _ => (congrArg treeIndex h :).trans (hslot hself).2
  case outside =>
    intro hframes
    rw [hdraft] at hframes
    cases hframes

end

/-- The frame of a tag that belongs to the view around it. -/
def innerFrame (name : Text) (attributes : AttributeMap) (owner : Int) : Frame :=
  { Frame.new (Element.tagNameOf name) (kindOf name) owner with attributes }

theorem inTag_setOwn (hframe : frame.own.isSome) :
    inTag c d frame b = inTag c d { frame with own := some b } b := by
  rw [inTag, inTag, Draft.setBuffer_push_own hframe, Draft.setBuffer_push_own rfl]

/-- A frame with an empty buffer that belongs to a view. -/
structure Inner (frame : Frame) (owner : Int) : Prop where
  own : frame.own = some []
  index : frame.index = owner
  namespaces : frame.namespaces = []
  splice : frame.splice = 0
  isSlot : frame.isSlot = false
  isCustom : frame.isCustom = false
  closable : Closable frame

theorem inner_innerFrame (hkind : kindOf name ≠ .view) (attributes : AttributeMap)
    (owner : Int) : Inner (innerFrame name attributes owner) owner := by
  refine ⟨rfl, rfl, rfl, rfl, ?_, rfl, ⟨rfl, rfl⟩⟩
  show (decide (kindOf name = .view) && _) = false
  rw [decide_eq_false hkind, Bool.false_and]

/-- The frame after the elements inside, with what they have written in its buffer. -/
def completed (t : Trace) (views : List ChildView) (frame : Frame) : Frame :=
  { absorb t views frame with own := some t.fragments }

theorem keepsTable_property (hkind : frame.kind = .property property) : keepsTable frame = false := by
  unfold keepsTable
  rw [hkind]

theorem completed_children (hkind : keepsTable frame = false) (hframe : frame.children = []) :
    (completed t views frame).children = ChildView.indices views := by
  show (if keepsTable frame then frame.children else frame.children ++ _) = _
  rw [hkind, if_neg Bool.false_ne_true, hframe, nil_append]

/-- The table that slot content keeps. -/
theorem slotMap_completed (hkind : kindOf name = .slotContent) :
    (completed t views (innerFrame name attributes owner)).slotMap = ChildView.slotGroups views := by
  have htable : keepsTable (innerFrame name attributes owner) = true := by
    unfold keepsTable
    rw [show (innerFrame name attributes owner).kind = _ from hkind]
  rw [← ChildView.foldl_addSlotView]
  show (if keepsTable (innerFrame name attributes owner) then _ else _) = _
  rw [htable]
  rfl

/-- The walk after the start of a tag that belongs to the view around takes tags inside. -/
theorem stands_inner (h : core v = inTag c d frame []) (hsuppressed : c.suppressed = 0)
    (hframe : Inner frame owner) : Stands v := by
  refine stands_inTag h hsuppressed finished_nil hframe.closable ?_ fun hself => ?_
  · exact Nat.le_of_eq hframe.splice
  · cases hself.symm.trans hframe.isSlot

/-! ### Where a tag may stand -/

theorem rootIntro_modifyTop (f : Frame → Frame) :
    rootIntro options (d.modifyTop f) attributes = rootIntro options d attributes := by
  rw [rootIntro, rootIntro, Draft.isEmpty_modifyTop]

theorem entered_aside : Draft.Aside entered :=
  fun _ _ => rfl

theorem any_isSlot_entered :
    (d.modifyTop entered).frames.head?.any isSlot = d.frames.head?.any isSlot := by
  rw [Draft.head?_modifyTop, Option.any_map]
  rfl

theorem nextIndex_entered (w : Walk) : nextIndex w (w.draft.modifyTop entered) =
    if (surrounding w).isSlot then w.treeIndex else w.treeIndex + 1 := by
  unfold nextIndex
  rw [any_isSlot_entered, surrounding_isSlot]

theorem isSingle_of_isSlot (hslot : frame.isSlot = true) : frame.isSingle = true := by
  unfold Frame.isSingle
  split
  · rfl
  · rfl
  · exact hslot

/-- A tag that takes one tag only takes no second one. -/
theorem Accepted.first (haccepted : Accepted w name frame)
    (hsingle : (surrounding w).isSingle = true) : (surrounding w).nestedCount = 0 := by
  cases hhead : w.draft.frames.head? with
  | none =>
    unfold surrounding at hsingle
    rw [hhead] at hsingle
    cases hsingle
  | some parent =>
    rw [surrounding_eq hhead] at hsingle ⊢
    exact nesting_single hsingle (haccepted.nesting parent hhead)

/-- An array of templates holds nothing but templates. -/
theorem Accepted.not_in_array (haccepted : Accepted w name frame)
    (hkind : kindOf name ≠ .keyedTemplate) (property : Text) :
    (surrounding w).kind ≠ .templateArray property := by
  intro harray
  cases hhead : w.draft.frames.head? with
  | none =>
    unfold surrounding at harray
    rw [hhead] at harray
    cases harray
  | some parent =>
    rw [surrounding_eq hhead] at harray
    have htemplate := (nesting_template (haccepted.nesting parent hhead)).mpr ⟨property, harray⟩
    rw [htemplate, kindOf_template] at hkind
    exact hkind rfl

theorem rootIntro_inside (hparent : d.frames.head? = some parent) : rootIntro options d attributes = [] := by
  obtain ⟨below, hframes⟩ := head?_eq_some_iff.mp hparent
  rw [rootIntro, hframes]
  rfl

/-! ### Walks that differ in what they have reported -/

theorem Same.refl : Same w w :=
  ⟨rfl, rfl⟩

theorem Same.stands (h : Same w v) (hw : Stands w) : Stands v where
  suppressed := h.suppressed.trans hw.suppressed
  finished := by
    rw [h.draft]
    exact hw.finished
  top parent hparent := by
    rw [h.draft] at hparent
    have htakes := hw.top parent hparent
    refine ⟨htakes.ignored, htakes.shut, ?_, fun hslot => ?_, fun hslot hnested => ?_⟩
    · rw [h.draft]
      exact htakes.splice
    · exact (congrArg inSlotFallback h.core :).trans (htakes.inSlot hslot)
    · exact (congrArg treeIndex h.core :).trans (htakes.home hslot hnested)
  outside hframes := by
    rw [h.draft] at hframes
    exact (congrArg inSlotFallback h.core :).trans (hw.outside hframes)

theorem Same.surrounding (h : Same w v) : surrounding v = surrounding w := by
  unfold Walk.surrounding
  rw [h.draft]

/-! ### What tags add -/

/-- What tags one after the other add between two walks, after what stands before their code. -/
structure Builds (intro : List Node) (w v : Walk) (t : Trace) (code : Code) : Prop where
  spells : t.Spells intro code
  fits : t.Fits (surrounding w)
  core : Walk.core v = built (Walk.core w) t code

theorem Builds.before (hv : Builds intro w v t code) (h : Same v u) : Builds intro w u t code :=
  ⟨hv.spells, hv.fits, h.core.trans hv.core⟩

/-- The walk after tags inside a tag stands again. -/
theorem Builds.stands (h : Builds [] w v t code) (hidle : t.nested = 0 → code.last = w.treeIndex)
    (hw : Stands w) (hdraft : w.draft = d.push frame) :
    Stands v ∧ ∃ own d', v.draft = Draft.push d' { absorb t code.views frame with own } := by
  have htakes := hw.top frame (by rw [hdraft]; rfl)
  have hcore := h.core.trans (built_push hdraft t code)
  obtain ⟨own, d', hdraft', hbuffer, _⟩ := draft_inTag hcore
  have hlast : v.treeIndex = code.last := (congrArg treeIndex hcore :)
  refine ⟨⟨?_, ?_, ?_, ?_⟩, own, d', hdraft'⟩
  · exact (congrArg suppressed hcore :).trans hw.suppressed
  · rw [hbuffer]
    exact finished_weave h.spells hw.finished
  · intro parent hparent
    rw [hdraft'] at hparent
    cases hparent
    refine ⟨htakes.ignored, rfl, ?_, ?_, ?_⟩
    · rw [hbuffer, length_weave]
      have hsplice := htakes.splice
      show frame.splice ≤ _
      omega
    · intro hslot
      have hfallback : v.inSlotFallback = w.inSlotFallback := (congrArg inSlotFallback hcore :)
      exact hfallback.trans (htakes.inSlot hslot)
    · intro hslot hnested
      have hnested : frame.nestedCount + t.nested = 0 := hnested
      rw [hlast, hidle (by omega)]
      exact htakes.home hslot (by omega)
  · intro hframes
    rw [hdraft'] at hframes
    cases hframes

/-- **Two rows of tags inside a tag.** -/
theorem Builds.followedBy (h : Builds [] w u t code) (h' : Builds [] u v t' code') (hw : Stands w)
    (hdraft : w.draft = d.push frame) :
    Builds [] w v (t.followedBy t') (code.followedBy code') := by
  have hcore := h.core.trans (built_push hdraft t code)
  obtain ⟨own, d', hdraft', _⟩ := draft_inTag hcore
  have hfits := h.fits
  have hfits' := h'.fits
  rw [surrounding_push hdraft] at hfits
  rw [surrounding_push hdraft'] at hfits'
  have hothers : t'.Fits (absorb t code.views frame) := ⟨hfits'.custom, hfits'.free, hfits'.holds⟩
  have hsplice := (hw.top frame (by rw [hdraft]; rfl)).splice
  constructor
  case spells => exact h.spells.followedBy h'.spells
  case fits =>
    rw [surrounding_push hdraft]
    exact fits_followedBy hfits hothers
  case core =>
    rw [h'.core, hcore, built_inTag, absorb_followedBy, built_push hdraft]
    exact congrArg (inTag _ d _) (weave_followedBy hfits hothers hsplice)

/-- The walk after a root stands outside all tags again. -/
theorem built_bare (hspells : t.Spells intro code) (h : core v = built (core w) t code)
    (hw : Stands w) (hframes : w.draft.frames = []) :
    Stands v ∧ v.draft.frames = [] ∧ v.initialized = true ∧
      v.draft.buffer = weave (topSplice w.draft) t w.draft.buffer := by
  have hempty : w.draft.frames.isEmpty = true := List.isEmpty_iff.mpr hframes
  have hdraft : v.draft = (w.draft.modifyTop (absorb t code.views)).setBuffer
      (weave (topSplice w.draft) t w.draft.buffer) := (congrArg draft h :)
  have hnil : v.draft.frames = [] := by
    rw [← List.isEmpty_iff, hdraft, Draft.isEmpty_setBuffer, Draft.isEmpty_modifyTop]
    exact hempty
  have hbuffer : v.draft.buffer = weave (topSplice w.draft) t w.draft.buffer := by
    rw [hdraft, buffer_setBuffer]
  refine ⟨⟨?_, ?_, ?_, fun _ => ?_⟩, hnil, ?_, hbuffer⟩
  · exact (congrArg Walk.suppressed h :).trans hw.suppressed
  · rw [hbuffer]
    exact finished_weave hspells hw.finished
  · intro parent hparent
    rw [hnil] at hparent
    cases hparent
  · exact (congrArg inSlotFallback h :).trans (hw.outside hframes)
  · have hset : v.initialized = (w.initialized || w.draft.frames.isEmpty) :=
      (congrArg initialized h :)
    rw [hset, hempty, Bool.or_true]

theorem nodes_bare (hframes : d.frames = []) : d.nodes = codeOf d.buffer := by
  obtain ⟨frames, body⟩ := d
  cases hframes
  rfl

/-- The code of a root is all the code there is. -/
theorem Builds.root_nodes (h : Builds intro w v t code) (hw : Stands w)
    (hframes : w.draft.frames = []) (hbuffer : w.draft.buffer = []) :
    code.given = [] ∧ v.draft.nodes = intro ++ code.nodes := by
  have hfits := h.fits
  unfold surrounding at hfits
  rw [hframes] at hfits
  have hnone : t.given = [] := hfits.given_nil rfl
  obtain ⟨_, hbare, _, hwoven⟩ := built_bare h.spells h.core hw hframes
  refine ⟨?_, ?_⟩
  · rw [← h.spells.given, hnone]
    rfl
  · rw [nodes_bare hbare, hwoven, weave_plain hnone, hbuffer, nil_append, h.spells.nodes]

/-- Tags that change nothing. -/
theorem Same.builds (h : Same w v) (hw : Stands w) (hdraft : w.draft = d.push frame) :
    Builds [] w v .none (.none w.treeIndex) := by
  have htakes := hw.top frame (by rw [hdraft]; rfl)
  refine ⟨Trace.spells_none, Trace.fits_plain rfl, ?_⟩
  rw [h.core, built_push hdraft]
  show _ = inTag _ d (absorb .none [] frame) (weave frame.splice .none w.draft.buffer)
  rw [absorb_none htakes.shut, weave_plain rfl]
  show _ = inTag (Walk.core w) d frame (w.draft.buffer ++ [])
  rw [append_nil]
  exact core_eq_inTag hdraft

/-- A tag that has been counted and left out. -/
theorem counted_builds (hframes : w.draft.frames ≠ [])
    (hcore : core v = (core w).withDraft (w.draft.modifyTop fun f => shut (entered f))) :
    Builds [] w v ⟨1, false, [], []⟩ (.none w.treeIndex) := by
  refine ⟨⟨finished_nil, finished_nil, rfl, rfl⟩, Trace.fits_plain rfl, ?_⟩
  rcases w.draft.eq_push_or_frames_nil with hnil | ⟨top, below, hdraft⟩
  · exact absurd hnil hframes
  · have hshut (f : Frame) : shut (entered f) = absorb ⟨1, false, [], []⟩ [] f :=
      absorb_bare [] [] f
    have hbuffer := buffer_modifyTop (absorb_aside ⟨1, false, [], []⟩ []) w.draft
    rw [hcore, built_push hdraft, weave_plain rfl, append_nil, ← hbuffer, funext hshut, hdraft,
      Draft.modifyTop_push]
    exact congrArg (Walk.core w).withDraft (Draft.setBuffer_buffer _).symm

/-! ### The end of a tag -/

/-- A tag that has ended has been absorbed. -/
theorem ended_built {f : Frame → Frame} {last : Int} (hlast : last = code.last)
    (hf : ∀ frame, shut (f frame) = absorb t code.views frame)
    (hb : b = weave (topSplice c.draft) t c.draft.buffer) :
    ended { c with treeIndex := last } (c.draft.modifyTop f) b = built c t code := by
  unfold ended built
  rw [Draft.isEmpty_modifyTop, modifyTop_modifyTop, funext hf, hb, hlast]

theorem ended_inTag (d d' : Draft) (b b' : List Fragment) :
    ended (inTag c d frame b) d' b' = ended c d' b' := rfl

section Ends

variable {c : Walk} (hstart : Walk.core v₁ = inTag c d frame b) (h : Builds [] v₁ v₂ t code)

include hstart h

/-- What a tag holds has been walked over. -/
theorem Builds.core_inTag : Walk.core v₂ = inTag { c with treeIndex := code.last } d
    (absorb t code.views frame) (weave frame.splice t b) := by
  rw [h.core, hstart, built_inTag]

/-- What is added for slots goes to the tag itself. -/
theorem Builds.fits_inTag : t.Fits frame := by
  obtain ⟨own, d', hdraft, _⟩ := draft_inTag hstart
  have hfits := h.fits
  rw [surrounding_push hdraft] at hfits
  exact ⟨hfits.custom, hfits.free, hfits.holds⟩

/-- A tag that is no custom element has nothing for slots inside. -/
theorem Builds.given_nil (hcustom : frame.isCustom = false) : t.given = [] ∧ code.given = [] := by
  have hnone := (h.fits_inTag hstart).given_nil hcustom
  refine ⟨hnone, ?_⟩
  rw [← h.spells.given, hnone]
  rfl

/-- The end of a tag that writes into the buffer below. -/
theorem Builds.leaves (hown : frame.own = none) (hname : Name.isPlatform name = false)
    (hsuppressed : c.suppressed = 0) (hframe : Closable frame) (hfull : frame.fullName = name)
    (he : Ends options name v₂ v₃) :
    v₂.draft = (d.setBuffer (weave frame.splice t b)).push (absorb t code.views frame) ∧
      Leaves options (d.setBuffer (weave frame.splice t b)) (absorb t code.views frame) v₂ v₃ := by
  have hcore := h.core_inTag hstart
  have hzero : v₂.suppressed = 0 := (congrArg suppressed hcore :).trans hsuppressed
  have hdraft : v₂.draft =
      (d.setBuffer (weave frame.splice t b)).push (absorb t code.views frame) := by
    have hshared : (absorb t code.views frame).own = none := hown
    rw [inTag_shared hshared] at hcore
    exact (congrArg draft hcore :)
  rcases he.closed hdraft hname hzero ⟨hfull, rfl⟩ with ⟨hignored, _⟩ | ⟨_, hleaves⟩
  · cases hignored.symm.trans hframe.ignored
  · exact ⟨hdraft, hleaves⟩

end Ends

section

variable (hstart : Walk.core v₁ = inTag c d frame []) (h : Builds [] v₁ v₂ t code)
  (hinner : Inner frame owner)
include hstart h hinner

/-- What a tag with a buffer of its own holds has been walked over. -/
theorem Builds.core_inner :
    Walk.core v₂ = inTag { c with treeIndex := code.last } d (completed t code.views frame)
      t.fragments := by
  have hbuffer : (absorb t code.views frame).own.isSome = true := by
    show frame.own.isSome = true
    rw [hinner.own]
    rfl
  rw [h.core_inTag hstart, weave_plain (h.given_nil hstart hinner.isCustom).1, nil_append]
  exact inTag_setOwn hbuffer

/-- The end of a tag that has a buffer of its own. -/
theorem Builds.leaves_own (hname : Name.isPlatform name = false)
    (hsuppressed : c.suppressed = 0) (hfull : frame.fullName = name) (he : Ends options name v₂ v₃) :
    Leaves options d (completed t code.views frame) v₂ v₃ := by
  have hcore := h.core_inner hstart hinner
  have hzero : v₂.suppressed = 0 := (congrArg suppressed hcore :).trans hsuppressed
  have hdraft : v₂.draft = d.push (completed t code.views frame) := (congrArg draft hcore :)
  rcases he.closed hdraft hname hzero ⟨hfull, rfl⟩ with ⟨hignored, _⟩ | ⟨_, hleaves⟩
  · cases hignored.symm.trans hinner.closable.ignored
  · exact hleaves

end

/-! ### An element -/

/-- The frame of a view that is no slot. -/
theorem isSlot_elementFrame (path : Option Text) (index : Int) (start : Nat)
    (hname : name ≠ slotTag) :
    (elementFrame options path name attributes index start).isSlot = false := by
  show (decide _ && decide (name = slotTag)) = false
  rw [decide_eq_false hname, Bool.and_false]

/-- The trace of an element, given what stands before it, what is added inside and what it writes at
its end. -/
def elementTrace (options : Options) (path : Option Text) (name : Text) (attributes : AttributeMap)
    (index : Int) (inSlot : Bool) (intro : List Node) (t : Trace) (ending : List Node) : Trace :=
  ⟨1, false, [], intro.map .code ++ ((slotVariable path index).map .code ++ t.given ++
    (creation options path name attributes index inSlot).map .code ++ t.fragments ++
    ending.map .code)⟩

/-- The code of an element, given the code inside and what it writes at its end. -/
def elementCode (options : Options) (path : Option Text) (name : Text) (attributes : AttributeMap)
    (index : Int) (inSlot : Bool) (code : Code) (ending : List Node) : Code :=
  ⟨[], slotVariable path index ++ code.given ++
    creation options path name attributes index inSlot ++ code.nodes ++ ending,
    [childOf (viewFrame name attributes index)], code.last⟩

theorem spells_elementTrace {ending : List Node} (ht : t.Spells [] code) :
    (elementTrace options path name attributes index inSlot intro t ending).Spells intro
      (elementCode options path name attributes index inSlot code ending) where
  finished_given := finished_nil
  finished := by
    have hcode := finished_code
    exact (hcode _).append (((((hcode _).append ht.finished_given).append (hcode _)).append
      ht.finished).append (hcode _))
  given := rfl
  nodes := by
    simp only [elementTrace, elementCode, codeOf_append, codeOf_code, ht.given, ht.nodes,
      nil_append]

/-- What elements inside have written, in the buffer that their element has started to write in. -/
theorem weave_elementOpening :
    weave (elementFrame options path name attributes index b.length).splice t
        (b ++ elementOpening options path name attributes index inSlot) =
      b ++ ((slotVariable path index).map .code ++ t.given ++
        (creation options path name attributes index inSlot).map .code ++
        t.fragments) := by
  have hsplice : (elementFrame options path name attributes index b.length).splice =
      (b ++ (slotVariable path index).map Fragment.code).length := by
    rw [length_append, length_map]
    rfl
  rw [hsplice, weave, elementOpening, ← append_assoc b, take_left, drop_left]
  simp only [append_assoc]

/-- The walk after the start of an element that is no slot. -/
def elementStart (options : Options) (path : Option Text) (name : Text) (attributes : AttributeMap)
    (w : Walk) : Walk :=
  let d := w.draft.modifyTop entered
  let index := nextIndex w d
  let b := d.buffer ++ (rootIntro options d attributes).map .code
  inTag { core w with treeIndex := index }
    (d.modifyTop (recordChild (viewFrame name attributes index)))
    (elementFrame options path name attributes index b.length)
    (b ++ elementOpening options path name attributes index (d.frames.head?.any isSlot))

section Element

variable (hw : Stands w) (hother : name ≠ slotTag) {path : Option Text}
  (hcore : core v₁ = elementStart options path name attributes w)

include hcore

theorem elementStart_eq : core v₁ = let index := nextIndex w (w.draft.modifyTop entered)
    let b := w.draft.buffer ++ (rootIntro options w.draft attributes).map .code
    inTag { core w with treeIndex := index }
      (w.draft.modifyTop fun frame =>
        recordChild (viewFrame name attributes index) (entered frame))
      (elementFrame options path name attributes index b.length)
      (b ++ elementOpening options path name attributes index
        (w.draft.frames.head?.any isSlot)) := by
  rw [hcore, elementStart]
  rw [any_isSlot_entered, buffer_modifyTop entered_aside, rootIntro_modifyTop,
    modifyTop_modifyTop]

include hw hother in
theorem element_stands : Stands v₁ ∧ v₁.draft.frames ≠ [] := by
  have hstart := elementStart_eq hcore
  refine ⟨stands_inTag hstart hw.suppressed ?_ ⟨rfl, rfl⟩ ?_ fun hself => ?_, frames_inTag hstart⟩
  · exact (hw.finished.append (finished_code _)).append
      ((finished_code _).append (finished_code _))
  · show (w.draft.buffer ++ (rootIntro options w.draft attributes).map Fragment.code).length + _ ≤ _
    simp only [elementOpening, length_append, length_map]
    omega
  · rw [isSlot_elementFrame path _ _ hother] at hself
    cases hself

/-- **An element from its start to its end**, given what it writes at its end. -/
theorem element_builds (hw : Stands w) (hname : Name.isPlatform name = false)
    (h : Builds [] v₁ v₂ t code) (he : Ends options name v₂ v₃) :
    let index := nextIndex w (w.draft.modifyTop entered)
    let inSlot := w.draft.frames.head?.any isSlot
    let intro := rootIntro options w.draft attributes
    ∃ below, v₂.draft = Draft.push below (absorb t code.views (elementFrame options path name attributes
        index (w.draft.buffer ++ intro.map Fragment.code).length)) ∧
      Leaves options below (absorb t code.views (elementFrame options path name attributes
        index (w.draft.buffer ++ intro.map Fragment.code).length)) v₂ v₃ ∧
      ∀ ending, core v₃ = ended (core v₂) below (below.buffer ++ ending.map .code) →
        Builds intro w v₃ (elementTrace options path name attributes index inSlot intro t ending)
          (elementCode options path name attributes index inSlot code ending) := by
  have hstart := elementStart_eq hcore
  obtain ⟨hdraft, hleaves⟩ := h.leaves hstart rfl hname hw.suppressed ⟨rfl, rfl⟩ rfl he
  refine ⟨_, hdraft, hleaves, fun ending hv₃ =>
    ⟨spells_elementTrace h.spells, Trace.fits_plain rfl, ?_⟩⟩
  rw [hv₃, buffer_setBuffer, ended_setBuffer, h.core_inTag hstart, ended_inTag, weave_elementOpening]
  refine ended_built rfl (absorb_view _ _) ?_
  rw [weave_plain rfl]
  simp only [elementTrace, append_assoc]
  rfl

end Element

/-! ### A slot -/

/-- No slot is open around a slot. -/
theorem Stands.outside_slot (hw : Stands w) (haccepted : Accepted w slotTag frame) :
    w.inSlotFallback = false ∧ w.draft.frames.head?.any isSlot = false := by
  have hfallback : w.inSlotFallback = false := by
    cases hhead : w.draft.frames.head? with
    | none => exact hw.outside (head?_eq_none_iff.mp hhead)
    | some parent => exact nesting_slot (haccepted.nesting parent hhead)
  refine ⟨hfallback, ?_⟩
  cases hhead : w.draft.frames.head? with
  | none => rfl
  | some parent =>
    cases hslot : parent.isSlot with
    | false => exact hslot
    | true => cases ((hw.top parent hhead).inSlot hslot).symm.trans hfallback

/-- The trace of a slot, given what stands before it and what is added inside. -/
def slotTrace (options : Options) (attributes : AttributeMap) (index : Int) (intro : List Node)
    (t : Trace) : Trace :=
  ⟨1, false, [], intro.map .code ++
    [.code (Construction.declareOnly (options.settings.elementName index)),
      slotEnding options.settings index (slotName attributes) t.fragments]⟩

/-- The code of a slot, given the code inside. -/
def slotCode (options : Options) (attributes : AttributeMap) (index : Int) (code : Code) : Code :=
  ⟨[], slotNodes options.settings attributes index code.nodes,
    [childOf (viewFrame slotTag attributes index)], code.last⟩

theorem node_slotEnding (ht : t.Spells [] code) :
    (slotEnding options.settings index (slotName attributes) t.fragments).node [] =
      Fragment.slotBranch (options.settings.elementName index) (slotName attributes)
        (if code.nodes.isEmpty then none
          else some (Construction.slotFallback options.settings index code.nodes)) := by
  have hnodes : codeOf t.fragments = code.nodes := ht.nodes
  rw [slotEnding, ← hnodes]
  cases t.fragments <;> rfl

theorem spells_slot (ht : t.Spells [] code) (views : List ChildView) : Trace.Spells intro
      ⟨1, false, [], intro.map .code ++
        [.code (Construction.declareOnly (options.settings.elementName index)),
          slotEnding options.settings index (slotName attributes) t.fragments]⟩
      ⟨[], slotNodes options.settings attributes index code.nodes, views,
        code.last⟩ where
  finished_given := finished_nil
  finished := by
    refine (finished_code intro).append ((finished_code [_]).append ?_)
    unfold slotEnding
    split
    · exact Draft.finished_slot
    · exact finished_code [_]
  given := rfl
  nodes := by
    rw [codeOf_append, codeOf_code]
    refine congrArg (intro ++ ·) ?_
    show [_, Fragment.node [] _] = _
    rw [node_slotEnding ht]
    rfl

/-- The walk after the start of a slot. -/
def slotStart (options : Options) (attributes : AttributeMap) (w : Walk) : Walk :=
  let d := w.draft.modifyTop entered
  let index := nextIndex w d
  let b := d.buffer ++ (rootIntro options d attributes).map .code
  inTag { core w with treeIndex := index, inSlotFallback := true }
    (d.modifyTop (recordChild (viewFrame slotTag attributes index)))
    (slotFrame options attributes index b.length) (b ++ slotOpening options attributes index)

section Slot

variable (hcore : core v₁ = slotStart options attributes w)

include hcore

theorem slotStart_eq : core v₁ = let index := nextIndex w (w.draft.modifyTop entered)
    let b := w.draft.buffer ++ (rootIntro options w.draft attributes).map .code
    inTag { core w with treeIndex := index, inSlotFallback := true }
      (w.draft.modifyTop fun frame =>
        recordChild (viewFrame slotTag attributes index) (entered frame))
      (slotFrame options attributes index b.length) (b ++ slotOpening options attributes index) := by
  rw [hcore, slotStart]
  rw [buffer_modifyTop entered_aside, rootIntro_modifyTop, modifyTop_modifyTop]

theorem slot_stands (hw : Stands w) : Stands v₁ ∧ v₁.draft.frames ≠ [] := by
  have hstart := slotStart_eq hcore
  refine ⟨stands_inTag hstart hw.suppressed ?_ ⟨rfl, rfl⟩ ?_ fun _ => ⟨rfl, rfl⟩,
    frames_inTag hstart⟩
  · exact (hw.finished.append (finished_code _)).append
      ((finished_code [_]).append Draft.finished_slot)
  · simp only [slotOpening, length_append, length_cons, length_nil]
    exact Nat.le_refl _

/-- **A slot from its start to its end.** -/
theorem slot_builds (hw : Stands w) (haccepted : Accepted w slotTag frame)
    (h : Builds [] v₁ v₂ t code) (he : Ends options slotTag v₂ v₃) :
    let index := nextIndex w (w.draft.modifyTop entered)
    let intro := rootIntro options w.draft attributes
    Builds intro w v₃ (slotTrace options attributes index intro t)
      (slotCode options attributes index code) ∧ ledger v₃ = ledger v₂ := by
  intro index intro
  have hstart := slotStart_eq hcore
  have hplatform : Name.isPlatform slotTag = false := by decide
  have hleaves := (h.leaves hstart rfl hplatform hw.suppressed ⟨rfl, rfl⟩ rfl he).2
  cases hleaves with
  | slot _ _ hcore₃ hledger₃ =>
    refine ⟨⟨spells_slot h.spells _, Trace.fits_plain rfl, ?_⟩, hledger₃⟩
    let b := w.draft.buffer ++ intro.map .code
    let top := absorb t code.views (slotFrame options attributes index b.length)
    have hv₃ : core v₃ = ended { core w with treeIndex := code.last, inSlotFallback := false }
        (w.draft.modifyTop fun frame =>
          recordChild (viewFrame slotTag attributes index) (entered frame))
        (slotClosed options.settings top
          (weave top.splice t (b ++ slotOpening options attributes index))) := by
      rw [hcore₃, ended_setBuffer, buffer_setBuffer, h.core_inTag hstart]
      rfl
    generalize hbefore :
      b ++ [.code (Construction.declareOnly (options.settings.elementName index))] = before
    have hsplice : top.splice = before.length + 1 := by
      show b.length + 2 = _
      simp only [← hbefore, length_append, length_singleton]
    have hclosed : slotClosed options.settings top
        (weave top.splice t (b ++ slotOpening options attributes index)) =
          before ++ [slotEnding options.settings index (slotName attributes) t.fragments] := by
      refine Eq.trans ?_ (slotClosed_slot rfl before t.fragments hsplice)
      rw [weave_plain (h.given_nil hstart rfl).1, ← hbefore]
      simp only [slotOpening, append_assoc, cons_append, nil_append]
      rfl
    have hreset : ({ core w with treeIndex := code.last, inSlotFallback := false } : Walk) =
        { core w with treeIndex := code.last } := by
      rw [show false = (core w).inSlotFallback from (hw.outside_slot haccepted).1.symm]
    rw [hclosed, hreset] at hv₃
    refine hv₃.trans (ended_built rfl (absorb_view _ _) ?_)
    rw [weave_plain rfl, ← hbefore, slotTrace]
    simp only [b, append_assoc]
    rfl
  | element _ hslot => cases hslot
  | mixed _ hslot => cases hslot
  | property hkind => cases hkind
  | factory hshape => cases hshape
  | slotContent hkind => cases hkind

end Slot

/-! ### Tags that belong to the view around -/

/-- The walk after the start of such a tag. -/
theorem inner_stands (hw : Stands w) (hframe : Inner frame owner)
    (hcore : core v₁ = (core w).withDraft (d.push frame)) : Stands v₁ ∧ v₁.draft.frames ≠ [] := by
  rw [← inTag_own hframe.own] at hcore
  exact ⟨stands_inner hcore hw.suppressed hframe, frames_inTag hcore⟩

/-- **A tag for a property from its start to its end.** -/
theorem property_builds (hw : Stands w) (hname : Name.isPlatform name = false)
    (hkind : kindOf name = .property property) (hcore : core v₁ = (core w).withDraft
      ((w.draft.modifyTop entered).push (innerFrame name attributes parent.index)))
    (h : Builds [] v₁ v₂ t code) (he : Ends options name v₂ v₃) :
    let ending := Construction.addToProperty options.settings
      (completed t code.views (innerFrame name attributes parent.index)) property
    Builds [] w v₃ ⟨1, false, [], t.fragments ++ ending.map .code⟩
      ⟨[], code.nodes ++ ending, [], code.last⟩ ∧ ledger v₃ = ledger v₂ := by
  have hother : kindOf name ≠ .view := by
    rw [hkind]
    exact nofun
  have hframe := inner_innerFrame hother attributes parent.index
  rw [← inTag_own rfl] at hcore
  have hleaves := h.leaves_own hcore hframe hname hw.suppressed (fullName_new name parent.index) he
  cases hleaves with
  | @property property' b hself hown _ hcore₃ hledger₃ =>
    cases hown
    cases hself.symm.trans hkind
    refine ⟨⟨⟨finished_nil, h.spells.finished.append (finished_code _), rfl, ?_⟩,
      Trace.fits_plain rfl, ?_⟩, hledger₃⟩
    · rw [codeOf_append, h.spells.nodes, codeOf_code]
      rfl
    · rw [hcore₃, h.core_inTag hcore, ended_inTag, buffer_modifyTop entered_aside]
      refine ended_built rfl (absorb_bare _ _) ?_
      rw [weave_plain rfl]
      rfl
  | element hself | mixed hself => exact absurd hself hother
  | slot hself => cases hself.symm.trans hframe.isSlot
  | factory hshape =>
    have hfactory : isFactory (kindOf name) = true := isFactory_of_shape hshape
    rw [hkind] at hfactory
    cases hfactory
  | slotContent hself => cases hself.symm.trans hkind

theorem keepsTable_of_shape {settings : Settings} (h : factoryShape? settings frame = some shape) :
    keepsTable frame = false := by
  have hfactory := isFactory_of_shape h
  unfold keepsTable
  cases hkind : frame.kind with
  | slotContent | skipped => rw [hkind] at hfactory; cases hfactory
  | _ => rfl

/-- The frame of a template, or of an array of templates. -/
theorem inner_placing (hshape : factoryShape? options.settings (innerFrame name attributes parent.index) = some shape) :
    Inner (placing (innerFrame name attributes parent.index)) parent.index :=
  ⟨rfl, rfl, rfl, rfl, (inner_innerFrame (kind_ne_view_of_shape hshape) attributes parent.index).isSlot,
    rfl, ⟨rfl, rfl⟩⟩

/-- **A template, or an array of templates, from its start to its end.** -/
theorem factory_builds (hw : Stands w) (hname : Name.isPlatform name = false)
    (hshape : factoryShape? options.settings (innerFrame name attributes parent.index) = some shape)
    (hcore : core v₁ = (core w).withDraft
      (((w.draft.modifyTop entered).setBuffer
        ((w.draft.modifyTop entered).buffer ++ [.factory shape])).push
          (placing (innerFrame name attributes parent.index)))) (h : Builds [] v₁ v₂ t code)
    (he : Ends options name v₂ v₃) :
    let node := shape.node (code.nodes ++ templateEnding options.settings
      (completed t code.views (placing (innerFrame name attributes parent.index))))
    Builds [] w v₃ ⟨1, false, [], [.code node]⟩ ⟨[], [node], [], code.last⟩ ∧
      ledger v₃ = ledger v₂ := by
  have hother : kindOf name ≠ .view := kind_ne_view_of_shape hshape
  have hframe := @inner_placing options name attributes parent shape hshape
  have hfactory : isFactory (kindOf name) = true := isFactory_of_shape hshape
  rw [← inTag_own rfl, buffer_modifyTop entered_aside] at hcore
  have hleaves := h.leaves_own hcore hframe hname hw.suppressed (fullName_new name parent.index) he
  cases hleaves with
  | @factory shape' b hshape' hown _ hcore₃ hledger₃ =>
    cases hown
    have hnodes : codeOf t.fragments = code.nodes := h.spells.nodes
    refine ⟨⟨⟨finished_nil, finished_code [_], rfl, rfl⟩, Trace.fits_plain rfl, ?_⟩, hledger₃⟩
    rw [hcore₃, h.core_inTag hcore, ended_inTag, buffer_setBuffer, ended_setBuffer, map_append,
      hw.finished.fill, hnodes]
    refine ended_built rfl (absorb_bare _ _) ?_
    rw [weave_plain rfl]
    rfl
  | element hself | mixed hself => exact absurd hself hother
  | slot hself => cases hself.symm.trans hframe.isSlot
  | property hself | slotContent hself =>
    have hself : kindOf name = _ := hself
    rw [hself] at hfactory
    cases hfactory

theorem insertAt_splice {n : Nat} (hn : n ≤ b.length) {given : List Fragment} :
    Buffer.insertAt b n given = b.take n ++ given ++ b.drop n := by
  have hplace : Buffer.place b.length n = n := Nat.min_eq_left hn
  rw [Buffer.insertAt, hplace]

/-- **Slot content from its start to its end.** -/
theorem slotContent_builds (hw : Stands w) (hname : Name.isPlatform name = false)
    (hkind : kindOf name = .slotContent)
    (hparent : w.draft.frames.head? = some parent) (hcustom : parent.isCustom = true)
    (hfree : parent.holdsSlots = false)
    (hcore : core v₁ = (core w).withDraft (((w.draft.modifyTop entered).modifyTop holding).push
      (innerFrame name attributes parent.index)))
    (h : Builds [] v₁ v₂ t code) (he : Ends options name v₂ v₃) :
    let ending := Construction.slotAssignments options.settings
      (completed t code.views (innerFrame name attributes parent.index))
    Builds [] w v₃ ⟨1, true, t.fragments ++ ending.map .code, []⟩
      ⟨code.nodes ++ ending, [], [], code.last⟩ ∧ ledger v₃ = ledger v₂ := by
  have hother : kindOf name ≠ .view := by
    rw [hkind]
    exact nofun
  have hframe := inner_innerFrame hother attributes parent.index
  rw [← inTag_own rfl, modifyTop_modifyTop] at hcore
  have hleaves := h.leaves_own hcore hframe hname hw.suppressed (fullName_new name parent.index) he
  cases hleaves with
  | @slotContent parent' b _ hparent' hown _ hcore₃ hledger₃ =>
    cases hown
    rw [Draft.head?_modifyTop, hparent] at hparent'
    cases hparent'
    have htop : topSplice (Walk.core w).draft = parent.splice := by
      show topSplice w.draft = _
      rw [topSplice, hparent]
      rfl
    refine ⟨⟨⟨h.spells.finished.append (finished_code _), finished_nil, ?_, rfl⟩, ?_, ?_⟩, hledger₃⟩
    · rw [codeOf_append, h.spells.nodes, codeOf_code]
      rfl
    · rw [surrounding_eq hparent]
      exact ⟨fun _ => hcustom, fun _ => hfree, fun _ => rfl⟩
    · rw [hcore₃, h.core_inTag hcore, ended_inTag, buffer_modifyTop fun _ _ => rfl]
      refine ended_built rfl (absorb_content _ _) ?_
      rw [htop, weave, append_nil]
      exact insertAt_splice (hw.top parent hparent).splice
  | element hself | mixed hself => exact absurd hself hother
  | slot hself => cases hself.symm.trans hframe.isSlot
  | factory hshape =>
    have hfactory : isFactory (kindOf name) = true := isFactory_of_shape hshape
    rw [hkind] at hfactory
    cases hfactory
  | property hself => cases hself.symm.trans hkind

/-! ### The start of a tag that may stand where it stands -/

theorem callbacks_of_ledger (h : ledger v = ledger w) : v.callbacks = w.callbacks :=
  (congrArg Ledger.callbacks h :)

namespace Ledger

variable {l : Ledger}

theorem callbacks_declare (written : Text) :
    (l.declare options written).callbacks = l.callbacks := by
  unfold declare
  dsimp only
  split <;> rfl

theorem callbacks_enter {hasParent : Bool} : (l.enter options hasParent attributes).callbacks = l.callbacks := by
  unfold enter
  induction declaredModules attributes generalizing l with
  | nil => rfl
  | cons item rest ih =>
    rw [foldl_cons, ih, callbacks_declare]

theorem callbacks_use : (l.use path name).callbacks = l.callbacks := by
  unfold use
  split <;> rfl

end Ledger

/-- A tag for a property stands in a view, and so do the templates of a property. -/
theorem Accepted.view_around (haccepted : Accepted w name frame)
    (hparent : w.draft.frames.head? = some parent) (hview : kindOf name ≠ .view)
    (hcontent : kindOf name ≠ .slotContent) (hkeyed : kindOf name ≠ .keyedTemplate) :
    parent.kind = .view := by
  rcases kindOf_cases name with ⟨owner, property, hcut, _⟩ | ⟨hself, _⟩ | ⟨hself, _⟩ | hself
  · obtain ⟨p, hp, hkind, _⟩ := haccepted.property owner property hcut
    cases hparent.symm.trans hp
    exact hkind
  · exact absurd hself hcontent
  · exact absurd hself hkeyed
  · exact absurd hself hview

/-- **What the start of a tag that may stand where it stands comes to**, by the name of the tag. -/
inductive Opened (options : Options) (name : Text) (attributes : AttributeMap) (frame : Frame)
    (w v : Walk) : Prop
  | refused
      (hcore : core v = (core w).withDraft
        ((w.draft.modifyTop entered).push { frame with attributes, ignored := true }))
      (hledger : ledger v = ledger w)
  | element (hkind : kindOf name = .view) (hother : name ≠ slotTag)
      (path : Option Text) (hknown : path = none → (Name.split name).2 = none)
      (hcore : core v = elementStart options path name attributes w)
      (hcallbacks : v.callbacks = w.callbacks)
  | slot (hname : name = slotTag) (hcore : core v = slotStart options attributes w)
      (hcallbacks : v.callbacks = w.callbacks)
  | property {property : Text} {parent : Frame} (hkind : kindOf name = .property property)
      (hparent : w.draft.frames.head? = some parent) (hview : parent.kind = .view)
      (hcore : core v = (core w).withDraft
        ((w.draft.modifyTop entered).push (innerFrame name attributes parent.index)))
      (hcallbacks : v.callbacks = w.callbacks)
  | factory {shape : FactoryShape} {parent : Frame}
      (hshape : factoryShape? options.settings (innerFrame name attributes parent.index) = some shape)
      (hparent : w.draft.frames.head? = some parent)
      (hview : kindOf name ≠ .keyedTemplate → parent.kind = .view)
      (hcore : core v = (core w).withDraft
        (((w.draft.modifyTop entered).setBuffer
          ((w.draft.modifyTop entered).buffer ++ [.factory shape])).push
            (placing (innerFrame name attributes parent.index))))
      (hcallbacks : v.callbacks = w.callbacks)
  | slotContent {parent : Frame} (hkind : kindOf name = .slotContent)
      (hparent : w.draft.frames.head? = some parent) (hcustom : parent.isCustom = true)
      (hfree : parent.holdsSlots = false)
      (hcore : core v = (core w).withDraft (((w.draft.modifyTop entered).modifyTop holding).push
        (innerFrame name attributes parent.index)))
      (hcallbacks : v.callbacks = w.callbacks)

theorem Opens.opened (haccepted : Accepted w name frame)
    (h : Opens options (w.draft.modifyTop entered) { frame with attributes } w v) :
    Opened options name attributes frame w v := by
  have hkind := haccepted.kind
  -- a tag that is no view belongs to the tag around it
  have hpart (hother : kindOf name ≠ .view) : ∃ parent,
      w.draft.frames.head? = some parent ∧
      { frame with attributes } = innerFrame name attributes parent.index := by
    obtain ⟨parent, hparent, hframe⟩ := haccepted.other hother
    refine ⟨parent, hparent, ?_⟩
    rw [hframe]
    rfl
  cases h with
  | refused hcore hledger => exact .refused hcore hledger
  | @property property hself hcore hledger =>
    have hcase : kindOf name = .property property := hkind.symm.trans hself
    obtain ⟨parent, hparent, hframe⟩ := hpart (by rw [hcase]; exact nofun)
    rw [hframe] at hcore
    refine .property hcase hparent ?_ hcore (callbacks_of_ledger hledger)
    refine haccepted.view_around hparent ?_ ?_ ?_ <;> rw [hcase] <;> exact nofun
  | @factory shape hshape hcore hledger =>
    have hfactory : isFactory frame.kind = true := (isFactory_of_shape hshape :)
    have hother : frame.kind ≠ .view := (kind_ne_view_of_shape hshape :)
    rw [hkind] at hfactory hother
    obtain ⟨parent, hparent, hframe⟩ := hpart hother
    rw [hframe] at hshape hcore
    refine .factory hshape hparent (fun hkeyed => ?_) hcore (callbacks_of_ledger hledger)
    refine haccepted.view_around hparent hother (fun hself => ?_) hkeyed
    rw [hself] at hfactory
    cases hfactory
  | slotContent hself hcore hledger =>
    have hcase : kindOf name = .slotContent := hkind.symm.trans hself
    obtain ⟨parent, hparent, hframe⟩ := hpart (by rw [hcase]; exact nofun)
    obtain ⟨hcustom, hfree⟩ :=
      nesting_slotContent (kindOf_slotContent hcase) (haccepted.nesting parent hparent)
    rw [hframe] at hcore
    exact .slotContent hcase hparent hcustom hfree hcore (callbacks_of_ledger hledger)
  | slot hframe hcore hledger =>
    obtain ⟨_, hslot, rfl⟩ := haccepted.eq_view hframe
    exact .slot hslot hcore
      ((congrArg Ledger.callbacks hledger :).trans Ledger.callbacks_enter)
  | element hframe hother path hpath hcore hledger hknown =>
    obtain ⟨hcase, rfl, rfl⟩ := haccepted.eq_view hframe
    exact .element hcase hother path hknown hcore ((congrArg Ledger.callbacks hledger :).trans
      (Ledger.callbacks_use.trans Ledger.callbacks_enter))

/-! ### Tags that are left out -/

theorem customTop_push (hdraft : w.draft = d.push frame) :
    customTop w = if frame.isCustom then [frame.index] else [] := by
  unfold customTop
  rw [hdraft]
  rfl

/-- A tag that has been refused leaves a mark in the tag around it: it has been counted there. -/
theorem refused_ends (hname : Name.isPlatform name = false) (haccepted : Accepted w name frame)
    (hsuppressed : w.suppressed = 0)
    (hcore : core v₁ = (core w).withDraft
      ((w.draft.modifyTop entered).push { frame with attributes, ignored := true }))
    (hledger : ledger v₁ = ledger w) :
    Still v₁ ∧ customTop v₁ = [] ∧ ∀ u u', Same v₁ u → Ends options name u u' →
      core u' = (core w).withDraft (w.draft.modifyTop fun f => shut (entered f)) ∧
        ledger u' = ledger w := by
  obtain ⟨tagName, index, hnew⟩ := haccepted.eq_new
  have hdraft : v₁.draft = _ := (congrArg draft hcore :)
  have hzero : v₁.suppressed = 0 := (congrArg Walk.suppressed hcore :).trans hsuppressed
  have hshut : frame.hasOpenChild = false := by rw [hnew]; rfl
  refine ⟨.ignored hzero hdraft rfl hshut, ?_, fun u u' hsame hends => ?_⟩
  · rw [customTop_push hdraft, hnew]
    rfl
  · have hclosed := hends.closed (hsame.draft.trans hdraft) hname (hsame.suppressed.trans hzero)
      ⟨haccepted.fullName, hshut⟩
    rcases hclosed with ⟨_, hback, hledger'⟩ | ⟨hignored, _⟩
    · refine ⟨?_, hledger'.trans (hsame.ledger.trans hledger)⟩
      rw [hback, hsame.core, hcore, modifyTop_modifyTop]
      rfl
    · cases hignored

/-- A tag of the platform itself changes nothing, and neither does its end. -/
theorem platform_ends (hplatform : Name.isPlatform name = true) (hsilence : silence options name = 0)
    (hsuppressed : w.suppressed = 0)
    (hcore : core v₁ = { core w with suppressed := w.suppressed + silence options name })
    (hledger : ledger v₁ = ledger w) :
    Same w v₁ ∧ ∀ u u', u.suppressed = 0 → Ends options name u u' → Same u u' := by
  have hsum : w.suppressed + silence options name = w.suppressed := by omega
  refine ⟨⟨?_, hledger⟩, fun u u' hzero hends => ?_⟩
  · rw [hcore, hsum]
    rfl
  · have hback : u.suppressed = w.suppressed + silence options name := by
      rw [hzero, hsum, hsuppressed]
    obtain ⟨hcore', hledger'⟩ := Unframed.ends (.platform hplatform) rfl hback hends
    refine ⟨hcore'.trans ?_, hledger'⟩
    rw [← hsum, ← hback]
    rfl

end ViewMarkup.Walk
