import ViewMarkup.Proofs.Walk.Rounds
import ViewMarkup.Proofs.Walk.Row

/-!
# What a row of tags adds to the code

Balanced tags inside a tag are walked over.  Whatever errors there are on the way, what has been added
to the code is a `Row`.

* `Growth` is what a row of tags adds, and `Growth.Sound` says that it is one.
* `Grows.followedBy` puts two rows together.
* One lemma for each kind of tag says this of the tag, given that it holds of what is inside.
-/

namespace ViewMarkup.Walk

open List
open Script (Node)

variable {options : Options} {P : Text → Prop} {name : Text} {attributes : AttributeMap}
  {frame parent : Frame} {d : Draft} {b : List Fragment} {u w v v₁ v₂ v₂' v₃ : Walk}
  {customs : List Int} {intro : List Node}

/-- What a row of tags has added to the code, and the indices of the custom elements in it. -/
structure Growth where
  trace : Trace
  code : Code
  callbacks : List Node
  customs : List Int

namespace Growth

variable {own : Option (List Fragment)}

/-- Nothing added. -/
def none (before : Int) : Growth :=
  ⟨.none, .none before, [], []⟩

def followedBy (x y : Growth) : Growth :=
  ⟨x.trace.followedBy y.trace, x.code.followedBy y.code, x.callbacks ++ y.callbacks,
    x.customs ++ y.customs⟩

/-- What has been added is a row of tags, given what stands before it, the frame around and the last
index before. -/
structure Sound (options : Options) (P : Text → Prop) (x : Growth) (intro : List Node)
    (parent : Frame) (before : Int) : Prop where
  spells : x.trace.Spells intro x.code
  fits : x.trace.Fits parent
  row : Row options P parent.place before x.code x.callbacks x.customs
  idle : x.trace.nested = 0 → x = none before
  /-- A slot that holds a tag takes no other. -/
  single : parent.isSlot = true → parent.nestedCount ≠ 0 → x.trace.nested = 0

variable {x y : Growth} {intro : List Node} {before : Int}

theorem none_followedBy : (none before).followedBy x = x := by
  simp [followedBy, none, Trace.followedBy, Trace.none, Code.followedBy, Code.none]

theorem followedBy_none : x.followedBy (none x.code.last) = x := by
  simp [followedBy, none, Trace.followedBy, Trace.none, Code.followedBy, Code.none]

/-- The frame around, after what has been added. -/
def around (x : Growth) (parent : Frame) (own : Option (List Fragment)) : Frame :=
  { absorb x.trace x.code.views parent with own }

theorem Sound.none_around (hy : y.Sound options P [] ((none before).around parent own) before) :
    y.Sound options P [] parent before where
  spells := hy.spells
  fits := by
    have hfits := hy.fits
    refine ⟨hfits.custom, fun hgiven => ?_, hfits.holds⟩
    have hfree := hfits.free hgiven
    exact (Bool.or_eq_false_iff.mp hfree).1
  row := hy.row
  idle := hy.idle
  single := hy.single

/-- Two rows of tags, one after the other. -/
theorem Sound.followedBy (hx : x.Sound options P [] parent before)
    (hy : y.Sound options P [] (x.around parent own) x.code.last) :
    (x.followedBy y).Sound options P [] parent before := by
  by_cases hempty : x.trace.nested = 0
  · rw [hx.idle hempty] at hy ⊢
    rw [none_followedBy]
    exact hy.none_around
  · cases hslot : parent.isSlot with
    | true =>
      have hfull : (x.around parent own).nestedCount ≠ 0 := by
        show parent.nestedCount + x.trace.nested ≠ 0
        omega
      have hnone : y.trace.nested = 0 := hy.single hslot hfull
      rw [hy.idle hnone, followedBy_none]
      exact hx
    | false =>
      have hfits : y.trace.Fits (absorb x.trace x.code.views parent) :=
        ⟨hy.fits.custom, hy.fits.free, hy.fits.holds⟩
      constructor
      case spells => exact hx.spells.followedBy hy.spells
      case fits => exact fits_followedBy hx.fits hfits
      case row => exact hx.row.followedBy hy.row hslot
      case idle =>
        intro hsum
        have hsum : x.trace.nested + y.trace.nested = 0 := hsum
        omega
      case single =>
        intro hself
        rw [hslot] at hself
        cases hself

end Growth

/-! ### Between two tags -/

/-- What has been added between two walks. -/
structure Grows (options : Options) (P : Text → Prop) (intro : List Node) (w v : Walk)
    (customs : List Int) (x : Growth) : Prop where
  sound : x.Sound options P intro (surrounding w) w.treeIndex
  core : Walk.core v = built (Walk.core w) x.trace x.code
  callbacks : v.callbacks = w.callbacks ++ x.callbacks
  customs : ∀ k ∈ customs, k ∈ customTop w ∨ k ∈ x.customs

section Compose

variable {x y : Growth} {customs' : List Int} {t : Trace} {code : Code}

theorem Grows.builds (h : Grows options P intro w v customs x) : Builds intro w v x.trace x.code :=
  ⟨h.sound.spells, h.sound.fits, h.core⟩

/-- The walk after a row of tags inside a tag stands again. -/
theorem Grows.stands (h : Grows options P [] w v customs x) (hw : Stands w)
    (hdraft : w.draft = d.push frame) :
    Stands v ∧ ∃ own d', v.draft = Draft.push d' (x.around frame own) := by
  refine h.builds.stands (fun hnested => ?_) hw hdraft
  rw [h.sound.idle hnested]
  rfl

theorem customTop_built (h : core v = built (core w) t code) : customTop v = customTop w := by
  rcases w.draft.eq_push_or_frames_nil with hnil | ⟨frame, below, hdraft⟩
  · have hempty : v.draft.frames = [] := by
      have hframes := congrArg (·.draft.frames.isEmpty) h
      have hnone : w.draft.frames.isEmpty = true := by rw [hnil]; rfl
      refine isEmpty_iff.mp (hframes.trans ?_)
      exact Draft.isEmpty_setBuffer.trans (Draft.isEmpty_modifyTop.trans hnone)
    unfold customTop
    rw [hempty, hnil]
  · obtain ⟨own, d', hdraft', _⟩ := draft_inTag (h.trans (built_push hdraft t code))
    rw [customTop_push hdraft, customTop_push hdraft']
    rfl

/-- **Two rows of tags inside a tag.** -/
theorem Grows.followedBy (h : Grows options P [] w u customs x)
    (h' : Grows options P [] u v customs' y) (hw : Stands w) (hdraft : w.draft = d.push frame) :
    Grows options P [] w v (customs ++ customs') (x.followedBy y) := by
  have hsound := h.sound
  rw [surrounding_push hdraft] at hsound
  have hcore := h.core.trans (built_push hdraft x.trace x.code)
  obtain ⟨own, d', hdraft', _⟩ := draft_inTag hcore
  have hlast : u.treeIndex = x.code.last := (congrArg treeIndex hcore :)
  have hsound' := h'.sound
  rw [surrounding_push hdraft', hlast] at hsound'
  constructor
  case sound =>
    rw [surrounding_push hdraft]
    exact hsound.followedBy hsound'
  case core => exact (h.builds.followedBy h'.builds hw hdraft).core
  case callbacks =>
    rw [h'.callbacks, h.callbacks, append_assoc]
    rfl
  case customs =>
    intro k hk
    rcases mem_append.mp hk with hk | hk
    · exact (h.customs k hk).imp_right (mem_append_left _)
    · rcases h'.customs k hk with hk | hk
      · rw [customTop_built h.core] at hk
        exact .inl hk
      · exact .inr (mem_append_right _ hk)

/-- Tags that change nothing. -/
theorem Same.grows (h : Same w v) (hw : Stands w) (hdraft : w.draft = d.push frame)
    (hcustoms : ∀ k ∈ customs, k ∈ Walk.customTop w) :
    Grows options P [] w v customs (.none w.treeIndex) := by
  have hbuilds := h.builds hw hdraft
  constructor
  case sound => exact ⟨hbuilds.spells, hbuilds.fits, .none _ _, fun _ => rfl, fun _ _ => rfl⟩
  case core => exact hbuilds.core
  case callbacks => exact (callbacks_of_ledger h.ledger).trans (append_nil _).symm
  case customs => exact fun k hk => .inl (hcustoms k hk)

end Compose

/-! ### Views -/

/-- A view gets the index of the slot around it, or the next one. -/
theorem Stands.placed (hw : Stands w) (haccepted : Accepted w name frame)
    (hkind : Element.kindOf name = .view) :
    Tidy.Placed (surrounding w).place w.treeIndex (nextIndex w (w.draft.modifyTop entered))
      (w.draft.frames.head?.any Frame.isSlot) := by
  have hindex := nextIndex_entered w
  rw [← surrounding_isSlot]
  constructor
  case isSlot => rfl
  case index => exact hindex
  case home =>
    intro hslot
    refine ⟨kind_of_isSlot hslot, ?_⟩
    rw [hindex, hslot, if_pos rfl]
    cases hhead : w.draft.frames.head? with
    | none =>
      rw [surrounding_isSlot, hhead] at hslot
      cases hslot
    | some parent =>
      have hfirst := haccepted.first (isSingle_of_isSlot hslot)
      rw [surrounding_eq hhead] at hslot hfirst ⊢
      exact ((hw.top parent hhead).home hslot hfirst).symm
  case array => exact haccepted.not_in_array (by rw [hkind]; exact nofun)

/-! ### Inside a tag -/

theorem Growth.Sound.forget_own {x : Growth} {before : Int}
    {own : Option (List Fragment)} (h : x.Sound options P intro { frame with own } before) :
    x.Sound options P intro frame before where
  spells := h.spells
  fits := ⟨h.fits.custom, h.fits.free, h.fits.holds⟩
  row := h.row
  idle := h.idle
  single := h.single

/-- What a tag holds has been walked over, given the walk after the start of the tag and the
functions there. -/
structure Held (options : Options) (P : Text → Prop) (c : Walk) (d : Draft) (frame : Frame)
    (b : List Fragment) (callbacks : List Node) (customs : List Int) (x : Growth) (v : Walk) :
    Prop where
  sound : x.Sound options P [] frame c.treeIndex
  core : Walk.core v = inTag { c with treeIndex := x.code.last } d
    (absorb x.trace x.code.views frame) (weave frame.splice x.trace b)
  callbacks : v.callbacks = callbacks ++ x.callbacks
  customs : ∀ k ∈ customs, frame.isCustom = true ∧ k = frame.index ∨ k ∈ x.customs

section Held

variable {c : Walk} {x : Growth} {before : List Node} {inner : List Int}

theorem Grows.held (h : Grows options P [] v₁ v₂ inner x)
    (hcore : Walk.core v₁ = inTag c d frame b) (hsame : Same v₂ v₂') :
    Held options P c d frame b v₁.callbacks (Walk.customTop v₁ ++ inner) x v₂' := by
  obtain ⟨own, d', hdraft, _⟩ := draft_inTag hcore
  have hsound := h.sound
  rw [surrounding_push hdraft, show v₁.treeIndex = c.treeIndex from (congrArg treeIndex hcore :)]
    at hsound
  constructor
  case sound => exact hsound.forget_own
  case core => rw [hsame.core, h.core, hcore, built_inTag]
  case callbacks => exact (callbacks_of_ledger hsame.ledger).trans h.callbacks
  case customs =>
    intro k hk
    have htop : k ∈ Walk.customTop v₁ → frame.isCustom = true ∧ k = frame.index := by
      intro hk
      rw [customTop_push hdraft] at hk
      split at hk
      · exact ⟨by assumption, mem_singleton.mp hk⟩
      · cases hk
    rcases mem_append.mp hk with hk | hk
    · exact .inl (htop hk)
    · exact (h.customs k hk).imp_left htop

theorem Held.customs_of {t : Trace} {code : Code} (h : Held options P c d frame b before inner x v₂)
    (hcore : Walk.core v₃ = built (Walk.core w) t code) (hsub : x.customs ⊆ customs)
    (hown : frame.isCustom = true → frame.index ∈ customs) :
    ∀ k ∈ inner ++ Walk.customTop v₃, k ∈ Walk.customTop w ∨ k ∈ customs := by
  intro k hk
  rw [customTop_built hcore] at hk
  rcases mem_append.mp hk with hk | hk
  · rcases h.customs k hk with ⟨hcustom, rfl⟩ | hk
    · exact .inr (hown hcustom)
    · exact .inr (hsub hk)
  · exact .inl hk

end Held

theorem Leaves.ending (h : Leaves options d frame w v) (hkind : frame.kind = .view)
    (hslot : frame.isSlot = false) :
    ∃ children own, Ending options frame children own ∧
      core v = ended (core w) d (d.buffer ++ (children ++ own.attach).map .code) ∧
      v.callbacks = w.callbacks ++ own.declarations := by
  cases h with
  | element _ _ _ hcallbacks hcore hledger =>
    exact ⟨_, _, .full hcallbacks, hcore, (congrArg Ledger.callbacks hledger :)⟩
  | mixed _ _ _ hcore hledger =>
    refine ⟨[], ⟨[], []⟩, .mixed, ?_, ?_⟩
    · rw [hcore]
      exact congrArg (ended _ d) (append_nil _).symm
    · rw [callbacks_of_ledger hledger]
      exact (append_nil _).symm
  | slot hself => cases hself.symm.trans hslot
  | property hother | slotContent hother => cases hother.symm.trans hkind
  | factory hshape => exact absurd hkind (kind_ne_view_of_shape hshape)

/-! ### One tag -/

theorem exists_describe :
    ∀ d ∈ Element.bindings options name attributes, ∃ item, Binding.describe item = .ok d := by
  intro d hd
  obtain ⟨item, _, hitem⟩ := mem_filterMap.mp hd
  refine ⟨item, ?_⟩
  cases hdescribe : Binding.describe item with
  | error e => rw [hdescribe] at hitem; cases hitem
  | ok found => rw [hdescribe] at hitem; cases hitem; rfl

section Tag

variable {inner : List Int} {x : Growth} (hw : Stands w) (hname : Name.isPlatform name = false)
  (haccepted : Accepted w name frame)
  (hinner : Stands v₁ → v₁.draft.frames ≠ [] → ∃ x, Grows options P [] v₁ v₂ inner x)
  (hsame : Same v₂ v₂') (hends : Ends options name v₂' v₃)

include haccepted in
/-- One tag where it may stand: that a slot takes no second one says nothing about it. -/
theorem Growth.Sound.of_accepted {before : Int}
    (hspells : x.trace.Spells intro x.code) (hfits : x.trace.Fits (surrounding w))
    (hrow : Row options P (surrounding w).place before x.code x.callbacks x.customs)
    (hnested : x.trace.nested = 1) : x.Sound options P intro (surrounding w) before where
  spells := hspells
  fits := hfits
  row := hrow
  idle hzero := by rw [hnested] at hzero; cases hzero
  single hslot hfull := absurd (haccepted.first (isSingle_of_isSlot hslot)) hfull

include hw hname haccepted hinner hsame hends in
/-- An element that is no slot. -/
theorem element_grows (hkind : Element.kindOf name = .view) (hother : name ≠ Frame.slotTag)
    (hP : P name) (path : Option Text) (hknown : path = none → (Name.split name).2 = none)
    (hcore : core v₁ = elementStart options path name attributes w)
    (hcallbacks : v₁.callbacks = w.callbacks) :
    ∃ x, Grows options P (rootIntro options w.draft attributes) w v₃
      (customTop v₁ ++ inner ++ customTop v₃) x ∧
      ChildView.indices x.code.views = [nextIndex w (w.draft.modifyTop entered)] := by
  have hplaced := hw.placed haccepted hkind
  obtain ⟨hstands, hframes⟩ := element_stands hw hother hcore
  obtain ⟨x, hx⟩ := hinner hstands hframes
  have hstart := elementStart_eq hcore
  have hheld := hx.held hstart hsame
  obtain ⟨below, _, hleaves, hbuilds⟩ := element_builds hcore hw hname (hx.builds.before hsame) hends
  have hgiven (hpath : path.isSome = false) : x.code.given = [] :=
    (hx.builds.given_nil hstart hpath).2
  dsimp only at hheld hleaves hbuilds
  generalize nextIndex w (w.draft.modifyTop entered) = index at hheld hleaves hbuilds hplaced ⊢
  generalize w.draft.frames.head?.any Frame.isSlot = inSlot at hheld hbuilds hplaced
  generalize rootIntro options w.draft attributes = intro at hheld hleaves hbuilds ⊢
  have hslot : (absorb x.trace x.code.views (elementFrame options path name attributes index
      (w.draft.buffer ++ intro.map Fragment.code).length)).isSlot = false :=
    @isSlot_elementFrame options name attributes path index 0 hother
  obtain ⟨children, own, hending, hv₃, hcallbacks₃⟩ := hleaves.ending rfl hslot
  have hbuilt := hbuilds _ hv₃
  refine ⟨⟨_, _, x.callbacks ++ own.declarations, (if path.isSome then [index] else []) ++ x.customs⟩,
    ⟨?_, hbuilt.core, ?_, ?_⟩, rfl⟩
  · have hinside : Row options P (absorb x.trace x.code.views (elementFrame options path name attributes
        index (w.draft.buffer ++ intro.map Fragment.code).length)).place index x.code x.callbacks
        x.customs := hheld.sound.row
    have hview : (childOf (viewFrame name attributes index)).index = index := rfl
    have hrow := Row.element attributes hinside hgiven rfl hslot hP hknown hplaced hview rfl
      exists_describe hending
    exact .of_accepted haccepted hbuilt.spells (Trace.fits_plain rfl) hrow rfl
  · rw [hcallbacks₃, hheld.callbacks, hcallbacks, append_assoc]
  · refine hheld.customs_of hbuilt.core (subset_append_right _ _) fun hcustom => ?_
    have hpath : path.isSome = true := hcustom
    rw [hpath]
    exact mem_cons_self

include hw haccepted hinner hsame in
/-- A slot. -/
theorem slot_grows (hname : name = Frame.slotTag) (hends : Ends options Frame.slotTag v₂' v₃)
    (hcore : core v₁ = slotStart options attributes w) (hcallbacks : v₁.callbacks = w.callbacks) :
    ∃ x, Grows options P (rootIntro options w.draft attributes) w v₃
      (customTop v₁ ++ inner ++ customTop v₃) x ∧
      ChildView.indices x.code.views = [nextIndex w (w.draft.modifyTop entered)] := by
  subst hname
  have hplaced := hw.placed haccepted (by decide)
  rw [(hw.outside_slot haccepted).2] at hplaced
  have hnext : nextIndex w (w.draft.modifyTop entered) = w.treeIndex + 1 := hplaced.index
  obtain ⟨hstands, hframes⟩ := slot_stands hcore hw
  obtain ⟨x, hx⟩ := hinner hstands hframes
  have hstart := slotStart_eq hcore
  have hheld := hx.held hstart hsame
  have hgiven : x.code.given = [] := (hx.builds.given_nil hstart rfl).2
  obtain ⟨hbuilt, hledger⟩ := slot_builds hcore hw haccepted (hx.builds.before hsame) hends
  refine ⟨⟨_, _, x.callbacks, x.customs⟩, ⟨?_, hbuilt.core, ?_, ?_⟩, rfl⟩
  · refine .of_accepted haccepted hbuilt.spells (Trace.fits_plain rfl) ?_ rfl
    exact .slot attributes hheld.sound.row hgiven rfl hnext rfl hplaced.array
  · rw [callbacks_of_ledger hledger, hheld.callbacks, hcallbacks]
  · exact hheld.customs_of hbuilt.core (List.Subset.refl _) nofun

include hw haccepted hinner hsame in
/-- A tag that belongs to the view around it, given what it writes. -/
theorem inner_grows {held : Frame} {owner : Int} (hheld : Inner held owner)
    (hparent : w.draft.frames.head? = some parent)
    (hcore : core v₁ = (core w).withDraft (d.push held)) (hcallbacks : v₁.callbacks = w.callbacks)
    (hbuilds : ∀ x : Growth, Builds [] v₁ v₂' x.trace x.code → ∃ t code,
      (Builds [] w v₃ t code ∧ ledger v₃ = ledger v₂') ∧ t.nested = 1 ∧
        (x.code.given = [] → Row options P held.place w.treeIndex x.code x.callbacks x.customs →
          Row options P parent.place w.treeIndex code x.callbacks x.customs)) :
    ∃ x, Grows options P [] w v₃ (customTop v₁ ++ inner ++ customTop v₃) x := by
  obtain ⟨hstands, hframes⟩ := inner_stands hw hheld hcore
  obtain ⟨x, hx⟩ := hinner hstands hframes
  have hstart := hcore.trans (inTag_own hheld.own).symm
  have hinside := hx.held hstart hsame
  obtain ⟨t, code, ⟨hbuilt, hledger⟩, hnested, hrow⟩ := hbuilds x (hx.builds.before hsame)
  refine ⟨⟨t, code, x.callbacks, x.customs⟩, ?_, hbuilt.core, ?_, ?_⟩
  · refine .of_accepted haccepted hbuilt.spells hbuilt.fits ?_ hnested
    rw [surrounding_eq hparent]
    exact hrow (hx.builds.given_nil hstart hheld.isCustom).2 hinside.sound.row
  · rw [callbacks_of_ledger hledger, hinside.callbacks, hcallbacks]
  · refine hinside.customs_of hbuilt.core (List.Subset.refl _) fun hcustom => ?_
    cases hheld.isCustom.symm.trans hcustom

include hw hname haccepted hinner hsame hends in
/-- A tag for a property. -/
theorem property_grows {property : Text} (hkind : Element.kindOf name = .property property)
    (hparent : w.draft.frames.head? = some parent) (hview : parent.kind = .view)
    (hcore : core v₁ = (core w).withDraft
      ((w.draft.modifyTop entered).push (innerFrame name attributes parent.index)))
    (hcallbacks : v₁.callbacks = w.callbacks) :
    ∃ x, Grows options P [] w v₃ (customTop v₁ ++ inner ++ customTop v₃) x := by
  have hframe := inner_innerFrame (by rw [hkind]; simp) attributes parent.index
  refine inner_grows hw haccepted hinner hsame hframe hparent hcore hcallbacks fun x hx =>
    ⟨_, _, property_builds hw hname hkind hcore hx hends, rfl, fun hgiven hrow => ?_⟩
  exact .property hrow hgiven hkind hview rfl (completed_children (keepsTable_property hkind) rfl)

include hw hname haccepted hinner hsame hends in
/-- A template, or an array of templates. -/
theorem factory_grows {shape : FactoryShape}
    (hshape : factoryShape? options.settings (innerFrame name attributes parent.index) = some shape)
    (hparent : w.draft.frames.head? = some parent)
    (hview : Element.kindOf name ≠ .keyedTemplate → parent.kind = .view)
    (hcore : core v₁ = (core w).withDraft
      (((w.draft.modifyTop entered).setBuffer
        ((w.draft.modifyTop entered).buffer ++ [.factory shape])).push
          (placing (innerFrame name attributes parent.index))))
    (hcallbacks : v₁.callbacks = w.callbacks) :
    ∃ x, Grows options P [] w v₃ (customTop v₁ ++ inner ++ customTop v₃) x := by
  refine inner_grows hw haccepted hinner hsame (inner_placing hshape) hparent hcore hcallbacks
    fun x hx => ⟨_, _, factory_builds hw hname hshape hcore hx hends, rfl, fun hgiven hrow => ?_⟩
  have htable : keepsTable (placing (innerFrame name attributes parent.index)) = false :=
    keepsTable_of_shape hshape
  exact .factory hrow hgiven hshape
    (fun hkeyed => (nesting_template (haccepted.nesting parent hparent)).mp (kindOf_keyed hkeyed))
    (fun hother => ⟨hview hother, rfl⟩) (completed_children htable rfl)

include hw hname haccepted hinner hsame hends in
/-- Slot content. -/
theorem slotContent_grows (hkind : Element.kindOf name = .slotContent)
    (hparent : w.draft.frames.head? = some parent) (hcustom : parent.isCustom = true)
    (hfree : parent.holdsSlots = false)
    (hcore : core v₁ = (core w).withDraft (((w.draft.modifyTop entered).modifyTop holding).push
      (innerFrame name attributes parent.index))) (hcallbacks : v₁.callbacks = w.callbacks) :
    ∃ x, Grows options P [] w v₃ (customTop v₁ ++ inner ++ customTop v₃) x := by
  have hframe := inner_innerFrame (by rw [hkind]; exact nofun) attributes parent.index
  refine inner_grows hw haccepted hinner hsame hframe hparent hcore hcallbacks fun x hx =>
    ⟨_, _, slotContent_builds hw hname hkind hparent hcustom hfree hcore hx hends, rfl,
      fun hgiven hrow => ?_⟩
  exact .slotContent hrow hgiven hkind rfl (slotMap_completed hkind)

end Tag

end ViewMarkup.Walk
