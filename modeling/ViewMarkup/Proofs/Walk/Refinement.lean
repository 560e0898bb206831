import ViewMarkup.Proofs.Walk.Rounds

/-!
# The walk builds the code of the document

A walk sees a document as a flat sequence of events and keeps open tags, buffers and splice points.
What it has collected at the end is the code that `Element.code` reads off the tree.

* `Refines` says this of one element, and `ChildrenRefine` of the elements inside a tag; one lemma for
  each kind of tag says it of the tag, given that it holds of the elements inside.
* `events_refines` is the induction over the tree.
* `draft_nodes_eq` is the statement for a whole document, with platform tags and in either mode.
-/

namespace ViewMarkup

open List

namespace Element

/-- The attributes of an element. -/
def attributes : Element → AttributeMap
  | mk _ attributes _ => attributes

mutual

/-- There are no platform tags. -/
def Plain : Element → Prop
  | mk name _ children => Name.isPlatform name = false ∧ PlainAll children

/-- There are no platform tags. -/
def PlainAll : List Element → Prop
  | [] => True
  | element :: rest => element.Plain ∧ PlainAll rest

end

theorem plainAll_append {first rest : List Element} (hfirst : PlainAll first)
    (hrest : PlainAll rest) : PlainAll (first ++ rest) := by
  induction first with
  | nil => exact hrest
  | cons element first ih =>
    exact ⟨hfirst.1, ih hfirst.2⟩

mutual

theorem plainAll_erase (options : Options) : (element : Element) → PlainAll (erase options element)
  | mk name attributes children => by
      rw [erase]
      cases hname : Name.isPlatform name with
      | true =>
        rw [if_pos rfl]
        split
        · exact plainAll_eraseAll options children
        · exact trivial
      | false =>
        exact ⟨⟨hname, plainAll_eraseAll options children⟩, trivial⟩

/-- What remains without platform tags has none. -/
theorem plainAll_eraseAll (options : Options) :
    (forest : List Element) → PlainAll (eraseAll options forest)
  | [] => trivial
  | element :: rest =>
    plainAll_append (plainAll_erase options element) (plainAll_eraseAll options rest)

end

end Element

namespace Walk

open Script (Node)
open Element (code codeOf codeOf_ascending eraseAll eventsOf kindOf modulesOf)

variable {options : Options} {c u w v v₁ v₂ : Walk} {d : Draft} {frame parent : Frame}
  {b : List Fragment} {name : Text} {attributes : AttributeMap} {children : List Element}
  {owner last : Int} {inSlot : Bool} {scope : List (Text × Text)} {t : Trace} {inside : Code}
  {shape : FactoryShape}

/-- The walk over an element has built its code. -/
def Refines (options : Options) (element : Element) (w v : Walk) : Prop :=
  ∃ t, t.nested = 1 ∧ Builds (rootIntro options w.draft element.attributes) w v t
    (element.code options w.draft.scope (surrounding w).index (surrounding w).isSlot w.treeIndex)

/-- The walk over the elements inside a tag builds their code. -/
def ChildrenRefine (options : Options) (children : List Element) : Prop :=
  ∀ {w v : Walk} {d : Draft} {frame : Frame}, Stands w → Settled w → w.draft = d.push frame →
    events options (eventsOf children) w = .ok () v →
    ∃ t, Builds [] w v t (codeOf options w.draft.scope frame.index frame.isSlot w.treeIndex children)

theorem Settled.of_core (hc : Settled c) (hw : core w = c) : Settled w := by
  rw [← hw] at hc
  exact ⟨hc.receiver, hc.suppressed, hc.strict⟩

/-- The elements inside a tag that has been started. -/
theorem ChildrenRefine.run (hchildren : ChildrenRefine options children)
    (hstart : core v₁ = inTag c d frame b) (hv₁ : Stands v₁) (hc : Settled c)
    (hscope : frame.namespaces ++ d.scope = scope) (howner : frame.index = owner)
    (hslot : frame.isSlot = inSlot) (hlast : c.treeIndex = last)
    (hinside : events options (eventsOf children) v₁ = .ok () v₂) :
    ∃ t, Builds [] v₁ v₂ t (codeOf options scope owner inSlot last children) := by
  have hsettled : Settled (inTag c d frame b) := ⟨hc.receiver, hc.suppressed, hc.strict⟩
  obtain ⟨own, d', hdraft, _⟩ := draft_inTag hstart
  obtain ⟨t, ht⟩ := hchildren hv₁ (hsettled.of_core hstart) hdraft hinside
  have houter : v₁.draft.scope = scope := by
    rw [show v₁.draft = (d.push frame).setBuffer b from (congrArg draft hstart :),
      Draft.scope_setBuffer, Draft.scope_push, hscope]
  have hindex : v₁.treeIndex = last := (congrArg treeIndex hstart :).trans hlast
  rw [houter, hindex] at ht
  subst howner hslot
  exact ⟨t, ht⟩

theorem scope_entered (d : Draft) : (d.modifyTop entered).scope = d.scope :=
  Draft.scope_modifyTop (f := entered) (fun _ => rfl) d

theorem scope_recorded {view : Frame} :
    (d.modifyTop fun frame => recordChild view (entered frame)).scope = d.scope := by
  refine Draft.scope_modifyTop (fun frame => ?_) d
  exact (congrArg Frame.namespaces (absorb_view view [] frame) :)

/-- What the function of a template returns; an array of templates is no function. -/
def factoryReturn (settings : Settings) (kind : TagKind) (views : List ChildView) : List Node :=
  match kind with
  | .templateArray _ => []
  | _ => [ChildView.returnLast settings views]

theorem templateEnding_completed {settings : Settings} {views : List ChildView}
    (hshape : factoryShape? settings (innerFrame name attributes owner) = some shape) :
    templateEnding settings (completed t views (placing (innerFrame name attributes owner))) =
      factoryReturn settings (kindOf name) views := by
  have hreturn : Construction.returnView settings
      (completed t views (placing (innerFrame name attributes owner))) =
        ChildView.returnLast settings views :=
    ChildView.returnView_eq (completed_children (keepsTable_of_shape hshape) rfl)
  unfold templateEnding factoryReturn
  rw [hreturn]
  rfl

theorem code_factory
    (hshape : factoryShape? options.settings (innerFrame name attributes owner) = some shape) :
    let inside := codeOf options scope owner false last children
    (Element.mk name attributes children).code options scope owner inSlot last =
      ⟨[], [shape.node (inside.nodes ++
        factoryReturn options.settings (kindOf name) inside.views)], [], inside.last⟩ := by
  intro inside
  rw [Element.code]
  unfold factoryShape? factoryReturn at *
  rw [show (innerFrame name attributes owner).kind = kindOf name from rfl] at hshape
  cases hkind : kindOf name with
  | template property | keyedTemplate => rw [hkind] at hshape; cases hshape; rfl
  | templateArray property =>
    rw [hkind] at hshape
    cases hshape
    rw [append_nil]
    rfl
  | view | property property | slotContent | skipped => rw [hkind] at hshape; cases hshape

/-! ### Views -/

/-- A frame that belongs to the view around it. -/
theorem shaped_inner (hframe : Inner frame owner) (hkind : frame.kind = kindOf name)
    (hview : kindOf name ≠ .view) (hplaced : frame.placed = isFactory frame.kind)
    (hparent : w.draft.frames.head? = some parent)
    (hd : d.frames.isEmpty = w.draft.frames.isEmpty) : Shaped d frame := by
  refine ⟨fun h => (nomatch hframe.closable.ignored.symm.trans h),
    fun _ h => absurd (hkind.symm.trans h) hview,
    fun _ _ => ⟨hkind ▸ kindOf_ne_skipped, hplaced, ⟨[], hframe.own⟩, ?_⟩⟩
  cases hframes : d.frames with
  | nil =>
    rw [hframes] at hd
    rw [isEmpty_iff.mp hd.symm] at hparent
    cases hparent
  | cons first rest => exact ⟨first, rfl⟩

/-- The end of a tag whose frame is as its start has left it, but for what it holds. -/
theorem Builds.ends (ht : Builds [] v₁ v₂ t inside) (hstart : Walk.core v₁ = inTag c d frame b)
    (hc : c.receiver = .nobody) (hshaped : Shaped d frame)
    (hclose : closeTag options name v₂ = .ok () v) : Ends options name v₂ v := by
  have hcore := ht.core_inTag hstart
  refine closeTag_ends ((congrArg receiver hcore :).trans hc) (fun d' frame' hdraft => ?_) hclose
  obtain ⟨own, below, hpush, _, hnone, hsome⟩ := draft_inTag hcore
  obtain ⟨rfl, rfl⟩ := Draft.push_inj (hdraft.symm.trans hpush)
  refine ⟨hshaped.ignored, fun hignored hkind => ?_, fun hignored hkind => ?_⟩
  · obtain ⟨hown, hplaced⟩ := hshaped.view hignored hkind
    exact ⟨(hnone hown).2, hplaced⟩
  · obtain ⟨hskip, hplaced, ⟨_, hown⟩, hparent⟩ := hshaped.inner hignored hkind
    obtain ⟨rfl, rfl⟩ := hsome (Option.isSome_iff_exists.mpr ⟨_, hown⟩)
    exact ⟨hskip, hplaced, ⟨_, rfl⟩, hparent⟩

section Tag

variable (hw : Stands w) (hs : Settled w) (hchildren : ChildrenRefine options children)
  (hinside : events options (eventsOf children) v₁ = .ok () v₂)
  (hclose : closeTag options name v₂ = .ok () v)

include hw hs hchildren hinside hclose

/-- An element that is no slot. -/
theorem element_refines (hkind : kindOf name = .view) (hname : name ≠ Frame.slotTag)
    (hplatform : Name.isPlatform name = false) (hu : core u = (core w).withDraft
      ((w.draft.modifyTop entered).push (viewFrame name attributes (-1))))
    (hopen : openTop options [] (viewFrame name attributes (-1)) false u = .ok () v₁) :
    Refines options (.mk name attributes children) w v := by
  have hview := openView_element (c := core w) options (w.draft.modifyTop entered) attributes hname
  dsimp only at hview
  rw [scope_entered] at hview
  generalize hpath : Element.modulePath? (modulesOf options attributes ++ w.draft.scope) name = path
    at hview
  have hcore : core v₁ = elementStart options path name attributes w :=
    core_eq hu hopen (openTop_yields hview)
  have hstart := elementStart_eq hcore
  have hbuilds (t : Trace) (inside : Code) (h : Builds [] v₁ v₂ t inside) :=
    @element_builds options name attributes w v₁ v₂ v t inside path hcore hw hplatform h
  dsimp only at hstart hbuilds
  rw [nextIndex_entered, ← surrounding_isSlot] at hstart hbuilds
  unfold Refines
  rw [Element.code, hkind]
  dsimp only
  generalize hindex : (if (surrounding w).isSlot then w.treeIndex else w.treeIndex + 1) = index
    at hstart hbuilds ⊢
  have hslot := @isSlot_elementFrame options name attributes path index
    (w.draft.buffer ++ (rootIntro options w.draft attributes).map Fragment.code).length hname
  obtain ⟨t, ht⟩ := hchildren.run hstart (element_stands hw hname hcore).1
    ⟨hs.receiver, hs.suppressed, hs.strict⟩
    (congrArg (modulesOf options attributes ++ ·) scope_recorded) (rfl : _ = index) hslot
    (rfl : _ = index) hinside
  have hdistinct := (codeOf_ascending options
    (modulesOf options attributes ++ w.draft.scope) index index children).distinct
  rw [hpath, if_neg hname, decide_eq_false hname]
  generalize codeOf options (modulesOf options attributes ++ w.draft.scope) index false index
    children = inside at ht hdistinct ⊢
  have he := ht.ends hstart hs.receiver
    ⟨nofun, fun _ _ => ⟨rfl, rfl⟩, fun _ hother => absurd rfl hother⟩ hclose
  obtain ⟨below, -, hleaves, hbuilt⟩ := hbuilds t inside ht he
  cases hleaves with
  | element _ _ _ hcallbacks hcore₃ =>
    have hslots : (if path.isSome then inside.given else []) = inside.given := by
      cases hcustom : path.isSome with
      | true => rfl
      | false => exact (ht.given_nil hstart hcustom).2.symm
    have hall := hbuilt _ hcore₃
    have hchild : childOf (viewFrame name attributes index) =
        ⟨index, false, Element.slotFor attributes⟩ :=
      congrArg (ChildView.mk index · _) (decide_eq_false hname)
    rw [ChildView.addChildren_eq hdistinct (nil_append _) (nil_append _),
      ← subscriptions_eq hcallbacks] at hall
    rw [Element.construction, hslots]
    simp only [elementCode, hchild, append_assoc] at hall ⊢
    exact ⟨_, rfl, hall⟩
  | mixed _ _ _ _ _ hlenient =>
    have hmode := congrArg (·.channel.strict) (ht.core_inTag hstart)
    cases hlenient.symm.trans ((hmode :).trans hs.strict)
  | slot hself => cases hself.symm.trans hslot
  | property hself | slotContent hself => cases hself
  | factory hshape => cases hshape

/-- A slot. -/
theorem slot_refines (haccepted : Accepted w Frame.slotTag frame) (hname : name = Frame.slotTag)
    (hu : core u = (core w).withDraft
      ((w.draft.modifyTop entered).push (viewFrame Frame.slotTag attributes (-1))))
    (hopen : openTop options [] (viewFrame Frame.slotTag attributes (-1)) false u = .ok () v₁) :
    Refines options (.mk Frame.slotTag attributes children) w v := by
  subst hname
  have hcore : core v₁ = slotStart options attributes w := core_eq hu hopen
    (openTop_yields (openView_slot options (w.draft.modifyTop entered) attributes))
  have hstart := slotStart_eq hcore
  have hbuilds (t : Trace) (inside : Code) (h : Builds [] v₁ v₂ t inside) :=
    @slot_builds options attributes frame w v₁ v₂ v t inside hcore hw haccepted h
  rw [nextIndex_entered] at hstart hbuilds
  unfold Refines
  rw [Element.code, show kindOf Frame.slotTag = .view by decide]
  dsimp only
  generalize hindex : (if (surrounding w).isSlot then w.treeIndex else w.treeIndex + 1) = index
    at hstart hbuilds ⊢
  obtain ⟨t, ht⟩ := hchildren.run hstart (slot_stands hcore hw).1
    ⟨hs.receiver, hs.suppressed, hs.strict⟩
    (congrArg (modulesOf options attributes ++ ·) scope_recorded) (rfl : _ = index)
    (rfl : _ = true) (rfl : _ = index) hinside
  rw [if_pos rfl, decide_eq_true rfl]
  generalize codeOf options (modulesOf options attributes ++ w.draft.scope) index true index
    children = inside at ht ⊢
  have he := ht.ends hstart hs.receiver
    ⟨nofun, fun _ _ => ⟨rfl, rfl⟩, fun _ hother => absurd rfl hother⟩ hclose
  exact ⟨_, rfl, (hbuilds t inside ht he).1⟩

/-! ### Tags inside a view -/

omit hw hclose in
/-- The elements inside a tag with a buffer of its own. -/
theorem inner_run (hscope : d.scope = w.draft.scope) (hframe : Inner frame owner)
    (hstart : core v₁ = inTag (core w) d frame []) :
    ∃ t, Builds [] v₁ v₂ t (codeOf options w.draft.scope owner false w.treeIndex children) := by
  refine hchildren.run hstart (stands_inner hstart hs.suppressed hframe)
    ⟨hs.receiver, hs.suppressed, hs.strict⟩ ?_ hframe.index hframe.isSlot rfl hinside
  rw [hframe.namespaces, hscope, nil_append]

section Inner

variable (hplatform : Name.isPlatform name = false) (hparent : w.draft.frames.head? = some parent)
  (hu : core u = (core w).withDraft ((w.draft.modifyTop entered).push (innerFrame name attributes parent.index)))
  (hopen : openTop options [] (innerFrame name attributes parent.index) false u = .ok () v₁)

include hplatform hparent hu hopen

/-- A tag for a property. -/
theorem property_refines {property : Text} (hkind : kindOf name = .property property) :
    Refines options (.mk name attributes children) w v := by
  have hview : kindOf name ≠ .view := by rw [hkind]; simp
  have hframe := inner_innerFrame hview attributes parent.index
  have hstart := core_eq hu hopen (openProperty_yields hkind rfl)
  obtain ⟨t, ht⟩ := inner_run hs hchildren hinside (scope_entered w.draft) hframe hstart
  have hdistinct := (codeOf_ascending options w.draft.scope parent.index w.treeIndex
    children).distinct
  unfold Refines
  rw [rootIntro_inside hparent, surrounding_eq hparent, Element.code, hkind]
  dsimp only
  generalize codeOf options w.draft.scope parent.index false w.treeIndex children = inside
    at ht hdistinct ⊢
  have htable : keepsTable (innerFrame name attributes parent.index) = false :=
    keepsTable_property hkind
  have hplaced : false = isFactory (kindOf name) := by rw [hkind]; rfl
  have he := ht.ends hstart hs.receiver (shaped_inner hframe rfl hview hplaced
    hparent Draft.isEmpty_modifyTop) hclose
  have hbuilt := (property_builds hw hplatform hkind (hstart.trans (inTag_own rfl)) ht he).1
  rw [ChildView.addToProperty_eq hdistinct (completed_children htable rfl) (nil_append _)] at hbuilt
  exact ⟨_, rfl, hbuilt⟩

/-- A tag for a template or for an array of templates. -/
theorem factory_refines
    (hfactory : (factoryShape? options.settings (innerFrame name attributes parent.index)).isSome) :
    Refines options (.mk name attributes children) w v := by
  obtain ⟨shape, hshape⟩ := Option.isSome_iff_exists.mp hfactory
  have hframe := @inner_placing options name attributes parent shape hshape
  have hstart := core_eq hu hopen (openFactory_yields (head?_entered hparent) hshape rfl)
  obtain ⟨t, ht⟩ := inner_run hs hchildren hinside
    (Draft.scope_setBuffer.trans (scope_entered w.draft)) hframe hstart
  unfold Refines
  rw [rootIntro_inside hparent, surrounding_eq hparent, code_factory hshape]
  have he := ht.ends hstart hs.receiver (shaped_inner hframe rfl (kind_ne_view_of_shape hshape)
    (isFactory_of_shape hshape).symm hparent
    (Draft.isEmpty_setBuffer.trans Draft.isEmpty_modifyTop)) hclose
  have hbuilt := (factory_builds hw hplatform hshape (hstart.trans (inTag_own rfl)) ht he).1
  rw [templateEnding_completed hshape] at hbuilt
  exact ⟨_, rfl, hbuilt⟩

/-- Slot content. -/
theorem slotContent_refines (hcustom : parent.isCustom = true) (hfree : parent.holdsSlots = false)
    (hkind : kindOf name = .slotContent) :
    Refines options (.mk name attributes children) w v := by
  have hview : kindOf name ≠ .view := by rw [hkind]; exact nofun
  have hframe := inner_innerFrame hview attributes parent.index
  have hscope : ((w.draft.modifyTop entered).modifyTop holding).scope = w.draft.scope :=
    (Draft.scope_modifyTop (f := holding) (fun _ => rfl) _).trans (scope_entered w.draft)
  have hstart := core_eq hu hopen (openSlotContent_yields hkind (head?_entered hparent) rfl)
  obtain ⟨t, ht⟩ := inner_run hs hchildren hinside hscope hframe hstart
  have hdistinct := (codeOf_ascending options w.draft.scope parent.index w.treeIndex
    children).distinct
  unfold Refines
  rw [rootIntro_inside hparent, surrounding_eq hparent, Element.code, hkind]
  generalize codeOf options w.draft.scope parent.index false w.treeIndex children = inside
    at ht hdistinct ⊢
  have hplaced : false = isFactory (kindOf name) := by rw [hkind]; rfl
  have he := ht.ends hstart hs.receiver (shaped_inner hframe rfl hview hplaced hparent
    (Draft.isEmpty_modifyTop.trans Draft.isEmpty_modifyTop)) hclose
  have hbuilt := (slotContent_builds hw hplatform hkind hparent hcustom hfree
    (hstart.trans (inTag_own rfl)) ht he).1
  rw [ChildView.slotAssignments_eq hdistinct (slotMap_completed hkind)
    (nil_append _)] at hbuilt
  exact ⟨_, rfl, hbuilt⟩

end Inner

end Tag

/-! ### The induction over the tree -/

theorem factoryShape?_inner (settings : Settings) : factoryShape? settings (innerFrame name attributes owner) =
      let target (property : Text) :=
        Node.memberNamed (Construction.element settings owner) property
      match kindOf name with
      | .template property => some (.template (target property))
      | .templateArray property => some (.templateArray (target property))
      | .keyedTemplate => some (.keyedTemplate ((attributes.nonEmpty? "key").getD []))
      | _ => none := rfl

/-- **One element.**  The walk over an element builds its code, if the walk over what is inside
does. -/
theorem element_step (hw : Stands w) (hs : Settled w) (hchildren : ChildrenRefine options children)
    (hplatform : Name.isPlatform name = false)
    (hrun : events options (Element.mk name attributes children).events w = .ok () v) :
    Refines options (.mk name attributes children) w v := by
  rw [events_element] at hrun
  obtain ⟨_, v₁, hstart, hrun⟩ := bind_eq_ok hrun
  obtain ⟨_, v₂, hinside, hclose⟩ := bind_eq_ok hrun
  have hignored : w.draft.frames.head?.any (·.ignored) = false := by
    cases hhead : w.draft.frames.head? with
    | none => rfl
    | some parent => exact (hw.top parent hhead).ignored
  obtain ⟨frame, u, haccepted, hu, hopen⟩ := startTag_ok hplatform hs.suppressed hs.receiver
    hs.strict hignored hstart
  by_cases hview : kindOf name = .view
  · have hframe := haccepted.view hview
    subst hframe
    by_cases hname : name = Frame.slotTag
    · subst hname
      exact slot_refines hw hs hchildren hinside hclose haccepted rfl hu hopen
    · exact element_refines hw hs hchildren hinside hclose hview hname hplatform hu hopen
  · obtain ⟨parent, hparent, hframe⟩ := haccepted.other hview
    have hnesting := haccepted.nesting parent hparent
    subst hframe
    have hfactory (h : (factoryShape? options.settings
        (innerFrame name attributes parent.index)).isSome) :=
      factory_refines hw hs hchildren hinside hclose hplatform hparent hu hopen h
    rw [factoryShape?_inner] at hfactory
    cases hkind : kindOf name with
    | view => exact absurd hkind hview
    | skipped => exact absurd hkind kindOf_ne_skipped
    | property property =>
      exact property_refines hw hs hchildren hinside hclose hplatform hparent hu hopen hkind
    | template property | templateArray property | keyedTemplate =>
      rw [hkind] at hfactory
      exact hfactory rfl
    | slotContent =>
      obtain ⟨hcustom, hfree⟩ := nesting_slotContent (kindOf_slotContent hkind) hnesting
      exact slotContent_refines hw hs hchildren hinside hclose hplatform hparent hu hopen hcustom
        hfree hkind

mutual

/-- **The walk over an element builds its code.** -/
theorem events_refines : (element : Element) → element.Plain → ∀ {w v : Walk}, Stands w →
    Settled w → events options element.events w = .ok () v → Refines options element w v
  | .mk name attributes children, hplain, w, v, hw, hs, hrun => by
      exact element_step hw hs (eventsOf_refines children hplain.2) hplain.1 hrun

theorem eventsOf_refines : (children : List Element) → Element.PlainAll children →
    ChildrenRefine options children
  | [], _, w, v, d, frame, hw, _, hdraft, hrun => by
      cases hrun
      exact ⟨.none, Same.refl.builds hw hdraft⟩
  | first :: rest, hplain, w, v, d, frame, hw, hs, hdraft, hrun => by
      rw [Element.PlainAll] at hplain
      rw [eventsOf, events_append] at hrun
      obtain ⟨_, u, hfirst, hrest⟩ := bind_eq_ok hrun
      have hhead : w.draft.frames.head? = some frame := by rw [hdraft]; rfl
      obtain ⟨t, hone, ht⟩ := events_refines first hplain.1 hw hs hfirst
      rw [rootIntro_inside hhead, surrounding_eq hhead] at ht
      rw [Element.codeOf]
      generalize first.code options w.draft.scope frame.index frame.isSlot w.treeIndex = code
        at ht ⊢
      have hu := (ht.stands (fun hzero => absurd (hone.symm.trans hzero) Nat.one_ne_zero) hw hdraft).1
      have hscope : (absorb t code.views frame).namespaces ++ d.scope = w.draft.scope := by
        rw [hdraft, Draft.scope_push]
        rfl
      obtain ⟨t', ht'⟩ := ChildrenRefine.run (eventsOf_refines rest hplain.2)
        (ht.core.trans (built_push hdraft t code)) hu ⟨hs.receiver, hs.suppressed, hs.strict⟩ hscope
        (rfl : _ = frame.index) (rfl : _ = frame.isSlot) (rfl : _ = code.last) hrest
      exact ⟨_, ht.followedBy ht' hw hdraft⟩

end

/-! ### Whole documents -/

/-- The walk over a root ends outside all tags, with the code of the document. -/
theorem root_refines {root : Element} {channel : Channel} (hstrict : channel.strict = true)
    (hroot : root.Plain) (hrun : events options root.events (start channel) = .ok () v) :
    Settled v ∧ v.initialized = true ∧ v.draft = ⟨[], v.draft.body⟩ ∧
      v.draft.nodes = root.constructorBody options := by
  have hw := stands_start channel
  obtain ⟨t, _, ht⟩ := events_refines root hroot hw ⟨rfl, rfl, hstrict⟩ hrun
  obtain ⟨_, hframes, hinitialized, _⟩ := built_bare ht.spells ht.core hw rfl
  refine ⟨Settled.of_core ⟨rfl, rfl, hstrict⟩ ht.core, hinitialized,
    congrArg (Draft.mk · v.draft.body) hframes, ?_⟩
  obtain ⟨name, attributes, children⟩ := root
  exact (ht.root_nodes hw rfl rfl).2

/-- After the root no other element may follow. -/
theorem events_second_root {element : Element} (hplain : element.Plain) (hv : Settled v)
    (hinitialized : v.initialized = true) (hframes : v.draft.frames = []) :
    events options element.events v ≠ .ok () w := by
  obtain ⟨name, attributes, children⟩ := element
  intro hrun
  rw [events_element] at hrun
  obtain ⟨_, _, hstart, _⟩ := bind_eq_ok hrun
  obtain ⟨frame, _, haccepted, _⟩ := startTag_ok hplain.1 hv.suppressed hv.receiver hv.strict
    (by rw [hframes]; rfl) hstart
  rw [haccepted.initialized] at hinitialized
  cases hinitialized

theorem finish_ok (hw : w.channel.strict = true) (h : finish w = .ok () v) :
    w.initialized = true ∧ v = w := by
  unfold finish at h
  rw [get_bind] at h
  cases hinitialized : w.initialized with
  | true =>
    rw [hinitialized, if_pos rfl] at h
    cases h
    exact ⟨rfl, rfl⟩
  | false =>
    rw [hinitialized, if_neg Bool.false_ne_true] at h
    exact absurd h (report_ne_ok hw)

/-- A strict walk over a document without platform tags. -/
theorem strict_refines {forest : List Element} {channel : Channel} (hstrict : channel.strict = true)
    (hplain : Element.PlainAll forest)
    (hrun : events options (eventsOf forest ++ [.finish]) (start channel) = .ok () v) :
    ∃ root, forest = [root] ∧ v.draft.nodes = root.constructorBody options := by
  rw [events_append, show events options [.finish] = finish from bind_pure _] at hrun
  obtain ⟨_, u, hforest, hfinish⟩ := bind_eq_ok hrun
  cases forest with
  | nil =>
    cases hforest
    obtain ⟨hinitialized, _⟩ := finish_ok hstrict hfinish
    cases hinitialized
  | cons root rest =>
    rw [eventsOf, events_append] at hforest
    obtain ⟨_, r, hroot, hrest⟩ := bind_eq_ok hforest
    obtain ⟨hsettled, hinitialized, hdraft, hnodes⟩ := root_refines hstrict hplain.1 hroot
    cases rest with
    | nil =>
      cases hrest
      obtain ⟨_, rfl⟩ := finish_ok hsettled.strict hfinish
      exact ⟨root, rfl, hnodes⟩
    | cons second rest =>
      rw [eventsOf, events_append] at hrest
      obtain ⟨_, _, hsecond, _⟩ := bind_eq_ok hrest
      exact absurd hsecond (events_second_root hplain.2.1 hsettled hinitialized
        (congrArg Draft.frames hdraft))

/-- A walk without errors is the same in strict mode. -/
theorem events_harden {given : List TagEvent} {new : List Report}
    (hrun : events options given w = .ok () v)
    (hreports : v.channel.reports = w.channel.reports ++ new) (hcalm : Calm new) :
    events options given (harden w) = .ok () (harden v) := by
  have hcomposed := events_composed options given
  cases hmode : w.channel.strict with
  | true =>
    have hkept : v.channel.strict = w.channel.strict := by
      have h := hcomposed.keeps_mode w
      rwa [hrun] at h
    rw [harden_strict hmode, harden_strict (hkept.trans hmode), hrun]
  | false =>
    have hcompared := (hcomposed.agree w hmode).compared
    rw [hrun] at hcompared
    generalize events options given (harden w) = s at hcompared
    cases hcompared with
    | same _ _ => rfl
    | @stopped before after cause range _ hreports' _ _ =>
      have hnew : new = before ++ .error cause range :: after := by
        refine (append_right_inj w.channel.reports).mp ?_
        rw [← hreports, ← append_assoc]
        exact hreports'
      have hmem : .error cause range ∈ new := hnew ▸ mem_append_right _ mem_cons_self
      cases hcalm _ hmem

/-- **The walk builds the code of the document.**  A document that is read without any error has
exactly one root, platform tags apart, and the code collected is that of the root: by recursion on
the tree, with no buffers and no open tags. -/
theorem nodes_eq_constructorBody (options : Options) (channel : Channel) (forest : List Element)
    (new : List Report) (w : Walk)
    (hrun : events options (eventsOf forest ++ [.finish]) (start channel) = .ok () w)
    (hreports : w.channel.reports = channel.reports ++ new) (hcalm : Calm new) :
    ∃ root, eraseAll options forest = [root] ∧
      w.draft.nodes = root.constructorBody options := by
  have hplain := Element.plainAll_eraseAll options forest
  have hforest : events options (eventsOf forest) (start channel) =
      events options (eventsOf (eraseAll options forest)) (start channel) :=
    (eventsOf_eraseAll forest ready_start).1
  have herased : events options (eventsOf (eraseAll options forest) ++ [.finish])
      (start channel) = .ok () w := by
    rw [← hrun, events_append, events_append]
    simp only [bind, EStateM.bind, hforest]
  obtain ⟨root, hroot, hnodes⟩ := @strict_refines options _ _ { channel with strict := true } rfl
    hplain (events_harden herased hreports hcalm)
  exact ⟨root, hroot, hnodes⟩

/-- A page with a card for each platform, a slot with a fallback and a template. -/
def samplePage : List Element :=
  [.mk "Page" [("xmlns:c", "cards"), ("title", "Home")]
    [.mk "Page.headerTemplate" [] [.mk "Label" [("text", "Top")] []],
      .mk "android" []
        [.mk "c:Card" []
          [.mk "slotContent" [] [.mk "Label" [] [], .mk "Image" [("slot", "icon")] []]]],
      .mk "ios" [] [.mk "c:Banner" [] []],
      .mk "slot" [("name", "footer")] [.mk "Button" [] []]]]

/-- Whether a walk has come to its end without errors. -/
def endsCalm : EStateM.Result Failure Walk Unit → Bool
  | .ok _ w => w.channel.reports.all fun report => !report.isError
  | .error _ _ => false

theorem eq_ok_of_endsCalm {r : EStateM.Result Failure Walk Unit} (h : endsCalm r) :
    r = .ok () (final r) ∧ Calm (final r).channel.reports := by
  cases r with
  | error e w => cases h
  | ok a w =>
    refine ⟨rfl, fun report hreport => ?_⟩
    simpa using all_eq_true.mp h report hreport

theorem nodes_eq_constructorBody_samplePage :
    ∃ root, eraseAll (.standard .standard) samplePage = [root] ∧
      (final (events (.standard .standard) (eventsOf samplePage ++ [.finish])
        (start (.empty false .unknown)))).draft.nodes =
          root.constructorBody (.standard .standard) := by
  have hcalm : endsCalm (events (.standard .standard) (eventsOf samplePage ++ [.finish])
      (start (.empty false .unknown))) = true := by
    decide +kernel
  exact nodes_eq_constructorBody (.standard .standard) (.empty false .unknown) samplePage _ _
    (eq_ok_of_endsCalm hcalm).1 (nil_append _).symm (eq_ok_of_endsCalm hcalm).2

end Walk

end ViewMarkup
