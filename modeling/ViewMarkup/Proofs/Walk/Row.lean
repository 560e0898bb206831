import ViewMarkup.Proofs.Walk.Printable
import ViewMarkup.Proofs.Walk.Tidy

/-!
# How the code of a row of tags is put together

The code of a tag holds the code of the tags inside it.  Whatever the tags are, there are only a few
ways in which it does.

* `Row` lists these ways, one for each kind of tag.
* `Row.wellFormed`: code that is put together like this can be printed.
* `Row.tidy`: every generated name in it has its place.
-/

namespace ViewMarkup

open List
open Script (Node WellFormed Site)

variable {options : Options} {P : Text → Prop} {inner : Frame} {settings : Settings}
  {nodes : List Node}

/-- What an element writes at its end: what hands it its children, and its bindings.  One that holds
slot content beside other tags writes nothing. -/
inductive Ending (options : Options) (inner : Frame) : List Node → Binding.Callbacks → Prop
  | full {own : Binding.Callbacks}
      (h : Binding.callbacks? inner.index (options.settings.elementName inner.index)
        inner.descriptors = some own) :
      Ending options inner (Construction.addChildren options.settings inner) own
  | mixed : Ending options inner [] ⟨[], []⟩

/-- **The code of a row of tags** in a place, given the last index before it, with the functions
beside the code and the indices of the custom elements in the row.  The names of the elements have a
property. -/
inductive Row (options : Options) (P : Text → Prop) :
    Place → Int → Code → List Node → List Int → Prop
  | none (parent : Place) (before : Int) : Row options P parent before (.none before) [] []
  | followedBy {parent : Place} {before : Int} {code code' : Code} {callbacks callbacks' : List Node}
      {customs customs' : List Int} (h : Row options P parent before code callbacks customs)
      (h' : Row options P parent code.last code' callbacks' customs')
      (hparent : parent.isSlot = false) :
      Row options P parent before (code.followedBy code') (callbacks ++ callbacks')
        (customs ++ customs')
  | property {parent : Place} {inner : Frame} {before : Int} {inside : Code} {callbacks : List Node}
      {customs : List Int} {property : Text}
      (h : Row options P inner.place before inside callbacks customs) (hgiven : inside.given = [])
      (hkind : inner.kind = .property property) (hparent : parent.kind = .view)
      (hindex : inner.index = parent.index)
      (hchildren : inner.children = ChildView.indices inside.views) :
      Row options P parent before
        ⟨[], inside.nodes ++ Construction.addToProperty options.settings inner property, [],
          inside.last⟩ callbacks customs
  | slotContent {parent : Place} {inner : Frame} {before : Int} {inside : Code}
      {callbacks : List Node} {customs : List Int}
      (h : Row options P inner.place before inside callbacks customs) (hgiven : inside.given = [])
      (hkind : inner.kind = .slotContent) (hindex : inner.index = parent.index)
      (htable : inner.slotMap = ChildView.slotGroups inside.views) :
      Row options P parent before
        ⟨inside.nodes ++ Construction.slotAssignments options.settings inner, [], [], inside.last⟩
        callbacks customs
  | factory {parent : Place} {inner : Frame} {before : Int} {inside : Code} {callbacks : List Node}
      {customs : List Int} {shape : FactoryShape}
      (h : Row options P inner.place before inside callbacks customs) (hgiven : inside.given = [])
      (hshape : Walk.factoryShape? options.settings inner = some shape)
      (hkeyed : inner.kind = .keyedTemplate → ∃ property, parent.kind = .templateArray property)
      (hparent : inner.kind ≠ .keyedTemplate → parent.kind = .view ∧ parent.index = inner.index)
      (hchildren : inner.children = ChildView.indices inside.views) :
      Row options P parent before
        ⟨[], [shape.node (inside.nodes ++ Walk.templateEnding options.settings inner)], [],
          inside.last⟩ callbacks customs
  | slot {parent : Place} {inner : Frame} {before : Int} {inside : Code} {callbacks : List Node}
      {customs : List Int} {view : ChildView} (attributes : AttributeMap)
      (h : Row options P inner.place inner.index inside callbacks customs)
      (hgiven : inside.given = []) (hkind : inner.kind = .view) (hindex : inner.index = before + 1)
      (hview : view.index = inner.index)
      (harray : ∀ property, parent.kind ≠ .templateArray property) :
      Row options P parent before
        ⟨[], Element.slotNodes options.settings attributes inner.index inside.nodes, [view],
          inside.last⟩ callbacks customs
  | element {parent : Place} {inner : Frame} {before : Int} {inside : Code}
      {callbacks children : List Node} {customs : List Int} {view : ChildView} {path : Option Text}
      {name : Text} {inSlot : Bool} {own : Binding.Callbacks} (attributes : AttributeMap)
      (h : Row options P inner.place inner.index inside callbacks customs)
      (hgiven : path.isSome = false → inside.given = []) (hkind : inner.kind = .view)
      (hslot : inner.isSlot = false) (hname : P name)
      (hknown : path = .none → (Name.split name).2 = .none)
      (hplaced : Tidy.Placed parent before inner.index inSlot) (hview : view.index = inner.index)
      (hchildren : inner.children = ChildView.indices inside.views)
      (hbindings : ∀ d ∈ inner.descriptors, ∃ item, Binding.describe item = .ok d)
      (hending : Ending options inner children own) :
      Row options P parent before
        ⟨[], Tidy.elementNodes options path name attributes inner.index inSlot inside
          (children ++ own.attach), [view], inside.last⟩ (callbacks ++ own.declarations)
        ((if path.isSome then [inner.index] else []) ++ customs)

variable {parent : Place} {before : Int} {code : Code} {callbacks children : List Node}
  {customs : List Int} {own : Binding.Callbacks}

/-! ### The code can be printed -/

/-- Where the code inside a tag stands: among the elements of an array, or among statements. -/
def TagKind.site : TagKind → Site
  | .templateArray _ => .item
  | _ => .statement

theorem TagKind.site_eq {kind : TagKind} (h : ∀ property, kind ≠ .templateArray property) :
    kind.site = .statement := by
  unfold TagKind.site
  split
  · next property => exact absurd rfl (h property)
  · rfl

theorem Walk.templateEnding_wellFormed {frame : Frame} :
    ∀ n ∈ templateEnding settings frame, WellFormed frame.kind.site n := by
  unfold templateEnding
  split
  · exact forall_mem_nil _
  · next hother =>
    rw [TagKind.site_eq hother]
    exact (Construction.returnView_wellFormed settings).single

/-- A template writes an element of an array, or a statement. -/
theorem Walk.factory_wellFormed {shape : FactoryShape}
    (h : factoryShape? settings inner = some shape)
    (hkeyed : inner.kind = .keyedTemplate → ∃ property, parent.kind = .templateArray property)
    (hparent : inner.kind ≠ .keyedTemplate → parent.kind = .view)
    (hnodes : ∀ n ∈ nodes, WellFormed inner.kind.site n) :
    WellFormed parent.kind.site (shape.node nodes) := by
  have htarget (property : Text) : WellFormed .expression
      (.memberNamed (Construction.element settings inner.index) property) :=
    (Construction.element_wellFormed _ _).memberNamed property
  unfold factoryShape? at h
  split at h
  · next hkind =>
    cases h
    rw [hkind] at hnodes hparent
    rw [hparent (by simp)]
    exact (htarget _).assign (.procedure (forall_mem_nil _) hnodes)
  · next hkind =>
    cases h
    rw [hkind] at hnodes hparent
    rw [hparent (by simp)]
    exact (htarget _).assign (.array hnodes)
  · next hkind =>
    cases h
    obtain ⟨property, harray⟩ := hkeyed hkind
    rw [hkind] at hnodes
    rw [harray]
    exact .item (.object ((WellFormed.property (.identifier _) (.string _) false).cons
      (WellFormed.property (.identifier _) (.procedure (forall_mem_nil _) hnodes) false).single))
  · cases h

theorem Element.slotNodes_wellFormed {attributes : AttributeMap} {index : Int} (h : ∀ n ∈ nodes, WellFormed .statement n) :
    ∀ n ∈ slotNodes settings attributes index nodes, WellFormed .statement n := by
  refine Construction.declareOnly_wellFormed.cons (WellFormed.single ?_)
  refine Fragment.slotBranch_wellFormed fun node hnode => ?_
  split at hnode
  · cases hnode
  · cases hnode
    exact Construction.slotFallback_wellFormed settings h

theorem Ending.wellFormed (h : Ending options inner children own)
    (hbindings : ∀ d ∈ inner.descriptors, ∃ item, Binding.describe item = .ok d) :
    (∀ n ∈ children ++ own.attach, WellFormed .statement n) ∧
      ∀ n ∈ own.declarations, WellFormed .statement n := by
  cases h with
  | full hcallbacks =>
    obtain ⟨hdeclarations, hattach⟩ := Binding.callbacks?_wellFormed hcallbacks fun d hd =>
      (hbindings d hd).elim fun _ hitem => Binding.describe_sound hitem
    exact ⟨forall_mem_append.mpr ⟨Construction.addChildren_wellFormed _, hattach⟩,
      hdeclarations⟩
  | mixed => exact ⟨nofun, nofun⟩

/-- **The code of a row of tags can be printed.** -/
theorem Row.wellFormed (h : Row options P parent before code callbacks customs) :
    (∀ n ∈ code.given, WellFormed .statement n) ∧
      (∀ n ∈ code.nodes, WellFormed parent.kind.site n) ∧
      ∀ n ∈ callbacks, WellFormed .statement n := by
  induction h with
  | none => exact ⟨forall_mem_nil _, forall_mem_nil _, forall_mem_nil _⟩
  | followedBy _ _ _ ih ih' =>
    exact ⟨forall_mem_append.mpr ⟨ih.1, ih'.1⟩, forall_mem_append.mpr ⟨ih.2.1, ih'.2.1⟩,
      forall_mem_append.mpr ⟨ih.2.2, ih'.2.2⟩⟩
  | @property _ inner _ inside _ _ _ _ _ hkind hparent _ _ ih =>
    obtain ⟨_, hnodes, hcallbacks⟩ := ih
    rw [show inner.place.kind = _ from hkind] at hnodes
    rw [hparent]
    exact ⟨forall_mem_nil _, forall_mem_append.mpr ⟨hnodes, Construction.addToProperty_wellFormed _⟩,
      hcallbacks⟩
  | @slotContent _ inner _ inside _ _ _ _ hkind _ _ ih =>
    obtain ⟨_, hnodes, hcallbacks⟩ := ih
    rw [show inner.place.kind = _ from hkind] at hnodes
    exact ⟨forall_mem_append.mpr ⟨hnodes, Construction.slotAssignments_wellFormed _⟩, forall_mem_nil _,
      hcallbacks⟩
  | factory _ _ hshape hkeyed hparent _ ih =>
    obtain ⟨_, hnodes, hcallbacks⟩ := ih
    refine ⟨forall_mem_nil _, .single ?_, hcallbacks⟩
    exact Walk.factory_wellFormed hshape hkeyed (fun hother => (hparent hother).1)
      (forall_mem_append.mpr ⟨hnodes, Walk.templateEnding_wellFormed⟩)
  | @slot _ inner _ _ _ _ _ attributes _ _ hkind _ _ harray ih =>
    obtain ⟨_, hnodes, hcallbacks⟩ := ih
    rw [show inner.place.kind = _ from hkind] at hnodes
    rw [TagKind.site_eq harray]
    exact ⟨forall_mem_nil _, Element.slotNodes_wellFormed hnodes, hcallbacks⟩
  | @element _ inner _ _ _ _ _ _ _ _ _ _ _ _ _ hkind _ _ _ hplaced _ _ hbindings hending ih =>
    obtain ⟨hgiven, hnodes, hcallbacks⟩ := ih
    obtain ⟨hend, hdeclarations⟩ := hending.wellFormed hbindings
    rw [show inner.place.kind = _ from hkind] at hnodes
    rw [TagKind.site_eq hplaced.array]
    refine ⟨forall_mem_nil _, ?_, forall_mem_append.mpr ⟨hcallbacks, hdeclarations⟩⟩
    refine forall_mem_append.mpr ⟨forall_mem_append.mpr ⟨forall_mem_append.mpr
      ⟨forall_mem_append.mpr ⟨?_, hgiven⟩, ?_⟩, hnodes⟩, hend⟩
    · exact Element.slotVariable_wellFormed
    · exact Element.creation_wellFormed

/-! ### Every name has its place -/

/-- What the function of a template returns is a view inside. -/
theorem Walk.templateEnding_plain (hstem : settings.elementStem = "el") (frame : Frame) :
    Construction.Plain (templateEnding settings frame) fun g => g ∈ frame.children.map .element := by
  unfold templateEnding
  split
  · exact Construction.plain_nil
  · exact Construction.returnView_plain hstem frame

/-- The table of slot content has the views inside. -/
theorem tableIndices_slotGroups {views : List ChildView} :
    Construction.tableIndices (ChildView.slotGroups views) ⊆ ChildView.indices views := by
  intro index hindex
  obtain ⟨item, hitem, hindex⟩ := mem_flatMap.mp hindex
  obtain ⟨name, _, rfl⟩ := mem_map.mp hitem
  obtain ⟨view, hview, rfl⟩ := mem_map.mp hindex
  exact mem_map_of_mem (mem_filter.mp hview).1

theorem Ending.plain (h : Ending options inner children own)
    (hstem : options.settings.elementStem = "el")
    (hbindings : ∀ d ∈ inner.descriptors, ∃ item, Binding.describe item = .ok d) :
    Construction.Plain children
        (fun g => g = .element inner.index ∨ g ∈ inner.children.map .element) ∧
      ∃ names, Binding.Serves own inner.index names := by
  cases h with
  | full hcallbacks =>
    rw [GeneratedName.elementName_eq hstem] at hcallbacks
    exact ⟨Construction.addChildren_plain hstem inner, Binding.callbacks?_serves
      (fun d hd => (hbindings d hd).elim fun _ hitem => Binding.describe_confined hitem) hcallbacks⟩
  | mixed => exact ⟨Construction.plain_nil, [], Binding.serves_nothing⟩

/-- **The code of a row of tags is tidy**, with a variable for each custom element. -/
theorem Row.tidy (h : Row options P parent before code callbacks customs)
    (hstem : options.settings.elementStem = "el") (hP : ∀ name, P name → Element.Unlike name) :
    ∃ locals functions, Tidy parent before code callbacks locals functions ∧
      ∀ k ∈ customs, .slotViews k ∈ locals := by
  induction h with
  | none => exact ⟨[], [], .none, nofun⟩
  | followedBy _ _ hparent ih ih' =>
    obtain ⟨locals, functions, htidy, hcustoms⟩ := ih
    obtain ⟨locals', functions', htidy', hcustoms'⟩ := ih'
    refine ⟨_, _, htidy.followedBy htidy' hparent, fun k hk => ?_⟩
    rcases mem_append.mp hk with hk | hk
    · exact mem_append_left _ (hcustoms k hk)
    · exact mem_append_right _ (hcustoms' k hk)
  | @property _ inner _ _ _ _ property _ hgiven hkind hparent hindex hchildren ih =>
    obtain ⟨locals, functions, htidy, hcustoms⟩ := ih
    have hending := Construction.addToProperty_plain hstem inner property
    rw [hchildren, hindex] at hending
    exact ⟨_, _, htidy.property (by rw [hkind]; exact nofun) hgiven hparent hending, hcustoms⟩
  | @slotContent _ inner _ inside _ _ _ hgiven hkind hindex htable ih =>
    obtain ⟨locals, functions, htidy, hcustoms⟩ := ih
    have hending := Construction.slotAssignments_plain hstem inner
    rw [htable, hindex] at hending
    refine ⟨_, _, htidy.slotContent (by rw [hkind]; exact nofun) hgiven (hending.mono ?_), hcustoms⟩
    intro g hg
    exact hg.imp_right fun hg => map_subset _ tableIndices_slotGroups hg
  | @factory _ inner _ _ _ _ _ _ hgiven hshape _ hparent hchildren ih =>
    obtain ⟨locals, functions, htidy, hcustoms⟩ := ih
    have hending := Walk.templateEnding_plain hstem inner
    rw [hchildren] at hending
    exact ⟨_, _, htidy.factory (Walk.kind_ne_view_of_shape hshape) hgiven hstem hshape hparent hending,
      hcustoms⟩
  | slot attributes _ hgiven _ hindex hview harray ih =>
    obtain ⟨locals, functions, htidy, hcustoms⟩ := ih
    exact ⟨_, _, htidy.slot hstem attributes rfl hgiven hindex hview harray,
      fun k hk => mem_cons_of_mem _ (hcustoms k hk)⟩
  | element attributes _ hgiven _ hslot hname hknown hplaced hview hchildren hbindings hending ih =>
    obtain ⟨locals, functions, htidy, hcustoms⟩ := ih
    obtain ⟨hplain, names, hserves⟩ := hending.plain hstem hbindings
    rw [hchildren] at hplain
    refine ⟨_, _, Tidy.element hstem hknown (hP _ hname) htidy hslot rfl hplain hserves hgiven hplaced
      hview, fun k hk => ?_⟩
    rcases mem_append.mp hk with hk | hk
    · split at hk
      · next hpath =>
        cases mem_singleton.mp hk
        exact mem_append_left _ (Tidy.mem_ownVariables.mpr (.inl ⟨hpath, rfl⟩))
      · cases hk
    · exact mem_append_right _ (hcustoms k hk)

end ViewMarkup
