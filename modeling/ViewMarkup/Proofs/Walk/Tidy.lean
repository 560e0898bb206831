import Mathlib.Data.List.Count
import ViewMarkup.Proofs.Walk.Hygiene
import ViewMarkup.Proofs.Walk.Tags
import ViewMarkup.Proofs.Walk.Views

/-!
# Code in which every name has its place

The code of a row of elements declares variables for the views in it, and functions that stand
beside it.  It is tidy if none of these names is declared twice, if every variable is declared where
it is used, and if the functions are those that are referred to.

* `Declares` lists the names that are declared in some statements.
* `Tidy` says all this of a row of elements inside a tag, and `Tidy.followedBy` puts two rows
  together.
* One lemma for each kind of tag says that its code is tidy if the code inside is.
-/

namespace ViewMarkup

open List
open Construction (declareOnly slotFallback)

open Script (Node straysIn strays straysAll straysOption declared declaredAll declaredOption
  introduced introducedIn mem_ungoverned mem_straysIn_append mem_straysAll declaredAll_append
  straysAll_append functionNames mem_straysIn_of_notMem introducedIn_append)
open Construction (Plain)
open GeneratedName (elementName_eq slotViews slotViewsName_eq text_inj)
open Element (creation introducedIn_creation slotNodes slotVariable)
open ChildView (indices)

variable {nodes first rest : List Node} {names names' : List GeneratedName} {g : GeneratedName}
  {k : Int}

/-! ### The names that are declared -/

/-- The names that are declared in some statements are the given ones, beside the lists that collect
the fallback of a slot. -/
def Declares (nodes : List Node) (names : List GeneratedName) : Prop :=
  ∀ x : Text, x ≠ "fallbackViews" →
    (declaredAll nodes).count x = (names.map GeneratedName.text).count x

theorem declares_nil : Declares [] [] :=
  fun _ _ => rfl

theorem Declares.append (hfirst : Declares first names) (hrest : Declares rest names') :
    Declares (first ++ rest) (names ++ names') := by
  intro x hx
  rw [declaredAll_append, map_append, count_append, count_append, hfirst x hx,
    hrest x hx]

theorem declares_of_eq (h : declaredAll nodes = names.map GeneratedName.text) :
    Declares nodes names :=
  fun x _ => congrArg (count x) h

theorem Construction.Plain.declares {visible : GeneratedName → Prop} (h : Plain nodes visible) :
    Declares nodes [] :=
  declares_of_eq h.declared

theorem Declares.count (h : Declares nodes names) :
    (declaredAll nodes).count g.text = names.count g := by
  have hword : g.text ≠ "fallbackViews" := by simp
  rw [h g.text hword]
  exact count_map_of_injective _ _ (fun _ _ => GeneratedName.text_injective) g

theorem Declares.mem (h : Declares nodes names) : g.text ∈ declaredAll nodes ↔ g ∈ names := by
  rw [← count_pos_iff, h.count, count_pos_iff]

/-- What is introduced is declared. -/
theorem Declares.introduced (h : Declares nodes names) (hg : g.text ∈ introducedIn nodes) :
    g ∈ names :=
  h.mem.mp (Script.mem_declaredAll_of_introducedIn hg)

/-! ### The names of a row -/

/-- What tags inside a tag depend on: its kind, whether it is a slot, and its index. -/
structure Place where
  kind : TagKind
  isSlot : Bool
  index : Int

def Frame.place (frame : Frame) : Place :=
  ⟨frame.kind, frame.isSlot, frame.index⟩

/-- The indices that names in a row of elements may be made for: those handed out in the row, and in
a slot that of the slot. -/
def Owns (parent : Place) (before last index : Int) : Prop :=
  before < index ∧ index ≤ last ∨ parent.isSlot = true ∧ index = parent.index

/-- The variables and the functions that are declared for a row of elements inside a tag, given the
last index before the row and in it. -/
structure Inventory (parent : Place) (before last : Int) (locals functions : List GeneratedName) :
    Prop where
  le : before ≤ last
  nodup : locals.Nodup ∧ functions.Nodup
  owned : ∀ g ∈ locals ++ functions, Owns parent before last g.index
  kind : (∀ g ∈ locals, g.isFunction = false) ∧ ∀ g ∈ functions, g.isFunction = true
  elements : ∀ k, .element k ∈ locals ↔ before < k ∧ k ≤ last

namespace Inventory

variable {parent inner : Place} {before middle last : Int}
  {locals locals' functions functions' : List GeneratedName}

theorem none : Inventory parent before before [] [] where
  le := Int.le_refl before
  nodup := ⟨nodup_nil, nodup_nil⟩
  owned := nofun
  kind := ⟨nofun, nofun⟩
  elements k := by
    constructor
    · exact nofun
    · intro h
      exact absurd h.2 (Int.not_le.mpr h.1)

/-- Outside slots, names are made for the indices that the row has handed out. -/
theorem index_bounds (h : Inventory parent before last locals functions)
    (hparent : parent.isSlot = false) (hg : g ∈ locals ++ functions) :
    before < g.index ∧ g.index ≤ last := by
  rcases h.owned g hg with howned | hhome
  · exact howned
  · rw [hparent] at hhome
    cases hhome.1

/-- The names of a row inside a tag that is no slot are names of the row around. -/
theorem moved (h : Inventory inner before last locals functions) (hinner : inner.isSlot = false) : Inventory parent before last locals functions where
  le := h.le
  nodup := h.nodup
  owned _ hg := .inl (h.index_bounds hinner hg)
  kind := h.kind
  elements := h.elements

/-- The names of a row, and of one that follows inside a tag that is no slot. -/
theorem followedBy (h : Inventory parent before middle locals functions)
    (hbounds : ∀ g ∈ locals ++ functions, g.index ≤ middle)
    (h' : Inventory inner middle last locals' functions') (hinner : inner.isSlot = false) :
    Inventory parent before last (locals ++ locals') (functions ++ functions') := by
  have hle := h.le
  have hle' := h'.le
  have hlater : ∀ g ∈ locals' ++ functions', middle < g.index ∧ g.index ≤ last :=
    fun g hg => h'.index_bounds hinner hg
  have hapart : ∀ g ∈ locals ++ functions, ∀ g' ∈ locals' ++ functions', g ≠ g' := by
    rintro g hg _ hg' rfl
    exact absurd (hbounds g hg) (Int.not_le.mpr (hlater g hg').1)
  constructor
  case le => exact Int.le_trans hle hle'
  case nodup =>
    rw [nodup_append, nodup_append]
    constructor
    · refine ⟨h.nodup.1, h'.nodup.1, fun g hg g' hg' => ?_⟩
      exact hapart g (mem_append_left _ hg) g' (mem_append_left _ hg')
    · refine ⟨h.nodup.2, h'.nodup.2, fun g hg g' hg' => ?_⟩
      exact hapart g (mem_append_right _ hg) g' (mem_append_right _ hg')
  case owned =>
    intro g hg
    have hside : g ∈ locals ++ functions ∨ g ∈ locals' ++ functions' := by
      grind
    rcases hside with hside | hside
    · exact (h.owned g hside).imp_left fun howned => ⟨howned.1, by omega⟩
    · have hindex := hlater g hside
      exact .inl ⟨by omega, hindex.2⟩
  case kind =>
    constructor
    · intro g hg
      exact (mem_append.mp hg).elim (h.kind.1 g) (h'.kind.1 g)
    · intro g hg
      exact (mem_append.mp hg).elim (h.kind.2 g) (h'.kind.2 g)
  case elements =>
    intro k
    rw [mem_append, h.elements k, h'.elements k]
    omega

theorem perm (h : Inventory parent before last locals functions)
    (hperm : functions.Perm functions') : Inventory parent before last locals functions' where
  le := h.le
  nodup := ⟨h.nodup.1, hperm.nodup_iff.mp h.nodup.2⟩
  owned g hg := h.owned g ((hperm.append_left locals).mem_iff.mpr hg)
  kind := ⟨h.kind.1, fun g hg => h.kind.2 g (hperm.mem_iff.mpr hg)⟩
  elements := h.elements

end Inventory

/-! ### Tidy code -/

/-- The code of a row of elements inside a tag is tidy: the last index before it, the functions that
stand beside it, and the variables and functions that are declared. -/
structure Tidy (parent : Place) (before : Int) (code : Code) (callbacks : List Node)
    (locals functions : List GeneratedName) : Prop where
  inventory : Inventory parent before code.last locals functions
  declares : Declares (code.given ++ code.nodes) locals
  defines : functionNames callbacks = functions.map GeneratedName.text
  /-- The functions are those that are referred to. -/
  referred : ∀ g : GeneratedName, g.isFunction = true →
    (g ∈ functions ↔ g.text ∈ straysAll (code.given ++ code.nodes ++ callbacks))
  /-- Variables are declared where they are used, apart from those of the view around. -/
  given : ∀ g : GeneratedName, g.isFunction = false → g.text ∈ straysIn code.given →
    g = .slotViews parent.index
  nodes : ∀ g : GeneratedName, g.isFunction = false → g.text ∈ straysIn code.nodes →
    parent.kind = .view ∧ g = .element parent.index
  outside : ∀ g : GeneratedName, g.isFunction = false → g.text ∉ straysAll callbacks
  selfless : ∀ node ∈ callbacks, Script.Selfless node
  /-- The tag around can use the views in the row. -/
  seen : parent.isSlot = false → ∀ index ∈ indices code.views,
    (GeneratedName.element index).text ∈ introducedIn code.nodes
  bare : ∀ property, parent.kind = .templateArray property → introducedIn code.nodes = []

namespace Tidy

variable {parent : Place} {before : Int} {code code' : Code} {callbacks callbacks' : List Node}
  {locals locals' functions functions' : List GeneratedName} {last : Int}

/-- Functions are not declared among the views. -/
theorem not_introduced (h : Tidy parent before code callbacks locals functions)
    (hg : g.isFunction = true) :
    g.text ∉ introducedIn code.given ∧ g.text ∉ introducedIn code.nodes := by
  have hnone : g.text ∉ introducedIn (code.given ++ code.nodes) := by
    intro hmem
    have hvariable := h.inventory.kind.1 g (h.declares.introduced hmem)
    rw [hg] at hvariable
    cases hvariable
  rw [introducedIn_append, mem_append, not_or] at hnone
  exact hnone

/-- No element, no code. -/
theorem none : Tidy parent before (.none before) [] [] [] where
  inventory := .none
  declares := declares_nil
  defines := rfl
  referred g _ := by simp [Code.none, straysAll]
  given := nofun
  nodes := nofun
  outside := nofun
  selfless := nofun
  seen _ := nofun
  bare _ _ := rfl

/-- **Two rows of tidy code are tidy code.** -/
theorem followedBy (h : Tidy parent before code callbacks locals functions)
    (h' : Tidy parent code.last code' callbacks' locals' functions')
    (hparent : parent.isSlot = false) :
    Tidy parent before (code.followedBy code') (callbacks ++ callbacks')
      (locals ++ locals') (functions ++ functions') := by
  constructor
  case inventory =>
    exact h.inventory.followedBy (fun g hg => (h.inventory.index_bounds hparent hg).2) h'.inventory
      hparent
  case declares =>
    have hboth := h.declares.append h'.declares
    intro x hx
    rw [← hboth x hx]
    simp only [Code.followedBy, declaredAll_append, count_append]
    omega
  case defines =>
    rw [map_append, ← h.defines, ← h'.defines]
    exact filterMap_append
  case referred =>
    intro g hg
    have hboth := h.referred g hg
    have hboth' := h'.referred g hg
    simp only [Code.followedBy, straysAll_append, mem_append] at hboth hboth' ⊢
    grind
  case given =>
    intro g hg hstray
    rcases mem_straysIn_append.mp hstray with hstray | ⟨_, hstray⟩
    · exact h.given g hg hstray
    · exact h'.given g hg hstray
  case nodes =>
    intro g hg hstray
    rcases mem_straysIn_append.mp hstray with hstray | ⟨_, hstray⟩
    · exact h.nodes g hg hstray
    · exact h'.nodes g hg hstray
  case outside =>
    intro g hg hstray
    rw [straysAll_append, mem_append] at hstray
    exact hstray.elim (h.outside g hg) (h'.outside g hg)
  case selfless =>
    exact fun node hnode => (mem_append.mp hnode).elim (h.selfless node) (h'.selfless node)
  case seen =>
    intro hslot index hindex
    show _ ∈ introducedIn (code.nodes ++ code'.nodes)
    rw [introducedIn_append, mem_append]
    rw [Code.followedBy, ChildView.indices_append, mem_append] at hindex
    rcases hindex with hindex | hindex
    · exact .inl (h.seen hslot index hindex)
    · exact .inr (h'.seen hslot index hindex)
  case bare =>
    intro property hkind
    show introducedIn (code.nodes ++ code'.nodes) = []
    rw [introducedIn_append, h.bare property hkind, h'.bare property hkind]
    rfl

/-! ### Tags with a buffer of their own -/

section Inner

variable {inner : Frame} {inside : Code} {ending : List Node} {visible : GeneratedName → Prop}
  (h : Tidy inner.place before inside callbacks locals functions) (hkind : inner.kind ≠ .view)
  (hgiven : inside.given = [])

include hkind in
theorem isSlot_eq_false : inner.isSlot = false :=
  Bool.eq_false_iff.mpr fun hslot => hkind (Walk.kind_of_isSlot hslot)

include h hkind in
/-- What is written after a row can use the views in the row. -/
theorem strays_ending
    (hending : Plain ending fun g => visible g ∨ g ∈ (indices inside.views).map .element)
    (hg : g.isFunction = false) (hstray : g.text ∈ straysIn (inside.nodes ++ ending)) :
    visible g := by
  rcases mem_straysIn_append.mp hstray with hstray | ⟨hnew, hstray⟩
  · exact absurd (h.nodes g hg hstray).1 hkind
  · rcases hending.strays g hstray with hvisible | hview
    · exact hvisible
    · obtain ⟨index, hindex, rfl⟩ := mem_map.mp hview
      exact absurd (h.seen (isSlot_eq_false hkind) index hindex) hnew

include h hgiven in
theorem referred_ending (hvisible : ∀ g, visible g → g.isFunction = false)
    (hending : Plain ending fun g => visible g ∨ g ∈ (indices inside.views).map .element)
    (hg : g.isFunction = true) :
    g ∈ functions ↔ g.text ∈ straysAll (inside.nodes ++ ending ++ callbacks) := by
  have hplain : ∀ g, visible g ∨ g ∈ (indices inside.views).map .element →
      g.isFunction = false := by
    intro g hcases
    rcases hcases with hcases | hview
    · exact hvisible g hcases
    · obtain ⟨index, _, rfl⟩ := mem_map.mp hview
      rfl
  have hnone := hending.notMem_function hplain hg
  rw [h.referred g hg, hgiven]
  simp only [straysAll_append, mem_append, nil_append, hnone, or_false]

include h hgiven in
theorem declares_ending (hending : Plain ending visible) :
    Declares (inside.nodes ++ ending) locals := by
  have hdeclares := h.declares.append hending.declares
  rw [hgiven, append_nil] at hdeclares
  exact hdeclares

include h hkind hgiven in
/-- A tag for a property: what it holds, and what hands it to the view around. -/
theorem property (hparent : parent.kind = .view)
    (hending : Plain ending fun g => g = .element parent.index ∨
      g ∈ (indices inside.views).map .element) :
    Tidy parent before ⟨[], inside.nodes ++ ending, [], inside.last⟩ callbacks locals functions := by
  constructor
  case inventory => exact h.inventory.moved (isSlot_eq_false hkind)
  case declares => exact h.declares_ending hgiven hending
  case defines => exact h.defines
  case referred =>
    intro g hg
    apply h.referred_ending hgiven _ hending hg
    intro g hvisible
    rw [hvisible]
    rfl
  case given => exact nofun
  case nodes =>
    intro g hg hstray
    have hvisible := h.strays_ending hkind hending hg hstray
    exact ⟨hparent, hvisible⟩
  case outside => exact h.outside
  case selfless => exact h.selfless
  case seen => exact fun _ => nofun
  case bare =>
    intro property harray
    rw [hparent] at harray
    cases harray

include h hkind hgiven in
/-- Slot content: what it holds, and what hands it to the custom element around. -/
theorem slotContent (hending : Plain ending fun g => g = .slotViews parent.index ∨
      g ∈ (indices inside.views).map .element) :
    Tidy parent before ⟨inside.nodes ++ ending, [], [], inside.last⟩ callbacks locals functions := by
  constructor
  case inventory => exact h.inventory.moved (isSlot_eq_false hkind)
  case declares =>
    rw [append_nil]
    exact h.declares_ending hgiven hending
  case defines => exact h.defines
  case referred =>
    intro g hg
    rw [append_nil]
    apply h.referred_ending hgiven _ hending hg
    intro g hvisible
    rw [hvisible]
    rfl
  case given =>
    intro g hg hstray
    have hvisible := h.strays_ending hkind hending hg hstray
    exact hvisible
  case nodes => exact nofun
  case outside => exact h.outside
  case selfless => exact h.selfless
  case seen => exact fun _ => nofun
  case bare => exact fun _ _ => rfl

/-! #### Factories -/

variable {settings : Settings} {shape : FactoryShape} {body : List Node}

theorem declared_factory (hshape : Walk.factoryShape? settings inner = some shape) : declared (shape.node body) = declaredAll body := by
  unfold Walk.factoryShape? at hshape
  split at hshape <;> cases hshape <;> simp [FactoryShape.node, declared, declaredAll]

theorem introduced_factory : introduced (shape.node body) = [] := by
  cases shape <;> rfl

/-- What is stray in a factory: what is stray in its body, and the view that it is assigned to. -/
theorem mem_strays_factory (hstem : settings.elementStem = "el")
    (hshape : Walk.factoryShape? settings inner = some shape)
    (hbody : ∀ property, inner.kind = .templateArray property → introducedIn body = []) :
    g.text ∈ strays (shape.node body) ↔
      g.text ∈ straysIn body ∨ inner.kind ≠ .keyedTemplate ∧ g = .element inner.index := by
  unfold Walk.factoryShape? at hshape
  split at hshape
  · next property hkind =>
    cases hshape
    simp [FactoryShape.node, strays, straysAll, mem_ungoverned, Script.boundAll, hkind,
      elementName_eq hstem, or_comm]
  · next property hkind =>
    cases hshape
    have hnone : g.text ∉ introducedIn body := by
      rw [hbody property hkind]
      exact not_mem_nil
    simp [FactoryShape.node, strays, mem_straysIn_of_notMem hnone, hkind,
      elementName_eq hstem, or_comm]
  · next hkind =>
    cases hshape
    simp [FactoryShape.node, strays, straysAll, mem_ungoverned, Script.boundAll, hkind]
  · cases hshape

include h hkind hgiven in
/-- A template, or an array of templates. -/
theorem factory (hstem : settings.elementStem = "el")
    (hshape : Walk.factoryShape? settings inner = some shape)
    (hparent : inner.kind ≠ .keyedTemplate → parent.kind = .view ∧ parent.index = inner.index)
    (hending : Plain ending fun g => g ∈ (indices inside.views).map .element) :
    Tidy parent before ⟨[], [shape.node (inside.nodes ++ ending)], [], inside.last⟩ callbacks locals
      functions := by
  have hbody : ∀ property, inner.kind = .templateArray property →
      introducedIn (inside.nodes ++ ending) = [] := by
    intro property harray
    rw [introducedIn_append, h.bare property harray, hending.introduced]
    rfl
  have hending' : Plain ending fun g =>
      False ∨ g ∈ (indices inside.views).map .element :=
    hending.mono fun _ => .inr
  constructor
  case inventory => exact h.inventory.moved (isSlot_eq_false hkind)
  case declares =>
    have hdeclares := h.declares_ending hgiven hending
    intro x hx
    rw [← hdeclares x hx]
    simp only [nil_append, declaredAll, declared_factory hshape, append_nil]
  case defines => exact h.defines
  case referred =>
    intro g hg
    rw [h.referred_ending hgiven (fun _ => False.elim) hending' hg]
    have hnone : g.text ∉ introducedIn (inside.nodes ++ ending) := by
      rw [introducedIn_append, hending.introduced, append_nil]
      exact (h.not_introduced hg).2
    have hvariable : ¬ (inner.kind ≠ .keyedTemplate ∧ g = .element inner.index) := by
      intro hcases
      rw [hcases.2] at hg
      cases hg
    simp only [straysAll_append, mem_append, straysAll, append_nil, nil_append,
      mem_strays_factory hstem hshape hbody, hvariable, or_false, mem_straysIn_of_notMem hnone]
  case given => rintro _ _ ⟨⟩
  case nodes =>
    intro g hg hstray
    have hstray : g.text ∈ strays (shape.node (inside.nodes ++ ending)) := by
      simpa [straysIn, mem_ungoverned] using hstray
    rcases (mem_strays_factory hstem hshape hbody).mp hstray with hstray | ⟨hkeyed, rfl⟩
    · exact absurd (h.strays_ending hkind hending' hg hstray) id
    · obtain ⟨hview, hindex⟩ := hparent hkeyed
      exact ⟨hview, by rw [hindex]⟩
  case outside => exact h.outside
  case selfless => exact h.selfless
  case seen => exact fun _ => forall_mem_nil _
  case bare =>
    intro property _
    show introduced (shape.node (inside.nodes ++ ending)) ++ [] = []
    rw [introduced_factory, append_nil]

end Inner

/-! ### Slots -/

section Slot

variable {inner : Place} {inside : Code} {settings : Settings} {view : ChildView}
  (hstem : settings.elementStem = "el") (h : Tidy inner k inside callbacks locals functions)

include hstem in
theorem declares_slotNodes (attributes : AttributeMap) (h : Declares nodes names) :
    Declares (slotNodes settings attributes k nodes) (.element k :: names) := by
  have hfallback : ∀ x : Text, x ≠ "fallbackViews" →
      (declaredOption (if nodes.isEmpty then Option.none
        else some (slotFallback settings k nodes))).count x =
      (names.map GeneratedName.text).count x := by
    intro x hx
    rw [← h x hx]
    cases nodes with
    | nil => rfl
    | cons node nodes =>
      show (declared (slotFallback settings k (node :: nodes))).count x = _
      rw [Construction.declared_slotFallback, count_cons_of_ne (Ne.symm hx)]
  intro x hx
  have hvariable : declared (declareOnly (settings.elementName k)) =
      [(GeneratedName.element k).text] := by
    simp [declareOnly, declared, declaredAll, declaredOption, Script.bound,
      elementName_eq hstem]
  simp only [slotNodes, declaredAll, hvariable, Fragment.declared_slotBranch,
    append_nil, map_cons, singleton_append, count_cons, hfallback x hx]

include hstem in
theorem introducedIn_slotNodes (attributes : AttributeMap) (nodes : List Node) :
    introducedIn (slotNodes settings attributes k nodes) =
      [(GeneratedName.element k).text] := by
  rw [← elementName_eq hstem]
  rfl

include hstem in
/-- The variable of a slot is declared before all uses. -/
theorem mem_straysIn_slotNodes (attributes : AttributeMap) (nodes : List Node) :
    g.text ∈ straysIn (slotNodes settings attributes k nodes) ↔
      g ≠ .element k ∧ g.text ∈ straysIn nodes := by
  have hfallback : g ≠ .element k → (g.text ∈ straysOption (if nodes.isEmpty then Option.none
      else some (slotFallback settings k nodes)) ↔ g.text ∈ straysIn nodes) := by
    intro hne
    cases nodes with
    | nil => rfl
    | cons node nodes =>
      show g.text ∈ strays (slotFallback settings k (node :: nodes)) ↔ _
      rw [Construction.mem_strays_slotFallback hstem]
      simp [hne]
  have hvariable : straysIn [declareOnly (settings.elementName k)] = [] := by
    simp [declareOnly, straysIn, strays, straysAll, straysOption, Script.ungoverned]
  have hintroduced : introducedIn [declareOnly (settings.elementName k)] =
      [(GeneratedName.element k).text] := by
    rw [← elementName_eq hstem]
    rfl
  rw [slotNodes, ← singleton_append, mem_straysIn_append, hvariable, hintroduced,
    mem_singleton, text_inj]
  simp only [straysIn, mem_append, mem_ungoverned, not_mem_nil, false_or, false_and,
    or_false, Fragment.strays_slotBranch, mem_cons, elementName_eq hstem,
    text_inj]
  constructor
  · intro hcases
    have hne := hcases.1
    exact ⟨hne, (hfallback hne).mp (hcases.2.resolve_left hne)⟩
  · intro hcases
    exact ⟨hcases.1, .inr ((hfallback hcases.1).mpr hcases.2)⟩

include h in
/-- The names of a slot and of its fallback, which may be made for the slot. -/
theorem inventory_slot (hinner : inner.index = k) (hk : k = before + 1) (parent : Place) :
    Inventory parent before inside.last (.element k :: locals) functions := by
  have hle := h.inventory.le
  constructor
  case le => omega
  case nodup =>
    refine ⟨nodup_cons.mpr ⟨fun hself => ?_, h.inventory.nodup.1⟩, h.inventory.nodup.2⟩
    have hbounds := (h.inventory.elements k).mp hself
    omega
  case owned =>
    intro g hg
    left
    rcases mem_cons.mp hg with hself | hg
    · rw [hself]
      exact ⟨by show before < k; omega, hle⟩
    · rcases h.inventory.owned g hg with howned | hhome
      · omega
      · omega
  case kind =>
    exact ⟨forall_mem_cons.mpr ⟨rfl, h.inventory.kind.1⟩, h.inventory.kind.2⟩
  case elements =>
    intro j
    rw [mem_cons, h.inventory.elements j, GeneratedName.element.injEq]
    omega

include hstem h in
/-- A slot with its fallback. -/
theorem slot (attributes : AttributeMap) (hinner : inner.index = k) (hgiven : inside.given = [])
    (hk : k = before + 1) (hview : view.index = k)
    (harray : ∀ property, parent.kind ≠ .templateArray property) :
    Tidy parent before
      ⟨[], slotNodes settings attributes k inside.nodes, [view], inside.last⟩ callbacks
      (.element k :: locals) functions := by
  have hdeclares := h.declares
  rw [hgiven, nil_append] at hdeclares
  constructor
  case inventory => exact h.inventory_slot hinner hk parent
  case declares => exact declares_slotNodes hstem attributes hdeclares
  case defines => exact h.defines
  case referred =>
    intro g hg
    have hne : g ≠ .element k := by
      intro heq
      rw [heq] at hg
      cases hg
    have hnone : g.text ∉ introducedIn (slotNodes settings attributes k inside.nodes) := by
      rw [introducedIn_slotNodes hstem, mem_singleton, text_inj]
      exact hne
    have hrow : g.text ∈ straysAll (slotNodes settings attributes k inside.nodes) ↔
        g.text ∈ straysAll inside.nodes := by
      rw [← mem_straysIn_of_notMem hnone, mem_straysIn_slotNodes hstem,
        mem_straysIn_of_notMem (h.not_introduced hg).2]
      simp [hne]
    rw [h.referred g hg, hgiven]
    simp only [nil_append, straysAll_append, mem_append, hrow]
  case given => exact nofun
  case nodes =>
    intro g hg hstray
    obtain ⟨hne, hstray⟩ := (mem_straysIn_slotNodes hstem attributes inside.nodes).mp hstray
    have hself := (h.nodes g hg hstray).2
    rw [hinner] at hself
    exact absurd hself hne
  case outside => exact h.outside
  case selfless => exact h.selfless
  case seen =>
    intro _ index hindex
    have hself : index = k := by
      rw [← hview]
      exact mem_singleton.mp hindex
    rw [hself, introducedIn_slotNodes hstem]
    exact mem_singleton_self _
  case bare => exact fun property hkind => absurd hkind (harray property)

end Slot

/-! ### Elements -/

section Element

variable {inner : Place} {inside : Code} {options : Options} {path : Option Text} {name : Text}
  {attributes : AttributeMap} {inSlot : Bool} {children : List Node} {own : Binding.Callbacks}
  {view : ChildView}

/-- The code of an element: the variable for the contents of its slots, these contents, its creation,
what is inside, and what hands it its children and subscribes its bindings. -/
def elementNodes (options : Options) (path : Option Text) (name : Text) (attributes : AttributeMap)
    (index : Int) (inSlot : Bool) (inside : Code) (ending : List Node) : List Node :=
  slotVariable path index ++ inside.given ++
    creation options path name attributes index inSlot ++ inside.nodes ++ ending

/-- The variables that are declared for an element. -/
def ownVariables (path : Option Text) (index : Int) (inSlot : Bool) : List GeneratedName :=
  (if path.isSome then [.slotViews index] else []) ++ if inSlot then [] else [.element index]

theorem mem_ownVariables : g ∈ ownVariables path k inSlot ↔
    path.isSome = true ∧ g = .slotViews k ∨ inSlot = false ∧ g = .element k := by
  cases path <;> cases inSlot <;> simp [ownVariables]

theorem nodup_ownVariables : (ownVariables path k inSlot).Nodup := by
  cases path <;> cases inSlot <;> simp [ownVariables]

/-- Where an element stands: in a slot it has the index of the slot, elsewhere the next one. -/
structure Placed (parent : Place) (before k : Int) (inSlot : Bool) : Prop where
  isSlot : parent.isSlot = inSlot
  index : k = if inSlot then before else before + 1
  home : inSlot = true → parent.kind = .view ∧ parent.index = k
  array : ∀ property, parent.kind ≠ .templateArray property

theorem Placed.owns (h : Placed parent before k inSlot) (hle : k ≤ last) :
    Owns parent before last k := by
  cases hslot : inSlot with
  | true => exact .inr ⟨h.isSlot.trans hslot, (h.home hslot).2.symm⟩
  | false =>
    have hk := h.index
    rw [hslot, if_neg Bool.false_ne_true] at hk
    exact .inl ⟨by omega, hle⟩

theorem Placed.le (h : Placed parent before k inSlot) : before ≤ k := by
  have hk := h.index
  cases inSlot with
  | true => exact Int.le_of_eq hk.symm
  | false =>
    omega

/-- The names of an element and of what is inside. -/
theorem inventory_element
    (h : Inventory inner k last locals functions) (hinner : inner.isSlot = false)
    (hparent : Placed parent before k inSlot) (hserves : Binding.Serves own k names) :
    Inventory parent before last (ownVariables path k inSlot ++ locals) (functions ++ names) := by
  have hvariable : ∀ g ∈ ownVariables path k inSlot, g.index = k ∧ g.isFunction = false := by
    intro g hg
    rcases mem_ownVariables.mp hg with ⟨_, rfl⟩ | ⟨_, rfl⟩
    · exact ⟨rfl, rfl⟩
    · exact ⟨rfl, rfl⟩
  have hindex : ∀ g ∈ ownVariables path k inSlot ++ names, g.index = k := by
    intro g hg
    rcases mem_append.mp hg with hg | hg
    · exact (hvariable g hg).1
    · exact (hserves.functions g hg).2
  have hown : Inventory parent before k (ownVariables path k inSlot) names := by
    constructor
    case le => exact hparent.le
    case nodup => exact ⟨nodup_ownVariables, hserves.nodup⟩
    case owned =>
      intro g hg
      rw [hindex g hg]
      exact hparent.owns (Int.le_refl k)
    case kind => exact ⟨fun g hg => (hvariable g hg).2, fun g hg => (hserves.functions g hg).1⟩
    case elements =>
      intro j
      have hk := hparent.index
      rw [mem_ownVariables]
      cases inSlot <;> grind
  exact (hown.followedBy (fun g hg => Int.le_of_eq (hindex g hg)) h hinner).perm
    perm_append_comm

section

variable (path : Option Text) (k : Int)

theorem declaredAll_slotVariable :
    declaredAll (slotVariable path k) =
      if path.isSome then [(slotViews k).text] else [] := by
  unfold slotVariable
  split
  · simp [declaredAll, declared, slotViewsName_eq]
  · rfl

theorem introducedIn_slotVariable :
    introducedIn (slotVariable path k) =
      if path.isSome then [(slotViews k).text] else [] := by
  unfold slotVariable
  split
  · simp [introducedIn, slotViewsName_eq]
  · rfl

theorem straysAll_slotVariable : straysAll (slotVariable path k) = [] := by
  unfold slotVariable
  split <;> simp [straysAll, strays]

end

variable (hstem : options.settings.elementStem = "el")
  (hknown : path = Option.none → (Name.split name).2 = Option.none) (hunlike : Element.Unlike name)

include hstem hknown hunlike in
theorem creation_notMem_function (hg : g.isFunction = true) :
    g.text ∉ straysAll (creation options path name attributes k inSlot) := by
  intro hstray
  have hnone : g.text ∉ introducedIn (creation options path name attributes k inSlot) := by
    rw [introducedIn_creation hstem]
    split
    · exact not_mem_nil
    · rw [mem_singleton, text_inj]
      intro heq
      rw [heq] at hg
      cases hg
  rcases Element.straysIn_creation hstem hknown hunlike k inSlot
    ((mem_straysIn_of_notMem hnone).mpr hstray) with ⟨_, rfl⟩ | ⟨_, rfl⟩
  · cases hg
  · cases hg

variable (h : Tidy inner k inside callbacks locals functions) (hslot : inner.isSlot = false)
  (hindex : inner.index = k)
  (hchildren : Plain children fun g => g = .element k ∨ g ∈ (indices inside.views).map .element)
  (hserves : Binding.Serves own k names)

include hstem hknown hunlike h hslot hindex hchildren hserves in
/-- In the code of an element every variable is declared before it is used, apart from the variable
of the slot around. -/
theorem strays_element (hgiven : path.isSome = false → inside.given = [])
    (hg : g.isFunction = false)
    (hstray : g.text ∈ straysIn (elementNodes options path name attributes k inSlot inside
      (children ++ own.attach))) : inSlot = true ∧ g = .element k := by
  -- what is introduced before the creation, and by the creation
  have hslots : path.isSome = true → (slotViews k).text ∈
      introducedIn (slotVariable path k) := by
    intro hpath
    rw [introducedIn_slotVariable, if_pos hpath]
    exact mem_singleton_self _
  have hself : inSlot = false → (GeneratedName.element k).text ∈
      introducedIn (creation options path name attributes k inSlot) := by
    intro hinSlot
    rw [introducedIn_creation hstem, hinSlot, if_neg Bool.false_ne_true]
    exact mem_singleton_self _
  have hview : ∀ index ∈ indices inside.views,
      (GeneratedName.element index).text ∈ introducedIn inside.nodes := h.seen hslot
  have hattached : g.text ∈ straysIn own.attach → g = .element k := by
    intro hstray
    obtain ⟨node, hnode, hg'⟩ := Script.exists_of_mem_straysIn hstray
    rcases hserves.attached g (mem_straysAll.mpr ⟨node, hnode, hg'⟩) with heq | hfunction
    · exact heq
    · rw [(hserves.functions g hfunction).1] at hg
      cases hg
  have hcase : g = .element k → g.text ∉ introducedIn
      (creation options path name attributes k inSlot) → inSlot = true ∧ g = .element k := by
    intro heq hnew
    refine ⟨?_, heq⟩
    cases hinSlot : inSlot with
    | true => rfl
    | false =>
      rw [heq] at hnew
      exact absurd (hself hinSlot) hnew
  simp only [elementNodes, mem_straysIn_append, introducedIn_append, mem_append, not_or]
    at hstray
  rcases hstray with (((hstray | ⟨hnew, hstray⟩) | ⟨hnew, hstray⟩) | ⟨hnew, hstray⟩) |
    ⟨hnew, hstray | ⟨_, hstray⟩⟩
  · obtain ⟨node, hnode, hg'⟩ := Script.exists_of_mem_straysIn hstray
    have hall := mem_straysAll.mpr ⟨node, hnode, hg'⟩
    rw [straysAll_slotVariable] at hall
    exact nomatch hall
  · have heq := h.given g hg hstray
    rw [hindex] at heq
    cases hpath : path.isSome with
    | true =>
      rw [heq] at hnew
      exact absurd (hslots hpath) hnew
    | false =>
      rw [hgiven hpath] at hstray
      exact nomatch hstray
  · rcases Element.straysIn_creation hstem hknown hunlike k inSlot hstray with hcustom | hhome
    · rw [hcustom.2] at hnew
      exact absurd (hslots hcustom.1) hnew.1
    · exact hhome
  · have heq := (h.nodes g hg hstray).2
    rw [hindex] at heq
    exact hcase heq hnew.2
  · rcases hchildren.strays g hstray with heq | hchild
    · exact hcase heq hnew.1.2
    · obtain ⟨index, hmem, rfl⟩ := mem_map.mp hchild
      exact absurd (hview index hmem) hnew.2
  · exact hcase (hattached hstray) hnew.1.2

include hstem hknown hunlike h hslot hindex hchildren hserves in
/-- **An element.** -/
theorem element (hgiven : path.isSome = false → inside.given = [])
    (hparent : Placed parent before k inSlot) (hview : view.index = k) :
    Tidy parent before
      ⟨[], elementNodes options path name attributes k inSlot inside (children ++ own.attach),
        [view], inside.last⟩
      (callbacks ++ own.declarations) (ownVariables path k inSlot ++ locals)
      (functions ++ names) := by
  have hplain : ∀ g : GeneratedName, g = .element k ∨
      g ∈ (indices inside.views).map .element →
      g.isFunction = false := by
    intro g hcases
    rcases hcases with rfl | hchild
    · rfl
    · obtain ⟨index, _, rfl⟩ := mem_map.mp hchild
      rfl
  constructor
  case inventory => exact inventory_element h.inventory hslot hparent hserves
  case declares =>
    have hinside := h.declares
    intro x hx
    have hcount := hinside x hx
    rw [declaredAll_append, count_append] at hcount
    simp only [elementNodes, ownVariables, nil_append, declaredAll_append, count_append,
      map_append, declaredAll_slotVariable, Element.declaredAll_creation hstem,
      hchildren.declared, hserves.bare.1, ← hcount, count_nil]
    cases path <;> cases inSlot <;> simp <;> omega
  case defines =>
    rw [map_append, ← h.defines, ← hserves.declarations]
    exact filterMap_append
  case referred =>
    intro g hg
    have hchild := hchildren.notMem_function hplain hg
    have hcreation := @creation_notMem_function g k options path name attributes inSlot hstem hknown
      hunlike hg
    have hown : g ∈ names ↔ g.text ∈ straysAll own.attach ∨ g.text ∈ straysAll own.declarations := by
      constructor
      · exact hserves.used g
      · intro hstray
        rcases hstray with hstray | hstray
        · rcases hserves.attached g hstray with rfl | hname
          · cases hg
          · exact hname
        · exact hserves.within g hstray
    have hrow : g.text ∈ straysAll (elementNodes options path name attributes k inSlot inside
        (children ++ own.attach)) ↔ g.text ∈ straysAll inside.given ∨
          g.text ∈ straysAll inside.nodes ∨ g.text ∈ straysAll own.attach := by
      simp only [elementNodes, straysAll_append, straysAll_slotVariable, nil_append,
        mem_append, hchild, hcreation, or_false, false_or, or_assoc]
    rw [mem_append, h.referred g hg, hown]
    simp only [nil_append, straysAll_append, mem_append, hrow]
    grind
  case given => exact nofun
  case nodes =>
    intro g hg hstray
    obtain ⟨hinSlot, heq⟩ := strays_element hstem hknown hunlike h hslot hindex hchildren hserves
      hgiven hg hstray
    rw [(hparent.home hinSlot).2]
    exact ⟨(hparent.home hinSlot).1, heq⟩
  case outside =>
    intro g hg hstray
    rw [straysAll_append, mem_append] at hstray
    rcases hstray with hstray | hstray
    · exact h.outside g hg hstray
    · rw [(hserves.functions g (hserves.within g hstray)).1] at hg
      cases hg
  case selfless =>
    exact fun node hnode => (mem_append.mp hnode).elim (h.selfless node) (hserves.selfless node)
  case seen =>
    intro hoff index hmem
    have hself : index = k := by
      rw [← hview]
      exact mem_singleton.mp hmem
    have hinSlot := hparent.isSlot.symm.trans hoff
    have hcreated : (GeneratedName.element k).text ∈
        introducedIn (creation options path name attributes k inSlot) := by
      rw [introducedIn_creation hstem, hinSlot, if_neg Bool.false_ne_true]
      exact mem_singleton_self _
    rw [hself]
    simp only [elementNodes, introducedIn_append, mem_append, hcreated, or_true, true_or]
  case bare => exact fun property hkind => absurd hkind (hparent.array property)

end Element

end Tidy

end ViewMarkup
