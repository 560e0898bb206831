import ViewMarkup.Proofs.Binding.Hygiene
import ViewMarkup.Proofs.Walk.Code

/-!
# The names in the code for views

For every piece of code that is written for a view: which names it declares, which of them it
introduces into the block around it, and which generated names are stray in it.

* `Construction.Plain` is said of statements that declare nothing.
* `Element.straysIn_creation`: what creates an element needs the contents of its slots, and in a slot
  the variable of the slot.
* `Fragment.strays_slotBranch` and `Construction.mem_strays_slotFallback` say it of slots.
-/

namespace ViewMarkup

open List
open Script (Node straysIn strays straysAll straysOption declared declaredAll declaredOption introduced
  introducedIn ungoverned mem_ungoverned mem_straysIn_append mem_straysAll declaredAll_append
  mem_straysIn_of_notMem)
open Binding (runtimeCall statement)
open Construction (element)
open GeneratedName (elementName_eq slotViewsName_eq)

variable {x : Text} {settings : Settings} {k : Int} {g : GeneratedName}

namespace Construction

variable {isFallback : Bool} {value : Node} {views : List Node} {visible : GeneratedName → Prop}
  {nodes : List Node}

@[simp] theorem strays_element : strays (element settings k) = [settings.elementName k] := by
  rw [element, strays]

@[simp] theorem declared_element : declared (element settings k) = [] := by
  simp [element, declared]

/-- The variables that are declared before the root. -/
def preludeNames : List Text :=
  ["resolvedCodeModuleName", "resolvedCssModuleName", "moduleExports"]

section

variable (options : Options) (attributes : AttributeMap)

theorem declaredAll_rootDeclarations :
    declaredAll (rootDeclarations options attributes) = preludeNames := by
  simp [rootDeclarations, declaredAll, declared, preludeNames]

theorem introducedIn_rootDeclarations :
    introducedIn (rootDeclarations options attributes) = preludeNames := by
  simp [rootDeclarations, introducedIn, preludeNames]

end

/-- A name that is made for a view is not that of a variable of the constructor itself. -/
theorem text_notMem_prelude : g.text ∉ Text.ofString "customModules" :: preludeNames := by
  simp [preludeNames]

theorem straysIn_rootDeclarations (options : Options) (attributes : AttributeMap) :
    g.text ∉ straysIn (rootDeclarations options attributes) := by
  simp [rootDeclarations, straysIn, strays, straysAll, mem_ungoverned]

/-! ### Building an element -/

theorem declaredAll_construct (hvalue : declared value = []) :
    declaredAll (construct settings k value isFallback) =
      if isFallback then [] else [settings.elementName k] := by
  cases isFallback <;> simp [construct, declaredAll, declared, hvalue]

theorem introducedIn_construct : introducedIn (construct settings k value isFallback) =
      if isFallback then [] else [settings.elementName k] := by
  cases isFallback <;> simp [construct, introducedIn]

theorem straysIn_construct (hstem : settings.elementStem = "el") : g.text ∈ straysIn (construct settings k value isFallback) ↔
      g.text ∈ strays value ∨ isFallback = true ∧ g = .element k := by
  cases isFallback with
  | false => simp [construct, straysIn, mem_ungoverned]
  | true =>
    have hassigned : g.text ∈ strays (.assign (element settings k) value) ↔
        g = .element k ∨ g.text ∈ strays value := by
      simp [elementName_eq hstem]
    have hpushed : g.text ∈ strays (statement (.callOf
        (.memberNamed (.identifier "fallbackViews") "push") [element settings k])) ↔
        g = .element k := by
      simp [strays, straysAll, elementName_eq hstem]
    simp only [construct, if_true, straysIn, mem_append, mem_ungoverned, hassigned, hpushed,
      Script.introduced_assign]
    grind

section

variable (settings : Settings) (k : Int) (className : Text) (path : Text) (isFallback : Bool)

theorem declaredAll_constructCustom : declaredAll (constructCustom settings k className path isFallback) =
      if isFallback then [] else [settings.elementName k] := by
  rw [constructCustom, declaredAll_append, declaredAll_append, declaredAll_construct]
  all_goals simp [declaredAll, declared]

theorem introducedIn_constructCustom : introducedIn (constructCustom settings k className path isFallback) =
      if isFallback then [] else [settings.elementName k] := by
  rw [constructCustom, Script.introducedIn_append, Script.introducedIn_append,
    introducedIn_construct]
  simp [introducedIn]

end

theorem straysIn_constructCustom (hstem : settings.elementStem = "el") (className path : Text) :
    g.text ∈ straysIn (constructCustom settings k className path isFallback) ↔
      g = .slotViews k ∨ isFallback = true ∧ g = .element k := by
  rw [constructCustom, mem_straysIn_append, mem_straysIn_append, straysIn_construct hstem]
  simp [straysIn, strays, straysAll, mem_ungoverned, introducedIn,
    slotViewsName_eq]

/-! ### Handing views on -/

section

variable (settings : Settings) (frame : Frame) (indices : List Int)

theorem straysAll_childNodes :
    straysAll (childNodes settings frame indices) = indices.map settings.elementName := by
  induction indices with
  | nil => rfl
  | cons j indices ih =>
    rw [childNodes, map_cons, straysAll, ← childNodes, ih]
    split <;> simp [strays, straysAll]

theorem declaredAll_childNodes : declaredAll (childNodes settings frame indices) = [] := by
  induction indices with
  | nil => rfl
  | cons j indices ih =>
    rw [childNodes, map_cons, declaredAll, ← childNodes, ih]
    split <;> simp [declared, declaredAll]

end

/-- Statements that declare nothing, and in which the generated names are among the given ones. -/
structure Plain (nodes : List Node) (visible : GeneratedName → Prop) : Prop where
  declared : declaredAll nodes = []
  introduced : introducedIn nodes = []
  strays : ∀ g : GeneratedName, g.text ∈ straysIn nodes → visible g

/-- The row without statements. -/
theorem plain_nil : Plain [] visible :=
  ⟨rfl, rfl, fun _ h => nomatch h⟩

theorem Plain.append {first rest : List Node}
    (hfirst : Plain first visible) (hrest : Plain rest visible) : Plain (first ++ rest) visible where
  declared := by rw [declaredAll_append, hfirst.declared, hrest.declared]; rfl
  introduced := by rw [Script.introducedIn_append, hfirst.introduced, hrest.introduced]; rfl
  strays g hg := by
    rcases mem_straysIn_append.mp hg with hg | ⟨_, hg⟩
    · exact hfirst.strays g hg
    · exact hrest.strays g hg

theorem Plain.mono {visible' : GeneratedName → Prop}
    (h : Plain nodes visible) (hsub : ∀ g, visible g → visible' g) : Plain nodes visible' :=
  ⟨h.declared, h.introduced, fun g hg => hsub g (h.strays g hg)⟩

/-- One statement that is an expression. -/
theorem plain_statement {e : Node} (hdeclared : declared e = [])
    (hstrays : ∀ g : GeneratedName, g.text ∈ strays e → visible g) : Plain [statement e] visible where
  declared := by simp [declaredAll, hdeclared]
  introduced := rfl
  strays g hg := hstrays g (by simpa [straysIn, mem_ungoverned] using hg)

section

variable (hstem : settings.elementStem = "el") (frame : Frame)
include hstem

theorem addChildren_plain : Plain (addChildren settings frame)
      fun g => g = .element frame.index ∨ g ∈ frame.children.map .element := by
  unfold addChildren
  cases hchildren : childNodes settings frame frame.children with
  | nil => exact plain_nil
  | cons first rest =>
    dsimp only
    rw [← hchildren]
    refine plain_statement ?_ fun g hg => ?_
    · simp [declaredAll, declared, declaredAll_childNodes]
    · simpa [straysAll, strays, straysAll_childNodes, elementName_eq hstem] using hg

theorem addToProperty_plain (property : Text) : Plain (addToProperty settings frame property)
      fun g => g = .element frame.index ∨ g ∈ frame.children.map .element := by
  unfold addToProperty
  cases hchildren : childNodes settings frame frame.children with
  | nil => exact plain_nil
  | cons first rest =>
    dsimp only
    rw [← hchildren]
    refine plain_statement ?_ fun g hg => ?_
    · split <;> simp [declaredAll, declared, declaredAll_childNodes]
    · split at hg <;>
        simpa [straysAll, strays, straysAll_childNodes, elementName_eq hstem]
          using hg

theorem returnView_plain :
    Plain [returnView settings frame] fun g => g ∈ frame.children.map .element := by
  unfold returnView
  cases hlast : frame.children.getLast? with
  | none =>
    refine ⟨rfl, rfl, fun g hg => ?_⟩
    simp [straysIn, strays, straysOption, mem_ungoverned] at hg
  | some j =>
    refine ⟨?_, rfl, fun g hg => ?_⟩
    · simp [declaredAll, declared, declaredOption]
    · have hg : g = .element j := by
        simpa [straysIn, strays, straysOption, mem_ungoverned,
          elementName_eq hstem] using hg
      exact mem_map.mpr ⟨j, mem_of_getLast? hlast, hg.symm⟩

end

/-- The indices of all views in a table. -/
def tableIndices (table : List (Text × List Int)) : List Int :=
  table.flatMap fun item => item.2

theorem slotAssignments_plain (hstem : settings.elementStem = "el") (frame : Frame) :
    Plain (slotAssignments settings frame) fun g =>
      g = .slotViews frame.index ∨ g ∈ (tableIndices frame.slotMap).map .element := by
  unfold slotAssignments
  induction frame.slotMap with
  | nil => exact plain_nil
  | cons item table ih =>
    refine ⟨?_, ?_, fun g hg => ?_⟩
    · simp [declaredAll, declared, declaredAll_childNodes, ih.declared]
    · simpa [introducedIn] using ih.introduced
    · rw [map_cons, straysIn, mem_append, mem_ungoverned] at hg
      rw [tableIndices, flatMap_cons, map_append, mem_append]
      rcases hg with hg | ⟨hg, _⟩
      · have hg : g = .slotViews frame.index ∨ g ∈ item.2.map .element := by
          simpa [strays, straysAll_childNodes, elementName_eq hstem,
            slotViewsName_eq] using hg
        exact hg.imp_right .inl
      · exact (ih.strays g hg).imp_right .inr

theorem Plain.notMem_function
    (h : Plain nodes visible) (hvisible : ∀ g, visible g → g.isFunction = false)
    (hg : g.isFunction = true) : g.text ∉ straysAll nodes := by
  intro hstray
  have hintroduced : g.text ∉ introducedIn nodes := by
    rw [h.introduced]
    exact not_mem_nil
  have hvariable := hvisible g (h.strays g ((mem_straysIn_of_notMem hintroduced).mpr hstray))
  rw [hg] at hvariable
  cases hvariable

/-! ### Slots -/

theorem mem_strays_slotFallback (hstem : settings.elementStem = "el") : g.text ∈ strays (slotFallback settings k views) ↔
      g.text ∈ straysIn views ∨ g.text ∉ introducedIn views ∧ g = .element k := by
  have hassigned : g.text ∈ straysIn
      [.assign (element settings k) (.identifier "fallbackViews")] ↔ g = .element k := by
    simp [straysIn, strays, mem_ungoverned, elementName_eq hstem]
  have hempty : g.text ∉ straysIn [.letStatement "fallbackViews" (.array [])] := by
    simp [straysIn, strays, straysAll, mem_ungoverned]
  have hlist : g.text ∉ introducedIn [.letStatement "fallbackViews" (.array [])] := by
    simp [introducedIn]
  rw [slotFallback, strays, mem_straysIn_append, mem_straysIn_append, hassigned,
    Script.introducedIn_append, mem_append]
  grind

theorem declared_slotFallback : declared (slotFallback settings k views) =
      Text.ofString "fallbackViews" :: declaredAll views := by
  simp [slotFallback, declared, declaredAll, declaredAll_append]

end Construction

namespace Fragment

section

variable (name : Text) (slot : Text) (fallback : Option Node)

theorem strays_slotBranch :
    strays (slotBranch name slot fallback) = name :: straysOption fallback := by
  simp [slotBranch, slotRegistry, strays, straysIn, ungoverned]

theorem declared_slotBranch :
    declared (slotBranch name slot fallback) = declaredOption fallback := by
  simp [slotBranch, slotRegistry, declared, declaredAll]

end

end Fragment

namespace Attribute

open Construction (Plain)

theorem setter_plain (hstem : settings.elementStem = "el") {item : Attribute} :
    Plain [setter settings k item] fun g => g = .element k := by
  unfold setter
  split
  · refine Construction.plain_statement ?_ fun g hg => ?_
    · simp [declaredAll, declared]
    · simpa [straysAll, strays, elementName_eq hstem] using hg
  · split
    · refine Construction.plain_statement ?_ fun g hg => ?_
      · simp [declaredAll, declared, Binding.declared_walkPath]
      · simpa [straysAll, strays, Binding.splitPath, Binding.strays_walkPath,
          elementName_eq hstem] using hg
    · refine Construction.plain_statement ?_ fun g hg => ?_
      · simp [declaredAll, declared]
      · simpa [straysAll, strays, elementName_eq hstem] using hg

end Attribute

namespace Element

open Construction (Plain)

variable {options : Options} {path : Option Text} {name : Text} {attributes : AttributeMap}

theorem setters_plain (hstem : options.settings.elementStem = "el") (name : Text)
    (attributes : AttributeMap) (k : Int) :
    Plain (setters options name attributes k) fun g => g = .element k := by
  unfold setters
  induction (items options name attributes).filter fun item => !item.isBinding with
  | nil => exact Construction.plain_nil
  | cons item rest ih => exact (Attribute.setter_plain hstem).append ih

/-- The tag is not named like a variable or a function that is made for a view. -/
def Unlike (name : Text) : Prop :=
  ∀ g : GeneratedName, (Name.split name).2 = none → (Name.split name).1 ≠ g.text

section

variable (hstem : options.settings.elementStem = "el") (path : Option Text) (name : Text)
  (attributes : AttributeMap) (k : Int) (inSlot : Bool)
include hstem

theorem declaredAll_creation : declaredAll (creation options path name attributes k inSlot) =
      if inSlot then [] else [(GeneratedName.element k).text] := by
  unfold creation
  rw [declaredAll_append, (setters_plain hstem name attributes k).declared, append_nil,
    ← elementName_eq hstem]
  cases path with
  | some path => exact Construction.declaredAll_constructCustom _ _ _ _ _
  | none => exact Construction.declaredAll_construct (by simp [declared, declaredAll])

theorem introducedIn_creation : introducedIn (creation options path name attributes k inSlot) =
      if inSlot then [] else [(GeneratedName.element k).text] := by
  unfold creation
  rw [Script.introducedIn_append, (setters_plain hstem name attributes k).introduced,
    append_nil, ← elementName_eq hstem]
  cases path with
  | some path => exact Construction.introducedIn_constructCustom _ _ _ _ _
  | none => exact Construction.introducedIn_construct

end

/-- The code that creates an element uses the variable for the contents of its slots, and in a slot
the variable of the slot. -/
theorem straysIn_creation (hstem : options.settings.elementStem = "el")
    (hname : path = none → (Name.split name).2 = none) (hunlike : Unlike name) (k : Int)
    (inSlot : Bool) (hg : g.text ∈ straysIn (creation options path name attributes k inSlot)) :
    path.isSome = true ∧ g = .slotViews k ∨ inSlot = true ∧ g = .element k := by
  rcases mem_straysIn_append.mp hg with hg | ⟨hnew, hg⟩
  · cases path with
    | some path =>
      rw [Construction.straysIn_constructCustom hstem] at hg
      exact hg.imp_left fun h => ⟨rfl, h⟩
    | none =>
      rw [Construction.straysIn_construct hstem] at hg
      refine .inr (hg.resolve_left fun hclass => ?_)
      have hclass : g.text = (Name.split name).1 := by
        simpa [strays, straysAll] using hclass
      exact hunlike g (hname rfl) hclass.symm
  · have hg := (setters_plain hstem name attributes k).strays g hg
    subst hg
    refine .inr ⟨?_, rfl⟩
    by_contra hslot
    rw [Bool.not_eq_true] at hslot
    subst hslot
    refine hnew ?_
    cases path with
    | some path =>
      rw [Construction.introducedIn_constructCustom, elementName_eq hstem]
      exact mem_singleton_self _
    | none =>
      rw [Construction.introducedIn_construct, elementName_eq hstem]
      exact mem_singleton_self _

end Element

end ViewMarkup
