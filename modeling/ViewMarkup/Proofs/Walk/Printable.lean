import ViewMarkup.Module
import ViewMarkup.Proofs.Binding.Callbacks
import ViewMarkup.Proofs.Walk.Nesting

/-!
# The code of a walk can be printed

Each piece of code that a tag writes is well-formed where it stands.

* One lemma for each piece says so.
* `Walk.Printable.print_ok`: the module of a walk can be printed if all that the walk has written can.
-/

namespace ViewMarkup

open List
open Script.WellFormed (letStatement single expressionStatement)
open Script (Node WellFormed Site)
open Binding (runtimeCall_wellFormed)

/-! ### The code for views -/

namespace Construction

variable {value : Node} {frame : Frame} {index : Int} {isFallback : Bool} {path : Text}

theorem element_wellFormed (settings : Settings) (index : Int) :
    WellFormed .expression (element settings index) :=
  .identifier _

theorem declareOnly_wellFormed {name : Text} : WellFormed .statement (declareOnly name) :=
  .declaration _ (.single (.declarator (.name name) nofun))

theorem rootDeclarations_wellFormed {options : Options} {attributes : AttributeMap} :
    ∀ n ∈ rootDeclarations options attributes, WellFormed .statement n := by
  have hcode : WellFormed .expression (.identifier "resolvedCodeModuleName") := .identifier _
  have hresolve (name extension : Text) : WellFormed .expression
      (Binding.runtimeCall "resolveModuleName" [.string name, .string extension]) :=
    runtimeCall_wellFormed ((WellFormed.item (.string _)).cons (WellFormed.item (.string _)).single)
  have hload : WellFormed .expression
      (Binding.runtimeCall "loadModule" [.identifier "resolvedCodeModuleName", .boolean true]) :=
    runtimeCall_wellFormed (hcode.item.cons (WellFormed.item (.boolean true)).single)
  exact (letStatement (hresolve _ _)).cons ((letStatement (hresolve _ _)).cons
    (letStatement (.conditional hcode hload (.identifier _))).single)

section

variable (settings : Settings)

theorem construct_wellFormed (h : WellFormed .expression value) :
    ∀ n ∈ construct settings index value isFallback, WellFormed .statement n := by
  unfold construct
  split
  · have hpush := (WellFormed.identifier "fallbackViews").memberNamed "push"
    exact ((element_wellFormed settings index).assign h).cons (single
      (.expressionStatement (hpush.callOf (element_wellFormed settings index).item.single)))
  · exact .single (.letStatement h)

theorem constructCustom_wellFormed {className modulePath : Text} :
    ∀ n ∈ constructCustom settings index className modulePath isFallback,
      WellFormed .statement n := by
  have hreference : WellFormed .expression
      (.memberNamed (.memberNamed (.identifier "customModules") modulePath) className) :=
    ((WellFormed.identifier _).memberNamed _).memberNamed _
  have hslots := (hreference.memberNamed "prototype").memberNamed "$slotViews"
  have hvalue := WellFormed.conditional (hreference.memberNamed "isXMLComponent")
    (.new hreference (WellFormed.item (.identifier "moduleExports")).single)
    (.new hreference (forall_mem_nil _))
  refine forall_mem_append.mpr ⟨forall_mem_append.mpr ⟨?_, ?_⟩, ?_⟩
  · exact (hslots.assign (.identifier _)).single
  · exact construct_wellFormed settings hvalue
  · exact (expressionStatement (.unary _ hslots)).single

theorem childNodes_wellFormed (frame : Frame) (indices : List Int) :
    ∀ n ∈ childNodes settings frame indices, WellFormed .item n := by
  refine forall_mem_map.mpr fun index _ => ?_
  split
  · exact .spread (.logical rfl (element_wellFormed settings index) (.array (forall_mem_nil _)))
  · exact (element_wellFormed settings index).item

theorem addChildren_wellFormed : ∀ n ∈ addChildren settings frame, WellFormed .statement n := by
  have hchildren := childNodes_wellFormed settings frame frame.children
  unfold addChildren
  split
  · exact forall_mem_nil _
  · exact .single (.expressionStatement (runtimeCall_wellFormed
      ((element_wellFormed settings frame.index).item.cons
        (WellFormed.item (.array hchildren)).single)))

theorem addToProperty_wellFormed {property : Text} :
    ∀ n ∈ addToProperty settings frame property, WellFormed .statement n := by
  have hchildren := childNodes_wellFormed settings frame frame.children
  have hflag : ∀ n ∈ (if settings.knownCollections.contains property then [Node.boolean true]
      else []), WellFormed .item n := by
    split
    · exact (WellFormed.item (.boolean true)).single
    · exact forall_mem_nil _
  unfold addToProperty
  split
  · exact forall_mem_nil _
  · exact .single (.expressionStatement (runtimeCall_wellFormed
      ((element_wellFormed settings frame.index).item.cons
        ((WellFormed.item (.array hchildren)).cons ((WellFormed.item (.string _)).cons hflag)))))

theorem slotAssignments_wellFormed :
    ∀ n ∈ slotAssignments settings frame, WellFormed .statement n :=
  forall_mem_map.mpr fun _ _ => ((WellFormed.identifier _).memberNamed _).assign
    (.array (childNodes_wellFormed settings frame _))

theorem returnView_wellFormed : WellFormed .statement (returnView settings frame) := by
  refine .returnStatement fun e he => ?_
  cases he
  split
  · exact element_wellFormed settings _
  · exact .null

theorem slotFallback_wellFormed {views : List Node} (h : ∀ n ∈ views, WellFormed .statement n) :
    WellFormed .body (slotFallback settings index views) := by
  refine .block (forall_mem_append.mpr ⟨forall_mem_append.mpr ⟨?_, h⟩, ?_⟩)
  · exact (letStatement (.array (forall_mem_nil _))).single
  · exact ((element_wellFormed settings index).assign (.identifier _)).single

end

theorem registration_wellFormed {written : Text} :
    WellFormed .statement (registration path written) :=
  .expressionStatement (runtimeCall_wellFormed ((WellFormed.item (.string _)).cons
    (WellFormed.item (.thunk .require)).single))

theorem customModule_wellFormed : WellFormed .property (customModule path) :=
  .property (.string _) (runtimeCall_wellFormed ((WellFormed.item (.string _)).cons
    (WellFormed.item (.string _)).single)) false

end Construction

theorem Fragment.slotBranch_wellFormed {element name : Text} {fallback : Option Node}
    (h : ∀ node ∈ fallback, WellFormed .body node) :
    WellFormed .statement (slotBranch element name fallback) := by
  have hregistry : WellFormed .expression slotRegistry := WellFormed.this.memberNamed _
  refine .ifStatement hregistry.accessNamed (.block (WellFormed.cons ?_ ?_)) h
  · exact (WellFormed.identifier _).assign (hregistry.memberNamed _)
  · exact (expressionStatement (.unary _ (hregistry.memberNamed _))).single

theorem Attribute.setter_wellFormed {settings : Settings} {index : Int} {item : Attribute} :
    WellFormed .statement (setter settings index item) := by
  have helement : WellFormed .expression (.identifier (settings.elementName index)) := .identifier _
  unfold setter
  split
  · exact .expressionStatement (runtimeCall_wellFormed (helement.item.cons
      ((WellFormed.item (.string _)).cons (WellFormed.identifier _).accessNamed.item.single)))
  · split
    · have howner : WellFormed .expression (Binding.splitPath
          (.identifier (settings.elementName index)) item.propertyName).1 :=
        Binding.walkPath_wellFormed helement
      exact .expressionStatement (.logical rfl howner (runtimeCall_wellFormed
        (howner.item.cons ((WellFormed.item (.string _)).cons (WellFormed.item (.string _)).single))))
    · exact .expressionStatement (runtimeCall_wellFormed (helement.item.cons
        ((WellFormed.item (.string _)).cons (WellFormed.item (.string _)).single)))

namespace Element

variable {path : Option Text} {index : Int}

theorem slotVariable_wellFormed : ∀ n ∈ slotVariable path index, WellFormed .statement n := by
  unfold slotVariable
  split
  · exact (letStatement (.object (forall_mem_nil _))).single
  · exact forall_mem_nil _

theorem creation_wellFormed {options : Options} {name : Text}
    {attributes : AttributeMap} {inSlot : Bool} :
    ∀ n ∈ creation options path name attributes index inSlot, WellFormed .statement n := by
  refine forall_mem_append.mpr ⟨?_, forall_mem_map.mpr fun item _ => ?_⟩
  · split
    · exact Construction.constructCustom_wellFormed _
    · exact Construction.construct_wellFormed _ (.new (.identifier _) (forall_mem_nil _))
  · exact Attribute.setter_wellFormed

end Element

/-! ### The walk -/

namespace Walk

variable {w : Walk}

/-- **What a walk has written can be printed.** -/
structure Printable (w : Walk) : Prop where
  nodes : ∀ n ∈ w.draft.nodes, WellFormed .statement n
  callbacks : ∀ n ∈ w.callbacks, WellFormed .statement n
  registrations : ∀ n ∈ w.registrations, WellFormed .statement n
  customModules : ∀ n ∈ w.customModules, WellFormed .property n

/-- **The module of a walk whose code can be printed.** -/
theorem Printable.print_ok (h : Printable w) (options : Options) (component : Text) :
    ∃ text, Script.print (Module.programOf options component w) = .ok text := by
  refine Script.print_ok (forall_mem_append.mpr ⟨forall_mem_append.mpr
    ⟨forall_mem_append.mpr ⟨?_, h.registrations⟩, h.callbacks⟩, ?_⟩)
  · refine (letStatement .require).cons ?_
    split
    · exact forall_mem_nil _
    · refine .single (.declaration _ (.single (.declarator (.parts ?_) fun e he => ?_)))
      · exact forall_mem_map.mpr fun tag _ => .abbreviated _ _ _
      · cases he
        exact .require
  · have hroot := Construction.element_wellFormed options.settings 0
    have hstyle : WellFormed .expression (.identifier "resolvedCssModuleName") := .identifier _
    have hbody : ∀ n ∈ [Node.letStatement "customModules" (.object w.customModules)] ++
        w.draft.nodes ++ [.expressionStatement (.logical .and (.identifier "resolvedCssModuleName")
          (.callOf (.memberNamed (Construction.element options.settings 0) "addCssFile")
            [.identifier "resolvedCssModuleName"])),
          .returnStatement (some (Construction.element options.settings 0))],
        WellFormed .statement n := by
      refine forall_mem_append.mpr ⟨forall_mem_append.mpr ⟨?_, h.nodes⟩, ?_⟩
      · exact (letStatement (.object h.customModules)).single
      · refine (expressionStatement (.logical rfl hstyle
          ((hroot.memberNamed _).callOf hstyle.item.single))).cons (single ?_)
        refine .returnStatement fun e he => ?_
        cases he
        exact hroot
    refine WellFormed.cons ?_ (single ?_)
    · exact .exportStatement rfl (.classDeclaration _ (.single (.method _
        (WellFormed.default _ .null).single (.block hbody))))
    · exact ((WellFormed.identifier _).memberNamed _).assign (.boolean true)

end Walk

end ViewMarkup
