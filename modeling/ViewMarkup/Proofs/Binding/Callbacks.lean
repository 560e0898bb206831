import ViewMarkup.Binding.Callbacks
import ViewMarkup.Proofs.Binding.Substitution
import ViewMarkup.Proofs.Script.WellFormed

/-!
# The functions of bindings can be printed

The expressions of a compiled binding are readable, and the functions around them are put together
from well-formed parts.

* `describe_sound` is about what is in a descriptor.
* `callbacks?_wellFormed` is about the functions of a view and the statements that subscribe them.
* `callbacks?_eq_none`: there are none only if a two-way binding cannot be written back, and
  `describe_unwritable` says which bindings those are.
-/

namespace ViewMarkup.Binding

open List
open Script.WellFormed (item letStatement assign)
open Script (Node Readable Place ArePieces WellFormed)

variable {item : Attribute} {d : BindingDescriptor} {index : Int} {position : Nat} {element : Text}
  {callbacks : Callbacks} {descriptors : List BindingDescriptor} {bound : Node}

/-! ### Descriptors -/

/-- The key of a reference to `$parents` has a property. -/
def Use.Keyed (P : Node → Prop) : Use → Prop
  | .parents key => P key
  | _ => True

variable {P : Node → Prop}

theorem usesAll_eq_flatMap (nodes : List Node) : usesAll nodes = nodes.flatMap uses := by
  induction nodes with
  | nil => rw [usesAll, flatMap_nil]
  | cons node rest ih => rw [usesAll, ih, flatMap_cons]

theorem keyed_usesAll {nodes : List Node}
    (h : ∀ e ∈ nodes, allowed e = true → ∀ u ∈ uses e, u.Keyed P)
    (hallowed : allowedAll nodes = true) : ∀ u ∈ usesAll nodes, u.Keyed P := by
  intro u hu
  rw [usesAll_eq_flatMap] at hu
  obtain ⟨e, he, hu⟩ := mem_flatMap.mp hu
  exact h e he (allowed_of_mem hallowed he) u hu

theorem keyed_identifier {name : Text} : ∀ u ∈ uses (.identifier name), u.Keyed P := by
  intro u hu
  rw [uses] at hu
  split at hu
  · cases mem_singleton.mp hu
    trivial
  · split at hu <;> (cases mem_singleton.mp hu; trivial)

/-- An access may be one to `$parents`, whose key counts. -/
theorem keyed_member {object key : Node} {computed optional : Bool}
    (hobject : ∀ u ∈ uses object, u.Keyed P) (hkey : computed = true → ∀ u ∈ uses key, u.Keyed P)
    (hparents : P (parentsKey key computed)) :
    ∀ u ∈ uses (.member object key computed optional), u.Keyed P := by
  refine forall_mem_append.mpr ⟨forall_mem_append.mpr ⟨?_, ?_⟩, ?_⟩
  · split
    · exact nofun
    · exact hobject
  · split
    · next hcomputed => exact hkey hcomputed
    · exact nofun
  · split
    · exact forall_mem_singleton.mpr hparents
    · exact nofun

theorem usesAll_pieces {n : Nat} {quasis : List Node} (h : ArePieces n quasis) :
    usesAll quasis = [] := by
  induction h with
  | last h => rfl
  | cons h _ ih =>
    rw [usesAll, ih, uses]
    · rfl
    all_goals nofun

/-- **The keys after `$parents`** are strings, or they are expressions moved under the view model. -/
theorem keyed_uses (hstring : ∀ value, P (.string value))
    (hmoved : ∀ {arrows : Bool} {key : Node}, Readable arrows .expression key →
      allowed key = true → P (qualify key))
    {arrows : Bool} {place : Place} {e : Node} (h : Readable arrows place e)
    (hallowed : allowed e = true) : ∀ u ∈ uses e, u.Keyed P := by
  induction h with
  | identifier h => exact keyed_identifier
  | string value | number h | boolean value | null | hole => rw [uses] <;> nofun
  | this | update _ _ _ _ | assignment _ _ _ _ _ _ | sequence _ _ _ | arrow _ _ _ => cases hallowed
  | template hquasis _ ih =>
    rw [allowed, Bool.and_eq_true] at hallowed
    rw [uses, usesAll_pieces hquasis]
    exact keyed_usesAll ih hallowed.2
  | array _ ih | object _ ih =>
    rw [allowed] at hallowed
    rw [uses]
    exact keyed_usesAll ih hallowed
  | part _ hname ih =>
    rw [allowed, Bool.and_eq_true] at hallowed
    exact keyed_member (ih hallowed.1) nofun (hstring _)
  | index _ hkey ihobject ihkey =>
    rw [allowed, Bool.and_eq_true] at hallowed
    exact keyed_member (ihobject hallowed.1) (fun _ => ihkey hallowed.2)
      (hmoved hkey hallowed.2)
  | call _ _ ihcallee ihargs | new _ _ ihcallee ihargs =>
    rw [allowed, Bool.and_eq_true] at hallowed
    rw [uses]
    exact forall_mem_append.mpr ⟨ihcallee hallowed.1, keyed_usesAll ihargs hallowed.2⟩
  | conditional _ _ _ ihtest ihconsequent ihalternate =>
    rw [allowed, Bool.and_eq_true, Bool.and_eq_true] at hallowed
    rw [uses]
    exact forall_mem_append.mpr ⟨forall_mem_append.mpr
      ⟨ihtest hallowed.1.1, ihconsequent hallowed.1.2⟩, ihalternate hallowed.2⟩
  | binary _ _ _ _ ihleft ihright | logical _ _ _ _ ihleft ihright =>
    rw [allowed, Bool.and_eq_true] at hallowed
    rw [uses]
    exact forall_mem_append.mpr ⟨ihleft hallowed.1, ihright hallowed.2⟩
  | unary _ _ ih | spread _ ih | rest _ ih =>
    rw [allowed] at hallowed
    rw [uses]
    exact ih hallowed
  | argument _ ih => exact ih hallowed
  | element _ ih => exact ih hallowed
  | named _ _ ih =>
    rw [allowed, Bool.and_eq_true] at hallowed
    rw [uses]
    exact ih hallowed.2
  | computed _ _ ihkey ihvalue =>
    rw [allowed, Bool.and_eq_true] at hallowed
    rw [uses, if_pos rfl]
    exact forall_mem_append.mpr ⟨ihkey hallowed.1, ihvalue hallowed.2⟩
  | abbreviated h =>
    rw [uses]
    exact keyed_identifier

/-- The keys in the descriptor of a binding. -/
theorem describe_keys (hstring : ∀ value, P (.string value))
    (hmoved : ∀ {arrows : Bool} {key : Node}, Readable arrows .expression key →
      allowed key = true → P (qualify key)) (h : describe item = .ok d) :
    ∀ key ∈ d.parentKeys, P key := by
  obtain ⟨bound, converters, haccepts, rfl⟩ := describe_eq_ok h
  obtain ⟨hbound, hconverters⟩ := haccepts.bindable
  intro key hkey
  obtain ⟨u, hu, hkey⟩ := mem_filterMap.mp hkey
  have hkeyed : u.Keyed P := by
    rcases mem_append.mp hu with hu | hu
    · exact keyed_uses hstring hmoved hbound.1 hbound.2 u hu
    · rw [usesAll_eq_flatMap] at hu
      obtain ⟨e, he, hu⟩ := mem_flatMap.mp hu
      exact keyed_uses hstring hmoved (hconverters e he).1 (hconverters e he).2 u hu
  cases u with
  | parents k =>
    cases hkey
    exact hkeyed
  | name _ => cases hkey
  | special => cases hkey
  | bareParents => cases hkey

/-- What is in a descriptor can be printed. -/
structure Sound (d : BindingDescriptor) : Prop where
  expression : WellFormed .expression d.expression
  keys : ∀ key ∈ d.parentKeys, WellFormed .expression key
  target : WellFormed .expression (writeBack d).1
  value : WellFormed .expression (writeBack d).2

/-- **What is in the descriptor of a binding can be printed.** -/
theorem describe_sound (h : describe item = .ok d) : Sound d := by
  have hexpression := readable_expression h
  have hkeys := describe_keys .string readable_qualify h
  obtain ⟨bound, converters, haccepts, rfl⟩ := describe_eq_ok h
  obtain ⟨hbound, hconverters⟩ := haccepts.bindable
  have htarget := readable_qualify hbound.1 hbound.2
  have hvalue : Readable false .expression (.identifier "value") :=
    .identifier ⟨by decide, by decide, by decide⟩
  have hback : Readable false .expression
      ((qualifyAll converters).reverse.foldl (convert true) (.identifier "value")) := by
    refine readable_foldl_convert hvalue fun c hc => ?_
    rw [qualifyAll_eq_map] at hc
    obtain ⟨e, he, rfl⟩ := mem_map.mp (mem_reverse.mp hc)
    exact readable_qualify (hconverters e he).1 (hconverters e he).2
  refine ⟨.readable hexpression, fun key hkey => .readable (hkeys key hkey), ?_, ?_⟩
  · unfold writeBack descriptorOf
    split
    · exact .readable htarget
    · exact .readable hexpression
  · unfold writeBack descriptorOf
    split
    · exact .readable hback
    · exact .identifier _

/-! ### Functions -/

section Functions

variable {nodes : List Node} {owner value : Node} {d : BindingDescriptor}
  {descriptors : List BindingDescriptor}

theorem runtimeCall_wellFormed {method : Text} (h : ∀ n ∈ nodes, WellFormed .item n) :
    WellFormed .expression (runtimeCall method nodes) :=
  ((WellFormed.identifier _).memberNamed method).callOf h

theorem view_wellFormed : WellFormed .expression view :=
  .identifier _

theorem args_wellFormed : WellFormed .expression args :=
  .identifier _

theorem walkPath_wellFormed {segments : List Text} {linked : Bool}
    (h : WellFormed .expression owner) :
    WellFormed .expression (walkPath owner linked segments).1 := by
  fun_induction walkPath owner linked segments with
  | case1 => exact h
  | case2 => exact h
  | case3 owner linked segment rest _ ih => exact ih h.accessNamed

theorem declareScope_wellFormed (h : ∀ d ∈ descriptors, Sound d) :
    ∀ n ∈ declareScope descriptors, WellFormed .statement n := by
  unfold declareScope
  split
  · refine forall_mem_append.mpr ⟨?_, ?_⟩
    · exact (letStatement (.identifier _)).cons
        (.single (.letStatement (view_wellFormed.memberNamed _).accessNamed))
    · split
      · exact forall_mem_nil _
      · refine .single (.letStatement (runtimeCall_wellFormed ?_))
        refine view_wellFormed.item.cons (.single (.item (.array fun key hkey => .item ?_)))
        obtain ⟨d, hd, hkey⟩ := mem_flatMap.mp hkey
        exact (h d hd).keys key hkey
  · exact forall_mem_nil _

theorem apply_wellFormed (h : WellFormed .expression value) :
    WellFormed .statement (apply d value) := by
  unfold apply
  split
  · exact .expressionStatement (runtimeCall_wellFormed
      (view_wellFormed.item.cons ((item (.string _)).cons h.item.single)))
  · split
    · have howner : WellFormed .expression (splitPath view d.propertyName).1 :=
        walkPath_wellFormed view_wellFormed
      exact .expressionStatement (.logical rfl howner (runtimeCall_wellFormed
        (howner.item.cons ((item (.string _)).cons h.item.single))))
    · exact .expressionStatement (runtimeCall_wellFormed
        (view_wellFormed.item.cons ((item (.string _)).cons h.item.single)))

theorem guard_wellFormed : WellFormed .expression (guard d) := by
  have hproperty : WellFormed .expression (.identifier "propertyName") := .identifier _
  have htest (names : List Text) {test : Node} (h : WellFormed .expression test) :
      WellFormed .expression (names.foldl (fun test name =>
        .logical .or test (.binary .strictEq (.identifier "propertyName") (.string name))) test) := by
    induction names generalizing test with
    | nil => exact h
    | cons name rest ih => exact ih (.logical rfl h (.binary rfl hproperty (.string name)))
  have hnone : WellFormed .expression (.binary .eq (.identifier "propertyName") .null) :=
    .binary rfl hproperty .null
  have hall := htest d.properties hnone
  unfold guard
  split
  · exact .logical rfl hall (.binary rfl (view_wellFormed.memberNamed _) (.string _))
  · exact hall

theorem sourceCallback_wellFormed (h : ∀ n ∈ nodes, WellFormed .statement n) :
    WellFormed .expression (sourceCallback nodes) :=
  .procedure (.single (.name _)) h

theorem updateFunction_wellFormed (h : ∀ d ∈ descriptors, Sound d) :
    WellFormed .statement (updateFunction index descriptors) := by
  refine .function _ ((WellFormed.name _).cons ((WellFormed.name _).cons
    (WellFormed.default _ .null).single)) (.block (.single (.expressionStatement ?_)))
  refine runtimeCall_wellFormed ((item (.identifier _)).cons
    (item (sourceCallback_wellFormed ?_)).single)
  refine forall_mem_append.mpr ⟨declareScope_wellFormed h, forall_mem_map.mpr ?_⟩
  intro d hd
  exact .ifStatement guard_wellFormed
    (.block (.single (apply_wellFormed (h d hd).expression))) nofun

theorem contextChangeFunction_wellFormed :
    WellFormed .statement (contextChangeFunction index descriptors) := by
  have hold := args_wellFormed.memberNamed "oldValue"
  have hnew := args_wellFormed.memberNamed "value"
  have hupdate : WellFormed .expression (.identifier (updateName index)) := .identifier _
  refine .function _ (.single (.name _)) (.block (forall_mem_append.mpr ⟨?_, ?_⟩))
  · refine (letStatement (args_wellFormed.memberNamed _)).cons
      (WellFormed.cons ?_ (WellFormed.cons ?_ (WellFormed.single ?_)))
    · exact .ifStatement (.binary rfl hold .null) (.block (.single (.expressionStatement
        (runtimeCall_wellFormed (view_wellFormed.item.cons hold.item.single))))) nofun
    · refine .ifStatement (.binary rfl hnew .null) (.block (forall_mem_append.mpr
        ⟨forall_mem_map.mpr fun d _ => ?_, .single (.returnStatement nofun)⟩)) nofun
      refine apply_wellFormed ?_
      split
      · exact .null
      · exact .identifier _
    · exact .expressionStatement (hupdate.callOf (view_wellFormed.item.cons hnew.item.single))
  · refine forall_mem_map.mpr fun name _ => .expressionStatement (runtimeCall_wellFormed ?_)
    exact view_wellFormed.item.cons (hnew.item.cons ((item (.string _)).cons
      hupdate.item.single))

theorem splitTarget?_wellFormed {target : Node} {key : TargetKey}
    (h : splitTarget? target = some (owner, key)) (htarget : WellFormed .expression target) :
    WellFormed .expression owner ∧ WellFormed .expression key.expression ∧
      WellFormed .expression (key.access (.identifier "owner")) := by
  unfold splitTarget? at h
  split at h
  · next object k computed _ =>
    have hobject : WellFormed .expression object := by
      cases htarget with
      | readable hreadable => cases hreadable with
        | part hobject _ => exact .readable hobject
        | index hobject _ => exact .readable hobject
      | part hobject _ _ => exact hobject
      | index hobject _ _ => exact hobject
    split at h
    · next hcomputed =>
      cases h
      have hkey : WellFormed .expression k := by
        cases hcomputed
        cases htarget with
        | readable hreadable => cases hreadable with
          | index _ hkey => exact .readable hkey
        | index _ hkey _ => exact hkey
      exact ⟨hobject, hkey, .index (.identifier _) hkey false⟩
    · split at h
      · cases h
        exact ⟨hobject, .string _, .part (.identifier _) _ false⟩
      · cases h
  · cases h

theorem targetChangeFunction?_wellFormed {function : Node}
    (h : targetChangeFunction? index position d = some function) (hd : Sound d) :
    WellFormed .statement function := by
  obtain ⟨⟨owner, key⟩, hsplit, rfl⟩ := Option.map_eq_some_iff.mp h
  obtain ⟨howner, hkey, haccess⟩ := splitTarget?_wellFormed hsplit hd.target
  have hvalue := hd.value
  have hvariable : WellFormed .expression (.identifier "owner") := .identifier _
  have hsetter := hvariable.memberNamed "set"
  have hupdating := view_wellFormed.memberNamed updatingFlag
  have hproperty := view_wellFormed.memberNamed targetPropertyFlag
  have hbody : ∀ n ∈ declareScope [d] ++ [
      .letStatement "value" (.memberNamed args "value"),
      .letStatement "owner" owner,
      .ifStatement (.binary .ne (.identifier "owner") .null)
        (.block [.ifStatement
          (.binary .strictEq (.unary .typeOf (.memberNamed (.identifier "owner") "set"))
            (.string "function"))
          (.block [statement (.callOf (.memberNamed (.identifier "owner") "set")
            [key.expression, (writeBack d).2])])
          (some (.block [.assign (key.access (.identifier "owner")) (writeBack d).2]))]) none],
      WellFormed .statement n := by
    refine forall_mem_append.mpr ⟨declareScope_wellFormed (forall_mem_singleton.mpr hd), ?_⟩
    refine (letStatement (args_wellFormed.memberNamed _)).cons
      ((letStatement howner).cons (WellFormed.single ?_))
    refine .ifStatement (.binary rfl hvariable .null) (.block (WellFormed.single ?_)) nofun
    refine .ifStatement (.binary rfl (.unary _ hsetter) (.string _))
      (.block (.single (.expressionStatement (hsetter.callOf (hkey.item.cons hvalue.item.single)))))
      fun node hnode => ?_
    cases hnode
    exact .block (.single (.assign haccess hvalue))
  refine .function _ (.single (.name _)) (.block ?_)
  refine (letStatement (args_wellFormed.memberNamed _)).cons
    (WellFormed.cons ?_ ((assign hupdating (.boolean true)).cons
      ((assign hproperty (.string _)).cons (WellFormed.single ?_))))
  · exact .ifStatement hupdating (.block (.single (.returnStatement nofun))) nofun
  · refine .tryStatement (.block (.single (.expressionStatement (runtimeCall_wellFormed
      ((view_wellFormed.memberNamed _).item.cons
        (item (sourceCallback_wellFormed hbody)).single)))))
      (.block ((assign hupdating (.boolean false)).cons
        (assign hproperty .null).single))

theorem subscribe_wellFormed {event name : Text} :
    WellFormed .statement (subscribe element event name) :=
  .expressionStatement (runtimeCall_wellFormed ((item (.identifier _)).cons
    ((item (.string _)).cons (item (.identifier _)).single)))

theorem targetCallbacks?_wellFormed
    (h : targetCallbacks? index element position descriptors = some callbacks)
    (hsound : ∀ d ∈ descriptors, Sound d) :
    (∀ n ∈ callbacks.declarations, WellFormed .statement n) ∧
      ∀ n ∈ callbacks.attach, WellFormed .statement n := by
  induction descriptors generalizing position callbacks with
  | nil =>
    cases h
    exact ⟨nofun, nofun⟩
  | cons d rest ih =>
    obtain ⟨declaration, hdeclaration, h⟩ := Option.bind_eq_some_iff.mp h
    obtain ⟨following, hfollowing, h⟩ := Option.bind_eq_some_iff.mp h
    cases h
    obtain ⟨hd, hrest⟩ := forall_mem_cons.mp hsound
    obtain ⟨hdeclarations, hattach⟩ := ih hfollowing hrest
    exact ⟨(targetChangeFunction?_wellFormed hdeclaration hd).cons hdeclarations,
      subscribe_wellFormed.cons hattach⟩

/-- **The functions of a view and their subscriptions can be printed.** -/
theorem callbacks?_wellFormed (h : callbacks? index element descriptors = some callbacks)
    (hsound : ∀ d ∈ descriptors, Sound d) :
    (∀ n ∈ callbacks.declarations, WellFormed .statement n) ∧
      ∀ n ∈ callbacks.attach, WellFormed .statement n := by
  unfold callbacks? at h
  split at h
  · cases h
    exact ⟨nofun, nofun⟩
  · obtain ⟨twoWay, htwoWay, h⟩ := Option.bind_eq_some_iff.mp h
    cases h
    obtain ⟨hdeclarations, hattach⟩ := targetCallbacks?_wellFormed htwoWay
      fun d hd => hsound d (mem_filter.mp hd).1
    exact ⟨(updateFunction_wellFormed hsound).cons
        (contextChangeFunction_wellFormed.cons hdeclarations),
      subscribe_wellFormed.cons hattach⟩

end Functions

/-! ### Bindings that cannot be written back -/

/-- The binding is two-way, but has no target that can be written to. -/
def Unwritable (d : BindingDescriptor) : Prop :=
  d.isTwoWay = true ∧ splitTarget? (writeBack d).1 = none

theorem targetCallbacks?_eq_none (h : targetCallbacks? index element position descriptors = none) :
    ∃ d ∈ descriptors, splitTarget? (writeBack d).1 = none := by
  induction descriptors generalizing position with
  | nil => cases h
  | cons d rest ih =>
    cases hdeclaration : targetChangeFunction? index position d with
    | none => exact ⟨d, mem_cons_self, Option.map_eq_none_iff.mp hdeclaration⟩
    | some declaration =>
      cases hfollowing : targetCallbacks? index element (position + 1) rest with
      | none =>
        obtain ⟨d, hd, hsplit⟩ := ih hfollowing
        exact ⟨d, mem_cons_of_mem _ hd, hsplit⟩
      | some following =>
        rw [targetCallbacks?, hdeclaration, hfollowing] at h
        cases h

/-- **A view has no functions only if one of its bindings cannot be written back.** -/
theorem callbacks?_eq_none
    (h : callbacks? index element descriptors = none) : ∃ d ∈ descriptors, Unwritable d := by
  unfold callbacks? at h
  split at h
  · cases h
  · have h := Option.bind_eq_none_iff.mp h
    cases htwoWay : targetCallbacks? index element 0 (descriptors.filter (·.isTwoWay)) with
    | none =>
      obtain ⟨d, hd, hsplit⟩ := targetCallbacks?_eq_none htwoWay
      obtain ⟨hd, htwo⟩ := mem_filter.mp hd
      exact ⟨d, hd, htwo, hsplit⟩
    | some twoWay => exact nomatch h twoWay htwoWay

/-- A two-way binding is written back to the bound value. -/
theorem writeBack_descriptorOf {converters : List Node}
    (h : writesBack item bound converters = true) :
    (writeBack (descriptorOf item bound converters)).1 = qualify bound := by
  unfold writeBack descriptorOf
  rw [h, Bool.true_and]
  cases hempty : (qualifyAll converters).isEmpty with
  | false => rfl
  | true =>
    rw [isEmpty_iff.mp hempty]
    rfl

/-- Every reference but a special name can be written to. -/
theorem splitTarget?_qualify (hreference : isReference bound = true)
    (hreadable : Readable true .expression bound) (h : splitTarget? (qualify bound) = none) :
    ∃ name, bound = .identifier name ∧ isSpecial name = true := by
  cases hreadable with
  | @identifier name hname =>
    cases hspecial : isSpecial name with
    | true => exact ⟨name, rfl, hspecial⟩
    | false =>
      rw [qualify, hspecial, if_neg Bool.false_ne_true, memberNamed_of_isWord hname.word] at h
      cases h
  | part _ _ => cases h
  | index _ _ => cases h
  | _ => cases hreference

/-- **The bindings that cannot be written back**: the bound value is a special name, and the binding
counts as two-way because a converter refers to the view model. -/
theorem describe_unwritable (h : describe item = .ok d) (hd : Unwritable d) :
    ∃ name converters, Accepts item (.identifier name) converters ∧ isSpecial name = true ∧
      item.isEvent = false ∧ item.isSubProperty = false ∧ namesOf (usesAll converters) ≠ [] := by
  obtain ⟨bound, converters, haccepts, rfl⟩ := describe_eq_ok h
  obtain ⟨htwo, hsplit⟩ := hd
  have htwo : writesBack item bound converters = true := htwo
  rw [writeBack_descriptorOf htwo] at hsplit
  simp only [writesBack, Bool.and_eq_true, Bool.not_eq_true'] at htwo
  obtain ⟨⟨⟨hevent, hsub⟩, hreference⟩, hnames⟩ := htwo
  obtain ⟨name, rfl, hspecial⟩ := splitTarget?_qualify hreference haccepts.bindable.1.1 hsplit
  refine ⟨name, converters, haccepts, hspecial, hevent, hsub, fun hnone => ?_⟩
  have hown : namesOf (uses (.identifier name)) = [] := by
    rcases uses_special hspecial with huses | huses <;> rw [huses] <;> rfl
  rw [namesOf, filterMap_append] at hnames
  rw [namesOf] at hown hnone
  rw [hown, hnone] at hnames
  cases hnames

end ViewMarkup.Binding
