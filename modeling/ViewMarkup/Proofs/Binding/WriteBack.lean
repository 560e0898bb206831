import ViewMarkup.Proofs.Binding.Converters

/-!
# Where changes of a view are written

A two-way binding has a function that writes a change of the view back.  The function looks up the
owner of the bound value, and sets the part of it that the binding reads: through the setter of the
owner if there is one, and directly otherwise.

* `steps` are the statements that a function may come to, and `choice?` reads off the two ways of
  writing between which it chooses.
* `Handles` says what a function has to do to write a binding back.
* `callbacks_writeBack`: the functions of a view do so, one for each two-way binding.
-/

namespace ViewMarkup.Binding

open List
open Script (Node functionName?)

/-! ### What a function does -/

mutual

/-- The statements that a function may come to, also in a callback that it hands on.  A choice between
two blocks is one of them. -/
def steps : Node → List Node
  | .function _ _ body => steps body
  | .block body => stepsAll body
  | .ifStatement _ consequent none => steps consequent
  | .tryStatement block finalizer => steps block ++ steps finalizer
  | .expressionStatement (.call _ [_, .arrow _ body] _) => steps body
  | node => [node]

def stepsAll : List Node → List Node
  | [] => []
  | node :: rest => steps node ++ stepsAll rest

end

/-- A way of writing to a part of a named object. -/
inductive Write where
  /-- The setter of the object is called. -/
  | setter (owner : Text) (key value : Node)
  /-- The part is assigned to. -/
  | direct (owner : Text) (key : Node) (computed : Bool) (value : Node)

/-- The name of the object written to. -/
def Write.owner : Write → Text
  | setter owner _ _ => owner
  | direct owner _ _ _ => owner

/-- What a statement writes. -/
def write? : Node → Option Write
  | .expressionStatement (.call (.member (.identifier owner) (.identifier method) false _)
      [key, value] _) => if method = "set" then some (.setter owner key value) else none
  | .expressionStatement (.assignment .set (.member (.identifier owner) key computed _) value) =>
    some (.direct owner key computed value)
  | _ => none

/-- The two ways of writing between which a statement chooses, with the condition of the first. -/
def choice? : Node → Option (Node × Write × Write)
  | .ifStatement test (.block [first]) (some (.block [second])) => do
    return (test, ← write? first, ← write? second)
  | _ => none

/-- What a statement declares a name to be. -/
def initial? (name : Text) : Node → Option Node
  | .declaration _ [.declarator (.identifier x) (some init)] => if x = name then some init else none
  | _ => none

/-- The key by which a part is set is the one under which it is accessed. -/
inductive Spells : Node → Bool → Node → Prop
  | computed (key : Node) : Spells key true key
  | named (name : Text) : Spells (.identifier name) false (.string name)

/-- The owner has a setter. -/
def hasSetter : Node :=
  .binary .strictEq (.unary .typeOf (.memberNamed (.identifier "owner") "set")) (.string "function")

/-- A function writes a binding back.  It is named by its position, it takes the new value from its
argument and evaluates the owner of the bound value once, and apart from marks on the view it writes
only to the part of that owner that the bound value accesses, in one way or the other. -/
structure Handles (index : Int) (position : Nat) (d : BindingDescriptor) (handler : Node) : Prop where
  name : functionName? handler = some (targetChangeName index position)
  writes : ∀ {item : Attribute}, describe item = .ok d →
    ∃ e bound converters owner key computed optional written value,
      Content item.value e ∧ Piped e bound converters ∧
      qualify bound = .member owner key computed optional ∧ Spells key computed written ∧
      (converters = [] → value = .identifier "value") ∧
      (converters ≠ [] → d.toModel = some (qualify bound, value)) ∧
      (steps handler).filterMap (initial? "value") = [.memberNamed args "value"] ∧
      (steps handler).filterMap (initial? "owner") = [owner] ∧
      (steps handler).filterMap choice? =
        [(hasSetter, .setter "owner" written value, .direct "owner" key computed value)] ∧
      ∀ write ∈ (steps handler).filterMap write?, write.owner = "view"

variable {index : Int} {element : Text} {position : Nat} {d : BindingDescriptor}
  {descriptors : List BindingDescriptor} {handler : Node}

theorem stepsAll_append (first rest : List Node) :
    stepsAll (first ++ rest) = stepsAll first ++ stepsAll rest := by
  induction first with
  | nil => rfl
  | cons node first ih => rw [cons_append, stepsAll, stepsAll, ih, append_assoc]

/-- The declarations of the special names are steps that write nothing. -/
theorem steps_declareScope (descriptors : List BindingDescriptor) :
    stepsAll (declareScope descriptors) = declareScope descriptors ∧
      ∀ node ∈ declareScope descriptors, initial? "value" node = none ∧
        initial? "owner" node = none ∧ choice? node = none ∧ write? node = none := by
  have hlet : ∀ name ∈ [valueName, parentName, parentsName], ∀ init,
      steps (.letStatement name init) = [.letStatement name init] ∧
        initial? "value" (.letStatement name init) = none ∧
        initial? "owner" (.letStatement name init) = none ∧
        choice? (.letStatement name init) = none ∧ write? (.letStatement name init) = none := by
    intro name hname init
    have hnames : ∀ name ∈ [valueName, parentName, parentsName],
        name ≠ "value" ∧ name ≠ "owner" := by decide
    obtain ⟨hvalue, howner⟩ := hnames name hname
    exact ⟨by simp [Node.letStatement, Node.declare, steps], if_neg hvalue, if_neg howner, rfl, rfl⟩
  unfold declareScope
  split
  · dsimp only
    split <;> simp [stepsAll, hlet]
  · simp [stepsAll]

theorem splitTarget?_eq_some {target owner : Node} {key : TargetKey}
    (h : splitTarget? target = some (owner, key)) :
    ∃ part computed optional, target = .member owner part computed optional ∧
      Spells part computed key.expression ∧
      ∀ object, key.access object = .member object part computed false := by
  unfold splitTarget? at h
  split at h
  · next object part computed optional =>
    cases computed with
    | true =>
      cases h
      exact ⟨_, _, _, rfl, .computed _, fun _ => rfl⟩
    | false =>
      rw [if_neg Bool.false_ne_true] at h
      split at h <;> cases h
      exact ⟨_, _, _, rfl, .named _, fun _ => rfl⟩
  · cases h

/-- What is written back: the new value itself, or what the converters make of it. -/
theorem writeBack_value {item : Attribute} {bound : Node} {converters : List Node}
    (h : writesBack item bound converters = true) :
    (converters = [] → (writeBack (descriptorOf item bound converters)).2 = .identifier "value") ∧
      (converters ≠ [] → (descriptorOf item bound converters).toModel =
        some (qualify bound, (writeBack (descriptorOf item bound converters)).2)) := by
  constructor
  · rintro rfl
    simp [writeBack, descriptorOf, qualifyAll]
  · intro hsome
    have hnonempty : (qualifyAll converters).isEmpty = false := by
      rw [qualifyAll_eq_map]
      simpa using hsome
    simp [writeBack, descriptorOf, h, hnonempty]

/-- The statement that sets a part of the owner. -/
def setPart (key : TargetKey) (value : Node) : Node :=
  .ifStatement hasSetter
    (.block [statement (.callOf (.memberNamed (.identifier "owner") "set") [key.expression, value])])
    (some (.block [.assign (key.access (.identifier "owner")) value]))

/-- The steps of the function that writes a binding back. -/
theorem targetChangeFunction?_steps (h : targetChangeFunction? index position d = some handler) :
    functionName? handler = some (targetChangeName index position) ∧
      ∃ owner key, splitTarget? (writeBack d).1 = some (owner, key) ∧ steps handler =
        [.letStatement "view" (.memberNamed args "object"), .returnStatement none,
          .assign (.memberNamed view updatingFlag) (.boolean true),
          .assign (.memberNamed view targetPropertyFlag) (.string d.propertyName)] ++
        (declareScope [d] ++ [.letStatement "value" (.memberNamed args "value"),
          .letStatement "owner" owner, setPart key (writeBack d).2]) ++
        [.assign (.memberNamed view updatingFlag) (.boolean false),
          .assign (.memberNamed view targetPropertyFlag) .null] := by
  obtain ⟨⟨owner, key⟩, hsplit, rfl⟩ := Option.map_eq_some_iff.mp h
  refine ⟨rfl, owner, key, hsplit, ?_⟩
  simp [steps, stepsAll, stepsAll_append, (steps_declareScope [d]).1, statement, runtimeCall,
    Node.callOf, sourceCallback, Node.letStatement, Node.declare, Node.assign, setPart, hasSetter]
  rfl

/-- **The function for a two-way binding writes it back.** -/
theorem targetChangeFunction?_handles (htwoWay : d.isTwoWay = true)
    (h : targetChangeFunction? index position d = some handler) :
    Handles index position d handler := by
  obtain ⟨hname, owner, key, hsplit, hsteps⟩ := targetChangeFunction?_steps h
  refine ⟨hname, fun hdescribe => ?_⟩
  obtain ⟨e, bound, converters, hcontent, hpiped⟩ := exists_content hdescribe
  obtain ⟨part, computed, optional, htarget, hspells, haccess⟩ := splitTarget?_eq_some hsplit
  obtain ⟨-, hd⟩ := eq_descriptorOf hdescribe hcontent hpiped
  have hwrites : writesBack _ bound converters = true :=
    (congrArg BindingDescriptor.isTwoWay hd).symm.trans htwoWay
  obtain ⟨hplain, hconverted⟩ := writeBack_value hwrites
  have hbound := writeBack_descriptorOf hwrites
  rw [← hd] at hplain hconverted hbound
  have hchoice : choice? (setPart key (writeBack d).2) = some (hasSetter,
      .setter "owner" key.expression (writeBack d).2, .direct "owner" part computed (writeBack d).2) := by
    rw [setPart, haccess, memberNamed_of_isWord (by decide)]
    rfl
  have hmark : ∀ flag value write, write? (.assign (.memberNamed view flag) value) = some write →
      write.owner = "view" := by
    intro flag value write hwrite
    rw [Node.memberNamed, Node.accessNamed] at hwrite
    split at hwrite <;> cases hwrite <;> rfl
  -- The declarations of the special names are passed over by all readings.
  have hscope := (steps_declareScope [d]).2
  have hpass : ∀ {α : Type} {read : Node → Option α},
      (∀ node ∈ declareScope [d], read node = none) → (declareScope [d]).filterMap read = [] :=
    filterMap_eq_nil_iff.mpr
  refine ⟨e, bound, converters, owner, part, computed, optional, key.expression, (writeBack d).2,
    hcontent, hpiped, hbound ▸ htarget, hspells, hplain, hconverted, ?_, ?_, ?_, ?_⟩ <;>
    rw [hsteps] <;> simp only [filterMap_append]
  · rw [hpass fun node hnode => (hscope node hnode).1]
    rfl
  · rw [hpass fun node hnode => (hscope node hnode).2.1]
    rfl
  · rw [hpass fun node hnode => (hscope node hnode).2.2.1]
    simp only [filterMap_cons, hchoice]
    rfl
  · rw [hpass fun node hnode => (hscope node hnode).2.2.2]
    have hlet : ∀ name init, write? (.letStatement name init) = none := fun _ _ => rfl
    have hset : write? (setPart key (writeBack d).2) = none := rfl
    have hreturn : write? (.returnStatement none) = none := rfl
    simp only [mem_append, mem_filterMap, mem_cons, not_mem_nil, or_false,
      exists_eq_or_imp, exists_eq_left, hlet, hset, hreturn, reduceCtorEq, false_or, or_assoc]
    rintro write (h | h | h | h) <;> exact hmark _ _ _ h

/-- The functions and the subscriptions of two-way bindings, in order. -/
theorem targetCallbacks?_handles {c : Callbacks} (h : ∀ d ∈ descriptors, d.isTwoWay = true)
    (hc : targetCallbacks? index element position descriptors = some c) :
    List.Forall₂ (fun (d, i) => Handles index i d) (descriptors.zipIdx position) c.declarations ∧
      c.attach = (descriptors.zipIdx position).map fun (d, i) =>
        subscribe element (d.propertyName ++ "Change") (targetChangeName index i) := by
  induction descriptors generalizing position c with
  | nil =>
    cases hc
    exact ⟨.nil, rfl⟩
  | cons d rest ih =>
    obtain ⟨hd, hrest⟩ := forall_mem_cons.mp h
    obtain ⟨declaration, hdeclaration, hc⟩ := Option.bind_eq_some_iff.mp hc
    obtain ⟨following, hfollowing, hc⟩ := Option.bind_eq_some_iff.mp hc
    cases hc
    obtain ⟨hhandles, hattach⟩ := ih hrest hfollowing
    rw [zipIdx_cons, map_cons, hattach]
    exact ⟨.cons (targetChangeFunction?_handles hd hdeclaration) hhandles, rfl⟩

/-- **Changes are written where the binding reads.**  Besides the two functions for all its bindings, a
view has one function for each two-way binding, numbered in order, which is subscribed to the change of
the property and writes the binding back. -/
theorem callbacks_writeBack {c : Callbacks} (hc : callbacks? index element descriptors = some c) :
    ∃ handlers,
      c.declarations = (if descriptors.isEmpty then [] else
        [updateFunction index descriptors, contextChangeFunction index descriptors]) ++ handlers ∧
      List.Forall₂ (fun (d, i) => Handles index i d)
        (descriptors.filter fun d => d.isTwoWay).zipIdx handlers ∧
      c.attach = (if descriptors.isEmpty then [] else
          [subscribe element "bindingContextChange" (contextChangeName index)]) ++
        (descriptors.filter fun d => d.isTwoWay).zipIdx.map fun (d, i) =>
          subscribe element (d.propertyName ++ "Change") (targetChangeName index i) := by
  unfold callbacks? at hc
  split at hc
  · next hempty =>
    cases hc
    rw [isEmpty_iff.mp hempty]
    exact ⟨[], rfl, .nil, rfl⟩
  · next hempty =>
    obtain ⟨twoWay, htwoWay, hc⟩ := Option.bind_eq_some_iff.mp hc
    cases hc
    obtain ⟨hhandles, hattach⟩ := targetCallbacks?_handles
      (fun d hd => (mem_filter.mp hd).2) htwoWay
    rw [if_neg hempty, if_neg hempty]
    exact ⟨twoWay.declarations, rfl, hhandles, congrArg _ hattach⟩

theorem callbacks_writeBack_alone :
    ∃ d c handler, describe (boundText "\x7b\x7b user[kind].name | trim(width) \x7d\x7d") = .ok d ∧
      callbacks? 0 "el0" [d] = some c ∧ handler ∈ c.declarations ∧ Handles 0 0 d handler := by
  obtain ⟨d, c, hdescribe, hc, htwoWay⟩ := @exists_alone
    "\x7b\x7b user[kind].name | trim(width) \x7d\x7d" (fun d _ => d.isTwoWay) (by decide +kernel)
  obtain ⟨handlers, hdeclarations, hhandles, -⟩ := callbacks_writeBack hc
  rw [filter_cons_of_pos htwoWay, filter_nil] at hhandles
  cases hhandles with
  | cons hhandler hrest =>
    refine ⟨d, c, _, hdescribe, hc, ?_, hhandler⟩
    rw [hdeclarations]
    exact mem_append_right _ mem_cons_self

end ViewMarkup.Binding
