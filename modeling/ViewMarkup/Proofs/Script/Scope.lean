import ViewMarkup.Script.Node

/-!
# Names in generated code

A declaration introduces its names into the block that it stands in, from the next statement on.
Occurrences that no declaration governs, because they stand before it or outside its block, are
stray.

* `declared` lists the names that are declared anywhere in a tree, one entry for each declaration.
* `strays` lists the stray occurrences.
* `mem_straysIn_append` says what is stray in two rows of statements.
-/

namespace ViewMarkup.Script

open List

variable {object target value : Node} {name : Text} {optional : Bool}

mutual

/-- The names that a pattern binds. -/
def bound : Node → List Text
  | .identifier name => [name]
  | .assignmentPattern left _ => bound left
  | .objectPattern properties => boundAll properties
  | .property _ value _ _ => bound value
  | .spread argument => bound argument
  | _ => []

def boundAll : List Node → List Text
  | [] => []
  | node :: rest => bound node ++ boundAll rest

end

/-- The names that one part of a declaration introduces. -/
def introducedBy : Node → List Text
  | .declarator id _ => bound id
  | _ => []

/-- The names that a statement introduces into the block that it stands in. -/
def introduced : Node → List Text
  | .declaration _ declarators => declarators.flatMap introducedBy
  | _ => []

mutual

/-- The names that are declared in a tree, one entry for each declaration. -/
def declared : Node → List Text
  | .declarator id init => bound id ++ declaredOption init
  | .declaration _ declarators => declaredAll declarators
  | .block body => declaredAll body
  | .ifStatement test consequent alternate =>
    declared test ++ declared consequent ++ declaredOption alternate
  | .returnStatement argument => declaredOption argument
  | .expressionStatement e => declared e
  | .tryStatement block finalizer => declared block ++ declared finalizer
  | .function _ _ body => declared body
  | .method _ _ body => declared body
  | .classDeclaration _ body => declaredAll body
  | .exportDefault declaration => declared declaration
  | .program body => declaredAll body
  | .arrow _ body => declared body
  | .template quasis es => declaredAll quasis ++ declaredAll es
  | .spread argument => declared argument
  | .array items => declaredAll items
  | .property key value _ _ => declared key ++ declared value
  | .object properties => declaredAll properties
  | .member object key _ _ => declared object ++ declared key
  | .call callee args _ => declared callee ++ declaredAll args
  | .new callee args => declared callee ++ declaredAll args
  | .conditional test consequent alternate =>
    declared test ++ declared consequent ++ declared alternate
  | .binary _ left right => declared left ++ declared right
  | .logical _ left right => declared left ++ declared right
  | .unary _ argument => declared argument
  | .update _ argument _ => declared argument
  | .assignment _ left right => declared left ++ declared right
  | .sequence es => declaredAll es
  | .assignmentPattern left right => declared left ++ declared right
  | .objectPattern properties => declaredAll properties
  | _ => []

def declaredAll : List Node → List Text
  | [] => []
  | node :: rest => declared node ++ declaredAll rest

def declaredOption : Option Node → List Text
  | none => []
  | some node => declared node

end

/-- Some occurrences without those that are governed by declarations of the given names. -/
def ungoverned (names occurrences : List Text) : List Text :=
  occurrences.filter fun x => !names.contains x

mutual

/-- The stray occurrences of names in a tree.  The name of a part is no occurrence, nor is the name
that a function or a class is given. -/
def strays : Node → List Text
  | .identifier name => [name]
  | .member object key computed _ => strays object ++ if computed then strays key else []
  | .property key value computed _ => (if computed then strays key else []) ++ strays value
  | .block body => straysIn body
  | .program body => straysIn body
  | .declarator _ init => straysOption init
  | .declaration _ declarators => straysAll declarators
  | .arrow params body => ungoverned (boundAll params) (straysAll params ++ strays body)
  | .function _ params body => ungoverned (boundAll params) (straysAll params ++ strays body)
  | .method _ params body => ungoverned (boundAll params) (straysAll params ++ strays body)
  | .classDeclaration _ body => straysAll body
  | .exportDefault declaration => strays declaration
  | .ifStatement test consequent alternate =>
    strays test ++ strays consequent ++ straysOption alternate
  | .returnStatement argument => straysOption argument
  | .expressionStatement e => strays e
  | .tryStatement block finalizer => strays block ++ strays finalizer
  | .template quasis es => straysAll quasis ++ straysAll es
  | .spread argument => strays argument
  | .array items => straysAll items
  | .object properties => straysAll properties
  | .call callee args _ => strays callee ++ straysAll args
  | .new callee args => strays callee ++ straysAll args
  | .conditional test consequent alternate =>
    strays test ++ strays consequent ++ strays alternate
  | .binary _ left right => strays left ++ strays right
  | .logical _ left right => strays left ++ strays right
  | .unary _ argument => strays argument
  | .update _ argument _ => strays argument
  | .assignment _ left right => strays left ++ strays right
  | .sequence es => straysAll es
  | .assignmentPattern left right => strays left ++ strays right
  | .objectPattern properties => straysAll properties
  | _ => []

def straysAll : List Node → List Text
  | [] => []
  | node :: rest => strays node ++ straysAll rest

def straysOption : Option Node → List Text
  | none => []
  | some node => strays node

/-- The stray occurrences in a row of statements. -/
def straysIn : List Node → List Text
  | [] => []
  | statement :: rest => strays statement ++ ungoverned (introduced statement) (straysIn rest)

end

/-- The name of a function that a statement declares. -/
def functionName? : Node → Option Text
  | .function (.identifier name) _ _ => some name
  | _ => none

/-- The names of the functions that statements declare, one entry for each declaration. -/
def functionNames (nodes : List Node) : List Text :=
  nodes.filterMap functionName?

/-- A function that does not refer to itself. -/
def Selfless (node : Node) : Prop :=
  ∀ name, functionName? node = some name → name ∉ strays node

variable {x : Text} {node : Node} {nodes first rest : List Node}

/-! ### Rows of nodes -/

theorem declaredAll_append :
    declaredAll (first ++ rest) = declaredAll first ++ declaredAll rest := by
  induction first with
  | nil => rfl
  | cons node first ih =>
    rw [cons_append, declaredAll, declaredAll, ih, append_assoc]

theorem mem_straysAll : x ∈ straysAll nodes ↔ ∃ node ∈ nodes, x ∈ strays node := by
  induction nodes with
  | nil => simp [straysAll]
  | cons node nodes ih => simp [straysAll, ih]

theorem mem_ungoverned {names occurrences : List Text} :
    x ∈ ungoverned names occurrences ↔ x ∈ occurrences ∧ x ∉ names := by
  simp [ungoverned]

/-- The names that statements introduce into their block. -/
def introducedIn (nodes : List Node) : List Text :=
  nodes.flatMap introduced

theorem introducedIn_append :
    introducedIn (first ++ rest) = introducedIn first ++ introducedIn rest :=
  flatMap_append

/-- What is stray in two rows of statements, of which the first governs the second. -/
theorem mem_straysIn_append : x ∈ straysIn (first ++ rest) ↔
    x ∈ straysIn first ∨ x ∉ introducedIn first ∧ x ∈ straysIn rest := by
  induction first with
  | nil => simp [straysIn, introducedIn]
  | cons node first ih =>
    simp only [cons_append, straysIn, mem_append, mem_ungoverned, ih, introducedIn,
      flatMap_cons]
    grind

theorem exists_of_mem_straysIn (h : x ∈ straysIn nodes) : ∃ node ∈ nodes, x ∈ strays node := by
  induction nodes with
  | nil => exact nomatch h
  | cons node nodes ih =>
    rcases mem_append.mp h with h | h
    · exact ⟨node, mem_cons_self, h⟩
    · obtain ⟨other, hother, hx⟩ := ih (mem_ungoverned.mp h).1
      exact ⟨other, mem_cons_of_mem _ hother, hx⟩

/-- If no statement introduces a name, its stray occurrences are those of the statements. -/
theorem mem_straysIn_of_notMem (h : x ∉ introducedIn nodes) :
    x ∈ straysIn nodes ↔ x ∈ straysAll nodes := by
  induction nodes with
  | nil => rfl
  | cons node nodes ih =>
    rw [introducedIn, flatMap_cons, mem_append, not_or] at h
    simp only [straysIn, straysAll, mem_append, mem_ungoverned, h.1, not_false_eq_true,
      and_true, ih h.2]

theorem mem_declaredAll : x ∈ declaredAll nodes ↔ ∃ node ∈ nodes, x ∈ declared node := by
  induction nodes with
  | nil => simp [declaredAll]
  | cons node nodes ih => simp [declaredAll, ih]

theorem mem_declared_of_introduced (h : x ∈ introduced node) : x ∈ declared node := by
  cases node with
  | declaration mode declarators =>
    rw [introduced, mem_flatMap] at h
    obtain ⟨declarator, hdeclarator, hx⟩ := h
    rw [declared, mem_declaredAll]
    refine ⟨declarator, hdeclarator, ?_⟩
    cases declarator with
    | declarator id init =>
      rw [declared]
      exact mem_append_left _ hx
    | _ => exact nomatch hx
  | _ => exact nomatch h

/-- What statements introduce into their block is declared in them. -/
theorem mem_declaredAll_of_introducedIn (h : x ∈ introducedIn nodes) : x ∈ declaredAll nodes := by
  obtain ⟨node, hnode, hx⟩ := mem_flatMap.mp h
  exact mem_declaredAll.mpr ⟨node, hnode, mem_declared_of_introduced hx⟩

theorem straysAll_append : straysAll (first ++ rest) = straysAll first ++ straysAll rest := by
  induction first with
  | nil => rfl
  | cons node first ih => rw [cons_append, straysAll, straysAll, ih, append_assoc]

/-! ### Nodes that are built from others -/

@[simp] theorem strays_accessNamed :
    strays (.accessNamed object name optional) = strays object := by
  unfold Node.accessNamed
  split <;> exact append_nil _

@[simp] theorem strays_memberNamed (object : Node) (name : Text) :
    strays (.memberNamed object name) = strays object :=
  strays_accessNamed

@[simp] theorem strays_callOf (callee : Node) (args : List Node) :
    strays (.callOf callee args) = strays callee ++ straysAll args :=
  rfl

@[simp] theorem strays_assign (target value : Node) :
    strays (.assign target value) = strays target ++ strays value := by
  rw [Node.assign, strays, strays]

@[simp] theorem strays_letStatement (name : Text) (init : Node) :
    strays (.letStatement name init) = strays init :=
  append_nil _

@[simp] theorem declared_accessNamed :
    declared (.accessNamed object name optional) = declared object := by
  unfold Node.accessNamed
  split <;> exact append_nil _

@[simp] theorem declared_memberNamed : declared (.memberNamed object name) = declared object :=
  declared_accessNamed

@[simp] theorem declared_callOf (callee : Node) (args : List Node) :
    declared (.callOf callee args) = declared callee ++ declaredAll args :=
  rfl

@[simp] theorem declared_assign :
    declared (.assign target value) = declared target ++ declared value := by
  rw [Node.assign, declared, declared]

@[simp] theorem declared_letStatement (init : Node) :
    declared (.letStatement name init) = name :: declared init :=
  append_nil _

@[simp] theorem introduced_letStatement (name : Text) (init : Node) :
    introduced (.letStatement name init) = [name] :=
  rfl

@[simp] theorem introduced_ifStatement (test consequent : Node) (alternate : Option Node) :
    introduced (.ifStatement test consequent alternate) = [] :=
  rfl

@[simp] theorem introduced_assign : introduced (.assign target value) = [] :=
  rfl

end ViewMarkup.Script
