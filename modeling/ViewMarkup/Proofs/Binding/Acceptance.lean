import ViewMarkup.Proofs.Binding.Callbacks
import ViewMarkup.Report.Cause

/-!
# Which bindings are accepted

A binding is compiled just if it is written in the language of bindings, and how it is refused says
which rule it breaks.

* `Within` finds every node of an expression, with the part that it plays for the node around it.
* `allowed_iff` and `mem_uses_iff` say what the checks see, in terms of the nodes within an expression.
* `Piped` takes the converters apart, along the left operands.
* `describe_accepts` says which bindings are compiled, which are refused and why, and which are two-way.
-/

namespace ViewMarkup

open List

namespace Text

variable {t : Text}

/-- A text is cut at the first occurrence of a mark. -/
def FirstCut (mark t before rest : Text) : Prop :=
  t = before ++ mark ++ rest ∧
    ∀ before' rest', t = before' ++ mark ++ rest' → before.length ≤ before'.length

/-- If a mark occurs, the text is cut, and not later. -/
theorem exists_cut? {mark before' rest' : Text} (h : t = before' ++ mark ++ rest') :
    ∃ before rest, cut? mark t = some (before, rest) ∧ before.length ≤ before'.length := by
  induction t generalizing before' with
  | nil =>
    obtain ⟨hbefore, -⟩ := append_eq_nil_iff.mp h.symm
    obtain ⟨rfl, rfl⟩ := append_eq_nil_iff.mp hbefore
    exact ⟨[], [], rfl, Nat.le_refl 0⟩
  | cons c t ih =>
    rw [cut?]
    cases hafter : after? mark (c :: t) with
    | some rest => exact ⟨[], rest, rfl, Nat.zero_le _⟩
    | none =>
      cases before' with
      | nil => cases hafter.symm.trans (after?_eq_some_iff.mpr h)
      | cons c' before' =>
        obtain ⟨rfl, htail⟩ := cons.inj h
        obtain ⟨before, rest, hcut, hle⟩ := ih htail
        exact ⟨c :: before, rest, by rw [hcut]; rfl, Nat.succ_le_succ hle⟩

/-- **A cut is made at the first occurrence.** -/
theorem cut?_eq_some_iff {mark before rest : Text} :
    cut? mark t = some (before, rest) ↔ FirstCut mark t before rest := by
  constructor
  · intro h
    refine ⟨cut?_append h, fun before' rest' h' => ?_⟩
    obtain ⟨_, _, hcut, hle⟩ := exists_cut? h'
    cases h.symm.trans hcut
    exact hle
  · rintro ⟨h, hleast⟩
    obtain ⟨before', rest', hcut, hle⟩ := exists_cut? h
    have heq := cut?_append hcut
    have hlength : before.length = before'.length := Nat.le_antisymm (hleast _ _ heq) hle
    rw [h, append_assoc, append_assoc] at heq
    obtain ⟨rfl, hrest⟩ := append_inj heq hlength
    rw [hcut, append_cancel_left hrest]

theorem trim_eq_nil_iff : t.trim = [] ↔ ∀ c ∈ t, c.isBlank = true := by
  rw [trim, trimEnd, reverse_eq_nil_iff, dropWhile_eq_nil_iff, trimStart]
  constructor
  · intro h c hc
    rw [← takeWhile_append_dropWhile (p := CodePoint.isBlank) (l := t), mem_append] at hc
    rcases hc with hc | hc
    · exact mem_takeWhile_imp hc
    · exact h c (mem_reverse.mpr hc)
  · intro h c hc
    exact h c (dropWhile_sublist _ |>.subset (mem_reverse.mp hc))

end Text

namespace Binding

open Script (Node parse)

variable {u : Use} {value inside : Text}

/-! ### The nodes of an expression -/

/-- What a node is for the node around it. -/
inductive Part where
  /-- It is evaluated. -/
  | value
  /-- It is evaluated, and a part of what it comes to is taken. -/
  | object
  /-- It only names something. -/
  | label
  deriving DecidableEq

/-- The nodes directly in an expression. -/
def parts : Node → List (Part × Node)
  | .member object key computed _ =>
    [(.object, object), (if computed then .value else .label, key)]
  | .property key value computed _ =>
    [(if computed then .value else .label, key), (.value, value)]
  | .call callee args _ | .new callee args => (callee :: args).map (.value, ·)
  | .template quasis es => (quasis ++ es).map (.value, ·)
  | .spread argument | .unary _ argument | .update _ argument _ => [(.value, argument)]
  | .array items | .object items | .sequence items | .objectPattern items => items.map (.value, ·)
  | .conditional test consequent alternate =>
    [(.value, test), (.value, consequent), (.value, alternate)]
  | .binary _ left right | .logical _ left right | .assignment _ left right
  | .assignmentPattern left right => [(.value, left), (.value, right)]
  | .arrow params body => (params ++ [body]).map (.value, ·)
  | _ => []

/-- The nodes at all depths of a node that is itself some part.  What stands in a label is never
evaluated. -/
inductive Within : Part → Node → Part → Node → Prop
  | self {part : Part} {e : Node} : Within part e part e
  | inner {part inside last : Part} {e child node : Node} (hchild : (inside, child) ∈ parts e)
      (h : Within (if part = .label then .label else inside) child last node) : Within part e last node

/-- The kinds of nodes that a binding may hold; an element left out is none. -/
def isAllowedKind : Node → Bool
  | .array .. | .binary .. | .call .. | .conditional .. | .identifier .. | .string .. | .number ..
  | .boolean .. | .null | .template .. | .logical .. | .member .. | .new .. | .object ..
  | .property .. | .spread .. | .templateElement .. | .unary .. | .hole => true
  | _ => false

variable {e node child : Node} {part last : Part}

theorem sizeOf_lt_of_mem_parts (h : (part, child) ∈ parts e) : sizeOf child < sizeOf e := by
  have hlist {nodes : List Node} (h : child ∈ nodes) : sizeOf child < sizeOf nodes :=
    sizeOf_lt_of_mem h
  cases e <;> simp only [parts, mem_cons, mem_map, mem_append, Prod.mk.injEq,
    not_mem_nil, or_false] at h <;> grind

theorem allowedAll_iff {nodes : List Node} :
    allowedAll nodes = true ↔ ∀ n ∈ nodes, allowed n = true := by
  induction nodes with
  | nil => simp [allowedAll]
  | cons n nodes ih => simp [allowedAll, ih]

/-- An expression is allowed if its kind and its parts are. -/
theorem allowed_parts :
    allowed e = true ↔ isAllowedKind e = true ∧ ∀ p ∈ parts e, allowed p.2 = true := by
  cases e <;> simp [allowed, isAllowedKind, parts, allowedAll_iff, or_imp, forall_and, and_assoc]

/-- **What is allowed has only nodes of allowed kinds.** -/
theorem allowed_iff (e : Node) (part : Part) :
    allowed e = true ↔ ∀ last node, Within part e last node → isAllowedKind node = true := by
  constructor
  · intro h last node hnode
    induction hnode with
    | self => exact (allowed_parts.mp h).1
    | inner hchild _ ih => exact ih ((allowed_parts.mp h).2 _ hchild)
  · intro h
    refine allowed_parts.mpr ⟨h _ _ .self, fun p hp => ?_⟩
    have := sizeOf_lt_of_mem_parts hp
    exact (allowed_iff p.2 (if part = .label then .label else p.1)).mpr fun last node hnode =>
      h last node (.inner hp hnode)
termination_by sizeOf e

/-- A part of an expression refers to something; `$parents` with a key after it does not count. -/
def Refers (u : Use) (p : Part × Node) : Prop :=
  p.1 ≠ .label ∧ ¬ (p.1 = .object ∧ isParents p.2 = true) ∧ u ∈ uses p.2

@[simp] theorem refers_value (u : Use) : Refers u (.value, node) ↔ u ∈ uses node := by
  simp [Refers]

/-- What an expression refers to, keys after `$parents` apart, is what its parts refer to. -/
theorem mem_uses_parts (hu : ∀ key, u ≠ .parents key) (hkind : isAllowedKind e = true)
    (hname : ∀ name, e ≠ .identifier name) : u ∈ uses e ↔ ∃ p ∈ parts e, Refers u p := by
  cases e with
  | member object key computed optional =>
    cases computed <;> cases hparents : isParents object <;> simp [uses, parts, Refers, hparents, hu]
  | property key value computed shorthand => cases computed <;> simp [uses, parts, Refers]
  | identifier name => exact absurd rfl (hname name)
  | _ => simp_all [uses, parts, usesAll_eq_flatMap, isAllowedKind, or_and_right, exists_or]

/-- **What an expression refers to** is what the names within it refer to. -/
theorem refers_iff (hu : ∀ key, u ≠ .parents key) (e : Node) (hallowed : allowed e = true)
    (part : Part) : Refers u (part, e) ↔
      ∃ last name, Within part e last (.identifier name) ∧ Refers u (last, .identifier name) := by
  constructor
  · intro h
    by_cases hname : ∃ name, e = .identifier name
    · obtain ⟨name, rfl⟩ := hname
      exact ⟨part, name, .self, h⟩
    · obtain ⟨hkind, hparts⟩ := allowed_parts.mp hallowed
      obtain ⟨p, hp, hrefers⟩ :=
        (mem_uses_parts hu hkind fun name heq => hname ⟨name, heq⟩).mp h.2.2
      have := sizeOf_lt_of_mem_parts hp
      obtain ⟨last, name, hwithin, hlast⟩ := (refers_iff hu p.2 (hparts p hp) p.1).mp hrefers
      exact ⟨last, name, .inner hp (by rw [if_neg h.1]; exact hwithin), hlast⟩
  · rintro ⟨last, name, hwithin, hlast⟩
    generalize hnode : Node.identifier name = node at hwithin
    induction hwithin with
    | self => rw [← hnode]; exact hlast
    | @inner part inside last e child node hchild _ ih =>
      obtain ⟨hkind, hparts⟩ := allowed_parts.mp hallowed
      have hrefers := ih (hparts _ hchild) hlast hnode
      have hpart : part ≠ .label := fun heq => hrefers.1 (if_pos heq)
      rw [if_neg hpart] at hrefers
      have hname : ∀ name, e ≠ .identifier name := by
        rintro name rfl
        cases hchild
      refine ⟨hpart, fun hparents => ?_, (mem_uses_parts hu hkind hname).mpr ⟨_, hchild, hrefers⟩⟩
      have hfalse : isParents e = false := by
        unfold isParents
        split
        · exact absurd rfl (hname _)
        · rfl
      cases hfalse.symm.trans hparents.2
termination_by sizeOf e

/-- `$parents` has a key wherever it is evaluated. -/
def ParentsKeyed (e : Node) : Prop :=
  ∀ part, Within .value e part (.identifier parentsName) → part ≠ .value

/-- A name of the view model is evaluated. -/
def Tracks (e : Node) : Prop :=
  ∃ part name, Within .value e part (.identifier name) ∧ part ≠ .label ∧ isSpecial name = false

theorem parentsKeyed_iff (hallowed : allowed e = true) :
    ParentsKeyed e ↔ hasBareParents (uses e) = false := by
  have hrefers := refers_iff (u := .bareParents) nofun e hallowed .value
  have hname : ∀ last name, Refers .bareParents (last, .identifier name) ↔
      last = .value ∧ name = parentsName := by
    intro last name
    cases last <;> by_cases h : name = parentsName <;> by_cases h' : isSpecial name = true <;>
      simp [Refers, isParents, uses, h, h']
  simp only [refers_value, hname] at hrefers
  have hbare : hasBareParents (uses e) = true ↔ Use.bareParents ∈ uses e := by
    rw [hasBareParents, any_eq_true]
    constructor
    · rintro ⟨u, hu, hmatch⟩
      cases u <;> first | exact hu | cases hmatch
    · exact fun h => ⟨_, h, rfl⟩
  rw [← Bool.not_eq_true, hbare, hrefers, ParentsKeyed]
  grind

theorem tracks_iff (hallowed : allowed e = true) : Tracks e ↔ namesOf (uses e) ≠ [] := by
  have hname : ∀ n last name, Refers (.name n) (last, .identifier name) ↔
      last ≠ .label ∧ isSpecial name = false ∧ name = n := by
    intro n last name
    by_cases h : name = parentsName
    · simp [Refers, uses, h, isSpecial]
    · by_cases h' : isSpecial name = true <;> simp [Refers, isParents, uses, h, h', eq_comm]
  have hrefers := fun n => refers_iff (u := .name n) (by simp) e hallowed .value
  simp only [refers_value, hname] at hrefers
  constructor
  · rintro ⟨part, name, hwithin, hpart, hspecial⟩
    have hmem := (hrefers name).mpr ⟨part, name, hwithin, hpart, hspecial, rfl⟩
    exact ne_nil_of_mem (mem_filterMap.mpr ⟨_, hmem, rfl⟩)
  · intro h
    obtain ⟨name, hname⟩ := exists_mem_of_ne_nil _ h
    obtain ⟨u, hu, hmatch⟩ := mem_filterMap.mp hname
    cases u <;> cases hmatch
    obtain ⟨part, name', hwithin, hpart, hspecial, -⟩ := (hrefers name).mp hu
    exact ⟨part, name', hwithin, hpart, hspecial⟩

/-! ### Converters -/

/-- An expression is a value with converters behind it, one after the other. -/
inductive Piped : Node → Node → List Node → Prop
  | bound {e : Node} (h : ∀ left right, e ≠ .binary .bitOr left right) : Piped e e []
  | pipe {left right bound : Node} {converters : List Node} (h : Piped left bound converters) :
      Piped (.binary .bitOr left right) bound (converters ++ [right])

/-- A name, or a chain of accesses that starts at one. -/
inductive Reference : Node → Prop
  | name (name : Text) : Reference (.identifier name)
  | part {object : Node} (h : Reference object) (key : Node) (computed optional : Bool) :
      Reference (.member object key computed optional)

theorem isReference_iff : isReference e = true ↔ Reference e := by
  fun_induction isReference e with
  | case1 object key computed optional ih =>
    rw [ih]
    exact ⟨fun h => .part h _ _ _, fun h => by cases h; assumption⟩
  | case2 name => exact ⟨fun _ => .name name, fun _ => rfl⟩
  | case3 e hmember hname =>
    refine ⟨nofun, fun h => ?_⟩
    cases h with
    | name name => exact absurd rfl (hname name)
    | part h key computed optional => exact absurd rfl (hmember _ _ _ _)

theorem exists_piped (e : Node) : ∃ bound converters, Piped e bound converters := by
  by_cases h : ∃ left right, e = .binary .bitOr left right
  · obtain ⟨left, right, rfl⟩ := h
    obtain ⟨bound, converters, hleft⟩ := exists_piped left
    exact ⟨bound, _, hleft.pipe⟩
  · exact ⟨e, [], .bound fun left right heq => h ⟨left, right, heq⟩⟩
termination_by sizeOf e

variable {bound : Node} {converters : List Node}

/-- Converters are split off if all of them can be converters. -/
theorem Piped.unwrap (h : Piped e bound converters) (value : Text) (later : List Node) :
    unwrap value later e = if converters.all isConverter then .ok (bound, converters ++ later)
      else .error (.converter value) := by
  induction h generalizing later with
  | bound h =>
    rw [Binding.unwrap]
    · rfl
    · exact h
  | @pipe left right bound converters _ ih =>
    rw [Binding.unwrap, all_append, all_cons, all_nil, Bool.and_true]
    split
    · next hright => rw [ih, hright, Bool.and_true, append_assoc, singleton_append]
    · next hright => rw [Bool.not_eq_true _ |>.mp hright, Bool.and_false, if_neg Bool.false_ne_true]

theorem Piped.uses (h : Piped e bound converters) :
    uses e = Binding.uses bound ++ usesAll converters := by
  induction h with
  | bound h => rw [usesAll, append_nil]
  | pipe _ ih =>
    rw [Binding.uses, ih, usesAll_eq_flatMap, usesAll_eq_flatMap, flatMap_append,
      flatMap_singleton, append_assoc]

/-- All converters of an expression can be converters. -/
def Convertible (e : Node) : Prop :=
  ∃ bound converters, Piped e bound converters ∧ ∀ c ∈ converters, isConverter c = true

/-! ### Texts -/

/-- What stands in the first pair of double braces of a text. -/
def Enclosed (value inside : Text) : Prop :=
  ∃ before rest after, Text.FirstCut "\x7b\x7b" value before rest ∧
    Text.FirstCut "\x7d\x7d" rest inside after

/-- The single expression that a text holds in double braces. -/
def Content (value : Text) (e : Node) : Prop :=
  ∃ inside, Enclosed value inside ∧ (∃ c ∈ inside, c.isBlank = false) ∧
    parse inside.trim = .ok [.expressionStatement e]

theorem inner?_eq_some_iff : inner? value = some inside ↔ Enclosed value inside := by
  simp [inner?, Enclosed, Option.bind_eq_some_iff, Text.cut?_eq_some_iff]

theorem Content.unique {e' : Node} (h : Content value e) (h' : Content value e') : e = e' := by
  obtain ⟨inside, hinside, -, hparse⟩ := h
  obtain ⟨inside', hinside', -, hparse'⟩ := h'
  cases (inner?_eq_some_iff.mpr hinside).symm.trans (inner?_eq_some_iff.mpr hinside')
  cases hparse.symm.trans hparse'
  rfl

/-- What is extracted are the contents without the blanks around them. -/
theorem extract_of_enclosed (h : Enclosed value inside) :
    extract value = if ∀ c ∈ inside, c.isBlank = true then .error (.empty value)
      else .ok inside.trim := by
  rw [extract, inner?_eq_some_iff.mpr h]
  simp only [List.isEmpty_iff, Text.trim_eq_nil_iff]

variable {item : Attribute}

/-- What becomes of a single expression. -/
theorem describe_of_content (h : Content item.value e) (hpiped : Piped e bound converters) :
    describe item =
      if allowed e = true then
        if converters.all isConverter = true then
          if hasBareParents (uses e) = true then .error (.bareParents item.value)
          else .ok (descriptorOf item bound converters)
        else .error (.converter item.value)
      else .error (.disallowed item.value) := by
  obtain ⟨inside, hinside, ⟨c, hc, hblank⟩, hparse⟩ := h
  have hextract : extract item.value = .ok inside.trim := by
    rw [extract_of_enclosed hinside, if_neg fun h => by cases hblank.symm.trans (h c hc)]
  have hsingle : single inside.trim item.value = .ok e := by rw [single, hparse]
  simp only [describe, hextract, hsingle, bind, Except.bind, hpiped.unwrap, append_nil]
  cases allowed e <;> cases converters.all isConverter
  · rfl
  · rfl
  · rfl
  · rw [hpiped.uses]
    cases hbare : hasBareParents (uses bound ++ usesAll converters) <;>
      simp only [Bool.not_true, Bool.false_eq_true, if_false, if_true, hbare] <;> rfl

/-- A text without a single expression is not well-formed. -/
theorem describe_of_no_content (h : ∀ e, ¬ Content item.value e) :
    ∃ fault, describe item = .error fault ∧ fault.isSemantic = false ∧ ∀ cause,
      fault = .expression cause → ∃ inside, Enclosed item.value inside ∧ parse inside.trim = .error cause := by
  cases hinner : inner? item.value with
  | none =>
    refine ⟨.missing item.value, ?_, rfl, by simp⟩
    simp [describe, extract, hinner, bind, Except.bind]
  | some inside =>
    have hinside := inner?_eq_some_iff.mp hinner
    have hextract := extract_of_enclosed hinside
    by_cases hblank : ∀ c ∈ inside, c.isBlank = true
    · rw [if_pos hblank] at hextract
      refine ⟨.empty item.value, ?_, rfl, by simp⟩
      simp [describe, hextract, bind, Except.bind]
    · rw [if_neg hblank] at hextract
      have hsingle : ∃ fault, single inside.trim item.value = .error fault ∧
          fault.isSemantic = false ∧ ∀ cause, fault = .expression cause →
            parse inside.trim = .error cause := by
        unfold single
        split
        · next fault hparse => exact ⟨_, rfl, rfl, by rintro _ ⟨⟩; exact hparse⟩
        · next e hparse =>
          refine absurd ⟨inside, hinside, ?_, hparse⟩ (h e)
          simpa using hblank
        · exact ⟨_, rfl, rfl, by simp⟩
      obtain ⟨fault, hfault, hsemantic, hcause⟩ := hsingle
      refine ⟨fault, ?_, hsemantic, fun cause heq => ⟨inside, hinside, hcause cause heq⟩⟩
      simp [describe, hextract, hfault, bind, Except.bind]

/-! ### Bindings -/

/-- Every node of an expression is of a kind that a binding may hold. -/
def AllowedThroughout (e : Node) : Prop :=
  ∀ part node, Within .value e part node → isAllowedKind node = true

theorem convertible_iff (h : Piped e bound converters) :
    Convertible e ↔ converters.all isConverter = true := by
  constructor
  · rintro ⟨bound', converters', h', hall⟩
    have hunwrap := h'.unwrap [] []
    rw [if_pos (all_eq_true.mpr hall), h.unwrap] at hunwrap
    split at hunwrap
    · next hconverters => exact hconverters
    · cases hunwrap
  · exact fun hall => ⟨bound, converters, h, all_eq_true.mp hall⟩

/-- What is compiled is a single expression. -/
theorem exists_content {d : BindingDescriptor} (h : describe item = .ok d) :
    ∃ e bound converters, Content item.value e ∧ Piped e bound converters := by
  by_cases hcontent : ∃ e, Content item.value e
  · obtain ⟨e, hcontent⟩ := hcontent
    obtain ⟨bound, converters, hpiped⟩ := exists_piped e
    exact ⟨e, bound, converters, hcontent, hpiped⟩
  · obtain ⟨fault, hfault, -⟩ := describe_of_no_content fun e he => hcontent ⟨e, he⟩
    cases h.symm.trans hfault

section

variable {d : BindingDescriptor} (h : describe item = .ok d) (hcontent : Content item.value e)
  (hpiped : Piped e bound converters)
include h hcontent hpiped

/-- A compiled binding is made of the expression that the attribute holds. -/
theorem eq_descriptorOf : allowed e = true ∧ d = descriptorOf item bound converters := by
  rw [describe_of_content hcontent hpiped] at h
  split at h
  · next hallowed =>
    split at h <;> [split at h; skip] <;> cases h
    exact ⟨hallowed, rfl⟩
  · cases h

/-- When a compiled binding is two-way. -/
theorem describe_isTwoWay :
    d.isTwoWay = true ↔
      item.isEvent = false ∧ item.isSubProperty = false ∧ Reference bound ∧ Tracks e := by
  have hnone : ∀ names : List Text, (distinct names).isEmpty = true ↔ names = [] := by
    simp [distinct_eq_eraseDups, eq_nil_iff_forall_not_mem]
  obtain ⟨hallowed, rfl⟩ := eq_descriptorOf h hcontent hpiped
  rw [tracks_iff hallowed, hpiped.uses, ← isReference_iff, ne_eq, ← hnone]
  simp [descriptorOf, writesBack, and_assoc]

end

/-- **The language of bindings.**  Unless a code point is out of range, an attribute is compiled just
if its first double braces hold a single expression of allowed kinds, with a name, an access or a call
as each converter, in which `$parents` has a key wherever it is evaluated.  It is refused as not
well-formed just if there is no single expression of allowed kinds, and otherwise because of what it
refers to.  A compiled binding is two-way just if the attribute is a plain property, the value before
the converters is a chain that starts at a name, and some name of the view model is evaluated. -/
theorem describe_accepts (item : Attribute)
    (hrange : ∀ inside, Enclosed item.value inside → parse inside.trim ≠ .error (.escape .outOfRange)) :
    ((∃ d, describe item = .ok d) ↔
      ∃ e, Content item.value e ∧ AllowedThroughout e ∧ Convertible e ∧ ParentsKeyed e) ∧
    ((∃ fault, describe item = .error fault ∧ fault ≠ .expression (.escape .outOfRange) ∧
        (Cause.binding fault).kind = .bindingSyntax) ↔
      ¬ ∃ e, Content item.value e ∧ AllowedThroughout e) ∧
    ((∃ fault, describe item = .error fault ∧ (Cause.binding fault).kind = .bindingSemantic) ↔
      ∃ e, Content item.value e ∧ AllowedThroughout e ∧ ¬ (Convertible e ∧ ParentsKeyed e)) ∧
    ∀ d e bound converters, describe item = .ok d → Content item.value e →
      Piped e bound converters → (d.isTwoWay = true ↔ item.isEvent = false ∧
        item.isSubProperty = false ∧ Reference bound ∧ Tracks e) := by
  rw [← and_assoc, ← and_assoc]
  refine ⟨?_, fun d e bound converters h => describe_isTwoWay h⟩
  by_cases hcontent : ∃ e, Content item.value e
  · obtain ⟨e, hcontent⟩ := hcontent
    obtain ⟨bound, converters, hpiped⟩ := exists_piped e
    have hdescribe := describe_of_content hcontent hpiped
    have honly : ∀ P : Node → Prop, (∃ e', Content item.value e' ∧ P e') ↔ P e := fun P =>
      ⟨fun ⟨_, he', hP⟩ => hcontent.unique he' ▸ hP, fun hP => ⟨e, hcontent, hP⟩⟩
    simp only [honly]
    by_cases hallowed : allowed e = true
    · have hthroughout : AllowedThroughout e := (allowed_iff e .value).mp hallowed
      rw [convertible_iff hpiped, parentsKeyed_iff hallowed]
      cases hall : converters.all isConverter <;> cases hbare : hasBareParents (uses e) <;>
        simp_all [Cause.kind, BindingFault.isSemantic]
    · have hnot : ¬ AllowedThroughout e := mt (allowed_iff e .value).mpr hallowed
      simp_all [Cause.kind, BindingFault.isSemantic]
  · have hnone : ∀ e, ¬ Content item.value e := fun e he => hcontent ⟨e, he⟩
    obtain ⟨fault, hdescribe, hsyntax, hcause⟩ := describe_of_no_content hnone
    have hfault : fault ≠ .expression (.escape .outOfRange) := by
      intro heq
      obtain ⟨inside, hinside, hparse⟩ := hcause _ heq
      exact hrange inside hinside hparse
    simp_all [Cause.kind]

/-- A two-way binding through `$parents` and a converter with an argument. -/
def keyedItem : Attribute :=
  ⟨"text", "text", none, "\x7b\x7b $parents[kind].name | trim(width) \x7d\x7d", false, false, true⟩

theorem describe_accepts_keyedItem :
    ∃ e, Content keyedItem.value e ∧ AllowedThroughout e ∧ Convertible e ∧ ParentsKeyed e := by
  have hinner : inner? keyedItem.value =
      some (Text.ofString " $parents[kind].name | trim(width) ") := by decide
  have hparse : (parse (Text.ofString " $parents[kind].name | trim(width) ").trim).isOk = true := by
    decide +kernel
  have hdescribe : (describe keyedItem).isOk = true := by decide +kernel
  refine (describe_accepts keyedItem ?_).1.mp ?_
  · intro inside hinside herror
    cases (inner?_eq_some_iff.mpr hinside).symm.trans hinner
    rw [herror] at hparse
    cases hparse
  · cases h : describe keyedItem with
    | error fault =>
      rw [h] at hdescribe
      cases hdescribe
    | ok d => exact ⟨d, rfl⟩

end Binding

end ViewMarkup
