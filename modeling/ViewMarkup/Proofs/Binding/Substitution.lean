import Mathlib.Data.List.Induction
import ViewMarkup.Proofs.Binding.RoundTrip

/-!
# Moving an expression under the view model is a reversible substitution

Moving an expression puts `viewModel.x` in the place of every name `x` that is read as a value.  In
the result such a root is the only kind of access that is not optional, so it can be told from what
was written, and the substitution can be undone.

* `rootName?` recognizes a root, and `restore` puts the name back in its place.
* `loosen` makes every access and call of an expression optional and spells abbreviated properties
  out: what moving does to an expression apart from the names.
* `valueNames`, `rootNames` and `accessKeys` read an expression from left to right: its names in
  value positions, its roots, and the keys after `$parents`.
* `moved_qualify` says of every allowed expression what moving it does, in one induction.
* `qualify_reversible` puts the parts together.
-/

namespace ViewMarkup.Binding

open List
open Script (Node)

variable {object key : Node} {computed : Bool} {us vs : List Use} {name : Text}

/-! ### Roots -/

/-- The name under a root `viewModel.x`, which is the only access that is not optional. -/
def rootName? : Node → Option Text
  | .member (.identifier object) (.identifier name) false false =>
    if object = viewModelName then some name else none
  | .member (.identifier object) (.string name) true false =>
    if object = viewModelName then some name else none
  | _ => none

theorem rootName?_memberNamed (name : Text) :
    rootName? (.memberNamed (.identifier viewModelName) name) = some name := by
  unfold Node.memberNamed Node.accessNamed
  split <;> rw [rootName?, if_pos rfl]

theorem rootName?_eq_some {node : Node} (h : rootName? node = some name) :
    ∃ key computed, node = .member (.identifier viewModelName) key computed false ∧
      (computed = false ∧ key = .identifier name ∨ computed = true ∧ key = .string name) := by
  unfold rootName? at h
  split at h
  · split at h
    · next hobject =>
      cases h
      exact ⟨_, _, by rw [hobject], .inl ⟨rfl, rfl⟩⟩
    · cases h
  · split at h
    · next hobject =>
      cases h
      exact ⟨_, _, by rw [hobject], .inr ⟨rfl, rfl⟩⟩
    · cases h
  · cases h

theorem rootName?_optional : rootName? (.member object key computed true) = none := by
  unfold rootName?
  split <;> simp_all

/-! ### Reading and changing expressions -/

mutual

/-- The expression with every root replaced by the name under it. -/
@[simp] def restore : Node → Node
  | .member object key computed optional =>
    match rootName? (.member object key computed optional) with
    | some name => .identifier name
    | none => .member (restore object) (if computed then restore key else key) computed optional
  | .call callee args optional => .call (restore callee) (restoreAll args) optional
  | .property key value computed shorthand =>
    .property (if computed then restore key else key) (restore value) computed shorthand
  | .template quasis es => .template (restoreAll quasis) (restoreAll es)
  | .spread argument => .spread (restore argument)
  | .array items => .array (restoreAll items)
  | .object ps => .object (restoreAll ps)
  | .new callee args => .new (restore callee) (restoreAll args)
  | .conditional test consequent alternate =>
    .conditional (restore test) (restore consequent) (restore alternate)
  | .binary op left right => .binary op (restore left) (restore right)
  | .logical op left right => .logical op (restore left) (restore right)
  | .unary op argument => .unary op (restore argument)
  | node => node

@[simp] def restoreAll : List Node → List Node
  | [] => []
  | node :: rest => restore node :: restoreAll rest

end

mutual

/-- The expression with optional accesses and calls only, and no abbreviated properties.  The names
after a dot and the plain keys of properties are no expressions. -/
@[simp] def loosen : Node → Node
  | .member object key computed _ =>
    .member (loosen object) (if computed then loosen key else key) computed true
  | .call callee args _ => .call (loosen callee) (loosenAll args) true
  | .property key value computed _ =>
    .property (if computed then loosen key else key) (loosen value) computed false
  | .template quasis es => .template (loosenAll quasis) (loosenAll es)
  | .spread argument => .spread (loosen argument)
  | .array items => .array (loosenAll items)
  | .object ps => .object (loosenAll ps)
  | .new callee args => .new (loosen callee) (loosenAll args)
  | .conditional test consequent alternate =>
    .conditional (loosen test) (loosen consequent) (loosen alternate)
  | .binary op left right => .binary op (loosen left) (loosen right)
  | .logical op left right => .logical op (loosen left) (loosen right)
  | .unary op argument => .unary op (loosen argument)
  | node => node

@[simp] def loosenAll : List Node → List Node
  | [] => []
  | node :: rest => loosen node :: loosenAll rest

end

mutual

/-- Whether every access and every call is optional, roots apart. -/
@[simp] def isNullSafe : Node → Bool
  | .member object key computed optional =>
    (rootName? (.member object key computed optional)).isSome ||
      (optional && isNullSafe object && (!computed || isNullSafe key))
  | .call callee args optional => optional && isNullSafe callee && isNullSafeAll args
  | .property key value computed _ => (!computed || isNullSafe key) && isNullSafe value
  | .template quasis es => isNullSafeAll quasis && isNullSafeAll es
  | .spread argument => isNullSafe argument
  | .array items => isNullSafeAll items
  | .object ps => isNullSafeAll ps
  | .new callee args => isNullSafe callee && isNullSafeAll args
  | .conditional test consequent alternate =>
    isNullSafe test && isNullSafe consequent && isNullSafe alternate
  | .binary _ left right => isNullSafe left && isNullSafe right
  | .logical _ left right => isNullSafe left && isNullSafe right
  | .unary _ argument => isNullSafe argument
  | _ => true

@[simp] def isNullSafeAll : List Node → Bool
  | [] => true
  | node :: rest => isNullSafe node && isNullSafeAll rest

end

mutual

/-- The names that are read as values. -/
@[simp] def valueNames : Node → List Text
  | .identifier name => [name]
  | .member object key computed _ => valueNames object ++ if computed then valueNames key else []
  | .call callee args _ => valueNames callee ++ valueNamesAll args
  | .property key value computed _ => (if computed then valueNames key else []) ++ valueNames value
  | .template quasis es => valueNamesAll quasis ++ valueNamesAll es
  | .spread argument => valueNames argument
  | .array items => valueNamesAll items
  | .object ps => valueNamesAll ps
  | .new callee args => valueNames callee ++ valueNamesAll args
  | .conditional test consequent alternate =>
    valueNames test ++ valueNames consequent ++ valueNames alternate
  | .binary _ left right => valueNames left ++ valueNames right
  | .logical _ left right => valueNames left ++ valueNames right
  | .unary _ argument => valueNames argument
  | _ => []

@[simp] def valueNamesAll : List Node → List Text
  | [] => []
  | node :: rest => valueNames node ++ valueNamesAll rest

end

mutual

/-- The names under the roots. -/
@[simp] def rootNames : Node → List Text
  | .member object key computed optional =>
    match rootName? (.member object key computed optional) with
    | some name => [name]
    | none => rootNames object ++ if computed then rootNames key else []
  | .call callee args _ => rootNames callee ++ rootNamesAll args
  | .property key value computed _ => (if computed then rootNames key else []) ++ rootNames value
  | .template quasis es => rootNamesAll quasis ++ rootNamesAll es
  | .spread argument => rootNames argument
  | .array items => rootNamesAll items
  | .object ps => rootNamesAll ps
  | .new callee args => rootNames callee ++ rootNamesAll args
  | .conditional test consequent alternate =>
    rootNames test ++ rootNames consequent ++ rootNames alternate
  | .binary _ left right => rootNames left ++ rootNames right
  | .logical _ left right => rootNames left ++ rootNames right
  | .unary _ argument => rootNames argument
  | _ => []

@[simp] def rootNamesAll : List Node → List Text
  | [] => []
  | node :: rest => rootNames node ++ rootNamesAll rest

end

/-- The key of an access as an expression: a name after a dot is a string. -/
def keyExpression (key : Node) (computed : Bool) : Node :=
  match key, computed with
  | .identifier name, false => .string name
  | key, _ => key

mutual

/-- The keys after `$parents`.  The keys inside a key come before it. -/
@[simp] def accessKeys : Node → List Node
  | .member object key computed _ =>
    accessKeys object ++ (if computed then accessKeys key else []) ++
      if isParents object then [keyExpression key computed] else []
  | .call callee args _ => accessKeys callee ++ accessKeysAll args
  | .property key value computed _ => (if computed then accessKeys key else []) ++ accessKeys value
  | .template quasis es => accessKeysAll quasis ++ accessKeysAll es
  | .spread argument => accessKeys argument
  | .array items => accessKeysAll items
  | .object ps => accessKeysAll ps
  | .new callee args => accessKeys callee ++ accessKeysAll args
  | .conditional test consequent alternate =>
    accessKeys test ++ accessKeys consequent ++ accessKeys alternate
  | .binary _ left right => accessKeys left ++ accessKeys right
  | .logical _ left right => accessKeys left ++ accessKeys right
  | .unary _ argument => accessKeys argument
  | _ => []

@[simp] def accessKeysAll : List Node → List Node
  | [] => []
  | node :: rest => accessKeys node ++ accessKeysAll rest

end

/-! ### What moving does -/

/-- The name that stands in a value position after moving: that of the view model, unless the name
is special. -/
def placed (name : Text) : Text :=
  if isSpecial name then name else viewModelName

/-- Whether a reference is to `$value`, `$parent` or `$parents`. -/
def Use.isSpecial : Use → Bool
  | .name _ => false
  | _ => true

/-- What moving an expression does to it. -/
structure Moved (e : Node) : Prop where
  nullSafe : isNullSafe (qualify e) = true
  restored : restore (qualify e) = loosen e
  names : valueNames (qualify e) = (valueNames e).map placed
  roots : rootNames (qualify e) = namesOf (uses e)
  keys : accessKeys (qualify e) = parentKeysOf (uses e)
  specials : (uses e).countP Use.isSpecial = (valueNames e).countP isSpecial

/-- What moving some expressions does to them. -/
structure MovedAll (es : List Node) : Prop where
  nullSafe : isNullSafeAll (qualifyAll es) = true
  restored : restoreAll (qualifyAll es) = loosenAll es
  names : valueNamesAll (qualifyAll es) = (valueNamesAll es).map placed
  roots : rootNamesAll (qualifyAll es) = namesOf (usesAll es)
  keys : accessKeysAll (qualifyAll es) = parentKeysOf (usesAll es)
  specials : (usesAll es).countP Use.isSpecial = (valueNamesAll es).countP isSpecial

@[simp] theorem namesOf_append : namesOf (us ++ vs) = namesOf us ++ namesOf vs :=
  filterMap_append ..

@[simp] theorem parentKeysOf_append :
    parentKeysOf (us ++ vs) = parentKeysOf us ++ parentKeysOf vs :=
  filterMap_append ..

theorem uses_special (h : isSpecial name = true) :
    uses (.identifier name) = [.bareParents] ∨ uses (.identifier name) = [.special] := by
  by_cases hname : name = parentsName
  · exact .inl (by rw [uses, if_pos hname])
  · exact .inr (by rw [uses, if_neg hname, if_pos h])

theorem uses_plain (h : isSpecial name = false) : uses (.identifier name) = [.name name] := by
  have hname : name ≠ parentsName := by
    rintro rfl
    cases h
  rw [uses, if_neg hname, h]
  rfl

/-- A name that is special stays, and any other becomes a root. -/
theorem moved_identifier : Moved (.identifier name) := by
  cases hspecial : isSpecial name with
  | true =>
    have hqualify : qualify (.identifier name) = .identifier name := by rw [qualify, if_pos hspecial]
    have hplaced : placed name = name := if_pos hspecial
    constructor
    · rw [hqualify, isNullSafe] <;> simp
    · rw [hqualify, restore, loosen] <;> simp
    · rw [hqualify, valueNames, map_singleton, hplaced]
    · rw [hqualify]
      rcases uses_special hspecial with huses | huses <;> rw [huses] <;> rfl
    · rw [hqualify]
      rcases uses_special hspecial with huses | huses <;> rw [huses] <;> rfl
    · rw [valueNames, countP_singleton, hspecial]
      rcases uses_special hspecial with huses | huses <;> rw [huses] <;> rfl
  | false =>
    have hqualify : qualify (.identifier name) = .memberNamed (.identifier viewModelName) name := by
      rw [qualify, hspecial]
      rfl
    have hplaced : placed name = viewModelName := by rw [placed, hspecial]; rfl
    have hroot := rootName?_memberNamed name
    obtain ⟨key, computed, hmember, hkey⟩ := rootName?_eq_some hroot
    rw [hmember] at hroot hqualify
    constructor
    · rw [hqualify, isNullSafe, hroot]
      rfl
    · rw [hqualify, restore, hroot, loosen] <;> simp
    · rw [hqualify, valueNames, valueNames, valueNames, map_singleton, hplaced]
      rcases hkey with ⟨rfl, rfl⟩ | ⟨rfl, rfl⟩ <;> rfl
    · rw [hqualify, rootNames, hroot, uses_plain hspecial]
      rfl
    · rw [hqualify, uses_plain hspecial]
      rcases hkey with ⟨rfl, rfl⟩ | ⟨rfl, rfl⟩ <;> rfl
    · rw [uses_plain hspecial, valueNames, countP_singleton, countP_singleton, hspecial]
      rfl

/-- Whether the object of an access is `$parents` or not, it is moved like any other. -/
theorem qualify_member (computed optional : Bool) : qualify (.member object key computed optional) =
      .member (qualify object) (if computed then qualify key else key) computed true := by
  have hobject : (if isParents object then object else qualify object) = qualify object := by
    split
    · next hparents =>
      unfold isParents at hparents
      split at hparents
      · next name =>
        have hspecial : isSpecial name = true := by simp [isSpecial, of_decide_eq_true hparents]
        rw [qualify, if_pos hspecial]
      · cases hparents
    · rfl
  rw [qualify, hobject]

theorem isParents_qualify (e : Node) : isParents (qualify e) = isParents e := by
  cases e with
  | identifier name =>
    rw [qualify]
    split
    · rfl
    · next hspecial =>
      have hname : name ≠ parentsName := by
        rintro rfl
        exact hspecial rfl
      unfold Node.memberNamed Node.accessNamed
      split <;> simp [isParents, hname]
  | _ => rfl

theorem uses_of_isParents {e : Node} (h : isParents e = true) : uses e = [.bareParents] := by
  unfold isParents at h
  split at h
  · rw [uses, if_pos (of_decide_eq_true h)]
  · cases h

/-- The references of an access: those of its object, those of its key, and the access itself if it
is one to `$parents`. -/
theorem uses_member (object key : Node) (computed optional : Bool) :
    namesOf (uses (.member object key computed optional)) =
        namesOf (uses object) ++ (if computed then namesOf (uses key) else []) ∧
      parentKeysOf (uses (.member object key computed optional)) =
        parentKeysOf (uses object) ++ (if computed then parentKeysOf (uses key) else []) ++
          (if isParents object then [parentsKey key computed] else []) ∧
      (uses (.member object key computed optional)).countP Use.isSpecial =
        (uses object).countP Use.isSpecial +
          if computed then (uses key).countP Use.isSpecial else 0 := by
  cases hparents : isParents object with
  | true =>
    rw [uses, hparents, uses_of_isParents hparents]
    cases computed <;> simp [namesOf, parentKeysOf, Use.isSpecial, Nat.add_comm]
  | false =>
    rw [uses, hparents]
    cases computed <;> simp

theorem keyExpression_qualify :
    keyExpression (if computed then qualify key else key) computed = parentsKey key computed := by
  cases computed with
  | true =>
    unfold keyExpression
    split
    · next heq => cases heq
    · rfl
  | false => cases key <;> rfl

theorem moved_member {optional : Bool} (hobject : Moved object)
    (hkey : computed = true → Moved key) : Moved (.member object key computed optional) := by
  have hsafe : rootName? (.member (qualify object) (if computed then qualify key else key)
      computed true) = none := rootName?_optional ..
  obtain ⟨hnames, hkeys, hspecials⟩ := uses_member object key computed optional
  constructor
  · rw [qualify_member, isNullSafe, hsafe, hobject.nullSafe]
    cases computed with
    | false => rfl
    | true => exact (hkey rfl).nullSafe
  · rw [qualify_member, restore, hsafe, loosen, ← hobject.restored]
    cases computed with
    | false => rfl
    | true => rw [if_pos rfl, ← (hkey rfl).restored]; rfl
  · rw [qualify_member, valueNames, valueNames, hobject.names, map_append]
    cases computed with
    | false => rfl
    | true => rw [if_pos rfl, if_pos rfl, if_pos rfl, (hkey rfl).names]
  · rw [qualify_member, rootNames, hsafe, hnames, ← hobject.roots]
    cases computed with
    | false => rfl
    | true => rw [if_pos rfl, if_pos rfl, if_pos rfl, (hkey rfl).roots]
  · rw [qualify_member, accessKeys, hkeys, keyExpression_qualify, isParents_qualify, hobject.keys]
    cases computed with
    | false => rfl
    | true => rw [if_pos rfl, if_pos rfl, if_pos rfl, (hkey rfl).keys]
  · rw [hspecials, valueNames, countP_append, hobject.specials]
    cases computed with
    | false => rfl
    | true => rw [if_pos rfl, if_pos rfl, (hkey rfl).specials]

theorem moved_property {value : Node} {shorthand : Bool}
    (hkey : computed = true → Moved key) (hvalue : Moved value) :
    Moved (.property key value computed shorthand) := by
  obtain ⟨⟩ := hvalue
  cases computed with
  | false => constructor <;> simp [qualify, uses, *]
  | true =>
    obtain ⟨⟩ := hkey rfl
    constructor <;> simp [qualify, uses, *]

mutual

/-- **What moving does, for every allowed expression.**  Names and accesses apart, a node only passes
on what moving does to its parts, one after the other. -/
theorem moved_qualify : ∀ e, allowed e = true → Moved e
  | .identifier name, _ => moved_identifier
  | .member object key computed _, h => by
      rw [allowed, Bool.and_eq_true] at h
      exact moved_member (moved_qualify object h.1) fun _ => moved_qualify key h.2
  | .property key value computed _, h => by
      rw [allowed, Bool.and_eq_true] at h
      exact moved_property (fun _ => moved_qualify key h.1) (moved_qualify value h.2)
  | .call callee args _, h | .new callee args, h => by
      rw [allowed, Bool.and_eq_true] at h
      obtain ⟨⟩ := moved_qualify callee h.1
      obtain ⟨⟩ := movedAll_qualify args h.2
      constructor <;> simp [qualify, uses, *]
  | .template quasis es, h => by
      rw [allowed, Bool.and_eq_true] at h
      obtain ⟨⟩ := movedAll_qualify quasis h.1
      obtain ⟨⟩ := movedAll_qualify es h.2
      constructor <;> simp [qualify, uses, *]
  | .array items, h | .object items, h => by
      rw [allowed] at h
      obtain ⟨⟩ := movedAll_qualify items h
      constructor <;> simp [qualify, uses, *]
  | .conditional test consequent alternate, h => by
      rw [allowed, Bool.and_eq_true, Bool.and_eq_true] at h
      obtain ⟨⟩ := moved_qualify test h.1.1
      obtain ⟨⟩ := moved_qualify consequent h.1.2
      obtain ⟨⟩ := moved_qualify alternate h.2
      constructor <;> simp [qualify, uses, *]
  | .binary _ left right, h | .logical _ left right, h => by
      rw [allowed, Bool.and_eq_true] at h
      obtain ⟨⟩ := moved_qualify left h.1
      obtain ⟨⟩ := moved_qualify right h.2
      constructor <;> simp [qualify, uses, *]
  | .unary _ argument, h | .spread argument, h => by
      rw [allowed] at h
      obtain ⟨⟩ := moved_qualify argument h
      constructor <;> simp [qualify, uses, *]
  | .string _, _ | .number _ _, _ | .boolean _, _ | .null, _ | .templateElement _ _ _, _ | .hole, _ => by
      constructor <;> rfl

theorem movedAll_qualify : ∀ es, allowedAll es = true → MovedAll es
  | [], _ => by
      constructor <;> rfl
  | e :: es, h => by
      rw [allowedAll, Bool.and_eq_true] at h
      obtain ⟨⟩ := moved_qualify e h.1
      obtain ⟨⟩ := movedAll_qualify es h.2
      constructor <;> simp [qualifyAll, usesAll, *]

end

/-! ### What is recorded -/

/-- The names that are collected are those of the list, each where it first stands. -/
theorem distinct_eq_eraseDups (names : List Text) : distinct names = names.eraseDups := by
  induction names using reverseRecOn with
  | nil => rfl
  | append_singleton names name ih =>
    have hstep : distinct (names ++ [name]) = insertName (distinct names) name :=
      foldl_append ..
    rw [hstep, ih, insertName, eraseDups_append]
    by_cases hmem : name ∈ names <;> simp [hmem, removeAll, eraseDups_cons]

/-- Where `$parents` always has a key, a special reference is one of the two kinds that are
counted. -/
theorem specialCountOf_eq (h : hasBareParents us = false) :
    specialCountOf us = us.countP Use.isSpecial := by
  refine countP_congr fun u hu => ?_
  cases u with
  | bareParents => exact absurd (any_eq_true.mpr ⟨_, hu, rfl⟩) (ne_true_of_eq_false h)
  | _ => rfl

/-- **Moving is a reversible substitution.**  In the result every access and every call is optional,
roots apart.  Putting the names back in the place of their roots gives the expression as it was
written, with optional accesses and calls and no abbreviated properties; no name that is read as a
value is left outside the view model unless it is special.  The names recorded are those of the
roots, each once, where it first stands; special references are counted; and there is one key for
each access to `$parents`, those inside a key before it. -/
theorem qualify_reversible (e : Node) (hallowed : allowed e = true)
    (hkeyed : hasBareParents (uses e) = false) :
    isNullSafe (qualify e) = true ∧
      restore (qualify e) = loosen e ∧
      valueNames (qualify e) = (valueNames e).map placed ∧
      distinct (namesOf (uses e)) = (rootNames (qualify e)).eraseDups ∧
      specialCountOf (uses e) = (valueNames e).countP isSpecial ∧
      parentKeysOf (uses e) = accessKeys (qualify e) := by
  obtain ⟨hsafe, hrestored, hnames, hroots, hkeys, hspecials⟩ := moved_qualify e hallowed
  refine ⟨hsafe, hrestored, hnames, ?_, ?_, hkeys.symm⟩
  · rw [distinct_eq_eraseDups, hroots]
  · rw [specialCountOf_eq hkeyed, hspecials]

/-- The expression `$parents[list[i]].name({ age, [$value.key]: viewModel.x })`. -/
def sampleExpression : Node :=
  .call (.member (.member (.identifier "$parents")
      (.member (.identifier "list") (.identifier "i") true false) true false)
    (.identifier "name") false false)
    [.object [.property (.identifier "age") (.identifier "age") false true,
      .property (.member (.identifier "$value") (.identifier "key") false false)
        (.member (.identifier "viewModel") (.identifier "x") false false) true false]] false

theorem qualify_reversible_sampleExpression :
    restore (qualify sampleExpression) = loosen sampleExpression ∧
      (rootNames (qualify sampleExpression)).eraseDups =
        (["list", "i", "age", "viewModel"] : List Text) ∧
      specialCountOf (uses sampleExpression) = 2 ∧
      (accessKeys (qualify sampleExpression)).length = 1 := by
  obtain ⟨-, hrestored, -, hroots, -, hkeys⟩ :=
    qualify_reversible sampleExpression (by decide) (by decide)
  refine ⟨hrestored, ?_, by decide, ?_⟩
  · decide
  · decide

end ViewMarkup.Binding
