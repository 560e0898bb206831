import Mathlib.Data.List.Nodup
import ViewMarkup.Proofs.Binding.Callbacks
import ViewMarkup.Proofs.Script.Scope

/-!
# The functions of bindings are closed

An expression of a binding that has been moved under the view model refers to the view model and to
the special names.  The functions around it declare these before they are used, with one exception:
the keys after `$parents` are part of the declaration of `$parents`, so a key that itself looks into
`$parents` stands before the name is there.

* `Spoken` says which names can be stray in the expressions of a binding.
* `describe_spoken` says this of every compiled binding.
* `declareScope_introduces`: what a binding speaks of is declared where it is used.
* `callbacks_closed` is about all functions of a view.
-/

namespace ViewMarkup.Binding

open List
open Script (Node strays straysAll straysIn straysOption declared declaredAll introduced introducedIn
  mem_straysAll mem_straysIn_append mem_ungoverned bound boundAll)

variable {x : Text} {us vs : List Use} {e key : Node} {es : List Node} {d : BindingDescriptor}
  {descriptors : List BindingDescriptor} {computed optional toModel : Bool} {object value : Node}
  {n : Nat} {k : Int}

/-! ### Calls of the support library -/

@[simp] theorem strays_runtimeCall (method : Text) (args : List Node) :
    strays (runtimeCall method args) = runtimeName :: straysAll args := by
  simp [runtimeCall, runtimeMember, strays]

@[simp] theorem declared_runtimeCall (method : Text) (args : List Node) :
    declared (runtimeCall method args) = declaredAll args := by
  simp [runtimeCall, runtimeMember, declared]

@[simp] theorem strays_statement (e : Node) : strays (statement e) = strays e := by
  rw [statement, strays]

@[simp] theorem declared_statement : declared (statement e) = declared e := by
  rw [statement, declared]

@[simp] theorem introduced_statement (e : Node) : introduced (statement e) = [] :=
  rfl

section

variable (owner : Node) (linked : Bool) (path : List Text)

theorem strays_walkPath : strays (walkPath owner linked path).1 = strays owner := by
  fun_induction walkPath owner linked path with
  | case1 => rfl
  | case2 => rfl
  | case3 owner linked segment rest _ ih => rw [ih, Script.strays_accessNamed]

theorem declared_walkPath : declared (walkPath owner linked path).1 = declared owner := by
  fun_induction walkPath owner linked path with
  | case1 => rfl
  | case2 => rfl
  | case3 owner linked segment rest _ ih => rw [ih, Script.declared_accessNamed]

end

@[simp] theorem strays_view : strays view = [Text.ofString "view"] := by
  rw [view, strays]

@[simp] theorem strays_args : strays args = [Text.ofString "args"] := by
  rw [args, strays]

/-! ### Names in moved expressions -/

/-- The names that can be stray in a moved expression, given how often it refers to special names,
and the keys after `$parents` in it. -/
def Spoken (count : Nat) (keys : List Node) (x : Text) : Prop :=
  x = viewModelName ∨ (x = valueName ∨ x = parentName) ∧ count ≠ 0 ∨ x = parentsName ∧ keys ≠ []

theorem specialCountOf_append : specialCountOf (us ++ vs) = specialCountOf us + specialCountOf vs :=
  countP_append

theorem Spoken.mono {m : Nat} {keys more : List Node} (h : Spoken m keys x) (hcount : m ≤ n)
    (hkeys : keys ⊆ more) : Spoken n more x := by
  rcases h with h | ⟨hx, hspecial⟩ | ⟨hx, hparents⟩
  · exact .inl h
  · exact .inr (.inl ⟨hx, by omega⟩)
  · obtain ⟨key, hkey⟩ := exists_mem_of_ne_nil _ hparents
    exact .inr (.inr ⟨hx, ne_nil_of_mem (hkeys hkey)⟩)

theorem Spoken.left (h : Spoken (specialCountOf us) (parentKeysOf us) x) :
    Spoken (specialCountOf (us ++ vs)) (parentKeysOf (us ++ vs)) x := by
  apply h.mono
  · rw [specialCountOf_append]
    omega
  · rw [parentKeysOf_append]
    exact subset_append_left _ _

theorem Spoken.right (h : Spoken (specialCountOf vs) (parentKeysOf vs) x) :
    Spoken (specialCountOf (us ++ vs)) (parentKeysOf (us ++ vs)) x := by
  apply h.mono
  · rw [specialCountOf_append]
    omega
  · rw [parentKeysOf_append]
    exact subset_append_right _ _

theorem hasBareParents_append :
    hasBareParents (us ++ vs) = (hasBareParents us || hasBareParents vs) :=
  any_append

/-- What is stray in a moved expression, and in the keys after `$parents` in it. -/
structure Speaks (us : List Use) (occurrences : List Text) : Prop where
  strays : ∀ x ∈ occurrences, Spoken (specialCountOf us) (parentKeysOf us) x
  keys : ∀ key ∈ parentKeysOf us, ∀ x ∈ Script.strays key,
    Spoken (specialCountOf us) (parentKeysOf us) x

theorem Speaks.append {xs ys : List Text} (hxs : Speaks us xs) (hys : Speaks vs ys) :
    Speaks (us ++ vs) (xs ++ ys) := by
  refine ⟨fun x hx => ?_, fun key hkey x hx => ?_⟩
  · rcases mem_append.mp hx with hx | hx
    · exact (hxs.strays x hx).left
    · exact (hys.strays x hx).right
  · rw [parentKeysOf_append] at hkey
    rcases mem_append.mp hkey with hkey | hkey
    · exact (hxs.keys key hkey x hx).left
    · exact (hys.keys key hkey x hx).right

theorem speaks_nothing : Speaks [] [] :=
  ⟨nofun, nofun⟩

theorem speaks_identifier {name : Text} (h : hasBareParents (uses (.identifier name)) = false) :
    Speaks (uses (.identifier name)) (strays (qualify (.identifier name))) := by
  have hparents : name ≠ parentsName := by
    rintro rfl
    rw [uses, if_pos rfl] at h
    cases h
  cases hspecial : isSpecial name with
  | true =>
    have huses : uses (.identifier name) = [.special] := by
      rw [uses, if_neg hparents, if_pos hspecial]
    have hname : name = valueName ∨ name = parentName := by
      simp only [isSpecial, Bool.or_eq_true, decide_eq_true_eq] at hspecial
      exact hspecial.resolve_right hparents
    rw [huses, qualify, if_pos hspecial, Script.strays]
    refine ⟨fun x hx => ?_, forall_mem_nil _⟩
    rw [mem_singleton.mp hx]
    exact .inr (.inl ⟨hname, Nat.one_ne_zero⟩)
  | false =>
    rw [uses_plain hspecial, qualify, hspecial, if_neg Bool.false_ne_true,
      Script.strays_memberNamed, Script.strays]
    exact ⟨fun x hx => .inl (mem_singleton.mp hx), forall_mem_nil _⟩

/-- An access to `$parents` speaks of its key. -/
theorem speaks_parents
    (hobject : isParents object = true) (hkey : computed = true → Speaks (uses key) (strays (qualify key)))
    (hname : computed = false → strays (parentsKey key computed) = []) :
    Speaks (uses (.member object key computed optional))
      (strays (qualify (.member object key computed optional))) := by
  obtain ⟨name, rfl⟩ : ∃ name, object = .identifier name := by
    unfold isParents at hobject
    split at hobject
    · exact ⟨_, rfl⟩
    · cases hobject
  have hparents : name = parentsName := of_decide_eq_true hobject
  subst hparents
  have hown : parentKeysOf ((if computed then uses key else []) ++
      [.parents (parentsKey key computed)]) ≠ [] := by
    rw [parentKeysOf_append]
    exact append_ne_nil_of_right_ne_nil _ (cons_ne_nil _ _)
  rw [uses, qualify, if_pos hobject, if_pos hobject, if_pos hobject, nil_append]
  refine ⟨fun x hx => ?_, fun other hother x hx => ?_⟩
  · rcases mem_append.mp hx with hx | hx
    · rw [mem_singleton.mp hx]
      exact .inr (.inr ⟨rfl, hown⟩)
    · cases computed with
      | true => exact ((hkey rfl).strays x hx).left
      | false => cases hx
  · rw [parentKeysOf_append] at hother
    rcases mem_append.mp hother with hother | hother
    · cases computed with
      | true => exact ((hkey rfl).keys other hother x hx).left
      | false => cases hother
    · cases mem_singleton.mp hother
      cases computed with
      | true => exact ((hkey rfl).strays x hx).left
      | false =>
        rw [hname rfl] at hx
        cases hx

/-- Any other access speaks of its parts. -/
theorem speaks_member
    (hparents : isParents object = false) (hobject : Speaks (uses object) (strays (qualify object)))
    (hkey : computed = true → Speaks (uses key) (strays (qualify key))) :
    Speaks (uses (.member object key computed optional))
      (strays (qualify (.member object key computed optional))) := by
  rw [uses, qualify, hparents, if_neg Bool.false_ne_true, if_neg Bool.false_ne_true,
    if_neg Bool.false_ne_true, append_nil, Script.strays]
  apply hobject.append
  cases computed with
  | true => exact hkey rfl
  | false => exact speaks_nothing

theorem speaks_all {nodes : List Node}
    (h : ∀ e ∈ nodes, hasBareParents (uses e) = false → Speaks (uses e) (strays (qualify e)))
    (hbare : hasBareParents (usesAll nodes) = false) :
    Speaks (usesAll nodes) (straysAll (qualifyAll nodes)) := by
  induction nodes with
  | nil =>
    exact speaks_nothing
  | cons e rest ih =>
    obtain ⟨hfirst, hrest⟩ := forall_mem_cons.mp h
    rw [usesAll, hasBareParents_append, Bool.or_eq_false_iff] at hbare
    exact (hfirst hbare.1).append (ih hrest hbare.2)

theorem straysAll_pieces {quasis : List Node} (h : Script.ArePieces n quasis) :
    straysAll quasis = [] := by
  induction h with
  | last h => rfl
  | cons h _ ih =>
    rw [straysAll, ih, strays]
    · rfl
    all_goals simp

/-- **A moved expression speaks only of what it refers to.** -/
theorem speaks_qualify {arrows : Bool} {place : Script.Place} (h : Script.Readable arrows place e)
    (hallowed : allowed e = true) (hbare : hasBareParents (uses e) = false) :
    Speaks (uses e) (strays (qualify e)) := by
  have hleaf {node : Node} (huses : uses node = []) (hstrays : strays (qualify node) = []) :
      Speaks (uses node) (strays (qualify node)) := by
    rw [huses, hstrays]
    exact speaks_nothing
  induction h with
  | identifier h => exact speaks_identifier hbare
  | string value | number h | boolean value | null | hole =>
    exact hleaf (by rw [uses] <;> simp) (by simp [qualify, strays])
  | this | update _ _ _ _ | assignment _ _ _ _ _ _ | sequence _ _ _ | arrow _ _ _ => cases hallowed
  | template hquasis _ ih =>
    rw [allowed, Bool.and_eq_true] at hallowed
    rw [uses, usesAll_pieces hquasis] at hbare ⊢
    rw [qualify, strays, qualifyAll_pieces hquasis, straysAll_pieces hquasis]
    exact speaks_all (fun e he => ih e he (allowed_of_mem hallowed.2 he)) hbare
  | array _ ih | object _ ih =>
    rw [allowed] at hallowed
    rw [uses] at hbare ⊢
    rw [qualify, strays]
    exact speaks_all (fun e he => ih e he (allowed_of_mem hallowed he)) hbare
  | @part object _ _ _ _ ih =>
    rw [allowed, Bool.and_eq_true] at hallowed
    cases hparents : isParents object with
    | true => exact speaks_parents hparents (by simp) fun _ => by simp [parentsKey, strays]
    | false =>
      rw [uses, hparents] at hbare
      refine speaks_member hparents (ih hallowed.1 ?_) (by simp)
      simpa using hbare
  | @index object _ _ _ _ ihobject ihkey =>
    rw [allowed, Bool.and_eq_true] at hallowed
    cases hparents : isParents object with
    | true =>
      rw [uses, hparents, hasBareParents_append] at hbare
      refine speaks_parents hparents (fun _ => ihkey hallowed.2 ?_) (by simp)
      simp_all
    | false =>
      rw [uses, hparents] at hbare
      simp only [Bool.false_eq_true, if_false, if_true, append_nil, hasBareParents_append,
        Bool.or_eq_false_iff] at hbare
      exact speaks_member hparents (ihobject hallowed.1 hbare.1) fun _ =>
        ihkey hallowed.2 hbare.2
  | call _ _ ihcallee ihargs | new _ _ ihcallee ihargs =>
    rw [allowed, Bool.and_eq_true] at hallowed
    rw [uses, hasBareParents_append, Bool.or_eq_false_iff] at hbare
    rw [uses, qualify, strays]
    exact (ihcallee hallowed.1 hbare.1).append
      (speaks_all (fun e he => ihargs e he (allowed_of_mem hallowed.2 he)) hbare.2)
  | conditional _ _ _ ihtest ihconsequent ihalternate =>
    rw [allowed, Bool.and_eq_true, Bool.and_eq_true] at hallowed
    rw [uses, hasBareParents_append, hasBareParents_append, Bool.or_eq_false_iff,
      Bool.or_eq_false_iff] at hbare
    rw [uses, qualify, strays]
    exact ((ihtest hallowed.1.1 hbare.1.1).append (ihconsequent hallowed.1.2 hbare.1.2)).append
      (ihalternate hallowed.2 hbare.2)
  | binary _ _ _ _ ihleft ihright | logical _ _ _ _ ihleft ihright =>
    rw [allowed, Bool.and_eq_true] at hallowed
    rw [uses, hasBareParents_append, Bool.or_eq_false_iff] at hbare
    rw [uses, qualify, strays]
    exact (ihleft hallowed.1 hbare.1).append (ihright hallowed.2 hbare.2)
  | unary _ _ ih | spread _ ih | rest _ ih =>
    rw [allowed] at hallowed
    rw [uses] at hbare ⊢
    rw [qualify, strays]
    exact ih hallowed hbare
  | argument _ ih => exact ih hallowed hbare
  | element _ ih => exact ih hallowed hbare
  | named _ _ ih =>
    rw [allowed, Bool.and_eq_true] at hallowed
    rw [uses] at hbare ⊢
    rw [qualify, strays]
    exact ih hallowed.2 hbare
  | computed _ _ ihkey ihvalue =>
    rw [allowed, Bool.and_eq_true] at hallowed
    rw [uses, if_pos rfl, hasBareParents_append, Bool.or_eq_false_iff] at hbare
    rw [uses, qualify, strays, if_pos rfl, if_pos rfl, if_pos rfl]
    exact (ihkey hallowed.1 hbare.1).append (ihvalue hallowed.2 hbare.2)
  | abbreviated h =>
    rw [uses] at hbare ⊢
    rw [qualify, strays]
    exact speaks_identifier hbare

/-! ### Descriptors -/

/-- The names that are there for all generated code. -/
def IsLibrary (x : Text) : Prop :=
  x = runtimeName ∨ x = "undefined"

/-- What can be stray in what a descriptor holds. -/
structure Confined (d : BindingDescriptor) : Prop where
  expression : ∀ x ∈ strays d.expression, IsLibrary x ∨ Spoken d.specialCount d.parentKeys x
  keys : ∀ key ∈ d.parentKeys, ∀ x ∈ strays key, Spoken d.specialCount d.parentKeys x
  target : ∀ x ∈ strays (writeBack d).1, IsLibrary x ∨ Spoken d.specialCount d.parentKeys x
  value : ∀ x ∈ strays (writeBack d).2,
    x = "value" ∨ IsLibrary x ∨ Spoken d.specialCount d.parentKeys x
  counted : d.parentKeys ≠ [] → d.specialCount ≠ 0

theorem mem_strays_convert {converter : Node}
    (h : x ∈ strays (convert toModel value converter)) :
    IsLibrary x ∨ x ∈ strays value ∨ x ∈ strays converter := by
  unfold convert at h
  split at h
  next reference args heq =>
  have hcall : x ∈ strays reference ∨ x ∈ straysAll args →
      x = "undefined" ∨ x ∈ strays converter := by
    split at heq
    · cases heq
      rw [strays, mem_append]
      rintro (hx | hx)
      · exact .inr (.inl hx)
      · split at hx
        · exact .inl (by simpa [straysAll, strays] using hx)
        · exact .inr (.inr hx)
    · cases heq
      rintro (hx | hx)
      · exact .inr hx
      · cases hx
  simp only [strays_runtimeCall, straysAll, strays, mem_cons, mem_append, append_nil]
    at h
  rcases h with h | h | h | h
  · exact .inl (.inl h)
  · exact (hcall (.inl h)).imp .inr .inr
  · exact .inr (.inl h)
  · exact (hcall (.inr h)).imp .inr .inr

theorem mem_strays_foldl_convert {converters : List Node}
    (h : x ∈ strays (converters.foldl (convert toModel) value)) :
    IsLibrary x ∨ x ∈ strays value ∨ ∃ c ∈ converters, x ∈ strays c := by
  induction converters generalizing value with
  | nil => exact .inr (.inl h)
  | cons c converters ih =>
    rcases ih h with hx | hx | ⟨other, hother, hx⟩
    · exact .inl hx
    · rcases mem_strays_convert hx with hx | hx | hx
      · exact .inl hx
      · exact .inr (.inl hx)
      · exact .inr (.inr ⟨c, mem_cons_self, hx⟩)
    · exact .inr (.inr ⟨other, mem_cons_of_mem _ hother, hx⟩)

theorem specialCountOf_ne_zero (h : parentKeysOf us ≠ []) : specialCountOf us ≠ 0 := by
  obtain ⟨key, hkey⟩ := exists_mem_of_ne_nil _ h
  obtain ⟨u, hu, hkey⟩ := mem_filterMap.mp hkey
  have hspecial : 0 < specialCountOf us := by
    apply countP_pos_iff.mpr
    refine ⟨u, hu, ?_⟩
    cases u with
    | parents key => rfl
    | name name => cases hkey
    | special => rfl
    | bareParents => cases hkey
  omega

/-- **A compiled binding speaks only of what it refers to.** -/
theorem describe_confined {item : Attribute} (h : describe item = .ok d) : Confined d := by
  obtain ⟨bound, converters, haccepts, rfl⟩ := describe_eq_ok h
  obtain ⟨hbound, hconverters⟩ := haccepts.bindable
  have hkeyed := haccepts.keyed
  rw [hasBareParents_append, Bool.or_eq_false_iff] at hkeyed
  generalize hus : uses bound ++ usesAll converters = us
  have htarget := speaks_qualify hbound.1 hbound.2 hkeyed.1
  have happlied : Speaks (usesAll converters) (straysAll (qualifyAll converters)) :=
    speaks_all (fun e he => speaks_qualify (hconverters e he).1 (hconverters e he).2) hkeyed.2
  have hboth := htarget.append happlied
  rw [hus] at hboth
  have hbase : ∀ x ∈ strays (qualify bound), Spoken (specialCountOf us) (parentKeysOf us) x :=
    fun x hx => hboth.strays x (mem_append_left _ hx)
  have hmoved : ∀ c ∈ qualifyAll converters, ∀ x ∈ strays c,
      Spoken (specialCountOf us) (parentKeysOf us) x :=
    fun c hc x hx => hboth.strays x (mem_append_right _ (mem_straysAll.mpr ⟨c, hc, hx⟩))
  have hexpression : ∀ x ∈ strays ((qualifyAll converters).foldl (convert false) (qualify bound)),
      IsLibrary x ∨ Spoken (specialCountOf us) (parentKeysOf us) x := by
    intro x hx
    rcases mem_strays_foldl_convert hx with hx | hx | ⟨c, hc, hx⟩
    · exact .inl hx
    · exact .inr (hbase x hx)
    · exact .inr (hmoved c hc x hx)
  subst hus
  refine ⟨hexpression, hboth.keys, ?_, ?_, specialCountOf_ne_zero⟩
  · unfold writeBack descriptorOf
    split
    · exact fun x hx => .inr (hbase x hx)
    · exact hexpression
  · unfold writeBack descriptorOf
    split
    · intro x hx
      rcases mem_strays_foldl_convert hx with hx | hx | ⟨c, hc, hx⟩
      · exact .inr (.inl hx)
      · exact .inl (by simpa [strays] using hx)
      · exact .inr (.inr (hmoved c (mem_reverse.mp hc) x hx))
    · exact fun x hx => .inl (by simpa [strays] using hx)

/-! ### What is declared around an expression -/

/-- Some key after `$parents` looks into `$parents` itself. -/
def Looped (descriptors : List BindingDescriptor) : Prop :=
  ∃ d ∈ descriptors, ∃ key ∈ d.parentKeys, parentsName ∈ strays key

/-- The keys after `$parents` in all bindings of a view. -/
def allKeys (descriptors : List BindingDescriptor) : List Node :=
  descriptors.flatMap fun d => d.parentKeys

/-- The special names are declared if a binding refers to one. -/
theorem declareScope_eq (h : ∃ d ∈ descriptors, d.specialCount ≠ 0) :
    declareScope descriptors =
      [.letStatement valueName (.identifier viewModelName),
       .letStatement parentName
         (.accessNamed (.memberNamed view "parent") "bindingContext" true)] ++
      if (allKeys descriptors).isEmpty then []
      else [.letStatement parentsName
        (runtimeCall "createParentsBindingInstance" [view, .array (allKeys descriptors)])] := by
  obtain ⟨d, hd, hcount⟩ := h
  have hany : (descriptors.any fun d => d.specialCount != 0) = true :=
    any_eq_true.mpr ⟨d, hd, bne_iff_ne.mpr hcount⟩
  rw [declareScope, if_pos hany]
  rfl

theorem declareScope_nil (h : ¬ ∃ d ∈ descriptors, d.specialCount ≠ 0) :
    declareScope descriptors = [] := by
  have hnone : (descriptors.any fun d => d.specialCount != 0) = false := by
    rw [any_eq_false]
    intro d hd hcount
    exact h ⟨d, hd, bne_iff_ne.mp hcount⟩
  rw [declareScope, hnone, if_neg Bool.false_ne_true]

/-- What a binding speaks of is declared, but for the view model. -/
theorem declareScope_introduces (hd : d ∈ descriptors) (hconfined : Confined d)
    (hx : Spoken d.specialCount d.parentKeys x) :
    x = viewModelName ∨ x ∈ introducedIn (declareScope descriptors) := by
  rcases hx with hx | ⟨hx, hcount⟩ | ⟨rfl, hkeys⟩
  · exact .inl hx
  · rw [declareScope_eq ⟨d, hd, hcount⟩, Script.introducedIn_append]
    exact .inr (mem_append_left _ (by simpa [introducedIn] using hx))
  · have hsome : (allKeys descriptors).isEmpty = false := by
      obtain ⟨key, hkey⟩ := exists_mem_of_ne_nil _ hkeys
      exact isEmpty_eq_false_iff_exists_mem.mpr ⟨key, mem_flatMap.mpr ⟨d, hd, hkey⟩⟩
    rw [declareScope_eq ⟨d, hd, hconfined.counted hkeys⟩, Script.introducedIn_append, hsome]
    exact .inr (mem_append_right _ (by simp [introducedIn]))

/-- What is stray in the declarations themselves. -/
theorem mem_straysIn_declareScope (h : ∀ d ∈ descriptors, Confined d)
    (hx : x ∈ straysIn (declareScope descriptors)) :
    x = viewModelName ∨ x = "view" ∨ x = runtimeName ∨ x = parentsName ∧ Looped descriptors := by
  by_cases hspecial : ∃ d ∈ descriptors, d.specialCount ≠ 0
  · rw [declareScope_eq hspecial, mem_straysIn_append] at hx
    rcases hx with hx | ⟨hnew, hx⟩
    · simp only [straysIn, Script.strays_letStatement, strays, Script.strays_accessNamed,
        Script.strays_memberNamed, strays_view, mem_append, mem_singleton,
        mem_ungoverned, not_mem_nil, false_and, or_false] at hx
      rcases hx with hx | ⟨hx, _⟩
      · exact .inl hx
      · exact .inr (.inl hx)
    · split at hx
      · cases hx
      · simp only [straysIn, Script.strays_letStatement, strays_runtimeCall, straysAll, strays,
          strays_view, mem_append, mem_cons, not_mem_nil, or_false,
          mem_ungoverned, false_and] at hx
        rcases hx with hx | hx | hx
        · exact .inr (.inr (.inl hx))
        · exact .inr (.inl hx)
        · obtain ⟨key, hkey, hx⟩ := mem_straysAll.mp hx
          obtain ⟨d, hd, hkey⟩ := mem_flatMap.mp hkey
          rcases (h d hd).keys key hkey x hx with hx' | ⟨hx', _⟩ | ⟨hx', _⟩
          · exact .inl hx'
          · exact absurd (by simpa [introducedIn] using hx') hnew
          · exact .inr (.inr (.inr ⟨hx', d, hd, key, hkey, hx' ▸ hx⟩))
  · rw [declareScope_nil hspecial] at hx
    cases hx

/-- A key that looks into `$parents` stands before the name is declared. -/
theorem parents_mem_straysIn_declareScope (h : ∀ d ∈ descriptors, Confined d)
    (hlooped : Looped descriptors) : parentsName ∈ straysIn (declareScope descriptors) := by
  obtain ⟨d, hd, key, hkey, hx⟩ := hlooped
  have hmem : key ∈ allKeys descriptors := mem_flatMap.mpr ⟨d, hd, hkey⟩
  have hsome : (allKeys descriptors).isEmpty = false :=
    isEmpty_eq_false_iff_exists_mem.mpr ⟨key, hmem⟩
  have hstray : parentsName ∈ straysAll (allKeys descriptors) := mem_straysAll.mpr ⟨key, hmem, hx⟩
  rw [declareScope_eq ⟨d, hd, (h d hd).counted (ne_nil_of_mem hkey)⟩, hsome,
    mem_straysIn_append]
  refine .inr ⟨by simp [introducedIn]; decide, ?_⟩
  simp [straysIn, straysAll, strays, hstray]

/-! ### Functions -/

@[simp] theorem bound_view : bound view = [Text.ofString "view"] := by
  rw [view, bound]

@[simp] theorem bound_args : bound args = [Text.ofString "args"] := by
  rw [args, bound]

theorem mem_strays_apply (d : BindingDescriptor) (h : x ∈ strays (apply d value)) :
    x = runtimeName ∨ x = "view" ∨ x ∈ strays value := by
  unfold apply at h
  split at h
  · simpa [straysAll, strays] using h
  · split at h
    · simp only [splitPath, strays_statement, strays, strays_walkPath, strays_view,
        strays_runtimeCall, straysAll, append_nil, mem_append, mem_cons,
        not_mem_nil, or_false, false_or] at h
      rcases h with h | h | h | h
      · exact .inr (.inl h)
      · exact .inl h
      · exact .inr (.inl h)
      · exact .inr (.inr h)
    · simpa [straysAll, strays] using h

theorem mem_strays_guard (d : BindingDescriptor) (h : x ∈ strays (guard d)) :
    x = "propertyName" ∨ x = "view" := by
  have htest : ∀ (names : List Text) (test : Node),
      (x ∈ strays test → x = "propertyName") →
      x ∈ strays (names.foldl (fun test name =>
        .logical .or test (.binary .strictEq (.identifier "propertyName") (.string name))) test) →
      x = "propertyName" := by
    intro names
    induction names with
    | nil => exact fun test htest => htest
    | cons name names ih =>
      intro test htest
      refine ih _ fun hx => ?_
      simp only [strays, append_nil, mem_append, mem_singleton] at hx
      exact hx.elim htest id
  have hproperties := htest d.properties (.binary .eq (.identifier "propertyName") .null)
    (by simp [strays])
  unfold guard at h
  split at h
  · rcases mem_append.mp h with h | h
    · exact .inl (hproperties h)
    · exact .inr (by simpa [strays] using h)
  · exact .inl (hproperties h)

/-- **The function that applies the bindings is closed**, but for keys that look into `$parents`. -/
theorem mem_strays_updateFunction (k : Int) (h : ∀ d ∈ descriptors, Confined d)
    (hx : x ∈ strays (updateFunction k descriptors)) :
    IsLibrary x ∨ x = parentsName ∧ Looped descriptors := by
  have hbody : ∀ x ∈ straysIn (declareScope descriptors ++ descriptors.map fun d =>
      .ifStatement (guard d) (.block [apply d d.expression]) none),
      x = viewModelName ∨ x = "view" ∨ x = "propertyName" ∨ IsLibrary x ∨
        x = parentsName ∧ Looped descriptors := by
    intro x hx
    rcases mem_straysIn_append.mp hx with hx | ⟨hnew, hx⟩
    · rcases mem_straysIn_declareScope h hx with hx | hx | hx | hx
      · exact .inl hx
      · exact .inr (.inl hx)
      · exact .inr (.inr (.inr (.inl (.inl hx))))
      · exact .inr (.inr (.inr (.inr hx)))
    · obtain ⟨node, hnode, hx⟩ := Script.exists_of_mem_straysIn hx
      obtain ⟨d, hd, rfl⟩ := mem_map.mp hnode
      simp only [strays, straysIn, straysOption, append_nil, mem_append, mem_ungoverned,
        not_mem_nil, false_and, or_false] at hx
      rcases hx with hx | hx
      · rcases mem_strays_guard d hx with hx | hx
        · exact .inr (.inr (.inl hx))
        · exact .inr (.inl hx)
      · rcases mem_strays_apply d hx with hx | hx | hx
        · exact .inr (.inr (.inr (.inl (.inl hx))))
        · exact .inr (.inl hx)
        · rcases (h d hd).expression x hx with hx | hx
          · exact .inr (.inr (.inr (.inl hx)))
          · exact .inl ((declareScope_introduces hd (h d hd) hx).resolve_right hnew)
  simp only [updateFunction, strays, straysIn, straysAll, strays_statement, strays_runtimeCall,
    strays_view, sourceCallback, mem_ungoverned, mem_append, mem_cons, append_nil,
    not_mem_nil, or_false, boundAll, bound, bound_view, not_or] at hx
  grind [IsLibrary]

theorem parents_mem_strays_updateFunction (h : ∀ d ∈ descriptors, Confined d)
    (hlooped : Looped descriptors) : parentsName ∈ strays (updateFunction k descriptors) := by
  have hscope := parents_mem_straysIn_declareScope h hlooped
  have hbody : parentsName ∈ straysIn (declareScope descriptors ++ descriptors.map fun d =>
      .ifStatement (guard d) (.block [apply d d.expression]) none) :=
    mem_straysIn_append.mpr (.inl hscope)
  have hview : parentsName ≠ Text.ofString "view" := by decide
  have hcontext : parentsName ≠ Text.ofString "bindingContext" := by decide
  have hproperty : parentsName ≠ Text.ofString "propertyName" := by decide
  have hmodel : parentsName ≠ viewModelName := by decide
  simp [updateFunction, strays, straysIn, straysAll, sourceCallback, mem_ungoverned, boundAll,
    bound, hbody, hview, hcontext, hproperty, hmodel]

/-- **The function that follows a change of the context is closed**, but for the one that applies the
bindings. -/
theorem mem_strays_contextChangeFunction (k : Int)
    (hx : x ∈ strays (contextChangeFunction k descriptors)) : IsLibrary x ∨ x = updateName k := by
  have hunset : x ∈ straysIn (descriptors.map unset) → IsLibrary x ∨ x = "view" := by
    intro hx
    obtain ⟨node, hnode, hx⟩ := Script.exists_of_mem_straysIn hx
    obtain ⟨d, _, rfl⟩ := mem_map.mp hnode
    rcases mem_strays_apply d hx with hx | hx | hx
    · exact .inl (.inl hx)
    · exact .inr hx
    · split at hx
      · cases hx
      · exact .inl (.inr (by simpa [strays] using hx))
  have hlisten : ∀ names : List Text, x ∈ straysIn (names.map fun name =>
      statement (runtimeCall "addBindingSourceListener" [view, .memberNamed args "value",
        .string name, .identifier (updateName k)])) →
      x = runtimeName ∨ x = "view" ∨ x = "args" ∨ x = updateName k := by
    intro names hx
    obtain ⟨node, hnode, hx⟩ := Script.exists_of_mem_straysIn hx
    obtain ⟨name, _, rfl⟩ := mem_map.mp hnode
    simpa [straysAll, strays] using hx
  simp only [contextChangeFunction, strays, mem_ungoverned, mem_append, mem_straysIn_append,
    introducedIn, straysIn, straysAll, straysOption, Script.strays_letStatement,
    Script.strays_memberNamed, Script.introduced_letStatement, Script.introduced_ifStatement,
    strays_statement, strays_runtimeCall, strays_args, strays_view, Script.strays_callOf, boundAll,
    bound_args, introduced_statement, mem_cons, not_mem_nil, flatMap_cons,
    flatMap_nil] at hx
  grind [IsLibrary]

/-- The parts of a target that can be written to. -/
theorem mem_strays_splitTarget {target owner : Node} {key : TargetKey}
    (h : splitTarget? target = some (owner, key)) :
    (x ∈ strays owner → x ∈ strays target) ∧
      (x ∈ strays key.expression → x ∈ strays target) ∧
      (x ∈ strays (key.access (.identifier "owner")) → x = "owner" ∨ x ∈ strays target) := by
  unfold splitTarget? at h
  split at h
  · next object part computed _ =>
    split at h
    · next hcomputed =>
      cases h
      simp only [strays, TargetKey.expression, TargetKey.access, if_true, mem_append,
        mem_singleton]
      grind
    · split at h
      · cases h
        simp [strays, TargetKey.expression, TargetKey.access]
        grind
      · cases h
  · cases h

/-- **A function that writes a change back is closed**, but for keys that look into `$parents`. -/
theorem mem_strays_targetChangeFunction? {position : Nat} {node : Node} (h : Confined d)
    (hnode : targetChangeFunction? k position d = some node) (hx : x ∈ strays node) :
    IsLibrary x ∨ x = parentsName ∧ Looped [d] := by
  have hall : ∀ other ∈ [d], Confined other := forall_mem_singleton.mpr h
  have hscope := @mem_straysIn_declareScope x [d] hall
  have htarget := h.target x
  have hvalue := h.value x
  have hintroduced := @declareScope_introduces x d [d] mem_cons_self h
  unfold targetChangeFunction? at hnode
  generalize writeBack d = written at hnode htarget hvalue
  obtain ⟨⟨owner, key⟩, hsplit, rfl⟩ := Option.map_eq_some_iff.mp hnode
  obtain ⟨howner, hkey, haccess⟩ := @mem_strays_splitTarget x _ _ _ hsplit
  simp only [strays, straysIn, straysAll, straysOption, mem_ungoverned, mem_straysIn_append,
    sourceCallback, Script.strays_letStatement, Script.strays_memberNamed, strays_statement,
    strays_runtimeCall, Script.strays_assign, Script.strays_callOf, Script.introduced_letStatement,
    strays_args, strays_view, boundAll, bound_args, bound, mem_append, mem_cons,
    not_mem_nil] at hx
  grind [IsLibrary]

/-! ### All functions of a view -/

theorem mem_straysAll_targetCallbacks? {element : Text} {position : Nat} {c : Callbacks}
    (h : ∀ d ∈ descriptors, Confined d)
    (hc : targetCallbacks? k element position descriptors = some c)
    (hx : x ∈ straysAll c.declarations) : IsLibrary x ∨ x = parentsName ∧ Looped descriptors := by
  induction descriptors generalizing position c with
  | nil =>
    cases hc
    cases hx
  | cons d rest ih =>
    obtain ⟨hd, hrest⟩ := forall_mem_cons.mp h
    obtain ⟨declaration, hdeclaration, hc⟩ := Option.bind_eq_some_iff.mp hc
    obtain ⟨following, hfollowing, hc⟩ := Option.bind_eq_some_iff.mp hc
    cases hc
    rcases mem_append.mp hx with hx | hx
    · refine (mem_strays_targetChangeFunction? hd hdeclaration hx).imp_right ?_
      rintro ⟨hx, other, hother, hkey⟩
      exact ⟨hx, other, mem_cons.mpr (.inl (mem_singleton.mp hother)), hkey⟩
    · refine (ih hrest hfollowing hx).imp_right ?_
      rintro ⟨hx, other, hother, hkey⟩
      exact ⟨hx, other, mem_cons_of_mem _ hother, hkey⟩

/-- **The functions of a view are closed.**  Every name in them is bound by a parameter of a function
around it or by a declaration before it, or it is the support library, `undefined` or the function
that applies the bindings of the view.  There is one exception: `$parents` is stray if, and only if, a
key after `$parents` looks into `$parents` itself. -/
theorem callbacks_closed {k : Int} {element : Text} {c : Callbacks}
    (h : ∀ d ∈ descriptors, ∃ item, describe item = .ok d)
    (hc : callbacks? k element descriptors = some c) : (∀ x ∈ straysAll c.declarations,
      x = runtimeName ∨ x = "undefined" ∨ x = updateName k ∨
        x = parentsName ∧ Looped descriptors) ∧
    (parentsName ∈ straysAll c.declarations ↔ Looped descriptors) := by
  have hconfined : ∀ d ∈ descriptors, Confined d := by
    intro d hd
    obtain ⟨item, hitem⟩ := h d hd
    exact describe_confined hitem
  have hclosed : ∀ x ∈ straysAll c.declarations,
      x = runtimeName ∨ x = "undefined" ∨ x = updateName k ∨
        x = parentsName ∧ Looped descriptors := by
    intro x hx
    unfold callbacks? at hc
    split at hc
    · cases hc
      cases hx
    · obtain ⟨twoWay, htwoWay, hc⟩ := Option.bind_eq_some_iff.mp hc
      cases hc
      have htarget := fun hx => @mem_straysAll_targetCallbacks? x _ k element 0 twoWay
        (fun d hd => hconfined d (mem_of_mem_filter hd)) htwoWay hx
      simp only [straysAll, mem_append] at hx
      rcases hx with hx | hx | hx
      · rcases mem_strays_updateFunction k hconfined hx with (hx | hx) | hx
        · exact .inl hx
        · exact .inr (.inl hx)
        · exact .inr (.inr (.inr hx))
      · rcases mem_strays_contextChangeFunction k hx with (hx | hx) | hx
        · exact .inl hx
        · exact .inr (.inl hx)
        · exact .inr (.inr (.inl hx))
      · rcases htarget hx with (hx | hx) | ⟨hx, d, hd, hkey⟩
        · exact .inl hx
        · exact .inr (.inl hx)
        · exact .inr (.inr (.inr ⟨hx, d, mem_of_mem_filter hd, hkey⟩))
  refine ⟨hclosed, fun hx => ?_, fun hlooped => ?_⟩
  · rcases hclosed parentsName hx with hx | hx | hx | ⟨_, hlooped⟩
    · exact absurd hx (by decide)
    · exact absurd hx (by decide)
    · cases hx
    · exact hlooped
  · unfold callbacks? at hc
    split at hc
    · next hempty =>
      obtain ⟨d, hd, _⟩ := hlooped
      rw [isEmpty_iff.mp hempty] at hd
      cases hd
    · obtain ⟨twoWay, _, hc⟩ := Option.bind_eq_some_iff.mp hc
      cases hc
      exact mem_append_left _ (parents_mem_strays_updateFunction hconfined hlooped)

/-- The attribute `text` with a binding. -/
def boundText (value : Text) : Attribute where
  name := "text"
  propertyName := "text"
  qualifier := none
  value
  isEvent := false
  isSubProperty := false
  isBinding := true

/-- A binding of the attribute `text` with the functions of a view that has only this one. -/
def alone? (value : Text) : Option (BindingDescriptor × Callbacks) :=
  match describe (boundText value) with
  | .ok d => (callbacks? 0 "el0" [d]).map fun c => (d, c)
  | .error _ => none

theorem alone?_eq_some {value : Text} {c : Callbacks} (h : alone? value = some (d, c)) :
    describe (boundText value) = .ok d ∧ callbacks? 0 "el0" [d] = some c := by
  unfold alone? at h
  split at h
  · next hdescribe =>
    obtain ⟨c', hc, heq⟩ := Option.map_eq_some_iff.mp h
    cases heq
    exact ⟨hdescribe, hc⟩
  · cases h

/-- What holds of the functions of a single binding by evaluation. -/
theorem exists_alone {value : Text} {p : BindingDescriptor → Callbacks → Bool}
    (h : (alone? value).any (fun (d, c) => p d c) = true) :
    ∃ d c, describe (boundText value) = .ok d ∧ callbacks? 0 "el0" [d] = some c ∧ p d c = true := by
  cases halone : alone? value with
  | none =>
    rw [halone] at h
    cases h
  | some both =>
    rw [halone] at h
    obtain ⟨hdescribe, hc⟩ := alone?_eq_some halone
    exact ⟨both.1, both.2, hdescribe, hc, h⟩

/-- A two-way binding that looks up its parents under a key of its own value, through a converter. -/
theorem callbacks_closed_keyed :
    ∃ d c, describe (boundText "\x7b\x7b $parents[$value.kind].title | upper($parent) \x7d\x7d") =
        .ok d ∧ callbacks? 0 "el0" [d] = some c ∧ d.isTwoWay = true ∧ ¬ Looped [d] ∧
      ∀ x ∈ straysAll c.declarations, x = runtimeName ∨ x = "undefined" ∨ x = updateName 0 := by
  obtain ⟨d, c, hdescribe, hc, hboth⟩ := @exists_alone
    "\x7b\x7b $parents[$value.kind].title | upper($parent) \x7d\x7d"
    (fun d c => d.isTwoWay && !(straysAll c.declarations).contains parentsName) (by decide +kernel)
  rw [Bool.and_eq_true, Bool.not_eq_true'] at hboth
  obtain ⟨hclosed, hlooped⟩ := callbacks_closed (forall_mem_singleton.mpr ⟨_, hdescribe⟩) hc
  have hnot : ¬ Looped [d] := by
    intro h
    rw [contains_iff_mem.mpr (hlooped.mpr h)] at hboth
    cases hboth.2
  refine ⟨d, c, hdescribe, hc, hboth.1, hnot, fun x hx => ?_⟩
  rcases hclosed x hx with hx | hx | hx | ⟨_, hx⟩
  · exact .inl hx
  · exact .inr (.inl hx)
  · exact .inr (.inr hx)
  · exact absurd hx hnot

/-- **A key that looks into `$parents` is evaluated before `$parents` is there.** -/
theorem callbacks_looped :
    ∃ d c, describe (boundText "\x7b\x7b $parents[$parents.A.x].y \x7d\x7d") = .ok d ∧
      callbacks? 0 "el0" [d] = some c ∧ parentsName ∈ straysAll c.declarations := by
  obtain ⟨d, c, hdescribe, hc, hparents⟩ := @exists_alone
    "\x7b\x7b $parents[$parents.A.x].y \x7d\x7d"
    (fun _ c => (straysAll c.declarations).contains parentsName) (by decide +kernel)
  exact ⟨d, c, hdescribe, hc, contains_iff_mem.mp hparents⟩

end ViewMarkup.Binding
