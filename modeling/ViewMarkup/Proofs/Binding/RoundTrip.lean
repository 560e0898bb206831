import Mathlib.Data.List.TakeWhile
import ViewMarkup.Binding.Descriptor
import ViewMarkup.Proofs.Script.Programs
import ViewMarkup.Proofs.Script.Soundness

/-!
# Printed programs and bindings are read back

What reading a text gives can be printed, and reading the printed text gives it again.  The same is
true of the expression that a binding is compiled to, although nobody wrote that one.

* `describe_eq_ok` says what a compiled binding is made of.
* `readable_qualify`: moving an expression under the view model keeps it readable.
* `readable_expression`: so does applying the converters.
* `parse_print_eq_self` puts the parts together.
-/

namespace ViewMarkup

open List
open Script

namespace Binding

variable {e : Node} {item : Attribute} {name : Text} {converters : List Node}
  {d : BindingDescriptor} {bound object : Node} {nodes : List Node} {P : Node → Prop} {value : Text}
  {toModel : Bool}

/-! ### What a compiled binding is made of -/

/-- Whether changes of the view are written back to the bound value. -/
def writesBack (item : Attribute) (bound : Node) (converters : List Node) : Bool :=
  !item.isEvent && !item.isSubProperty && isReference bound &&
    !(distinct (namesOf (uses bound ++ usesAll converters))).isEmpty

/-- The descriptor of a bound value and its converters. -/
def descriptorOf (item : Attribute) (bound : Node) (converters : List Node) : BindingDescriptor where
  propertyName := item.propertyName
  qualifier := item.qualifier
  isEvent := item.isEvent
  isSubProperty := item.isSubProperty
  expression := (qualifyAll converters).foldl (convert false) (qualify bound)
  properties := distinct (namesOf (uses bound ++ usesAll converters))
  isTwoWay := writesBack item bound converters
  parentKeys := parentKeysOf (uses bound ++ usesAll converters)
  specialCount := specialCountOf (uses bound ++ usesAll converters)
  toModel :=
    if writesBack item bound converters && !(qualifyAll converters).isEmpty then
      some (qualify bound,
        (qualifyAll converters).reverse.foldl (convert true) (.identifier "value"))
    else none
  source := item.value

/-- What a binding has to be like to be compiled: a single allowed expression, split into the bound
value and its converters, in which every `$parents` has a key. -/
structure Accepts (item : Attribute) (bound : Node) (converters : List Node) : Prop where
  read : ∃ code e, extract item.value = .ok code ∧ parse code = .ok [.expressionStatement e] ∧
    allowed e = true ∧ unwrap item.value [] e = .ok (bound, converters)
  keyed : hasBareParents (uses bound ++ usesAll converters) = false

theorem single_eq_ok {code : Text} (h : single code value = .ok e) :
    parse code = .ok [.expressionStatement e] := by
  unfold single at h
  split at h
  · cases h
  · next hparse =>
    cases h
    exact hparse
  · cases h

theorem describe_eq_ok (h : describe item = .ok d) :
    ∃ bound converters, Accepts item bound converters ∧ d = descriptorOf item bound converters := by
  obtain ⟨code, hextract, h⟩ := exists_of_bind_eq_ok h
  obtain ⟨e, hsingle, h⟩ := exists_of_bind_eq_ok h
  dsimp only at h
  split at h
  · cases h
  · next hallowed =>
    obtain ⟨⟨bound, converters⟩, hunwrap, h⟩ := exists_of_bind_eq_ok h
    split at h
    · cases h
    · next hbare =>
      cases h
      refine ⟨bound, converters, ⟨⟨code, e, hextract, single_eq_ok hsingle, ?_, hunwrap⟩, ?_⟩, rfl⟩
      · simpa using hallowed
      · simpa using hbare

/-- What is accepted is compiled. -/
theorem Accepts.describe (h : Accepts item bound converters) :
    describe item = .ok (descriptorOf item bound converters) := by
  obtain ⟨⟨code, e, hextract, hparse, hallowed, hunwrap⟩, hkeyed⟩ := h
  have hsingle : single code item.value = .ok e := by rw [single, hparse]
  simp only [Binding.describe, hextract, hsingle, hallowed, hunwrap, hkeyed, bind, Except.bind]
  rfl

/-! ### Moving an expression under the view model -/

theorem memberNamed_of_isWord (h : IsWord name) :
    Node.memberNamed object name = .member object (.identifier name) false false := by
  rw [Node.memberNamed, Node.accessNamed, if_pos (isIdentifier_iff.2 ⟨_, h, .inl rfl⟩)]

theorem isName_viewModelName : IsName viewModelName where
  word := by decide
  constant := by decide
  keyword := by decide

theorem isName_runtimeName : IsName runtimeName where
  word := by decide
  constant := by decide
  keyword := by decide

theorem isName_undefined : IsName "undefined" where
  word := by decide
  constant := by decide
  keyword := by decide

theorem readable_qualify_identifier (h : IsName name) :
    Readable false .expression (qualify (.identifier name)) := by
  rw [qualify]
  split
  · exact .identifier h
  · rw [memberNamed_of_isWord h.word]
    exact .part (.identifier isName_viewModelName) h.word

theorem qualifyAll_eq_map (nodes : List Node) : qualifyAll nodes = nodes.map qualify := by
  induction nodes with
  | nil => rw [qualifyAll, map_nil]
  | cons node rest ih => rw [qualifyAll, ih, map_cons]

theorem allowed_of_mem (h : allowedAll nodes = true) {node : Node}
    (hnode : node ∈ nodes) : allowed node = true := by
  induction nodes with
  | nil => cases hnode
  | cons first rest ih =>
    rw [allowedAll, Bool.and_eq_true] at h
    rcases mem_cons.mp hnode with rfl | hnode
    · exact h.1
    · exact ih h.2 hnode

/-- What holds of the moved members of a list, given that it holds of each that is allowed. -/
theorem forall_mem_qualifyAll
    (h : ∀ e ∈ nodes, allowed e = true → P (qualify e)) (hallowed : allowedAll nodes = true) :
    ∀ e ∈ qualifyAll nodes, P e := by
  rw [qualifyAll_eq_map]
  exact forall_mem_map.mpr fun e he => h e he (allowed_of_mem hallowed he)

/-- The pieces of the text of a template literal stay as they are. -/
theorem qualifyAll_pieces {n : Nat} {quasis : List Node} (h : ArePieces n quasis) :
    qualifyAll quasis = quasis := by
  induction h with
  | last h => rw [qualifyAll, qualifyAll, qualify] <;> nofun
  | cons h _ ih => rw [qualifyAll, ih, qualify] <;> nofun

/-- The object of an access keeps being readable, whether it is moved or is `$parents`. -/
theorem readable_object (h : Readable false .expression (qualify object)) :
    Readable false .expression (if isParents object then object else qualify object) := by
  split
  · next hparents =>
    unfold isParents at hparents
    split at hparents
    · next name =>
      have hspecial : isSpecial name = true := by simp [isSpecial, of_decide_eq_true hparents]
      rwa [qualify, if_pos hspecial] at h
    · cases hparents
  · exact h

/-- **Moved expressions are readable.**  What may stand in a binding has no arrow functions, so none
are let through afterwards. -/
theorem readable_qualify {arrows : Bool} {place : Place} (h : Readable arrows place e)
    (hallowed : allowed e = true) : Readable false place (qualify e) := by
  induction h with
  | identifier h => exact readable_qualify_identifier h
  | string value => exact .string value
  | number h => exact .number h
  | boolean value => exact .boolean value
  | null => exact .null
  | this | update _ _ _ _ | assignment _ _ _ _ _ _ | sequence _ _ _ | arrow _ _ _ => cases hallowed
  | template hquasis _ ih =>
    rw [allowed, Bool.and_eq_true] at hallowed
    rw [qualify, qualifyAll_pieces hquasis]
    refine .template ?_ (forall_mem_qualifyAll ih hallowed.2)
    rwa [qualifyAll_eq_map, length_map]
  | array _ ih =>
    exact .array (forall_mem_qualifyAll ih hallowed)
  | object _ ih =>
    exact .object (forall_mem_qualifyAll ih hallowed)
  | part _ hname ih =>
    rw [allowed, Bool.and_eq_true] at hallowed
    exact .part (readable_object (ih hallowed.1)) hname
  | index _ _ ihobject ihkey =>
    rw [allowed, Bool.and_eq_true] at hallowed
    exact .index (readable_object (ihobject hallowed.1)) (ihkey hallowed.2)
  | call _ _ ihcallee ihargs =>
    rw [allowed, Bool.and_eq_true] at hallowed
    exact .call (ihcallee hallowed.1) (forall_mem_qualifyAll ihargs hallowed.2)
  | new _ _ ihcallee ihargs =>
    rw [allowed, Bool.and_eq_true] at hallowed
    exact .new (ihcallee hallowed.1) (forall_mem_qualifyAll ihargs hallowed.2)
  | conditional _ _ _ ihtest ihconsequent ihalternate =>
    rw [allowed, Bool.and_eq_true, Bool.and_eq_true] at hallowed
    exact .conditional (ihtest hallowed.1.1) (ihconsequent hallowed.1.2) (ihalternate hallowed.2)
  | binary hop hkind _ _ ihleft ihright =>
    rw [allowed, Bool.and_eq_true] at hallowed
    exact .binary hop hkind (ihleft hallowed.1) (ihright hallowed.2)
  | logical hop hkind _ _ ihleft ihright =>
    rw [allowed, Bool.and_eq_true] at hallowed
    exact .logical hop hkind (ihleft hallowed.1) (ihright hallowed.2)
  | unary hop _ ih => exact .unary hop (ih hallowed)
  | argument _ ih => exact .argument (ih hallowed)
  | spread _ ih => exact .spread (ih hallowed)
  | element _ ih => exact .element (ih hallowed)
  | hole => exact .hole
  | named hkey _ ih =>
    rw [allowed, Bool.and_eq_true] at hallowed
    exact .named hkey (ih hallowed.2)
  | computed _ _ ihkey ihvalue =>
    rw [allowed, Bool.and_eq_true] at hallowed
    exact .computed (ihkey hallowed.1) (ihvalue hallowed.2)
  | abbreviated h => exact .named (.word h.word) (readable_qualify_identifier h)
  | rest _ ih => exact .rest (ih hallowed)

/-! ### Converters -/

/-- What the parts of an expression have in common with the whole, whether it is the bound value or
a converter. -/
theorem unwrap_eq_ok
    (hP : ∀ left right, P (.binary .bitOr left right) → P left ∧ P right) {later : List Node} (h : unwrap value later e = .ok (bound, converters))
    (he : P e) (hlater : ∀ c ∈ later, P c) : P bound ∧ ∀ c ∈ converters, P c := by
  fun_induction unwrap value later e with
  | case1 later left right _ ih =>
    obtain ⟨hleft, hright⟩ := hP left right he
    exact ih h hleft (forall_mem_cons.mpr ⟨hright, hlater⟩)
  | case2 => cases h
  | case3 later e _ =>
    cases h
    exact ⟨he, hlater⟩

/-- A readable expression that a binding may hold. -/
def IsBindable (e : Node) : Prop :=
  Readable true .expression e ∧ allowed e = true

theorem isBindable_parts (left right : Node) (h : IsBindable (.binary .bitOr left right)) :
    IsBindable left ∧ IsBindable right := by
  obtain ⟨hread, hallowed⟩ := h
  rw [allowed, Bool.and_eq_true] at hallowed
  cases hread with
  | binary _ _ hleft hright => exact ⟨⟨hleft, hallowed.1⟩, ⟨hright, hallowed.2⟩⟩

/-- The bound value and the converters of a compiled binding. -/
theorem Accepts.bindable (h : Accepts item bound converters) :
    IsBindable bound ∧ ∀ c ∈ converters, IsBindable c := by
  obtain ⟨code, e, -, hparse, hallowed, hunwrap⟩ := h.read
  have hstatement := readable_of_parse hparse _ (mem_singleton_self _)
  cases hstatement with
  | expression hread => exact unwrap_eq_ok isBindable_parts hunwrap ⟨hread, hallowed⟩ (by simp)

theorem readable_runtimeCall {method : Text} {args : List Node} (hmethod : IsWord method)
    (hargs : ∀ e ∈ args, Readable false .argument e) :
    Readable false .expression (runtimeCall method args) := by
  rw [runtimeCall, runtimeMember, memberNamed_of_isWord hmethod]
  exact .call (.part (.identifier isName_runtimeName) hmethod) hargs

theorem readable_convert {value converter : Node}
    (hvalue : Readable false .expression value) (hconverter : Readable false .expression converter) :
    Readable false .expression (convert toModel value converter) := by
  -- All converters come to the same call, with a reference and some further arguments.
  have hcall {reference : Node} {args : List Node} (hreference : Readable false .expression reference)
      (hargs : ∀ e ∈ args, Readable false .argument e) :
      Readable false .expression (runtimeCall "runConverterCallback"
        [reference, .array (value :: args), .boolean toModel]) := by
    refine readable_runtimeCall (by decide) ?_
    have harray : Readable false .expression (.array (value :: args)) :=
      .array (forall_mem_cons.mpr ⟨.element (.argument hvalue), fun e he => .element (hargs e he)⟩)
    simp only [forall_mem_cons]
    exact ⟨.argument hreference, .argument harray, .argument (.boolean toModel), forall_mem_nil _⟩
  cases converter with
  | call callee args optional =>
    cases hconverter with
    | call hcallee hargs =>
      refine hcall hcallee ?_
      split
      · exact forall_mem_singleton.mpr (.argument (.identifier isName_undefined))
      · exact hargs
  | _ => exact hcall hconverter (by simp)

theorem readable_foldl_convert {value : Node} (hvalue : Readable false .expression value)
    (hconverters : ∀ c ∈ converters, Readable false .expression c) :
    Readable false .expression (converters.foldl (convert toModel) value) := by
  induction converters generalizing value with
  | nil => exact hvalue
  | cons c rest ih =>
    rw [forall_mem_cons] at hconverters
    exact ih (readable_convert hvalue hconverters.1) hconverters.2

/-- **The expression of a compiled binding is readable.** -/
theorem readable_expression (h : describe item = .ok d) :
    Readable false .expression d.expression := by
  obtain ⟨bound, converters, haccepts, rfl⟩ := describe_eq_ok h
  obtain ⟨hbound, hconverters⟩ := haccepts.bindable
  refine readable_foldl_convert (readable_qualify hbound.1 hbound.2) ?_
  rw [qualifyAll_eq_map]
  exact forall_mem_map.mpr fun c hc =>
    readable_qualify (hconverters c hc).1 (hconverters c hc).2

end Binding

namespace Script

/-- **Reading undoes printing.**  Every program that reading a text can give, arrow functions apart,
is printed as a text that is read as the same program, node for node.  The expression that a binding
is compiled to is printed as a statement that is read as that one expression. -/
theorem parse_print_eq_self :
    (∀ source body, parse source = .ok body → arrowFreeAll body = true →
      ∃ text, print (.program body) = .ok text ∧ parse text = .ok body) ∧
    ∀ item d, Binding.describe item = .ok d →
      ∃ text, print (.expressionStatement d.expression) = .ok text ∧
        parse text = .ok [.expressionStatement d.expression] := by
  constructor
  · intro source body hparse hfree
    exact parse_print_program fun node hnode =>
      (readable_of_parse hparse node hnode).withoutArrows (arrowFree_of_mem hfree hnode)
  · intro item d hdescribe
    exact parse_print_statement (.expression (Binding.readable_expression hdescribe))

/-- A program with an empty statement, nested signs, operators that do not mix, and a call as the
callee of `new`. -/
def sampleProgram : List Node :=
  [.emptyStatement,
    .expressionStatement (.logical .coalesce
      (.unary .minus (.unary .minus (.identifier "a")))
      (.logical .or (.identifier "b")
        (.member (.new (.call (.identifier "f") [] false) [.spread (.identifier "c")])
          (.identifier "d") false false)))]

/-- A binding of a member to a text, through a converter with an argument. -/
def sampleBinding : Attribute where
  name := "text"
  propertyName := "text"
  qualifier := none
  value := "\x7b\x7b user.name | upper(locale) \x7d\x7d"
  isEvent := false
  isSubProperty := false
  isBinding := true

theorem parse_print_eq_self_sample :
    (∃ text, parse "; -(-a) ?? (b || new (f())(...c).d)" = .ok sampleProgram ∧
      print (.program sampleProgram) = .ok text ∧ parse text = .ok sampleProgram) ∧
    ∃ d text, Binding.describe sampleBinding = .ok d ∧ d.isTwoWay = true ∧
      print (.expressionStatement d.expression) = .ok text ∧
        parse text = .ok [.expressionStatement d.expression] := by
  have hparse : parse "; -(-a) ?? (b || new (f())(...c).d)" = .ok sampleProgram := by cbv
  have hbinding : parse "user.name | upper(locale)" = .ok [.expressionStatement (.binary .bitOr
      (.member (.identifier "user") (.identifier "name") false false)
      (.call (.identifier "upper") [.identifier "locale"] false))] := by cbv
  have haccepts : Binding.Accepts sampleBinding
      (.member (.identifier "user") (.identifier "name") false false)
      [.call (.identifier "upper") [.identifier "locale"] false] :=
    ⟨⟨_, _, by cbv, hbinding, by decide, rfl⟩, by decide⟩
  constructor
  · obtain ⟨text, hprint, hagain⟩ := parse_print_eq_self.1 _ _ hparse (by decide)
    exact ⟨text, hparse, hprint, hagain⟩
  · obtain ⟨text, hprint, hagain⟩ := parse_print_eq_self.2 _ _ haccepts.describe
    exact ⟨_, text, haccepts.describe, by decide, hprint, hagain⟩

end Script

end ViewMarkup
