import ViewMarkup.Proofs.Binding.Acceptance
import ViewMarkup.Proofs.Binding.Closed

/-!
# Converters there and back

A two-way binding with converters applies them one after the other to the bound value, and applies
them in reverse order to what is written back.  If each converter can be undone, so can all of them.

* `Link` is a converter as the runtime gets it, and `Link.Of` says which link a converter becomes.
* `Evaluation` is any way to evaluate expressions and to run converters.
* `value_back` goes back through a row of links.
* `describe_toModel` is the result for compiled bindings.
-/

namespace ViewMarkup.Binding

open List
open Script (Node strays straysAll mem_straysAll)

universe u

/-! ### Links -/

/-- A converter as the runtime gets it: what is called, and what it is given besides the value. -/
structure Link where
  reference : Node
  extras : List Node

namespace Link

variable {x : Text} {toModel : Bool} {value : Node}

/-- The call that sends a value through a link, to the model or away from it. -/
def applied (toModel : Bool) (value : Node) (link : Link) : Node :=
  runtimeCall "runConverterCallback"
    [link.reference, .array (value :: link.extras), .boolean toModel]

/-- The link that a converter becomes.  A call brings its arguments, and one `undefined` if it has
none. -/
inductive Of : Node → Link → Prop
  | arguments {callee : Node} {args : List Node} {optional : Bool} (h : args ≠ []) :
      Of (.call callee args optional) ⟨callee, args⟩
  | noArguments {callee : Node} {optional : Bool} :
      Of (.call callee [] optional) ⟨callee, [.identifier "undefined"]⟩
  | bare {converter : Node} (h : ∀ callee args optional, converter ≠ .call callee args optional) :
      Of converter ⟨converter, []⟩

theorem exists_of (converter : Node) :
    ∃ link, Of converter link ∧ ∀ toModel value,
      convert toModel value converter = applied toModel value link := by
  by_cases hcall : ∃ callee args optional, converter = .call callee args optional
  · obtain ⟨callee, args, optional, rfl⟩ := hcall
    cases args with
    | nil => exact ⟨_, .noArguments, fun _ _ => rfl⟩
    | cons arg args => exact ⟨_, .arguments (cons_ne_nil arg args), fun _ _ => rfl⟩
  · have hbare : ∀ callee args optional, converter ≠ .call callee args optional :=
      fun callee args optional heq => hcall ⟨callee, args, optional, heq⟩
    refine ⟨_, .bare hbare, fun _ _ => ?_⟩
    unfold convert
    split
    next reference args heq =>
      split at heq
      · exact absurd rfl (hbare _ _ _)
      · cases heq
        rfl

/-- Converters become links one by one, and in both directions the same. -/
theorem exists_links (converters : List Node) :
    ∃ links, List.Forall₂ Of converters links ∧ ∀ toModel value,
      converters.foldl (convert toModel) value = links.foldl (applied toModel) value ∧
      converters.reverse.foldl (convert toModel) value =
        links.reverse.foldl (applied toModel) value := by
  induction converters with
  | nil => exact ⟨[], .nil, fun _ _ => ⟨rfl, rfl⟩⟩
  | cons converter rest ih =>
    obtain ⟨link, hlink, hconvert⟩ := exists_of converter
    obtain ⟨links, hlinks, hfold⟩ := ih
    refine ⟨link :: links, .cons hlink hlinks, fun toModel value => ⟨?_, ?_⟩⟩
    · rw [foldl_cons, foldl_cons, hconvert, (hfold _ _).1]
    · simp only [reverse_cons, foldl_append, foldl_cons, foldl_nil,
        (hfold _ _).2, hconvert]

/-- The stray names of a link. -/
def strays (link : Link) : List Text :=
  Script.strays link.reference ++ straysAll link.extras

theorem strays_applied {link : Link} : x ∈ Script.strays (applied toModel value link) ↔
      x = runtimeName ∨ x ∈ Script.strays value ∨ x ∈ link.strays := by
  simp only [applied, strays, strays_runtimeCall, straysAll, Script.strays, mem_cons,
    mem_append, append_nil]
  grind

/-- A name that is stray in a link is stray in all that goes through it. -/
theorem mem_strays_foldl {links : List Link}
    (h : x ∈ Script.strays value ∨ ∃ link ∈ links, x ∈ link.strays) :
    x ∈ Script.strays (links.foldl (applied toModel) value) := by
  induction links generalizing value with
  | nil => simpa using h
  | cons link links ih =>
    refine ih ?_
    rw [strays_applied]
    grind

end Link

/-! ### Evaluation -/

/-- A way to evaluate expressions and to run converters.  Evaluation depends only on the names that
are stray, and the runtime is given a converter, an array of values and a direction. -/
structure Evaluation (V : Type u) where
  /-- The value of an expression. -/
  value : (Text → V) → Node → V
  /-- The values that an element of an array comes to; there may be any number if it is spread. -/
  elements : (Text → V) → Node → List V
  /-- What the runtime makes of a converter, the values given to it and the direction. -/
  run : V → List V → Bool → V
  value_name : ∀ env name, value env (.identifier name) = env name
  value_congr : ∀ {env env' e}, (∀ x ∈ strays e, env x = env' x) → value env e = value env' e
  elements_congr : ∀ {env env' e}, (∀ x ∈ strays e, env x = env' x) →
    elements env e = elements env' e
  elements_single : ∀ {env e}, (∀ argument, e ≠ .spread argument) → elements env e = [value env e]
  value_run : ∀ env reference items toModel,
    value env (runtimeCall "runConverterCallback" [reference, .array items, .boolean toModel]) =
      run (value env reference) (items.flatMap (elements env)) toModel

namespace Evaluation

variable {V : Type u} (m : Evaluation V) {env env' : Text → V} {link : Link} {links : List Link}
  {toModel : Bool} {value : Node}

/-- The values that a converter is given besides the value that is converted. -/
def extras (env : Text → V) (link : Link) : List V :=
  link.extras.flatMap (m.elements env)

/-- What the runtime makes of a value sent through a link. -/
def through (env : Text → V) (link : Link) (toModel : Bool) (v : V) : V :=
  m.run (m.value env link.reference) (v :: m.extras env link) toModel

/-- The converter of a link is undone on the way to the model. -/
def Undoes (env : Text → V) (link : Link) : Prop :=
  ∀ v, m.through env link true (m.through env link false v) = v

theorem value_applied (hvalue : ∀ argument, value ≠ .spread argument) :
    m.value env (link.applied toModel value) = m.through env link toModel (m.value env value) := by
  rw [Link.applied, m.value_run, flatMap_cons, m.elements_single hvalue]
  rfl

theorem through_congr (h : ∀ x ∈ link.strays, env x = env' x) (v : V) :
    m.through env link toModel v = m.through env' link toModel v := by
  have hreference : m.value env link.reference = m.value env' link.reference :=
    m.value_congr fun x hx => h x (mem_append_left _ hx)
  have hextras : m.extras env link = m.extras env' link := by
    refine flatMap_congr fun extra hextra => m.elements_congr fun x hx => ?_
    exact h x (mem_append_right _ (mem_straysAll.mpr ⟨extra, hextra, hx⟩))
  rw [through, through, hreference, hextras]

theorem foldl_applied_ne_spread (h : ∀ argument, value ≠ .spread argument) :
    ∀ argument, links.foldl (Link.applied toModel) value ≠ .spread argument := by
  induction links generalizing value with
  | nil => exact h
  | cons link links ih => exact ih nofun

/-- **Back through a row of links.**  Whatever a value became on its way through the links, going
through them in reverse order gives the value again. -/
theorem value_back {target written : Node} (htarget : ∀ argument, target ≠ .spread argument)
    (hwritten : ∀ argument, written ≠ .spread argument)
    (hundoes : ∀ link ∈ links, m.Undoes env link)
    (hagree : ∀ link ∈ links, ∀ x ∈ link.strays, env' x = env x)
    (h : m.value env' written = m.value env (links.foldl (Link.applied false) target)) :
    m.value env' (links.reverse.foldl (Link.applied true) written) = m.value env target := by
  -- The first link is the last one on the way back: the others start from what it made of the target.
  induction links generalizing target with
  | nil => exact h
  | cons link links ih =>
    obtain ⟨hlink, hlinks⟩ := forall_mem_cons.mp hundoes
    obtain ⟨hsame, hrest⟩ := forall_mem_cons.mp hagree
    have hback : m.value env' (links.reverse.foldl (Link.applied true) written) =
        m.value env (link.applied false target) := ih nofun hlinks hrest h
    rw [reverse_cons, foldl_append, foldl_cons, foldl_nil,
      m.value_applied (foldl_applied_ne_spread hwritten), hback, m.value_applied htarget,
      m.through_congr hsame, hlink]

end Evaluation

/-! ### Compiled bindings -/

variable {item : Attribute} {e bound : Node} {converters : List Node} {d : BindingDescriptor}

/-- A compiled binding does not refer to the value that is written back. -/
theorem value_not_mem_strays (h : describe item = .ok d) :
    Text.ofString "value" ∉ strays d.expression := by
  have hnames : ∀ x ∈ [runtimeName, "undefined", viewModelName, valueName, parentName, parentsName],
      Text.ofString "value" ≠ x := by decide
  intro hvalue
  rcases (describe_confined h).expression _ hvalue with hlibrary | hspoken
  · rcases hlibrary with heq | heq <;> exact hnames _ (by simp [heq]) rfl
  · rcases hspoken with heq | ⟨heq | heq, -⟩ | ⟨heq, -⟩ <;> exact hnames _ (by simp [heq]) rfl

theorem qualify_ne_spread (h : Reference bound) (argument : Node) :
    qualify bound ≠ .spread argument := by
  cases h with
  | name name =>
    rw [qualify, Node.memberNamed, Node.accessNamed]
    split <;> [skip; split] <;> simp
  | part h key computed optional => simp [qualify]

/-- **The way back undoes the way there.**  A two-way binding with converters is written back to the
bound value.  Each converter is one link of both expressions, in reverse order on the way back.  If
every link can be undone, evaluating what is written back with `value` set to the value of the binding
gives the bound value. -/
theorem describe_toModel (h : describe item = .ok d) (htwoWay : d.isTwoWay = true)
    (hcontent : Content item.value e) (hpiped : Piped e bound converters) (hsome : converters ≠ []) :
    ∃ links written, List.Forall₂ Link.Of (converters.map qualify) links ∧
      d.toModel = some (qualify bound, written) ∧
      d.expression = links.foldl (Link.applied false) (qualify bound) ∧
      written = links.reverse.foldl (Link.applied true) (.identifier "value") ∧
      ∀ {V : Type u} (m : Evaluation V) (env : Text → V), (∀ link ∈ links, m.Undoes env link) →
        m.value (fun x => if x = "value" then m.value env d.expression else env x) written =
          m.value env (qualify bound) := by
  have hreference : Reference bound := ((describe_isTwoWay h hcontent hpiped).mp htwoWay).2.2.1
  have hfresh := value_not_mem_strays h
  obtain ⟨-, rfl⟩ := eq_descriptorOf h hcontent hpiped
  obtain ⟨links, hlinks, hfold⟩ := Link.exists_links (converters.map qualify)
  have hforward : (descriptorOf item bound converters).expression =
      links.foldl (Link.applied false) (qualify bound) := by
    rw [← (hfold _ _).1, ← qualifyAll_eq_map]
    rfl
  refine ⟨links, _, hlinks, ?_, hforward, rfl, fun m env hundoes => ?_⟩
  · have hwrites : writesBack item bound converters = true := htwoWay
    have hnonempty : (qualifyAll converters).isEmpty = false := by
      rw [qualifyAll_eq_map]
      simpa using hsome
    rw [← (hfold _ _).2, ← qualifyAll_eq_map]
    simp [descriptorOf, hwrites, hnonempty]
  · refine m.value_back (qualify_ne_spread hreference) (by simp) hundoes ?_ ?_
    · intro link hlink x hx
      refine if_neg fun heq => hfresh ?_
      rw [hforward, ← heq]
      exact Link.mem_strays_foldl (.inr ⟨link, hlink, hx⟩)
    · rw [m.value_name, if_pos rfl, hforward]

/-- The values of expressions if every converter adds one. -/
def shifted (env : Text → Int) : Node → Int
  | .identifier name => env name
  | .call _ [_, .array (value :: _), .boolean toModel] _ =>
    shifted env value + if toModel then -1 else 1
  | _ => 0

theorem shifted_congr {env env' : Text → Int} (h : ∀ x ∈ strays e, env x = env' x) :
    shifted env e = shifted env' e := by
  fun_induction shifted env e with
  | case1 name => exact h name mem_cons_self
  | case2 callee reference value extras toModel optional ih =>
    rw [shifted, ih fun x hx => h x (by simp [strays, straysAll, hx])]
  | case3 e hname hcall =>
    rw [shifted]
    · exact hname
    · exact hcall

/-- The evaluation in which every converter adds one. -/
def shift : Evaluation Int where
  value := shifted
  elements env e := [shifted env e]
  run _ values toModel := match values with
    | [] => 0
    | value :: _ => value + if toModel then -1 else 1
  value_name _ _ := by rw [shifted]
  value_congr h := shifted_congr h
  elements_congr h := by rw [shifted_congr h]
  elements_single _ := rfl
  value_run _ _ items _ := by cases items <;> rfl

/-- Three converters, one of them without arguments and one with, undone one after the other. -/
theorem describe_toModel_shift :
    ∃ d target written, d.toModel = some (target, written) ∧
      describe (boundText "\x7b\x7b user.name | trim | pad(width) | upper() \x7d\x7d") = .ok d ∧
      ∀ env, shift.value (fun x => if x = "value" then shift.value env d.expression else env x) written =
        shift.value env target := by
  obtain ⟨d, c, hdescribe, -, hd⟩ := @exists_alone
    "\x7b\x7b user.name | trim | pad(width) | upper() \x7d\x7d"
    (fun d _ => d.isTwoWay && d.toModel.isSome) (by decide +kernel)
  rw [Bool.and_eq_true] at hd
  obtain ⟨e, bound, converters, hcontent, hpiped⟩ := exists_content hdescribe
  have hsome : converters ≠ [] := by
    rintro rfl
    obtain ⟨-, rfl⟩ := eq_descriptorOf hdescribe hcontent hpiped
    simp [descriptorOf, qualifyAll] at hd
  obtain ⟨links, written, -, hmodel, -, -, hundone⟩ :=
    describe_toModel hdescribe hd.1 hcontent hpiped hsome
  refine ⟨d, _, written, hmodel, hdescribe, fun env => hundone shift env fun link _ v => ?_⟩
  show v + 1 + -1 = v
  omega

end ViewMarkup.Binding
