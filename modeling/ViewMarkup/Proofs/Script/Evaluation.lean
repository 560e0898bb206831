import ViewMarkup.Proofs.Script.Scope

/-!
# Evaluating expressions

What an expression of generated code comes to, as far as the code itself decides it.  Names are
looked up among those that are there, and evaluation ends with a missing name; tests, comparisons with
nothing and links that may be left out are evaluated as written.  What the parts of objects are and
what functions return is up to the host.

* `eval` evaluates an expression.
* `exists_eval` says that no name is missing if all stray names of the expression are there.
-/

namespace ViewMarkup.Script

variable {first rest : List Text}

/-- A value of a running program. -/
inductive Value where
  | undefined
  | null
  | boolean (value : Bool)
  | string (value : Text)
  /-- A number, an object or a function. -/
  | other (id : Nat)
  deriving DecidableEq

/-- Whether a value is one of the two that stand for nothing. -/
def Value.isNullish : Value → Bool
  | undefined | null => true
  | _ => false

/-- What the host of a program decides. -/
structure Host where
  /-- Whether a number, an object or a function counts as true. -/
  isTrue : Nat → Bool
  /-- Whether two values are equal, where the language leaves more to say than the values show. -/
  equal : Value → Value → Bool
  /-- The part of a value under a key. -/
  part : Value → Value → Value
  /-- The result of any other operation on the values of its operands. -/
  result : Node → List Value → Value

namespace Host

variable (host : Host)

/-- Whether a value counts as true. -/
def truth : Value → Bool
  | .undefined | .null => false
  | .boolean value => value
  | .string value => !value.isEmpty
  | .other id => host.isTrue id

/-- Whether two values are the same; only numbers and objects are compared by the host. -/
def same : Value → Value → Bool
  | .other a, .other b => host.equal (.other a) (.other b)
  | a, b => a = b

/-- Whether two values are equal after conversion; nothing is equal only to nothing. -/
def alike (a b : Value) : Bool :=
  if a.isNullish || b.isNullish then a.isNullish && b.isNullish else host.equal a b

/-- The result of an operator on two values. -/
def binary (op : BinaryOp) (node : Node) (a b : Value) : Value :=
  match op with
  | .eq => .boolean (host.alike a b)
  | .ne => .boolean (!host.alike a b)
  | .strictEq => .boolean (host.same a b)
  | .strictNe => .boolean (!host.same a b)
  | _ => host.result node [a, b]

end Host

/-- The names that are there, with their values. -/
abbrev Env := Text → Option Value

namespace Env

/-- A name gets a value. -/
def bind (env : Env) (name : Text) (value : Value) : Env := fun x =>
  if x = name then some value else env x

/-- Names that are declared further on are not there yet. -/
def hide (env : Env) (names : List Text) : Env := fun x =>
  if x ∈ names then none else env x

end Env

mutual

/-- What an expression comes to, or the name that is missing. -/
def eval (host : Host) (env : Env) : Node → Except Text Value
  | .identifier name =>
    match env name with
    | some value => .ok value
    | none => .error name
  | .string value => .ok (.string value)
  | .boolean value => .ok (.boolean value)
  | .null => .ok .null
  | .member object key computed optional => do
    let value ← eval host env object
    if optional && value.isNullish then return .undefined
    else if computed then return host.part value (← eval host env key)
    else
      match key with
      | .identifier name => return host.part value (.string name)
      | key => return host.result key [value]
  | .call callee args optional => do
    let value ← eval host env callee
    if optional && value.isNullish then return .undefined
    else return host.result (.call callee args optional) (value :: (← evalAll host env args))
  | .new callee args => do
    return host.result (.new callee args)
      ((← eval host env callee) :: (← evalAll host env args))
  | .conditional test consequent alternate => do
    if host.truth (← eval host env test) then eval host env consequent
    else eval host env alternate
  | .logical op left right => do
    let value ← eval host env left
    match op with
    | .or => if host.truth value then return value else eval host env right
    | .and => if host.truth value then eval host env right else return value
    | _ => if value.isNullish then eval host env right else return value
  | .binary op left right => do
    return host.binary op (.binary op left right) (← eval host env left) (← eval host env right)
  | .unary op argument => do return host.result (.unary op argument) [← eval host env argument]
  | .assignment op left right => do
    return host.result (.assignment op left right) [← eval host env left, ← eval host env right]
  | .spread argument => eval host env argument
  | .array items => do return host.result (.array items) (← evalAll host env items)
  | .object properties => do
    return host.result (.object properties) (← evalAll host env properties)
  | .property key value computed shorthand => do
    if computed then
      return host.result (.property key value computed shorthand)
        [← eval host env key, ← eval host env value]
    else
      return host.result (.property key value computed shorthand) [← eval host env value]
  | .template quasis es => do return host.result (.template quasis es) (← evalAll host env es)
  | node => .ok (host.result node [])

/-- What expressions come to, from left to right. -/
def evalAll (host : Host) (env : Env) : List Node → Except Text (List Value)
  | [] => .ok []
  | node :: rest => do return (← eval host env node) :: (← evalAll host env rest)

end

variable {host : Host} {env : Env}

/-- All names are there. -/
def Env.Has (env : Env) (names : List Text) : Prop :=
  ∀ x ∈ names, (env x).isSome = true

theorem Env.Has.left (h : env.Has (first ++ rest)) : env.Has first :=
  fun x hx => h x (List.mem_append_left _ hx)

theorem Env.Has.right (h : env.Has (first ++ rest)) : env.Has rest :=
  fun x hx => h x (List.mem_append_right _ hx)

theorem exists_eval_identifier {name : Text} (h : env.Has (strays (.identifier name))) :
    ∃ value, eval host env (.identifier name) = .ok value := by
  obtain ⟨value, hvalue⟩ := Option.isSome_iff_exists.mp (h name List.mem_cons_self)
  exact ⟨value, by rw [eval, hvalue]⟩

theorem exists_eval_member {object key : Node} {computed optional : Bool}
    (hobject : ∃ value, eval host env object = .ok value)
    (hkey : computed = true → ∃ value, eval host env key = .ok value) :
    ∃ value, eval host env (.member object key computed optional) = .ok value := by
  obtain ⟨value, hvalue⟩ := hobject
  rw [eval, hvalue]
  simp only [bind, Except.bind]
  split
  · exact ⟨_, rfl⟩
  · cases computed with
    | true =>
      obtain ⟨part, hpart⟩ := hkey rfl
      rw [if_pos rfl, hpart]
      exact ⟨_, rfl⟩
    | false =>
      rw [if_neg Bool.false_ne_true]
      split <;> exact ⟨_, rfl⟩

theorem exists_eval_logical {op : BinaryOp} {left right : Node}
    (hleft : ∃ value, eval host env left = .ok value)
    (hright : ∃ value, eval host env right = .ok value) :
    ∃ value, eval host env (.logical op left right) = .ok value := by
  obtain ⟨a, ha⟩ := hleft
  obtain ⟨b, hb⟩ := hright
  rw [eval, ha, hb]
  simp only [bind, Except.bind]
  split <;> split <;> exact ⟨_, rfl⟩

mutual

/-- **An expression whose stray names are there comes to a value.** -/
theorem exists_eval : ∀ e : Node, env.Has (strays e) → ∃ value, eval host env e = .ok value
  | .identifier _, h => exists_eval_identifier h
  | .member object key computed _, h => by
      refine exists_eval_member (exists_eval object h.left) fun hcomputed => ?_
      rw [hcomputed] at h
      exact exists_eval key h.right
  | .logical _ left right, h => by
      exact exists_eval_logical (exists_eval left h.left) (exists_eval right h.right)
  | .call callee args _, h => by
      obtain ⟨f, hf⟩ := exists_eval callee h.left
      obtain ⟨vs, hvs⟩ := exists_evalAll args h.right
      rw [eval, hf, hvs]
      simp only [bind, Except.bind]
      split <;> exact ⟨_, rfl⟩
  | .new callee args, h => by
      rw [strays] at h
      obtain ⟨f, hf⟩ := exists_eval callee h.left
      obtain ⟨vs, hvs⟩ := exists_evalAll args h.right
      rw [eval, hf, hvs]
      exact ⟨_, rfl⟩
  | .conditional test consequent alternate, h => by
      obtain ⟨a, ha⟩ := exists_eval test h.left.left
      obtain ⟨b, hb⟩ := exists_eval consequent h.left.right
      obtain ⟨c, hc⟩ := exists_eval alternate h.right
      rw [eval, ha, hb, hc]
      simp only [bind, Except.bind]
      split <;> exact ⟨_, rfl⟩
  | .binary _ left right, h | .assignment _ left right, h => by
      obtain ⟨a, ha⟩ := exists_eval left h.left
      obtain ⟨b, hb⟩ := exists_eval right h.right
      rw [eval, ha, hb]
      exact ⟨_, rfl⟩
  | .unary _ argument, h => by
      obtain ⟨a, ha⟩ := exists_eval argument h
      rw [eval, ha]
      exact ⟨_, rfl⟩
  | .spread argument, h => by
      exact exists_eval argument h
  | .array items, h | .object items, h => by
      obtain ⟨vs, hvs⟩ := exists_evalAll items h
      rw [eval, hvs]
      exact ⟨_, rfl⟩
  | .property key value computed _, h => by
      rw [strays] at h
      obtain ⟨b, hb⟩ := exists_eval value h.right
      rw [eval, hb]
      cases computed with
      | true =>
        obtain ⟨a, ha⟩ := exists_eval key h.left
        rw [ha]
        exact ⟨_, rfl⟩
      | false => exact ⟨_, rfl⟩
  | .template quasis es, h => by
      obtain ⟨vs, hvs⟩ := exists_evalAll es h.right
      rw [eval, hvs]
      exact ⟨_, rfl⟩
  | .string _, _ | .boolean _, _ | .null, _
  | .number _ _, _ | .this, _ | .templateElement _ _ _, _ | .hole, _ | .update _ _ _, _
  | .sequence _, _ | .arrow _ _, _ | .assignmentPattern _ _, _ | .objectPattern _, _
  | .expressionStatement _, _ | .emptyStatement, _ | .declarator _ _, _ | .declaration _ _, _
  | .block _, _ | .ifStatement _ _ _, _ | .returnStatement _, _ | .tryStatement _ _, _
  | .function _ _ _, _ | .method _ _ _, _ | .classDeclaration _ _, _ | .exportDefault _, _
  | .program _, _ => ⟨_, rfl⟩

theorem exists_evalAll : ∀ es : List Node, env.Has (straysAll es) →
    ∃ values, evalAll host env es = .ok values
  | [], _ => ⟨[], by rw [evalAll]⟩
  | e :: es, h => by
      obtain ⟨v, hv⟩ := exists_eval e h.left
      obtain ⟨vs, hvs⟩ := exists_evalAll es h.right
      rw [evalAll, hv, hvs]
      exact ⟨_, rfl⟩

end

end ViewMarkup.Script
