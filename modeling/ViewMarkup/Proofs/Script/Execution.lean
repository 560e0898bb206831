import ViewMarkup.Proofs.Script.Evaluation

/-!
# Executing statements

What the statements of generated functions do, up to the values that the host decides: which
expression statements are executed, in which order, and how it ends.

* `exec` executes a statement and `execAll` a row of them.  A declared name is there from the next
  statement on, and hidden in its block before.  A function that is passed to a call is run once if
  the machine says that the called function does so.
* `invoke` runs a function on values.
* `execAll_lets` says what declarations leave behind.
-/

namespace ViewMarkup.Script

open List

variable {name x : Text} {value : Value} {names : List Text} {args rest : List Node}
  {optional : Bool} {node : Node}

/-- How the execution of statements ends. -/
inductive Ending where
  | completed
  | returned
  /-- A name was not there. -/
  | missing (name : Text)
  deriving DecidableEq

/-- What an execution does: the expression statements that are reached, and how it ends. -/
structure Run where
  executed : List Node
  ending : Ending

namespace Run

/-- Nothing is done. -/
def idle : Run := ⟨[], .completed⟩

/-- What follows happens only if the first part is completed. -/
def andThen (first rest : Run) : Run :=
  match first.ending with
  | .completed => ⟨first.executed ++ rest.executed, rest.ending⟩
  | _ => first

/-- Only the statements are executed, and all of them. -/
def through (executed : List Node) : Run := ⟨executed, .completed⟩

@[simp] theorem through_andThen (executed : List Node) (rest : Run) :
    (through executed).andThen rest = ⟨executed ++ rest.executed, rest.ending⟩ :=
  rfl

@[simp] theorem andThen_idle (first : Run) : first.andThen idle = first := by
  obtain ⟨executed, ending⟩ := first
  cases ending with
  | completed => exact congrArg (Run.mk · _) (append_nil executed)
  | returned => rfl
  | missing name => rfl

end Run

/-- What a program runs on. -/
structure Machine where
  host : Host
  /-- Whether a function calls the function that it is passed, once. -/
  callsBack : Node → Bool
  /-- What such a function passes on, for its own first argument. -/
  passes : Value → Value
  /-- The functions of the program itself. -/
  functions : Text → Option (List Value → Run)

/-- An expression statement is reached, and ends with a missing name or is completed. -/
def reach (m : Machine) (env : Env) (e : Node) : Run :=
  match eval m.host env e with
  | .ok _ => ⟨[.expressionStatement e], .completed⟩
  | .error name => ⟨[.expressionStatement e], .missing name⟩

mutual

/-- What a statement does. -/
def exec (m : Machine) (env : Env) : Node → Run
  | .block body => execAll m (env.hide (introducedIn body)) body
  | .ifStatement test consequent alternate =>
    match eval m.host env test with
    | .error name => ⟨[], .missing name⟩
    | .ok value =>
      if m.host.truth value then exec m env consequent else execOption m env alternate
  | .returnStatement none => ⟨[], .returned⟩
  | .returnStatement (some argument) =>
    match eval m.host env argument with
    | .error name => ⟨[], .missing name⟩
    | .ok _ => ⟨[], .returned⟩
  | .expressionStatement e => perform m env e
  | _ => .idle

/-- What an expression does as a statement. -/
def perform (m : Machine) (env : Env) : Node → Run
  | .call callee [source, .arrow [.identifier param] body] optional =>
    if m.callsBack callee then
      match eval m.host env source with
      | .error name => ⟨[], .missing name⟩
      | .ok value => exec m (env.bind param (m.passes value)) body
    else reach m env (.call callee [source, .arrow [.identifier param] body] optional)
  | .call (.identifier name) args optional =>
    match m.functions name with
    | some function =>
      match evalAll m.host env args with
      | .error name => ⟨[], .missing name⟩
      | .ok values => function values
    | none => reach m env (.call (.identifier name) args optional)
  | e => reach m env e

def execOption (m : Machine) (env : Env) : Option Node → Run
  | none => .idle
  | some node => exec m env node

/-- What a row of statements does. -/
def execAll (m : Machine) (env : Env) : List Node → Run
  | [] => .idle
  | .declaration _ [.declarator (.identifier name) (some init)] :: rest =>
    match eval m.host env init with
    | .error name => ⟨[], .missing name⟩
    | .ok value => execAll m (env.bind name value) rest
  | node :: rest => (exec m env node).andThen (execAll m env rest)

end

/-- The names that parameters get, where a parameter may have a value of its own in case that
none is given. -/
def bindParams (host : Host) : Env → List Node → List Value → Env
  | env, [], _ => env
  | env, .identifier name :: params, values =>
    bindParams host (env.bind name (values.headD .undefined)) params values.tail
  | env, .assignmentPattern (.identifier name) default :: params, values =>
    let given := values.headD .undefined
    let value := if given = .undefined then (eval host env default).toOption.getD .undefined
      else given
    bindParams host (env.bind name value) params values.tail
  | env, _ :: params, values => bindParams host env params values.tail

/-- What a function does when it is called with some values. -/
def invoke (m : Machine) (env : Env) (function : Node) (values : List Value) : Run :=
  match function with
  | .function _ params body => exec m (bindParams m.host env params values) body
  | _ => .idle

variable {m : Machine} {env : Env}

/-! ### Names -/

theorem Env.Has.mono {others : List Text} (h : env.Has names)
    (hsub : ∀ x ∈ others, x ∈ names) : env.Has others :=
  fun x hx => h x (hsub x hx)

@[simp] theorem Env.bind_self (name : Text) (value : Value) :
    env.bind name value name = some value := by
  rw [Env.bind, if_pos rfl]

theorem Env.bind_of_ne (h : x ≠ name) : env.bind name value x = env x := by
  rw [Env.bind, if_neg h]

theorem Env.hide_of_notMem (h : x ∉ names) : env.hide names x = env x := by
  rw [Env.hide, if_neg h]

@[simp] theorem Env.hide_nil : env.hide [] = env :=
  funext fun _ => Env.hide_of_notMem not_mem_nil

/-! ### Statements -/

theorem reach_of_has {e : Node} (h : env.Has (strays e)) :
    reach m env e = .through [.expressionStatement e] := by
  obtain ⟨value, hvalue⟩ := @exists_eval m.host env e h
  rw [reach, hvalue]
  rfl

/-- A call of a function that is neither one of the program nor runs what it is passed. -/
theorem perform_call {callee : Node}
    (hname : ∀ name, callee ≠ .identifier name) (hback : m.callsBack callee = false) :
    perform m env (.call callee args optional) = reach m env (.call callee args optional) := by
  unfold perform
  split
  · next heq =>
    cases heq
    rw [hback, if_neg Bool.false_ne_true]
  · next heq =>
    cases heq
    exact absurd rfl (hname _)
  · rfl

/-- A call of a function that runs what it is passed. -/
theorem perform_callback {callee source body : Node} {param : Text}
    (hback : m.callsBack callee = true) (hsource : env.Has (strays source)) :
    ∃ value, perform m env (.call callee [source, .arrow [.identifier param] body] optional) =
      exec m (env.bind param value) body := by
  obtain ⟨value, hvalue⟩ := @exists_eval m.host env source hsource
  refine ⟨m.passes value, ?_⟩
  rw [perform, hback, if_pos rfl, hvalue]

/-- A call of a function of the program. -/
theorem perform_function {function : List Value → Run} {values : List Value}
    (hargs : ∀ source params body, args ≠ [source, .arrow params body])
    (hfunction : m.functions name = some function)
    (hvalues : evalAll m.host env args = .ok values) :
    perform m env (.call (.identifier name) args optional) = function values := by
  rw [perform, hfunction, hvalues]
  intro source param body heq
  exact hargs _ _ _ heq

theorem exec_ifStatement {test consequent : Node} {b : Bool}
    (h : eval m.host env test = .ok (.boolean b)) :
    exec m env (.ifStatement test consequent none) =
      if b then exec m env consequent else .idle := by
  rw [exec, h]
  rfl

theorem execAll_cons (h : introduced node = []) :
    execAll m env (node :: rest) = (exec m env node).andThen (execAll m env rest) := by
  rw [execAll]
  intro kind name init heq
  rw [heq] at h
  cases h

theorem execAll_let {init : Node} (h : eval m.host env init = .ok value) :
    execAll m env (.letStatement name init :: rest) = execAll m (env.bind name value) rest := by
  rw [Node.letStatement, Node.declare, execAll, h]

theorem exec_block_singleton (h : introduced node = []) :
    exec m env (.block [node]) = exec m env node := by
  have hnone : introducedIn [node] = [] := by
    rw [introducedIn, flatMap_cons, h, flatMap_nil, append_nil]
  rw [exec, hnone, Env.hide_nil, execAll_cons h, execAll, Run.andThen_idle]

/-- A row of statements each of which is executed. -/
theorem execAll_through (nodes rest : List Node)
    (h : ∀ node ∈ nodes, introduced node = [] ∧ exec m env node = .through [node]) :
    execAll m env (nodes ++ rest) = (Run.through nodes).andThen (execAll m env rest) := by
  induction nodes with
  | nil => rfl
  | cons node nodes ih =>
    obtain ⟨hnode, hnodes⟩ := forall_mem_cons.mp h
    rw [cons_append, execAll_cons hnode.1, hnode.2, ih hnodes]
    rfl

/-- Declarations leave behind their names, and no other changes.  The induction carries that the
names used by a declaration are there, among them those of the declarations before it. -/
theorem execAll_lets (lets : List Node)
    (hlets : ∀ node ∈ lets, ∃ name init, node = .letStatement name init)
    (h : env.Has (straysIn lets)) :
    ∃ after : Env, (∀ rest, execAll m env (lets ++ rest) = execAll m after rest) ∧
      after.Has (introducedIn lets) ∧ ∀ x ∉ introducedIn lets, after x = env x := by
  induction lets generalizing env with
  | nil => exact ⟨env, fun _ => rfl, nofun, fun _ _ => rfl⟩
  | cons node lets ih =>
    obtain ⟨⟨name, init, rfl⟩, hrest⟩ := forall_mem_cons.mp hlets
    rw [straysIn, strays_letStatement, introduced_letStatement] at h
    obtain ⟨value, hvalue⟩ := @exists_eval m.host env init h.left
    have hbound : (env.bind name value).Has (straysIn lets) := by
      intro x hx
      by_cases hname : x = name
      · rw [hname, Env.bind_self]
        rfl
      · rw [Env.bind_of_ne hname]
        exact h.right x (mem_ungoverned.mpr ⟨hx, by simpa using hname⟩)
    obtain ⟨after, hexec, hnames, hothers⟩ := ih hrest hbound
    refine ⟨after, fun rest => ?_, fun x hx => ?_, fun x hx => ?_⟩
    · exact (execAll_let hvalue).trans (hexec rest)
    · by_cases hx' : x ∈ introducedIn lets
      · exact hnames x hx'
      · rcases mem_append.mp hx with hx | hx
        · rw [hothers x hx', mem_singleton.mp hx, Env.bind_self]
          rfl
        · exact absurd hx hx'
    · rw [introducedIn, flatMap_cons, introduced_letStatement, mem_append, not_or,
        mem_singleton] at hx
      rw [hothers x hx.2, Env.bind_of_ne hx.1]

end ViewMarkup.Script
