import ViewMarkup.Proofs.Script.Printing

/-!
# Trees that can be printed

Printing a tree fails only if a node stands where its kind cannot.  The trees whose nodes all stand
where they can are described by a judgement, with a rule for every kind of node that generated code
holds.

* `WellFormed` is the judgement.
* `WellFormed.printed`: every tree of it is printed.
* `print_ok` says so of whole programs.
-/

namespace ViewMarkup.Script

open List
open Printer (blockOf declarators elements elseBranch expression expressions guarded isDefault isIf
  methods nameOf patterns properties statement statements)

variable {depth : Nat}

/-- Where a node stands. -/
inductive Site where
  | expression
  /-- An argument of a call or an element of an array. -/
  | item
  | property
  /-- A parameter, or the target of a declaration. -/
  | pattern
  | declarator
  | statement
  /-- What a function, a branch or a class holds. -/
  | body
  | method
  deriving DecidableEq

/-- A node that can stand in a site, as can all its parts. -/
inductive WellFormed : Site → Node → Prop
  /-- An expression of a binding. -/
  | readable {e : Node} (h : Readable false .expression e) : WellFormed .expression e
  | identifier (name : Text) : WellFormed .expression (.identifier name)
  | string (value : Text) : WellFormed .expression (.string value)
  | boolean (value : Bool) : WellFormed .expression (.boolean value)
  | null : WellFormed .expression .null
  | this : WellFormed .expression .this
  | array {items : List Node} (h : ∀ e ∈ items, WellFormed .item e) :
      WellFormed .expression (.array items)
  | object {ps : List Node} (h : ∀ p ∈ ps, WellFormed .property p) :
      WellFormed .expression (.object ps)
  | part {object : Node} (hobject : WellFormed .expression object) (name : Text)
      (optional : Bool) :
      WellFormed .expression (.member object (.identifier name) false optional)
  | index {object key : Node} (hobject : WellFormed .expression object)
      (hkey : WellFormed .expression key) (optional : Bool) :
      WellFormed .expression (.member object key true optional)
  | call {callee : Node} {args : List Node} (hcallee : WellFormed .expression callee)
      (hargs : ∀ e ∈ args, WellFormed .item e) (optional : Bool) :
      WellFormed .expression (.call callee args optional)
  | new {callee : Node} {args : List Node} (hcallee : WellFormed .expression callee)
      (hargs : ∀ e ∈ args, WellFormed .item e) : WellFormed .expression (.new callee args)
  | conditional {test consequent alternate : Node} (htest : WellFormed .expression test)
      (hconsequent : WellFormed .expression consequent)
      (halternate : WellFormed .expression alternate) :
      WellFormed .expression (.conditional test consequent alternate)
  | binary {op : BinaryOp} {left right : Node} (hop : op.strength?.isSome = true)
      (hleft : WellFormed .expression left) (hright : WellFormed .expression right) :
      WellFormed .expression (.binary op left right)
  | logical {op : BinaryOp} {left right : Node} (hop : op.strength?.isSome = true)
      (hleft : WellFormed .expression left) (hright : WellFormed .expression right) :
      WellFormed .expression (.logical op left right)
  | unary {argument : Node} (op : UnaryOp) (h : WellFormed .expression argument) :
      WellFormed .expression (.unary op argument)
  | assignment {left right : Node} (op : AssignOp) (hleft : WellFormed .expression left)
      (hright : WellFormed .expression right) :
      WellFormed .expression (.assignment op left right)
  /-- A function with statements. -/
  | procedure {params body : List Node} (hparams : ∀ p ∈ params, WellFormed .pattern p)
      (hbody : ∀ s ∈ body, WellFormed .statement s) :
      WellFormed .expression (.arrow params (.block body))
  /-- A function of nothing that gives a call. -/
  | thunk {callee : Node} {args : List Node} {optional : Bool}
      (h : WellFormed .expression (.call callee args optional)) :
      WellFormed .expression (.arrow [] (.call callee args optional))
  | item {e : Node} (h : WellFormed .expression e) : WellFormed .item e
  | spread {e : Node} (h : WellFormed .expression e) : WellFormed .item (.spread e)
  | property {key value : Node} (hkey : WellFormed .expression key)
      (hvalue : WellFormed .expression value) (computed : Bool) :
      WellFormed .property (.property key value computed false)
  | abbreviated (key : Node) (name : Text) (computed : Bool) :
      WellFormed .property (.property key (.identifier name) computed true)
  | name (name : Text) : WellFormed .pattern (.identifier name)
  | default {value : Node} (name : Text) (hvalue : WellFormed .expression value) :
      WellFormed .pattern (.assignmentPattern (.identifier name) value)
  | parts {ps : List Node} (h : ∀ p ∈ ps, WellFormed .property p) :
      WellFormed .pattern (.objectPattern ps)
  | declarator {id : Node} {init : Option Node} (hid : WellFormed .pattern id)
      (hinit : ∀ e ∈ init, WellFormed .expression e) : WellFormed .declarator (.declarator id init)
  | expressionStatement {e : Node} (h : WellFormed .expression e) :
      WellFormed .statement (.expressionStatement e)
  | declaration {ds : List Node} (kind : Text) (h : ∀ d ∈ ds, WellFormed .declarator d) :
      WellFormed .statement (.declaration kind ds)
  | ifStatement {test consequent : Node} {alternate : Option Node}
      (htest : WellFormed .expression test) (hconsequent : WellFormed .body consequent)
      (halternate : ∀ node ∈ alternate, WellFormed .body node) :
      WellFormed .statement (.ifStatement test consequent alternate)
  | returnStatement {argument : Option Node} (h : ∀ e ∈ argument, WellFormed .expression e) :
      WellFormed .statement (.returnStatement argument)
  | tryStatement {block finalizer : Node} (hblock : WellFormed .body block)
      (hfinalizer : WellFormed .body finalizer) :
      WellFormed .statement (.tryStatement block finalizer)
  | function {params : List Node} {body : Node} (name : Text)
      (hparams : ∀ p ∈ params, WellFormed .pattern p) (hbody : WellFormed .body body) :
      WellFormed .statement (.function (.identifier name) params body)
  | classDeclaration {methods : List Node} (name : Text)
      (h : ∀ m ∈ methods, WellFormed .method m) :
      WellFormed .statement (.classDeclaration (.identifier name) methods)
  | exportStatement {declaration : Node} (hkind : declaration.isStatement = true)
      (h : WellFormed .statement declaration) :
      WellFormed .statement (.exportDefault declaration)
  | exportExpression {e : Node} (hkind : e.isStatement = false) (h : WellFormed .expression e) :
      WellFormed .statement (.exportDefault e)
  | block {body : List Node} (h : ∀ s ∈ body, WellFormed .statement s) :
      WellFormed .body (.block body)
  | method {params : List Node} {body : Node} (name : Text)
      (hparams : ∀ p ∈ params, WellFormed .pattern p) (hbody : WellFormed .body body) :
      WellFormed .method (.method (.identifier name) params body)

/-! ### Parts of generated code -/

namespace WellFormed

variable {site : Site} {e object target value : Node} {nodes : List Node} {name : Text}

theorem cons (h : WellFormed site e) (hs : ∀ n ∈ nodes, WellFormed site n) :
    ∀ n ∈ e :: nodes, WellFormed site n :=
  forall_mem_cons.mpr ⟨h, hs⟩

theorem single (h : WellFormed site e) : ∀ n ∈ [e], WellFormed site n :=
  h.cons (forall_mem_nil _)

theorem accessNamed (h : WellFormed .expression object) {optional : Bool} :
    WellFormed .expression (.accessNamed object name optional) := by
  unfold Node.accessNamed
  split
  · exact .part h name optional
  · exact .index h (.string name) optional

theorem memberNamed (h : WellFormed .expression object) (name : Text) :
    WellFormed .expression (.memberNamed object name) :=
  h.accessNamed

theorem callOf (h : WellFormed .expression object) (hargs : ∀ n ∈ nodes, WellFormed .item n) :
    WellFormed .expression (.callOf object nodes) :=
  .call h hargs false

theorem assign (htarget : WellFormed .expression target) (hvalue : WellFormed .expression value) :
    WellFormed .statement (.assign target value) :=
  .expressionStatement (.assignment .set htarget hvalue)

theorem declare {kind : Text} (h : WellFormed .expression value) :
    WellFormed .statement (.declare kind name value) :=
  .declaration kind (single (.declarator (.name name) fun _ he => Option.some_inj.mp he ▸ h))

theorem letStatement (h : WellFormed .expression value) :
    WellFormed .statement (.letStatement name value) :=
  declare h

theorem require {module : Text} : WellFormed .expression (.require module) :=
  (identifier "require").callOf (single (.item (.string module)))

end WellFormed

/-! ### Printing -/

/-- A node is printed in a site. -/
def Printed (site : Site) (depth : Nat) (node : Node) : Prop :=
  match site with
  | .expression | .item => ∃ text, expression depth .plain node = .ok text
  | .property => ∃ text, Printer.property depth node = .ok text
  | .pattern => ∃ text, expression depth .pattern node = .ok text
  | .declarator => ∃ id init name value, node = .declarator id init ∧
      expression depth .pattern id = .ok name ∧
      Printer.optional depth 2 " = " init = .ok value
  | .statement => ∃ text, statement depth node = .ok text
  | .body => ∃ text, blockOf depth node = .ok text
  | .method => ∃ name params body texts text, node = .method (.identifier name) params body ∧
      patterns depth params = .ok texts ∧ blockOf depth body = .ok text

section Lists

variable {depth : Nat} {nodes : List Node}

/-- Where nodes are printed one after the other, all of them are printed if each of them is. -/
theorem list_printed {print : List Node → Except PrintFault (List Text)} {P : Node → Prop}
    (hnil : print [] = .ok []) (hcons : ∀ node rest texts, P node → print rest = .ok texts →
      ∃ texts, print (node :: rest) = .ok texts) (h : ∀ node ∈ nodes, P node) :
    ∃ texts, print nodes = .ok texts := by
  induction nodes with
  | nil => exact ⟨[], hnil⟩
  | cons node rest ih =>
    obtain ⟨hnode, hrest⟩ := forall_mem_cons.mp h
    obtain ⟨texts, htexts⟩ := ih hrest
    exact hcons node rest texts hnode htexts

theorem expressions_printed (h : ∀ e ∈ nodes, Printed .item depth e) :
    ∃ texts, expressions depth nodes = .ok texts := by
  refine list_printed (by rw [expressions]) ?_ h
  rintro e es texts ⟨text, htext⟩ htexts
  exact ⟨_, by rw [expressions, htext, htexts]; rfl⟩

theorem elements_printed (h : ∀ e ∈ nodes, Printed .item depth e) :
    ∃ texts, elements depth nodes = .ok texts := by
  refine list_printed (by rw [elements]) ?_ h
  rintro e es texts ⟨text, htext⟩ htexts
  have hne : e = .hole → False := by
    rintro rfl
    simp [expression] at htext
  refine ⟨guarded 2 e text :: texts, ?_⟩
  rw [elements, htext, htexts]
  · rfl
  · exact hne

theorem properties_printed (h : ∀ p ∈ nodes, Printed .property depth p) :
    ∃ texts, properties depth nodes = .ok texts := by
  refine list_printed (by rw [properties]) ?_ h
  rintro p ps texts ⟨text, htext⟩ htexts
  exact ⟨_, by rw [properties, htext, htexts]; rfl⟩

theorem patterns_printed (h : ∀ p ∈ nodes, Printed .pattern depth p) :
    ∃ texts, patterns depth nodes = .ok texts := by
  refine list_printed (by rw [patterns]) ?_ h
  rintro p ps texts ⟨text, htext⟩ htexts
  exact ⟨_, by rw [patterns, htext, htexts]; rfl⟩

theorem statements_printed (h : ∀ s ∈ nodes, Printed .statement depth s) :
    ∃ texts, statements depth nodes = .ok texts := by
  refine list_printed (by rw [statements]) ?_ h
  rintro s ss texts ⟨text, htext⟩ htexts
  exact ⟨_, by rw [statements, htext, htexts]; rfl⟩

theorem declarators_printed (h : ∀ d ∈ nodes, Printed .declarator depth d) :
    ∃ texts, declarators depth nodes = .ok texts := by
  refine list_printed (by rw [declarators]) ?_ h
  rintro _ ds texts ⟨id, init, name, value, rfl, hname, hvalue⟩ htexts
  exact ⟨_, by rw [declarators, hname, hvalue, htexts]; rfl⟩

theorem methods_printed (h : ∀ m ∈ nodes, Printed .method depth m) :
    ∃ texts, methods depth nodes = .ok texts := by
  refine list_printed (by rw [methods]) ?_ h
  rintro _ ms texts ⟨name, params, body, params', body', rfl, hparams, hbody⟩ htexts
  exact ⟨_, by rw [methods, nameOf, hparams, hbody, htexts]; rfl⟩

theorem optional_printed {node : Option Node} (least : Nat) (separator : Text)
    (h : ∀ e ∈ node, Printed .expression depth e) :
    ∃ text, Printer.optional depth least separator node = .ok text := by
  cases node with
  | none => exact ⟨[], by rw [Printer.optional]⟩
  | some e =>
    obtain ⟨text, htext⟩ := h e rfl
    exact ⟨_, by rw [Printer.optional, htext]; rfl⟩

end Lists

theorem not_isDefault {e : Node} (h : Printed .expression depth e) : isDefault e = false := by
  unfold isDefault
  split
  · obtain ⟨text, htext⟩ := h
    simp [expression] at htext
  · rfl

/-- The other half of a condition is a block. -/
theorem elseBranch_printed {alternate : Option Node}
    (h : ∀ node ∈ alternate, WellFormed .body node ∧ Printed .body depth node) :
    ∃ text, elseBranch depth alternate = .ok text := by
  cases alternate with
  | none => exact ⟨[], by rw [elseBranch]⟩
  | some node =>
    obtain ⟨hnode, text, htext⟩ := h node rfl
    cases hnode with
    | @block body _ =>
      have hif : isIf (.block body) = false := rfl
      exact ⟨_, by rw [elseBranch, hif, if_neg Bool.false_ne_true, htext]; rfl⟩

/-- **Every well-formed node is printed.** -/
theorem WellFormed.printed {site : Site} {node : Node} (h : WellFormed site node) (depth : Nat) :
    Printed site depth node := by
  induction h generalizing depth with
  | readable h =>
    obtain ⟨text, hprint, _⟩ := h.prints
    exact ⟨text, hprint depth⟩
  | identifier name | name name => exact ⟨name, by rw [expression]⟩
  | string value => exact ⟨quote value, by rw [expression]⟩
  | boolean value | null | this => exact ⟨_, by rw [expression]⟩
  | array _ ih =>
    obtain ⟨texts, htexts⟩ := elements_printed fun e he => ih e he depth
    exact ⟨_, by rw [expression, htexts]; rfl⟩
  | object _ ih | parts _ ih =>
    obtain ⟨texts, htexts⟩ := properties_printed fun p hp => ih p hp depth
    exact ⟨_, by rw [expression, htexts]; rfl⟩
  | part _ name optional ih | unary op _ ih | spread _ ih =>
    obtain ⟨text, htext⟩ := ih depth
    exact ⟨_, by rw [expression, htext]; rfl⟩
  | index _ _ optional ihobject ihkey =>
    obtain ⟨text, htext⟩ := ihobject depth
    obtain ⟨keyText, hkeyText⟩ := ihkey depth
    exact ⟨_, by rw [expression, htext, hkeyText]; rfl⟩
  | call _ _ optional ihcallee ihargs | new _ _ ihcallee ihargs =>
    obtain ⟨text, htext⟩ := ihcallee depth
    obtain ⟨texts, htexts⟩ := expressions_printed fun e he => ihargs e he depth
    exact ⟨_, by rw [expression, htext, htexts]; rfl⟩
  | conditional _ _ _ ihtest ihconsequent ihalternate =>
    obtain ⟨test, htest⟩ := ihtest depth
    obtain ⟨consequent, hconsequent⟩ := ihconsequent depth
    obtain ⟨alternate, halternate⟩ := ihalternate depth
    exact ⟨_, by rw [expression, htest, hconsequent, halternate]; rfl⟩
  | binary hop _ _ ihleft ihright | logical hop _ _ ihleft ihright =>
    obtain ⟨strength, hstrength⟩ := Option.isSome_iff_exists.mp hop
    obtain ⟨left, hleft⟩ := ihleft depth
    obtain ⟨right, hright⟩ := ihright depth
    exact ⟨_, by rw [expression, hstrength, hleft, hright]; rfl⟩
  | assignment op _ _ ihleft ihright =>
    obtain ⟨left, hleft⟩ := ihleft depth
    obtain ⟨right, hright⟩ := ihright depth
    exact ⟨_, by rw [expression, hleft, hright]; rfl⟩
  | @procedure params body _ _ ihparams ihbody =>
    obtain ⟨texts, htexts⟩ := patterns_printed fun p hp => ihparams p hp depth
    obtain ⟨lines, hlines⟩ := statements_printed fun s hs => ihbody s hs (depth + 1)
    -- A single name is written without parentheses.
    by_cases hsingle : ∃ name, params = [.identifier name]
    · obtain ⟨name, rfl⟩ := hsingle
      exact ⟨_, by rw [expression, hlines]; rfl⟩
    · refine ⟨(Text.join ", " texts).parenthesized ++ " => " ++ Printer.blockText depth lines, ?_⟩
      rw [expression, htexts, hlines]
      · rfl
      · exact fun name hname => hsingle ⟨name, hname⟩
  | @thunk callee args optional _ ih =>
    obtain ⟨text, htext⟩ := ih depth
    let body : Node := .call callee args optional
    refine ⟨(Text.join ", " []).parenthesized ++ " => " ++
      Printer.arrowBody body (guarded 2 body text), ?_⟩
    rw [expression, patterns, htext]
    · rfl
    · rintro _ ⟨⟩
    · rintro _ ⟨⟩
  | item _ ih => exact ih depth
  | property _ _ computed ihkey ihvalue =>
    obtain ⟨key, hkey⟩ := ihkey depth
    have hdefault := not_isDefault (ihvalue depth)
    obtain ⟨value, hvalue⟩ := ihvalue depth
    exact ⟨_, property_eq hkey hvalue hdefault⟩
  | abbreviated key name computed => exact ⟨name, by rw [Printer.property]⟩
  | default name _ ih =>
    obtain ⟨text, htext⟩ := ih depth
    exact ⟨_, by rw [expression, expression, htext]; rfl⟩
  | declarator _ _ ihid ihinit =>
    obtain ⟨name, hname⟩ := ihid depth
    obtain ⟨value, hvalue⟩ := optional_printed 2 " = " fun e he => ihinit e he depth
    exact ⟨_, _, name, value, rfl, hname, hvalue⟩
  | expressionStatement _ ih =>
    obtain ⟨text, htext⟩ := ih depth
    exact ⟨_, by rw [statement, htext]; rfl⟩
  | declaration kind _ ih =>
    obtain ⟨texts, htexts⟩ := declarators_printed fun d hd => ih d hd depth
    exact ⟨_, by rw [statement, htexts]; rfl⟩
  | ifStatement _ _ halternate ihtest ihconsequent ihalternate =>
    obtain ⟨test, htest⟩ := ihtest depth
    obtain ⟨consequent, hconsequent⟩ := ihconsequent depth
    obtain ⟨alternate, helse⟩ := elseBranch_printed fun node hnode =>
      ⟨halternate node hnode, ihalternate node hnode depth⟩
    exact ⟨_, by rw [statement, htest, hconsequent, helse]; rfl⟩
  | returnStatement _ ih =>
    obtain ⟨text, htext⟩ := optional_printed 1 " " fun e he => ih e he depth
    exact ⟨_, by rw [statement, htext]; rfl⟩
  | tryStatement _ _ ihblock ihfinalizer =>
    obtain ⟨block, hblock⟩ := ihblock depth
    obtain ⟨finalizer, hfinalizer⟩ := ihfinalizer depth
    exact ⟨_, by rw [statement, hblock, hfinalizer]; rfl⟩
  | function name _ _ ihparams ihbody =>
    obtain ⟨params, hparams⟩ := patterns_printed fun p hp => ihparams p hp depth
    obtain ⟨body, hbody⟩ := ihbody depth
    exact ⟨_, by rw [statement, nameOf, hparams, hbody]; rfl⟩
  | classDeclaration name _ ih =>
    obtain ⟨lines, hlines⟩ := methods_printed fun m hm => ih m hm (depth + 1)
    exact ⟨_, by rw [statement, hlines, nameOf]; rfl⟩
  | exportStatement hkind _ ih =>
    obtain ⟨text, htext⟩ := ih depth
    exact ⟨_, by rw [statement, hkind, if_pos rfl, htext]; rfl⟩
  | exportExpression hkind _ ih =>
    obtain ⟨text, htext⟩ := ih depth
    exact ⟨_, by rw [statement, hkind, if_neg Bool.false_ne_true, htext]; rfl⟩
  | block _ ih =>
    obtain ⟨lines, hlines⟩ := statements_printed fun s hs => ih s hs (depth + 1)
    exact ⟨_, by rw [blockOf, hlines]; rfl⟩
  | method name _ _ ihparams ihbody =>
    obtain ⟨params, hparams⟩ := patterns_printed fun p hp => ihparams p hp depth
    obtain ⟨body, hbody⟩ := ihbody depth
    exact ⟨name, _, _, params, body, rfl, hparams, hbody⟩

/-- A program of well-formed statements is printed. -/
theorem print_ok {body : List Node} (h : ∀ s ∈ body, WellFormed .statement s) :
    ∃ text, print (.program body) = .ok text := by
  obtain ⟨lines, hlines⟩ := statements_printed fun s hs => (h s hs).printed 0
  exact ⟨_, by rw [print, hlines]; rfl⟩

end ViewMarkup.Script
