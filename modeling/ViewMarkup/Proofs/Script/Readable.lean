import ViewMarkup.Script.Parser
import ViewMarkup.Script.Printer

/-!
# Trees that can be read

The trees that reading a text can give, apart from where they come from: names that are no reserved
words, numbers with the text that they were written as, targets where something is assigned, and so
on.  The moved expressions of bindings are such trees too.

* `Readable` says this of an expression; arrow functions are let through or not.
* `Readable.withoutArrows` drops arrow functions from what is let through.
-/

namespace ViewMarkup.Script

open List

variable {e : Node} {arrows : Bool} {name : Text}

/-! ### Lexical parts -/

/-- A word, reserved or not. -/
def IsWord : Text → Prop
  | [] => False
  | c :: rest => c.startsIdentifier = true ∧ rest.all CodePoint.continuesIdentifier = true

instance (t : Text) : Decidable (IsWord t) :=
  match t with
  | [] => inferInstanceAs (Decidable False)
  | c :: rest => inferInstanceAs
      (Decidable (c.startsIdentifier = true ∧ rest.all CodePoint.continuesIdentifier = true))

/-- An identifier is a word, or a word and a line feed. -/
theorem isIdentifier_iff : name.isIdentifier = true ↔
    ∃ word, IsWord word ∧ (name = word ∨ name = word ++ [.char '\n']) := by
  cases name with
  | nil => simp [Text.isIdentifier, IsWord]
  | cons c rest =>
    rw [Text.isIdentifier, Bool.and_eq_true, Bool.or_eq_true, beq_iff_eq, beq_iff_eq]
    constructor
    · rintro ⟨hstart, hdrop⟩
      refine ⟨c :: rest.takeWhile CodePoint.continuesIdentifier, ⟨hstart, all_takeWhile⟩, ?_⟩
      have hsplit := rest.takeWhile_append_dropWhile (p := CodePoint.continuesIdentifier)
      rcases hdrop with hdrop | hdrop <;> rw [hdrop] at hsplit
      · exact .inl (by rw [append_nil] at hsplit; rw [hsplit])
      · exact .inr (by rw [cons_append, hsplit])
    · rintro ⟨_ | ⟨d, more⟩, ⟨hstart, hmore⟩, hname⟩
      have hdrop (tail : Text) := @dropWhile_append_of_pos _ _ _ tail (all_eq_true.mp hmore)
      rcases hname with hname | hname <;> cases hname
      · exact ⟨hstart, .inl (by simpa using hdrop [])⟩
      · exact ⟨hstart, .inr (hdrop _)⟩

/-- A word that is not reserved. -/
structure IsName (t : Text) : Prop where
  word : IsWord t
  constant : Constant.ofText? t = none
  keyword : Keyword.ofText? t = none

/-- A text that the scanner takes for a number where it stands before some other text. -/
structure IsNumeral (t : Text) : Prop where
  start : ∃ c more, t = c :: more ∧ c.isBlank = false
  scanned : ∃ rest kind, Lexeme.number? (t ++ rest) = some (kind, t.length)

/-- The text of a template literal ends: with a backtick, or with a substitution. -/
inductive EndsChunk : Text → Prop
  | backtick (rest : Text) : EndsChunk (.char '\x60' :: rest)
  | substitution (rest : Text) : EndsChunk (.char '$' :: .char '\x7b' :: rest)

/-- A text that can stand in a template literal up to its end or to a substitution. -/
def IsChunk (t : Text) : Prop :=
  ∀ rest, EndsChunk rest → Lexeme.chunk (t ++ rest) = t.length

/-- A number with the text that it was written as. -/
def IsNumber (value : Number) (raw : Option Text) : Prop :=
  ∃ text, raw = some text ∧ IsNumeral text ∧ readNumber? text = some value

/-- A piece of the text of a template literal, with what it stands for. -/
def IsPiece (raw cooked : Text) : Prop :=
  IsChunk raw ∧ decodeEscapes raw = .ok cooked

/-! ### Trees -/

/-- The key of a property that stands without brackets. -/
inductive IsPlainKey : Node → Prop
  | word {name : Text} (h : IsWord name) : IsPlainKey (.identifier name)
  | string (value : Text) : IsPlainKey (.string value)
  | number {value : Number} {raw : Option Text} (h : IsNumber value raw) :
      IsPlainKey (.number value raw)

/-- The pieces of the text of a template literal with so many substitutions between them. -/
inductive ArePieces : Nat → List Node → Prop
  | last {raw cooked : Text} (h : IsPiece raw cooked) :
      ArePieces 0 [.templateElement raw cooked true]
  | cons {n : Nat} {raw cooked : Text} {quasis : List Node} (h : IsPiece raw cooked)
      (hs : ArePieces n quasis) : ArePieces (n + 1) (.templateElement raw cooked false :: quasis)

/-- Where a node stands: arguments may be spread, elements of an array may be left out too. -/
inductive Place where
  | expression | argument | element | property
  deriving DecidableEq

/-- A node that can be read where it stands; `arrows` says whether arrow functions may occur. -/
inductive Readable (arrows : Bool) : Place → Node → Prop
  | identifier {name : Text} (h : IsName name) : Readable arrows .expression (.identifier name)
  | string (value : Text) : Readable arrows .expression (.string value)
  | number {value : Number} {raw : Option Text} (h : IsNumber value raw) :
      Readable arrows .expression (.number value raw)
  | boolean (value : Bool) : Readable arrows .expression (.boolean value)
  | null : Readable arrows .expression .null
  | this : Readable arrows .expression .this
  | template {quasis es : List Node} (hquasis : ArePieces es.length quasis)
      (hes : ∀ e ∈ es, Readable arrows .expression e) :
      Readable arrows .expression (.template quasis es)
  | array {items : List Node} (h : ∀ e ∈ items, Readable arrows .element e) :
      Readable arrows .expression (.array items)
  | object {ps : List Node} (h : ∀ p ∈ ps, Readable arrows .property p) :
      Readable arrows .expression (.object ps)
  | part {object : Node} {name : Text} {optional : Bool}
      (hobject : Readable arrows .expression object) (hname : IsWord name) :
      Readable arrows .expression (.member object (.identifier name) false optional)
  | index {object key : Node} {optional : Bool} (hobject : Readable arrows .expression object)
      (hkey : Readable arrows .expression key) :
      Readable arrows .expression (.member object key true optional)
  | call {callee : Node} {args : List Node} {optional : Bool}
      (hcallee : Readable arrows .expression callee)
      (hargs : ∀ e ∈ args, Readable arrows .argument e) :
      Readable arrows .expression (.call callee args optional)
  | new {callee : Node} {args : List Node} (hcallee : Readable arrows .expression callee)
      (hargs : ∀ e ∈ args, Readable arrows .argument e) :
      Readable arrows .expression (.new callee args)
  | conditional {test consequent alternate : Node} (htest : Readable arrows .expression test)
      (hconsequent : Readable arrows .expression consequent)
      (halternate : Readable arrows .expression alternate) :
      Readable arrows .expression (.conditional test consequent alternate)
  | binary {op : BinaryOp} {left right : Node} (hop : op ∈ BinaryOp.all)
      (hkind : op.isLogical = false) (hleft : Readable arrows .expression left)
      (hright : Readable arrows .expression right) :
      Readable arrows .expression (.binary op left right)
  | logical {op : BinaryOp} {left right : Node} (hop : op ∈ BinaryOp.all)
      (hkind : op.isLogical = true) (hleft : Readable arrows .expression left)
      (hright : Readable arrows .expression right) :
      Readable arrows .expression (.logical op left right)
  | unary {op : UnaryOp} {argument : Node} (hop : op ∈ UnaryOp.all)
      (h : Readable arrows .expression argument) :
      Readable arrows .expression (.unary op argument)
  | update {op : UpdateOp} {argument : Node} {leading : Bool} (hop : op ∈ UpdateOp.all)
      (htarget : Parser.isTarget argument = true) (h : Readable arrows .expression argument) :
      Readable arrows .expression (.update op argument leading)
  | assignment {op : AssignOp} {left right : Node} (hop : op ∈ AssignOp.all)
      (htarget : Parser.isTarget left = true) (hleft : Readable arrows .expression left)
      (hright : Readable arrows .expression right) :
      Readable arrows .expression (.assignment op left right)
  | sequence {es : List Node} (hlength : 2 ≤ es.length)
      (hes : ∀ e ∈ es, Readable arrows .expression e) :
      Readable arrows .expression (.sequence es)
  | arrow (params : List Node) (body : Node) (h : arrows = true) :
      Readable arrows .expression (.arrow params body)
  | argument {e : Node} (h : Readable arrows .expression e) : Readable arrows .argument e
  | spread {e : Node} (h : Readable arrows .expression e) : Readable arrows .argument (.spread e)
  | element {e : Node} (h : Readable arrows .argument e) : Readable arrows .element e
  | hole : Readable arrows .element .hole
  | named {key value : Node} (hkey : IsPlainKey key) (hvalue : Readable arrows .expression value) :
      Readable arrows .property (.property key value false false)
  | computed {key value : Node} (hkey : Readable arrows .expression key)
      (hvalue : Readable arrows .expression value) :
      Readable arrows .property (.property key value true false)
  | abbreviated {name : Text} (h : IsName name) :
      Readable arrows .property (.property (.identifier name) (.identifier name) false true)
  | rest {e : Node} (h : Readable arrows .expression e) : Readable arrows .property (.spread e)

/-- A statement that holds a readable expression, or nothing. -/
inductive ReadableStatement (arrows : Bool) : Node → Prop
  | expression {e : Node} (h : Readable arrows .expression e) :
      ReadableStatement arrows (.expressionStatement e)
  | empty : ReadableStatement arrows .emptyStatement

/-! ### Arrow functions -/

mutual

/-- There is no arrow function anywhere in a tree. -/
def arrowFree : Node → Bool
  | .arrow .. => false
  | .template quasis es => arrowFreeAll quasis && arrowFreeAll es
  | .spread argument => arrowFree argument
  | .array items => arrowFreeAll items
  | .property key value _ _ => arrowFree key && arrowFree value
  | .object ps => arrowFreeAll ps
  | .member object key _ _ => arrowFree object && arrowFree key
  | .call callee args _ => arrowFree callee && arrowFreeAll args
  | .new callee args => arrowFree callee && arrowFreeAll args
  | .conditional test consequent alternate =>
    arrowFree test && (arrowFree consequent && arrowFree alternate)
  | .binary _ left right => arrowFree left && arrowFree right
  | .logical _ left right => arrowFree left && arrowFree right
  | .unary _ argument => arrowFree argument
  | .update _ argument _ => arrowFree argument
  | .assignment _ left right => arrowFree left && arrowFree right
  | .sequence es => arrowFreeAll es
  | .assignmentPattern left right => arrowFree left && arrowFree right
  | .objectPattern ps => arrowFreeAll ps
  | .expressionStatement e => arrowFree e
  | .declarator id init => arrowFree id && arrowFreeOption init
  | .declaration _ ds => arrowFreeAll ds
  | .block body => arrowFreeAll body
  | .ifStatement test consequent alternate =>
    arrowFree test && (arrowFree consequent && arrowFreeOption alternate)
  | .returnStatement argument => arrowFreeOption argument
  | .tryStatement block finalizer => arrowFree block && arrowFree finalizer
  | .function id params body => arrowFree id && (arrowFreeAll params && arrowFree body)
  | .method key params body => arrowFree key && (arrowFreeAll params && arrowFree body)
  | .classDeclaration id body => arrowFree id && arrowFreeAll body
  | .exportDefault declaration => arrowFree declaration
  | .program body => arrowFreeAll body
  | _ => true

def arrowFreeAll : List Node → Bool
  | [] => true
  | node :: rest => arrowFree node && arrowFreeAll rest

def arrowFreeOption : Option Node → Bool
  | none => true
  | some node => arrowFree node

end

theorem arrowFree_of_mem {es : List Node} (hfree : arrowFreeAll es = true)
    (he : e ∈ es) : arrowFree e = true := by
  induction es with
  | nil => cases he
  | cons node rest ih =>
    rw [arrowFreeAll, Bool.and_eq_true] at hfree
    rcases mem_cons.mp he with rfl | he
    · exact hfree.1
    · exact ih hfree.2 he

/-- **Arrow functions need not be let through where there are none.** -/
theorem Readable.withoutArrows {place : Place}
    (h : Readable arrows place e) (hfree : arrowFree e = true) : Readable false place e := by
  induction h with
  | identifier h => exact .identifier h
  | string value => exact .string value
  | number h => exact .number h
  | boolean value => exact .boolean value
  | null => exact .null
  | this => exact .this
  | template hquasis _ ih =>
    rw [arrowFree, Bool.and_eq_true] at hfree
    exact .template hquasis fun e he => ih e he (arrowFree_of_mem hfree.2 he)
  | array _ ih => exact .array fun e he => ih e he (arrowFree_of_mem hfree he)
  | object _ ih => exact .object fun p hp => ih p hp (arrowFree_of_mem hfree hp)
  | part _ hname ih =>
    rw [arrowFree, Bool.and_eq_true] at hfree
    exact .part (ih hfree.1) hname
  | index _ _ ihobject ihkey =>
    rw [arrowFree, Bool.and_eq_true] at hfree
    exact .index (ihobject hfree.1) (ihkey hfree.2)
  | call _ _ ihcallee ihargs =>
    rw [arrowFree, Bool.and_eq_true] at hfree
    exact .call (ihcallee hfree.1) fun e he => ihargs e he (arrowFree_of_mem hfree.2 he)
  | new _ _ ihcallee ihargs =>
    rw [arrowFree, Bool.and_eq_true] at hfree
    exact .new (ihcallee hfree.1) fun e he => ihargs e he (arrowFree_of_mem hfree.2 he)
  | conditional _ _ _ ihtest ihconsequent ihalternate =>
    rw [arrowFree, Bool.and_eq_true, Bool.and_eq_true] at hfree
    exact .conditional (ihtest hfree.1) (ihconsequent hfree.2.1) (ihalternate hfree.2.2)
  | binary hop hkind _ _ ihleft ihright =>
    rw [arrowFree, Bool.and_eq_true] at hfree
    exact .binary hop hkind (ihleft hfree.1) (ihright hfree.2)
  | logical hop hkind _ _ ihleft ihright =>
    rw [arrowFree, Bool.and_eq_true] at hfree
    exact .logical hop hkind (ihleft hfree.1) (ihright hfree.2)
  | unary hop _ ih => exact .unary hop (ih hfree)
  | update hop htarget _ ih => exact .update hop htarget (ih hfree)
  | assignment hop htarget _ _ ihleft ihright =>
    rw [arrowFree, Bool.and_eq_true] at hfree
    exact .assignment hop htarget (ihleft hfree.1) (ihright hfree.2)
  | sequence hlength _ ih =>
    exact .sequence hlength fun e he => ih e he (arrowFree_of_mem hfree he)
  | arrow params body h => cases hfree
  | argument _ ih => exact .argument (ih hfree)
  | spread _ ih => exact .spread (ih hfree)
  | element _ ih => exact .element (ih hfree)
  | hole => exact .hole
  | named hkey _ ih =>
    rw [arrowFree, Bool.and_eq_true] at hfree
    exact .named hkey (ih hfree.2)
  | computed _ _ ihkey ihvalue =>
    rw [arrowFree, Bool.and_eq_true] at hfree
    exact .computed (ihkey hfree.1) (ihvalue hfree.2)
  | abbreviated h => exact .abbreviated h
  | rest _ ih => exact .rest (ih hfree)

theorem ReadableStatement.withoutArrows {node : Node}
    (h : ReadableStatement arrows node) (hfree : arrowFree node = true) :
    ReadableStatement false node := by
  cases h with
  | expression h => exact .expression (h.withoutArrows hfree)
  | empty => exact .empty

/-- A name is printed as it is. -/
theorem expression_identifier {depth : Nat} {role : Printer.Role} :
    Printer.expression depth role (.identifier name) = .ok name := by
  rw [Printer.expression]

end ViewMarkup.Script
