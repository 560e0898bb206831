import ViewMarkup.Proofs.Script.Programs
import ViewMarkup.Proofs.Script.Spelling

/-!
# Braces at the start of a text

An object literal starts with a brace, and so does a block.  Where a block would be read, the printer
puts parentheses around an expression: at the start of a statement always, but in the body of an arrow
function only if the body is an object literal itself.

* `OpensBrace` says that an object literal stands first in an expression.
* `Readable.marks`: the text of an expression starts with a brace exactly then.
* `print_brace` says what follows for statements and for arrow functions.
-/

namespace ViewMarkup.Script

open Printer (arrowBody clashes expression guarded isNumber operand strength)

variable {arrows : Bool} {depth least : Nat} {e child : Node} {text : Text}

/-- The operand that stands first in an expression, and how tightly it has to bind to stand there
without parentheses.  Nothing binds so tightly as 21. -/
def leftOperand? : Node → Option (Nat × Node)
  | .member object _ computed optional =>
    some (if isNumber object && !computed && !optional then 21 else 18, object)
  | .call callee .. => some (18, callee)
  | .conditional test .. => some (4, test)
  | e@(.binary op left _) | e@(.logical op left _) =>
    some (if clashes e left then 21 else if op = .pow then 16 else strength e, left)
  | .update _ argument false => some (17, argument)
  | .assignment _ left _ => some (17, left)
  | _ => none

/-- An object literal stands first in an expression, with no parenthesis before it. -/
inductive OpensBrace : Node → Prop
  | object (ps : List Node) : OpensBrace (.object ps)
  | operand {e child : Node} {least : Nat} (hleft : leftOperand? e = some (least, child))
      (hbare : least ≤ strength child) (h : OpensBrace child) : OpensBrace e

theorem strength_lt (e : Node) : strength e < 21 := by
  cases e with
  | binary op | logical op => cases op <;> exact Nat.le_of_ble_eq_true rfl
  | update op argument leading => cases leading <;> exact Nat.le_of_ble_eq_true rfl
  | _ => exact Nat.le_of_ble_eq_true rfl

theorem guarded_always (e : Node) (text : Text) : guarded 21 e text = text.parenthesized :=
  if_pos (strength_lt e)

/-- Two operands with an operator between them start with the first of them. -/
theorem guarded_infixText {parent left right : Node} {op : BinaryOp} {k : Nat} {inner other : Text} :
    guarded (if clashes parent left then 21 else if op = .pow then 16 else k) left inner <+:
      Printer.infixText parent op k left right inner other := by
  have hoperand (least : Nat) : operand parent left least inner =
      guarded (if clashes parent left then 21 else least) left inner := by
    unfold operand
    split
    · exact (guarded_always left inner).symm
    · rfl
  unfold Printer.infixText
  by_cases hop : op = .pow <;> simp [hop, hoperand]

/-- The text of an expression starts with that of its first operand. -/
theorem exists_leftOperand (hleft : leftOperand? e = some (least, child))
    (hprint : expression depth .plain e = .ok text) :
    ∃ inner, expression depth .plain child = .ok inner ∧ guarded least child inner <+: text := by
  unfold leftOperand? at hleft
  split at hleft <;> cases hleft <;> rw [expression] at hprint
  · next key computed optional =>
    obtain ⟨inner, hinner, hprint⟩ := exists_of_bind_eq_ok hprint
    refine ⟨inner, hinner, ?_⟩
    have hobject : (if isNumber child && !computed && !optional then
        (guarded 18 child inner).parenthesized else guarded 18 child inner) =
        guarded (if isNumber child && !computed && !optional then 21 else 18) child inner := by
      cases child with
      | number => cases computed <;> cases optional <;> rfl
      | _ => rfl
    rw [← hobject]
    dsimp only at hprint
    split at hprint <;> obtain ⟨_, -, ⟨⟩⟩ := exists_of_bind_eq_ok hprint <;> simp
  case h_2 | h_7 =>
    obtain ⟨inner, hinner, hprint⟩ := exists_of_bind_eq_ok hprint
    obtain ⟨_, -, ⟨⟩⟩ := exists_of_bind_eq_ok hprint
    exact ⟨inner, hinner, by simp⟩
  case h_4 | h_5 =>
    split at hprint
    · cases hprint
    next hop =>
    obtain ⟨inner, hinner, hprint⟩ := exists_of_bind_eq_ok hprint
    obtain ⟨_, -, ⟨⟩⟩ := exists_of_bind_eq_ok hprint
    rw [strength, hop]
    exact ⟨inner, hinner, guarded_infixText⟩
  · obtain ⟨inner, hinner, hprint⟩ := exists_of_bind_eq_ok hprint
    obtain ⟨_, -, hprint⟩ := exists_of_bind_eq_ok hprint
    obtain ⟨_, -, ⟨⟩⟩ := exists_of_bind_eq_ok hprint
    exact ⟨inner, hinner, by simp⟩
  · obtain ⟨inner, hinner, ⟨⟩⟩ := exists_of_bind_eq_ok hprint
    exact ⟨inner, hinner, by simp⟩

/-- A text starts with a brace exactly if an object literal stands first in its expression. -/
def Marks (e : Node) (text : Text) : Prop :=
  ∃ c rest, text = c :: rest ∧ (c = '\x7b' ↔ OpensBrace e)

theorem marks_leaf {c : CodePoint} {rest : Text} (hc : c ≠ '\x7b') (hleft : leftOperand? e = none)
    (hobject : ∀ ps, e ≠ .object ps) : Marks e (c :: rest) := by
  refine ⟨c, rest, rfl, fun h => absurd h hc, ?_⟩
  rintro (ps | ⟨hleft', _, _⟩)
  · exact absurd rfl (hobject ps)
  · cases hleft.symm.trans hleft'

theorem two_lt_of_leftOperand? (hleft : leftOperand? e = some (least, child)) : 2 < least := by
  unfold leftOperand? at hleft
  split at hleft <;> cases hleft <;> grind [strength]

/-- An expression starts like its first operand, or with a parenthesis. -/
theorem marks_operand (hleft : leftOperand? e = some (least, child)) (hobject : ∀ ps, e ≠ .object ps)
    (hprint : expression depth .plain e = .ok text)
    (ih : ∀ inner, 2 < strength child → expression depth .plain child = .ok inner →
      Marks child inner) : Marks e text := by
  have hiff : OpensBrace e ↔ least ≤ strength child ∧ OpensBrace child := by
    refine ⟨?_, fun h => .operand hleft h.1 h.2⟩
    rintro (ps | ⟨hleft', hbare, h⟩)
    · exact absurd rfl (hobject ps)
    · cases hleft.symm.trans hleft'
      exact ⟨hbare, h⟩
  obtain ⟨inner, hinner, rest, rfl⟩ := exists_leftOperand hleft hprint
  unfold guarded
  split
  · next hweak => exact ⟨_, _, rfl, nofun, fun h => absurd (hiff.mp h).1 (Nat.not_le.mpr hweak)⟩
  · next hbare =>
    rw [Nat.not_lt] at hbare
    obtain ⟨c, more, rfl, hc⟩ := ih inner (Nat.lt_of_lt_of_le (two_lt_of_leftOperand? hleft) hbare) hinner
    exact ⟨c, more ++ rest, rfl, hc.trans (hiff.trans (and_iff_right hbare)).symm⟩

/-- **The text of an expression starts with a brace exactly if an object literal stands first in it.**
Sequences and arrow functions bind so weakly that as operands they stand in parentheses. -/
theorem Readable.marks {e : Node} {text : Text} (h : Readable arrows .expression e)
    (hprint : expression depth .plain e = .ok text)
    (hstrong : 2 < strength e ∨ ∃ op left right, e = .assignment op left right) : Marks e text := by
  cases h with
  | identifier h =>
    rw [expression] at hprint
    cases hprint
    rcases text with _ | ⟨c, rest⟩
    · exact h.word.elim
    · refine marks_leaf ?_ rfl (by simp)
      rintro rfl
      exact absurd h.word.1 (by decide)
  | string | null | this =>
    rw [expression] at hprint
    cases hprint
    exact marks_leaf (by decide) rfl (by simp)
  | boolean value =>
    rw [expression] at hprint
    cases hprint
    cases value <;> exact marks_leaf (by decide) rfl (by simp)
  | number h =>
    obtain ⟨_, rfl, ⟨⟨c, more, rfl, -⟩, rest, kind, hscan⟩, -⟩ := h
    rw [expression] at hprint
    cases hprint
    refine marks_leaf ?_ rfl (by simp)
    rintro rfl
    exact absurd (Lexeme.head_of_number? hscan) (by decide)
  | template | array =>
    rw [expression] at hprint
    obtain ⟨_, -, ⟨⟩⟩ := exists_of_bind_eq_ok hprint
    exact marks_leaf (by decide) rfl (by simp)
  | object =>
    rw [expression] at hprint
    obtain ⟨texts, -, ⟨⟩⟩ := exists_of_bind_eq_ok hprint
    cases texts <;> exact ⟨_, _, rfl, fun _ => .object _, fun _ => rfl⟩
  | new =>
    rw [expression] at hprint
    obtain ⟨_, -, hprint⟩ := exists_of_bind_eq_ok hprint
    obtain ⟨_, -, ⟨⟩⟩ := exists_of_bind_eq_ok hprint
    exact marks_leaf (by decide) rfl (by simp)
  | part h | index h | call h | conditional h | binary _ _ h | logical _ _ h | assignment _ _ h =>
    exact marks_operand rfl (by simp) hprint fun inner hbare hinner => h.marks hinner (.inl hbare)
  | @unary op _ hop =>
    rw [expression] at hprint
    obtain ⟨_, -, ⟨⟩⟩ := exists_of_bind_eq_ok hprint
    cases op with
    | other => simp [UnaryOp.all] at hop
    | _ => exact marks_leaf (by decide) rfl (by simp)
  | @update op argument leading hop _ h =>
    cases leading with
    | false => exact marks_operand rfl (by simp) hprint fun inner hbare hinner => h.marks hinner (.inl hbare)
    | true =>
      rw [expression] at hprint
      obtain ⟨_, -, ⟨⟩⟩ := exists_of_bind_eq_ok hprint
      cases op with
      | other => simp [UpdateOp.all] at hop
      | _ => exact marks_leaf (by decide) rfl (by simp)
  | sequence | arrow => simp [strength] at hstrong
termination_by sizeOf e

/-- The body of an arrow function starts with a brace if an object literal stands first in it, unless
it is that object literal. -/
theorem head?_arrowBody (h : Readable arrows .expression e)
    (hword : ∀ name inner, e = .arrow [.identifier name] inner → IsWord name)
    (hprint : expression depth .plain e = .ok text) :
    (arrowBody e (guarded 2 e text)).head? = some (.char '\x7b') ↔
      OpensBrace e ∧ ∀ ps, e ≠ .object ps := by
  by_cases hstrong : 2 < strength e ∨ ∃ op left right, e = .assignment op left right
  · obtain ⟨c, rest, rfl, hc⟩ := h.marks hprint hstrong
    have hbare : ¬strength e < 2 := by
      rcases hstrong with h | ⟨op, left, right, rfl⟩
      · exact Nat.not_lt_of_gt h
      · exact Nat.lt_irrefl 2
    rw [guarded, if_neg hbare]
    cases e with
    | object ps => exact ⟨by rintro ⟨⟩, fun h => absurd rfl (h.2 ps)⟩
    | _ => simpa [arrowBody] using hc
  · cases h with
    | sequence => exact ⟨by rintro ⟨⟩, fun h => by cases h.1; contradiction⟩
    | arrow params body =>
      refine ⟨?_, fun h => by cases h.1; contradiction⟩
      unfold expression at hprint
      obtain ⟨head, hhead, hprint⟩ := exists_of_bind_eq_ok hprint
      obtain ⟨tail, -, ⟨⟩⟩ := exists_of_bind_eq_ok hprint
      intro h
      split at hhead
      · cases hhead
        specialize hword head body rfl
        cases head with
        | nil => exact hword.elim
        | cons c rest =>
          cases h
          exact absurd hword.1 (by decide)
      · obtain ⟨texts, -, ⟨⟩⟩ := exists_of_bind_eq_ok hhead
        cases h
    | @update _ _ leading => cases leading <;> simp [strength] at hstrong
    | _ => simp [strength] at hstrong

/-- **Where a block would be read, a brace is printed only by an arrow function.**  No statement that
holds an expression starts with a brace, and without arrow functions it is read back as it was.  The
body of an arrow function starts with one exactly if an object literal stands first in it but is not all
of it. -/
theorem print_brace (depth : Nat) (e : Node) (text : Text) :
    (Printer.statement depth (.expressionStatement e) = .ok text →
      text.head? ≠ some (.char '\x7b')) ∧
    (Readable false .expression e → ∃ text, print (.expressionStatement e) = .ok text ∧
      parse text = .ok [.expressionStatement e]) ∧
    ∀ params, Readable true .expression e →
      (∀ name inner, e = .arrow [.identifier name] inner → IsWord name) →
      expression depth .plain (.arrow params e) = .ok text →
      ∃ head tail, text = head ++ " => " ++ tail ∧
        (tail.head? = some (.char '\x7b') ↔ OpensBrace e ∧ ∀ ps, e ≠ .object ps) := by
  refine ⟨fun hprint => ?_, fun h => parse_print_statement (.expression h),
    fun params h hword hprint => ?_⟩
  · rw [Printer.statement] at hprint
    obtain ⟨inner, -, ⟨⟩⟩ := exists_of_bind_eq_ok hprint
    cases hopens : Printer.opensLikeStatement inner with
    | true => rintro ⟨⟩
    | false =>
      cases inner with
      | nil => rintro ⟨⟩
      | cons c rest => exact (head?_of_not_opensLikeStatement hopens :)
  · unfold expression at hprint
    obtain ⟨head, -, hprint⟩ := exists_of_bind_eq_ok hprint
    obtain ⟨tail, htail, ⟨⟩⟩ := exists_of_bind_eq_ok hprint
    refine ⟨head, tail, rfl, ?_⟩
    split at htail
    · cases h
    · obtain ⟨inner, hinner, ⟨⟩⟩ := exists_of_bind_eq_ok htail
      exact head?_arrowBody h hword hinner

/-- An object literal whose property is read in the body of an arrow function. -/
theorem print_brace_arrow :
    print (.arrow [] (.member (.object []) (.identifier "a") false false)) =
        .ok "() => \x7b\x7d.a" ∧
      parse "() => (\x7b\x7d).a" =
        .ok [.expressionStatement (.arrow [] (.member (.object []) (.identifier "a") false false))] ∧
      (parse "() => \x7b\x7d.a").isOk = false := by
  refine ⟨rfl, ?_, by decide +kernel⟩
  cbv

end ViewMarkup.Script
