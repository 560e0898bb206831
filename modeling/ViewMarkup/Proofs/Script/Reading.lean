import ViewMarkup.Script.Parser
import ViewMarkup.Script.Printer

/-!
# The phrases of the expression language

Which tokens are read as an expression, said rule by rule as in a grammar.  The tokens of a phrase
may stand before any others that do not extend it.  How much an expression may be extended by what
follows depends on its strength: behind an operand of a product a sum ends, a product does not.

* `Phrase` says that tokens are read as an expression of a given strength.
* `Phrase.weaken`: a phrase may stand where a weaker one is asked for.
* One lemma for each kind of expression builds its phrases from those of its parts.
-/

namespace ViewMarkup.Script.Parser

variable {kind : TokenKind} {rest : List Token} {rest' ts us : List Token} {j k least : Nat}
  {x : Operand} {e : Node}

/-! ### Reading step by step -/

/-- Reading gives a value and leaves some tokens. -/
def Reads {α : Type} {bound : Nat} (result : Except SyntaxFault (Parsed α bound)) (value : α)
    (rest : List Token) : Prop :=
  ∃ shorter, result = .ok ⟨value, rest, shorter⟩

section
variable {α β : Type} {n m : Nat} {value : α} {rest : List Token}

theorem Reads.ok {shorter : rest.length < n} :
    Reads (.ok ⟨value, rest, shorter⟩ : Except SyntaxFault (Parsed α n)) value rest :=
  ⟨shorter, rfl⟩

/-- Reading one thing after another. -/
theorem Reads.bind {result : Except SyntaxFault (Parsed α n)}
    {next : Parsed α n → Except SyntaxFault (Parsed β m)} {value' : β} (h : Reads result value rest)
    (hnext : ∀ shorter, Reads (next ⟨value, rest, shorter⟩) value' rest') :
    Reads (result >>= next) value' rest' := by
  obtain ⟨shorter, rfl⟩ := h
  exact hnext shorter

end

variable {stop : Nat} {t : Token} {more : List Token}

theorem pass?_of_kind (more : List Token) (h : t.kind = kind) :
    ∃ shorter, pass? kind (t :: more) = some ⟨(), more, shorter⟩ := by
  simp [pass?, h]

theorem pass?_of_ne (h : ∀ t ∈ ts.head?, t.kind ≠ kind) : pass? kind ts = none := by
  cases ts with
  | nil => rfl
  | cons t more => simp [pass?, h t rfl]

theorem expect_reads {s : Symbol} (h : t.kind = .symbol s) :
    Reads (expect stop s (t :: more)) () more := by
  obtain ⟨shorter, hpass⟩ := pass?_of_kind more h
  exact ⟨shorter, by rw [expect, hpass]⟩

/-! ### Where an expression ends -/

/-- The tokens that go on with a chain of accesses and calls. -/
def linksOn (t : Token) : Bool :=
  match t.kind with
  | .symbol .dot | .symbol .bracketOpen | .symbol .optionalDot | .symbol .parenOpen
  | .backtick => true
  | _ => false

/-- A token as an operator that stores a value. -/
def assignOperator? (t : Token) : Option AssignOp :=
  match t.kind with
  | .symbol s => s.assign?
  | _ => none

/-- A token does not go on with an expression of strength `k`. -/
structure EndsBefore (k : Nat) (t : Token) : Prop where
  link : k ≤ 16 → linksOn t = false
  update : k ≤ 16 → updateOperator? t = none
  binary : k ≤ 14 → ∀ op strength, binaryOperator? t = some (op, strength) →
    op ≠ .pow ∧ strength + 3 ≤ k
  question : k ≤ 3 → t.kind ≠ .symbol .question
  assign : k ≤ 2 → assignOperator? t = none
  comma : k ≤ 1 → t.kind ≠ .symbol .comma
  arrow : t.kind ≠ .symbol .arrow

theorem EndsBefore.mono (h : EndsBefore j t) (hjk : j ≤ k) : EndsBefore k t where
  link hk := h.link (Nat.le_trans hjk hk)
  update hk := h.update (Nat.le_trans hjk hk)
  binary hk op strength hop :=
    have ⟨hne, hle⟩ := h.binary (Nat.le_trans hjk hk) op strength hop
    ⟨hne, Nat.le_trans hle hjk⟩
  question hk := h.question (Nat.le_trans hjk hk)
  assign hk := h.assign (Nat.le_trans hjk hk)
  comma hk := h.comma (Nat.le_trans hjk hk)
  arrow := h.arrow

/-- An expression of strength `k` ends where these tokens follow. -/
def Ends (k : Nat) (rest : List Token) : Prop :=
  ∀ t ∈ rest.head?, EndsBefore k t

theorem Ends.mono (h : Ends j rest) (hjk : j ≤ k) : Ends k rest :=
  fun t ht => (h t ht).mono hjk

theorem Ends.cons (h : EndsBefore k t) : Ends k (t :: rest) := by
  rintro _ ⟨⟩
  exact h

/-! ### Tails that take nothing -/

theorem callTail_ends {allow : Bool} (h : ∀ t ∈ rest.head?, linksOn t = false) :
    Reads (callTail stop allow x rest) x rest := by
  rw [callTail.eq_def]
  split
  case h_6 => exact .ok
  all_goals cases h _ rfl

theorem passUpdate?_ends (h : Ends k rest) (hk : k ≤ 16) : passUpdate? rest = none := by
  cases rest with
  | nil => rfl
  | cons t more => simp [passUpdate?, (h t rfl).update hk]

/-- An operand ends where only weaker operators follow. -/
theorem binaryTail_ends
    (h : ∀ t ∈ rest.head?, ∀ op strength, binaryOperator? t = some (op, strength) →
      strength < least) : Reads (binaryTail stop least x rest) x rest := by
  cases rest with
  | nil =>
    rw [binaryTail]
    exact .ok
  | cons t more =>
    rw [binaryTail]
    cases hop : binaryOperator? t with
    | none => exact .ok
    | some found =>
      obtain ⟨op, strength⟩ := found
      dsimp only
      rw [if_pos (h t rfl op strength hop)]
      exact .ok

theorem passAssign?_ends (h : Ends k rest) (hk : k ≤ 2) : passAssign? rest = none := by
  unfold passAssign?
  split
  · next s text offset newline more =>
    have hassign := (h _ rfl).assign hk
    simp only [assignOperator?] at hassign
    simp [hassign]
  · rfl

theorem sequenceTail_ends (h : Ends k rest) (hk : k ≤ 1) :
    Reads (sequenceTail stop rest) [] rest := by
  rw [sequenceTail.eq_def]
  split
  · exact absurd rfl ((h _ rfl).comma hk)
  · exact .ok

/-- No arrow function starts with some tokens, unless an arrow follows them. -/
def Quiet (ts : List Token) : Prop :=
  ∀ rest, (∀ t ∈ rest.head?, t.kind ≠ .symbol .arrow) → arrowAhead (ts ++ rest) = false

theorem Quiet.append (h : Quiet ts) (ht : t.kind ≠ .symbol .arrow) : Quiet (ts ++ t :: us) := by
  intro rest _
  rw [List.append_assoc]
  exact h _ (by rintro _ ⟨⟩; exact ht)

/-- The search for the end of a bracket passes over some tokens. -/
abbrev Passes (ts : List Token) : Prop :=
  ∀ depth rest, arrowAfterClose (depth + 1) (ts ++ rest) = arrowAfterClose (depth + 1) rest

/-- A token that is no bracket. -/
abbrev NoBracket (t : Token) : Prop :=
  ∀ depth rest, arrowAfterClose depth (t :: rest) = arrowAfterClose depth rest

/-! ### Phrases -/

/-- The tokens that an expression of strength `k` can start with. -/
def opensExpression (k : Nat) : TokenKind → Bool
  | .name | .number | .string | .constant _ | .backtick => true
  | .keyword .this | .keyword .new => true
  | .symbol .parenOpen | .symbol .bracketOpen | .symbol .braceOpen => true
  | .keyword word => k ≤ 15 && word.unary?.isSome
  | .symbol s => k ≤ 15 && (s.unary?.isSome || s.update?.isSome)
  | _ => false

theorem opensExpression_mono (hjk : j ≤ k) (h : opensExpression k kind = true) :
    opensExpression j kind = true := by
  revert h
  fun_cases opensExpression k kind with
  | _ => grind [opensExpression]

/-- The first of some tokens can start an expression of strength `k`. -/
def Opens (k : Nat) (ts : List Token) : Prop :=
  ∃ t more, ts = t :: more ∧ opensExpression k t.kind = true

/-- A primary expression with the accesses and calls after it, up to where `value` is read. -/
def ReadsChain (stop : Nat) (allow : Bool) (ts : List Token) (value : Operand)
    (rest : List Token) : Prop :=
  ∃ head rest', Reads (headExpression stop ts) head rest' ∧
    Reads (callTail stop allow head rest') value rest

/-- Whether an operand can be called after `new` as it is written. -/
def isCallee (x : Operand) : Bool :=
  x.parenthesized || Printer.isPlainCallee x.node

/-- Some tokens are read as an operand wherever one of strength `k` or less is asked for.  Chains
and binary operators go on from the operand with whatever follows. -/
structure Phrase (k : Nat) (x : Operand) (ts : List Token) : Prop where
  opens : Opens k ts
  quiet (hk : 3 ≤ k) : Quiet ts
  passes : Passes ts
  expression {stop : Nat} {rest : List Token} (hends : Ends 1 rest) :
    Reads (expression stop (ts ++ rest)) x.node rest
  assignment {stop : Nat} {rest : List Token} (hk : 2 ≤ k) (hends : Ends 2 rest) :
    Reads (assignment stop (ts ++ rest)) x.node rest
  conditional {stop : Nat} {rest : List Token} (hk : 4 ≤ k) (hends : Ends 3 rest) :
    Reads (conditional stop (ts ++ rest)) x.node rest
  binary {stop least : Nat} {rest rest' : List Token} {value : Operand} (hk : 4 ≤ k)
    (hleast : least + 3 ≤ min k 14) (hends : Ends (min k 14) rest)
    (htail : Reads (binaryTail stop least x rest) value rest') :
    Reads (binary stop least (ts ++ rest)) value rest'
  unary {stop : Nat} {rest : List Token} (hk : 15 ≤ k) (hends : Ends 16 rest) :
    Reads (unary stop (ts ++ rest)) x rest
  chain {stop : Nat} {allow : Bool} {rest rest' : List Token} {value : Operand} (hk : 17 ≤ k)
    (hallow : allow = true ∨ isCallee x = true)
    (htail : Reads (callTail stop allow x rest) value rest') :
    ReadsChain stop allow (ts ++ rest) value rest'
  head {stop : Nat} {rest : List Token} (hk : 19 ≤ k) :
    Reads (headExpression stop (ts ++ rest)) x rest

variable {j k : Nat} {x : Operand} {ts : List Token}

theorem Opens.mono (h : Opens k ts) (hjk : j ≤ k) : Opens j ts := by
  obtain ⟨t, more, hts, ht⟩ := h
  exact ⟨t, more, hts, opensExpression_mono hjk ht⟩

theorem Opens.append (h : Opens k ts) : Opens k (ts ++ us) := by
  obtain ⟨t, more, rfl, ht⟩ := h
  exact ⟨t, more ++ us, rfl, ht⟩

/-- **A phrase may stand where a weaker one is asked for.** -/
theorem Phrase.weaken (h : Phrase k x ts) (hjk : j ≤ k) : Phrase j x ts where
  opens := h.opens.mono hjk
  quiet hj := h.quiet (by omega)
  passes := h.passes
  expression := h.expression
  assignment hj := h.assignment (by omega)
  conditional hj := h.conditional (by omega)
  binary hj hleast hends := h.binary (by omega) (by omega) (hends.mono (by omega))
  unary hj := h.unary (by omega)
  chain hj := h.chain (by omega)
  head hj := h.head (by omega)

/-! The tokens of an expression are read as such at each weaker level too. -/

theorem expression_of_assignment (hends : Ends 1 rest)
    (h : Reads (assignment stop (ts ++ rest)) e rest) :
    Reads (expression stop (ts ++ rest)) e rest := by
  rw [expression]
  exact h.bind fun _ => (sequenceTail_ends hends (Nat.le_refl 1)).bind fun _ => .ok

theorem assignment_of_conditional (hts : Quiet ts) (hends : Ends 2 rest)
    (h : Reads (conditional stop (ts ++ rest)) e rest) :
    Reads (assignment stop (ts ++ rest)) e rest := by
  rw [assignment, if_neg (by simp [hts rest fun t ht => (hends t ht).arrow])]
  refine h.bind fun _ => ?_
  dsimp only
  rw [passAssign?_ends hends (Nat.le_refl 2)]
  exact .ok

theorem conditional_of_binary (hends : Ends 3 rest)
    (h : Reads (binary stop 1 (ts ++ rest)) x rest) :
    Reads (conditional stop (ts ++ rest)) x.node rest := by
  rw [conditional]
  refine h.bind fun _ => ?_
  dsimp only
  rw [pass?_of_ne fun t ht => (hends t ht).question (Nat.le_refl 3)]
  exact .ok

theorem binary_of_unary {value : Operand} (h : Reads (unary stop (ts ++ rest)) x rest)
    (htail : Reads (binaryTail stop least x rest) value rest') :
    Reads (binary stop least (ts ++ rest)) value rest' := by
  rw [binary]
  exact h.bind fun _ => htail.bind fun _ => .ok

theorem leftHandSide_of_chain (h : ReadsChain stop true ts x rest) :
    Reads (leftHandSide stop ts) x rest := by
  obtain ⟨head, rest', hhead, htail⟩ := h
  rw [leftHandSide]
  exact hhead.bind fun _ => htail.bind fun _ => .ok

theorem not_operator_of_opens (h : opensExpression 16 t.kind = true) :
    unaryOperator? t = none ∧ updateOperator? t = none := by
  unfold unaryOperator? updateOperator?
  cases hkind : t.kind with
  | keyword word => cases word <;> simp_all [opensExpression, Keyword.unary?]
  | symbol s => cases s <;> simp_all [opensExpression, Symbol.unary?, Symbol.update?]
  | _ => exact ⟨rfl, rfl⟩

theorem unary_of_leftHandSide (hopens : Opens 16 ts) (hends : Ends 16 rest)
    (h : Reads (leftHandSide stop (ts ++ rest)) x rest) :
    Reads (unary stop (ts ++ rest)) x rest := by
  obtain ⟨t, more, rfl, ht⟩ := hopens
  obtain ⟨hunary, hupdate⟩ := not_operator_of_opens ht
  rw [List.cons_append, unary, hunary, hupdate]
  refine h.bind fun _ => ?_
  dsimp only
  rw [passUpdate?_ends hends (Nat.le_refl 16)]
  exact .ok

/-- How tokens are read at the strongest level at which they are. -/
inductive ReadsAs (x : Operand) (ts : List Token) : Nat → Prop
  | expression (h : ∀ {stop rest}, Ends 1 rest →
      Reads (Parser.expression stop (ts ++ rest)) x.node rest) : ReadsAs x ts 1
  | assignment (h : ∀ {stop rest}, Ends 2 rest →
      Reads (Parser.assignment stop (ts ++ rest)) x.node rest) : ReadsAs x ts 2
  | conditional (h : ∀ {stop rest}, Ends 2 rest →
      Reads (Parser.conditional stop (ts ++ rest)) x.node rest) : ReadsAs x ts 3
  | binary {k : Nat} (hk : 4 ≤ k) (hk' : k ≤ 14)
      (h : ∀ {stop least rest rest' value}, least + 3 ≤ k → Ends k rest →
        Reads (binaryTail stop least x rest) value rest' →
        Reads (Parser.binary stop least (ts ++ rest)) value rest') : ReadsAs x ts k
  | unary {k : Nat} (hk : 15 ≤ k) (hk' : k ≤ 16) (h : ∀ {stop rest}, Ends 16 rest →
      Reads (Parser.unary stop (ts ++ rest)) x rest) : ReadsAs x ts k
  | chain (h : ∀ {stop allow rest rest' value}, allow = true ∨ isCallee x = true →
      Reads (callTail stop allow x rest) value rest' →
      ReadsChain stop allow (ts ++ rest) value rest') : ReadsAs x ts 18
  | head (h : ∀ {stop rest}, Reads (headExpression stop (ts ++ rest)) x rest) : ReadsAs x ts 20

/-- **What is read at one level is read at the weaker ones too.** -/
theorem ReadsAs.phrase (h : ReadsAs x ts k) (hopens : Opens k ts) (hquiet : 3 ≤ k → Quiet ts)
    (hpasses : Passes ts) : Phrase k x ts := by
  have hhead {stop rest} (hk : 19 ≤ k) : Reads (headExpression stop (ts ++ rest)) x rest := by
    cases h with
    | head h => exact h
    | _ => omega
  have hchain {stop allow rest rest' value} (hk : 17 ≤ k) (hallow : allow = true ∨ isCallee x = true)
      (htail : Reads (callTail stop allow x rest) value rest') :
      ReadsChain stop allow (ts ++ rest) value rest' := by
    cases h with
    | chain h => exact h hallow htail
    | head h => exact ⟨x, rest, h, htail⟩
    | _ => omega
  have hunary {stop rest} (hk : 15 ≤ k) (hends : Ends 16 rest) :
      Reads (Parser.unary stop (ts ++ rest)) x rest := by
    have hleft (hk : 17 ≤ k) : Reads (leftHandSide stop (ts ++ rest)) x rest :=
      leftHandSide_of_chain (hchain hk (.inl rfl)
        (callTail_ends fun t ht => (hends t ht).link (by omega)))
    cases h with
    | unary hk hk' h => exact h hends
    | chain | head =>
      exact unary_of_leftHandSide (hopens.mono (by omega)) hends (hleft (by omega))
    | _ => omega
  have hbinary {stop least rest rest' value} (hk : 4 ≤ k) (hleast : least + 3 ≤ min k 14)
      (hends : Ends (min k 14) rest) (htail : Reads (binaryTail stop least x rest) value rest') :
      Reads (Parser.binary stop least (ts ++ rest)) value rest' := by
    rcases Nat.lt_or_ge k 15 with hlt | hge
    · cases h with
      | binary hk hk' h => exact h (by omega) (hends.mono (by omega)) htail
      | _ => omega
    · exact binary_of_unary (hunary hge (hends.mono (by omega))) htail
  have hconditional {stop rest} (hk : 4 ≤ k) (hends : Ends 3 rest) :
      Reads (Parser.conditional stop (ts ++ rest)) x.node rest :=
    conditional_of_binary hends (hbinary hk (by omega) (hends.mono (by omega))
      (binaryTail_ends fun t ht op strength hop => by
        have := ((hends t ht).binary (by omega) op strength hop).2
        omega))
  have hassignment {stop rest} (hk : 2 ≤ k) (hends : Ends 2 rest) :
      Reads (Parser.assignment stop (ts ++ rest)) x.node rest := by
    rcases Nat.lt_or_ge k 4 with hlt | hge
    · cases h with
      | assignment h => exact h hends
      | conditional h => exact assignment_of_conditional (hquiet (by omega)) hends (h hends)
      | _ => omega
    · exact assignment_of_conditional (hquiet (by omega)) hends
        (hconditional hge (hends.mono (by omega)))
  refine ⟨hopens, hquiet, hpasses, fun {stop rest} hends => ?_, hassignment, hconditional, hbinary,
    hunary, hchain, hhead⟩
  rcases Nat.lt_or_ge k 2 with hlt | hge
  · cases h with
    | expression h => exact h hends
    | _ => omega
  · exact expression_of_assignment hends (hassignment hge (hends.mono (by omega)))

end ViewMarkup.Script.Parser
