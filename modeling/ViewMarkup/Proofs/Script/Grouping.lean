import ViewMarkup.Proofs.Script.Phrases

/-!
# Operators group by strength

A row of operands with operators between them has one tree in which every operator stands as its
strength and its side of grouping prescribe.  The parser finds this tree or refuses it.

* `Grouping` is a tree over operands, and `Grouping.Grouped` says that its operators stand right.
* `Grouping.Grouped.unique` and `Grouping.Grouped.extendAll`: every row has one such tree.
* `outcome_binary_grouping` is the induction over the tree: climbing over the tokens of a tree comes to
  what the tree comes to by itself, whatever weaker operator follows.
* `parse_row` is the statement about texts.
-/

namespace ViewMarkup.Script

open List
open Parser (isBareUnary combine mixes)

variable {op : BinaryOp}

/-! ### Trees of operands -/

/-- A name with operators before it. -/
structure Term where
  ops : List UnaryOp
  name : Text
  deriving DecidableEq

def Term.node (x : Term) : Node :=
  x.ops.foldr .unary (.identifier x.name)

namespace BinaryOp

variable {inner : BinaryOp}

/-- How tightly an operator binds. -/
def strength (op : BinaryOp) : Nat :=
  op.strength?.getD 0

/-- The second operator may stand at the root of the left operand of the first. -/
def TakesLeft (op inner : BinaryOp) : Prop :=
  if op = .pow then op.strength < inner.strength else op.strength ≤ inner.strength

/-- The second operator may stand at the root of the right operand of the first. -/
def TakesRight (op inner : BinaryOp) : Prop :=
  if op = .pow then op.strength ≤ inner.strength else op.strength < inner.strength

/-- The operators do not mix without parentheses. -/
def Clashes (op inner : BinaryOp) : Prop :=
  op = .coalesce ∧ (inner = .or ∨ inner = .and) ∨ inner = .coalesce ∧ (op = .or ∨ op = .and)

instance (op inner : BinaryOp) : Decidable (TakesRight op inner) := by
  unfold TakesRight; infer_instance

theorem strength_eq_iff : op.strength = 11 ↔ op = .pow := by
  cases op <;> simp [strength, strength?]

/-- An operator does not stand both on the right below another and on the left above it. -/
theorem TakesRight.not_takesLeft (h : op.TakesRight inner) : ¬ inner.TakesLeft op := by
  have hpow := @strength_eq_iff op
  have hpow' := @strength_eq_iff inner
  unfold TakesRight at h
  unfold TakesLeft
  grind

/-- Of two neighbours one takes the other. -/
theorem takesLeft_of_not_takesRight (h : ¬ op.TakesRight inner) : inner.TakesLeft op := by
  have hpow := @strength_eq_iff op
  have hpow' := @strength_eq_iff inner
  unfold TakesRight at h
  unfold TakesLeft
  grind

end BinaryOp

/-- A tree of operators over operands. -/
inductive Grouping where
  | operand (x : Term)
  | join (op : BinaryOp) (left right : Grouping)
  deriving DecidableEq

namespace Grouping

variable {item : BinaryOp × Term}

/-- The operator at the root. -/
def root? : Grouping → Option BinaryOp
  | operand _ => none
  | join op _ _ => some op

/-- The first operand. -/
def first : Grouping → Term
  | operand x => x
  | join _ left _ => left.first

/-- What follows the first operand, each further operand with the operator before it. -/
def rest : Grouping → List (BinaryOp × Term)
  | operand _ => []
  | join op left right => left.rest ++ (op, right.first) :: right.rest

/-- Every operator stands as its strength prescribes. -/
def Grouped : Grouping → Prop
  | operand _ => True
  | join op left right => left.Grouped ∧ right.Grouped ∧
      (∀ o ∈ left.root?, op.TakesLeft o) ∧ ∀ o ∈ right.root?, op.TakesRight o

/-- The tree is a single operand that has an operator before it. -/
def IsUnary : Grouping → Prop
  | operand x => x.ops ≠ []
  | join .. => False

/-- Somewhere a power has a unary expression as its left operand, or operators meet that do not mix. -/
def Refused : Grouping → Prop
  | operand _ => False
  | join op left right => left.Refused ∨ right.Refused ∨ op = .pow ∧ left.IsUnary ∨
      (∃ o ∈ left.root?, op.Clashes o) ∨ ∃ o ∈ right.root?, op.Clashes o

/-- The expression of a tree. -/
def node : Grouping → Node
  | operand x => x.node
  | join op left right =>
    if op.isLogical then .logical op left.node right.node else .binary op left.node right.node

variable {t u left right : Grouping} {op : BinaryOp}

/-! ### There is one tree -/

/-- No operator of a tree is weaker than the root. -/
theorem Grouped.root_le (ht : t.Grouped) (hitem : item ∈ t.rest) :
    ∃ o ∈ t.root?, o.strength ≤ item.1.strength := by
  induction t with
  | operand x => cases hitem
  | join op left right ihleft ihright =>
    obtain ⟨hleft, hright, htakes, htakes'⟩ := ht
    refine ⟨op, rfl, ?_⟩
    rcases mem_append.mp hitem with hitem | hitem
    · grind [BinaryOp.TakesLeft]
    · rcases mem_cons.mp hitem with rfl | hitem
      · exact Nat.le_refl _
      · grind [BinaryOp.TakesRight]

section

variable (h : (join op left right).Grouped)
include h

theorem Grouped.takesLeft (hitem : item ∈ left.rest) : op.TakesLeft item.1 := by
  obtain ⟨o, ho, hle⟩ := h.1.root_le hitem
  have := h.2.2.1 o ho
  grind [BinaryOp.TakesLeft]

theorem Grouped.takesRight (hitem : item ∈ right.rest) : op.TakesRight item.1 := by
  obtain ⟨o, ho, hle⟩ := h.2.1.root_le hitem
  have := h.2.2.2 o ho
  grind [BinaryOp.TakesRight]

/-- The root of a tree does not stand further to the left in another tree of the same row. -/
theorem Grouped.root_not_later {op' : BinaryOp} {left' right' : Grouping} (h' : (join op' left' right').Grouped)
    {items : List (BinaryOp × Term)} (hleft : left'.rest = left.rest ++ item :: items)
    (heq : (op, right.first) :: right.rest = item :: items ++ (op', right'.first) :: right'.rest) :
    False := by
  obtain ⟨rfl, hright⟩ := cons.inj heq
  have hlater : (op', right'.first) ∈ right.rest := by rw [hright]; simp
  have hearlier : (op, right.first) ∈ left'.rest := by rw [hleft]; simp
  exact (h.takesRight hlater).not_takesLeft (h'.takesLeft hearlier)

end

/-- **A row has only one tree.** -/
theorem Grouped.unique (ht : t.Grouped) (hu : u.Grouped) (hfirst : t.first = u.first)
    (hrest : t.rest = u.rest) : t = u := by
  induction t generalizing u with
  | operand x =>
    cases u with
    | operand y => exact congrArg operand hfirst
    | join op left right => simp [rest] at hrest
  | join op left right ihleft ihright =>
    cases u with
    | operand y => simp [rest] at hrest
    | join op' left' right' =>
      -- one of the roots stands further to the left, or they are the same
      rcases append_eq_append_iff.mp hrest with ⟨items, hleft, heq⟩ | ⟨items, hleft, heq⟩
      · cases items with
        | nil =>
          simp only [nil_append, cons.injEq, Prod.mk.injEq] at heq
          obtain ⟨⟨rfl, hfirst'⟩, hright⟩ := heq
          rw [ihleft ht.1 hu.1 hfirst (by simpa using hleft.symm),
            ihright ht.2.1 hu.2.1 hfirst' hright]
        | cons item items => exact (ht.root_not_later hu hleft heq).elim
      · cases items with
        | nil =>
          simp only [nil_append, cons.injEq, Prod.mk.injEq] at heq
          obtain ⟨⟨rfl, hfirst'⟩, hright⟩ := heq
          rw [ihleft ht.1 hu.1 hfirst (by simpa using hleft),
            ihright ht.2.1 hu.2.1 hfirst'.symm hright.symm]
        | cons item items => exact (hu.root_not_later ht hleft heq).elim

/-- The tree after one more operator and operand. -/
def extend (op : BinaryOp) (x : Term) : Grouping → Grouping
  | operand y => join op (operand y) (operand x)
  | join o left right =>
    if o.TakesRight op then join o left (right.extend op x)
    else join op (join o left right) (operand x)

section

variable (op : BinaryOp) (x : Term) (t : Grouping)

theorem first_extend : (t.extend op x).first = t.first := by
  cases t with
  | operand y => rfl
  | join o left right =>
    rw [extend]
    split <;> rfl

theorem rest_extend : (t.extend op x).rest = t.rest ++ [(op, x)] := by
  induction t with
  | operand y => rfl
  | join o left right _ ih =>
    rw [extend]
    split
    · simp [rest, ih, first_extend]
    · rfl

theorem root?_extend : (t.extend op x).root? = some op ∨ (t.extend op x).root? = t.root? := by
  cases t with
  | operand y => exact .inl rfl
  | join o left right =>
    rw [extend]
    split
    · exact .inr rfl
    · exact .inl rfl

end

theorem Grouped.extend (ht : t.Grouped) (op : BinaryOp) (x : Term) : (t.extend op x).Grouped := by
  induction t with
  | operand y => exact ⟨trivial, trivial, nofun, nofun⟩
  | join o left right _ ih =>
    obtain ⟨hleft, hright, htakes, htakes'⟩ := ht
    rw [Grouping.extend]
    split
    · next hop =>
      refine ⟨hleft, ih hright, htakes, fun o' ho' => ?_⟩
      rcases root?_extend op x right with hroot | hroot
      · cases hroot.symm.trans ho'
        exact hop
      · exact htakes' o' (hroot.symm.trans ho')
    · next hop =>
      refine ⟨⟨hleft, hright, htakes, htakes'⟩, trivial, ?_, nofun⟩
      rintro _ ⟨⟩
      exact BinaryOp.takesLeft_of_not_takesRight hop

/-- A tree after further operators and operands. -/
def extendAll (t : Grouping) (row : List (BinaryOp × Term)) : Grouping :=
  row.foldl (fun t item => t.extend item.1 item.2) t

/-- **Every row has a tree.** -/
theorem Grouped.extendAll (ht : t.Grouped) (row : List (BinaryOp × Term)) :
    (t.extendAll row).Grouped ∧ (t.extendAll row).first = t.first ∧
      (t.extendAll row).rest = t.rest ++ row := by
  induction row generalizing t with
  | nil => exact ⟨ht, rfl, (append_nil _).symm⟩
  | cons item row ih =>
    obtain ⟨hgrouped, hfirst, hrest⟩ := ih (ht.extend item.1 item.2)
    refine ⟨hgrouped, hfirst.trans (first_extend _ _ _), hrest.trans ?_⟩
    rw [rest_extend, append_assoc, singleton_append]

/-! ### What a tree comes to -/

/-- The expression of a tree, or the first reason to refuse it. -/
def result : Grouping → Except SyntaxFault Node
  | operand x => .ok x.node
  | join op left right => do
    let a ← left.result
    if op = .pow && isBareUnary ⟨a, false⟩ then throw .unaryBeforePower
    let b ← right.result
    combine op ⟨a, false⟩ ⟨b, false⟩

theorem isBareUnary_node : isBareUnary ⟨t.node, false⟩ = true ↔ t.IsUnary := by
  cases t with
  | operand x =>
    obtain ⟨ops, name⟩ := x
    cases ops <;> simp [node, Term.node, isBareUnary, IsUnary]
  | join op left right =>
    rw [node]
    split <;> simp [isBareUnary, IsUnary]

theorem isLogical_iff : op.isLogical = true ↔ op = .coalesce ∨ op = .or ∨ op = .and := by
  cases op <;> simp [BinaryOp.isLogical]

theorem mixes_node (hop : op.isLogical = true) :
    mixes op ⟨t.node, false⟩ = true ↔ ∃ o ∈ t.root?, op.Clashes o := by
  cases t with
  | operand x =>
    obtain ⟨ops, name⟩ := x
    cases ops <;> simp [node, Term.node, mixes, root?]
  | join o left right =>
    rw [isLogical_iff] at hop
    have ho := @isLogical_iff o
    rw [node]
    split
    · next hlogical =>
      rcases hop with rfl | rfl | rfl <;> rcases ho.mp hlogical with rfl | rfl | rfl <;>
        simp [mixes, root?, BinaryOp.Clashes] <;> rfl
    · rcases hop with rfl | rfl | rfl <;>
        simp_all [mixes, root?, BinaryOp.Clashes]

/-- Two operands are joined unless their operators clash. -/
theorem combine_node (op : BinaryOp) (left right : Grouping) :
    combine op ⟨left.node, false⟩ ⟨right.node, false⟩ = .ok (join op left right).node ∧
      (∀ o, o ∈ left.root? ∨ o ∈ right.root? → ¬ op.Clashes o) ∨
    combine op ⟨left.node, false⟩ ⟨right.node, false⟩ = .error .mixedCoalesce ∧
      ((∃ o ∈ left.root?, op.Clashes o) ∨ ∃ o ∈ right.root?, op.Clashes o) := by
  unfold combine
  rw [node]
  split
  · next hop =>
    split
    · next hmixes =>
      rw [Bool.or_eq_true, mixes_node hop, mixes_node hop] at hmixes
      exact .inr ⟨rfl, hmixes⟩
    · next hmixes =>
      rw [Bool.or_eq_true, mixes_node hop, mixes_node hop] at hmixes
      grind
  · next hop =>
    rw [isLogical_iff] at hop
    grind [BinaryOp.Clashes]

/-- **A tree comes to its expression unless it is refused.** -/
theorem result_cases (t : Grouping) : t.result = .ok t.node ∧ ¬ t.Refused ∨
    (t.result = .error .unaryBeforePower ∨ t.result = .error .mixedCoalesce) ∧ t.Refused := by
  induction t with
  | operand x => exact .inl ⟨rfl, id⟩
  | join op left right ihleft ihright =>
    rw [result, Refused]
    rcases ihleft with ⟨hleft, hkept⟩ | ⟨hleft, hrefused⟩
    · rw [hleft]
      by_cases hpow : op = .pow ∧ left.IsUnary
      · have htest : (decide (op = .pow) && isBareUnary ⟨left.node, false⟩) = true := by
          rw [Bool.and_eq_true, decide_eq_true_iff, isBareUnary_node]
          exact hpow
        refine .inr ⟨.inl ?_, .inr (.inr (.inl hpow))⟩
        simp only [bind, Except.bind, htest, if_true]
        rfl
      · have htest : (decide (op = .pow) && isBareUnary ⟨left.node, false⟩) = false := by
          rw [← Bool.not_eq_true, Bool.and_eq_true, decide_eq_true_iff, isBareUnary_node]
          exact hpow
        simp only [bind, Except.bind, htest, Bool.false_eq_true, if_false]
        rcases ihright with ⟨hright, hkept'⟩ | ⟨hright, hrefused⟩
        · rw [hright]
          rcases combine_node op left right with ⟨hok, hnone⟩ | ⟨herror, hclash⟩
          · grind
          · exact .inr ⟨.inr herror, .inr (.inr (.inr hclash))⟩
        · refine .inr ⟨?_, .inr (.inl hrefused)⟩
          rcases hright with hright | hright
          · exact .inl (by rw [hright])
          · exact .inr (by rw [hright])
    · refine .inr ⟨?_, .inl hrefused⟩
      rcases hleft with hleft | hleft
      · exact .inl (by rw [hleft]; rfl)
      · exact .inr (by rw [hleft]; rfl)

end Grouping

/-! ### Tokens of a row -/

/-- A token of a row: a name, or an operator with its spelling. -/
inductive Sign where
  | name (name : Text)
  | mark (spelling : Text)
  deriving DecidableEq

def Token.sign? (t : Token) : Option Sign :=
  match t.kind with
  | .name => some (.name t.text)
  | .symbol s => some (.mark s.spelling)
  | .keyword k => some (.mark k.spelling)
  | _ => none

def Term.signs (x : Term) : List Sign :=
  x.ops.map (fun op => .mark op.spelling) ++ [.name x.name]

/-- The signs of operands with operators between them. -/
def rowSigns (first : Term) (row : List (BinaryOp × Term)) : List Sign :=
  first.signs ++ row.flatMap fun item => .mark item.1.spelling :: item.2.signs

theorem Grouping.rowSigns_join (left right : Grouping) :
    rowSigns (join op left right).first (join op left right).rest =
      rowSigns left.first left.rest ++ .mark op.spelling :: rowSigns right.first right.rest := by
  simp [rowSigns, first, rest]

namespace Parser

variable {token : Token} {stop least : Nat} {ts : List Token} {x : Operand}
  {r : Except SyntaxFault Node}

/-- The operators that a symbol or a keyword can be are those with its spelling. -/
theorem symbol_operator? {s : Symbol} :
    (∀ op ∈ BinaryOp.all, s.spelling = op.spelling → s.binary? = some op) ∧
      ∀ op ∈ UnaryOp.all, s.spelling = op.spelling → s.unary? = some op := by
  have hall : ∀ s ∈ Symbol.marks ++ Symbol.operators ++ Symbol.brackets,
      (∀ op ∈ BinaryOp.all, s.spelling = op.spelling → s.binary? = some op) ∧
        ∀ op ∈ UnaryOp.all, s.spelling = op.spelling → s.unary? = some op := by
    decide +kernel
  exact hall s (by cases s <;> decide)

theorem keyword_operator? {k : Keyword} :
    (∀ op ∈ BinaryOp.all, k.spelling = op.spelling → k.binary? = some op) ∧
      ∀ op ∈ UnaryOp.all, k.spelling = op.spelling → k.unary? = some op := by
  have hall : ∀ k ∈ Keyword.all,
      (∀ op ∈ BinaryOp.all, k.spelling = op.spelling → k.binary? = some op) ∧
        ∀ op ∈ UnaryOp.all, k.spelling = op.spelling → k.unary? = some op := by
    decide +kernel
  exact hall k (by cases k <;> decide)

theorem binaryOperator?_of_sign (hop : op ∈ BinaryOp.all)
    (h : token.sign? = some (.mark op.spelling)) :
    binaryOperator? token = some (op, op.strength) := by
  have hstrength : op.strength? = some op.strength := by
    have hall : ∀ op ∈ BinaryOp.all, op.strength? = some op.strength := by decide
    exact hall op hop
  unfold Token.sign? at h
  unfold binaryOperator?
  cases hkind : token.kind with
  | symbol s => simp_all [symbol_operator?.1 op hop]
  | keyword k => simp_all [keyword_operator?.1 op hop]
  | _ => simp [hkind] at h

theorem unaryOperator?_of_sign {op : UnaryOp} (hop : op ∈ UnaryOp.all)
    (h : token.sign? = some (.mark op.spelling)) : unaryOperator? token = some op := by
  unfold Token.sign? at h
  unfold unaryOperator?
  cases hkind : token.kind with
  | symbol s => simp_all [symbol_operator?.2 op hop]
  | keyword k => simp_all [keyword_operator?.2 op hop]
  | _ => simp [hkind] at h

/-- An operand is a phrase. -/
theorem phrase_term {ops : List UnaryOp} (hops : ∀ op ∈ ops, op ∈ UnaryOp.all) {name : Text}
    (h : ts.map Token.sign? = (Term.signs ⟨ops, name⟩).map some) :
    ∃ k, 15 ≤ k ∧ Phrase k ⟨Term.node ⟨ops, name⟩, false⟩ ts := by
  induction ops generalizing ts with
  | nil =>
    obtain ⟨t, ts, rfl, ht, hts⟩ := map_eq_cons_iff.mp h
    obtain rfl := map_eq_nil_iff.mp hts
    obtain ⟨kind, text, offset, newline⟩ := t
    cases kind <;> cases ht
    exact ⟨20, by omega, phrase_name (t := ⟨.name, name, offset, newline⟩) rfl⟩
  | cons op ops ih =>
    obtain ⟨hop, hops⟩ := forall_mem_cons.mp hops
    obtain ⟨t, ts, rfl, ht, hts⟩ := map_eq_cons_iff.mp h
    obtain ⟨k, hk, hphrase⟩ := ih hops hts
    exact ⟨15, Nat.le_refl 15, phrase_unary hphrase hk (unaryOperator?_of_sign hop ht)⟩

/-- The first token is a name or an operator before an operand. -/
def Starts (ts : List Token) : Prop :=
  ∃ t more, ts = t :: more ∧ (t.kind = .name ∨ ∃ op, unaryOperator? t = some op)

theorem Starts.append (h : Starts ts) {us : List Token} : Starts (ts ++ us) := by
  obtain ⟨t, more, rfl, ht⟩ := h
  exact ⟨t, more ++ us, rfl, ht⟩

theorem starts_term {x : Term} (hops : ∀ op ∈ x.ops, op ∈ UnaryOp.all)
    (h : ts.map Token.sign? = x.signs.map some) : Starts ts := by
  obtain ⟨ops, name⟩ := x
  cases ops with
  | nil =>
    obtain ⟨t, ts, rfl, ht, -⟩ := map_eq_cons_iff.mp h
    obtain ⟨kind, text, offset, newline⟩ := t
    cases kind <;> cases ht
    exact ⟨_, _, rfl, .inl rfl⟩
  | cons op ops =>
    obtain ⟨t, ts, rfl, ht, -⟩ := map_eq_cons_iff.mp h
    exact ⟨t, ts, rfl, .inr ⟨op, unaryOperator?_of_sign (hops op mem_cons_self) ht⟩⟩

/-! ### Climbing over a tree -/

/-- What reading gives and leaves. -/
def outcome {α : Type} {n : Nat} (r : Except SyntaxFault (Parsed α n)) :
    Except SyntaxFault (α × List Token) :=
  r.map fun parsed => (parsed.value, parsed.rest)

theorem outcome_of_reads {α : Type} {n : Nat} {r : Except SyntaxFault (Parsed α n)} {value : α}
    {rest : List Token} (h : Reads r value rest) : outcome r = .ok (value, rest) := by
  obtain ⟨_, rfl⟩ := h
  rfl

theorem outcome_binary : outcome (binary stop least ts) =
    outcome (unary stop ts) >>= fun read => outcome (binaryTail stop least read.1 read.2) := by
  rw [binary]
  cases unary stop ts with
  | error fault => rfl
  | ok read =>
    simp only [outcome, bind, Except.bind, Except.map]
    cases binaryTail stop least read.value read.rest <;> rfl

/-- One round of climbing. -/
theorem outcome_binaryTail (hop : binaryOperator? token = some (op, op.strength))
    (hleast : least ≤ op.strength) (more : List Token) :
    outcome (binaryTail stop least x (token :: more)) =
      if op = .pow && isBareUnary x then .error .unaryBeforePower
      else outcome (binary stop (if op = .pow then op.strength else op.strength + 1) more) >>=
        fun read => combine op x read.1 >>= fun node =>
          outcome (binaryTail stop least ⟨node, false⟩ read.2) := by
  rw [binaryTail, hop]
  dsimp only
  rw [if_neg (Nat.not_lt.mpr hleast)]
  split
  · rfl
  · generalize hnext : (if op = .pow then op.strength else op.strength + 1) = next
    cases binary stop next more with
    | error fault => rfl
    | ok read =>
      simp only [outcome, bind, Except.bind, Except.map]
      cases combine op x read.value with
      | error fault => rfl
      | ok node =>
        dsimp only
        cases binaryTail stop least ⟨node, false⟩ read.rest <;> rfl

/-- Behind a tree stands nothing, or an operator that its root does not take. -/
def Follows (t : Grouping) (rest : List Token) : Prop :=
  ∀ token ∈ rest.head?, ∃ op, binaryOperator? token = some (op, op.strength) ∧
    ∀ o ∈ t.root?, ¬ o.TakesRight op

/-- What follows a tree follows its right operand too. -/
theorem Follows.right {left right : Grouping} {rest : List Token}
    (h : Follows (.join op left right) rest) (hright : ∀ o ∈ right.root?, op.TakesRight o) :
    Follows right rest := by
  intro token htoken
  obtain ⟨p, hp, hnot⟩ := h token htoken
  refine ⟨p, hp, fun o ho htakes => hnot op rfl ?_⟩
  have := hright o ho
  have := @BinaryOp.strength_eq_iff op
  grind [BinaryOp.TakesRight]

/-- An operator follows its left operand. -/
theorem Follows.left {left : Grouping} {rest : List Token}
    (hop : binaryOperator? token = some (op, op.strength))
    (hleft : ∀ o ∈ left.root?, op.TakesLeft o) : Follows left (token :: rest) := by
  rintro _ ⟨⟩
  exact ⟨op, hop, fun o ho htakes => htakes.not_takesLeft (hleft o ho)⟩

/-- A right operand ends where the tree ends. -/
theorem Follows.ends {left right : Grouping} {rest : List Token}
    (h : Follows (.join op left right) rest) :
    outcome (binaryTail stop (if op = .pow then op.strength else op.strength + 1) x rest) =
      .ok (x, rest) := by
  refine outcome_of_reads (binaryTail_ends fun token htoken p strength hp => ?_)
  obtain ⟨p', hp', hnot⟩ := h token htoken
  cases hp'.symm.trans hp
  have := hnot op rfl
  grind [BinaryOp.TakesRight]

/-- All operators of a row belong to the language. -/
structure InLanguage (first : Term) (row : List (BinaryOp × Term)) : Prop where
  first : ∀ op ∈ first.ops, op ∈ UnaryOp.all
  row : ∀ item ∈ row, item.1 ∈ BinaryOp.all ∧ ∀ op ∈ item.2.ops, op ∈ UnaryOp.all

/-- **Climbing over the tokens of a tree comes to what the tree comes to.**  The induction is on the
tree; the tokens behind it are general, since they are those behind an operand inside. -/
theorem outcome_binary_grouping (t : Grouping) (ht : t.Grouped) (hops : InLanguage t.first t.rest)
    {ts rest : List Token} (hts : ts.map Token.sign? = (rowSigns t.first t.rest).map some)
    (hleast : ∀ o ∈ t.root?, least ≤ o.strength) (hrest : Follows t rest) :
    Quiet ts ∧ Starts ts ∧ outcome (binary stop least (ts ++ rest)) =
      t.result >>= fun e => outcome (binaryTail stop least ⟨e, false⟩ rest) := by
  induction t generalizing ts rest least with
  | operand x =>
    rw [rowSigns, Grouping.rest, flatMap_nil, append_nil] at hts
    obtain ⟨k, hk, hphrase⟩ := phrase_term hops.first hts
    refine ⟨hphrase.quiet (by omega), starts_term hops.first hts, ?_⟩
    have hends : Ends 16 rest := by
      intro token htoken
      obtain ⟨p, hp, _⟩ := hrest token htoken
      exact (Ends.of_binary hp (.inl (by omega)) : Ends 16 [token]) token rfl
    rw [outcome_binary, outcome_of_reads (hphrase.unary hk hends)]
    rfl
  | join op left right ihleft ihright =>
    obtain ⟨hleft, hright, htakes, htakes'⟩ := ht
    rw [Grouping.rowSigns_join, map_append, map_cons] at hts
    obtain ⟨as, bs, rfl, has, hbs⟩ := map_eq_append_iff.mp hts
    obtain ⟨token, bs, rfl, htoken, hbs⟩ := map_eq_cons_iff.mp hbs
    obtain ⟨hleftOps, hitems⟩ := forall_mem_append.mp hops.row
    obtain ⟨⟨hall, hfirst⟩, hrightOps⟩ := forall_mem_cons.mp hitems
    have hop := binaryOperator?_of_sign hall htoken
    have hle : least ≤ op.strength := hleast op rfl
    obtain ⟨-, -, houtcome'⟩ :=
      @ihright (if op = .pow then op.strength else op.strength + 1) hright ⟨hfirst, hrightOps⟩ bs rest
        hbs (fun o ho => by have := htakes' o ho; grind [BinaryOp.TakesRight]) (hrest.right htakes')
    obtain ⟨hquiet, hstarts, houtcome⟩ :=
      @ihleft least hleft ⟨hops.first, hleftOps⟩ as (token :: (bs ++ rest)) has
        (fun o ho => by have := htakes o ho; grind [BinaryOp.TakesLeft])
        (.left hop htakes)
    refine ⟨?_, hstarts.append, ?_⟩
    · exact hquiet.append (only_binaryOperator? hop).2.2.2.2.2.1
    · rw [append_assoc, cons_append, houtcome, Grouping.result, bind_assoc]
      congr 1
      funext a
      rw [outcome_binaryTail hop hle, houtcome']
      split
      · rfl
      · simp only [hrest.ends]
        cases right.result <;> rfl

/-! ### Reading a row -/

/-- Where a row ends the text, its expression is what climbing comes to. -/
theorem outcome_expression (hquiet : Quiet ts)
    (h : outcome (binary stop 1 ts) = r.map fun e => (⟨e, false⟩, [])) :
    outcome (expression stop ts) = r.map fun e => (e, []) := by
  have harrow : ¬ arrowAhead ts = true := by
    rw [← append_nil ts, hquiet [] nofun]
    exact Bool.false_ne_true
  rw [expression, assignment, if_neg harrow, conditional]
  cases hread : binary stop 1 ts with
  | error fault =>
    rw [hread] at h
    cases r <;> cases h
    rfl
  | ok read =>
    obtain ⟨x, rest, shorter⟩ := read
    rw [hread] at h
    cases r <;> cases h
    simp [bind, Except.bind, pass?, passAssign?, sequenceTail, pure, Except.pure, outcome, Except.map]

/-- A row that ends the text is its only statement. -/
theorem statements_row (hstarts : Starts ts)
    (h : outcome (expression stop ts) = r.map fun e => (e, [])) :
    statements stop ts = r.map fun e => [.expressionStatement e] := by
  obtain ⟨⟨kind, text, offset, newline⟩, more, rfl, hstart⟩ := hstarts
  rw [statements]
  · split
    · next htrue =>
      cases kind with
      | keyword k =>
        rcases hstart with hname | ⟨op, hop⟩
        · cases hname
        · cases k <;> simp_all [unaryOperator?, Keyword.unary?, Keyword.opensStatement]
      | _ => cases htrue
    · cases hread : expression stop (⟨kind, text, offset, newline⟩ :: more) with
      | error fault =>
        rw [hread] at h
        cases r <;> cases h
        rfl
      | ok read =>
        obtain ⟨e, rest, shorter⟩ := read
        rw [hread] at h
        cases r <;> cases h
        simp [bind, Except.bind, pass?, startsLine, statements, pure, Except.pure, Except.map]
  · rintro _ _ _ ⟨⟩
    rcases hstart with ⟨⟨⟩⟩ | ⟨_, ⟨⟩⟩
  · rintro _ _ _ ⟨⟩
    rcases hstart with ⟨⟨⟩⟩ | ⟨_, ⟨⟩⟩

end Parser

/-- **Operators group by strength.**  A text may spell, with any spaces and comments, a row of names
with operators before and between them.  There is one tree with this row in which every operator
stands as its strength prescribes.  The text is refused as not well-formed just if in this tree a power
has a unary expression as its left operand, or `??` meets one of the other logical operators;
otherwise it is read as the tree. -/
theorem parse_row (first : Term) (row : List (BinaryOp × Term)) (hops : Parser.InLanguage first row)
    {source : Text} {stream : TokenStream} (hstream : TokenStream.ofText source = .ok stream)
    (hsigns : stream.tokens.map Token.sign? = (rowSigns first row).map some) :
    ∃ t : Grouping, (t.Grouped ∧ t.first = first ∧ t.rest = row) ∧
      (∀ u : Grouping, u.Grouped ∧ u.first = first ∧ u.rest = row → u = t) ∧
      (parse source = .error .unaryBeforePower ∨ parse source = .error .mixedCoalesce ↔ t.Refused) ∧
      (¬ t.Refused → parse source = .ok [.expressionStatement t.node]) := by
  obtain ⟨hgrouped, hfirst, hrest⟩ :=
    Grouping.Grouped.extendAll (t := .operand first) trivial row
  generalize (Grouping.operand first).extendAll row = t at hgrouped hfirst hrest
  have hrow : t.rest = row := hrest
  have hleast : ∀ o ∈ t.root?, 1 ≤ o.strength := by
    intro o ho
    cases t with
    | operand x => cases ho
    | join op left right =>
      cases ho
      have hall : ∀ op ∈ BinaryOp.all, 1 ≤ op.strength := by decide
      refine hall o (hops.row (o, right.first) ?_).1
      rw [← hrow, Grouping.rest]
      exact mem_append_right _ mem_cons_self
  obtain ⟨hquiet, hstarts, houtcome⟩ := @Parser.outcome_binary_grouping stream.stop 1 t hgrouped
    (by rw [hfirst, hrow]; exact hops) stream.tokens [] (by rw [hfirst, hrow]; exact hsigns)
    hleast nofun
  have hparse : parse source = t.result.map fun e => [.expressionStatement e] := by
    rw [parse, hstream]
    refine Parser.statements_row hstarts (Parser.outcome_expression hquiet ?_)
    rw [append_nil] at houtcome
    rw [houtcome]
    cases t.result with
    | error fault => rfl
    | ok e => exact Parser.outcome_of_reads (Parser.binaryTail_ends nofun)
  refine ⟨t, ⟨hgrouped, hfirst, hrow⟩, fun u hu => ?_, ?_⟩
  · exact hu.1.unique hgrouped (hu.2.1.trans hfirst.symm) (hu.2.2.trans hrow.symm)
  · rw [hparse]
    rcases t.result_cases with ⟨hok, hkept⟩ | ⟨herror, hrefused⟩
    · rw [hok]
      exact ⟨⟨(nomatch ·), fun h => absurd h hkept⟩, fun _ => rfl⟩
    · refine ⟨⟨fun _ => hrefused, fun _ => ?_⟩, fun h => absurd hrefused h⟩
      exact herror.imp (fun h => by rw [h]; rfl) (fun h => by rw [h]; rfl)

/-- The tree of `a - b - c ** d ** !e ?? f`. -/
def sampleTree : Grouping :=
  .join .coalesce
    (.join .sub (.join .sub (.operand ⟨[], "a"⟩) (.operand ⟨[], "b"⟩))
      (.join .pow (.operand ⟨[], "c"⟩) (.join .pow (.operand ⟨[], "d"⟩) (.operand ⟨[.not], "e"⟩))))
    (.operand ⟨[], "f"⟩)

theorem parse_row_sample :
    parse "a - b - c ** d ** !e ?? f" = .ok [.expressionStatement sampleTree.node] := by
  have hgrouped : sampleTree.Grouped := by
    simp [sampleTree, Grouping.Grouped, Grouping.root?, BinaryOp.TakesLeft, BinaryOp.TakesRight,
      BinaryOp.strength, BinaryOp.strength?]
  have hkept : ¬ sampleTree.Refused := by
    simp [sampleTree, Grouping.Refused, Grouping.root?, Grouping.IsUnary, BinaryOp.Clashes]
  have hstream : ∃ stream, TokenStream.ofText "a - b - c ** d ** !e ?? f" = .ok stream ∧
      stream.tokens.map Token.sign? = (rowSigns sampleTree.first sampleTree.rest).map some :=
    ⟨_, by cbv, by decide +kernel⟩
  obtain ⟨stream, hstream, hsigns⟩ := hstream
  obtain ⟨t, -, hunique, -, hparse⟩ :=
    parse_row sampleTree.first sampleTree.rest ⟨by decide, by decide⟩ hstream hsigns
  rw [← hunique sampleTree ⟨hgrouped, rfl, rfl⟩] at hparse
  exact hparse hkept

end ViewMarkup.Script
