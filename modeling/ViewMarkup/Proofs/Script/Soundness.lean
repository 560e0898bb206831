import ViewMarkup.Proofs.Script.Phrases
import ViewMarkup.Proofs.Script.Glyphs
import ViewMarkup.Proofs.Script.Spelling

/-!
# What reading gives

Reading well-spelt tokens gives readable trees that show what the tokens show.  Each function of the
parser takes some tokens from the front and leaves the others, and it fails on a number beyond 32 bits
only if a token holds one.

* `Sound` says this of the result of a function, and `Sound.bind` runs along its steps.
* One lemma for each function of the parser, in one recursion that follows theirs.
* `readable_of_parse`: the statements of a text are readable.
* `sound_parse`: they show what the tokens of the text show.
-/

namespace ViewMarkup.Script

open List

variable {rest : List Token} {ts : List Token} {used : List Token} {source : Text}

/-- Decoding the token fails on the number of a code point that does not fit 32 bits. -/
def Token.Overflows (t : Token) : Prop :=
  (t.kind = .string ∨ t.kind = .chunk) ∧ decodeEscapes t.content = .error .outOfRange

/-- Well-spelt tokens that remain of given ones. -/
structure Remain (all ts : List Token) : Prop where
  suffix : ts <:+ all
  spelt : WellSpelt ts

theorem WellSpelt.of_append (h : WellSpelt (used ++ rest)) : WellSpelt rest := by
  induction used with
  | nil => exact h
  | cons t used ih => exact ih h.2.2

theorem Remain.of_append {all : List Token} (h : Remain all (used ++ rest)) :
    Remain all rest :=
  ⟨(suffix_append used rest).trans h.suffix, h.spelt.of_append⟩

theorem glyphs_append (ts us : List Token) : glyphs (ts ++ us) = glyphs ts ++ glyphs us :=
  filterMap_append

theorem glyphs_cons (t : Token) : glyphs (t :: ts) = t.glyph?.toList ++ glyphs ts := by
  cases h : t.glyph? <;> simp [glyphs, h]

namespace Parser

variable {fault : EscapeFault} {text : Text} {offset : Nat} {newline : Bool} {ts : List Token}
  {shorter : rest.length < ts.length} {t : Token} {op : BinaryOp} {shown : List Glyph} {stop : Nat}

/-- A result that was read from remaining tokens, where `shown` is what was shown before them.  It has a
property, and it shows what was shown before together with what the tokens taken show. -/
def Sound {α : Type} {n : Nat} (all : List Token) (shown : List Glyph) (ts : List Token) (P : α → Prop)
    (shows : α → List Glyph) (r : Except SyntaxFault (Parsed α n)) : Prop :=
  Remain all ts →
    match r with
    | .ok p => P p.value ∧ ∃ used, ts = used ++ p.rest ∧ shown ++ glyphs used = shows p.value
    | .error fault => fault = .escape .outOfRange → ∃ t ∈ all, t.Overflows

section
variable {α β : Type} {n m : Nat} {all : List Token} {shown : List Glyph} {ts : List Token}
  {P : α → Prop} {Q : β → Prop} {shows : α → List Glyph} {displays : β → List Glyph}
  {r : Except SyntaxFault (Parsed α n)}

theorem Sound.ok {value : α} {shorter : ts.length < n} (hvalue : P value)
    (hshown : shown = shows value) : Sound all shown ts P shows (.ok ⟨value, ts, shorter⟩) :=
  fun _ => ⟨hvalue, [], rfl, by simp [glyphs, hshown]⟩

theorem Sound.mono {P' : α → Prop} (h : Sound all shown ts P shows r)
    (hP : ∀ value, P value → P' value) : Sound all shown ts P' shows r := by
  intro hts
  cases r with
  | error fault => exact h hts
  | ok p => exact (h hts).imp_left (hP p.value)

theorem Sound.error {fault : SyntaxFault} (h : fault ≠ .escape .outOfRange) :
    Sound (n := n) all shown ts P shows (.error fault) :=
  fun _ heq => absurd heq h

theorem unexpected_ne {us : List Token} {hint : Option Hint} :
    unexpected stop us hint ≠ .escape fault := by
  cases us <;> nofun

theorem Sound.unexpected {us : List Token} {hint : Option Hint} :
    Sound (n := n) all shown ts P shows (.error (unexpected stop us hint)) :=
  .error unexpected_ne

/-- The first token is taken. -/
theorem Sound.cons (h : Spelt t.kind t.text → t ∈ all → (t.kind = .chunk → EndsPiece ts) →
      Sound all (shown ++ t.glyph?.toList) ts P shows r) :
    Sound all shown (t :: ts) P shows r := by
  intro hts
  have hr := h hts.spelt.1 (hts.suffix.subset (by simp)) hts.spelt.2.1
    ⟨(suffix_cons t ts).trans hts.suffix, hts.spelt.2.2⟩
  cases r with
  | error fault => exact hr
  | ok p =>
    obtain ⟨hvalue, used, hused, hshows⟩ := hr
    exact ⟨hvalue, t :: used, by rw [hused, cons_append],
      by rw [glyphs_cons, ← append_assoc, hshows]⟩

section

variable {before : List Glyph} (h : Sound all before ts P shows r)
include h

/-- More is read after tokens that go on with what was shown. -/
theorem Sound.extend {f : Parsed α n → Except SyntaxFault (Parsed β m)} (hshown : shown = before)
    (hf : ∀ value rest shorter, P value →
      Sound all (shows value) rest Q displays (f ⟨value, rest, shorter⟩)) :
    Sound all shown ts Q displays (r >>= f) := by
  subst hshown
  intro hts
  cases r with
  | error fault => exact h hts
  | ok p =>
    obtain ⟨value, rest, shorter⟩ := p
    obtain ⟨hvalue, used, rfl, hshows⟩ := h hts
    have hr := hf value rest shorter hvalue hts.of_append
    change match f ⟨value, rest, shorter⟩ with | .ok p => _ | .error fault => _
    cases hread : f ⟨value, rest, shorter⟩ with
    | error fault =>
      rw [hread] at hr
      exact hr
    | ok p =>
      rw [hread] at hr
      obtain ⟨hvalue', used', hused', hdisplays⟩ := hr
      refine ⟨hvalue', used ++ used', ?_, ?_⟩
      · exact (congrArg (used ++ ·) hused').trans (append_assoc ..).symm
      · rw [glyphs_append, ← append_assoc, hshows, hdisplays]

/-- What was shown before can be left out while a phrase of its own is read. -/
theorem Sound.after : Sound all (shown ++ before) ts P (shown ++ shows ·) r := by
  intro hts
  have hr := h hts
  cases r with
  | error fault => exact hr
  | ok p =>
    obtain ⟨hvalue, used, hused, hshows⟩ := hr
    exact ⟨hvalue, used, hused, by rw [append_assoc, hshows]⟩

end

theorem Sound.bind {f : Parsed α n → Except SyntaxFault (Parsed β m)}
    (h : Sound all [] ts P shows r)
    (hf : ∀ value rest shorter, P value →
      Sound all (shown ++ shows value) rest Q displays (f ⟨value, rest, shorter⟩)) :
    Sound all shown ts Q displays (r >>= f) :=
  h.after.extend (append_nil shown).symm hf

/-- A step that reads no tokens. -/
theorem Sound.bindValue {γ : Type} {r : Except SyntaxFault γ}
    {f : γ → Except SyntaxFault (Parsed β m)}
    (hfault : r = .error (.escape .outOfRange) → ∃ t ∈ all, t.Overflows)
    (hf : ∀ value, r = .ok value → Sound all shown ts Q displays (f value)) :
    Sound all shown ts Q displays (r >>= f) := by
  cases r with
  | error fault => exact fun _ heq => hfault (congrArg Except.error heq)
  | ok value => exact hf value rfl

theorem Sound.symbol {s : Symbol} (h : Sound all (shown ++ Glyph.mark s) ts P shows r) :
    Sound all shown (⟨.symbol s, text, offset, newline⟩ :: ts) P shows r := by
  refine .cons fun hspelt _ _ => ?_
  obtain rfl : text = s.spelling := hspelt
  have hglyph : (Token.glyph? ⟨.symbol s, s.spelling, offset, newline⟩).toList = Glyph.mark s := by
    cases s <;> rfl
  rwa [hglyph]

/-- A token whose kind fixes its spelling is taken. -/
theorem Sound.fixed {kind : TokenKind} {spelling : Text} (hkind : Spelt kind = (· = spelling))
    (hglyph : Token.glyph? ⟨kind, spelling, offset, newline⟩ = some (.spelt spelling))
    (h : Sound all (shown ++ [.spelt spelling]) ts P shows r) :
    Sound all shown (⟨kind, text, offset, newline⟩ :: ts) P shows r := by
  refine .cons fun hspelt _ _ => ?_
  obtain rfl : text = spelling := by rwa [hkind] at hspelt
  rwa [hglyph]

end

/-! ### Single tokens -/

variable {all : List Token}

theorem pass?_eq_some {kind : TokenKind} {value : Unit}
    (h : pass? kind ts = some ⟨value, rest, shorter⟩) :
    ∃ text offset newline, ts = ⟨kind, text, offset, newline⟩ :: rest := by
  unfold pass? at h
  split at h
  · cases h
  · next t more =>
    split at h
    · next hkind =>
      cases h
      exact ⟨t.text, t.offset, t.newlineBefore, by rw [← hkind]⟩
    · cases h

theorem sound_expect {s : Symbol} :
    Sound all [] ts (fun _ => True) (fun _ => Glyph.mark s) (expect stop s ts) := by
  unfold expect
  split
  · next passed hpass =>
    obtain ⟨value, rest, shorter⟩ := passed
    obtain ⟨text, offset, newline, rfl⟩ := pass?_eq_some hpass
    exact .symbol (.ok trivial (nil_append _))
  · exact .unexpected

theorem isWord_of_keyword {k : Keyword} (h : Spelt (.keyword k) text) : IsWord text := by
  cases h
  cases k <;> decide

theorem isWord_of_constant {c : Constant} (h : Spelt (.constant c) text) : IsWord text := by
  cases h
  cases c <;> decide

theorem sound_propertyName :
    Sound all [] ts (fun e => ∃ name, e = .identifier name ∧ IsWord name) Node.glyphs
      (propertyName stop ts) := by
  unfold propertyName
  split
  · exact .cons fun hspelt _ _ => .ok ⟨_, rfl, hspelt.word⟩ rfl
  · exact .cons fun hspelt _ _ => .ok ⟨_, rfl, isWord_of_keyword hspelt⟩ rfl
  · exact .cons fun hspelt _ _ => .ok ⟨_, rfl, isWord_of_constant hspelt⟩ rfl
  · exact .unexpected

/-! ### Operators -/

section

variable (hspelt : Spelt t.kind t.text)
include hspelt

theorem binaryOperator?_eq_some {strength : Nat} (h : binaryOperator? t = some (op, strength)) :
    op ∈ BinaryOp.all ∧ t.glyph? = some (.spelt op.spelling) := by
  obtain ⟨kind, text, offset, newline⟩ := t
  obtain ⟨op', hop, hstrength⟩ := Option.bind_eq_some_iff.mp h
  obtain ⟨strength', -, heq⟩ := Option.map_eq_some_iff.mp hstrength
  cases heq
  cases kind with
  | symbol s => cases hspelt; cases s <;> cases hop <;> exact ⟨by decide, rfl⟩
  | keyword k => cases hspelt; cases k <;> cases hop <;> exact ⟨by decide, rfl⟩
  | _ => cases hop

theorem unaryOperator?_eq_some {op : UnaryOp}
    (h : unaryOperator? t = some op) : op ∈ UnaryOp.all ∧ t.glyph? = some (.spelt op.spelling) := by
  obtain ⟨kind, text, offset, newline⟩ := t
  cases kind with
  | symbol s => cases hspelt; cases s <;> cases h <;> exact ⟨by decide, rfl⟩
  | keyword k => cases hspelt; cases k <;> cases h <;> exact ⟨by decide, rfl⟩
  | _ => cases h

theorem updateOperator?_eq_some {op : UpdateOp} (h : updateOperator? t = some op) :
    op ∈ UpdateOp.all ∧ t.glyph? = some (.spelt op.spelling) := by
  obtain ⟨kind, text, offset, newline⟩ := t
  cases kind with
  | symbol s => cases hspelt; cases s <;> cases h <;> exact ⟨by decide, rfl⟩
  | _ => cases h

end

theorem assign?_eq_some {s : Symbol} {op : AssignOp} (h : s.assign? = some op) :
    op ∈ AssignOp.all ∧ Glyph.mark s = [.spelt op.spelling] := by
  cases s <;> cases h <;> exact ⟨by decide, rfl⟩

theorem passAssign?_eq_some {op : AssignOp} (h : passAssign? ts = some ⟨op, rest, shorter⟩) :
    ∃ s text offset newline, ts = ⟨.symbol s, text, offset, newline⟩ :: rest ∧
      s.assign? = some op := by
  unfold passAssign? at h
  split at h
  · obtain ⟨op, hop, heq⟩ := Option.map_eq_some_iff.mp h
    cases heq
    exact ⟨_, _, _, _, rfl, hop⟩
  · cases h

theorem passUpdate?_eq_some {op : UpdateOp} (h : passUpdate? ts = some ⟨op, rest, shorter⟩) :
    ∃ t, ts = t :: rest ∧ updateOperator? t = some op := by
  unfold passUpdate? at h
  split at h
  · cases h
  · split at h
    · cases h
    · obtain ⟨op, hop, heq⟩ := Option.map_eq_some_iff.mp h
      cases heq
      exact ⟨_, rfl, hop⟩

/-! ### Operands, keys and literals -/

/-- An operand that holds a readable expression. -/
def IsOperand (x : Operand) : Prop :=
  Readable true .expression x.node

theorem combine_eq_ok {left right : Operand} {e : Node} (hop : op ∈ BinaryOp.all)
    (hleft : IsOperand left) (hright : IsOperand right) (h : combine op left right = .ok e) :
    Readable true .expression e ∧
      e.glyphs = left.node.glyphs ++ .spelt op.spelling :: right.node.glyphs := by
  unfold combine at h
  split at h
  · next hkind =>
    split at h
    · cases h
    · cases h
      exact ⟨.logical hop hkind hleft hright, by simp⟩
  · next hkind =>
    cases h
    exact ⟨.binary hop (by simpa using hkind) hleft hright, by simp⟩

theorem combine_ne_error {left right : Operand} :
    combine op left right ≠ .error (.escape fault) := by
  unfold combine
  split
  · split <;> nofun
  · nofun

/-- The key of a property, as it is read. -/
structure IsKey (key : Key) : Prop where
  computed : key.computed = true → Readable true .expression key.node
  plain : key.computed = false → IsPlainKey key.node
  shorthand : ∀ name ∈ key.shorthand, key = ⟨.identifier name, false, some name⟩ ∧ IsName name

def Key.glyphs (key : Key) : List Glyph :=
  Glyph.key key.computed key.node.glyphs

theorem IsKey.property {key : Key} {value : Node} (h : IsKey key)
    (hvalue : Readable true .expression value) :
    Readable true .property (.property key.node value key.computed false) := by
  cases hcomputed : key.computed with
  | true => exact .computed (h.computed hcomputed) hvalue
  | false => exact .named (h.plain hcomputed) hvalue

theorem IsKey.of_plain {node : Node} (h : IsPlainKey node) : IsKey ⟨node, false, none⟩ where
  computed := nofun
  plain _ := h
  shorthand := nofun

theorem misplacedAfterKey_ne : misplacedAfterKey stop ts ≠ .escape fault := by
  unfold misplacedAfterKey
  split
  · nofun
  · nofun
  · nofun
  · exact unexpected_ne

/-- A string token holds a value that it shows, or it cannot be decoded. -/
theorem Sound.string {β : Type} {m : Nat} {Q : β → Prop} {displays : β → List Glyph}
    {f : Node → Except SyntaxFault (Parsed β m)}
    (hf : ∀ value, Sound all (shown ++ [.string (.ok value)]) ts Q displays (f (.string value))) :
    Sound all shown (⟨.string, text, offset, newline⟩ :: ts) Q displays (stringValue text >>= f) := by
  refine .cons fun _ hmem _ => ?_
  have hglyph : (Token.glyph? ⟨.string, text, offset, newline⟩).toList =
    [.string (decodeEscapes (text.drop 1).dropLast)] := rfl
  rw [hglyph, stringValue]
  cases hdecode : decodeEscapes (text.drop 1).dropLast with
  | ok value => exact hf value
  | error fault =>
    rintro - heq
    cases heq
    exact ⟨_, hmem, .inl rfl, hdecode⟩

theorem isChunk_nil : IsChunk [] :=
  fun _ hrest => Lexeme.chunk_eq_zero_of_ends hrest

theorem Sound.piece {β : Type} {m : Nat} {raw : Text} {tail : Bool} {Q : β → Prop}
    {displays : β → List Glyph} {f : Node → Except SyntaxFault (Parsed β m)}
    (hraw : decodeEscapes raw = .error .outOfRange → ∃ t ∈ all, t.Overflows)
    (hf : ∀ cooked, decodeEscapes raw = .ok cooked →
      Sound all shown ts Q displays (f (.templateElement raw cooked tail))) :
    Sound all shown ts Q displays (templatePiece raw tail >>= f) := by
  rw [templatePiece]
  cases hdecode : decodeEscapes raw with
  | ok cooked => exact hf cooked hdecode
  | error fault =>
    rintro - heq
    cases heq
    exact hraw hdecode

/-! ### The functions of the parser -/

variable (stop)

mutual

theorem sound_expression (ts : List Token) :
    Sound all [] ts (Readable true .expression) Node.glyphs (expression stop ts) := by
  rw [expression]
  refine (sound_assignment ts).bind fun first rest hlt hfirst => ?_
  refine (sound_sequenceTail rest).bind fun others rest' hlt' hothers => ?_
  refine .ok ?_ ?_
  · cases others with
    | nil => exact hfirst
    | cons second others => exact .sequence (by simp) (forall_mem_cons.mpr ⟨hfirst, hothers⟩)
  · cases others <;> simp
termination_by 16 * ts.length + 9
decreasing_by all_goals omega

theorem sound_sequenceTail (ts : List Token) :
    Sound all [] ts (∀ e ∈ ·, Readable true .expression e) Node.glyphsAll (sequenceTail stop ts) := by
  unfold sequenceTail
  split
  · next more =>
    refine .symbol ((sound_assignment more).bind fun e rest hlt he => ?_)
    refine (sound_sequenceTail rest).bind fun es rest' hlt' hes => ?_
    exact .ok (forall_mem_cons.mpr ⟨he, hes⟩) (by simp)
  · exact .ok nofun (by simp)
termination_by 16 * ts.length
decreasing_by all_goals subst_vars; simp only [length_cons]; omega

theorem sound_assignment (ts : List Token) :
    Sound all [] ts (Readable true .expression) Node.glyphs (assignment stop ts) := by
  rw [assignment]
  split
  · exact sound_arrowFunction ts
  · refine (sound_conditional ts).bind fun left rest hlt hleft => ?_
    dsimp only
    split
    · exact .ok hleft rfl
    · next op more hlt' hpass =>
      obtain ⟨s, text, offset, newline, rfl, hop⟩ := passAssign?_eq_some hpass
      obtain ⟨hop, hmark⟩ := assign?_eq_some hop
      split
      · next htarget =>
        refine .symbol ((sound_assignment more).bind fun right rest' hlt'' hright => ?_)
        exact .ok (.assignment hop htarget hleft hright) (by rw [hmark]; simp)
      · exact .unexpected
termination_by 16 * ts.length + 8
decreasing_by all_goals omega

theorem sound_arrowFunction (ts : List Token) :
    Sound all [] ts (Readable true .expression) Node.glyphs (arrowFunction stop ts) := by
  unfold arrowFunction
  split
  · next text _ _ more =>
    refine .cons fun _ _ _ => ?_
    exact (sound_arrowBody [.identifier text] more).extend rfl fun f rest hlt hf => .ok hf rfl
  · next more =>
    refine .symbol ((sound_parameters more).bind fun params rest hlt _ => ?_)
    exact (sound_arrowBody params rest).extend rfl fun f rest' hlt' hf => .ok hf rfl
  · exact .unexpected
termination_by 16 * ts.length + 7
decreasing_by all_goals subst_vars; simp only [length_cons]; omega

theorem sound_parameters (ts : List Token) :
    Sound all [] ts (fun _ => True) Node.glyphsAll (parameters stop ts) := by
  unfold parameters
  split
  · exact .symbol (.ok trivial rfl)
  · next more =>
    refine .cons fun _ _ _ => .symbol ((sound_assignment more).bind fun value rest hlt _ => ?_)
    refine (sound_moreParameters rest).bind fun params rest' hlt' _ => ?_
    exact .ok trivial (by simp [Token.glyph?, Token.content])
  · next more _ =>
    refine .cons fun _ _ _ => (sound_moreParameters more).bind fun params rest hlt _ => ?_
    exact .ok trivial rfl
  · exact .unexpected
termination_by 16 * ts.length + 2
decreasing_by all_goals subst_vars; simp only [length_cons]; omega

theorem sound_moreParameters (ts : List Token) :
    Sound all [] ts (fun _ => True) Node.glyphsAll (moreParameters stop ts) := by
  unfold moreParameters
  split
  · exact .symbol (.ok trivial rfl)
  · next more =>
    refine .symbol ((sound_parameters more).bind fun params rest hlt _ => ?_)
    exact .ok trivial rfl
  · exact .unexpected
termination_by 16 * ts.length + 1
decreasing_by all_goals subst_vars; simp only [length_cons]; omega

theorem sound_arrowBody (params : List Node) (ts : List Token) :
    Sound all (Node.glyphsAll params) ts (Readable true .expression) Node.glyphs
      (arrowBody stop params ts) := by
  unfold arrowBody
  split
  · exact .error nofun
  · next more _ =>
    refine .symbol ((sound_assignment more).bind fun body rest hlt _ => ?_)
    exact .ok (.arrow params body rfl) (by simp)
  · exact .unexpected
termination_by 16 * ts.length
decreasing_by all_goals subst_vars; simp only [length_cons]; omega

theorem sound_conditional (ts : List Token) :
    Sound all [] ts (Readable true .expression) Node.glyphs (conditional stop ts) := by
  rw [conditional]
  refine (sound_binary 1 ts).bind fun test rest hlt htest => ?_
  dsimp only
  split
  · exact .ok htest rfl
  · next rest₁ hlt₁ hpass =>
    obtain ⟨text, offset, newline, rfl⟩ := pass?_eq_some hpass
    refine .symbol ((sound_assignment rest₁).bind fun consequent rest₂ hlt₂ hyes => ?_)
    refine sound_expect.bind fun _ rest₃ hlt₃ _ => ?_
    refine (sound_assignment rest₃).bind fun alternate rest₄ hlt₄ hno => ?_
    exact .ok (.conditional htest hyes hno) (by simp)
termination_by 16 * ts.length + 7
decreasing_by all_goals omega

theorem sound_binary (least : Nat) (ts : List Token) :
    Sound all [] ts IsOperand (·.node.glyphs) (binary stop least ts) := by
  rw [binary]
  refine (sound_unary ts).bind fun left rest hlt hleft => ?_
  exact (sound_binaryTail least left rest hleft).extend rfl fun e rest' hlt' he => .ok he rfl
termination_by 16 * ts.length + 6
decreasing_by all_goals omega

theorem sound_binaryTail (least : Nat) (left : Operand) (ts : List Token)
    (hleft : IsOperand left) :
    Sound all left.node.glyphs ts IsOperand (·.node.glyphs) (binaryTail stop least left ts) := by
  unfold binaryTail
  split
  · exact .ok hleft rfl
  · next t more =>
    split
    · exact .ok hleft rfl
    · next op strength hop =>
      split
      · exact .ok hleft rfl
      · split
        · exact .error nofun
        · refine .cons fun hspelt _ _ => ?_
          obtain ⟨hop, hglyph⟩ := binaryOperator?_eq_some hspelt hop
          refine (sound_binary _ more).bind fun right rest hlt hright => ?_
          refine .bindValue (absurd · combine_ne_error) fun node hnode => ?_
          obtain ⟨hnode, hglyphs⟩ := combine_eq_ok hop hleft hright hnode
          have htail := sound_binaryTail least ⟨node, false⟩ rest hnode
          exact htail.extend (by simp [hglyph, hglyphs]) fun e rest' hlt' he => .ok he rfl
termination_by 16 * ts.length
decreasing_by all_goals subst_vars; simp only [length_cons]; omega

theorem sound_unary (ts : List Token) :
    Sound all [] ts IsOperand (·.node.glyphs) (unary stop ts) := by
  unfold unary
  split
  · exact .unexpected
  · next t more =>
    split
    · next op hop =>
      refine .cons fun hspelt _ _ => (sound_unary more).bind
        fun argument rest hlt hargument => ?_
      obtain ⟨hop, hglyph⟩ := unaryOperator?_eq_some hspelt hop
      exact .ok (.unary hop hargument) (by simp [hglyph])
    · split
      · next op hop =>
        refine .cons fun hspelt _ _ => (sound_unary more).bind
          fun argument rest hlt hargument => ?_
        obtain ⟨hop, hglyph⟩ := updateOperator?_eq_some hspelt hop
        dsimp only
        split
        · next htarget => exact .ok (.update hop htarget hargument) (by simp [hglyph])
        · exact .error nofun
      · refine (sound_leftHandSide (t :: more)).bind fun argument rest hlt hargument => ?_
        dsimp only
        split
        · exact .ok hargument rfl
        · next op rest' hlt' hpass =>
          obtain ⟨t', rfl, hop⟩ := passUpdate?_eq_some hpass
          refine .cons fun hspelt _ _ => ?_
          obtain ⟨hop, hglyph⟩ := updateOperator?_eq_some hspelt hop
          split
          · next htarget => exact .ok (.update hop htarget hargument) (by simp [hglyph])
          · exact .error nofun
termination_by 16 * ts.length + 5
decreasing_by all_goals subst_vars; simp only [length_cons]; omega

theorem sound_leftHandSide (ts : List Token) :
    Sound all [] ts IsOperand (·.node.glyphs) (leftHandSide stop ts) := by
  rw [leftHandSide]
  refine (sound_headExpression ts).bind fun head rest hlt hhead => ?_
  exact (sound_callTail true head rest hhead).extend rfl fun e rest' hlt' he => .ok he rfl
termination_by 16 * ts.length + 4
decreasing_by all_goals omega

theorem sound_headExpression (ts : List Token) :
    Sound all [] ts IsOperand (·.node.glyphs) (headExpression stop ts) := by
  unfold headExpression
  split
  · next more =>
    refine .fixed rfl rfl ?_
    exact (sound_newExpression more).extend rfl fun e rest hlt he => .ok he rfl
  · exact sound_primary _
termination_by 16 * ts.length + 3
decreasing_by all_goals (try subst_vars); (try simp only [length_cons]); omega

theorem sound_newExpression (ts : List Token) :
    Sound all [.spelt Keyword.new.spelling] ts (Readable true .expression) Node.glyphs
      (newExpression stop ts) := by
  unfold newExpression
  split
  · exact .unexpected
  · refine (sound_headExpression _).bind fun head rest hlt hhead => ?_
    refine (sound_callTail false head rest hhead).after.extend rfl
      fun callee rest' hlt' hcallee => ?_
    dsimp only
    split
    · exact .ok (.new hcallee nofun) (by simp)
    · next more hlt'' hpass =>
      obtain ⟨text, offset, newline, rfl⟩ := pass?_eq_some hpass
      refine .symbol ((sound_arguments more).bind fun args rest'' hlt₃ hargs => ?_)
      exact .ok (.new hcallee hargs) (by simp)
termination_by 16 * ts.length + 4
decreasing_by all_goals omega

theorem sound_callTail (allowCalls : Bool) (e : Operand) (ts : List Token)
    (he : IsOperand e) :
    Sound all e.node.glyphs ts IsOperand (·.node.glyphs) (callTail stop allowCalls e ts) := by
  unfold callTail
  split
  · next more =>
    refine .symbol (sound_propertyName.bind fun name rest hlt hname => ?_)
    obtain ⟨text, rfl, hword⟩ := hname
    have htail := sound_callTail allowCalls
      ⟨.member e.node (.identifier text) false false, false⟩ rest (.part he hword)
    exact htail.extend (by simp) fun e' rest' hlt' he' => .ok he' rfl
  · next more =>
    refine .symbol ((sound_expression more).bind fun key rest₁ hlt₁ hkey => ?_)
    refine sound_expect.bind fun _ rest₂ hlt₂ _ => ?_
    have htail := sound_callTail allowCalls ⟨.member e.node key true false, false⟩ rest₂
      (.index he hkey)
    exact htail.extend (by simp) fun e' rest' hlt' he' => .ok he' rfl
  · next more =>
    split
    · refine .symbol ((sound_optionalLink e more he).extend rfl fun linked rest hlt hlinked => ?_)
      exact (sound_callTail allowCalls ⟨linked, false⟩ rest hlinked).extend rfl
        fun e' rest' hlt' he' => .ok he' rfl
    · exact .unexpected
  · next more =>
    split
    · refine .symbol ((sound_arguments more).bind fun args rest hlt hargs => ?_)
      have htail := sound_callTail allowCalls ⟨.call e.node args false, false⟩ rest
        (.call he hargs)
      exact htail.extend (by simp) fun e' rest' hlt' he' => .ok he' rfl
    · exact .ok he rfl
  · exact .error nofun
  · exact .ok he rfl
termination_by 16 * ts.length
decreasing_by all_goals subst_vars; simp only [length_cons]; omega

theorem sound_optionalLink (e : Operand) (ts : List Token) (he : IsOperand e) :
    Sound all (e.node.glyphs ++ Glyph.mark .optionalDot) ts (Readable true .expression) Node.glyphs
      (optionalLink stop e ts) := by
  unfold optionalLink
  split
  · next more =>
    refine .symbol ((sound_arguments more).bind fun args rest hlt hargs => ?_)
    exact .ok (.call he hargs) (by simp)
  · next more =>
    refine .symbol ((sound_expression more).bind fun key rest₁ hlt₁ hkey => ?_)
    refine sound_expect.bind fun _ rest₂ hlt₂ _ => ?_
    exact .ok (.index he hkey) (by simp)
  · refine sound_propertyName.bind fun name rest hlt hname => ?_
    obtain ⟨text, rfl, hword⟩ := hname
    exact .ok (.part he hword) (by simp)
termination_by 16 * ts.length
decreasing_by all_goals subst_vars; simp only [length_cons]; omega

theorem sound_spreadOrExpression (ts : List Token) :
    Sound all [] ts (Readable true .argument) Node.glyphs (spreadOrExpression stop ts) := by
  unfold spreadOrExpression
  split
  · next more =>
    refine .symbol ((sound_assignment more).bind fun e rest hlt he => ?_)
    exact .ok (.spread he) (by simp)
  · exact (sound_assignment _).mono fun e => .argument
termination_by 16 * ts.length + 11
decreasing_by all_goals (try subst_vars); (try simp only [length_cons]); omega

theorem sound_arguments (ts : List Token) :
    Sound all [] ts (∀ e ∈ ·, Readable true .argument e) Node.glyphsAll (arguments stop ts) := by
  unfold arguments
  split
  · exact .symbol (.ok nofun rfl)
  · refine (sound_spreadOrExpression _).bind fun e rest hlt he => ?_
    dsimp only
    split
    · next rest' hlt' hpass =>
      obtain ⟨text, offset, newline, rfl⟩ := pass?_eq_some hpass
      exact .symbol (.ok (forall_mem_singleton.mpr he) (by simp))
    · refine sound_expect.bind fun _ rest₁ hlt₁ _ => ?_
      refine (sound_arguments rest₁).bind fun es rest₂ hlt₂ hes => ?_
      exact .ok (forall_mem_cons.mpr ⟨he, hes⟩) (by simp)
termination_by 16 * ts.length + 12
decreasing_by all_goals omega

theorem sound_elements (ts : List Token) :
    Sound all [] ts (∀ e ∈ ·, Readable true .element e)
      (Node.glyphsAll · ++ Glyph.mark .bracketClose) (elements stop ts) := by
  unfold elements
  split
  · exact .symbol (.ok nofun rfl)
  · next more =>
    refine .symbol ((sound_elements more).bind fun es rest hlt hes => ?_)
    exact .ok (forall_mem_cons.mpr ⟨.hole, hes⟩) (by simp)
  · refine (sound_spreadOrExpression _).bind fun e rest hlt he => ?_
    dsimp only
    split
    · next rest' hlt' hpass =>
      obtain ⟨text, offset, newline, rfl⟩ := pass?_eq_some hpass
      exact .symbol (.ok (forall_mem_singleton.mpr (.element he)) (by simp))
    · refine sound_expect.bind fun _ rest₁ hlt₁ _ => ?_
      refine (sound_elements rest₁).bind fun es rest₂ hlt₂ hes => ?_
      exact .ok (forall_mem_cons.mpr ⟨.element he, hes⟩) (by simp)
termination_by 16 * ts.length + 12
decreasing_by all_goals (try subst_vars); (try simp only [length_cons]); omega

theorem sound_properties (ts : List Token) :
    Sound all [] ts (∀ p ∈ ·, Readable true .property p)
      (Node.glyphsAll · ++ Glyph.mark .braceClose) (properties stop ts) := by
  unfold properties
  split
  · exact .symbol (.ok nofun rfl)
  · refine (sound_property _).bind fun e rest hlt he => ?_
    dsimp only
    split
    · next rest' hlt' hpass =>
      obtain ⟨text, offset, newline, rfl⟩ := pass?_eq_some hpass
      exact .symbol (.ok (forall_mem_singleton.mpr he) (by simp))
    · refine sound_expect.bind fun _ rest₁ hlt₁ _ => ?_
      refine (sound_properties rest₁).bind fun es rest₂ hlt₂ hes => ?_
      exact .ok (forall_mem_cons.mpr ⟨he, hes⟩) (by simp)
termination_by 16 * ts.length + 12
decreasing_by all_goals omega

theorem sound_property (ts : List Token) :
    Sound all [] ts (Readable true .property) Node.glyphs (property stop ts) := by
  unfold property
  split
  · next more =>
    refine .symbol ((sound_assignment more).bind fun e rest hlt he => ?_)
    exact .ok (.rest he) (by simp)
  · refine (sound_propertyKey _).bind fun key rest hlt hkey => ?_
    dsimp only
    split
    · next rest₁ hlt₁ hpass =>
      obtain ⟨text, offset, newline, rfl⟩ := pass?_eq_some hpass
      refine .symbol ((sound_assignment rest₁).bind fun value rest₂ hlt₂ hvalue => ?_)
      exact .ok (hkey.property hvalue) (by simp [Key.glyphs])
    · split
      · next name hname =>
        split
        · obtain ⟨rfl, hisName⟩ := hkey.shorthand name hname
          exact .ok (.abbreviated hisName) (by simp [Key.glyphs])
        · exact .error misplacedAfterKey_ne
      · exact .error misplacedAfterKey_ne
termination_by 16 * ts.length + 11
decreasing_by all_goals (try subst_vars); (try simp only [length_cons]); omega

theorem sound_propertyKey (ts : List Token) :
    Sound all [] ts IsKey Key.glyphs (propertyKey stop ts) := by
  unfold propertyKey
  split
  · next more =>
    refine .symbol ((sound_assignment more).bind fun key rest₁ hlt₁ hkey => ?_)
    refine sound_expect.bind fun _ rest₂ hlt₂ _ => ?_
    exact .ok ⟨fun _ => hkey, nofun, nofun⟩ (by simp [Key.glyphs])
  · refine .cons fun hspelt _ _ => .ok ⟨nofun, fun _ => .word hspelt.word, ?_⟩ rfl
    rintro name ⟨⟩
    exact ⟨rfl, hspelt⟩
  · exact .cons fun hspelt _ _ => .ok (.of_plain (.word (isWord_of_keyword hspelt))) rfl
  · exact .cons fun hspelt _ _ => .ok (.of_plain (.word (isWord_of_constant hspelt))) rfl
  · exact .string fun value => .ok (.of_plain (.string value)) rfl
  · split
    · next value hvalue =>
      exact .cons fun hspelt _ _ => .ok (.of_plain (.number ⟨_, rfl, hspelt, hvalue⟩)) rfl
    · exact .unexpected
  · exact .unexpected
termination_by 16 * ts.length + 10
decreasing_by all_goals subst_vars; simp only [length_cons]; omega

/-- At most one piece of text comes before each substitution, so the text read since the last
substitution is always a piece. -/
theorem sound_templateParts (raw : Text) (ts : List Token) (hraw : IsChunk raw)
    (hnext : raw ≠ [] → EndsPiece ts)
    (hwild : decodeEscapes raw = .error .outOfRange → ∃ t ∈ all, t.Overflows) :
    Sound all (Glyph.piece raw) ts
      (fun parts => ArePieces parts.2.length parts.1 ∧ ∀ e ∈ parts.2, Readable true .expression e)
      (fun parts => Node.templateGlyphs parts.1 parts.2 ++ [Glyph.backtick])
      (templateParts stop raw ts) := by
  unfold templateParts
  split
  · next text _ _ more =>
    have hempty : raw = [] :=
      Classical.byContradiction fun hne => (hnext hne _ rfl).elim nofun nofun
    subst hempty
    refine .cons fun hspelt hmem hends => ?_
    have hparts := sound_templateParts text more hspelt.2 (fun _ => hends rfl)
      fun hwild => ⟨_, hmem, .inr rfl, hwild⟩
    have hglyph : Glyph.piece text = [.chunk text] := by simp [Glyph.piece, hspelt.1]
    exact hparts.extend hglyph.symm fun parts rest hlt hparts => .ok hparts rfl
  · next more =>
    refine .fixed rfl rfl (.piece hwild fun cooked hcooked => ?_)
    refine (sound_expression more).bind fun e rest hlt he => ?_
    dsimp only
    split
    · next rest₁ hlt₁ hpass =>
      obtain ⟨text, offset, newline, rfl⟩ := pass?_eq_some hpass
      refine .fixed rfl rfl ?_
      refine (sound_templateParts [] rest₁ isChunk_nil nofun (by simp [decodeEscapes])).bind
        fun parts rest₂ hlt₂ hparts => ?_
      obtain ⟨pieces, es⟩ := parts
      exact .ok ⟨.cons ⟨hraw, hcooked⟩ hparts.1, forall_mem_cons.mpr ⟨he, hparts.2⟩⟩
        (by simp)
    · exact .unexpected
  · refine .fixed rfl rfl (.piece hwild fun cooked hcooked => ?_)
    exact .ok ⟨.last ⟨hraw, hcooked⟩, nofun⟩ (by simp [Glyph.backtick])
  · exact .error nofun
termination_by 16 * ts.length
decreasing_by all_goals subst_vars; simp only [length_cons]; omega

theorem sound_primary (ts : List Token) :
    Sound all [] ts IsOperand (·.node.glyphs) (primary stop ts) := by
  unfold primary
  split
  · split
    · next value hvalue =>
      exact .cons fun hspelt _ _ => .ok (.number ⟨_, rfl, hspelt, hvalue⟩) rfl
    · exact .unexpected
  · exact .string fun value => .ok (.string value) rfl
  · next more =>
    refine .fixed rfl rfl ?_
    refine (sound_templateParts [] more isChunk_nil nofun (by simp [decodeEscapes])).bind
      fun parts rest hlt hparts => ?_
    obtain ⟨pieces, es⟩ := parts
    exact .ok (.template hparts.1 hparts.2) rfl
  · exact .cons fun hspelt _ _ => .ok (.identifier hspelt) rfl
  · exact .fixed rfl rfl (.ok .null rfl)
  · exact .fixed rfl rfl (.ok (.boolean true) rfl)
  · exact .fixed rfl rfl (.ok (.boolean false) rfl)
  · exact .fixed rfl rfl (.ok .this rfl)
  · exact .unexpected
  · next more _ =>
    refine .symbol ((sound_expression more).bind fun e rest₁ hlt₁ he => ?_)
    refine sound_expect.bind fun _ rest₂ hlt₂ _ => ?_
    exact .ok he (by simp)
  · next more =>
    refine .symbol ((sound_elements more).bind fun es rest hlt hes => ?_)
    exact .ok (.array hes) (by simp)
  · next more =>
    refine .symbol ((sound_properties more).bind fun ps rest hlt hps => ?_)
    exact .ok (.object hps) (by simp)
  · exact .unexpected
termination_by 16 * ts.length + 2
decreasing_by all_goals subst_vars; simp only [length_cons]; omega

end

/-! ### Statements -/

/-- Statements, as read up to the last token. -/
def finished (r : Except SyntaxFault (List Node)) : Except SyntaxFault (Parsed (List Node) 1) :=
  r.map (⟨·, [], Nat.one_pos⟩)

theorem finished_bind {α : Type} (r : Except SyntaxFault α)
    (f : α → Except SyntaxFault (List Node)) : finished (r >>= f) = r >>= (finished <| f ·) := by
  cases r <;> rfl

/-- One statement before others. -/
theorem Sound.statement {node : Node} {r : Except SyntaxFault (List Node)}
    (hnode : ReadableStatement true node) (hshown : shown = node.glyphs)
    (h : Sound all [] ts (∀ node ∈ ·, ReadableStatement true node) Node.glyphsAll (finished r)) :
    Sound all shown ts (∀ node ∈ ·, ReadableStatement true node) Node.glyphsAll
      (finished (r >>= fun following => .ok (node :: following))) := by
  have heq : finished (r >>= fun following => .ok (node :: following)) =
      finished r >>= fun p => .ok ⟨node :: p.value, p.rest, p.shorter⟩ := by
    cases r <;> rfl
  rw [heq]
  refine h.bind fun following rest hlt hfollowing => ?_
  exact .ok (forall_mem_cons.mpr ⟨hnode, hfollowing⟩) (by simp [hshown])

theorem sound_statements (ts : List Token) :
    Sound all [] ts (∀ node ∈ ·, ReadableStatement true node) Node.glyphsAll
      (finished (statements stop ts)) := by
  unfold statements
  split
  · exact .ok (by simp) rfl
  · next more => exact .symbol (.statement .empty (by simp) (sound_statements more))
  · exact .error (by simp)
  · next t more _ _ =>
    split
    · exact .error (by simp)
    · rw [finished_bind]
      refine (sound_expression stop (t :: more)).bind fun e rest hlt he => ?_
      dsimp only
      split
      · next rest' hlt' hpass =>
        obtain ⟨text, offset, newline, rfl⟩ := pass?_eq_some hpass
        exact .symbol (.statement (.expression he) (by simp) (sound_statements rest'))
      · split
        · exact .statement (.expression he) (by simp) (sound_statements rest)
        · exact .unexpected
termination_by ts.length
decreasing_by
  · subst_vars
    simp
  · subst_vars
    omega
  · subst_vars
    omega

end Parser

/-- The tokens of a text are read as a whole. -/
theorem sound_parse {stream : TokenStream}
    (h : TokenStream.ofText source = .ok stream) : match parse source with
    | .ok nodes => (∀ node ∈ nodes, ReadableStatement true node) ∧
        glyphs stream.tokens = Node.glyphsAll nodes
    | .error fault => fault = .escape .outOfRange → ∃ t ∈ stream.tokens, t.Overflows := by
  have hparse : parse source = Parser.statements stream.stop stream.tokens := by
    rw [parse, h]
    rfl
  have hsound := Parser.sound_statements stream.stop stream.tokens
    ⟨suffix_rfl, wellSpelt_ofText h⟩
  rw [hparse]
  cases hread : Parser.statements stream.stop stream.tokens with
  | error fault =>
    rw [hread] at hsound
    exact hsound
  | ok nodes =>
    rw [hread] at hsound
    obtain ⟨hnodes, used, hused, hshows⟩ := hsound
    refine ⟨hnodes, ?_⟩
    rw [hused]
    simpa [Parser.finished] using hshows

/-- **The statements of a text are readable.** -/
theorem readable_of_parse {nodes : List Node} (h : parse source = .ok nodes) :
    ∀ node ∈ nodes, ReadableStatement true node := by
  obtain ⟨stream, hstream, -⟩ := exists_of_bind_eq_ok h
  have hsound := sound_parse hstream
  rw [h] at hsound
  exact hsound.1

end ViewMarkup.Script
