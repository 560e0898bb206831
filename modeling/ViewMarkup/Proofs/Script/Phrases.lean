import ViewMarkup.Proofs.Script.Reading

/-!
# The rules of the grammar

For each kind of expression, how its phrases are made of those of its parts.  The strength of a
phrase is that of the expression; the parts are asked for at the strengths that printing asks for.

* `phrase_parenthesized`: between parentheses every expression is as strong as a name.
* `phrase_binary`, `phrase_power`: operators group to the left, powers to the right.
* `ReadsArguments`, `ReadsElements`, `ReadsProperties` and `ReadsParts` are the phrases of lists.
-/

namespace ViewMarkup.Script.Parser

open List

variable {t : Token} {ts : List Token} {x : Operand} {k : Nat} {more rest us : List Token}
  {e : Node} {left right mark : Token} {es quasis args : List Node} {y : Operand} {j strength : Nat}
  {op : BinaryOp} {stop : Nat} {value : Number} {key p : Node} {ps nodes : List Node}
  {raw cooked : Text} {w : Token}

/-! ### Literals and names -/

theorem headExpression_of_primary (ht : t.kind ≠ .keyword .new)
    (h : Reads (primary stop (t :: more)) x rest) :
    Reads (headExpression stop (t :: more)) x rest := by
  rw [headExpression]
  · exact h
  · rintro text offset newline more' heq
    cases heq
    exact ht rfl

/-- Anything but `new` that starts with a token of its own. -/
theorem phrase_primary (hopens : opensExpression 20 t.kind = true) (hnew : t.kind ≠ .keyword .new)
    (hquiet : Quiet (t :: ts)) (hpasses : Passes (t :: ts))
    (h : ∀ {stop rest}, Reads (primary stop (t :: ts ++ rest)) x rest) : Phrase 20 x (t :: ts) :=
  ReadsAs.phrase (.head (headExpression_of_primary hnew h)) ⟨t, ts, rfl, hopens⟩ (fun _ => hquiet)
    hpasses

theorem phrase_name (ht : t.kind = .name) : Phrase 20 ⟨.identifier t.text, false⟩ [t] := by
  cases t
  cases ht
  refine phrase_primary rfl nofun (fun rest hrest => ?_) (fun _ _ => rfl) ?_
  · rw [cons_append, nil_append]
    unfold arrowAhead
    split
    · next heq =>
      cases heq
      exact absurd rfl (hrest _ rfl)
    · next heq => cases heq
    · rfl
  · intro stop rest
    rw [cons_append, primary]
    exact .ok

theorem phrase_number (ht : t.kind = .number) (hvalue : readNumber? t.text = some value) :
    Phrase 20 ⟨.number value (some t.text), false⟩ [t] := by
  cases t
  cases ht
  refine phrase_primary rfl nofun (fun _ _ => rfl) (fun _ _ => rfl) ?_
  intro stop rest
  rw [cons_append, primary, hvalue]
  exact .ok

theorem phrase_string (ht : t.kind = .string) (hvalue : stringValue t.text = .ok e) :
    Phrase 20 ⟨e, false⟩ [t] := by
  cases t
  cases ht
  refine phrase_primary rfl nofun (fun _ _ => rfl) (fun _ _ => rfl) ?_
  intro stop rest
  rw [cons_append, primary, hvalue]
  exact .ok

/-- The tree of a constant. -/
def constantNode : Constant → Node
  | .true => .boolean true
  | .false => .boolean false
  | .null => .null

theorem phrase_constant {c : Constant} (ht : t.kind = .constant c) :
    Phrase 20 ⟨constantNode c, false⟩ [t] := by
  cases t
  cases ht
  refine phrase_primary rfl nofun (fun _ _ => rfl) (fun _ _ => rfl) ?_
  intro stop rest
  cases c <;>
  · rw [cons_append, primary]
    exact .ok

theorem phrase_this (ht : t.kind = .keyword .this) : Phrase 20 ⟨.this, false⟩ [t] := by
  cases t
  cases ht
  refine phrase_primary rfl nofun (fun _ _ => rfl) (fun _ _ => rfl) ?_
  intro stop rest
  rw [cons_append, primary]
  exact .ok

/-! ### Marks between phrases -/

/-- The marks that every expression ends before. -/
def closes : TokenKind → Bool
  | .symbol .parenClose | .symbol .bracketClose | .symbol .braceClose | .symbol .colon
  | .symbol .semicolon | .interpolationClose => true
  | _ => false

theorem Ends.of_closes (h : closes t.kind = true) : Ends k (t :: rest) := by
  obtain ⟨kind, text, offset, newline⟩ := t
  revert h
  fun_cases closes kind with
  | case7 => exact nofun
  | _ =>
    intro _
    exact .cons ⟨fun _ => rfl, fun _ => rfl, fun _ _ _ h => (nomatch h), fun _ => nofun,
      fun _ => rfl, fun _ => nofun, nofun⟩

theorem Ends.of_comma (h : t.kind = .symbol .comma) (hk : 2 ≤ k) : Ends k (t :: rest) := by
  cases t
  cases h
  exact .cons ⟨fun _ => rfl, fun _ => rfl, fun _ _ _ h => (nomatch h), fun _ => nofun,
    fun _ => rfl, fun _ => by omega, nofun⟩

theorem Ends.of_question (h : t.kind = .symbol .question) (hk : 4 ≤ k) : Ends k (t :: rest) := by
  cases t
  cases h
  exact .cons ⟨fun _ => rfl, fun _ => rfl, fun _ _ _ h => (nomatch h), fun _ => by omega,
    fun _ => rfl, fun _ => nofun, nofun⟩

/-- No expression starts with a token that opens none. -/
theorem Opens.append_ne (h : Opens k ts) (ht : opensExpression 0 t.kind = false) :
    ts ++ rest ≠ t :: more := by
  obtain ⟨u, us, rfl, hu⟩ := h
  rintro heq
  cases heq
  rw [opensExpression_mono (Nat.zero_le k) hu] at ht
  cases ht

theorem phrase_parenthesized (h : Phrase k x ts) (hleft : left.kind = .symbol .parenOpen)
    (hright : right.kind = .symbol .parenClose) :
    Phrase 20 ⟨x.node, true⟩ (left :: (ts ++ [right])) := by
  cases left
  cases hleft
  refine phrase_primary rfl nofun (fun rest hrest => ?_)
    (fun _ _ => by simp [arrowAfterClose, h.passes, hright]) fun {stop rest} => ?_
  · simp only [cons_append, append_assoc, nil_append, arrowAhead, h.passes 0, arrowAfterClose, hright]
    rw [if_pos trivial]
    split
    · exact absurd rfl (hrest _ rfl)
    · rfl
  · rw [cons_append, append_assoc, singleton_append, primary]
    · refine (h.expression (.of_closes (by rw [hright]; rfl))).bind fun _ => ?_
      exact (expect_reads hright).bind fun _ => .ok
    · exact fun _ _ _ _ => h.opens.append_ne rfl

/-! ### Lists -/

/-- Some tokens are read as an argument of a call or an element of an array. -/
structure ReadsItem (e : Node) (ts : List Token) : Prop where
  opens : ∃ t more, ts = t :: more ∧
    (t.kind = .symbol .ellipsis ∨ opensExpression 0 t.kind = true)
  passes : Passes ts
  reads {stop : Nat} {rest : List Token} (hends : Ends 2 rest) :
    Reads (spreadOrExpression stop (ts ++ rest)) e rest

theorem ReadsItem.append_ne (h : ReadsItem e ts) (ht : opensExpression 0 t.kind = false)
    (ht' : t.kind ≠ .symbol .ellipsis) : ts ++ rest ≠ t :: more := by
  obtain ⟨u, us, rfl, hu⟩ := h.opens
  rintro heq
  cases heq
  rw [ht] at hu
  exact hu.elim ht' nofun

theorem Phrase.item (h : Phrase k x ts) (hk : 2 ≤ k) : ReadsItem x.node ts where
  opens :=
    have ⟨t, more, hts, ht⟩ := h.opens.mono (Nat.zero_le k)
    ⟨t, more, hts, .inr ht⟩
  passes := h.passes
  reads {stop rest} hends := by
    rw [spreadOrExpression]
    · exact h.assignment hk hends
    · exact fun _ _ _ _ => h.opens.append_ne rfl

theorem Phrase.spread (h : Phrase k x ts) (hk : 2 ≤ k) (ht : t.kind = .symbol .ellipsis) :
    ReadsItem (.spread x.node) (t :: ts) where
  opens := ⟨t, ts, rfl, .inl ht⟩
  passes _ _ := by simp [arrowAfterClose, ht, h.passes]
  reads {stop rest} hends := by
    cases t
    cases ht
    rw [cons_append, spreadOrExpression]
    exact (h.assignment hk hends).bind fun _ => .ok

/-- Some tokens end with the bracket that closes a list. -/
abbrev Closes (ts : List Token) : Prop :=
  ∀ depth rest, arrowAfterClose (depth + 2) (ts ++ rest) = arrowAfterClose (depth + 1) rest

/-- Some tokens are read as arguments, up to and with the closing parenthesis. -/
structure ReadsArguments (es : List Node) (ts : List Token) : Prop where
  passes : Closes ts
  reads {stop : Nat} {rest : List Token} : Reads (arguments stop (ts ++ rest)) es rest

theorem ReadsArguments.nil (ht : t.kind = .symbol .parenClose) : ReadsArguments [] [t] where
  passes _ _ := by simp [arrowAfterClose, ht]
  reads {stop rest} := by
    cases t
    cases ht
    rw [cons_append, arguments]
    exact .ok

theorem ReadsArguments.last (he : ReadsItem e ts) (ht : t.kind = .symbol .parenClose) :
    ReadsArguments [e] (ts ++ [t]) where
  passes _ _ := by simp [arrowAfterClose, he.passes, ht]
  reads {stop rest} := by
    rw [append_assoc, singleton_append, arguments]
    · refine (he.reads (.of_closes (by rw [ht]; rfl))).bind fun _ => ?_
      obtain ⟨_, hpass⟩ := pass?_of_kind rest ht
      dsimp only
      rw [hpass]
      exact .ok
    · exact fun _ _ _ _ => he.append_ne rfl (by simp)

theorem ReadsArguments.cons (he : ReadsItem e ts)
    (ht : t.kind = .symbol .comma) (hes : ReadsArguments es us) :
    ReadsArguments (e :: es) (ts ++ t :: us) where
  passes _ _ := by simp [arrowAfterClose, he.passes, ht, hes.passes]
  reads {stop rest} := by
    rw [append_assoc, cons_append, arguments]
    · refine (he.reads (.of_comma ht (Nat.le_refl 2))).bind fun _ => ?_
      dsimp only
      rw [pass?_of_ne (by simp [ht])]
      exact (expect_reads ht).bind fun _ => hes.reads.bind fun _ => .ok
    · exact fun _ _ _ _ => he.append_ne rfl (by simp)

/-- Some tokens are read as elements, up to and with the closing bracket. -/
structure ReadsElements (es : List Node) (ts : List Token) : Prop where
  passes : Closes ts
  reads {stop : Nat} {rest : List Token} : Reads (elements stop (ts ++ rest)) es rest

theorem ReadsElements.nil (ht : t.kind = .symbol .bracketClose) : ReadsElements [] [t] where
  passes _ _ := by simp [arrowAfterClose, ht]
  reads {stop rest} := by
    cases t
    cases ht
    rw [cons_append, elements]
    exact .ok

/-- A comma where an element is expected leaves one out. -/
theorem ReadsElements.hole (ht : t.kind = .symbol .comma) (hes : ReadsElements es ts) :
    ReadsElements (.hole :: es) (t :: ts) where
  passes _ _ := by simp [arrowAfterClose, ht, hes.passes]
  reads {stop rest} := by
    cases t
    cases ht
    rw [cons_append, elements]
    exact hes.reads.bind fun _ => .ok

theorem ReadsElements.last (he : ReadsItem e ts)
    (ht : t.kind = .symbol .bracketClose) : ReadsElements [e] (ts ++ [t]) where
  passes _ _ := by simp [arrowAfterClose, he.passes, ht]
  reads {stop rest} := by
    rw [append_assoc, singleton_append, elements]
    · refine (he.reads (.of_closes (by rw [ht]; rfl))).bind fun _ => ?_
      obtain ⟨_, hpass⟩ := pass?_of_kind rest ht
      dsimp only
      rw [hpass]
      exact .ok
    · exact fun _ _ _ _ => he.append_ne rfl (by simp)
    · exact fun _ _ _ _ => he.append_ne rfl (by simp)

theorem ReadsElements.cons (he : ReadsItem e ts)
    (ht : t.kind = .symbol .comma) (hes : ReadsElements es us) :
    ReadsElements (e :: es) (ts ++ t :: us) where
  passes _ _ := by simp [arrowAfterClose, he.passes, ht, hes.passes]
  reads {stop rest} := by
    rw [append_assoc, cons_append, elements]
    · refine (he.reads (.of_comma ht (Nat.le_refl 2))).bind fun _ => ?_
      dsimp only
      rw [pass?_of_ne (by simp [ht])]
      exact (expect_reads ht).bind fun _ => hes.reads.bind fun _ => .ok
    · exact fun _ _ _ _ => he.append_ne rfl (by simp)
    · exact fun _ _ _ _ => he.append_ne rfl (by simp)

/-! ### Objects -/

/-- Some tokens are read as a property of an object. -/
structure ReadsProperty (p : Node) (ts : List Token) : Prop where
  opens : ∃ t more, ts = t :: more ∧ t.kind ≠ .symbol .braceClose
  passes : Passes ts
  reads {stop : Nat} {rest : List Token} (hends : endsProperty rest = true) :
    Reads (property stop (ts ++ rest)) p rest

/-- The tokens that are words, reserved or not. -/
def isWordKind : TokenKind → Bool
  | .name | .keyword _ | .constant _ => true
  | _ => false

/-- Some tokens are read as the key of a property. -/
structure ReadsKey (key : Node) (computed : Bool) (ts : List Token) : Prop where
  opens : ∃ t more, ts = t :: more ∧ t.kind ≠ .symbol .braceClose ∧ t.kind ≠ .symbol .ellipsis
  passes : Passes ts
  reads (stop : Nat) (rest : List Token) :
    ∃ shorthand, Reads (propertyKey stop (ts ++ rest)) ⟨key, computed, shorthand⟩ rest

theorem ReadsKey.word (ht : isWordKind t.kind = true) :
    ReadsKey (.identifier t.text) false [t] := by
  obtain ⟨kind, text, offset, newline⟩ := t
  cases kind with
  | name | keyword _ | constant _ =>
    refine ⟨⟨_, [], rfl, by simp, by simp⟩, fun _ _ => rfl, fun stop rest => ?_⟩
    rw [cons_append, propertyKey]
    exact ⟨_, .ok⟩
  | _ => cases ht

theorem ReadsKey.string (ht : t.kind = .string) (hkey : stringValue t.text = .ok key) :
    ReadsKey key false [t] := by
  cases t
  cases ht
  refine ⟨⟨_, [], rfl, nofun, nofun⟩, fun _ _ => rfl, fun stop rest => ?_⟩
  rw [cons_append, propertyKey, hkey]
  exact ⟨_, .ok⟩

theorem ReadsKey.number (ht : t.kind = .number) (hvalue : readNumber? t.text = some value) :
    ReadsKey (.number value (some t.text)) false [t] := by
  cases t
  cases ht
  refine ⟨⟨_, [], rfl, nofun, nofun⟩, fun _ _ => rfl, fun stop rest => ?_⟩
  rw [cons_append, propertyKey, hvalue]
  exact ⟨_, .ok⟩

theorem ReadsKey.computed (h : Phrase k x ts) (hk : 2 ≤ k)
    (hleft : left.kind = .symbol .bracketOpen) (hright : right.kind = .symbol .bracketClose) :
    ReadsKey x.node true (left :: (ts ++ [right])) := by
  cases left
  cases hleft
  refine ⟨⟨_, _, rfl, nofun, nofun⟩, fun _ _ => by simp [arrowAfterClose, h.passes, hright],
    fun stop rest => ⟨none, ?_⟩⟩
  rw [cons_append, append_assoc, singleton_append, propertyKey]
  refine (h.assignment hk (.of_closes (by rw [hright]; rfl))).bind fun _ => ?_
  exact (expect_reads hright).bind fun _ => .ok

theorem Ends.of_endsProperty (h : endsProperty rest = true) : Ends 2 rest := by
  revert h
  fun_cases endsProperty rest with
  | case1 => exact fun _ => .of_comma rfl (Nat.le_refl 2)
  | case2 => exact fun _ => .of_closes rfl
  | case3 => exact nofun

theorem ReadsProperty.named {computed : Bool} (hkey : ReadsKey key computed ts)
    (ht : t.kind = .symbol .colon) (h : Phrase k x us) (hk : 2 ≤ k) :
    ReadsProperty (.property key x.node computed false) (ts ++ t :: us) where
  opens := by
    obtain ⟨u, more, rfl, hu, -⟩ := hkey.opens
    exact ⟨u, more ++ t :: us, rfl, hu⟩
  passes _ _ := by simp [arrowAfterClose, hkey.passes, ht, h.passes]
  reads {stop rest} hends := by
    obtain ⟨shorthand, hread⟩ := hkey.reads stop (t :: (us ++ rest))
    rw [append_assoc, cons_append, property]
    · refine hread.bind fun _ => ?_
      obtain ⟨_, hpass⟩ := pass?_of_kind (us ++ rest) ht
      dsimp only
      rw [hpass]
      exact (h.assignment hk (.of_endsProperty hends)).bind fun _ => .ok
    · intro text offset newline more heq
      obtain ⟨u, us', rfl, -, hu⟩ := hkey.opens
      cases heq
      exact hu rfl

theorem ReadsProperty.abbreviated (ht : t.kind = .name) :
    ReadsProperty (.property (.identifier t.text) (.identifier t.text) false true) [t] where
  opens := ⟨t, [], rfl, by rw [ht]; simp⟩
  passes _ _ := by simp [arrowAfterClose, ht]
  reads {stop rest} hends := by
    cases t
    cases ht
    have hcolon : ∀ t ∈ rest.head?, t.kind ≠ .symbol .colon := by
      revert hends
      fun_cases endsProperty rest <;> simp
    rw [cons_append, nil_append, property, propertyKey]
    · refine Reads.bind .ok fun _ => ?_
      dsimp only
      rw [pass?_of_ne hcolon, if_pos hends]
      exact .ok
    · simp

theorem ReadsProperty.spread (h : Phrase k x ts) (hk : 2 ≤ k) (ht : t.kind = .symbol .ellipsis) :
    ReadsProperty (.spread x.node) (t :: ts) where
  opens := ⟨t, ts, rfl, by rw [ht]; nofun⟩
  passes _ _ := by simp [arrowAfterClose, ht, h.passes]
  reads {stop rest} hends := by
    cases t
    cases ht
    rw [cons_append, property]
    exact (h.assignment hk (.of_endsProperty hends)).bind fun _ => .ok

/-- Some tokens are read as properties, up to and with the closing brace. -/
structure ReadsProperties (ps : List Node) (ts : List Token) : Prop where
  passes : Closes ts
  reads {stop : Nat} {rest : List Token} : Reads (properties stop (ts ++ rest)) ps rest

theorem ReadsProperties.nil (ht : t.kind = .symbol .braceClose) : ReadsProperties [] [t] where
  passes _ _ := by simp [arrowAfterClose, ht]
  reads {stop rest} := by
    cases t
    cases ht
    rw [cons_append, properties]
    exact .ok

theorem ReadsProperty.append_ne (h : ReadsProperty p ts)
    (ht : t.kind = .symbol .braceClose) : ts ++ rest ≠ t :: more := by
  obtain ⟨u, us, rfl, hu⟩ := h.opens
  rintro heq
  cases heq
  exact hu ht

theorem ReadsProperties.last (hp : ReadsProperty p ts)
    (ht : t.kind = .symbol .braceClose) : ReadsProperties [p] (ts ++ [t]) where
  passes _ _ := by simp [arrowAfterClose, hp.passes, ht]
  reads {stop rest} := by
    cases t
    cases ht
    rw [append_assoc, singleton_append, properties]
    · exact (hp.reads rfl).bind fun _ => .ok
    · exact fun _ _ _ _ => hp.append_ne rfl

theorem ReadsProperties.cons
    (hp : ReadsProperty p ts) (ht : t.kind = .symbol .comma) (hps : ReadsProperties ps us) :
    ReadsProperties (p :: ps) (ts ++ t :: us) where
  passes _ _ := by simp [arrowAfterClose, hp.passes, ht, hps.passes]
  reads {stop rest} := by
    cases t
    cases ht
    rw [append_assoc, cons_append, properties]
    · refine (hp.reads rfl).bind fun _ => ?_
      exact (expect_reads rfl).bind fun _ => hps.reads.bind fun _ => .ok
    · exact fun _ _ _ _ => hp.append_ne rfl

/-! ### Template literals -/

/-- Some tokens are read as the inside of a template literal, up to and with the closing backtick;
`raw` has been read before them. -/
structure ReadsParts (raw : Text) (quasis es : List Node) (ts : List Token) : Prop where
  passes : Passes ts
  reads {stop : Nat} {rest : List Token} :
    Reads (templateParts stop raw (ts ++ rest)) (quasis, es) rest

theorem ReadsParts.chunk (ht : t.kind = .chunk)
    (h : ReadsParts (raw ++ t.text) quasis es ts) : ReadsParts raw quasis es (t :: ts) where
  passes _ _ := by simp [arrowAfterClose, ht, h.passes]
  reads {stop rest} := by
    cases t
    cases ht
    rw [cons_append, templateParts]
    exact h.reads.bind fun _ => .ok

theorem ReadsParts.last (ht : t.kind = .backtick) (hraw : decodeEscapes raw = .ok cooked) :
    ReadsParts raw [.templateElement raw cooked true] [] [t] where
  passes _ _ := by simp [arrowAfterClose, ht]
  reads {stop rest} := by
    cases t
    cases ht
    rw [cons_append, templateParts, templatePiece, hraw]
    exact .ok

theorem ReadsParts.substitution (hleft : left.kind = .interpolationOpen)
    (hright : right.kind = .interpolationClose) (hraw : decodeEscapes raw = .ok cooked)
    (h : Phrase k x ts) (hparts : ReadsParts [] quasis es us) :
    ReadsParts raw (.templateElement raw cooked false :: quasis) (x.node :: es)
      (left :: (ts ++ right :: us)) where
  passes _ _ := by simp [arrowAfterClose, hleft, hright, h.passes, hparts.passes]
  reads {stop rest} := by
    cases left
    cases hleft
    have hends : Ends 1 (right :: (us ++ rest)) := .of_closes (by rw [hright]; rfl)
    obtain ⟨_, hpass⟩ := pass?_of_kind (us ++ rest) hright
    rw [cons_append, append_assoc, cons_append, templateParts, templatePiece, hraw]
    refine (h.expression hends).bind fun _ => ?_
    dsimp only
    rw [hpass]
    exact hparts.reads.bind fun _ => .ok

theorem phrase_template (ht : t.kind = .backtick) (h : ReadsParts [] quasis es ts) :
    Phrase 20 ⟨.template quasis es, false⟩ (t :: ts) := by
  cases t
  cases ht
  refine phrase_primary rfl nofun (fun _ _ => rfl) h.passes ?_
  intro stop rest
  rw [cons_append, primary]
  exact h.reads.bind fun _ => .ok

theorem phrase_array (ht : t.kind = .symbol .bracketOpen) (h : ReadsElements es ts) :
    Phrase 20 ⟨.array es, false⟩ (t :: ts) := by
  cases t
  cases ht
  refine phrase_primary rfl nofun (fun _ _ => rfl) h.passes ?_
  intro stop rest
  rw [cons_append, primary]
  exact h.reads.bind fun _ => .ok

theorem phrase_object (ht : t.kind = .symbol .braceOpen)
    (h : ReadsProperties ps ts) : Phrase 20 ⟨.object ps, false⟩ (t :: ts) := by
  cases t
  cases ht
  refine phrase_primary rfl nofun (fun _ _ => rfl) h.passes ?_
  intro stop rest
  rw [cons_append, primary]
  exact h.reads.bind fun _ => .ok

/-! ### Accesses and calls -/

/-- A link of a chain goes on from what stands before it. -/
theorem Phrase.link (h : Phrase k x ts) (hk : 18 ≤ k)
    (hcallee : Printer.isPlainCallee e = true → isCallee x = true)
    (hmark : mark.kind ≠ .symbol .arrow) (hus : Passes (mark :: us))
    (htail : ∀ {stop allow rest rest' value}, allow = true ∨ Printer.isPlainCallee e = true →
      Reads (callTail stop allow ⟨e, false⟩ rest) value rest' →
      Reads (callTail stop allow x (mark :: us ++ rest)) value rest') :
    Phrase 18 ⟨e, false⟩ (ts ++ mark :: us) := by
  refine ReadsAs.phrase (.chain fun hallow hread => ?_) (h.opens.mono hk).append
    (fun _ => (h.quiet (by omega)).append hmark) fun depth rest => by rw [append_assoc, h.passes, hus]
  rw [append_assoc]
  exact h.chain (by omega) (hallow.imp_right hcallee) (htail hallow hread)

theorem propertyName_reads (ht : isWordKind t.kind = true) :
    Reads (propertyName stop (t :: more)) (.identifier t.text) more := by
  obtain ⟨kind, text, offset, newline⟩ := t
  cases kind with
  | name | keyword _ | constant _ => exact .ok
  | _ => cases ht

theorem noBracket_word (ht : isWordKind t.kind = true) : NoBracket t := by
  obtain ⟨kind, text, offset, newline⟩ := t
  cases kind with
  | name | keyword _ | constant _ => exact fun _ _ => rfl
  | _ => cases ht

section

variable (h : Phrase k x ts) (hk : 18 ≤ k)
include h hk

theorem phrase_part {dot : Token}
    (hdot : dot.kind = .symbol .dot) (hw : isWordKind w.kind = true) :
    Phrase 18 ⟨.member x.node (.identifier w.text) false false, false⟩ (ts ++ [dot, w]) := by
  cases dot
  cases hdot
  refine h.link hk (fun hplain => ?_) nofun (fun _ _ => noBracket_word hw _ _) fun _ htail => ?_
  · simpa [isCallee] using .inr hplain
  · rw [cons_append, cons_append, callTail]
    exact (propertyName_reads hw).bind fun _ => htail.bind fun _ => .ok

theorem phrase_index (hkey : Phrase j y us)
    (hleft : left.kind = .symbol .bracketOpen) (hright : right.kind = .symbol .bracketClose) :
    Phrase 18 ⟨.member x.node y.node true false, false⟩ (ts ++ left :: (us ++ [right])) := by
  cases left
  cases hleft
  refine h.link hk (fun hplain => ?_) nofun
    (fun _ _ => by simp [arrowAfterClose, hkey.passes, hright]) fun _ htail => ?_
  · simpa [isCallee] using .inr hplain
  · rw [cons_append, append_assoc, singleton_append, callTail]
    refine (hkey.expression (.of_closes (by rw [hright]; rfl))).bind fun _ => ?_
    exact (expect_reads hright).bind fun _ => htail.bind fun _ => .ok

theorem phrase_call (hargs : ReadsArguments args us) (hleft : left.kind = .symbol .parenOpen) :
    Phrase 18 ⟨.call x.node args false, false⟩ (ts ++ left :: us) := by
  cases left
  cases hleft
  refine h.link hk nofun nofun hargs.passes fun hallow htail => ?_
  obtain rfl := hallow.resolve_right nofun
  rw [cons_append, callTail, if_pos rfl]
  exact hargs.reads.bind fun _ => htail.bind fun _ => .ok

/-- An optional link: what follows `?.` is read on its own. -/
theorem Phrase.optionalLink (hmark : mark.kind = .symbol .optionalDot)
    (hus : Passes us) (hplain : Printer.isPlainCallee e = false)
    (hlink : ∀ {stop rest}, Reads (optionalLink stop x (us ++ rest)) e rest) :
    Phrase 18 ⟨e, false⟩ (ts ++ mark :: us) := by
  cases mark
  cases hmark
  refine h.link hk (by simp [hplain]) nofun hus fun hallow htail => ?_
  obtain rfl := hallow.resolve_right (by simp [hplain])
  rw [cons_append, callTail, if_pos rfl]
  exact hlink.bind fun _ => htail.bind fun _ => .ok

theorem phrase_optionalPart (hmark : mark.kind = .symbol .optionalDot)
    (hw : isWordKind w.kind = true) :
    Phrase 18 ⟨.member x.node (.identifier w.text) false true, false⟩ (ts ++ [mark, w]) := by
  refine h.optionalLink hk hmark (fun _ _ => noBracket_word hw _ _) rfl ?_
  intro stop rest
  cases w
  rw [cons_append, Parser.optionalLink]
  · exact (propertyName_reads hw).bind fun _ => .ok
  · rintro text offset newline more ⟨⟩
    cases hw
  · rintro text offset newline more ⟨⟩
    cases hw

theorem phrase_optionalIndex (hkey : Phrase j y us) (hmark : mark.kind = .symbol .optionalDot)
    (hleft : left.kind = .symbol .bracketOpen) (hright : right.kind = .symbol .bracketClose) :
    Phrase 18 ⟨.member x.node y.node true true, false⟩ (ts ++ mark :: left :: (us ++ [right])) := by
  refine h.optionalLink hk hmark
    (fun _ _ => by simp [arrowAfterClose, hkey.passes, hleft, hright]) rfl ?_
  intro stop rest
  cases left
  cases hleft
  rw [cons_append, append_assoc, singleton_append, Parser.optionalLink]
  refine (hkey.expression (.of_closes (by rw [hright]; rfl))).bind fun _ => ?_
  exact (expect_reads hright).bind fun _ => .ok

theorem phrase_optionalCall (hargs : ReadsArguments args us)
    (hmark : mark.kind = .symbol .optionalDot) (hleft : left.kind = .symbol .parenOpen) :
    Phrase 18 ⟨.call x.node args true, false⟩ (ts ++ mark :: left :: us) := by
  refine h.optionalLink hk hmark
    (fun _ _ => by simp [arrowAfterClose, hargs.passes, hleft]) rfl ?_
  intro stop rest
  cases left
  cases hleft
  rw [cons_append, Parser.optionalLink]
  exact hargs.reads.bind fun _ => .ok

/-- After `new` stand the callee, with accesses but no calls, and the arguments. -/
theorem phrase_new {word : Token} (hcallee : isCallee x = true) (hargs : ReadsArguments args us)
    (hword : word.kind = .keyword .new) (hleft : left.kind = .symbol .parenOpen) :
    Phrase 20 ⟨.new x.node args, false⟩ (word :: (ts ++ left :: us)) := by
  refine ReadsAs.phrase (.head fun {stop rest} => ?_) ⟨word, _, rfl, by rw [hword]; rfl⟩
    (fun _ _ _ => by cases word; cases hword; rfl)
    fun _ _ => by simp [arrowAfterClose, hword, h.passes, hleft, hargs.passes]
  have hcalls : Reads (callTail stop false x (left :: (us ++ rest))) x (left :: (us ++ rest)) := by
    cases left
    cases hleft
    rw [callTail]
    exact .ok
  obtain ⟨head, rest', hhead, htail⟩ :=
    h.chain (by omega) (.inr hcallee) hcalls
  have hnew : Reads (newExpression stop (ts ++ left :: (us ++ rest))) (.new x.node args) rest := by
    rw [newExpression]
    · refine hhead.bind fun _ => htail.bind fun _ => ?_
      obtain ⟨_, hpass⟩ := pass?_of_kind (us ++ rest) hleft
      dsimp only
      rw [hpass]
      exact hargs.reads.bind fun _ => .ok
    · exact fun _ _ _ _ => h.opens.append_ne rfl
  cases word
  cases hword
  rw [cons_append, append_assoc, cons_append, headExpression]
  exact hnew.bind fun _ => .ok

end

/-! ### Operators before and after an operand -/

theorem opens_of_unaryOperator? {op : UnaryOp} (h : unaryOperator? t = some op) :
    opensExpression 15 t.kind = true ∧ NoBracket t ∧ ∀ more, arrowAhead (t :: more) = false := by
  unfold unaryOperator? at h
  obtain ⟨kind, text, offset, newline⟩ := t
  cases hkind : kind with
  | keyword word => cases word <;> simp_all [opensExpression, Keyword.unary?, NoBracket, arrowAfterClose, arrowAhead]
  | symbol s => cases s <;> simp_all [opensExpression, Symbol.unary?, NoBracket, arrowAfterClose, arrowAhead]
  | _ => simp [hkind] at h

theorem opens_of_updateOperator? {op : UpdateOp} (h : updateOperator? t = some op) :
    opensExpression 15 t.kind = true ∧ NoBracket t ∧ (∀ more, arrowAhead (t :: more) = false) ∧
      unaryOperator? t = none ∧ linksOn t = false ∧ t.kind ≠ .symbol .arrow := by
  unfold updateOperator? at h
  unfold unaryOperator? linksOn
  obtain ⟨kind, text, offset, newline⟩ := t
  cases hkind : kind with
  | symbol s =>
    cases s <;> simp_all [opensExpression, Symbol.unary?, Symbol.update?, NoBracket, arrowAfterClose, arrowAhead]
  | _ => simp [hkind] at h

theorem phrase_unary {op : UnaryOp} (h : Phrase k x ts) (hk : 15 ≤ k)
    (hop : unaryOperator? t = some op) : Phrase 15 ⟨.unary op x.node, false⟩ (t :: ts) := by
  obtain ⟨hopens, hbracket, harrow⟩ := opens_of_unaryOperator? hop
  refine ReadsAs.phrase (.unary (Nat.le_refl 15) (by omega) fun hends => ?_)
    ⟨t, ts, rfl, hopens⟩ (fun _ _ _ => harrow _) fun _ _ => by simp [hbracket, h.passes]
  rw [cons_append, unary, hop]
  exact (h.unary hk hends).bind fun _ => .ok

theorem phrase_update {op : UpdateOp} (h : Phrase k x ts) (hk : 15 ≤ k)
    (hop : updateOperator? t = some op) (htarget : isTarget x.node = true) :
    Phrase 15 ⟨.update op x.node true, false⟩ (t :: ts) := by
  obtain ⟨hopens, hbracket, harrow, hunary, -⟩ := opens_of_updateOperator? hop
  refine ReadsAs.phrase (.unary (Nat.le_refl 15) (by omega) fun hends => ?_)
    ⟨t, ts, rfl, hopens⟩ (fun _ _ _ => harrow _) fun _ _ => by simp [hbracket, h.passes]
  rw [cons_append, unary, hunary, hop]
  refine (h.unary hk hends).bind fun _ => ?_
  dsimp only
  rw [if_pos htarget]
  exact .ok

theorem phrase_trailing {op : UpdateOp} (h : Phrase k x ts) (hk : 17 ≤ k)
    (hop : updateOperator? t = some op) (hline : t.newlineBefore = false)
    (htarget : isTarget x.node = true) :
    Phrase 16 ⟨.update op x.node false, false⟩ (ts ++ [t]) := by
  obtain ⟨-, hbracket, -, -, hlinks, harrow⟩ := opens_of_updateOperator? hop
  obtain ⟨u, us, rfl, hu⟩ := h.opens.mono (show 16 ≤ k by omega)
  refine ReadsAs.phrase (.unary (by omega) (Nat.le_refl 16) fun {stop rest} hends => ?_)
    ⟨u, us ++ [t], rfl, hu⟩ (fun _ => (h.quiet (by omega)).append harrow)
    fun _ _ => by rw [append_assoc, h.passes]; exact hbracket _ _
  obtain ⟨hunary, hupdate⟩ := not_operator_of_opens hu
  have hleft : Reads (leftHandSide stop (u :: us ++ t :: rest)) x (t :: rest) :=
    leftHandSide_of_chain (h.chain hk (.inl rfl) (callTail_ends (by simp [hlinks])))
  rw [append_assoc, singleton_append, cons_append, unary, hunary, hupdate]
  refine hleft.bind fun _ => ?_
  simp only [passUpdate?, hline, hop, Option.map_some, htarget, if_true]
  exact .ok

/-! ### Operators between two operands -/

theorem strength?_of_binaryOperator? (h : binaryOperator? t = some (op, strength)) :
    op.strength? = some strength := by
  obtain ⟨op', -, hop⟩ := Option.bind_eq_some_iff.mp h
  obtain ⟨strength', hstrength, heq⟩ := Option.map_eq_some_iff.mp hop
  cases heq
  exact hstrength

theorem strength?_bounds (h : op.strength? = some strength) :
    1 ≤ strength ∧ (op ≠ .pow → strength ≤ 10) ∧ (op = .pow → strength = 11) := by
  cases op <;> cases h <;> simp

/-- A binary operator is nothing else that could go on with an expression. -/
theorem only_binaryOperator? (h : binaryOperator? t = some (op, strength)) :
    linksOn t = false ∧ updateOperator? t = none ∧ t.kind ≠ .symbol .question ∧
      assignOperator? t = none ∧ t.kind ≠ .symbol .comma ∧ t.kind ≠ .symbol .arrow ∧ NoBracket t := by
  unfold binaryOperator? at h
  unfold linksOn updateOperator? assignOperator?
  obtain ⟨kind, text, offset, newline⟩ := t
  cases hkind : kind with
  | symbol s =>
    cases s <;> simp_all [Symbol.binary?, Symbol.update?, Symbol.assign?, NoBracket, arrowAfterClose]
  | keyword word => simp_all [NoBracket, arrowAfterClose]
  | _ => simp_all

theorem Ends.of_binary (h : binaryOperator? t = some (op, strength))
    (hk : 14 < k ∨ op ≠ .pow ∧ strength + 3 ≤ k) : Ends k (t :: rest) := by
  obtain ⟨hlink, hupdate, hquestion, hassign, hcomma, harrow, -⟩ := only_binaryOperator? h
  refine .cons ⟨fun _ => hlink, fun _ => hupdate, fun hle op' strength' h' => ?_,
    fun _ => hquestion, fun _ => hassign, fun _ => hcomma, harrow⟩
  cases h.symm.trans h'
  exact hk.resolve_left (by omega)

/-- **Operators group to the left.**  An operator of the same strength may follow, since the right
operand is asked for at the next strength. -/
theorem phrase_binary (hop : binaryOperator? t = some (op, strength)) (hne : op ≠ .pow)
    (hleft : Phrase k x ts) (hk : strength + 3 ≤ k) (hright : Phrase j y us) (hj : strength + 4 ≤ j)
    (he : combine op x y = .ok e) : Phrase (strength + 3) ⟨e, false⟩ (ts ++ t :: us) := by
  have hstrength := strength?_of_binaryOperator? hop
  obtain ⟨hpos, hle, -⟩ := strength?_bounds hstrength
  have hle := hle hne
  obtain ⟨-, -, -, -, -, harrow, hbracket⟩ := only_binaryOperator? hop
  refine ReadsAs.phrase (.binary (by omega) (by omega)
    fun {stop least rest rest' value} hleast hends htail => ?_)
    (hleft.opens.mono hk).append (fun _ => (hleft.quiet (by omega)).append harrow)
    fun _ _ => by simp [hleft.passes, hbracket, hright.passes]
  -- The right operand ends where the whole expression does.
  have hread : Reads (binary stop (strength + 1) (us ++ rest)) y rest :=
    hright.binary (by omega) (by omega) (hends.mono (by omega))
      (binaryTail_ends fun u hu op' strength' hop' => by
        have := ((hends u hu).binary (by omega) op' strength' hop').2
        omega)
  rw [append_assoc, cons_append]
  refine hleft.binary (by omega) (by omega)
    (.of_binary hop (.inr ⟨hne, by omega⟩)) ?_
  rw [binaryTail, hop]
  dsimp only
  rw [if_neg (by omega), if_neg (by simp [hne]), if_neg hne]
  refine hread.bind fun _ => ?_
  dsimp only
  rw [he]
  exact htail.bind fun _ => .ok

/-- **Powers group to the right**, and their left operand is not a bare unary expression. -/
theorem phrase_power (hop : binaryOperator? t = some (.pow, strength)) (hleft : Phrase k x ts)
    (hk : 16 ≤ k) (hx : isBareUnary x = false) (hright : Phrase j y us) (hj : 14 ≤ j) :
    Phrase 14 ⟨.binary .pow x.node y.node, false⟩ (ts ++ t :: us) := by
  obtain rfl : strength = 11 :=
    (strength?_bounds (strength?_of_binaryOperator? hop)).2.2 rfl
  obtain ⟨-, -, -, -, -, harrow, hbracket⟩ := only_binaryOperator? hop
  refine ReadsAs.phrase (.binary (by omega) (by omega)
    fun {stop least rest rest' value} hleast hends htail => ?_)
    (hleft.opens.mono (by omega)).append (fun _ => (hleft.quiet (by omega)).append harrow)
    fun _ _ => by simp [hleft.passes, hbracket, hright.passes]
  have hread : Reads (binary stop 11 (us ++ rest)) y rest :=
    hright.binary (by omega) (by omega) (hends.mono (by omega))
      (binaryTail_ends fun u hu op' strength' hop' => by
        have hne := ((hends u hu).binary (by omega) op' strength' hop').1
        have := (strength?_bounds (strength?_of_binaryOperator? hop')).2.1 hne
        omega)
  rw [append_assoc, cons_append]
  refine binary_of_unary (hleft.unary (by omega)
    (.of_binary hop (.inl (by omega)))) ?_
  rw [binaryTail, hop]
  dsimp only
  rw [if_neg (by omega), if_neg (by simp [hx]), if_pos rfl]
  exact hread.bind fun _ => htail.bind fun _ => .ok

/-! ### Conditional expressions, assignments and sequences -/

theorem phrase_conditional {question colon : Token} {z : Operand} {vs : List Token} {i : Nat}
    (htest : Phrase k x ts) (hk : 4 ≤ k) (hconsequent : Phrase j y us) (hj : 2 ≤ j)
    (halternate : Phrase i z vs) (hi : 2 ≤ i) (hquestion : question.kind = .symbol .question)
    (hcolon : colon.kind = .symbol .colon) : Phrase 3 ⟨.conditional x.node y.node z.node, false⟩
      (ts ++ question :: (us ++ colon :: vs)) := by
  refine ReadsAs.phrase (.conditional fun {stop rest} hends => ?_)
    (htest.opens.mono (by omega)).append
    (fun _ => (htest.quiet (by omega)).append (by simp [hquestion])) fun _ _ => by
      simp [arrowAfterClose, htest.passes, hconsequent.passes, halternate.passes, hquestion, hcolon]
  have hread : Reads (binary stop 1 (ts ++ question :: (us ++ colon :: (vs ++ rest)))) x
      (question :: (us ++ colon :: (vs ++ rest))) :=
    htest.binary hk (by omega) (.of_question hquestion (by omega))
      (binaryTail_ends (by simp [binaryOperator?, hquestion, Symbol.binary?]))
  obtain ⟨_, hpass⟩ := pass?_of_kind (us ++ colon :: (vs ++ rest)) hquestion
  rw [append_assoc, cons_append, append_assoc, cons_append, conditional]
  refine hread.bind fun _ => ?_
  dsimp only
  rw [hpass]
  refine (hconsequent.assignment hj (.of_closes (by rw [hcolon]; rfl))).bind fun _ => ?_
  exact (expect_reads hcolon).bind fun _ => (halternate.assignment hi hends).bind fun _ => .ok

theorem only_assignOperator? {op : AssignOp} (h : assignOperator? t = some op) :
    linksOn t = false ∧ updateOperator? t = none ∧ binaryOperator? t = none ∧
      t.kind ≠ .symbol .question ∧ t.kind ≠ .symbol .comma ∧ t.kind ≠ .symbol .arrow ∧
      NoBracket t := by
  unfold assignOperator? at h
  unfold linksOn updateOperator? binaryOperator?
  obtain ⟨kind, text, offset, newline⟩ := t
  cases hkind : kind with
  | symbol s =>
    cases s <;> simp_all [Symbol.binary?, Symbol.update?, Symbol.assign?, NoBracket, arrowAfterClose]
  | _ => simp_all

theorem passAssign?_of_operator {op : AssignOp} (more : List Token)
    (h : assignOperator? t = some op) :
    ∃ shorter, passAssign? (t :: more) = some ⟨op, more, shorter⟩ := by
  obtain ⟨kind, text, offset, newline⟩ := t
  cases kind with
  | symbol s =>
    have hs : s.assign? = some op := h
    simp [passAssign?, hs]
  | _ => cases h

theorem phrase_assignment {op : AssignOp} (hleft : Phrase k x ts) (hk : 4 ≤ k)
    (htarget : isTarget x.node = true) (hright : Phrase j y us) (hj : 2 ≤ j)
    (hop : assignOperator? t = some op) :
    Phrase 2 ⟨.assignment op x.node y.node, false⟩ (ts ++ t :: us) := by
  obtain ⟨hlink, hupdate, hbinary, hquestion, hcomma, harrow, hbracket⟩ := only_assignOperator? hop
  refine ReadsAs.phrase (.assignment fun {stop rest} hends => ?_)
    (hleft.opens.mono (by omega)).append (fun _ => (hleft.quiet (by omega)).append harrow)
    fun _ _ => by simp [hleft.passes, hbracket, hright.passes]
  have hends' : Ends 3 (t :: (us ++ rest)) :=
    .cons ⟨fun _ => hlink, fun _ => hupdate, by simp [hbinary], fun _ => hquestion, by omega,
      fun _ => hcomma, harrow⟩
  obtain ⟨_, hpass⟩ := passAssign?_of_operator (us ++ rest) hop
  rw [append_assoc, cons_append, assignment,
    if_neg (by simp [hleft.quiet (by omega) _ fun t ht => (hends' t ht).arrow])]
  refine (hleft.conditional hk hends').bind fun _ => ?_
  dsimp only
  rw [hpass]
  dsimp only
  rw [if_pos htarget]
  exact (hright.assignment hj hends).bind fun _ => .ok

/-- Some tokens are read as the further members of a sequence, each after a comma. -/
structure ReadsSequence (es : List Node) (ts : List Token) : Prop where
  passes : Passes ts
  ends {rest : List Token} (hrest : Ends 1 rest) : Ends 2 (ts ++ rest)
  reads {stop : Nat} {rest : List Token} (hends : Ends 1 rest) :
    Reads (sequenceTail stop (ts ++ rest)) es rest

theorem ReadsSequence.nil : ReadsSequence [] [] where
  passes _ _ := rfl
  ends hrest := hrest.mono (by omega)
  reads hends := sequenceTail_ends hends (Nat.le_refl 1)

theorem ReadsSequence.cons (ht : t.kind = .symbol .comma)
    (h : Phrase k x ts) (hk : 2 ≤ k) (hes : ReadsSequence es us) :
    ReadsSequence (x.node :: es) (t :: (ts ++ us)) where
  passes _ _ := by simp [arrowAfterClose, ht, h.passes, hes.passes]
  ends _ := .of_comma ht (Nat.le_refl 2)
  reads {stop rest} hends := by
    cases t
    cases ht
    rw [cons_append, append_assoc, sequenceTail]
    exact (h.assignment hk (hes.ends hends)).bind fun _ => (hes.reads hends).bind fun _ => .ok

theorem phrase_sequence (h : Phrase k x ts) (hk : 2 ≤ k) (hes : ReadsSequence es us) (hne : es ≠ []) :
    Phrase 1 ⟨.sequence (x.node :: es), false⟩ (ts ++ us) := by
  refine ReadsAs.phrase (.expression fun hends => ?_) (h.opens.mono (by omega)).append
    (by omega) fun _ _ => by simp [h.passes, hes.passes]
  rw [append_assoc, expression]
  refine (h.assignment hk (hes.ends hends)).bind fun _ => (hes.reads hends).bind fun _ => ?_
  dsimp only
  rw [if_neg (by simp [hne])]
  exact .ok

/-! ### Statements -/

/-- Some tokens are read as statements. -/
def ReadsStatements (nodes : List Node) (ts : List Token) : Prop :=
  ∀ stop, statements stop ts = .ok nodes

theorem ReadsStatements.nil : ReadsStatements [] [] :=
  fun stop => by rw [statements]

theorem ReadsStatements.empty (ht : t.kind = .symbol .semicolon)
    (h : ReadsStatements nodes ts) : ReadsStatements (.emptyStatement :: nodes) (t :: ts) := by
  intro stop
  cases t
  cases ht
  rw [statements, h]
  rfl

theorem not_opensStatement_of_opens {word : Keyword}
    (h : opensExpression k (.keyword word) = true) : word.opensStatement = false := by
  cases word <;> simp_all [opensExpression, Keyword.unary?, Keyword.opensStatement]

/-- A statement ends with a semicolon, or where the text does. -/
theorem ReadsStatements.expression (h : Phrase k x ts)
    (hbrace : ∀ t ∈ ts.head?, t.kind ≠ .symbol .braceOpen)
    (hrest : (∃ t : Token, t.kind = .symbol .semicolon ∧ rest = t :: us) ∨ rest = [] ∧ us = [])
    (hus : ReadsStatements nodes us) :
    ReadsStatements (.expressionStatement x.node :: nodes) (ts ++ rest) := by
  intro stop
  have hends : Ends 1 rest := by
    rcases hrest with ⟨t, ht, rfl⟩ | ⟨rfl, -⟩
    · exact .of_closes (by rw [ht]; rfl)
    · nofun
  have hread : Reads (Parser.expression stop (ts ++ rest)) x.node rest := h.expression hends
  obtain ⟨u, more, rfl, hu⟩ := h.opens
  rw [cons_append] at hread ⊢
  rw [statements]
  · split
    · next htrue =>
      revert htrue
      cases hkind : u.kind with
      | keyword word => simp [not_opensStatement_of_opens (hkind ▸ hu)]
      | _ => simp
    · obtain ⟨_, hread⟩ := hread
      rw [hread]
      rcases hrest with ⟨t, ht, rfl⟩ | ⟨rfl, rfl⟩
      · obtain ⟨_, hpass⟩ := pass?_of_kind us ht
        simp only [bind, Except.bind, hpass, hus stop]
        rfl
      · simp only [bind, Except.bind, pass?, startsLine, hus stop]
        rfl
  · rintro text offset newline rfl
    cases opensExpression_mono (Nat.zero_le k) hu
  · rintro text offset newline rfl
    exact hbrace _ rfl rfl

end ViewMarkup.Script.Parser
