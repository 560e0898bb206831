import ViewMarkup.Proofs.Script.Soundness

/-!
# What reading a text comes to

* `joined_glyphs_eq`: the statements of a text show what its tokens show, in the same order.
* `parse_ends`: reading ends with statements or with a fault, and only a number beyond 32 bits in an
  escape sequence is a fault of another kind than a wrong syntax.
-/

namespace ViewMarkup.Script

variable {ts : List Token}

/-! ### Nothing is lost -/

/-- In well-spelt tokens no two pieces of a template are neighbours, so there is nothing to join. -/
theorem joined_glyphs (h : WellSpelt ts) : Glyph.joined (glyphs ts) = glyphs ts := by
  induction ts with
  | nil => rfl
  | cons t ts ih =>
    obtain ⟨-, hnext, hts⟩ := h
    rw [glyphs_cons]
    cases hkind : t.kind with
    | chunk =>
      have hglyph : t.glyph? = some (.chunk t.content) := by simp [Token.glyph?, hkind]
      rw [hglyph, Option.toList_some, List.singleton_append, Glyph.joined, ih hts]
      cases ts with
      | nil => rfl
      | cons u us =>
        have hu : u.glyph? = some (.spelt u.content) := by
          rcases hnext hkind u rfl with hu | hu <;> simp [Token.glyph?, hu]
        rw [glyphs_cons, hu]
        rfl
    | symbol s =>
      rw [Token.glyph?, hkind]
      dsimp only
      split <;> simp [Glyph.joined, ih hts]
    | _ => simp [Token.glyph?, hkind, Glyph.joined, ih hts]

/-- **Reading drops, doubles and moves nothing.**  Apart from parentheses, commas and semicolons, and
with the pieces of one template joined, the tokens of a text show what its statements show. -/
theorem joined_glyphs_eq {source : Text} {nodes : List Node} (h : parse source = .ok nodes) :
    ∃ stream, TokenStream.ofText source = .ok stream ∧
      Glyph.joined (glyphs stream.tokens) = Node.glyphsAll nodes := by
  obtain ⟨stream, hstream, -⟩ := exists_of_bind_eq_ok h
  have hsound := sound_parse hstream
  rw [h] at hsound
  exact ⟨stream, hstream, (joined_glyphs (wellSpelt_ofText hstream)).trans hsound.2⟩

/-- A program with parentheses, commas and a semicolon, which the statements do not show. -/
def glyphsSample : Text :=
  "(f)(x, ...y)[`a$\x7bb\x7dc`] ? \x7bd, 'e\\n': [1, , z]\x7d : () => -u;"

theorem joined_glyphs_eq_sample :
    ∃ nodes, parse glyphsSample = .ok nodes ∧
      ∃ stream, TokenStream.ofText glyphsSample = .ok stream ∧
        Glyph.joined (glyphs stream.tokens) = Node.glyphsAll nodes := by
  have hok : (parse glyphsSample).isOk = true := by decide +kernel
  cases h : parse glyphsSample with
  | ok nodes => exact ⟨nodes, rfl, joined_glyphs_eq h⟩
  | error fault =>
    rw [h] at hok
    cases hok

/-! ### Reading ends -/

namespace Parser

/-- What is read takes at least one token from the front and leaves the tokens after it. -/
def Advances {α : Type} {n : Nat} (ts : List Token) (r : Except SyntaxFault (Parsed α n)) : Prop :=
  ∀ p, r = .ok p → ∃ used, used ≠ [] ∧ ts = used ++ p.rest

theorem Sound.advances {α : Type} {all : List Token} {shown : List Glyph} {P : α → Prop}
    {shows : α → List Glyph} {r : Except SyntaxFault (Parsed α ts.length)}
    (h : Sound all shown ts P shows r) (hts : Remain all ts) : Advances ts r := by
  rintro p rfl
  obtain ⟨-, used, hused, -⟩ := h hts
  refine ⟨used, ?_, hused⟩
  rintro rfl
  have hshorter := p.shorter
  rw [List.nil_append] at hused
  rw [← hused] at hshorter
  exact Nat.lt_irrefl _ hshorter

end Parser

theorem WellSpelt.spelt (h : WellSpelt ts) : ∀ t ∈ ts, Spelt t.kind t.text := by
  induction ts with
  | nil => nofun
  | cons t ts ih => exact List.forall_mem_cons.mpr ⟨h.1, ih h.2.2⟩

theorem ofLexemes_ne_error {stop : Nat} {newline : Bool} {lexemes : List Lexeme}
    {fault : EscapeFault} : TokenStream.ofLexemes stop newline lexemes ≠ .error (.escape fault) := by
  induction lexemes generalizing newline with
  | nil => rintro ⟨⟩
  | cons lexeme rest ih =>
    rw [TokenStream.ofLexemes]
    split
    · cases hrest : TokenStream.ofLexemes stop false rest with
      | ok following => rintro ⟨⟩
      | error other =>
        rintro ⟨⟩
        exact ih hrest
    · split
      · rintro ⟨⟩
      · exact ih
    · exact ih

theorem ReadableStatement.eq {arrows : Bool} {node : Node} (h : ReadableStatement arrows node) :
    node = .emptyStatement ∨ ∃ e, node = .expressionStatement e := by
  cases h with
  | empty => exact .inl rfl
  | expression => exact .inr ⟨_, rfl⟩

open Parser in
/-- **Reading ends with statements or with a fault of the syntax**, except that a number beyond 32
bits in an escape sequence of a string or a template is a fault of its own.  Every number among the
tokens has a value.  Wherever among the tokens a phrase is read that is repeated in a list, and
wherever a list is read, at least one token is passed, and none beyond the last. -/
theorem parse_ends (source : Text) :
    ((∃ nodes, parse source = .ok nodes ∧
        ∀ node ∈ nodes, node = .emptyStatement ∨ ∃ e, node = .expressionStatement e) ∨
      (∃ fault, parse source = .error fault ∧ fault ≠ .escape .outOfRange) ∨
      (parse source = .error (.escape .outOfRange) ∧
        ∃ stream, TokenStream.ofText source = .ok stream ∧
          ∃ t ∈ stream.tokens, (t.kind = .string ∨ t.kind = .chunk) ∧ HoldsWide t.content)) ∧
    ∀ stream, TokenStream.ofText source = .ok stream →
      (∀ t ∈ stream.tokens, t.kind = .number → (readNumber? t.text).isSome) ∧
      ∀ stop ts, ts <:+ stream.tokens →
        (Advances ts (expression stop ts) ∧ Advances ts (assignment stop ts) ∧
          Advances ts (spreadOrExpression stop ts) ∧ Advances ts (property stop ts)) ∧
        Advances ts (arguments stop ts) ∧ Advances ts (elements stop ts) ∧
        Advances ts (properties stop ts) ∧ Advances ts (parameters stop ts) ∧
        Advances ts (templateParts stop [] ts) := by
  refine ⟨?_, fun stream hstream => ?_⟩
  · cases hparse : parse source with
    | ok nodes =>
      exact .inl ⟨nodes, rfl, fun node hnode => (readable_of_parse hparse node hnode).eq⟩
    | error fault =>
      by_cases hfault : fault = .escape .outOfRange
      · subst hfault
        cases hstream : TokenStream.ofText source with
        | error other =>
          rw [parse, hstream] at hparse
          cases hparse
          exact absurd hstream ofLexemes_ne_error
        | ok stream =>
          have hsound := sound_parse hstream
          rw [hparse] at hsound
          obtain ⟨t, ht, hkind, hdecode⟩ := hsound rfl
          exact .inr (.inr ⟨rfl, stream, rfl, t, ht, hkind,
            decodeEscapes_eq_outOfRange_iff.mp hdecode⟩)
      · exact .inr (.inl ⟨fault, rfl, hfault⟩)
  · have hspelt := wellSpelt_ofText hstream
    refine ⟨fun t ht hkind => ?_, fun stop ts hts => ?_⟩
    · have htext := hspelt.spelt t ht
      rw [hkind] at htext
      exact IsNumeral.isSome_readNumber? htext
    · have hremain : Remain stream.tokens ts := by
        obtain ⟨used, hused⟩ := hts
        exact ⟨⟨used, hused⟩, (hused ▸ hspelt).of_append⟩
      exact ⟨⟨(sound_expression stop ts).advances hremain, (sound_assignment stop ts).advances hremain,
        (sound_spreadOrExpression stop ts).advances hremain,
        (sound_property stop ts).advances hremain⟩, (sound_arguments stop ts).advances hremain,
        (sound_elements stop ts).advances hremain, (sound_properties stop ts).advances hremain,
        (sound_parameters stop ts).advances hremain,
        (sound_templateParts stop [] ts isChunk_nil (by simp) (by simp [decodeEscapes])).advances hremain⟩

end ViewMarkup.Script
