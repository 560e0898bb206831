import ViewMarkup.Proofs.Script.Programs
import ViewMarkup.Proofs.Script.Spelling

/-!
# Access by name

A name that is known when code is generated (of a property, an event or a slot) is written after a
dot where it is an identifier, and as a quoted key where it is not.

* `Spells.parse`: an expression is read back from its text alone, without a semicolon.
* `parse_print_accessNamed`: an access is read back with the name that it was built for.  Only the
  line feed that an identifier may end with is lost.
-/

namespace ViewMarkup.Script

open Parser

variable {owner name text rest : Text} {k : Nat} {x : Operand} {dot optional computed : Bool}
  {key : Node}

/-- An expression at the end of a text, with or without a line feed. -/
theorem Spells.parse (h : Spells k x dot text) (hbrace : text.head? ≠ some (.char '\x7b'))
    (hrest : rest = [] ∨ rest = [.char '\n']) :
    Script.parse (text ++ rest) = .ok [.expressionStatement x.node] := by
  have hfollows : Follows dot rest := by
    rcases hrest with rfl | rfl
    · nofun
    · exact .cons (by decide) []
  have hend (stop offset : Nat) :
      ∃ newline, tokensFrom stop false [] offset rest = .ok ⟨[], stop, newline⟩ := by
    rcases hrest with rfl | rfl
    · exact ⟨false, by rw [tokensFrom, Lexeme.scanFrom, TokenStream.ofLexemes]⟩
    · exact ⟨true, by
        rw [tokensFrom_blank isCode_nil rfl, tokensFrom, Lexeme.scanFrom, TokenStream.ofLexemes]
        rfl⟩
  obtain ⟨ts, ⟨hts, hbegins⟩, heq⟩ := h false [] isCode_nil (text ++ rest).length 0 rest hfollows
  obtain ⟨newline, hend⟩ := hend (text ++ rest).length (0 + text.length)
  rw [Script.parse, TokenStream.ofText, Lexeme.scan, ← tokensFrom, heq, hend]
  exact ReadsStatements.expression hts (hbegins.not_brace hbrace) (.inr ⟨rfl, rfl⟩) .nil _

/-- A text that is scanned as one name is a name. -/
theorem isName_of_scan (h : Lexeme.scan owner = [⟨.name, owner, 0⟩]) : IsName owner := by
  have hstream : TokenStream.ofText owner =
      .ok ⟨[⟨.name, owner, 0, false⟩], owner.length, false⟩ := by
    rw [TokenStream.ofText, h]
    rfl
  exact (wellSpelt_ofText hstream).1

theorem IsWord.head?_append {word : Text} (h : IsWord word) :
    (word ++ text).head? ≠ some (.char '\x7b') := by
  cases word with
  | nil => cases h
  | cons c rest =>
    rintro ⟨⟩
    cases h.1

/-- The text of an access to a part of a named object. -/
theorem print_part : print (.member (.identifier owner) (.identifier name) false optional) =
    .ok (owner ++ ((if optional then "?." else ".") ++ name)) := by
  cases optional <;>
    exact congrArg Except.ok (by simp [Printer.guarded, Printer.strength, Printer.isNumber])

theorem print_index : print (.member (.identifier owner) (.string name) true optional) =
    .ok (owner ++ ((if optional then "?." else "") ++ "[" ++ quote name ++ "]")) := by
  cases optional <;>
    exact congrArg Except.ok (by simp [Printer.guarded, Printer.strength, Printer.isNumber])

/-- A readable access to a part of a named object is read back. -/
theorem parse_member (howner : IsName owner)
    (h : Readable false .expression (.member (.identifier owner) key computed optional))
    (hprint : print (.member (.identifier owner) key computed optional) = .ok (owner ++ text))
    (hrest : rest = [] ∨ rest = [.char '\n']) : parse (owner ++ text ++ rest) =
      .ok [.expressionStatement (.member (.identifier owner) key computed optional)] := by
  obtain ⟨text', hprint', hspells⟩ := h.prints
  cases hprint.symm.trans (hprint' 0)
  exact hspells.parse howner.word.head?_append hrest

theorem IsWord.newline_notMem {word : Text} (h : IsWord word) : .char '\n' ∉ word := by
  cases word with
  | nil => cases h
  | cons c rest =>
    intro hmem
    rcases List.mem_cons.mp hmem with rfl | hmem
    · cases h.1
    · exact absurd (List.all_eq_true.mp h.2 _ hmem) (by decide +kernel)

/-- **An access by name keeps the name.**  It is printed, and its text is one statement: the access
to the same owner, by a quoted key that is the name or, where the name is an identifier, by the bare
name.  An identifier may end with a line feed, which is not read back; nothing else is lost. -/
theorem parse_print_accessNamed (howner : Lexeme.scan owner = [⟨.name, owner, 0⟩]) (name : Text)
    (optional : Bool) :
    ∃ text, print (.accessNamed (.identifier owner) name optional) = .ok text ∧
      (name.isIdentifier = false → parse text =
        .ok [.expressionStatement (.member (.identifier owner) (.string name) true optional)]) ∧
      (name.isIdentifier = true → ∃ word, IsWord word ∧
        (name = word ∨ name = word ++ [.char '\n']) ∧ parse text =
          .ok [.expressionStatement (.member (.identifier owner) (.identifier word) false optional)]) ∧
      (parse text = .ok [.expressionStatement (.accessNamed (.identifier owner) name optional)] ↔
        (name.isIdentifier = true → .char '\n' ∉ name)) := by
  replace howner := isName_of_scan howner
  rw [Node.accessNamed]
  cases hname : name.isIdentifier with
  | false =>
    have hparse := parse_member howner (.index (.identifier howner) (.string name))
      (print_index : print (.member _ _ _ optional) = _) (.inl rfl)
    rw [List.append_nil] at hparse
    exact ⟨_, print_index, fun _ => hparse, nofun, fun _ => nofun, fun _ => hparse⟩
  | true =>
    obtain ⟨word, hword, heq⟩ := isIdentifier_iff.mp hname
    obtain ⟨tail, rfl, htail⟩ : ∃ tail, name = word ++ tail ∧ (tail = [] ∨ tail = [.char '\n']) := by
      rcases heq with rfl | rfl
      · exact ⟨[], (List.append_nil _).symm, .inl rfl⟩
      · exact ⟨_, rfl, .inr rfl⟩
    have hparse := parse_member howner (.part (.identifier howner) hword)
      (print_part : print (.member _ _ _ optional) = _) htail
    simp only [List.append_assoc] at hparse
    refine ⟨_, print_part, nofun, fun _ => ⟨word, hword, heq, hparse⟩, fun hsame _ => ?_,
      fun hline => ?_⟩
    · rw [hparse] at hsame
      obtain rfl : tail = [] := by simpa using hsame
      exact (List.append_nil word).symm ▸ hword.newline_notMem
    · rcases htail with rfl | rfl
      · simpa using hparse
      · exact absurd (by simp) (hline rfl)

theorem parse_print_accessNamed_reserved : Lexeme.scan "o" = [⟨.name, "o", 0⟩] ∧
    ∃ text, print (.accessNamed (.identifier "o") "class" true) = .ok text ∧
      parse text = .ok [.expressionStatement (.accessNamed (.identifier "o") "class" true)] := by
  have howner : Lexeme.scan "o" = [⟨.name, "o", 0⟩] := by decide +kernel
  obtain ⟨text, hprint, -, -, hparse⟩ := parse_print_accessNamed howner "class" true
  exact ⟨howner, text, hprint, hparse.mpr fun _ => by decide⟩

/-- A line feed at the end of an identifier is lost. -/
theorem parse_accessNamed_newline :
    print (.accessNamed (.identifier "o") "a\n" false) = .ok "o.a\n" ∧
      parse "o.a\n" =
        .ok [.expressionStatement (.member (.identifier "o") (.identifier "a") false false)] := by
  have howner : IsName "o" := isName_of_scan (by decide +kernel)
  have hprint : print (.member (.identifier "o") (.identifier "a") false false) =
      .ok ("o" ++ ".a") := rfl
  exact ⟨rfl, parse_member howner (.part (.identifier howner) (by decide)) hprint (.inr rfl)⟩

end ViewMarkup.Script
