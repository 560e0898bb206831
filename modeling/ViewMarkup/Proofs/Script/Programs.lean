import ViewMarkup.Proofs.Script.Printing

/-!
# Printed programs

The lines that are printed for a program are read back as its statements.

* `ReadableStatement.prints`: a readable statement is printed as a text that spells it.
* `parse_print_program` and `parse_print_statement`: what is printed is read back as it was.
-/

namespace ViewMarkup.Script

open Parser

variable {lines : List Text} {text : Text} {node : Node} {newline : Bool} {nodes : List Node}
  {k : Nat} {x : Operand} {dot : Bool}

theorem isCode_nil : IsCode [] :=
  nofun

/-- A text is scanned into tokens that are read as a statement, whatever follows. -/
def SpellsStatement (node : Node) (text : Text) : Prop :=
  ∀ newline, Scans newline [] text [] (fun _ => True) fun ts =>
    ∀ {nodes us}, ReadsStatements nodes us → ReadsStatements (node :: nodes) (ts ++ us)

/-- At the start of a statement an expression does not open a block. -/
theorem Begins.not_brace {ts : List Token} (h : Begins text ts)
    (hbrace : text.head? ≠ some (.char '\x7b')) :
    ∀ t ∈ ts.head?, t.kind ≠ .symbol .braceOpen := by
  obtain ⟨c, text', t, ts', rfl, rfl, -, hc⟩ := h
  rintro u ⟨⟩ hu
  exact hbrace (congrArg some (hc hu))

theorem Spells.statement (h : Spells k x dot text) (hbrace : text.head? ≠ some (.char '\x7b')) :
    SpellsStatement (.expressionStatement x.node) (text ++ ";") := by
  intro newline
  refine (h newline [] isCode_nil).append ?_ fun rest _ => .cons (by decide) _
  rintro ts ⟨hts, hbegins⟩
  refine (scans_mark (s := .semicolon) isCode_nil (by decide)).mono (fun _ => id) ?_
  rintro _ ⟨offset, rfl⟩ nodes us hus
  rw [List.append_assoc]
  exact .expression hts (hbegins.not_brace hbrace) (.inl ⟨_, rfl, rfl⟩) hus

theorem head?_of_not_opensLikeStatement
    (h : Printer.opensLikeStatement text = false) : text.head? ≠ some (.char '\x7b') := by
  cases text with
  | nil => nofun
  | cons c text =>
    rintro ⟨⟩
    cases h

/-- **A readable statement is printed as a text that spells it.** -/
theorem ReadableStatement.prints (h : ReadableStatement false node) :
    ∃ text, (∀ depth, Printer.statement depth node = .ok text) ∧ SpellsStatement node text := by
  cases h with
  | @expression e h =>
    obtain ⟨text, hprint, hspells⟩ := h.prints
    cases hopens : Printer.opensLikeStatement text with
    | true =>
      refine ⟨text.parenthesized ++ ";", fun depth => ?_, ?_⟩
      · rw [Printer.statement, hprint depth]
        simp [hopens, bind, Except.bind, pure, Except.pure]
      · exact hspells.parenthesized.statement nofun
    | false =>
      refine ⟨text ++ ";", fun depth => ?_, ?_⟩
      · rw [Printer.statement, hprint depth]
        simp [hopens, bind, Except.bind, pure, Except.pure]
      · exact hspells.statement (head?_of_not_opensLikeStatement hopens)
  | empty =>
    refine ⟨";", fun depth => by rw [Printer.statement], fun newline => ?_⟩
    refine (scans_mark (s := .semicolon) isCode_nil (by decide)).mono (fun _ => id) ?_
    rintro _ ⟨offset, rfl⟩ nodes us hus
    exact .empty rfl hus

/-- The tokens of a text are read as some statements. -/
def ReadsLines (nodes : List Node) (newline : Bool) (text : Text) : Prop :=
  ∀ stop offset, ∃ stream, tokensFrom stop newline [] offset text = .ok stream ∧
    ReadsStatements nodes stream.tokens

theorem ReadsLines.nil : ReadsLines [] newline [] := by
  intro stop offset
  refine ⟨⟨[], stop, newline⟩, ?_, .nil⟩
  rw [tokensFrom, Lexeme.scanFrom, TokenStream.ofLexemes]

theorem ReadsLines.break
    (h : ReadsLines nodes true text) : ReadsLines nodes newline (.char '\n' :: text) := by
  intro stop offset
  obtain ⟨stream, heq, hreads⟩ := h stop (offset + 1)
  refine ⟨stream, ?_, hreads⟩
  rw [tokensFrom_blank isCode_nil rfl, ← heq]
  exact congrArg (tokensFrom stop · [] (offset + 1) text) (Bool.or_true newline)

theorem ReadsLines.cons {line : Text}
    (hline : SpellsStatement node line) (h : ReadsLines nodes false text) :
    ReadsLines (node :: nodes) newline (line ++ text) := by
  intro stop offset
  obtain ⟨ts, hts, heq⟩ := hline newline stop offset text trivial
  obtain ⟨stream, hrest, hreads⟩ := h stop (offset + line.length)
  rw [heq, hrest]
  exact ⟨stream.after ts, rfl, hts hreads⟩

theorem ReadsLines.parse (h : ReadsLines nodes false text) : Script.parse text = .ok nodes := by
  obtain ⟨stream, heq, hreads⟩ := h text.length 0
  rw [Script.parse, TokenStream.ofText, Lexeme.scan, ← tokensFrom, heq]
  exact hreads stream.stop

/-- Lines, each with its line feed. -/
def ended (lines : List Text) : Text :=
  (lines.map fun line => line ++ [.char '\n']).flatten

theorem ended_cons (line : Text) : ended (line :: lines) = line ++ .char '\n' :: ended lines := by
  simp [ended]

theorem join_append_newline (line : Text) :
    Text.join "\n" (line :: lines) ++ "\n" = ended (line :: lines) := by
  induction lines generalizing line with
  | nil => rw [join_singleton, ended_cons]; rfl
  | cons second others ih =>
    rw [join_cons_cons, List.append_assoc, List.append_assoc, ih second, ended_cons line]
    rfl

section

variable {body : List Node} (h : ∀ node ∈ body, ReadableStatement false node)
include h

/-- A run of statements is printed line by line, and each line is read as its statement. -/
theorem prints_statements :
    ∃ lines, (∀ depth, Printer.statements depth body = .ok lines) ∧
      (body = [] ↔ lines = []) ∧ ∀ newline, ReadsLines body newline (ended lines) := by
  induction body with
  | nil => exact ⟨[], fun depth => by rw [Printer.statements], by simp, fun newline => .nil⟩
  | cons node body ih =>
    obtain ⟨line, hprint, hspells⟩ := (h node List.mem_cons_self).prints
    obtain ⟨lines, hprints, -, hreads⟩ := ih fun e he => h e (List.mem_cons_of_mem node he)
    refine ⟨line :: lines, fun depth => ?_, by simp, fun newline => ?_⟩
    · rw [Printer.statements, hprint depth, hprints depth]
      rfl
    · rw [ended_cons]
      exact .cons hspells (hreads true).break

/-- **A printed program is read back as it was.** -/
theorem parse_print_program : ∃ text, print (.program body) = .ok text ∧ parse text = .ok body := by
  obtain ⟨lines, hprints, hnil, hreads⟩ := prints_statements h
  refine ⟨Text.join "\n" lines ++ "\n", ?_, ?_⟩
  · rw [print, hprints 0]
    rfl
  · cases lines with
    | nil =>
      exact (hreads true).break.parse
    | cons line lines =>
      rw [join_append_newline]
      exact (hreads false).parse

end

/-- **A printed statement is read back as it was.** -/
theorem parse_print_statement (h : ReadableStatement false node) :
    ∃ text, print node = .ok text ∧ parse text = .ok [node] := by
  obtain ⟨text, hprint, hspells⟩ := h.prints
  refine ⟨text, ?_, ?_⟩
  · rw [← hprint 0]
    cases h <;> rfl
  · rw [← List.append_nil text]
    exact (ReadsLines.cons hspells .nil).parse

end ViewMarkup.Script
