import ViewMarkup.Module
import ViewMarkup.Proofs.Script.Programs

/-!
# Quoted strings

A string that is written between quotes is one token wherever code is scanned, and the token decodes
to the string.

* `Lexeme.scanFrom_quote`: the token, whatever follows it.
* `scans_rawProgram`: the tokens of a module that exports a text as it is.
* `quote_denotes`: a quoted string stands for itself, alone, in printed programs and in such modules.
-/

namespace ViewMarkup

namespace Script

theorem Lexeme.scanFrom_quote {modes : List Mode} (hmodes : IsCode modes) {offset : Nat}
    {value rest : Text} : scanFrom modes offset (quote value ++ rest) =
      ⟨.singleQuoted, quote value, offset⟩ ::
        scanFrom modes (offset + (quote value).length) rest := by
  have hstep : step modes (quote value ++ rest) = (.singleQuoted, (quote value).length, modes) :=
    step_code hmodes (code?_quote value) nofun nofun nofun
  cases hquote : quote value with
  | nil => simp [quote, Text.ofString] at hquote
  | cons c more =>
    rw [hquote, List.cons_append] at hstep
    rw [List.cons_append, scanFrom, hstep]
    simp

/-- The kinds and the spellings of some tokens. -/
def spellings (ts : List Token) : List (TokenKind × Text) :=
  ts.map fun t => (t.kind, t.text)

section
variable {newline : Bool} {text text' : Text} {follows follows' : Text → Prop}
  {spelt spelt' : List (TokenKind × Text)}

/-- A piece of code is scanned into tokens of given kinds and spellings. -/
def ScansInto (newline : Bool) (text : Text) (follows : Text → Prop)
    (spelt : List (TokenKind × Text)) : Prop :=
  Scans newline [] text [] follows fun ts => spellings ts = spelt

theorem ScansInto.append (h : ScansInto newline text follows spelt)
    (h' : ScansInto false text' follows' spelt')
    (hfollows : ∀ rest, follows' rest → follows (text' ++ rest)) :
    ScansInto newline (text ++ text') follows' (spelt ++ spelt') := by
  refine Scans.append h (fun ts hts => ?_) hfollows
  refine Scans.mono h' (fun _ => id) fun us hus => ?_
  rw [spellings, List.map_append, ← spellings, ← spellings, hts, hus]

theorem ScansInto.of_oneToken {kind : TokenKind}
    (h : Scans newline [] text [] follows (OneToken kind text' newline)) :
    ScansInto newline text follows [(kind, text')] :=
  Scans.mono h (fun _ => id) fun ts hts => by
    obtain ⟨offset, rfl⟩ := hts
    rfl

theorem scansInto_word {word : Text} (hword : IsWord word) :
    ScansInto newline word Lexeme.EndsWord [(wordToken word, word)] :=
  .of_oneToken (scans_word isCode_nil hword)

theorem ScansInto.blank (h : ScansInto newline text follows spelt) :
    ScansInto newline (.char ' ' :: text) follows spelt :=
  Scans.blank isCode_nil h

theorem ScansInto.break (h : ScansInto true text follows spelt) :
    ScansInto newline (.char '\n' :: text) follows spelt := by
  intro stop offset rest hrest
  obtain ⟨ts, hts, heq⟩ := h stop (offset + 1) rest hrest
  refine ⟨ts, hts, ?_⟩
  have hnewline : (newline || CodePoint.char '\n' == .char '\n') = true := Bool.or_true newline
  rw [List.cons_append, tokensFrom_blank isCode_nil rfl, hnewline, heq, List.length_cons,
    Nat.add_assoc, Nat.add_comm 1]

/-- The tokens of a text that ends with a line feed. -/
theorem ScansInto.ofText (h : ScansInto false text follows spelt) (hend : follows "\n") :
    ∃ stream, TokenStream.ofText (text ++ "\n") = .ok stream ∧ spellings stream.tokens = spelt := by
  obtain ⟨ts, hts, heq⟩ := h (text ++ Text.ofString "\n").length 0 "\n" hend
  have hrest {stop offset : Nat} : tokensFrom stop false [] offset "\n" = .ok ⟨[], stop, true⟩ := by
    refine (tokensFrom_blank isCode_nil rfl []).trans ?_
    rw [tokensFrom, Lexeme.scanFrom, TokenStream.ofLexemes]
    rfl
  rw [hrest] at heq
  exact ⟨_, heq, by simpa [spellings, TokenStream.after] using hts⟩

end

/-- The name under which a text is exported. -/
def rawName : Text :=
  "RAW_XML_CONTENT"

/-- The tokens of a module that exports a text as it is. -/
def rawTokens (content : Text) : List (TokenKind × Text) :=
  [(.keyword .const, "const"), (.name, rawName), (.symbol .equals, "="), (.string, quote content),
    (.symbol .semicolon, ";"), (.keyword .export, "export"), (.keyword .default, "default"),
    (.name, rawName), (.symbol .semicolon, ";")]

theorem exists_tokens_rawProgram (content : Text) :
    ∃ code stream, print (Module.rawProgram content) = .ok code ∧
      TokenStream.ofText code = .ok stream ∧ spellings stream.tokens = rawTokens content := by
  have hword {newline : Bool} {word : Text} (hword : IsWord word) :
      ScansInto newline (.char ' ' :: word) Lexeme.EndsWord [(wordToken word, word)] :=
    (scansInto_word hword).blank
  have hequals : ScansInto false (.char ' ' :: "=") StartsSpace [(.symbol .equals, "=")] :=
    ScansInto.blank (.of_oneToken (scans_symbol_space isCode_nil nofun nofun))
  have hquote : ScansInto false (.char ' ' :: quote content) (fun _ => True)
      [(.string, quote content)] :=
    ScansInto.blank (.of_oneToken (scans_quote isCode_nil))
  have hsemicolon : ScansInto false ";" (fun _ => True) [(.symbol .semicolon, ";")] :=
    .of_oneToken (scans_mark isCode_nil (by decide))
  have hexport : ScansInto false (.char '\n' :: "export") Lexeme.EndsWord
      [(.keyword .export, "export")] :=
    (scansInto_word (by decide)).break
  have hconst : ScansInto false "const" Lexeme.EndsWord [(.keyword .const, "const")] :=
    scansInto_word (by decide)
  have hname : ScansInto false (.char ' ' :: rawName) Lexeme.EndsWord [(.name, rawName)] :=
    hword (by decide)
  have hdefault : ScansInto false (.char ' ' :: "default") Lexeme.EndsWord
      [(.keyword .default, "default")] :=
    hword (by decide)
  have hline := (((hconst.append hname fun _ _ => rfl).append hequals fun _ _ => rfl).append hquote
    fun _ _ => rfl).append hsemicolon fun _ _ => trivial
  have hlines := (((hline.append hexport fun _ _ => trivial).append hdefault fun _ _ => rfl).append
    hname fun _ _ => rfl).append hsemicolon fun _ _ => rfl
  obtain ⟨stream, hstream, hspelt⟩ := hlines.ofText trivial
  refine ⟨_, stream, ?_, hstream, hspelt⟩
  change Except.ok (Text.join "\n" ["const " ++ Text.join ", " [rawName ++ (" = " ++ quote content)] ++
    ";", "export default " ++ rawName ++ ";"] ++ Text.ofString "\n") = _
  rw [join_singleton, join_cons_cons, join_singleton]
  simp only [List.append_assoc, List.cons_append]
  rfl

/-- **A quoted string denotes what was quoted.**  Wherever code is scanned, it is the next token
whatever follows, and the token decodes to the string.  So it does in a printed program, where each
string literal is written between quotes, and in a module that exports a text as it is. -/
theorem quote_denotes (value : Text) : (∀ modes offset rest, IsCode modes →
      Lexeme.scanFrom modes offset (quote value ++ rest) =
        ⟨.singleQuoted, quote value, offset⟩ ::
          Lexeme.scanFrom modes (offset + (quote value).length) rest) ∧
    decodeEscapes ((quote value).drop 1).dropLast = .ok value ∧
    (∀ depth role, Printer.expression depth role (.string value) = .ok (quote value)) ∧
    (∀ body, (∀ node ∈ body, ReadableStatement false node) →
      ∃ code, print (.program body) = .ok code ∧ parse code = .ok body) ∧
    ∃ module stream, Module.ofRawText value = .ok module ∧
      TokenStream.ofText module.code = .ok stream ∧
      spellings stream.tokens = rawTokens value := by
  refine ⟨fun modes offset rest hmodes => Lexeme.scanFrom_quote hmodes, ?_,
    fun depth role => by rw [Printer.expression], fun body => parse_print_program, ?_⟩
  · rw [show ((quote value).drop 1).dropLast = value.flatMap quotePoint from List.dropLast_concat]
    exact decodeEscapes_quote value
  · obtain ⟨code, stream, hprint, hstream, hspelt⟩ := exists_tokens_rawProgram value
    refine ⟨⟨[], Module.rawProgram value, code, [], [], [], []⟩, stream, ?_, hstream, hspelt⟩
    rw [Module.ofRawText, hprint]
    rfl

end Script

end ViewMarkup
