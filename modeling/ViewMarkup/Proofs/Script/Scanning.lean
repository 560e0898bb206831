import ViewMarkup.Proofs.Script.Escapes

/-!
# Scanning a text piece by piece

A text that is put together from pieces is scanned piece by piece, as long as no lexeme crosses
from one piece into the next.  Each piece ends with a token.

* `Scans` says which tokens a piece gives, wherever it stands, before what may follow it.
* `Scans.append` puts pieces together; the tokens of the first are known where the second is asked
  for.
* Below it, the pieces that are one token each.
-/

namespace ViewMarkup.Script

open List
open Lexeme (step code? scanFrom wordKind)

variable {newline : Bool} {modes modes' : List Mode} {text rest t : Text} {kind : LexemeKind}
  {follows : Text → Prop} {s : Symbol} {c : CodePoint}

/-- The tokens with some others before them. -/
def TokenStream.after (ts : List Token) (stream : TokenStream) : TokenStream :=
  { stream with tokens := ts ++ stream.tokens }

theorem TokenStream.after_after {ts us : List Token} {stream : TokenStream} :
    (stream.after us).after ts = stream.after (ts ++ us) := by
  simp [after]

/-- The tokens of the rest of a text.  The rest starts at `offset` and in given modes, and
`newline` says whether a line feed has been passed since the last token. -/
def tokensFrom (stop : Nat) (newline : Bool) (modes : List Mode) (offset : Nat) (t : Text) :
    Except SyntaxFault TokenStream :=
  TokenStream.ofLexemes stop newline (scanFrom modes offset t)

/-- A piece of a text gives some tokens wherever it stands in given modes before a rest that is let
through, and leaves other modes.  It ends with a token, so no line feed has been passed after it. -/
def Scans (newline : Bool) (modes : List Mode) (text : Text) (modes' : List Mode)
    (follows : Text → Prop) (tokens : List Token → Prop) : Prop :=
  ∀ stop offset rest, follows rest → ∃ ts, tokens ts ∧
    tokensFrom stop newline modes offset (text ++ rest) =
      (tokensFrom stop false modes' (offset + text.length) rest).map (TokenStream.after ts)

section
variable {newline : Bool} {modes modes' modes'' : List Mode} {text text' : Text}
  {follows follows' : Text → Prop} {tokens tokens' : List Token → Prop}

theorem Scans.mono (h : Scans newline modes text modes' follows tokens)
    (hfollows : ∀ rest, follows' rest → follows rest) (htokens : ∀ ts, tokens ts → tokens' ts) :
    Scans newline modes text modes' follows' tokens' := by
  intro stop offset rest hrest
  obtain ⟨ts, hts, heq⟩ := h stop offset rest (hfollows rest hrest)
  exact ⟨ts, htokens ts hts, heq⟩

theorem Scans.nil (h : tokens []) : Scans false modes [] modes follows tokens := by
  intro stop offset rest _
  refine ⟨[], h, ?_⟩
  cases heq : tokensFrom stop false modes offset rest <;> simp [heq, Except.map, TokenStream.after]

/-- **Pieces are scanned one after the other.** -/
theorem Scans.append (h : Scans newline modes text modes' follows tokens)
    (h' : ∀ ts, tokens ts → Scans false modes' text' modes'' follows' fun us => tokens' (ts ++ us))
    (hfollows : ∀ rest, follows' rest → follows (text' ++ rest)) :
    Scans newline modes (text ++ text') modes'' follows' tokens' := by
  intro stop offset rest hrest
  obtain ⟨ts, hts, heq⟩ := h stop offset (text' ++ rest) (hfollows rest hrest)
  obtain ⟨us, hus, heq'⟩ := h' ts hts stop (offset + text.length) rest hrest
  refine ⟨ts ++ us, hus, ?_⟩
  rw [append_assoc, heq, heq', length_append, Nat.add_assoc]
  cases tokensFrom stop false modes'' (offset + (text.length + text'.length)) rest with
  | error fault => rfl
  | ok stream => exact congrArg Except.ok TokenStream.after_after

end

/-! ### One token -/

/-- The scanner takes a lexeme that is a token. -/
theorem tokensFrom_token {stop offset : Nat} {token : TokenKind} (htext : text ≠ [])
    (hstep : step modes (text ++ rest) = (kind, text.length, modes'))
    (htoken : kind.token? = some token) : tokensFrom stop newline modes offset (text ++ rest) =
      (tokensFrom stop false modes' (offset + text.length) rest).map
        (TokenStream.after [⟨token, text, offset, newline⟩]) := by
  cases text with
  | nil => exact absurd rfl htext
  | cons c more =>
    rw [cons_append] at hstep
    rw [tokensFrom, cons_append, scanFrom, hstep]
    simp only [length_cons, Nat.add_sub_cancel, take_left, drop_left]
    rw [TokenStream.ofLexemes, htoken, tokensFrom]
    cases TokenStream.ofLexemes stop false _ <;> rfl

/-- One token of a given kind, spelled by the whole piece. -/
def OneToken (kind : TokenKind) (text : Text) (newline : Bool) (ts : List Token) : Prop :=
  ∃ offset, ts = [⟨kind, text, offset, newline⟩]

theorem Scans.token {token : TokenKind} (htext : text ≠ []) (hstep : ∀ rest, follows rest → ∃ kind,
      step modes (text ++ rest) = (kind, text.length, modes') ∧ kind.token? = some token) :
    Scans newline modes text modes' follows (OneToken token text newline) := by
  intro stop offset rest hrest
  obtain ⟨kind, hkind, htoken⟩ := hstep rest hrest
  exact ⟨_, ⟨offset, rfl⟩, tokensFrom_token htext hkind htoken⟩

/-- The scanner is in code, not in the text of a template literal. -/
def IsCode (modes : List Mode) : Prop :=
  modes.head? ≠ some .template

theorem step_code {n : Nat} (hmodes : IsCode modes)
    (h : code? t = some (kind, n)) (hbacktick : kind ≠ .backtick)
    (hopen : kind ≠ .symbol .braceOpen) (hclose : kind ≠ .symbol .braceClose) :
    step modes t = (kind, n, modes) := by
  unfold step
  split
  · exact absurd rfl hmodes
  · split <;> simp_all

section
variable {newline : Bool} {modes : List Mode}

/-- What may follow each kind of token, and the token. -/
theorem scans_symbol (hmodes : IsCode modes)
    (hfollows : ∀ rest, follows rest → Lexeme.SymbolEnds s rest) (hopen : s ≠ .braceOpen)
    (hclose : s ≠ .braceClose) :
    Scans newline modes s.spelling modes follows (OneToken (.symbol s) s.spelling newline) := by
  refine .token ?_ fun rest hrest => ⟨.symbol s, ?_, rfl⟩
  · obtain ⟨c, tail, hspelling, -⟩ := Lexeme.spelling_cons s
    simp [hspelling]
  · exact step_code hmodes (Lexeme.code?_symbol (hfollows rest hrest)) nofun (by simpa) (by simpa)

/-- Marks that are the same whatever follows. -/
def marks : List Symbol :=
  [.parenOpen, .parenClose, .bracketOpen, .bracketClose, .semicolon, .ellipsis, .increment,
    .decrement, .tilde]

theorem scans_mark (hmodes : IsCode modes) (hs : s ∈ marks) :
    Scans newline modes s.spelling modes (fun _ => True)
      (OneToken (.symbol s) s.spelling newline) := by
  have hclosed : ∀ s ∈ marks, Lexeme.isClosed s = true ∧ s ≠ .braceOpen ∧ s ≠ .braceClose := by
    decide +kernel
  obtain ⟨hclosed, hopen, hclose⟩ := hclosed s hs
  exact scans_symbol hmodes (fun rest _ => .closed hclosed rest) hopen hclose

/-- A text starts with a space. -/
def StartsSpace (rest : Text) : Prop :=
  rest.head? = some (.char ' ')

theorem scans_symbol_space (hmodes : IsCode modes) (hopen : s ≠ .braceOpen)
    (hclose : s ≠ .braceClose) :
    Scans newline modes s.spelling modes StartsSpace (OneToken (.symbol s) s.spelling newline) := by
  refine scans_symbol hmodes (fun rest hrest => ?_) hopen hclose
  obtain ⟨more, rfl⟩ := head?_eq_some_iff.mp hrest
  exact .space

/-- The kind of token that a word is. -/
def wordToken (word : Text) : TokenKind :=
  match Constant.ofText? word with
  | some c => .constant c
  | none =>
    match Keyword.ofText? word with
    | some k => .keyword k
    | none => .name

theorem scans_word {word : Text} (hmodes : IsCode modes) (hword : IsWord word) :
    Scans newline modes word modes Lexeme.EndsWord (OneToken (wordToken word) word newline) := by
  refine .token ?_ fun rest hrest => ⟨wordKind word, ?_, ?_⟩
  · rintro rfl
    cases hword
  · refine step_code hmodes (Lexeme.code?_word hword hrest) ?_ ?_ ?_ <;>
    · unfold wordKind
      split
      · nofun
      · split <;> nofun
  · unfold wordKind wordToken
    cases Constant.ofText? word with
    | some c => rfl
    | none => cases Keyword.ofText? word <;> rfl

theorem scans_number (hmodes : IsCode modes) (htext : IsNumeral text) :
    Scans newline modes text modes Lexeme.EndsNumber (OneToken .number text newline) := by
  refine .token ?_ fun rest hrest => ?_
  · rintro rfl
    obtain ⟨c, more, heq, -⟩ := htext.start
    cases heq
  · obtain ⟨kind, hcode, htoken⟩ := Lexeme.code?_number htext hrest
    refine ⟨kind, step_code hmodes hcode ?_ ?_ ?_, htoken⟩ <;>
    · rintro rfl
      cases htoken

theorem scans_quote {value : Text} (hmodes : IsCode modes) :
    Scans newline modes (quote value) modes (fun _ => True)
      (OneToken .string (quote value) newline) := by
  refine .token (by simp [quote, Text.ofString]) fun rest _ => ⟨.singleQuoted, ?_, rfl⟩
  exact step_code hmodes (Lexeme.code?_quote value) (by simp) (by simp) (by simp)

/-! ### Braces and template literals -/

/-- The modes between braces. -/
def withinBraces (modes : List Mode) : List Mode :=
  match modes with
  | [] => []
  | modes => .braced :: modes

theorem isCode_withinBraces : IsCode (withinBraces modes) := by
  cases modes <;> nofun

theorem scans_braceOpen (hmodes : IsCode modes) :
    Scans newline modes Symbol.braceOpen.spelling (withinBraces modes) (fun _ => True)
      (OneToken (.symbol .braceOpen) Symbol.braceOpen.spelling newline) := by
  refine .token nofun fun rest _ => ⟨.symbol .braceOpen, ?_, rfl⟩
  have hcode := Lexeme.code?_symbol (.closed (s := .braceOpen) (by decide +kernel) rest)
  unfold step
  split
  · exact absurd rfl hmodes
  · rw [hcode]
    cases modes <;> rfl

theorem scans_braceClose (hmodes : IsCode modes) :
    Scans newline (withinBraces modes) Symbol.braceClose.spelling modes (fun _ => True)
      (OneToken (.symbol .braceClose) Symbol.braceClose.spelling newline) := by
  refine .token nofun fun rest _ => ⟨.symbol .braceClose, ?_, rfl⟩
  have hcode := Lexeme.code?_symbol (.closed (s := .braceClose) (by decide +kernel) rest)
  cases modes with
  | nil | cons mode modes => simp only [withinBraces, step, hcode]

/-- The end of a substitution. -/
theorem scans_interpolationClose :
    Scans newline (.interpolation :: modes) Symbol.braceClose.spelling modes (fun _ => True)
      (OneToken .interpolationClose Symbol.braceClose.spelling newline) := by
  refine .token nofun fun rest _ => ⟨.interpolationClose, ?_, rfl⟩
  have hcode := Lexeme.code?_symbol (.closed (s := .braceClose) (by decide +kernel) rest)
  simp only [step, hcode]

/-- The start of a template literal. -/
theorem scans_backtickOpen (hmodes : IsCode modes) :
    Scans newline modes "`" (.template :: modes) (fun _ => True)
      (OneToken .backtick "`" newline) := by
  refine .token nofun fun rest _ => ⟨.backtick, ?_, rfl⟩
  unfold step
  split
  · exact absurd rfl hmodes
  · rfl

/-- The end of a template literal. -/
theorem scans_backtickClose :
    Scans newline (.template :: modes) "`" modes (fun _ => True) (OneToken .backtick "`" newline) :=
  .token nofun fun _ _ => ⟨.backtick, rfl, rfl⟩

/-- The start of a substitution. -/
theorem scans_interpolationOpen :
    Scans newline (.template :: modes) "$\x7b" (.interpolation :: .template :: modes)
      (fun _ => True) (OneToken .interpolationOpen "$\x7b" newline) :=
  .token nofun fun _ _ => ⟨.interpolationOpen, rfl, rfl⟩

theorem template?_chunk (h : Lexeme.chunk (t ++ rest) = t.length) (ht : t ≠ []) :
    Lexeme.template? (t ++ rest) = some (.chunk, t.length) := by
  have hpos : t.length ≠ 0 := by simpa using ht
  unfold Lexeme.template?
  split
  · next more heq =>
    rw [heq] at h
    exact absurd h.symm hpos
  · next more heq =>
    rw [heq] at h
    exact absurd h.symm hpos
  · rw [h]
    split
    · next hzero => exact absurd hzero hpos
    · next hsucc => rw [hsucc]

/-- The text of a template literal up to its end or to a substitution. -/
theorem scans_chunk (htext : text ≠ []) (hchunk : IsChunk text) :
    Scans newline (.template :: modes) text (.template :: modes) EndsChunk
      (OneToken .chunk text newline) := by
  refine .token htext fun rest hrest => ⟨.chunk, ?_, rfl⟩
  rw [step, template?_chunk (hchunk rest hrest) htext]

end

/-! ### White space -/

theorem take_drop_takeWhile {p : CodePoint → Bool} : t.take (t.takeWhile p).length = t.takeWhile p ∧
      t.drop (t.takeWhile p).length = t.dropWhile p := by
  induction t with
  | nil => exact ⟨rfl, rfl⟩
  | cons c t ih =>
    cases hc : p c with
    | false => simp [hc]
    | true => simp [hc, ih]

section
variable {stop offset : Nat} {newline : Bool} {modes : List Mode}

section

variable (hmodes : IsCode modes)
include hmodes

theorem step_blank (hc : c.isBlank = true) :
    step modes (c :: rest) = (.blank, Lexeme.run CodePoint.isBlank (c :: rest), modes) :=
  step_code hmodes (by rw [code?, if_pos hc]) nofun nofun nofun

/-- White space is passed as a whole. -/
theorem tokensFrom_dropWhile (t : Text) : tokensFrom stop newline modes offset t =
      tokensFrom stop (newline || (t.takeWhile CodePoint.isBlank).contains (.char '\n')) modes
        (offset + (t.takeWhile CodePoint.isBlank).length) (t.dropWhile CodePoint.isBlank) := by
  cases t with
  | nil => simp
  | cons c rest =>
    cases hc : c.isBlank with
    | false => simp [hc]
    | true =>
      have hlength : Lexeme.run CodePoint.isBlank (c :: rest) - 1 =
          (rest.takeWhile CodePoint.isBlank).length := by
        simp [Lexeme.run, hc]
      rw [tokensFrom, scanFrom, step_blank hmodes hc]
      dsimp only
      rw [hlength, take_drop_takeWhile.1, take_drop_takeWhile.2,
        takeWhile_cons_of_pos hc, dropWhile_cons_of_pos hc]
      rfl

/-- One blank is passed by itself. -/
theorem tokensFrom_blank (hc : c.isBlank = true)
    (rest : Text) : tokensFrom stop newline modes offset (c :: rest) =
      tokensFrom stop (newline || c == '\n') modes (offset + 1) rest := by
  rw [tokensFrom_dropWhile hmodes (c :: rest), tokensFrom_dropWhile hmodes rest,
    takeWhile_cons_of_pos hc, dropWhile_cons_of_pos hc, length_cons,
    contains_cons, Bool.or_assoc, Nat.add_assoc, Nat.add_comm _ 1, Bool.beq_comm]

theorem Scans.blank
    {tokens : List Token → Prop} (h : Scans newline modes text modes' follows tokens) :
    Scans newline modes (.char ' ' :: text) modes' follows tokens := by
  intro stop offset rest hrest
  obtain ⟨ts, hts, heq⟩ := h stop (offset + 1) rest hrest
  refine ⟨ts, hts, ?_⟩
  have hlength : offset + (CodePoint.char ' ' :: text).length = offset + 1 + text.length := by
    rw [length_cons]
    omega
  have hnewline : (newline || CodePoint.char ' ' == .char '\n') = newline := Bool.or_false newline
  rw [cons_append, tokensFrom_blank hmodes rfl, hlength, ← heq, hnewline]

end


end

end ViewMarkup.Script
