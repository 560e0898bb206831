import ViewMarkup.Proofs.Script.Phrases
import ViewMarkup.Proofs.Script.Scanning

/-!
# Printed expressions

The text that is printed for an expression is scanned into tokens that are read as the expression.

* `Spells` says this of a text and an operand of a given strength, wherever the text stands.
* `Prints` says that an expression is printed as a text that spells it.
* One lemma for each kind of expression leads to `Readable.prints`.
-/

namespace ViewMarkup.Script

open List
open Text (join)
open Parser hiding elements expression properties templateParts
open Printer (clashes elements expression expressions infixText needsSpace properties templateParts)

variable {rest name raw keyText mark : Text} {j strength : Nat} {e value key left right : Node}
  {kind : TokenKind} {dot' optional : Bool} {modes : List Mode} {y : Operand}
  {follows : Text → Prop} {es args quasis : List Node} {op : BinaryOp} {s : Symbol}
  {texts : List Text} {dot newline dot'' computed : Bool} {c : CodePoint} {ts : List Token}
  {tail cooked : Text} {tokens : List Token → Prop} {ps : List Node} {w : Keyword} {argument : Node}
  {i : Nat} {z : Operand}

/-! ### What may follow an expression -/

/-- The code points that may follow a printed expression. -/
def breaks : List CodePoint :=
  [.char ' ', .char '\n', .char ';', .char ')', .char ']', .char '\x7d', .char ',', .char ':',
    .char '?', .char '[', .char '(', .char '+', .char '-']

/-- What may follow a printed expression; `dot` says whether a dot may. -/
def Follows (dot : Bool) (rest : Text) : Prop :=
  ∀ c ∈ rest.head?, c ∈ breaks ∨ dot = true ∧ c = '.'

theorem Follows.cons (hc : c ∈ breaks) (rest : Text) : Follows dot (c :: rest) := by
  rintro d ⟨⟩
  exact .inl hc

theorem Follows.mono (h : Follows false rest) : Follows dot rest :=
  fun c hc => (h c hc).imp_right fun hdot => nomatch hdot.1

theorem Follows.endsWord (h : Follows dot rest) : Lexeme.EndsWord rest := by
  have hbreaks : ∀ c ∈ breaks, c.continuesIdentifier = false := by decide +kernel
  cases rest with
  | nil => rfl
  | cons c rest =>
    rcases h c rfl with hc | ⟨-, rfl⟩
    · exact hbreaks c hc
    · rfl

theorem Follows.endsNumber (h : Follows false rest) : Lexeme.EndsNumber rest := by
  have hbreaks : ∀ c ∈ breaks, c.isDigit = false ∧ c ≠ '.' := by decide +kernel
  refine ⟨h.endsWord, ?_, ?_⟩
  · cases rest with
    | nil => rfl
    | cons c rest =>
      rcases h c rfl with hc | ⟨hdot, -⟩
      · exact (hbreaks c hc).1
      · cases hdot
  · intro hhead
    rcases h _ hhead with hc | ⟨hdot, -⟩
    · exact (hbreaks _ hc).2 rfl
    · cases hdot

/-! ### Texts that spell an operand -/

/-- A text starts where its first token does.  It does not start with an equality sign, which would
go on with an operator before it. -/
def Begins (text : Text) (ts : List Token) : Prop :=
  ∃ c text' t ts', text = c :: text' ∧ ts = t :: ts' ∧ c ≠ '=' ∧
    (t.kind = .symbol .braceOpen → c = '\x7b')

theorem Begins.append {text : Text} (h : Begins text ts) {text' : Text}
    {ts' : List Token} : Begins (text ++ text') (ts ++ ts') := by
  obtain ⟨c, more, t, us, rfl, rfl, hc, hbrace⟩ := h
  exact ⟨c, more ++ text', t, us ++ ts', rfl, rfl, hc, hbrace⟩

/-- A text is scanned into tokens that are read as an operand of strength `k`. -/
def Spells (k : Nat) (x : Operand) (dot : Bool) (text : Text) : Prop :=
  ∀ newline modes, IsCode modes → Scans newline modes text modes (Follows dot) fun ts =>
    Phrase k x ts ∧ Begins text ts

variable {k : Nat} {x : Operand} {dot : Bool} {text : Text}

theorem Spells.weaken (h : Spells k x dot text) (hjk : j ≤ k) : Spells j x dot text :=
  fun newline modes hmodes => (h newline modes hmodes).mono (fun _ => id)
    fun _ hts => ⟨hts.1.weaken hjk, hts.2⟩

theorem Spells.noDot (h : Spells k x dot text) : Spells k x false text :=
  fun newline modes hmodes => (h newline modes hmodes).mono (fun _ => Follows.mono) fun _ => id

theorem Spells.parenthesized (h : Spells k x dot text) :
    Spells 20 ⟨x.node, true⟩ true text.parenthesized := by
  intro newline modes hmodes
  refine (scans_mark (s := .parenOpen) hmodes (by decide)).append ?_ fun _ _ => trivial
  rintro _ ⟨offset, rfl⟩
  refine (h false modes hmodes).append ?_ fun rest _ => .cons (by decide) rest
  rintro ts ⟨hts, -⟩
  refine (scans_mark (s := .parenClose) hmodes (by decide)).mono (fun _ _ => trivial) ?_
  rintro _ ⟨offset', rfl⟩
  exact ⟨phrase_parenthesized hts rfl rfl, _, _, _, _, rfl, rfl, by decide, nofun⟩

/-- Parentheses are put around an expression that binds weaker than asked. -/
theorem Spells.guarded (h : Spells (Printer.strength e) ⟨e, false⟩ dot text)
    (least : Nat) (hleast : least ≤ 20) : Spells least ⟨e, decide (Printer.strength e < least)⟩
      (dot || decide (Printer.strength e < least)) (Printer.guarded least e text) := by
  rw [Printer.guarded]
  by_cases hlt : Printer.strength e < least
  · rw [if_pos hlt, decide_eq_true hlt, Bool.or_true]
    exact h.parenthesized.weaken hleast
  · rw [if_neg hlt, decide_eq_false hlt, Bool.or_false]
    exact h.weaken (by omega)

/-! ### Literals and names -/

/-- A dot may follow an expression, to access a part of it. -/
def allowsDot (e : Node) : Bool :=
  decide (18 ≤ Printer.strength e) && !Printer.isNumber e

/-- An expression is printed as a text that spells it. -/
def Prints (e : Node) : Prop :=
  ∃ text, (∀ depth, expression depth .plain e = .ok text) ∧
    Spells (Printer.strength e) ⟨e, false⟩ (allowsDot e) text

/-- No dot has to follow an expression that would get parentheses there. -/
theorem Prints.of_weak (hprint : ∀ depth, expression depth .plain e = .ok text)
    (hstrength : Printer.strength e = k) (hk : k < 18) (h : Spells k ⟨e, false⟩ false text) :
    Prints e := by
  refine ⟨text, hprint, ?_⟩
  have hdot : allowsDot e = false := by
    rw [allowsDot, decide_eq_false (by omega), Bool.false_and]
  rw [hdot, hstrength]
  exact h

theorem IsWord.begins {word : Text} (h : IsWord word)
    (hts : OneToken kind word newline ts) (hkind : kind ≠ .symbol .braceOpen) : Begins word ts := by
  obtain ⟨offset, rfl⟩ := hts
  cases word with
  | nil => cases h
  | cons c more =>
    refine ⟨c, more, _, _, rfl, rfl, ?_, fun h => absurd h hkind⟩
    rintro rfl
    exact absurd h.1 (by decide)

theorem IsName.wordToken (h : IsName name) : wordToken name = .name := by
  rw [Script.wordToken, h.constant, h.keyword]

theorem Spells.word {word : Text} (hword : IsWord word)
    (hkind : wordToken word ≠ .symbol .braceOpen)
    (h : ∀ offset newline, Phrase 20 ⟨e, false⟩ [⟨wordToken word, word, offset, newline⟩]) :
    Spells 20 ⟨e, false⟩ dot word := by
  intro newline modes hmodes
  refine (scans_word hmodes hword).mono (fun _ => Follows.endsWord) ?_
  intro ts hts
  refine ⟨?_, hword.begins hts hkind⟩
  obtain ⟨offset, rfl⟩ := hts
  exact h offset newline

theorem prints_identifier (h : IsName name) : Prints (.identifier name) := by
  refine ⟨name, fun depth => expression_identifier, .word h.word ?_ fun offset newline => ?_⟩
  · rw [h.wordToken]
    nofun
  · rw [h.wordToken]
    exact phrase_name (t := ⟨.name, name, offset, newline⟩) rfl

theorem prints_boolean {value : Bool} : Prints (.boolean value) := by
  refine ⟨_, fun depth => rfl, ?_⟩
  cases value with
  | true => exact .word (by decide) (by decide) fun _ _ => phrase_constant (c := .true) rfl
  | false => exact .word (by decide) (by decide) fun _ _ => phrase_constant (c := .false) rfl

theorem prints_null : Prints .null :=
  ⟨_, fun depth => rfl,
    .word (by decide) (by decide) fun _ _ => phrase_constant (c := .null) rfl⟩

theorem prints_this : Prints .this :=
  ⟨_, fun depth => rfl,
    .word (by decide) (by decide) fun _ _ => phrase_this rfl⟩

theorem prints_string {value : Text} : Prints (.string value) := by
  refine ⟨quote value, fun depth => rfl, fun newline modes hmodes => ?_⟩
  refine (scans_quote hmodes).mono (fun _ _ => trivial) ?_
  rintro _ ⟨offset, rfl⟩
  exact ⟨phrase_string rfl (stringValue_quote value), _, _, _, _, rfl, rfl, by decide, nofun⟩

theorem prints_number {value : Number} {raw : Option Text} (h : IsNumber value raw) :
    Prints (.number value raw) := by
  obtain ⟨text, rfl, hnumeral, hvalue⟩ := h
  refine ⟨text, fun depth => rfl, fun newline modes hmodes => ?_⟩
  refine (scans_number hmodes hnumeral).mono (fun _ => Follows.endsNumber) ?_
  rintro _ ⟨offset, rfl⟩
  obtain ⟨c, more, rfl, -⟩ := hnumeral.start
  obtain ⟨rest, kind, hscanned⟩ := hnumeral.scanned
  refine ⟨phrase_number (t := ⟨.number, c :: more, offset, newline⟩) rfl hvalue, c, more, _, _, rfl,
    rfl, ?_, nofun⟩
  rintro rfl
  exact absurd (Lexeme.head_of_number? hscanned) (by decide)

/-! ### Accesses and calls -/

theorem isWordKind_wordToken (word : Text) : isWordKind (wordToken word) = true := by
  unfold wordToken
  split
  · rfl
  · split <;> rfl

theorem Spells.part (h : Spells k x true text) (hk : 18 ≤ k) (hname : IsWord name) :
    Spells 18 ⟨.member x.node (.identifier name) false false, false⟩ dot (text ++ "." ++ name) := by
  intro newline modes hmodes
  rw [append_assoc]
  refine (h newline modes hmodes).append ?_ fun rest _ => ?_
  · rintro ts ⟨hts, hbegins⟩
    refine (scans_symbol (s := .dot) hmodes (fun _ => id) nofun nofun).append ?_
      fun rest _ => .word (.inl rfl) hname rest
    rintro _ ⟨offset, rfl⟩
    refine (scans_word hmodes hname).mono (fun _ => Follows.endsWord) ?_
    rintro _ ⟨offset', rfl⟩
    exact ⟨phrase_part (w := ⟨_, name, offset', false⟩) hts hk rfl (isWordKind_wordToken name),
      hbegins.append⟩
  · rintro c ⟨⟩
    exact .inr ⟨rfl, rfl⟩

/-- What follows an operand and goes with it. -/
theorem Spells.followedBy (h : Spells k x dot text) (hnext : ∀ rest, Follows dot (tail ++ rest))
    (htail : ∀ modes, IsCode modes → Scans false modes tail modes (Follows dot') tokens)
    (hphrase : ∀ ts us, Phrase k x ts → tokens us → Phrase j y (ts ++ us)) :
    Spells j y dot' (text ++ tail) := by
  intro newline modes hmodes
  refine (h newline modes hmodes).append ?_ fun rest _ => hnext rest
  rintro ts ⟨hts, hbegins⟩
  exact (htail modes hmodes).mono (fun _ => id) fun us hus =>
    ⟨hphrase ts us hts hus, hbegins.append⟩

/-- A question mark and a dot, and what follows them. -/
theorem Scans.afterOptionalDot (hmodes : IsCode modes)
    (hnext : ∀ rest, Lexeme.SymbolEnds .optionalDot (tail ++ rest))
    (htail : Scans false modes tail modes follows tokens) :
    Scans false modes ("?." ++ tail) modes follows fun ts =>
      ∃ t us, ts = t :: us ∧ t.kind = .symbol .optionalDot ∧ tokens us := by
  refine (scans_symbol (s := .optionalDot) hmodes (fun _ => id) nofun nofun).append ?_
    fun rest _ => hnext rest
  rintro _ ⟨offset, rfl⟩
  exact htail.mono (fun _ => id) fun us hus => ⟨_, us, rfl, rfl, hus⟩

theorem Spells.optionalPart (h : Spells k x dot text) (hk : 18 ≤ k) (hname : IsWord name) :
    Spells 18 ⟨.member x.node (.identifier name) false true, false⟩ dot' (text ++ "?." ++ name) := by
  rw [append_assoc]
  refine h.followedBy (fun _ => .cons (by decide) _) (fun modes hmodes => .afterOptionalDot hmodes
    (.word (.inr rfl) hname) ((scans_word hmodes hname).mono (fun _ => Follows.endsWord) fun _ => id)) ?_
  rintro ts _ hts ⟨t, _, rfl, ht, offset, rfl⟩
  exact phrase_optionalPart (w := ⟨_, name, offset, false⟩) hts hk ht (isWordKind_wordToken name)

/-- A key between brackets. -/
theorem Spells.bracketed (h : Spells k y dot text) (hmodes : IsCode modes) :
    Scans false modes ("[" ++ text ++ "]") modes (Follows dot') fun ts =>
      ∃ left us right, ts = left :: (us ++ [right]) ∧ left.kind = .symbol .bracketOpen ∧
        Phrase k y us ∧ right.kind = .symbol .bracketClose := by
  refine (scans_mark (s := .bracketOpen) hmodes (by decide)).append ?_ fun _ _ => trivial
  rintro _ ⟨offset, rfl⟩
  refine (h false modes hmodes).append ?_ fun rest _ => .cons (by decide) rest
  rintro ts ⟨hts, -⟩
  refine (scans_mark (s := .bracketClose) hmodes (by decide)).mono (fun _ _ => trivial) ?_
  rintro _ ⟨offset', rfl⟩
  exact ⟨_, ts, _, rfl, rfl, hts, rfl⟩

theorem Spells.index (h : Spells k x dot text) (hk : 18 ≤ k) (hkey : Spells j y dot' keyText) :
    Spells 18 ⟨.member x.node y.node true false, false⟩ dot''
      (text ++ ("[" ++ keyText ++ "]")) := by
  refine h.followedBy (fun _ => .cons (by decide) _) (fun _ => hkey.bracketed) ?_
  rintro ts _ hts ⟨left, us, right, rfl, hleft, hus, hright⟩
  exact phrase_index hts hk hus hleft hright

theorem Spells.optionalIndex (h : Spells k x dot text) (hk : 18 ≤ k)
    (hkey : Spells j y dot' keyText) : Spells 18 ⟨.member x.node y.node true true, false⟩ dot''
      (text ++ ("?." ++ ("[" ++ keyText ++ "]"))) := by
  refine h.followedBy (fun _ => .cons (by decide) _) (fun modes hmodes =>
    .afterOptionalDot hmodes (fun _ => .optionalDot (by decide)) (hkey.bracketed hmodes)) ?_
  rintro ts _ hts ⟨t, _, rfl, ht, left, us, right, rfl, hleft, hus, hright⟩
  exact phrase_optionalIndex hts hk hus ht hleft hright

/-- The object of an access by name: a number would take the dot. -/
theorem Spells.object {object : Node}
    (h : Spells (Printer.strength object) ⟨object, false⟩ (allowsDot object) text) :
    ∃ parenthesized, Spells 18 ⟨object, parenthesized⟩ true
      (if Printer.isNumber object then (Printer.guarded 18 object text).parenthesized
        else Printer.guarded 18 object text) := by
  have hguarded := h.guarded 18 (by omega)
  cases hnumber : Printer.isNumber object with
  | true => exact ⟨true, hguarded.parenthesized.weaken (by omega)⟩
  | false =>
    have hdot : (allowsDot object || decide (Printer.strength object < 18)) = true := by
      simp only [allowsDot, hnumber, Bool.or_eq_true, Bool.and_eq_true, decide_eq_true_eq,
        Bool.not_false, and_true]
      omega
    rw [hdot] at hguarded
    exact ⟨_, hguarded⟩

theorem prints_part {object : Node} (hobject : Prints object) (hname : IsWord name) :
    Prints (.member object (.identifier name) false optional) := by
  obtain ⟨text, hprint, hspells⟩ := hobject
  cases optional with
  | true =>
    refine ⟨Printer.guarded 18 object text ++ "?." ++ name, fun depth => ?_,
      (hspells.guarded 18 (by omega)).optionalPart (Nat.le_refl 18) hname⟩
    rw [expression, hprint depth]
    simp only [Bool.not_true, Bool.and_false]
    rfl
  | false =>
    obtain ⟨parenthesized, hobject⟩ := hspells.object
    refine ⟨_, fun depth => ?_, hobject.part (Nat.le_refl 18) hname⟩
    rw [expression, hprint depth]
    simp only [Bool.not_false, Bool.and_true]
    rfl

theorem prints_index {object : Node} (hobject : Prints object) (hkey : Prints key) :
    Prints (.member object key true optional) := by
  obtain ⟨text, hprint, hspells⟩ := hobject
  obtain ⟨keyText, hprintKey, hspellsKey⟩ := hkey
  have hguarded := hspells.guarded 18 (by omega)
  cases optional with
  | true =>
    refine ⟨_, fun depth => ?_, hguarded.optionalIndex (Nat.le_refl 18) hspellsKey⟩
    rw [expression, hprint depth]
    simp [hprintKey depth, bind, Except.bind, pure, Except.pure]
  | false =>
    refine ⟨_, fun depth => ?_, hguarded.index (Nat.le_refl 18) hspellsKey⟩
    rw [expression, hprint depth]
    simp [hprintKey depth, bind, Except.bind, pure, Except.pure, Text.ofString]

/-! ### Lists between brackets -/

theorem join_cons_cons (mark first second : Text) (others : List Text) :
    join mark (first :: second :: others) =
      first ++ (mark ++ join mark (second :: others)) := by
  simp [join]

theorem join_singleton (mark first : Text) : join mark [first] = first := by
  simp [join]

/-- An argument or an element is printed as a text that spells it. -/
def PrintsItem (e : Node) : Prop :=
  ∃ text, (∀ depth, expression depth .plain e = .ok text) ∧
    ∀ newline modes, IsCode modes →
      Scans newline modes (Printer.guarded 2 e text) modes (Follows false) (ReadsItem e)

theorem Prints.item (h : Prints e) : PrintsItem e := by
  obtain ⟨text, hprint, hspells⟩ := h
  refine ⟨text, hprint, fun newline modes hmodes => ?_⟩
  exact (hspells.guarded 2 (by omega) newline modes hmodes).mono (fun _ => Follows.mono)
    fun ts hts => hts.1.item (Nat.le_refl 2)

theorem Prints.spread (h : Prints e) : PrintsItem (.spread e) := by
  obtain ⟨text, hprint, hspells⟩ := h
  refine ⟨"..." ++ Printer.guarded 2 e text, fun depth => ?_, fun newline modes hmodes => ?_⟩
  · rw [expression, hprint depth]
    rfl
  · have hguarded := hspells.guarded 2 (by omega) false modes hmodes
    refine (scans_mark (s := .ellipsis) hmodes (by decide)).append ?_ fun _ _ => trivial
    rintro _ ⟨offset, rfl⟩
    refine hguarded.mono (fun _ => Follows.mono) fun ts hts => ?_
    exact hts.1.spread (Nat.le_refl 2) rfl

/-- A comma and a space, and what follows them. -/
theorem Scans.afterComma {modes' : List Mode} (hmodes : IsCode modes)
    (h : ∀ t : Token, t.kind = .symbol .comma →
      Scans false modes text modes' follows fun ts => tokens (t :: ts)) :
    Scans false modes (", " ++ text) modes' follows tokens := by
  refine (scans_symbol_space (s := .comma) hmodes nofun nofun).append ?_ fun _ _ => rfl
  rintro _ ⟨offset, rfl⟩
  exact (h _ rfl).blank hmodes

/-- A text spells the arguments of a call, with the closing parenthesis. -/
def SpellsArguments (args : List Node) (text : Text) : Prop :=
  ∀ modes, IsCode modes → Scans false modes text modes (fun _ => True) (ReadsArguments args)

theorem prints_arguments (h : ∀ e ∈ es, PrintsItem e) :
    ∃ texts, (∀ depth, expressions depth es = .ok texts) ∧ texts.length = es.length ∧
      SpellsArguments es (join ", " texts ++ ")") := by
  induction es with
  | nil =>
    refine ⟨[], fun depth => by rw [expressions], rfl, fun modes hmodes => ?_⟩
    refine (scans_mark (s := .parenClose) hmodes (by decide)).mono (fun _ => id) ?_
    rintro _ ⟨offset, rfl⟩
    exact .nil rfl
  | cons e es ih =>
    obtain ⟨text, hprint, hscans⟩ := h e mem_cons_self
    obtain ⟨texts, hprints, hlength, hrest⟩ := ih fun e' he' => h e' (mem_cons_of_mem e he')
    refine ⟨Printer.guarded 2 e text :: texts, fun depth => ?_, by simp [hlength],
      fun modes hmodes => ?_⟩
    · rw [expressions, hprint depth, hprints depth]
      rfl
    · cases texts with
      | nil =>
        obtain rfl := length_eq_zero_iff.mp hlength.symm
        rw [join_singleton]
        refine (hscans false modes hmodes).append (fun ts hts => ?_)
          fun rest _ => .cons (by decide) _
        refine (scans_mark (s := .parenClose) hmodes (by decide)).mono (fun _ => id) ?_
        rintro _ ⟨offset, rfl⟩
        exact .last hts rfl
      | cons second others =>
        rw [join_cons_cons, append_assoc, append_assoc]
        refine (hscans false modes hmodes).append (fun ts hts => ?_)
          fun rest _ => .cons (by decide) _
        refine .afterComma hmodes fun t ht => ?_
        exact (hrest modes hmodes).mono (fun _ => id) fun us hus => .cons hts ht hus

/-- The arguments between parentheses. -/
theorem SpellsArguments.parenthesized (h : SpellsArguments args text) (hmodes : IsCode modes) :
    Scans false modes ("(" ++ text) modes (Follows dot) fun ts =>
      ∃ left us, ts = left :: us ∧ left.kind = .symbol .parenOpen ∧ ReadsArguments args us := by
  refine (scans_mark (s := .parenOpen) hmodes (by decide)).append ?_ fun _ _ => trivial
  rintro _ ⟨offset, rfl⟩
  exact (h modes hmodes).mono (fun _ _ => trivial) fun us hus => ⟨_, us, rfl, rfl, hus⟩

section
variable {args : List Node} {argsText : Text} {dot' : Bool}

section

variable (h : Spells k x dot text) (hk : 18 ≤ k) (hargs : SpellsArguments args argsText)
include h hk hargs

theorem Spells.call :
    Spells 18 ⟨.call x.node args false, false⟩ dot' (text ++ ("(" ++ argsText)) := by
  refine h.followedBy (fun _ => .cons (by decide) _) (fun _ => hargs.parenthesized) ?_
  rintro ts _ hts ⟨left, us, rfl, hleft, hus⟩
  exact phrase_call hts hk hus hleft

theorem Spells.optionalCall :
    Spells 18 ⟨.call x.node args true, false⟩ dot' (text ++ ("?." ++ ("(" ++ argsText))) := by
  refine h.followedBy (fun _ => .cons (by decide) _) (fun modes hmodes =>
    .afterOptionalDot hmodes (fun _ => .optionalDot (by decide)) (hargs.parenthesized hmodes)) ?_
  rintro ts _ hts ⟨t, _, rfl, ht, left, us, rfl, hleft, hus⟩
  exact phrase_optionalCall hts hk hus ht hleft

end

theorem Spells.new (h : Spells k x dot text) (hk : 18 ≤ k) (hcallee : isCallee x = true)
    (hargs : SpellsArguments args argsText) :
    Spells 18 ⟨.new x.node args, false⟩ dot' ("new " ++ (text ++ ("(" ++ argsText))) := by
  intro newline modes hmodes
  have hword : IsWord (Text.ofString "new") := by decide
  refine (scans_word hmodes hword).append ?_ fun _ _ => rfl
  rintro _ ⟨offset, rfl⟩
  refine .blank hmodes ((h false modes hmodes).append ?_ fun rest _ => .cons (by decide) _)
  rintro ts ⟨hts, -⟩
  refine (hargs.parenthesized hmodes).mono (fun _ => id) ?_
  rintro _ ⟨left, us, rfl, hleft, hus⟩
  exact ⟨(phrase_new hts hk hcallee hus rfl hleft).weaken (by omega), _, _, _, _, rfl, rfl,
    by decide, nofun⟩

end

section

variable {callee : Node} (hcallee : Prints callee) (hargs : ∀ e ∈ args, PrintsItem e)
include hcallee hargs

theorem prints_call : Prints (.call callee args optional) := by
  obtain ⟨text, hprint, hspells⟩ := hcallee
  obtain ⟨texts, hprints, -, hspellsArgs⟩ := prints_arguments hargs
  have hguarded := hspells.guarded 18 (by omega)
  cases optional with
  | false =>
    refine ⟨_, fun depth => ?_, hguarded.call (Nat.le_refl 18) hspellsArgs⟩
    rw [expression, hprint depth, hprints depth]
    simp [bind, Except.bind, pure, Except.pure, Text.ofString]
  | true =>
    refine ⟨_, fun depth => ?_, hguarded.optionalCall (Nat.le_refl 18) hspellsArgs⟩
    rw [expression, hprint depth, hprints depth]
    simp [bind, Except.bind, pure, Except.pure]

theorem prints_new : Prints (.new callee args) := by
  obtain ⟨text, hprint, hspells⟩ := hcallee
  obtain ⟨texts, hprints, -, hspellsArgs⟩ := prints_arguments hargs
  have hguarded := hspells.guarded 18 (by omega)
  cases hplain : Printer.isPlainCallee callee with
  | true =>
    have hcallee : isCallee ⟨callee, decide (Printer.strength callee < 18)⟩ = true := by
      simp [isCallee, hplain]
    refine ⟨_, fun depth => ?_, hguarded.new (Nat.le_refl 18) hcallee hspellsArgs⟩
    rw [expression, hprint depth, hprints depth]
    simp [bind, Except.bind, pure, Except.pure, hplain]
  | false =>
    refine ⟨_, fun depth => ?_, (hguarded.parenthesized).new (by omega) rfl hspellsArgs⟩
    rw [expression, hprint depth, hprints depth]
    simp [bind, Except.bind, pure, Except.pure, hplain]

end

/-! ### Arrays -/

/-- An element of an array: one that is left out, or one that is printed. -/
def PrintsElement (e : Node) : Prop :=
  e = .hole ∨ PrintsItem e

theorem PrintsItem.ne_hole (h : PrintsItem e) : e ≠ .hole := by
  rintro rfl
  obtain ⟨text, hprint, -⟩ := h
  have hfault := hprint 0
  simp [expression] at hfault

/-- A text spells the elements of an array, with the closing bracket. -/
def SpellsElements (es : List Node) (text : Text) : Prop :=
  ∀ modes, IsCode modes → Scans false modes text modes (fun _ => True) (ReadsElements es)

theorem prints_elements (h : ∀ e ∈ es, PrintsElement e) :
    ∃ texts, (∀ depth, elements depth es = .ok texts) ∧
      (texts = [] ↔ es = []) ∧ SpellsElements es (join ", " texts ++ "]") := by
  induction es with
  | nil =>
    refine ⟨[], fun depth => by rw [elements], by simp, fun modes hmodes => ?_⟩
    refine (scans_mark (s := .bracketClose) hmodes (by decide)).mono (fun _ => id) ?_
    rintro _ ⟨offset, rfl⟩
    exact .nil rfl
  | cons e es ih =>
    obtain ⟨texts, hprints, hempty, hrest⟩ := ih fun e' he' => h e' (mem_cons_of_mem e he')
    rcases h e mem_cons_self with rfl | hitem
    · -- A hole at the end is followed by an empty text, for one more comma.
      refine ⟨[] :: (if es.isEmpty then [[]] else texts), fun depth => ?_, by simp,
        fun modes hmodes => ?_⟩
      · rw [elements, hprints depth]
        rfl
      · have hjoin : join ", " ([] :: (if es.isEmpty then [[]] else texts)) ++ "]" =
            ", " ++ (join ", " texts ++ "]") := by
          cases texts with
          | nil =>
            obtain rfl := hempty.mp rfl
            rfl
          | cons second others =>
            have hes : es ≠ [] := fun hes => nomatch hempty.mpr hes
            rw [if_neg (by simpa using hes), join_cons_cons]
            simp
        rw [hjoin]
        refine .afterComma hmodes fun t ht => ?_
        exact (hrest modes hmodes).mono (fun _ => id) fun us hus => .hole ht hus
    · have hne := hitem.ne_hole
      obtain ⟨text, hprint, hscans⟩ := hitem
      refine ⟨Printer.guarded 2 e text :: texts, fun depth => ?_, by simp, fun modes hmodes => ?_⟩
      · rw [elements, hprint depth, hprints depth]
        · rfl
        · exact hne
      · cases texts with
        | nil =>
          obtain rfl := hempty.mp rfl
          rw [join_singleton]
          refine (hscans false modes hmodes).append (fun ts hts => ?_)
            fun rest _ => .cons (by decide) _
          refine (scans_mark (s := .bracketClose) hmodes (by decide)).mono (fun _ => id) ?_
          rintro _ ⟨offset, rfl⟩
          exact .last hts rfl
        | cons second others =>
          rw [join_cons_cons, append_assoc, append_assoc]
          refine (hscans false modes hmodes).append (fun ts hts => ?_)
            fun rest _ => .cons (by decide) _
          refine .afterComma hmodes fun t ht => ?_
          exact (hrest modes hmodes).mono (fun _ => id) fun us hus => .cons hts ht hus

theorem prints_array {items : List Node} (h : ∀ e ∈ items, PrintsElement e) :
    Prints (.array items) := by
  obtain ⟨texts, hprints, -, hspells⟩ := prints_elements h
  refine ⟨"[" ++ (join ", " texts ++ "]"), fun depth => ?_, fun newline modes hmodes => ?_⟩
  · rw [expression, hprints depth]
    simp [bind, Except.bind, pure, Except.pure]
  · refine (scans_mark (s := .bracketOpen) hmodes (by decide)).append ?_ fun _ _ => trivial
    rintro _ ⟨offset, rfl⟩
    refine (hspells modes hmodes).mono (fun _ _ => trivial) fun ts hts => ?_
    exact ⟨phrase_array rfl hts, _, _, _, _, rfl, rfl, by decide, by simp⟩

/-! ### Objects -/

/-- A property is printed as a text that spells it. -/
def PrintsProperty (p : Node) : Prop :=
  ∃ text, (∀ depth, Printer.property depth p = .ok text) ∧
    ∀ modes, IsCode modes → Scans false modes text modes (Follows false) fun ts =>
      ReadsProperty p ts

/-- A text spells the key of a property. -/
def SpellsKey (key : Node) (computed : Bool) (text : Text) : Prop :=
  ∀ modes, IsCode modes → Scans false modes text modes (Follows false) (ReadsKey key computed)

/-- A key without brackets is printed as a text that spells it. -/
theorem IsPlainKey.prints (h : IsPlainKey key) :
    ∃ text, (∀ depth, expression depth .plain key = .ok text) ∧ SpellsKey key false text := by
  cases h with
  | @word name hname =>
    refine ⟨name, fun depth => expression_identifier, fun modes hmodes => ?_⟩
    refine (scans_word hmodes hname).mono (fun _ => Follows.endsWord) ?_
    rintro _ ⟨offset, rfl⟩
    exact ReadsKey.word (t := ⟨wordToken name, name, offset, false⟩) (isWordKind_wordToken name)
  | string value =>
    refine ⟨quote value, fun depth => rfl, fun modes hmodes => ?_⟩
    refine (scans_quote hmodes).mono (fun _ _ => trivial) ?_
    rintro _ ⟨offset, rfl⟩
    exact .string rfl (stringValue_quote value)
  | number hnumber =>
    obtain ⟨text, rfl, hnumeral, hvalue⟩ := hnumber
    refine ⟨text, fun depth => rfl, fun modes hmodes => ?_⟩
    refine (scans_number hmodes hnumeral).mono (fun _ => Follows.endsNumber) ?_
    rintro _ ⟨offset, rfl⟩
    exact ReadsKey.number (t := ⟨.number, text, offset, false⟩) rfl hvalue

/-- A key, a colon and a value. -/
theorem SpellsKey.named (hkey : SpellsKey key computed keyText)
    (h : Spells k x dot text) (hk : 2 ≤ k) (hmodes : IsCode modes) :
    Scans false modes (keyText ++ (": " ++ text)) modes (Follows false)
      (ReadsProperty (.property key x.node computed false)) := by
  refine (hkey modes hmodes).append (fun ts hts => ?_) fun rest _ => .cons (by decide) _
  refine (scans_symbol_space (s := .colon) hmodes nofun nofun).append ?_ fun _ _ => rfl
  rintro _ ⟨offset, rfl⟩
  refine .blank hmodes ((h false modes hmodes).mono (fun _ => Follows.mono) fun us hus => ?_)
  exact .named hts rfl hus.1 hk

theorem Prints.not_default (h : Prints e) : Printer.isDefault e = false := by
  obtain ⟨text, hprint, -⟩ := h
  have hok := hprint 0
  cases e with
  | assignmentPattern left right => simp [expression] at hok
  | _ => rfl

/-- A property with a value of its own is printed through its key and its value. -/
theorem property_eq {depth : Nat} {valueText : Text}
    (hkey : expression depth .plain key = .ok keyText)
    (hvalue : expression depth .plain value = .ok valueText)
    (hdefault : Printer.isDefault value = false) :
    Printer.property depth (.property key value computed false) =
      .ok ((if computed then "[" ++ Printer.guarded 2 key keyText ++ "]" else keyText) ++
        (": " ++ Printer.guarded 2 value valueText)) := by
  rw [Printer.property, hkey, hdefault]
  · simp [hvalue, bind, Except.bind, pure, Except.pure]
  · nofun

theorem prints_named (hkey : IsPlainKey key) (hvalue : Prints value) :
    PrintsProperty (.property key value false false) := by
  have hdefault := hvalue.not_default
  obtain ⟨keyText, hprintKey, hspellsKey⟩ := hkey.prints
  obtain ⟨text, hprint, hspells⟩ := hvalue
  refine ⟨_, fun depth => property_eq (hprintKey depth) (hprint depth) hdefault,
    fun modes hmodes => ?_⟩
  exact hspellsKey.named (hspells.guarded 2 (by omega)) (Nat.le_refl 2) hmodes

theorem prints_computed (hkey : Prints key) (hvalue : Prints value) :
    PrintsProperty (.property key value true false) := by
  have hdefault := hvalue.not_default
  obtain ⟨keyText, hprintKey, hspellsKey⟩ := hkey
  obtain ⟨text, hprint, hspells⟩ := hvalue
  have hkey : SpellsKey key true ("[" ++ Printer.guarded 2 key keyText ++ "]") := by
    intro modes hmodes
    refine ((hspellsKey.guarded 2 (by omega)).bracketed hmodes).mono (fun _ => id) ?_
    rintro _ ⟨left, us, right, rfl, hleft, hus, hright⟩
    exact .computed hus (Nat.le_refl 2) hleft hright
  refine ⟨_, fun depth => property_eq (hprintKey depth) (hprint depth) hdefault,
    fun modes hmodes => ?_⟩
  exact hkey.named (hspells.guarded 2 (by omega)) (Nat.le_refl 2) hmodes

theorem prints_abbreviated (h : IsName name) :
    PrintsProperty (.property (.identifier name) (.identifier name) false true) := by
  refine ⟨name, fun depth => by rw [Printer.property], fun modes hmodes => ?_⟩
  refine (scans_word hmodes h.word).mono (fun _ => Follows.endsWord) ?_
  rintro _ ⟨offset, rfl⟩
  rw [h.wordToken]
  exact ReadsProperty.abbreviated (t := ⟨.name, name, offset, false⟩) rfl

theorem prints_rest (h : Prints e) : PrintsProperty (.spread e) := by
  obtain ⟨text, hprint, hspells⟩ := h
  refine ⟨"..." ++ Printer.guarded 2 e text, fun depth => ?_, fun modes hmodes => ?_⟩
  · rw [Printer.property, hprint depth]
    rfl
  · refine (scans_mark (s := .ellipsis) hmodes (by decide)).append ?_ fun _ _ => trivial
    rintro _ ⟨offset, rfl⟩
    refine (hspells.guarded 2 (by omega) false modes hmodes).mono (fun _ => Follows.mono) ?_
    exact fun ts hts => .spread hts.1 (Nat.le_refl 2) rfl

theorem prints_properties (h : ∀ p ∈ ps, PrintsProperty p) :
    ∃ texts, (∀ depth, properties depth ps = .ok texts) ∧ texts.length = ps.length ∧
      (ps ≠ [] → ∀ modes, IsCode modes → Scans false (withinBraces modes)
        (join ", " texts ++ " \x7d") modes (fun _ => True) (ReadsProperties ps)) := by
  induction ps with
  | nil => exact ⟨[], fun depth => by rw [properties], rfl, fun hne => absurd rfl hne⟩
  | cons p ps ih =>
    obtain ⟨text, hprint, hscans⟩ := h p mem_cons_self
    obtain ⟨texts, hprints, hlength, hrest⟩ := ih fun p' hp' => h p' (mem_cons_of_mem p hp')
    refine ⟨text :: texts, fun depth => ?_, by simp [hlength], fun _ modes hmodes => ?_⟩
    · rw [properties, hprint depth, hprints depth]
      rfl
    · have hscans := hscans (withinBraces modes) isCode_withinBraces
      cases texts with
      | nil =>
        obtain rfl := length_eq_zero_iff.mp hlength.symm
        rw [join_singleton]
        refine hscans.append (fun ts hts => ?_) fun rest _ => .cons (by decide) _
        refine .blank isCode_withinBraces ((scans_braceClose hmodes).mono (fun _ => id) ?_)
        rintro _ ⟨offset, rfl⟩
        exact .last hts rfl
      | cons second others =>
        have hne : ps ≠ [] := by
          rintro rfl
          cases hlength
        rw [join_cons_cons, append_assoc, append_assoc]
        refine hscans.append (fun ts hts => ?_) fun rest _ => .cons (by decide) _
        refine .afterComma isCode_withinBraces fun t ht => ?_
        exact (hrest hne modes hmodes).mono (fun _ => id) fun us hus => .cons hts ht hus

theorem prints_object (h : ∀ p ∈ ps, PrintsProperty p) : Prints (.object ps) := by
  obtain ⟨texts, hprints, hlength, hscans⟩ := prints_properties h
  refine ⟨Printer.braced texts, fun depth => ?_, fun newline modes hmodes => ?_⟩
  · rw [expression, hprints depth]
    rfl
  · cases texts with
    | nil =>
      obtain rfl := length_eq_zero_iff.mp hlength.symm
      refine (scans_braceOpen hmodes).append ?_ fun _ _ => trivial
      rintro _ ⟨offset, rfl⟩
      refine (scans_braceClose hmodes).mono (fun _ _ => trivial) ?_
      rintro _ ⟨offset', rfl⟩
      exact ⟨phrase_object rfl (.nil rfl), _, _, _, _, rfl, rfl, by decide, fun _ => rfl⟩
    | cons first others =>
      have hne : ps ≠ [] := by
        rintro rfl
        cases hlength
      refine (scans_braceOpen hmodes).append ?_ fun _ _ => trivial
      rintro _ ⟨offset, rfl⟩
      refine .blank isCode_withinBraces ((hscans hne modes hmodes).mono (fun _ _ => trivial) ?_)
      exact fun ts hts => ⟨phrase_object rfl hts, _, _, _, _, rfl, rfl, by decide, fun _ => rfl⟩

/-! ### Template literals -/

/-- A text spells the inside of a template literal, with the closing backtick. -/
def SpellsParts (raw : Text) (quasis es : List Node) (text : Text) : Prop :=
  ∀ modes, IsCode modes → Scans false (.template :: modes) text modes (fun _ => True)
    (ReadsParts raw quasis es)

/-- A piece of the text of a template literal, which may be empty. -/
theorem SpellsParts.piece (hraw : IsChunk raw) (h : SpellsParts raw quasis es text)
    (hends : ∀ rest, EndsChunk (text ++ rest)) : SpellsParts [] quasis es (raw ++ text) := by
  intro modes hmodes
  by_cases hne : raw = []
  · subst hne
    exact h modes hmodes
  · refine (scans_chunk hne hraw).append ?_ fun rest _ => hends rest
    rintro _ ⟨offset, rfl⟩
    exact (h modes hmodes).mono (fun _ => id) fun ts hts => .chunk rfl hts

theorem spellsParts_last (h : IsPiece raw cooked) :
    SpellsParts [] [.templateElement raw cooked true] [] (raw ++ "`") := by
  refine SpellsParts.piece h.1 (fun modes hmodes => ?_) fun rest => .backtick rest
  refine scans_backtickClose.mono (fun _ => id) ?_
  rintro _ ⟨offset, rfl⟩
  exact .last rfl h.2

theorem spellsParts_cons {eText : Text} (hpiece : IsPiece raw cooked)
    (h : Spells k x dot eText) (hparts : SpellsParts [] quasis es text) :
    SpellsParts [] (.templateElement raw cooked false :: quasis) (x.node :: es)
      (raw ++ ("$\x7b" ++ (eText ++ ("\x7d" ++ text)))) := by
  refine SpellsParts.piece hpiece.1 (fun modes hmodes => ?_) fun rest => .substitution _
  refine scans_interpolationOpen.append ?_ fun _ _ => trivial
  rintro _ ⟨offset, rfl⟩
  refine (h false (.interpolation :: .template :: modes) nofun).append ?_
    fun rest _ => .cons (by decide) _
  rintro ts ⟨hts, -⟩
  refine scans_interpolationClose.append ?_ fun _ _ => trivial
  rintro _ ⟨offset', rfl⟩
  refine (hparts modes hmodes).mono (fun _ => id) fun us hus => ?_
  exact .substitution rfl rfl hpiece.2 hts hus

section

variable (hquasis : ArePieces es.length quasis) (hes : ∀ e ∈ es, Prints e)
include hquasis hes

theorem prints_parts :
    ∃ text, (∀ depth, templateParts depth quasis es = .ok text) ∧
      SpellsParts [] quasis es (text ++ "`") := by
  induction es generalizing quasis with
  | nil =>
    cases hquasis with
    | @last raw cooked hpiece =>
      refine ⟨raw, fun depth => ?_, spellsParts_last hpiece⟩
      rw [templateParts]
      simp [Printer.rawOf, bind, Except.bind, pure, Except.pure]
  | cons e es ih =>
    cases hquasis with
    | @cons _ raw cooked quasis hpiece hquasis =>
      obtain ⟨rest, hprints, hspellsRest⟩ :=
        ih hquasis fun e' he' => hes e' (mem_cons_of_mem e he')
      obtain ⟨text, hprint, hspells⟩ := hes e mem_cons_self
      refine ⟨raw ++ ("$\x7b" ++ (text ++ ("\x7d" ++ rest))), fun depth => ?_, ?_⟩
      · rw [templateParts]
        simp [Printer.rawOf, hprint depth, hprints depth, bind, Except.bind, pure, Except.pure]
      · have := spellsParts_cons hpiece hspells hspellsRest
        simpa using this

theorem prints_template : Prints (.template quasis es) := by
  obtain ⟨text, hprints, hspells⟩ := prints_parts hquasis hes
  refine ⟨"`" ++ (text ++ "`"), fun depth => ?_, fun newline modes hmodes => ?_⟩
  · rw [expression, hprints depth]
    simp [bind, Except.bind, pure, Except.pure]
  · refine (scans_backtickOpen hmodes).append ?_ fun _ _ => trivial
    rintro _ ⟨offset, rfl⟩
    refine (hspells modes hmodes).mono (fun _ _ => trivial) fun ts hts => ?_
    exact ⟨phrase_template rfl hts, _, _, _, _, rfl, rfl, by decide, by simp⟩

end

/-! ### Operators before and after an operand -/

theorem Spells.start (h : Spells k x dot text) : ∃ c more, text = c :: more ∧ c ≠ '=' := by
  obtain ⟨ts, ⟨-, c, more, -, -, htext, -, hc, -⟩, -⟩ := h false [] nofun 0 0 [] nofun
  exact ⟨c, more, htext, hc⟩

/-- The space after an operator, if there is one. -/
def gap (space : Bool) : Text :=
  Text.ofString (if space then " " else "")

/-- An operator before its operand. -/
theorem Spells.after (h : Spells k x dot text) (space : Bool)
    (hmark : ∀ newline modes, IsCode modes →
      Scans newline modes mark modes follows (OneToken kind mark newline))
    (hfollows : ∀ rest, follows (gap space ++ text ++ rest))
    (hbegins : ∃ c more, mark = c :: more ∧ c ≠ '=') (hkind : kind ≠ .symbol .braceOpen)
    (hphrase : ∀ (t : Token) ts, t.kind = kind → Phrase k x ts → Phrase j y (t :: ts)) :
    Spells j y dot (mark ++ (gap space ++ text)) := by
  intro newline modes hmodes
  refine (hmark newline modes hmodes).append ?_ fun rest _ => hfollows rest
  rintro _ ⟨offset, rfl⟩
  have hoperand : Scans false modes (gap space ++ text) modes (Follows dot) fun ts =>
      Phrase k x ts ∧ Begins text ts := by
    cases space with
    | false => exact h false modes hmodes
    | true => exact (h false modes hmodes).blank hmodes
  refine hoperand.mono (fun _ => id) ?_
  rintro ts ⟨hts, -⟩
  obtain ⟨c, more, rfl, hc⟩ := hbegins
  exact ⟨hphrase _ ts rfl hts, c, _, _, _, rfl, rfl, hc, fun h => absurd h hkind⟩

section

variable (h : Spells k x dot text) (hk : 15 ≤ k)
include h hk

theorem Spells.unaryWord {op : UnaryOp} {word : Text} (hword : IsWord word) (htoken : wordToken word = .keyword w)
    (hop : w.unary? = some op) :
    Spells 15 ⟨.unary op x.node, false⟩ dot (word ++ (gap true ++ text)) := by
  refine h.after true (fun newline modes hmodes => scans_word hmodes hword) (fun _ => rfl) ?_ ?_
    fun t ts ht hts => phrase_unary hts hk (by rw [unaryOperator?, ht, htoken]; exact hop)
  · cases word with
    | nil => cases hword
    | cons c more =>
      refine ⟨c, more, rfl, ?_⟩
      rintro rfl
      exact absurd hword.1 (by decide)
  · rw [htoken]
    nofun

theorem Spells.unarySymbol {op : UnaryOp} (hop : s.unary? = some op) (space : Bool)
    (hends : ∀ rest, Lexeme.SymbolEnds s (gap space ++ text ++ rest)) :
    Spells 15 ⟨.unary op x.node, false⟩ dot (s.spelling ++ (gap space ++ text)) := by
  have hs : s ≠ .braceOpen ∧ s ≠ .braceClose ∧ ∃ c more, s.spelling = c :: more ∧ c ≠ '=' := by
    cases s <;> cases hop <;> exact ⟨nofun, nofun, _, _, rfl, by decide⟩
  refine h.after space (fun newline modes hmodes => scans_symbol hmodes (fun _ => id) hs.1 hs.2.1)
    hends hs.2.2 (by simpa using hs.1) fun t ts ht hts => phrase_unary hts hk ?_
  rw [unaryOperator?, ht]
  exact hop

/-- A sign before an operand that may start with the same sign. -/
theorem Spells.sign {op : UnaryOp} (hop : s.unary? = some op)
    (hs : s.spelling = [c]) (hclashes : Lexeme.clashes s ⊆ [c, .char '='])
    (hspace : needsSpace s.spelling text = text.startsWith s.spelling) :
    Spells 15 ⟨.unary op x.node, false⟩ dot
      (s.spelling ++ (gap (needsSpace s.spelling text) ++ text)) := by
  obtain ⟨d, more, rfl, hd⟩ := h.start
  refine h.unarySymbol hk hop _ fun rest => ?_
  by_cases hsame : c = d
  · have : needsSpace s.spelling (d :: more) = true := by
      rw [hspace, hs, Text.startsWith, Text.after?, if_pos hsame]
      rfl
    rw [this]
    exact .space
  · have : needsSpace s.spelling (d :: more) = false := by
      rw [hspace, hs, Text.startsWith, Text.after?, if_neg hsame]
      rfl
    rw [this]
    refine .unary hop (fun hmem => ?_)
    rcases mem_cons.mp (hclashes hmem) with rfl | hmem
    · exact hsame rfl
    · exact hd (mem_singleton.mp hmem)

theorem Spells.unary {op : UnaryOp}
    (hop : op ∈ UnaryOp.all) : Spells 15 ⟨.unary op x.node, false⟩ dot
      (op.spelling ++ (gap (needsSpace op.spelling text) ++ text)) := by
  cases op with
  | not =>
    obtain ⟨c, more, rfl, hc⟩ := h.start
    have hclashes : Lexeme.clashes .exclamation ⊆ [.char '='] := by decide +kernel
    refine h.unarySymbol (s := .exclamation) hk rfl false fun rest => .unary rfl (fun hmem => ?_)
    exact hc (mem_singleton.mp (hclashes hmem))
  | bitNot =>
    exact h.unarySymbol (s := .tilde) hk rfl false fun rest => .closed (by decide +kernel) _
  | plus => exact h.sign (s := .plus) hk rfl rfl (by decide +kernel) rfl
  | minus => exact h.sign (s := .minus) hk rfl rfl (by decide +kernel) rfl
  | typeOf => exact h.unaryWord (w := .typeof) hk (by decide) (by decide) rfl
  | void => exact h.unaryWord (w := .void) hk (by decide) (by decide) rfl
  | delete => exact h.unaryWord (w := .delete) hk (by decide) (by decide) rfl
  | other => simp [UnaryOp.all] at hop

end

theorem prints_unary {op : UnaryOp} (hop : op ∈ UnaryOp.all)
    (h : Prints argument) : Prints (.unary op argument) := by
  obtain ⟨text, hprint, hspells⟩ := h
  refine ⟨_, fun depth => ?_, ((hspells.guarded 15 (by omega)).unary (Nat.le_refl 15) hop).noDot⟩
  rw [expression, hprint depth]
  simp [gap, bind, Except.bind, pure, Except.pure]

/-- The symbol of a step operator. -/
theorem exists_symbol_of_updateOp {op : UpdateOp} (hop : op ∈ UpdateOp.all) :
    ∃ s : Symbol, s.update? = some op ∧ s.spelling = op.spelling ∧ s ∈ marks ∧
      ∃ c more, s.spelling = c :: more ∧ c ≠ '=' := by
  cases op with
  | increment => exact ⟨.increment, rfl, rfl, by decide, _, _, rfl, by decide⟩
  | decrement => exact ⟨.decrement, rfl, rfl, by decide, _, _, rfl, by decide⟩
  | other => simp [UpdateOp.all] at hop

theorem Spells.update {op : UpdateOp} (h : Spells k x dot text) (hk : 15 ≤ k)
    (hop : op ∈ UpdateOp.all) (htarget : isTarget x.node = true) :
    Spells 15 ⟨.update op x.node true, false⟩ dot (op.spelling ++ text) := by
  obtain ⟨s, hs, hspelling, hmark, hstart⟩ := exists_symbol_of_updateOp hop
  rw [← hspelling]
  refine h.after false (fun newline modes hmodes => scans_mark hmodes hmark) (fun _ => trivial)
    hstart (by rintro ⟨⟩; cases hs) fun t ts ht hts => ?_
  exact phrase_update hts hk (by rw [updateOperator?, ht]; exact hs) htarget

theorem Spells.trailing {op : UpdateOp} (h : Spells k x dot text) (hk : 17 ≤ k)
    (hop : op ∈ UpdateOp.all) (htarget : isTarget x.node = true) :
    Spells 16 ⟨.update op x.node false, false⟩ false (text ++ op.spelling) := by
  obtain ⟨s, hs, hspelling, hmark, -⟩ := exists_symbol_of_updateOp hop
  have hbreaks : ∃ c more, s.spelling = c :: more ∧ c ∈ breaks := by
    cases s <;> cases hs <;> exact ⟨_, _, rfl, by decide⟩
  rw [← hspelling]
  refine h.followedBy (fun rest => ?_) (fun _ hmodes =>
    (scans_mark hmodes hmark).mono (fun _ _ => trivial) fun _ => id) ?_
  · obtain ⟨c, more, hcons, hc⟩ := hbreaks
    rw [hcons]
    exact .cons hc _
  · rintro ts _ hts ⟨offset, rfl⟩
    exact phrase_trailing hts hk hs rfl htarget

theorem prints_update {op : UpdateOp} {leading : Bool} (hop : op ∈ UpdateOp.all)
    (htarget : isTarget argument = true) (h : Prints argument) :
    Prints (.update op argument leading) := by
  obtain ⟨text, hprint, hspells⟩ := h
  cases leading with
  | true =>
    refine ⟨_, fun depth => ?_,
      ((hspells.guarded 15 (by omega)).update (Nat.le_refl 15) hop htarget).noDot⟩
    rw [expression, hprint depth]
    rfl
  | false =>
    refine ⟨_, fun depth => ?_,
      (hspells.guarded 17 (by omega)).trailing (Nat.le_refl 17) hop htarget⟩
    rw [expression, hprint depth]
    rfl

/-! ### Operators between two operands -/

/-- A token between spaces, and what stands before and after it. -/
theorem Scans.spaced {left right : Text} {tokens' : List Token → Prop}
    (hmodes : IsCode modes) (hleft : Scans newline modes left modes (Follows dot) tokens)
    (hmark : Scans false modes mark modes StartsSpace (OneToken kind mark false))
    (hright : ∀ ts (t : Token), tokens ts → t.kind = kind →
      Scans false modes right modes follows fun us => tokens' (ts ++ t :: us)) :
    Scans newline modes (left ++ " " ++ mark ++ " " ++ right) modes follows tokens' := by
  have htext : left ++ " " ++ mark ++ " " ++ right =
      left ++ .char ' ' :: (mark ++ .char ' ' :: right) := by
    simp [Text.ofString]
  rw [htext]
  refine hleft.append (fun ts hts => ?_) fun rest _ => .cons (by decide) _
  refine .blank hmodes (hmark.append ?_ fun _ _ => rfl)
  rintro _ ⟨offset, rfl⟩
  exact .blank hmodes (hright ts _ hts rfl)

theorem Spells.spaced (hleft : Spells k x dot text) (hmark : ∀ modes, IsCode modes →
      Scans false modes mark modes StartsSpace (OneToken kind mark false))
    (hright : Spells j y dot' text')
    (h : ∀ ts (t : Token) us, Phrase k x ts → t.kind = kind → Phrase j y us →
      Phrase i z (ts ++ t :: us)) : Spells i z dot' (text ++ " " ++ mark ++ " " ++ text') := by
  intro newline modes hmodes
  refine .spaced hmodes (hleft newline modes hmodes) (hmark modes hmodes) ?_
  rintro ts t ⟨hts, hbegins⟩ ht
  refine (hright false modes hmodes).mono (fun _ => id) ?_
  rintro us ⟨hus, -⟩
  rw [append_assoc, append_assoc, append_assoc]
  exact ⟨h ts t us hts ht hus, hbegins.append⟩

/-- The kind of token that a binary operator is written as. -/
structure WrittenAs (op : BinaryOp) (kind : TokenKind) (strength : Nat) : Prop where
  binds : op.strength? = some strength
  read : ∀ t : Token, t.kind = kind → binaryOperator? t = some (op, strength)
  scans : ∀ modes, IsCode modes →
    Scans false modes op.spelling modes StartsSpace (OneToken kind op.spelling false)

theorem WrittenAs.symbol (hs : s.binary? = some op) (hspelling : s.spelling = op.spelling)
    (hstrength : op.strength? = some strength) : WrittenAs op (.symbol s) strength where
  binds := hstrength
  read t ht := by
    simp [binaryOperator?, ht, hs, hstrength]
  scans modes hmodes := by
    rw [← hspelling]
    exact scans_symbol_space hmodes (by rintro rfl; cases hs) (by rintro rfl; cases hs)

theorem WrittenAs.word (hw : w.binary? = some op)
    (hword : IsWord op.spelling) (htoken : wordToken op.spelling = .keyword w)
    (hstrength : op.strength? = some strength) : WrittenAs op (.keyword w) strength where
  binds := hstrength
  read t ht := by
    simp [binaryOperator?, ht, hw, hstrength]
  scans modes hmodes := by
    rw [← htoken]
    refine (scans_word hmodes hword).mono (fun rest hrest => ?_) fun _ => id
    rw [Lexeme.EndsWord, show rest.head? = _ from hrest]
    rfl

theorem exists_writtenAs (hop : op ∈ BinaryOp.all) :
    ∃ kind strength, WrittenAs op kind strength := by
  have htable : ∀ op ∈ BinaryOp.all, op.strength?.isSome ∧
      ((∃ s ∈ Symbol.operators, s.binary? = some op ∧ s.spelling = op.spelling) ∨
        ∃ w ∈ Keyword.all, w.binary? = some op ∧ IsWord op.spelling ∧
          wordToken op.spelling = .keyword w) := by
    decide +kernel
  obtain ⟨hstrength, ⟨s, -, hs, hspelling⟩ | ⟨w, -, hw, hword, htoken⟩⟩ := htable op hop
  · exact ⟨_, _, .symbol hs hspelling (Option.some_get hstrength).symm⟩
  · exact ⟨_, _, .word hw hword htoken (Option.some_get hstrength).symm⟩

theorem Spells.operand {child : Node} (parent : Node)
    (h : Spells (Printer.strength child) ⟨child, false⟩ dot text) (least : Nat)
    (hleast : least ≤ 20) :
    ∃ dot', Spells least
      ⟨child, clashes parent child || decide (Printer.strength child < least)⟩ dot'
      (Printer.operand parent child least text) := by
  rw [Printer.operand]
  cases clashes parent child with
  | true => exact ⟨true, h.parenthesized.weaken hleast⟩
  | false => exact ⟨_, h.guarded least hleast⟩

/-- A power: its left operand is not a unary operation, and it groups to the right. -/
theorem Spells.power (hop : WrittenAs op kind strength) (hpow : op = .pow)
    (hleft : Spells (Printer.strength left) ⟨left, false⟩ dot text)
    (hright : Spells (Printer.strength right) ⟨right, false⟩ dot' text') :
    Spells (strength + 3) ⟨.binary op left right, false⟩ false
      (infixText (.binary op left right) op (strength + 3) left right text text') := by
  have hstrength := (strength?_bounds hop.binds).2.2 hpow
  obtain ⟨_, hleft⟩ := hleft.operand (.binary op left right) 16 (by omega)
  obtain ⟨_, hright⟩ := hright.operand (.binary op left right) (strength + 3) (by omega)
  rw [infixText, if_pos hpow]
  refine (hleft.spaced hop.scans hright fun ts t us hts ht hus => ?_).noDot
  have hbare : isBareUnary ⟨left, clashes (.binary op left right) left ||
      decide (Printer.strength left < 16)⟩ = false := by
    cases left <;> simp [isBareUnary, Printer.strength]
  subst hpow
  exact (phrase_power (hop.read t ht) hts (by omega) hbare hus (by omega)).weaken (by omega)

/-- Any other operation groups to the left. -/
theorem Spells.operation {parent : Node} (hop : WrittenAs op kind strength) (hpow : op ≠ .pow)
    (hleft : Spells (Printer.strength left) ⟨left, false⟩ dot text)
    (hright : Spells (Printer.strength right) ⟨right, false⟩ dot' text')
    (hparent : ∀ weakLeft weakRight, combine op ⟨left, clashes parent left || weakLeft⟩
      ⟨right, clashes parent right || weakRight⟩ = .ok parent) :
    Spells (strength + 3) ⟨parent, false⟩ false
      (infixText parent op (strength + 3) left right text text') := by
  have hstrength := (strength?_bounds hop.binds).2.1 hpow
  obtain ⟨_, hleft⟩ := hleft.operand parent (strength + 3) (by omega)
  obtain ⟨_, hright⟩ := hright.operand parent (strength + 4) (by omega)
  rw [infixText, if_neg hpow]
  refine (hleft.spaced hop.scans hright fun ts t us hts ht hus => ?_).noDot
  exact phrase_binary (hop.read t ht) hpow hts (by omega) hus (by omega) (hparent _ _)

theorem prints_binary (hop : op ∈ BinaryOp.all) (hkind : op.isLogical = false) (hleft : Prints left)
    (hright : Prints right) : Prints (.binary op left right) := by
  obtain ⟨kind, strength, hwritten⟩ := exists_writtenAs hop
  obtain ⟨-, hle, heq⟩ := strength?_bounds hwritten.binds
  obtain ⟨leftText, hprintLeft, hspellsLeft⟩ := hleft
  obtain ⟨rightText, hprintRight, hspellsRight⟩ := hright
  have hspells : Spells (strength + 3) ⟨.binary op left right, false⟩ false
      (infixText (.binary op left right) op (strength + 3) left right leftText
        rightText) := by
    by_cases hpow : op = .pow
    · exact .power hwritten hpow hspellsLeft hspellsRight
    · refine .operation hwritten hpow hspellsLeft hspellsRight fun _ _ => ?_
      rw [combine, hkind, if_neg Bool.false_ne_true]
  refine .of_weak (fun depth => ?_) ?_ (by by_cases op = .pow <;> grind) hspells
  · rw [expression, hwritten.binds, hprintLeft depth, hprintRight depth]
    rfl
  · rw [Printer.strength, hwritten.binds, Option.getD_some]

/-- Operands that would not mix with a logical operator are in parentheses. -/
theorem mixes_eq_false (left right child : Node) (weak : Bool) :
    mixes op ⟨child, clashes (.logical op left right) child || weak⟩ = false := by
  cases child with
  | logical inner =>
    cases weak <;> cases hop : op == .coalesce <;> cases hinner : inner == .coalesce <;>
      simp [mixes, clashes, hop, hinner]
  | _ => rfl

theorem prints_logical (hop : op ∈ BinaryOp.all) (hkind : op.isLogical = true) (hleft : Prints left)
    (hright : Prints right) : Prints (.logical op left right) := by
  obtain ⟨kind, strength, hwritten⟩ := exists_writtenAs hop
  have hpow : op ≠ .pow := by
    rintro rfl
    cases hkind
  have hle := (strength?_bounds hwritten.binds).2.1 hpow
  obtain ⟨leftText, hprintLeft, hspellsLeft⟩ := hleft
  obtain ⟨rightText, hprintRight, hspellsRight⟩ := hright
  refine .of_weak (k := strength + 3) (fun depth => ?_) ?_ (by omega)
    (.operation hwritten hpow hspellsLeft hspellsRight fun _ _ => ?_)
  · rw [expression, hwritten.binds, hprintLeft depth, hprintRight depth]
    rfl
  · rw [Printer.strength, hwritten.binds, Option.getD_some]
  · rw [combine, if_pos hkind, mixes_eq_false, mixes_eq_false]
    rfl

/-! ### Conditional expressions, assignments and sequences -/

theorem Spells.conditional {yes no : Text} (htest : Spells k x dot text)
    (hk : 4 ≤ k) (hyes : Spells j y dot yes) (hj : 2 ≤ j) (hno : Spells i z dot' no) (hi : 2 ≤ i) :
    Spells 3 ⟨.conditional x.node y.node z.node, false⟩ dot'
      (text ++ " ? " ++ yes ++ " : " ++ no) := by
  intro newline modes hmodes
  have htext : text ++ " ? " ++ yes ++ " : " ++ no =
      text ++ " " ++ "?" ++ " " ++ (yes ++ " " ++ ":" ++ " " ++ no) := by
    simp [Text.ofString]
  rw [htext]
  refine .spaced hmodes (htest newline modes hmodes)
    (scans_symbol_space (s := .question) hmodes (by simp) (by simp)) ?_
  rintro ts question ⟨hts, hbegins⟩ hquestion
  refine .spaced hmodes (hyes false modes hmodes)
    (scans_symbol_space (s := .colon) hmodes (by simp) (by simp)) ?_
  rintro us colon ⟨hus, -⟩ hcolon
  refine (hno false modes hmodes).mono (fun _ => id) ?_
  rintro vs ⟨hvs, -⟩
  rw [append_assoc, append_assoc, append_assoc]
  exact ⟨phrase_conditional hts hk hus hj hvs hi hquestion hcolon, hbegins.append⟩

theorem prints_conditional {test consequent alternate : Node} (htest : Prints test)
    (hconsequent : Prints consequent) (halternate : Prints alternate) :
    Prints (.conditional test consequent alternate) := by
  obtain ⟨text, hprint, hspells⟩ := htest
  obtain ⟨yes, hprintYes, hspellsYes⟩ := hconsequent
  obtain ⟨no, hprintNo, hspellsNo⟩ := halternate
  refine .of_weak (k := 3) (fun depth => ?_) rfl (by omega)
    ((hspells.guarded 4 (by omega)).noDot.conditional (Nat.le_refl 4)
      (hspellsYes.guarded 2 (by omega)).noDot (Nat.le_refl 2)
      (hspellsNo.guarded 2 (by omega)).noDot (Nat.le_refl 2))
  rw [expression, hprint depth, hprintYes depth, hprintNo depth]
  rfl

theorem exists_symbol_of_assignOp :
    ∀ op ∈ AssignOp.all, ∃ s ∈ Symbol.operators, s.assign? = some op ∧ s.spelling = op.spelling := by
  decide +kernel

theorem prints_assignment {op : AssignOp} (hop : op ∈ AssignOp.all) (htarget : isTarget left = true)
    (hleft : Prints left) (hright : Prints right) : Prints (.assignment op left right) := by
  obtain ⟨s, -, hs, hspelling⟩ := exists_symbol_of_assignOp op hop
  obtain ⟨text, hprint, hspells⟩ := hleft
  obtain ⟨text', hprint', hspells'⟩ := hright
  have hscans (modes : List Mode) (hmodes : IsCode modes) :
      Scans false modes op.spelling modes StartsSpace
        (OneToken (.symbol s) op.spelling false) := by
    rw [← hspelling]
    exact scans_symbol_space hmodes (by rintro rfl; cases hs) (by rintro rfl; cases hs)
  refine .of_weak (k := 2) (fun depth => ?_) rfl (by omega)
    ((hspells.guarded 17 (by omega)).spaced hscans (hspells'.guarded 2 (by omega))
      fun ts t us hts ht hus => ?_).noDot
  · rw [expression, hprint depth, hprint' depth]
    rfl
  · have hassign : assignOperator? t = some op := by rw [assignOperator?, ht]; exact hs
    exact phrase_assignment hts (by omega) htarget hus (Nat.le_refl 2) hassign

/-- The further members of a sequence, each after a comma. -/
def continued (texts : List Text) : Text :=
  (texts.map fun text => Text.ofString ", " ++ text).flatten

theorem continued_cons : continued (text :: texts) = ", " ++ (text ++ continued texts) := by
  rfl

theorem join_cons_eq (first : Text) :
    join ", " (first :: texts) = first ++ continued texts := by
  induction texts generalizing first with
  | nil => rw [join_singleton, continued, map_nil, flatten_nil, append_nil]
  | cons second others ih =>
    rw [join_cons_cons, ih second, continued_cons]

theorem Follows.continued (h : Follows false rest) :
    Follows false (Script.continued texts ++ rest) := by
  cases texts with
  | nil => exact h
  | cons text texts => exact .cons (by decide) _

theorem prints_members (h : ∀ e ∈ es, Prints e) :
    ∃ texts, (∀ depth, expressions depth es = .ok texts) ∧
      ∀ modes, IsCode modes →
        Scans false modes (continued texts) modes (Follows false) (ReadsSequence es) := by
  induction es with
  | nil =>
    refine ⟨[], fun depth => by rw [expressions], fun modes hmodes => ?_⟩
    exact .nil .nil
  | cons e es ih =>
    obtain ⟨text, hprint, hspells⟩ := h e mem_cons_self
    obtain ⟨texts, hprints, hscans⟩ := ih fun e' he' => h e' (mem_cons_of_mem e he')
    have hguarded := (hspells.guarded 2 (by omega)).noDot
    refine ⟨Printer.guarded 2 e text :: texts, fun depth => ?_, fun modes hmodes => ?_⟩
    · rw [expressions, hprint depth, hprints depth]
      rfl
    · refine .afterComma hmodes fun t ht => ?_
      refine (hguarded false modes hmodes).append ?_ fun rest hrest => hrest.continued
      rintro ts ⟨hts, -⟩
      exact (hscans modes hmodes).mono (fun _ => id) fun us hus =>
        .cons ht hts (Nat.le_refl 2) hus

theorem prints_sequence (hlength : 2 ≤ es.length) (h : ∀ e ∈ es, Prints e) :
    Prints (.sequence es) := by
  obtain ⟨e, es, rfl⟩ := exists_cons_of_length_pos (Nat.lt_of_lt_of_le Nat.two_pos hlength)
  obtain ⟨text, hprint, hspells⟩ := h e mem_cons_self
  obtain ⟨texts, hprints, hscans⟩ := prints_members fun e' he' => h e' (mem_cons_of_mem e he')
  have hguarded := (hspells.guarded 2 (by omega)).noDot
  have hne : es ≠ [] := by
    rintro rfl
    simp at hlength
  have hsequence : Spells 1 ⟨.sequence (e :: es), false⟩ false
      (Printer.guarded 2 e text ++ continued texts) := by
    intro newline modes hmodes
    refine (hguarded newline modes hmodes).append ?_ fun rest hrest => hrest.continued
    rintro ts ⟨hts, hbegins⟩
    refine (hscans modes hmodes).mono (fun _ => id) fun us hus => ?_
    exact ⟨phrase_sequence hts (Nat.le_refl 2) hus hne, hbegins.append⟩
  refine .of_weak (k := 1) (fun depth => ?_) rfl (by decide) hsequence
  rw [expression, expressions, hprint depth, hprints depth, ← join_cons_eq]
  rfl

/-! ### Every readable expression -/

/-- What printing means for a node in each place. -/
def PrintsIn : Place → Node → Prop
  | .expression => Prints
  | .argument => PrintsItem
  | .element => PrintsElement
  | .property => PrintsProperty

/-- **Every readable node without arrow functions is printed as a text that spells it.** -/
theorem Readable.prints {place : Place} (h : Readable false place e) : PrintsIn place e := by
  induction h with
  | identifier hname => exact prints_identifier hname
  | string value => exact prints_string
  | number h => exact prints_number h
  | boolean value => exact prints_boolean
  | null => exact prints_null
  | this => exact prints_this
  | template hquasis _ ihes => exact prints_template hquasis ihes
  | array _ ih => exact prints_array ih
  | object _ ih => exact prints_object ih
  | part _ hname ih => exact prints_part ih hname
  | index _ _ ihobject ihkey => exact prints_index ihobject ihkey
  | call _ _ ihcallee ihargs => exact prints_call ihcallee ihargs
  | new _ _ ihcallee ihargs => exact prints_new ihcallee ihargs
  | conditional _ _ _ ihtest ihconsequent ihalternate =>
    exact prints_conditional ihtest ihconsequent ihalternate
  | binary hop hkind _ _ ihleft ihright => exact prints_binary hop hkind ihleft ihright
  | logical hop hkind _ _ ihleft ihright => exact prints_logical hop hkind ihleft ihright
  | unary hop _ ih => exact prints_unary hop ih
  | update hop htarget _ ih => exact prints_update hop htarget ih
  | assignment hop htarget _ _ ihleft ihright => exact prints_assignment hop htarget ihleft ihright
  | sequence hlength _ ih => exact prints_sequence hlength ih
  | arrow params body h => cases h
  | argument _ ih => exact ih.item
  | spread _ ih => exact ih.spread
  | element _ ih => exact .inr ih
  | hole => exact .inl rfl
  | named hkey _ ih => exact prints_named hkey ih
  | computed _ _ ihkey ihvalue => exact prints_computed ihkey ihvalue
  | abbreviated hname => exact prints_abbreviated hname
  | rest _ ih => exact prints_rest ih

end ViewMarkup.Script
