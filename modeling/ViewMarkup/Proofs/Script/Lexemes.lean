import ViewMarkup.Proofs.Script.Readable

/-!
# What the scanner takes first

For each kind of lexeme, the text that it is taken from and what may follow it there.

* `code?_symbol`: a symbol is taken if no other one that is tried before it fits too.
* `code?_word`, `code?_number`: words and numbers as they are written.
* `IsNumeral.number?`: a number stays the same number before anything that cannot extend it.
-/

namespace ViewMarkup.Script.Lexeme

open List

variable {s : Symbol} {rest t : Text} {p : CodePoint → Bool} {c : CodePoint} {n : Nat}

/-! ### Symbols -/

/-- The symbols in the order in which they are tried. -/
def symbols : List Symbol :=
  Symbol.marks ++ Symbol.operators ++ Symbol.brackets

/-- The symbols that are tried before a given one. -/
def before (s : Symbol) : List Symbol :=
  symbols.takeWhile fun other => other ≠ s

theorem symbols_eq (s : Symbol) : ∃ later, symbols = before s ++ s :: later := by
  have hmem : s ∈ symbols := by cases s <;> decide +kernel
  obtain ⟨earlier, later, heq, hnot⟩ := eq_append_cons_of_mem hmem
  refine ⟨later, ?_⟩
  rw [before, heq, takeWhile_append_of_pos, takeWhile_cons_of_neg (by simp),
    append_nil]
  intro other hother
  have hne : other ≠ s := fun h => hnot (h ▸ hother)
  simpa using hne

/-- The code points that would turn a symbol into one that is tried before it. -/
def clashes (s : Symbol) : List CodePoint :=
  (before s).filterMap fun other => (Text.after? s.spelling other.spelling).bind head?

/-- What follows a symbol does not make another lexeme of it. -/
structure SymbolEnds (s : Symbol) (rest : Text) : Prop where
  symbol : ∀ c ∈ rest.head?, c ∉ clashes s
  digit : s = .dot ∨ s = .optionalDot → rest.head?.any CodePoint.isDigit = false
  comment : s = .slash → ∀ c ∈ rest.head?, c ≠ '/' ∧ c ≠ '*'

theorem symbolFits_spelling (h : SymbolEnds s rest) : symbolFits s (s.spelling ++ rest) = true := by
  rw [symbolFits, Text.after?_eq_some_iff.mpr rfl]
  dsimp only
  split
  · simpa using h.digit (.inr rfl)
  · rfl

/-- A symbol is taken where it fits and none that is tried before it does. -/
theorem symbol?_eq (hfits : symbolFits s t = true)
    (hbefore : ∀ other ∈ before s, symbolFits other t = false) :
    symbol? t = some (.symbol s, s.spelling.length) := by
  obtain ⟨later, hsymbols⟩ := symbols_eq s
  have hfind : symbols.find? (fun other => symbolFits other t) = some s :=
    find?_eq_some_iff_append.mpr
      ⟨hfits, before s, later, hsymbols, fun other hother => by simp [hbefore other hother]⟩
  rw [symbol?, ← symbols, hfind]
  rfl

/-- A longer spelling is tried before every shorter one that it starts with. -/
theorem pairwise_symbols :
    symbols.Pairwise fun a b => (Text.after? a.spelling b.spelling).isNone = true := by
  decide +kernel

theorem after?_of_mem_before {other : Symbol} (h : other ∈ before s) :
    Text.after? other.spelling s.spelling = none := by
  obtain ⟨later, heq⟩ := symbols_eq s
  have hpairs := (heq ▸ pairwise_symbols :)
  simpa using (pairwise_append.mp hpairs).2.2 other h s mem_cons_self

theorem symbol?_spelling (h : SymbolEnds s rest) :
    symbol? (s.spelling ++ rest) = some (.symbol s, s.spelling.length) := by
  refine symbol?_eq (symbolFits_spelling h) fun other hother => ?_
  cases hafter : Text.after? other.spelling (s.spelling ++ rest) with
  | none => rw [symbolFits, hafter]
  | some following =>
    -- Both spellings start the text, so the other one is longer and what follows goes on with it.
    have heq := Text.after?_eq_some_iff.mp hafter
    have hshort := after?_of_mem_before hother
    rcases append_eq_append_iff.mp heq with ⟨us, hus, hrest⟩ | ⟨us, hus, -⟩
    · cases us with
      | nil => rw [hus, append_nil, Text.after?_eq_some_iff.mpr (append_nil _).symm] at hshort; cases hshort
      | cons c us =>
        subst hrest
        refine absurd ?_ (h.symbol c rfl)
        exact mem_filterMap.mpr
          ⟨other, hother, by rw [Text.after?_eq_some_iff.mpr hus]; rfl⟩
    · rw [Text.after?_eq_some_iff.mpr hus] at hshort
      cases hshort

/-- A code point that starts no lexeme of any other kind than a symbol. -/
structure OnlySymbol (c : CodePoint) (rest : Text) : Prop where
  blank : c.isBlank = false
  lineComment : Text.after? "//" (c :: rest) = none
  blockComment : Text.after? "/*" (c :: rest) = none
  backtick : c ≠ '\x60'
  quotes : c ≠ '"' ∧ c ≠ '\''
  digit : c.isDigit = false
  point : c = '.' → rest.head?.any CodePoint.isDigit = false
  word : c.startsIdentifier = false

theorem run_cons_of_neg (h : p c = false) : run p (c :: rest) = 0 := by
  simp [run, h]

theorem run_eq_zero (h : t.head?.any p = false) : run p t = 0 := by
  cases t with
  | nil => rfl
  | cons c rest => exact run_cons_of_neg (by simpa using h)

theorem number?_eq_none (hdigit : c.isDigit = false)
    (hpoint : c = '.' → rest.head?.any CodePoint.isDigit = false) : number? (c :: rest) = none := by
  have hzero : c ≠ '0' := by
    rintro rfl
    cases hdigit
  have hbased (lower upper : Char) (digit : CodePoint → Bool) :
      based? lower upper digit (c :: rest) = none := by
    unfold based?
    split
    · next heq => cases heq; exact absurd rfl hzero
    · rfl
  have hmantissa : mantissa? (c :: rest) = none := by
    unfold mantissa?
    rw [run_cons_of_neg hdigit]
    dsimp only
    split
    · next heq =>
      cases heq
      rw [run_eq_zero (hpoint rfl)]
    · rfl
  simp only [number?, hbased, bigInteger?, run_cons_of_neg hdigit, decimal?, hmantissa,
    Option.map_none]

theorem code?_eq_symbol? (h : OnlySymbol c rest) : code? (c :: rest) = symbol? (c :: rest) := by
  simp [code?, h.blank, lineComment?, h.lineComment, blockComment?, h.blockComment, h.backtick,
    h.quotes, number?_eq_none h.digit h.point, word?, h.word]

/-- The code points that no lexeme but a symbol, a comment or a number after a point starts with. -/
def startsSymbol (c : CodePoint) : Bool :=
  !c.isBlank && c != '\x60' && c != '"' && c != '\'' && !c.isDigit && !c.startsIdentifier

theorem spelling_cons (s : Symbol) : ∃ c tail, s.spelling = c :: tail ∧ startsSymbol c = true ∧
    (c = '/' → s = .slash ∧ tail = [] ∨ tail.head? = some (.char '=')) ∧
    (c = '.' → s = .dot ∧ tail = [] ∨ tail.head? = some (.char '.')) := by
  cases s <;> exact ⟨_, _, rfl, by decide, by decide, by decide⟩

theorem after?_pair_eq_none {a b : CodePoint} {more : Text} (h : c = a → more.head? ≠ some b) :
    Text.after? [a, b] (c :: more) = none := by
  rw [Text.after?]
  split
  · next heq =>
    cases more with
    | nil => rfl
    | cons d more =>
      have hne : d ≠ b := by simpa using h heq.symm
      rw [Text.after?, if_neg (Ne.symm hne)]
  · rfl

theorem comments_eq_none (more : Text) (h : c ≠ '/') :
    lineComment? (c :: more) = none ∧ blockComment? (c :: more) = none := by
  have hline : Text.after? "//" (c :: more) = none := after?_pair_eq_none fun hc => absurd hc h
  have hblock : Text.after? "/*" (c :: more) = none := after?_pair_eq_none fun hc => absurd hc h
  exact ⟨by rw [lineComment?, hline]; rfl, by rw [blockComment?, hblock]; rfl⟩

theorem onlySymbol_spelling (h : SymbolEnds s rest) :
    ∃ c more, s.spelling ++ rest = c :: more ∧ OnlySymbol c more := by
  obtain ⟨c, tail, hspelling, hstart, hslash, hpoint⟩ := spelling_cons s
  simp only [startsSymbol, Bool.and_eq_true, Bool.not_eq_true', bne_iff_ne] at hstart
  obtain ⟨⟨⟨⟨⟨hblank, hbacktick⟩, hdouble⟩, hsingle⟩, hdigit⟩, hword⟩ := hstart
  have hnext (hc : c = '/') (mark : Char) (hmark : mark = '/' ∨ mark = '*') :
      (tail ++ rest).head? ≠ some (.char mark) := by
    rcases hslash hc with ⟨rfl, rfl⟩ | htail
    · intro hhead
      have := h.comment rfl _ hhead
      rcases hmark with rfl | rfl <;> simp at this
    · rw [head?_append, htail]
      rcases hmark with rfl | rfl <;> simp
  refine ⟨c, tail ++ rest, by rw [hspelling]; rfl, hblank,
    after?_pair_eq_none fun hc => hnext hc '/' (.inl rfl),
    after?_pair_eq_none fun hc => hnext hc '*' (.inr rfl), hbacktick, ⟨hdouble, hsingle⟩, hdigit,
    fun hc => ?_, hword⟩
  rcases hpoint hc with ⟨rfl, rfl⟩ | htail
  · exact h.digit (.inl rfl)
  · rw [head?_append, htail]
    rfl

/-- **A symbol is taken where nothing after it goes on with it.** -/
theorem code?_symbol (h : SymbolEnds s rest) :
    code? (s.spelling ++ rest) = some (.symbol s, s.spelling.length) := by
  obtain ⟨c, more, heq, honly⟩ := onlySymbol_spelling h
  rw [← symbol?_spelling h, heq, code?_eq_symbol? honly]

theorem space_notMem_spelling (s : Symbol) : .char ' ' ∉ s.spelling := by
  cases s <;> decide +kernel

theorem SymbolEnds.space : SymbolEnds s (.char ' ' :: rest) where
  symbol c hc hclash := by
    cases hc
    obtain ⟨other, -, hother⟩ := mem_filterMap.mp hclash
    obtain ⟨following, hafter, hhead⟩ := Option.bind_eq_some_iff.mp hother
    refine space_notMem_spelling other ?_
    rw [Text.after?_eq_some_iff.mp hafter]
    exact mem_append_right _ (mem_of_head? hhead)
  digit _ := rfl
  comment _ c hc := by
    cases hc
    decide

/-- The operators before an operand end where the operand does not go on with them. -/
theorem SymbolEnds.unary {op : UnaryOp} (hs : s.unary? = some op) (hc : c ∉ clashes s) :
    SymbolEnds s (c :: rest) := by
  refine ⟨fun d hd => ?_, ?_, ?_⟩
  · cases hd
    exact hc
  · rintro (rfl | rfl) <;> cases hs
  · rintro rfl
    cases hs

/-- The symbols that nothing goes on with. -/
def isClosed (s : Symbol) : Bool :=
  (clashes s).isEmpty && s != .dot && s != .optionalDot && s != .slash

theorem SymbolEnds.closed (h : isClosed s = true) (rest : Text) : SymbolEnds s rest := by
  simp only [isClosed, Bool.and_eq_true, List.isEmpty_iff, bne_iff_ne] at h
  obtain ⟨⟨⟨hclash, hdot⟩, hoptional⟩, hslash⟩ := h
  exact ⟨by simp [hclash], by simp [hdot, hoptional], fun h => absurd h hslash⟩

/-! ### Words -/

/-- A text does not go on with a word. -/
def EndsWord (rest : Text) : Prop :=
  rest.head?.any CodePoint.continuesIdentifier = false

theorem takeWhile_append (ht : t.all p = true) (hrest : rest.head?.any p = false) :
    (t ++ rest).takeWhile p = t := by
  rw [takeWhile_append_of_pos (all_eq_true.mp ht)]
  cases rest with
  | nil => simp
  | cons c rest => rw [takeWhile_cons_of_neg (by simpa using hrest), append_nil]

/-- The kind of a word. -/
def wordKind (word : Text) : LexemeKind :=
  match Constant.ofText? word with
  | some c => .constant c
  | none =>
    match Keyword.ofText? word with
    | some k => .keyword k
    | none => .name

theorem startsIdentifier_spec (h : c.startsIdentifier = true) :
    c.isBlank = false ∧ c ≠ '/' ∧ c ≠ '\x60' ∧ c ≠ '"' ∧ c ≠ '\'' ∧ c.isDigit = false ∧ c ≠ '.' := by
  have hnat : c.toNat = 36 ∨ 65 ≤ c.toNat ∧ c.toNat ≤ 122 ∧ c.toNat ≠ 96 := by
    simp only [CodePoint.startsIdentifier, Bool.or_eq_true, Bool.and_eq_true, decide_eq_true_eq,
      beq_iff_eq] at h
    rcases h with ((h | h) | rfl) | rfl
    · omega
    · omega
    · exact .inr (by decide)
    · exact .inl rfl
  have hne (d : Char) (hd : d.toNat < 36 ∨ 36 < d.toNat ∧ d.toNat < 65 ∨ d.toNat = 96) :
      c ≠ .char d := by
    rintro rfl
    simp only [CodePoint.toNat] at hnat
    omega
  refine ⟨?_, hne _ (by decide), hne _ (by decide), hne _ (by decide), hne _ (by decide), ?_,
    hne _ (by decide)⟩
  · simp only [CodePoint.isBlank, Bool.or_eq_false_iff, Bool.and_eq_false_iff, decide_eq_false_iff_not,
      beq_eq_false_iff_ne]
    omega
  · simp only [CodePoint.isDigit, CodePoint.digit?]
    rw [if_pos (by omega), if_neg (by simp; omega)]
    rfl

theorem code?_word (ht : IsWord t) (hrest : EndsWord rest) :
    code? (t ++ rest) = some (wordKind t, t.length) := by
  cases t with
  | nil => cases ht
  | cons c more =>
    obtain ⟨hstart, hmore⟩ := ht
    obtain ⟨hblank, hslash, hbacktick, hdouble, hsingle, hdigit, hpoint⟩ :=
      startsIdentifier_spec hstart
    have hnumber : number? (c :: (more ++ rest)) = none :=
      number?_eq_none hdigit fun h => absurd h hpoint
    have hword : word? (c :: (more ++ rest)) = some (wordKind (c :: more), more.length + 1) := by
      rw [word?, if_pos hstart, takeWhile_append hmore hrest]
      rfl
    obtain ⟨hline, hblock⟩ := comments_eq_none (more ++ rest) hslash
    simp [code?, hblank, hline, hblock, hbacktick, hdouble, hsingle, hnumber, hword]

/-- A dot and an optional link end where a word follows. -/
theorem SymbolEnds.word (hs : s = .dot ∨ s = .optionalDot) {word : Text}
    (hword : IsWord word) (rest : Text) : SymbolEnds s (word ++ rest) := by
  have hclashes : ∀ s, s = .dot ∨ s = .optionalDot → clashes s ⊆ [.char '.'] := by
    rintro s (rfl | rfl) <;> decide +kernel
  cases word with
  | nil => cases hword
  | cons c more =>
    obtain ⟨-, -, -, -, -, hdigit, hpoint⟩ := startsIdentifier_spec hword.1
    refine ⟨?_, fun _ => by simpa using hdigit, by rcases hs with rfl | rfl <;> nofun⟩
    rintro d ⟨⟩ hmem
    exact hpoint (mem_singleton.mp (hclashes s hs hmem))

/-- An optional link ends before a bracket. -/
theorem SymbolEnds.optionalDot (hc : c.isDigit = false) : SymbolEnds .optionalDot (c :: rest) := by
  have hclashes : clashes .optionalDot = [] := by decide +kernel
  exact ⟨by simp [hclashes], fun _ => by simpa using hc, nofun⟩

/-! ### Numbers -/

/-- A text does not go on with a number or a word. -/
structure EndsNumber (rest : Text) : Prop where
  word : EndsWord rest
  digit : rest.head?.any CodePoint.isDigit = false
  point : rest.head? ≠ some (.char '.')

section
variable {t rest rest' : Text}

/-- A run that ends in a text ends there whatever follows. -/
theorem run_append (h : run p (t ++ rest) = n) (hn : n ≤ t.length)
    (hrest : rest'.head?.any p = false) : run p (t ++ rest') = n := by
  subst h
  induction t with
  | nil =>
    have hzero : run p rest = 0 := by simpa using hn
    simpa [hzero] using run_eq_zero hrest
  | cons c t ih =>
    simp only [run, cons_append, takeWhile_cons] at hn ⊢
    split
    · next hc =>
      simp only [hc, if_true, length_cons, Nat.add_le_add_iff_right] at hn ⊢
      exact congrArg (· + 1) (ih hn)
    · rfl

theorem continuesIdentifier_of_ascii
    (h : 48 ≤ c.toNat ∧ c.toNat ≤ 57 ∨ 65 ≤ c.toNat ∧ c.toNat ≤ 90 ∨ 97 ≤ c.toNat ∧ c.toNat ≤ 122) :
    c.continuesIdentifier = true := by
  have hlt : c.toNat < 128 := by omega
  simp only [CodePoint.continuesIdentifier, CodePoint.isWord, CodePoint.isLetter,
    CodePoint.isNumeral, hlt, if_true, Bool.or_eq_true, Bool.and_eq_true, decide_eq_true_eq]
  omega

theorem EndsWord.ne {c : Char} (h : EndsWord rest') (hc : (CodePoint.char c).continuesIdentifier = true) :
    rest'.head? ≠ some (.char c) := by
  intro heq
  rw [EndsWord, heq] at h
  simp [hc] at h

theorem exponent_eq_zero (h : EndsWord rest') : exponent rest' = 0 := by
  unfold exponent
  split
  · next e more =>
    split
    · next he =>
      rw [Bool.or_eq_true, decide_eq_true_eq, decide_eq_true_eq] at he
      rcases he with rfl | rfl
      · exact absurd rfl (h.ne (by decide))
      · exact absurd rfl (h.ne (by decide))
    · rfl
  · rfl

theorem exponent_append (h : exponent (t ++ rest) = t.length) (hrest : EndsNumber rest') :
    exponent (t ++ rest') = t.length := by
  cases t with
  | nil => exact exponent_eq_zero hrest.word
  | cons a u =>
    cases a with
    | surrogate => cases h
    | char e =>
      unfold exponent at h ⊢
      dsimp only [cons_append] at h ⊢
      split at h
      · next he =>
        rw [if_pos he]
        cases u with
        | nil =>
          -- An exponent takes at least two code points.
          exfalso
          revert h
          cases rest with
          | nil => simp
          | cons c digits =>
            dsimp only [nil_append, length_cons, length_nil]
            split <;> split <;> simp
        | cons c v =>
          dsimp only [cons_append, length_cons] at h ⊢
          split at h
          · next hsign =>
            have hrun : run CodePoint.isDigit (v ++ rest) = v.length := by
              split at h <;> omega
            rw [hrun] at h
            rw [if_pos hsign, run_append hrun (Nat.le_refl _) hrest.digit]
            exact h
          · next hsign =>
            have hrun : run CodePoint.isDigit (c :: v ++ rest) = (c :: v).length := by
              dsimp only [cons_append, length_cons]
              split at h <;> omega
            rw [← cons_append, hrun] at h
            rw [if_neg hsign, ← cons_append,
              run_append hrun (Nat.le_refl _) hrest.digit]
            exact h
      · cases h

theorem mantissa?_append (h : mantissa? (t ++ rest) = some n) (hn : n ≤ t.length)
    (hrest : EndsNumber rest') : mantissa? (t ++ rest') = some n := by
  unfold mantissa? at h ⊢
  cases hrun : run CodePoint.isDigit (t ++ rest) with
  | zero =>
    rw [run_append hrun (by omega) hrest.digit]
    rw [hrun] at h
    dsimp only at h ⊢
    split at h
    · next more heq =>
      split at h
      · cases h
      · next m hm =>
        cases h
        cases t with
        | nil => simp at hn
        | cons c u =>
          obtain ⟨rfl, rfl⟩ := cons.inj heq
          rw [length_cons] at hn
          split
          · next heq' =>
            obtain ⟨-, rfl⟩ := cons.inj heq'
            have hm' := run_append hm (by omega) hrest.digit
            split
            · next hzero => cases hm'.symm.trans hzero
            · next hsucc => cases hm'.symm.trans hsucc; rfl
          · next hne => exact absurd rfl (hne _)
    · cases h
  | succ m =>
    rw [hrun] at h
    dsimp only at h
    have hm : m + 1 ≤ t.length := by
      split at h <;> cases h <;> omega
    rw [run_append hrun (by omega) hrest.digit]
    dsimp only
    rw [drop_append_of_le_length hm] at h ⊢
    cases hdrop : t.drop (m + 1) with
    | nil =>
      have hlength : t.length ≤ m + 1 := drop_eq_nil_iff.mp hdrop
      split at h
      · cases h
        omega
      · cases h
        split
        · next heq => exact absurd (congrArg head? heq) hrest.point
        · rfl
    | cons c u =>
      have hlength := congrArg length hdrop
      rw [length_drop, length_cons] at hlength
      rw [hdrop, cons_append] at h
      rw [cons_append]
      split at h
      · next heq =>
        obtain ⟨rfl, rfl⟩ := cons.inj heq
        cases h
        split
        · next heq' =>
          obtain ⟨-, rfl⟩ := cons.inj heq'
          have hsame : run CodePoint.isDigit (u ++ rest') = _ :=
            run_append rfl (show run CodePoint.isDigit (u ++ rest) ≤ _ by omega)
              hrest.digit
          rw [hsame]
        · next hne => exact absurd rfl (hne _)
      · next hne =>
        cases h
        split
        · next heq =>
          obtain ⟨rfl, -⟩ := cons.inj heq
          exact absurd rfl (hne _)
        · rfl

theorem decimal?_append (h : decimal? (t ++ rest) = some t.length) (hrest : EndsNumber rest') :
    decimal? (t ++ rest') = some t.length := by
  obtain ⟨n, hn, hlength⟩ := Option.map_eq_some_iff.mp h
  have hle : n ≤ t.length := by omega
  have hexponent : exponent (t.drop n ++ rest) = (t.drop n).length := by
    rw [length_drop, ← drop_append_of_le_length hle]
    omega
  rw [decimal?, mantissa?_append hn hle hrest, Option.map_some, drop_append_of_le_length hle,
    exponent_append hexponent hrest, length_drop]
  exact congrArg some (by omega)

theorem EndsWord.not_any (h : EndsWord rest') (hp : ∀ c, p c = true → c.continuesIdentifier = true) :
    rest'.head?.any p = false := by
  cases hhead : rest'.head? with
  | none => rfl
  | some c =>
    rw [EndsWord, hhead] at h
    cases hc : p c with
    | false => simpa using hc
    | true => simp [hp c hc] at h

/-- The length of the mark of a big integer at the start of a text. -/
def markLength (t : Text) : Nat :=
  if t.head? = some (.char 'n') then 1 else 0

theorem markLength_eq_zero (h : ∀ tail, t ≠ .char 'n' :: tail) : markLength t = 0 := by
  cases t with
  | nil => rfl
  | cons c t =>
    rw [markLength, if_neg]
    simpa using fun hc => h t (by rw [hc])

section
variable {lower upper : Char} {digit : CodePoint → Bool}

theorem based?_eq_some_iff : based? lower upper digit t = some n ↔
    ∃ letter more m, t = .char '0' :: .char letter :: more ∧ (letter = lower ∨ letter = upper) ∧
      run digit more = m + 1 ∧ n = m + 3 + markLength (more.drop (m + 1)) := by
  constructor
  · intro h
    unfold based? at h
    split at h
    · next letter more =>
      split at h
      · next hletter =>
        split at h
        · cases h
        · next m hrun =>
          refine ⟨letter, more, m, rfl, by simpa using hletter, hrun, ?_⟩
          split at h
          · next heq =>
            cases h
            simp [markLength, heq]
          · next hne =>
            cases h
            rw [markLength_eq_zero hne]
      · cases h
    · cases h
  · rintro ⟨letter, more, m, rfl, hletter, hrun, rfl⟩
    have hletter : (letter = lower || letter = upper) = true := by simpa using hletter
    simp only [based?, hletter, if_true, hrun]
    split
    · next heq => simp [heq, markLength]
    · next hne => rw [markLength_eq_zero hne]

section

variable (hdigit : ∀ c, digit c = true → c.continuesIdentifier = true)
include hdigit

theorem based?_append (h : based? lower upper digit (t ++ rest) = some t.length)
    (hrest : EndsWord rest') : based? lower upper digit (t ++ rest') = some t.length := by
  obtain ⟨letter, more, m, heq, hletter, hrun, hlength⟩ := based?_eq_some_iff.mp h
  match t with
  | [] | [_] => simp only [length_nil, length_cons] at hlength; omega
  | a :: b :: u =>
    simp only [cons_append, cons.injEq] at heq
    obtain ⟨rfl, rfl, rfl⟩ := heq
    simp only [length_cons] at hlength
    have hm : m + 1 ≤ u.length := by omega
    refine based?_eq_some_iff.mpr ⟨letter, u ++ rest', m, rfl, hletter,
      run_append hrun hm (hrest.not_any hdigit), ?_⟩
    rw [drop_append_of_le_length hm] at hlength ⊢
    cases hdrop : u.drop (m + 1) with
    | nil =>
      have hle : u.length ≤ m + 1 := drop_eq_nil_iff.mp hdrop
      rw [nil_append, markLength, if_neg (hrest.ne (by decide)), length_cons,
        length_cons]
      omega
    | cons c v =>
      rw [hdrop] at hlength
      exact hlength

theorem based?_append_none (hlower : (CodePoint.char lower).continuesIdentifier = true)
    (hupper : (CodePoint.char upper).continuesIdentifier = true)
    (h : based? lower upper digit (t ++ rest) = none) (hrest : EndsWord rest') :
    based? lower upper digit (t ++ rest') = none := by
  rw [Option.eq_none_iff_forall_ne_some] at h ⊢
  intro n hn
  obtain ⟨letter, more, m, heq, hletter, hrun, -⟩ := based?_eq_some_iff.mp hn
  match t with
  | [] =>
    rw [nil_append] at heq
    exact hrest.ne (c := '0') (by decide) (by rw [heq]; rfl)
  | [a] =>
    obtain ⟨-, rfl⟩ := cons.inj heq
    rcases hletter with rfl | rfl
    · exact hrest.ne hlower rfl
    · exact hrest.ne hupper rfl
  | a :: b :: u =>
    simp only [cons_append, cons.injEq] at heq
    obtain ⟨rfl, rfl, rfl⟩ := heq
    have hpos : run digit (u ++ rest) ≠ 0 := by
      intro hzero
      rw [run_append hzero (Nat.zero_le _) (hrest.not_any hdigit)] at hrun
      cases hrun
    obtain ⟨m', hm'⟩ := Nat.exists_eq_succ_of_ne_zero hpos
    exact h _ (based?_eq_some_iff.mpr ⟨letter, u ++ rest, m', rfl, hletter, hm', rfl⟩)

end

end

theorem bigInteger?_eq_some_iff : bigInteger? t = some n ↔
    ∃ m more, run CodePoint.isDigit t = m + 1 ∧ t.drop (m + 1) = .char 'n' :: more ∧
      EndsWord more ∧ n = m + 2 := by
  constructor
  · intro h
    unfold bigInteger? at h
    split at h
    · cases h
    · next m hrun =>
      split at h
      · next more hdrop =>
        split at h
        · next c more =>
          split at h
          · cases h
          · next hc =>
            cases h
            exact ⟨m, _, hrun, hdrop, by simpa [EndsWord] using hc, rfl⟩
        · cases h
          exact ⟨m, [], hrun, hdrop, rfl, rfl⟩
      · cases h
  · rintro ⟨m, more, hrun, hdrop, hmore, rfl⟩
    simp only [bigInteger?, hrun, hdrop]
    cases more with
    | nil => rfl
    | cons c more => simpa [EndsWord] using hmore

theorem bigInteger?_append (h : bigInteger? (t ++ rest) = some t.length)
    (hrest : EndsNumber rest') : bigInteger? (t ++ rest') = some t.length := by
  obtain ⟨m, more, hrun, hdrop, -, hlength⟩ := bigInteger?_eq_some_iff.mp h
  refine bigInteger?_eq_some_iff.mpr ⟨m, rest', run_append hrun (by omega) hrest.digit, ?_,
    hrest.word, hlength⟩
  rw [drop_append_of_le_length (by omega)] at hdrop ⊢
  obtain ⟨c, hc⟩ : ∃ c, t.drop (m + 1) = [c] :=
    length_eq_one_iff.mp (by rw [length_drop]; omega)
  rw [hc] at hdrop ⊢
  rw [(cons.inj hdrop).1]
  rfl

/-- A decimal number is not a big integer before a text that goes on with neither. -/
theorem bigInteger?_append_none (h : decimal? (t ++ rest) = some t.length)
    (hrest : EndsNumber rest') : bigInteger? (t ++ rest') = none := by
  rw [Option.eq_none_iff_forall_ne_some]
  intro n hn
  obtain ⟨m, more, hrun, hdrop, -, -⟩ := bigInteger?_eq_some_iff.mp hn
  have hdecimal : decimal? (t ++ rest') = some (m + 1) := by
    have hmantissa : mantissa? (t ++ rest') = some (m + 1) := by
      simp only [mantissa?, hrun, hdrop]
      rfl
    rw [decimal?, hmantissa, Option.map_some, hdrop]
    rfl
  rw [decimal?_append h hrest, Option.some_inj] at hdecimal
  rw [← hdecimal, drop_left] at hdrop
  exact hrest.word.ne (c := 'n') (by decide) (by rw [hdrop]; rfl)

theorem continuesIdentifier_of_isHexDigit (c : CodePoint) (h : isHexDigit c = true) :
    c.continuesIdentifier = true := by
  simp only [isHexDigit, Bool.or_eq_true, Bool.and_eq_true, decide_eq_true_eq] at h
  exact continuesIdentifier_of_ascii (by omega)

theorem continuesIdentifier_of_isOctalDigit (c : CodePoint) (h : isOctalDigit c = true) :
    c.continuesIdentifier = true := by
  simp only [isOctalDigit, Bool.and_eq_true, decide_eq_true_eq] at h
  exact continuesIdentifier_of_ascii (by omega)

theorem continuesIdentifier_of_isBinaryDigit (c : CodePoint) (h : isBinaryDigit c = true) :
    c.continuesIdentifier = true := by
  simp only [isBinaryDigit, Bool.or_eq_true, beq_iff_eq] at h
  rcases h with rfl | rfl <;> decide

/-- **A number stays one before anything that cannot extend it.** -/
theorem number?_append {kind : LexemeKind} (h : number? (t ++ rest) = some (kind, t.length))
    (hrest : EndsNumber rest') :
    ∃ kind', number? (t ++ rest') = some (kind', t.length) ∧ kind'.token? = some .number := by
  unfold number? at h ⊢
  split at h
  · next n hhex =>
    cases h
    rw [based?_append continuesIdentifier_of_isHexDigit hhex hrest.word]
    exact ⟨_, rfl, rfl⟩
  · next hhex =>
  rw [based?_append_none continuesIdentifier_of_isHexDigit (by decide) (by decide) hhex hrest.word]
  split at h
  · next n hoctal =>
    cases h
    rw [based?_append continuesIdentifier_of_isOctalDigit hoctal hrest.word]
    exact ⟨_, rfl, rfl⟩
  · next hoctal =>
  rw [based?_append_none continuesIdentifier_of_isOctalDigit (by decide) (by decide) hoctal
    hrest.word]
  split at h
  · next n hbinary =>
    cases h
    rw [based?_append continuesIdentifier_of_isBinaryDigit hbinary hrest.word]
    exact ⟨_, rfl, rfl⟩
  · next hbinary =>
  rw [based?_append_none continuesIdentifier_of_isBinaryDigit (by decide) (by decide) hbinary
    hrest.word]
  split at h
  · next n hbig =>
    cases h
    rw [bigInteger?_append hbig hrest]
    exact ⟨_, rfl, rfl⟩
  · next hbig =>
    obtain ⟨n, hdecimal, heq⟩ := Option.map_eq_some_iff.mp h
    cases heq
    rw [bigInteger?_append_none hdecimal hrest, decimal?_append hdecimal hrest]
    exact ⟨_, rfl, rfl⟩

end

/-- The code points that a number can start with. -/
theorem head_of_number? {found : LexemeKind × Nat} (h : number? (c :: rest) = some found) :
    c.isDigit = true ∨ c = '.' := by
  cases hdigit : c.isDigit with
  | true => exact .inl rfl
  | false =>
    refine .inr (Classical.byContradiction fun hne => ?_)
    rw [number?_eq_none hdigit fun hc => absurd hc hne] at h
    cases h

theorem code?_number (ht : IsNumeral t) (hrest : EndsNumber rest) :
    ∃ kind, code? (t ++ rest) = some (kind, t.length) ∧ kind.token? = some .number := by
  obtain ⟨rest', kind', hscanned⟩ := ht.scanned
  obtain ⟨c, more, rfl, hblank⟩ := ht.start
  obtain ⟨kind, hnumber, htoken⟩ := number?_append hscanned hrest
  have hhead := head_of_number? hnumber
  have hne (d : Char) (hd : (CodePoint.char d).isDigit = false) (hd' : d ≠ '.') :
      c ≠ .char d := by
    rintro rfl
    simp [hd, hd'] at hhead
  refine ⟨kind, ?_, htoken⟩
  rw [cons_append] at hnumber ⊢
  obtain ⟨hline, hblock⟩ := comments_eq_none (more ++ rest) (hne '/' (by decide) (by decide))
  simp [code?, hblank, hline, hblock, hne '\x60' (by decide) (by decide),
    hne '"' (by decide) (by decide), hne '\'' (by decide) (by decide), hnumber]

end ViewMarkup.Script.Lexeme
