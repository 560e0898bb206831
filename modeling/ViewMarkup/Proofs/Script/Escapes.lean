import ViewMarkup.Proofs.Script.Values

/-!
# The grammar of escape sequences

What escape sequences and the strings that hold them look like, said without reference to how they
are decoded.

* `wellEscaped_iff`: which texts are decoded, and how decoding fails.
* `code?_quote`, `stringValue_quote`: a quoted string is scanned and read as it was written.
* `strictLiteral_quote_iff`: which quoted strings are literals of strict code.
-/

namespace ViewMarkup.Script

open List

variable {c : CodePoint} {t e w rest digits following v : Text} {n : Nat} {value : Text}

/-! ### The grammar -/

def IsHex (digits : Text) : Prop :=
  ∀ c ∈ digits, (hexDigit? c).isSome

/-- The number that hexadecimal digits spell. -/
def hexNumber (digits : Text) : Nat :=
  digits.foldl (fun n c => n * 16 + (c.digitIn? 16).getD 0) 0

/-- The line ends that a backslash takes out. -/
def lineEnds : List Text :=
  ["\n", "\r", "\r\n", "\u2028", "\u2029"]

/-- An escape sequence without its backslash, and what it stands for. -/
inductive IsEscape : Text → Text → Prop
  | simple {c : CodePoint} {stands : Char} (h : simpleEscape? c = some stands) :
      IsEscape [c] [.char stands]
  | byte {digits : Text} {c : CodePoint} (hlength : digits.length = 2) (hhex : IsHex digits)
      (hc : c.toNat = hexNumber digits) : IsEscape (.char 'x' :: digits) [c]
  | unit {digits : Text} {c : CodePoint} (hlength : digits.length = 4) (hhex : IsHex digits)
      (hc : c.toNat = hexNumber digits) : IsEscape (.char 'u' :: digits) [c]
  | braced {digits : Text} {c : CodePoint} (hne : digits ≠ []) (hhex : IsHex digits)
      (hc : c.toNat = hexNumber digits) :
      IsEscape (.char 'u' :: .char '\x7b' :: (digits ++ [.char '\x7d'])) [c]
  | lineEnd {t : Text} (h : t ∈ lineEnds) : IsEscape t []
  | other {c : CodePoint} (hsimple : simpleEscape? c = none) (hx : c ≠ 'x') (hu : c ≠ 'u')
      (hend : [c] ∉ lineEnds) : IsEscape [c] [c]

/-- A carriage return takes a line feed after it along. -/
def IsWhole (e rest : Text) : Prop :=
  e = [.char '\r'] → rest.head? ≠ some (.char '\n')

/-- A text and the string it denotes: its code points and its escape sequences in order, where
`allowed` says which code points may stand for themselves and `fits` before which texts an escape
sequence may stand. -/
inductive Denotes (allowed : CodePoint → Prop) (fits : Text → Text → Prop) : Text → Text → Prop
  | nil : Denotes allowed fits [] []
  | plain {c : CodePoint} {t v : Text} (hslash : c ≠ '\\') (hc : allowed c)
      (h : Denotes allowed fits t v) : Denotes allowed fits (c :: t) (c :: v)
  | escaped {e w t v : Text} (he : IsEscape e w) (hwhole : IsWhole e t) (hfits : fits e t)
      (h : Denotes allowed fits t v) : Denotes allowed fits (.char '\\' :: (e ++ t)) (w ++ v)

/-- All escape sequences of a text are well formed. -/
def WellEscaped (t v : Text) : Prop :=
  Denotes (fun _ => True) (fun _ _ => True) t v

/-! ### One escape sequence -/

theorem hexDigit?_isSome (h : (hexDigit? c).isSome) :
    hexDigit? c = c.digitIn? 16 ∧ c.isBlank = false ∧ c ≠ '\x7b' ∧ c ≠ '\x7d' := by
  have hlow : c.toNat < 128 := by
    rw [hexDigit?] at h
    split at h
    · assumption
    · cases h
  have hdigit : hexDigit? c = c.digitIn? 16 := if_pos hlow
  have hrange : 48 ≤ c.toNat ∧ c.toNat ≤ 102 := by
    rw [hdigit] at h
    grind [CodePoint.digitIn?, CodePoint.digitValue?, CodePoint.digit?]
  refine ⟨hdigit, Lexeme.isBlank_eq_false (by omega) hlow, ?_, ?_⟩ <;>
  · rintro rfl
    exact absurd hrange (by decide)

theorem ofNat?_eq_some_iff : CodePoint.ofNat? n = some c ↔ c.toNat = n := by
  constructor
  · fun_cases CodePoint.ofNat? n with
    | case1 hvalid =>
      rintro ⟨⟩
      rfl
    | case2 _ hrange =>
      rintro ⟨⟩
      exact Nat.add_sub_cancel' hrange.1
    | case3 => nofun
  · rintro rfl
    exact CodePoint.ofNat?_toNat c

theorem toNat_lt (c : CodePoint) : c.toNat < 0x110000 := by
  cases c with
  | char c =>
    have hvalid : c.toNat.isValidChar := c.valid
    rw [CodePoint.toNat]
    unfold Nat.isValidChar at hvalid
    omega
  | surrogate offset =>
    simp only [CodePoint.toNat]
    omega

theorem unicodeEscape_eq_ok_iff :
    unicodeEscape digits = .ok c ↔ Integer.read? .hexadecimal digits = some (c.toNat : Int) := by
  have hlt := toNat_lt c
  unfold unicodeEscape pointOfEscape
  cases Integer.read? .hexadecimal digits with
  | none => simp
  | some n =>
    dsimp only
    split
    · next hwide =>
      simp only [reduceCtorEq, Option.some.injEq, false_iff]
      omega
    · split
      · simp
      · next n _ =>
        rw [Option.some_inj]
        change _ ↔ (n : Int) = c.toNat
        rw [Int.ofNat_inj, eq_comm (a := n), ← ofNat?_eq_some_iff]
        cases CodePoint.ofNat? n <;> simp

/-- Hexadecimal digits are a number for the reader of integers too. -/
theorem unicodeEscape_of_isHex (hne : digits ≠ []) (hhex : IsHex digits) :
    unicodeEscape digits = .ok c ↔ c.toNat = hexNumber digits := by
  have hdigit : ∀ c ∈ digits, (c.digitIn? Base.hexadecimal.value).isSome ∧ c.isBlank = false :=
    fun c hc => by
      obtain ⟨heq, hblank, -⟩ := hexDigit?_isSome (hhex c hc)
      exact ⟨heq ▸ hhex c hc, hblank⟩
  rw [unicodeEscape_eq_ok_iff, Integer.read?_eq_foldl hne hdigit, Option.some_inj, eq_comm]
  exact Int.ofNat_inj

theorem hexNumber_pair {a b : CodePoint} {x y : Nat} (ha : hexDigit? a = some x)
    (hb : hexDigit? b = some y) : hexNumber [a, b] = 16 * x + y := by
  have hdigit {c : CodePoint} {n : Nat} (h : hexDigit? c = some n) : c.digitIn? 16 = some n :=
    (hexDigit?_isSome (Option.isSome_of_eq_some h)).1 ▸ h
  simp [hexNumber, hdigit ha, hdigit hb, Nat.mul_comm]

/-- An escape sequence is decoded on its own, whatever follows it. -/
theorem escape_append (h : IsEscape e w) (hwhole : IsWhole e rest) :
    escape (e ++ rest) = .ok (w, rest) := by
  cases h with
  | simple h =>
    unfold simpleEscape? at h
    split at h <;> cases h <;> rfl
  | @byte digits c hlength hhex hc =>
    rcases digits with _ | ⟨a, _ | ⟨b, _ | _⟩⟩ <;> cases hlength
    obtain ⟨x, hx⟩ := Option.isSome_iff_exists.mp (hhex a (by simp))
    obtain ⟨y, hy⟩ := Option.isSome_iff_exists.mp (hhex b (by simp))
    rw [hexNumber_pair hx hy] at hc
    simp [escape, hx, hy, ofNat?_eq_some_iff.mpr hc]
  | @unit digits c hlength hhex hc =>
    have hne : digits ≠ [] := by rintro rfl; cases hlength
    rw [cons_append, escape]
    · rw [take_left' hlength, drop_left' hlength, (unicodeEscape_of_isHex hne hhex).mpr hc]
    · intro more heq
      obtain ⟨d, more', rfl⟩ := exists_cons_of_ne_nil hne
      cases heq
      exact (hexDigit?_isSome (hhex _ (by simp))).2.2.1 rfl
  | @braced digits c hne hhex hc =>
    have hclose : ∀ c ∈ digits, (c != .char '\x7d') = true := fun c hc => by
      simpa using (hexDigit?_isSome (hhex c hc)).2.2.2
    rw [cons_append, cons_append, append_assoc, escape]
    simp [takeWhile_append_of_pos hclose, (unicodeEscape_of_isHex hne hhex).mpr hc]
  | lineEnd h =>
    simp only [lineEnds, mem_cons, not_mem_nil, or_false] at h
    rcases h with rfl | rfl | rfl | rfl | rfl
    · rfl
    · change escape (.char '\r' :: rest) = _
      rw [escape]
      · rfl
      · simp
      · simp
      · simp
      · rintro more ⟨⟩ rfl
        exact hwhole rfl rfl
    · rfl
    · rfl
    · rfl
  | @other c hsimple hx hu hend =>
    have hne (d : Char) (hd : [CodePoint.char d] ∈ lineEnds) : c ≠ .char d := by
      rintro rfl
      exact hend hd
    have hreturn := hne '\r' (by decide)
    rw [singleton_append, escape, hsimple]
    · simp [hreturn, hne '\n' (by decide), hne '\u2028' (by decide), hne '\u2029' (by decide)]
    all_goals grind

/-- What follows a backslash names a code point, though not in as many hexadecimal digits as its
notation asks for: with a sign, blanks, underscores, the mark of the base, digits of another script
or, at the end of the text, with fewer than four digits. -/
inductive IsLoose : Text → Prop
  | unit {rest : Text} {c : CodePoint} (hbrace : rest.head? ≠ some (.char '\x7b'))
      (hc : unicodeEscape (rest.take 4) = .ok c)
      (h : ¬(IsHex (rest.take 4) ∧ (rest.take 4).length = 4)) : IsLoose (.char 'u' :: rest)
  | braced {digits rest : Text} {c : CodePoint} (hclose : .char '\x7d' ∉ digits)
      (hc : unicodeEscape digits = .ok c) (h : ¬IsHex digits) :
      IsLoose (.char 'u' :: .char '\x7b' :: (digits ++ .char '\x7d' :: rest))

/-- What is decoded is an escape sequence or a loose one. -/
theorem isEscape_of_escape (h : escape t = .ok (w, rest)) (hloose : ¬IsLoose t) :
    ∃ e, t = e ++ rest ∧ IsEscape e w ∧ IsWhole e rest := by
  have hwhole {c : CodePoint} {rest : Text}
      (h : ∀ more, c = .char '\r' → rest = .char '\n' :: more → False) : IsWhole [c] rest := by
    rintro ⟨⟩ hhead
    obtain ⟨more, hmore⟩ := head?_eq_some_iff.mp hhead
    exact h more rfl hmore
  revert h
  fun_cases escape t with
  | case2 a b rest x y hb ha c hc =>
    rintro ⟨⟩
    refine ⟨[.char 'x', a, b], rfl, .byte rfl (by simp [IsHex, ha, hb]) ?_, by rintro ⟨⟩⟩
    rw [hexNumber_pair ha hb]
    exact ofNat?_eq_some_iff.mp hc
  | case7 more digits close rest hdrop c hc =>
    rintro ⟨⟩
    obtain ⟨hsplit, hclose⟩ := eq_append_of_drop rfl hdrop
    have hhex : IsHex digits := Classical.byContradiction fun hhex => by
      rw [hsplit] at hloose
      exact hloose (.braced hclose hc hhex)
    have hne : digits ≠ [] := fun hnil => by
      rw [hnil] at hc
      cases hc
    refine ⟨.char 'u' :: .char '\x7b' :: (digits ++ [.char '\x7d']), ?_,
      .braced hne hhex ((unicodeEscape_of_isHex hne hhex).mp hc), by rintro ⟨⟩⟩
    rw [cons_append, cons_append, append_assoc]
    exact congrArg (fun more => .char 'u' :: .char '\x7b' :: more) hsplit
  | case9 more hbrace c hc =>
    rintro ⟨⟩
    have hhead : more.head? ≠ some (.char '\x7b') := fun hhead => by
      obtain ⟨after, hmore⟩ := head?_eq_some_iff.mp hhead
      exact hbrace after hmore
    obtain ⟨hhex, hlength⟩ : IsHex (more.take 4) ∧ (more.take 4).length = 4 :=
      Classical.byContradiction fun hhex => hloose (.unit hhead hc hhex)
    have hne : more.take 4 ≠ [] := fun hnil => by rw [hnil] at hlength; cases hlength
    exact ⟨.char 'u' :: more.take 4, by simp,
      .unit hlength hhex ((unicodeEscape_of_isHex hne hhex).mp hc), by rintro ⟨⟩⟩
  | case11 rest =>
    rintro ⟨⟩
    exact ⟨"\r\n", rfl, .lineEnd (by decide), fun h => absurd h (by decide)⟩
  | case12 c rest _ _ _ hreturn stands hstands =>
    rintro ⟨⟩
    exact ⟨[c], rfl, .simple hstands, hwhole hreturn⟩
  | case13 c rest _ _ _ hreturn _ hend =>
    rintro ⟨⟩
    refine ⟨[c], rfl, .lineEnd ?_, hwhole hreturn⟩
    simp only [Bool.or_eq_true, decide_eq_true_eq] at hend
    rcases hend with ((rfl | rfl) | rfl) | rfl <;> decide
  | case14 c rest hx _ hu hreturn hsimple hend =>
    rintro ⟨⟩
    refine ⟨[c], rfl, .other hsimple hx hu ?_, hwhole hreturn⟩
    simpa [lineEnds, Text.ofString, and_assoc, and_left_comm] using hend
  | _ => simp

/-- An escape sequence that starts with the letter `u`. -/
theorem IsEscape.after_u {more : Text} (h : IsEscape e w) (ht : e ++ rest = .char 'u' :: more) :
    (∃ digits, digits.length = 4 ∧ IsHex digits ∧ more = digits ++ rest) ∨
      ∃ digits, IsHex digits ∧ more = .char '\x7b' :: (digits ++ .char '\x7d' :: rest) := by
  cases h with
  | simple h =>
    cases ht
    cases h
  | byte => cases ht
  | @unit digits c hlength hhex hc =>
    cases ht
    exact .inl ⟨digits, hlength, hhex, rfl⟩
  | @braced digits c hne hhex hc =>
    cases ht
    exact .inr ⟨digits, hhex, by simp⟩
  | lineEnd h =>
    simp only [lineEnds, mem_cons, not_mem_nil, or_false] at h
    rcases h with rfl | rfl | rfl | rfl | rfl <;> cases ht
  | other _ _ hu _ =>
    cases ht
    exact absurd rfl hu

theorem IsEscape.not_isLoose (h : IsEscape e w) : ¬IsLoose (e ++ rest) := by
  intro hloose
  generalize ht : e ++ rest = t at hloose
  cases hloose with
  | unit hbrace hc hhex =>
    obtain ⟨digits, hlength, hdigits, rfl⟩ | ⟨digits, hdigits, rfl⟩ := h.after_u ht
    · rw [take_left' hlength] at hhex
      exact hhex ⟨hdigits, hlength⟩
    · exact hbrace rfl
  | braced hclose hc hhex =>
    obtain ⟨digits, hlength, hdigits, hmore⟩ | ⟨digits, hdigits, hmore⟩ := h.after_u ht
    · obtain ⟨d, more, rfl⟩ := exists_cons_of_length_pos (l := digits) (by omega)
      obtain ⟨rfl, -⟩ := cons.inj hmore
      exact (hexDigit?_isSome (hdigits _ (by simp))).2.2.1 rfl
    · -- Both hold the digits before the first closing brace.
      have hpass {t : Text} (h : .char '\x7d' ∉ t) : ∀ c ∈ t, (c != .char '\x7d') = true :=
        fun c hc => by simpa using fun heq : c = .char '\x7d' => h (heq ▸ hc)
      have hdigits' : .char '\x7d' ∉ digits := fun hmem =>
        (hexDigit?_isSome (hdigits _ hmem)).2.2.2 rfl
      have heq := congrArg (takeWhile (· != .char '\x7d')) (cons.inj hmore).2
      rw [takeWhile_append_of_pos (hpass hclose), takeWhile_append_of_pos (hpass hdigits')] at heq
      obtain rfl : _ = digits := by simpa using heq
      exact hhex hdigits

/-! ### Texts -/

/-- One of the escape sequences of a text, which are found from left to right, is loose. -/
inductive HoldsLoose : Text → Prop
  | here {t : Text} (h : IsLoose t) : HoldsLoose (.char '\\' :: t)
  | plain {c : CodePoint} {t : Text} (hc : c ≠ '\\') (h : HoldsLoose t) : HoldsLoose (c :: t)
  | escaped {t decoded following : Text} (ht : escape t = .ok (decoded, following))
      (h : HoldsLoose following) : HoldsLoose (.char '\\' :: t)

theorem decodeEscapes_escape {decoded : Text} (h : escape t = .ok (decoded, following)) :
    decodeEscapes (.char '\\' :: t) = (decodeEscapes following).map (decoded ++ ·) := by
  rw [decodeEscapes, if_pos rfl]
  split
  · next heq => rw [h] at heq; cases heq
  · next heq =>
    rw [h] at heq
    cases heq
    cases decodeEscapes following <;> rfl

section

variable {allowed : CodePoint → Prop} {fits : Text → Text → Prop}

theorem Denotes.decodes (h : Denotes allowed fits t v) : decodeEscapes t = .ok v := by
  induction h with
  | nil => rw [decodeEscapes]
  | plain hslash _ _ ih => rw [decodeEscapes, if_neg hslash, ih]
  | escaped he hwhole _ _ ih => rw [decodeEscapes_escape (escape_append he hwhole), ih]; rfl

theorem Denotes.not_holdsLoose (h : Denotes allowed fits t v) : ¬HoldsLoose t := by
  intro hloose
  induction h with
  | nil => cases hloose
  | plain hslash _ _ ih =>
    cases hloose with
    | here => exact hslash rfl
    | plain _ h => exact ih h
    | escaped => exact hslash rfl
  | escaped he hwhole _ _ ih =>
    cases hloose with
    | here h => exact he.not_isLoose h
    | plain hslash => exact hslash rfl
    | escaped ht h =>
      cases (escape_append he hwhole).symm.trans ht
      exact ih h

end

theorem wellEscaped_of_decodeEscapes (h : decodeEscapes t = .ok v) (hloose : ¬HoldsLoose t) :
    WellEscaped t v := by
  fun_induction decodeEscapes t generalizing v with
  | case1 =>
    cases h
    exact .nil
  | case4 rest decoded following hescape value hvalue ih =>
    cases h
    obtain ⟨e, rfl, he, hwhole⟩ := isEscape_of_escape hescape fun h => hloose (.here h)
    exact .escaped he hwhole trivial (ih hvalue fun h => hloose (.escaped hescape h))
  | case6 c rest hslash value hvalue ih =>
    cases h
    exact .plain hslash trivial (ih hvalue fun h => hloose (.plain hslash h))
  | _ => cases h

/-- **A text is well escaped exactly if it is decoded and none of its escape sequences is loose**,
and then it is decoded as what it denotes.  Otherwise decoding reports a fault in the syntax, except
where an escape sequence holds a number beyond 32 bits. -/
theorem wellEscaped_iff (t : Text) :
    (∀ v, WellEscaped t v ↔ decodeEscapes t = .ok v ∧ ¬HoldsLoose t) ∧
      (decodeEscapes t = .error .outOfRange ↔ HoldsWide t) :=
  ⟨fun _ => ⟨fun h => ⟨h.decodes, h.not_holdsLoose⟩, fun h => wellEscaped_of_decodeEscapes h.1 h.2⟩,
    decodeEscapes_eq_outOfRange_iff⟩

/-- Two digits are enough at the end of a text, and a number beyond 32 bits is no fault in the
syntax. -/
theorem decodeEscapes_short_unit :
    (decodeEscapes "\\u12" = .ok "\x12" ∧ ∀ v, ¬WellEscaped "\\u12" v) ∧
      decodeEscapes "\\u\x7b80000000\x7d" = .error .outOfRange := by
  have hloose : IsLoose [.char 'u', .char '1', .char '2'] :=
    .unit (c := '\x12') (by decide) rfl fun h => absurd h.2 (by decide)
  have hescape : escape "u12" = .ok ("\x12", []) := rfl
  refine ⟨⟨?_, fun v h => h.not_holdsLoose (.here hloose)⟩, decodeEscapes_eq_outOfRange_iff.mpr
    (.here ⟨"80000000", [], 0x80000000, rfl, by decide, by decide +kernel, .inr (by decide)⟩)⟩
  change decodeEscapes (.char '\\' :: "u12") = _
  rw [decodeEscapes, if_pos rfl]
  split
  · next heq => cases hescape.symm.trans heq
  · next heq =>
    cases hescape.symm.trans heq
    rw [decodeEscapes]
    rfl

/-! ### Quoted strings -/

/-- The code points that stand for themselves between single quotes. -/
def isPlain (c : CodePoint) : Bool :=
  c != '\'' && c != '\\' && c != '\n'

theorem isPlain_iff : isPlain c = true ↔ c ≠ '\'' ∧ c ≠ '\\' ∧ c ≠ '\n' := by
  simp [isPlain, and_assoc]

def isAsciiDigit (c : CodePoint) : Bool :=
  48 ≤ c.toNat && c.toNat ≤ 57

/-- The two hexadecimal digits of a number. -/
def hexText (n : Nat) : Text :=
  let digits : Text := (Nat.toDigits 16 n).map .char
  replicate (2 - digits.length) (.char '0') ++ digits

theorem hexText_spells (h : n < 128) : (hexText n).length = 2 ∧ (hexText n).all isPlain = true ∧
      (∀ c ∈ hexText n, (hexDigit? c).isSome) ∧ n = hexNumber (hexText n) := by
  have hall : ∀ n : Fin 128, (hexText n).length = 2 ∧ (hexText n).all isPlain = true ∧
      (∀ c ∈ hexText n, (hexDigit? c).isSome) ∧ n.val = hexNumber (hexText n) := by
    decide +kernel
  exact hall ⟨n, h⟩

/-- A backslash and the code points after it spell one code point, which is no digit.  A digit
stands after the backslash only in the spelling of the code point zero. -/
structure SpellsPoint (c d : CodePoint) (t : Text) : Prop where
  escape : IsEscape (d :: t) [c]
  tail : t.all isPlain = true
  start : d ≠ '\r'
  other : isAsciiDigit c = false
  zero : c = '\x00' → d = '0' ∧ t = []
  digit : c ≠ '\x00' → isAsciiDigit d = false

theorem SpellsPoint.whole {d : CodePoint} (h : SpellsPoint c d t) : IsWhole (d :: t) rest :=
  fun heq => absurd (cons.inj heq).1 h.start

/-- A code point is written as itself or as one escape sequence. -/
theorem quotePoint_cases (c : CodePoint) :
    (quotePoint c = [c] ∧ isPlain c = true ∧ c ≠ '\r' ∧ c ≠ '\x00') ∨
      ∃ d t, quotePoint c = .char '\\' :: d :: t ∧ SpellsPoint c d t := by
  have hspells {c d : CodePoint} {t : Text} (h : IsEscape (d :: t) [c])
      (hc : t.all isPlain = true ∧ d ≠ '\r' ∧ isAsciiDigit c = false ∧ isAsciiDigit d = false ∧
        c ≠ '\x00') : SpellsPoint c d t :=
    ⟨h, hc.1, hc.2.1, hc.2.2.1, fun hzero => absurd hzero hc.2.2.2.2, fun _ => hc.2.2.2.1⟩
  unfold quotePoint
  split
  iterate 2
    exact .inr ⟨_, _, rfl, hspells (.other rfl (by decide) (by decide) (by decide)) (by decide)⟩
  iterate 6 exact .inr ⟨_, _, rfl, hspells (.simple rfl) (by decide)⟩
  · exact .inr ⟨_, _, rfl, .simple rfl, rfl, by decide, rfl, fun _ => ⟨rfl, rfl⟩,
      fun h => absurd rfl h⟩
  iterate 2
    exact .inr ⟨_, _, rfl, hspells (.unit rfl (by unfold IsHex; decide) rfl) (by decide)⟩
  · split
    · next hcontrol =>
      simp only [Bool.or_eq_true, decide_eq_true_eq] at hcontrol
      obtain ⟨hlength, hplain, hhex, hvalue⟩ := hexText_spells (show c.toNat < 128 by omega)
      refine .inr ⟨_, _, rfl, hspells (.byte hlength hhex hvalue) ⟨hplain, by decide, ?_, rfl, ‹_›⟩⟩
      simp only [isAsciiDigit, Bool.and_eq_false_iff, decide_eq_false_iff_not]
      omega
    · exact .inl ⟨rfl, isPlain_iff.mpr ⟨‹_›, ‹_›, ‹_›⟩, ‹_›, ‹_›⟩

section

variable (value : Text)

theorem wellEscaped_quote : WellEscaped (value.flatMap quotePoint) value := by
  induction value with
  | nil => exact .nil
  | cons c value ih =>
    rw [flatMap_cons]
    obtain ⟨hquote, hplain, -⟩ | ⟨d, t, hquote, h⟩ := quotePoint_cases c
    · rw [hquote]
      exact .plain (isPlain_iff.mp hplain).2.1 trivial ih
    · rw [hquote]
      exact .escaped h.escape h.whole trivial ih

theorem decodeEscapes_quote : decodeEscapes (value.flatMap quotePoint) = .ok value :=
  (wellEscaped_quote value).decodes

/-- **A string is read as it was written.** -/
theorem stringValue_quote : Parser.stringValue (quote value) = .ok (.string value) := by
  have hinner : ((quote value).drop 1).dropLast = value.flatMap quotePoint :=
    dropLast_concat
  rw [Parser.stringValue, hinner, decodeEscapes_quote]

namespace Lexeme

theorem quotedTail?_plain (h : t.all isPlain = true) :
    quotedTail? '\'' (t ++ rest) = (quotedTail? '\'' rest).map (· + t.length) := by
  induction t with
  | nil => simp
  | cons c t ih =>
    rw [all_cons, Bool.and_eq_true] at h
    obtain ⟨hquote, hslash, hfeed⟩ := isPlain_iff.mp h.1
    rw [cons_append, quotedTail?, if_neg hquote, if_neg (by simp [hslash, hfeed]), ih h.2,
      Option.map_map]
    · rfl
    · rintro _ _ rfl
      exact absurd rfl hslash

theorem quotedTail?_quote : quotedTail? '\'' (value.flatMap quotePoint ++ .char '\'' :: rest) =
      some ((value.flatMap quotePoint).length + 1) := by
  induction value with
  | nil => rfl
  | cons c value ih =>
    have hpoint (rest : Text) : quotedTail? '\'' (quotePoint c ++ rest) =
        (quotedTail? '\'' rest).map (· + (quotePoint c).length) := by
      obtain ⟨hquote, hplain, -⟩ | ⟨d, t, hquote, h⟩ := quotePoint_cases c
      · rw [hquote]
        exact quotedTail?_plain (by simp [hplain])
      · rw [hquote, cons_append, cons_append, quotedTail?, quotedTail?_plain h.tail, Option.map_map]
        rfl
    rw [flatMap_cons, append_assoc, hpoint, ih, length_append, Option.map_some, Option.some_inj]
    omega

theorem code?_quote : code? (quote value ++ rest) = some (.singleQuoted, (quote value).length) := by
  have hquote : quote value ++ rest =
      .char '\'' :: (value.flatMap quotePoint ++ .char '\'' :: rest) := by
    simp [quote, Text.ofString]
  obtain ⟨hline, hblock⟩ := comments_eq_none (c := '\'')
    (value.flatMap quotePoint ++ .char '\'' :: rest) (by decide)
  rw [hquote, code?, if_neg (by decide), hline, hblock]
  dsimp only
  rw [if_neg (by decide), if_neg (by decide), if_pos rfl, quotedTail?_quote]
  simp [quote, Text.ofString]

end Lexeme

end

/-! ### Strict code -/

/-- The code points that may stand for themselves between single quotes. -/
def StrictPlain (c : CodePoint) : Prop :=
  c ≠ '\'' ∧ c ≠ '\n' ∧ c ≠ '\r'

/-- A digit is an escape sequence only if it is a zero that no digit follows. -/
def StrictFits (e rest : Text) : Prop :=
  ∀ d, e = [d] → isAsciiDigit d = true →
    d = '0' ∧ ∀ b ∈ rest.head?, isAsciiDigit b = false

/-- A literal of strict code between single quotes, and its value. -/
def StrictLiteral (t v : Text) : Prop :=
  ∃ body : Text, t = "'" ++ body ++ "'" ∧ Denotes StrictPlain StrictFits body v

theorem denotes_quotePoint_append :
    Denotes StrictPlain StrictFits (quotePoint c ++ t) v ↔
      (c = '\x00' → ∀ b ∈ t.head?, isAsciiDigit b = false) ∧
        ∃ v', v = c :: v' ∧ Denotes StrictPlain StrictFits t v' := by
  obtain ⟨hquote, hplain, hreturn, hnul⟩ | ⟨d, tail, hquote, hspells⟩ := quotePoint_cases c
  · obtain ⟨hmark, hslash, hfeed⟩ := isPlain_iff.mp hplain
    rw [hquote, singleton_append]
    constructor
    · intro h
      cases h with
      | plain _ _ h => exact ⟨fun h => absurd h hnul, _, rfl, h⟩
      | escaped => exact absurd rfl hslash
    · rintro ⟨-, v', rfl, h⟩
      exact .plain hslash ⟨hmark, hfeed, hreturn⟩ h
  · rw [hquote, cons_append]
    constructor
    · intro h
      generalize ht : d :: tail ++ t = following at h
      cases h with
      | plain hslash => exact absurd rfl hslash
      | @escaped e w following v he hwhole hfits h =>
        -- Both escape sequences are what is decoded, so they are the same.
        cases (escape_append hspells.escape hspells.whole).symm.trans (ht ▸ escape_append he hwhole)
        obtain rfl := append_cancel_right ht
        refine ⟨fun hc => ?_, v, rfl, h⟩
        obtain ⟨rfl, rfl⟩ := hspells.zero hc
        exact (hfits '0' rfl rfl).2
    · rintro ⟨hnul, v', rfl, h⟩
      refine .escaped hspells.escape hspells.whole ?_ h
      rintro _ ⟨⟩ hdigit
      by_cases hc : c = '\x00'
      · exact ⟨(hspells.zero hc).1, hnul hc⟩
      · cases hdigit.symm.trans (hspells.digit hc)

/-- A digit is written as itself, and nothing else starts with one. -/
theorem head?_flatMap_quotePoint :
    (∀ b ∈ (value.flatMap quotePoint).head?, isAsciiDigit b = false) ↔
      ∀ b ∈ value.head?, isAsciiDigit b = false := by
  cases value with
  | nil => rfl
  | cons c value =>
    obtain ⟨hquote, -⟩ | ⟨d, t, hquote, h⟩ := quotePoint_cases c
    · simp [hquote]
    · simp [hquote, h.other]
      rfl

theorem denotes_quote_iff : Denotes StrictPlain StrictFits (value.flatMap quotePoint) v ↔
      v = value ∧ ∀ d, isAsciiDigit d = true → ¬ [.char '\x00', d] <:+: value := by
  induction value generalizing v with
  | nil =>
    constructor
    · rintro ⟨⟩
      exact ⟨rfl, by simp⟩
    · rintro ⟨rfl, -⟩
      exact .nil
  | cons c value ih =>
    have hprefix (d : CodePoint) :
        [.char '\x00', d] <+: c :: value ↔ c = '\x00' ∧ d ∈ value.head? := by
      cases value <;> simp [cons_prefix_cons, eq_comm]
    rw [flatMap_cons, denotes_quotePoint_append, head?_flatMap_quotePoint]
    simp only [ih, infix_cons_iff, hprefix]
    grind

theorem strictLiteral_quote : StrictLiteral (quote value) v ↔
      Denotes StrictPlain StrictFits (value.flatMap quotePoint) v := by
  constructor
  · rintro ⟨body, hbody, h⟩
    rwa [append_cancel_left (append_cancel_right hbody)]
  · exact fun h => ⟨_, rfl, h⟩

/-- **A quoted string is a literal of strict code, and its value is the string, exactly if no digit
follows a code point zero in it.** -/
theorem strictLiteral_quote_iff (value v : Text) :
    StrictLiteral (quote value) v ↔
      v = value ∧ ∀ d, isAsciiDigit d = true → ¬ [.char '\x00', d] <:+: value :=
  strictLiteral_quote.trans denotes_quote_iff

/-- A one after a code point zero makes an octal escape sequence. -/
theorem not_strictLiteral_quote :
    quote "\x001" = "'\\01'" ∧ ∀ v, ¬StrictLiteral (quote "\x001") v :=
  ⟨by decide, fun _ h =>
    (denotes_quote_iff.mp (strictLiteral_quote.mp h)).2 '1' rfl ⟨[], [], rfl⟩⟩

end ViewMarkup.Script
