import ViewMarkup.Proofs.Script.Scanning

/-!
# Well-spelt tokens

What the scanner promises about the tokens of a text: names are spelt as such, numbers are numerals,
reserved words and symbols have their own spellings, and the text of a template literal comes in one
piece between two substitutions.

* `Lexeme.step_spelt`: every lexeme is spelt as its kind says.
* `wellSpelt_of_ofText`: so are the tokens of a text.
-/

namespace ViewMarkup.Script

open List

variable {t : Text} {modes : List Mode} {stream : TokenStream}

/-- What the kind of a token says about its spelling. -/
def Spelt : TokenKind → Text → Prop
  | .name => IsName
  | .keyword k => (· = k.spelling)
  | .constant c => (· = c.spelling)
  | .number => IsNumeral
  | .string => fun _ => True
  | .symbol s => (· = s.spelling)
  | .backtick => (· = "`")
  | .chunk => fun text => text ≠ [] ∧ IsChunk text
  | .interpolationOpen => (· = "$\x7b")
  | .interpolationClose => (· = "\x7d")

/-- What comes after a piece of a template. -/
def EndsPiece (ts : List Token) : Prop :=
  ∀ t ∈ ts.head?, t.kind = .backtick ∨ t.kind = .interpolationOpen

/-- Tokens that are spelt as their kinds say, where no two pieces of a template are neighbours. -/
def WellSpelt : List Token → Prop
  | [] => True
  | t :: ts => Spelt t.kind t.text ∧ (t.kind = .chunk → EndsPiece ts) ∧ WellSpelt ts

namespace Lexeme

variable {rest : Text} {n : Nat} {kind : LexemeKind} {c : CodePoint} {token : TokenKind}

/-! ### Pieces of a template -/

theorem chunk_eq_zero_of_ends (h : EndsChunk rest) : chunk rest = 0 := by
  cases h <;> simp [chunk]

/-- What is cut off as a piece is one wherever such a piece may end. -/
theorem isChunk_take (t : Text) : IsChunk (t.take (chunk t)) := by
  intro rest hrest
  fun_induction chunk t with
  | case1 x more ih =>
    rw [take_succ_cons, take_succ_cons, cons_append, cons_append, chunk, ih]
    rfl
  | case2 more | case3 c more hescape hopen hends | case5 => exact chunk_eq_zero_of_ends hrest
  | case4 c more hescape hopen hends ih =>
    rw [take_succ_cons, cons_append, chunk, if_neg hends, ih]
    · rfl
    · rintro x more' rfl
      simp at hends
    · -- A dollar sign is not followed by a brace: in the text it was not, and no piece ends so.
      rintro more' rfl hmore
      cases hlength : chunk more with
      | zero =>
        rw [hlength, take_zero, nil_append] at hmore
        cases hrest <;> cases hmore
      | succ n =>
        cases more with
        | nil => cases hlength
        | cons d more =>
          rw [hlength, take_succ_cons, cons_append, cons.injEq] at hmore
          exact hopen more rfl (by rw [hmore.1])

/-- A piece goes as far as it can. -/
theorem chunk_drop (t : Text) : chunk (t.drop (chunk t)) = 0 := by
  fun_induction chunk t with
  | case1 x more ih => exact ih
  | case2 more => simp [chunk]
  | case3 c more hescape hopen hends => rw [drop_zero, chunk, if_pos hends] <;> assumption
  | case4 c more hescape hopen hends ih => exact ih
  | case5 => rfl

/-! ### Numbers and words -/

theorem run_le_length (p : CodePoint → Bool) (t : Text) : run p t ≤ t.length :=
  ( takeWhile_prefix p).length_le

theorem markLength_le_length (t : Text) : markLength t ≤ t.length := by
  cases t with
  | nil => exact Nat.le_refl 0
  | cons c t =>
    rw [markLength, length_cons]
    split <;> omega

theorem based?_bounds {lower upper : Char} {digit : CodePoint → Bool}
    (h : based? lower upper digit t = some n) : 1 ≤ n ∧ n ≤ t.length := by
  obtain ⟨letter, more, m, rfl, -, hrun, rfl⟩ := based?_eq_some_iff.mp h
  have hdigits := run_le_length digit more
  have hmark := markLength_le_length (more.drop (m + 1))
  simp only [length_drop, length_cons] at hmark ⊢
  omega

theorem bigInteger?_bounds (h : bigInteger? t = some n) : 1 ≤ n ∧ n ≤ t.length := by
  obtain ⟨m, more, -, hdrop, -, rfl⟩ := bigInteger?_eq_some_iff.mp h
  have hlength := congrArg length hdrop
  simp only [length_drop, length_cons] at hlength
  omega

theorem exponent_le_length (t : Text) : exponent t ≤ t.length := by
  unfold exponent
  split
  · split
    · split
      · next c digits =>
        have hsigned := run_le_length CodePoint.isDigit digits
        have hplain := run_le_length CodePoint.isDigit (c :: digits)
        simp only [length_cons] at hplain ⊢
        split <;> split <;> omega
      · omega
    · omega
  · omega

theorem mantissa?_bounds (h : mantissa? t = some n) : 1 ≤ n ∧ n ≤ t.length := by
  have hdigits := run_le_length CodePoint.isDigit t
  unfold mantissa? at h
  split at h
  · split at h
    · next rest _ =>
      have hfraction := run_le_length CodePoint.isDigit rest
      split at h
      · cases h
      · cases h
        rw [length_cons]
        omega
    · cases h
  · split at h
    · next m _ rest hdrop =>
      have hfraction := run_le_length CodePoint.isDigit rest
      have hlength := congrArg length hdrop
      simp only [length_drop, length_cons] at hlength
      cases h
      omega
    · cases h
      omega

theorem decimal?_bounds (h : decimal? t = some n) : 1 ≤ n ∧ n ≤ t.length := by
  rw [decimal?, Option.map_eq_some_iff] at h
  obtain ⟨m, hmantissa, rfl⟩ := h
  have hbounds := mantissa?_bounds hmantissa
  have hexponent := exponent_le_length (t.drop m)
  rw [length_drop] at hexponent
  omega

theorem number?_bounds (h : number? t = some (kind, n)) :
    kind.token? = some .number ∧ 1 ≤ n ∧ n ≤ t.length := by
  unfold number? at h
  split at h
  · next hbased => cases h; exact ⟨rfl, based?_bounds hbased⟩
  split at h
  · next hbased => cases h; exact ⟨rfl, based?_bounds hbased⟩
  split at h
  · next hbased => cases h; exact ⟨rfl, based?_bounds hbased⟩
  split at h
  · next hbig => cases h; exact ⟨rfl, bigInteger?_bounds hbig⟩
  · obtain ⟨m, hdecimal, heq⟩ := Option.map_eq_some_iff.mp h
    cases heq
    exact ⟨rfl, decimal?_bounds hdecimal⟩

theorem isNumeral_take (hblank : c.isBlank = false) (h : number? (c :: rest) = some (kind, n)) :
    IsNumeral ((c :: rest).take n) := by
  obtain ⟨-, hpos, hle⟩ := number?_bounds h
  refine ⟨⟨c, rest.take (n - 1), take_cons hpos, hblank⟩, (c :: rest).drop n, kind, ?_⟩
  rw [take_append_drop, h, length_take_of_le hle]

theorem wordKind_spelt {word : Text} {kind : TokenKind} (hword : IsWord word)
    (hkind : (wordKind word).token? = some kind) : kind ≠ .chunk ∧ Spelt kind word := by
  unfold wordKind at hkind
  cases hconstant : Constant.ofText? word with
  | some c =>
    rw [hconstant] at hkind
    cases hkind
    exact ⟨nofun, (of_decide_eq_true (find?_some hconstant :)).symm⟩
  | none =>
    rw [hconstant] at hkind
    cases hkeyword : Keyword.ofText? word with
    | some k =>
      rw [hkeyword] at hkind
      cases hkind
      exact ⟨nofun, (of_decide_eq_true (find?_some hkeyword :)).symm⟩
    | none =>
      rw [hkeyword] at hkind
      cases hkind
      exact ⟨nofun, hword, hconstant, hkeyword⟩

/-- The word that is cut off. -/
theorem word?_eq_some (h : word? t = some (kind, n)) :
    IsWord (t.take n) ∧ kind = wordKind (t.take n) := by
  unfold word? at h
  split at h
  · cases h
  · next c rest =>
    split at h
    · next hstart =>
      cases h
      have htake : (c :: rest).take (c :: rest.takeWhile CodePoint.continuesIdentifier).length =
          c :: rest.takeWhile CodePoint.continuesIdentifier :=
        (prefix_iff_eq_take.mp
          (cons_prefix_cons.mpr ⟨rfl, takeWhile_prefix _⟩)).symm
      rw [htake]
      exact ⟨⟨hstart, all_takeWhile⟩, rfl⟩
    · cases h

/-! ### Lexemes -/

theorem cons_take (hn : 1 ≤ n) : c :: rest.take (n - 1) = (c :: rest).take n :=
  (take_cons hn).symm

theorem symbol?_eq_some (h : symbol? t = some (kind, n)) :
    ∃ s, kind = .symbol s ∧ (1 ≤ n ∧ n ≤ t.length) ∧ t.take n = s.spelling := by
  obtain ⟨s, hfind, heq⟩ := Option.map_eq_some_iff.mp h
  cases heq
  have hfits := find?_some hfind
  unfold symbolFits at hfits
  split at hfits
  · cases hfits
  · next rest hafter =>
    rw [Text.after?_eq_some_iff] at hafter
    rw [hafter, take_left, length_append]
    exact ⟨s, rfl, ⟨by cases s <;> decide, Nat.le_add_right _ _⟩, rfl⟩

theorem code?_spelt (h : code? (c :: rest) = some (kind, n)) (htoken : kind.token? = some token) :
    token ≠ .chunk ∧ Spelt token (c :: rest.take (n - 1)) := by
  unfold code? at h
  dsimp only at h
  split at h
  · cases h; cases htoken
  next hblank =>
  split at h
  · cases h; cases htoken
  split at h
  · cases h; cases htoken
  split at h
  · next hbacktick => cases h; cases htoken; exact ⟨nofun, by rw [hbacktick]; rfl⟩
  split at h
  · cases h; cases htoken; exact ⟨nofun, trivial⟩
  split at h
  · cases h; cases htoken; exact ⟨nofun, trivial⟩
  split at h
  · next found hnumber =>
    cases h
    obtain ⟨hkind, hpos, -⟩ := number?_bounds hnumber
    cases htoken.symm.trans hkind
    rw [cons_take hpos]
    exact ⟨nofun, isNumeral_take (by simpa using hblank) hnumber⟩
  split at h
  · next found hfound =>
    cases h
    obtain ⟨hword, rfl⟩ := word?_eq_some hfound
    have hpos : 1 ≤ n := by
      cases n with
      | zero => cases hword
      | succ n => omega
    rw [cons_take hpos]
    exact wordKind_spelt hword htoken
  · obtain ⟨s, rfl, ⟨hpos, -⟩, htake⟩ := symbol?_eq_some h
    cases htoken
    rw [cons_take hpos]
    exact ⟨nofun, htake⟩

theorem template?_kind (h : template? t = some (kind, n)) :
    kind = .backtick ∨ kind = .interpolationOpen ∨ kind = .chunk ∧ 1 ≤ n ∧ n = chunk t := by
  unfold template? at h
  split at h
  · cases h; exact .inl rfl
  · cases h; exact .inr (.inl rfl)
  · split at h
    · cases h
    · next m hchunk =>
      cases h
      exact .inr (.inr ⟨rfl, by omega, hchunk.symm⟩)

theorem template?_spelt (h : template? (c :: rest) = some (kind, n))
    (htoken : kind.token? = some token) :
    Spelt token (c :: rest.take (n - 1)) ∧ (token = .chunk → chunk (rest.drop (n - 1)) = 0) := by
  unfold template? at h
  split at h
  · next heq => cases heq; cases h; cases htoken; exact ⟨rfl, by simp⟩
  · next heq => cases heq; cases h; cases htoken; exact ⟨rfl, by simp⟩
  · split at h
    · cases h
    · next m hchunk =>
      cases h
      cases htoken
      have htake := isChunk_take (c :: rest)
      have hdrop := chunk_drop (c :: rest)
      rw [hchunk] at htake hdrop
      exact ⟨⟨by simp, htake⟩, fun _ => hdrop⟩

/-- **Every lexeme is spelt as its kind says, and a piece of a template goes as far as it can.** -/
theorem step_spelt {modes' : List Mode} (h : step modes (c :: rest) = (kind, n, modes'))
    (htoken : kind.token? = some token) :
    Spelt token (c :: rest.take (n - 1)) ∧
      (token = .chunk → modes'.head? = some .template ∧ chunk (rest.drop (n - 1)) = 0) := by
  unfold step at h
  split at h
  · next outer =>
    split at h
    · next hfound => cases h; cases htoken; exact ⟨(template?_spelt hfound rfl).1, nofun⟩
    · next hfound => cases h; cases htoken; exact ⟨(template?_spelt hfound rfl).1, nofun⟩
    · next hfound =>
      cases h
      obtain ⟨hspelt, hdrop⟩ := template?_spelt hfound htoken
      exact ⟨hspelt, fun heq => ⟨rfl, hdrop heq⟩⟩
    · cases h; cases htoken
  · split at h
    · next hfound => cases h; cases htoken; exact ⟨(code?_spelt hfound rfl).2, nofun⟩
    · next hfound =>
      split at h <;> cases h <;> cases htoken <;> exact ⟨(code?_spelt hfound rfl).2, nofun⟩
    · next hfound =>
      split at h <;> cases h <;> cases htoken <;> exact ⟨(code?_spelt hfound rfl).2, nofun⟩
    · next hfound =>
      cases h
      obtain ⟨hne, hspelt⟩ := code?_spelt hfound htoken
      exact ⟨hspelt, fun heq => absurd heq hne⟩
    · cases h; cases htoken

/-- After a piece of a template comes its end, a substitution or an unknown code point. -/
theorem step_of_chunk_eq_zero (hmodes : modes.head? = some .template) (hchunk : chunk t = 0) :
    (step modes t).1 = .backtick ∨ (step modes t).1 = .interpolationOpen ∨
      (step modes t).1 = .unknown := by
  obtain ⟨outer, rfl⟩ := head?_eq_some_iff.mp hmodes
  rw [step]
  split
  · exact .inl rfl
  · exact .inr (.inl rfl)
  · next hbacktick hopen hfound =>
    rcases template?_kind hfound with rfl | rfl | ⟨rfl, hpos, hn⟩
    · exact (hbacktick rfl).elim
    · exact (hopen rfl).elim
    · omega
  · exact .inr (.inr rfl)

end Lexeme

/-! ### Tokens -/

theorem exists_of_bind_eq_ok {ε α β : Type} {r : Except ε α} {f : α → Except ε β} {b : β}
    (h : r >>= f = .ok b) : ∃ a, r = .ok a ∧ f a = .ok b := by
  cases r with
  | error fault => cases h
  | ok a => exact ⟨a, rfl, h⟩

/-- The tokens of a rest are well spelt.  Where a piece of a template has just been passed, the first
of them ends it. -/
theorem wellSpelt_ofLexemes {stop offset : Nat} {newline : Bool}
    (h : TokenStream.ofLexemes stop newline (Lexeme.scanFrom modes offset t) = .ok stream) :
    WellSpelt stream.tokens ∧
      (modes.head? = some .template → Lexeme.chunk t = 0 → EndsPiece stream.tokens) := by
  induction modes, offset, t using Lexeme.scanFrom.induct generalizing newline stream with
  | case1 modes offset =>
    rw [Lexeme.scanFrom, TokenStream.ofLexemes] at h
    cases h
    exact ⟨trivial, fun _ _ => by rintro _ ⟨⟩⟩
  | case2 modes offset c rest kind n modes' hstep text =>
    rename_i ih
    have hafter (hmodes : modes.head? = some .template) (hchunk : Lexeme.chunk (c :: rest) = 0) :
        kind = .backtick ∨ kind = .interpolationOpen ∨ kind = .unknown := by
      have hkind := Lexeme.step_of_chunk_eq_zero hmodes hchunk
      rwa [hstep] at hkind
    rw [Lexeme.scanFrom, hstep, TokenStream.ofLexemes] at h
    dsimp only at h
    split at h
    · next token _ htoken =>
      obtain ⟨following, hfollowing, heq⟩ := exists_of_bind_eq_ok h
      cases heq
      obtain ⟨hspelt, hpiece⟩ := Lexeme.step_spelt hstep htoken
      obtain ⟨hrest, hapart⟩ := ih hfollowing
      refine ⟨⟨hspelt, fun heq => ?_, hrest⟩, fun hmodes hchunk => ?_⟩
      · obtain ⟨hmodes', hdrop⟩ := hpiece heq
        exact hapart hmodes' hdrop
      · rintro u ⟨⟩
        rcases hafter hmodes hchunk with rfl | rfl | rfl <;> cases htoken
        · exact .inl rfl
        · exact .inr rfl
    · cases h
    · next hunknown htoken =>
      refine ⟨(ih h).1, fun hmodes hchunk => ?_⟩
      rcases hafter hmodes hchunk with rfl | rfl | rfl
      · cases htoken
      · cases htoken
      · exact (hunknown rfl).elim

/-- **The tokens of a text are well spelt.** -/
theorem wellSpelt_ofText {source : Text}
    (h : TokenStream.ofText source = .ok stream) : WellSpelt stream.tokens :=
  (wellSpelt_ofLexemes h).1

end ViewMarkup.Script
