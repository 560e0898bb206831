import ViewMarkup.Proofs.Script.Spelling

/-!
# Lexemes tile a text

The scanner is a loop with a stack of modes: the first rule of the mode on top that matches gives the
next lexeme, and may push a mode or pop one.

* `code?_bounds`, `template?_bounds`: a rule that matches takes something, and no more than there is.
* `step_turn` is the turn of the loop, `Run` the loop, and `scanFrom_run` a run over each text.
* `ofLexemes_eq_ok_iff`: when a text has tokens, and which.
-/

namespace ViewMarkup.Script

open List

namespace Lexeme

variable {c : CodePoint} {rest t : Text} {kind : LexemeKind} {n offset : Nat} {modes modes' : List Mode}

/-! ### Every rule makes progress -/

theorem quotedTail?_bounds {quote : CodePoint} (h : quotedTail? quote t = some n) :
    1 ≤ n ∧ n ≤ t.length := by
  fun_induction quotedTail? quote t generalizing n with
  | case1 => cases h
  | case2 x rest ih | case5 c rest _ _ _ ih =>
    obtain ⟨m, hm, rfl⟩ := Option.map_eq_some_iff.mp h
    have := ih hm
    simp only [length_cons]
    omega
  | case3 => cases h; simp
  | case4 => cases h

theorem chunk_le_length (t : Text) : chunk t ≤ t.length := by
  fun_induction chunk t <;> simp only [length_cons, length_nil] <;> omega

theorem lineComment?_bounds (h : lineComment? t = some n) : 1 ≤ n ∧ n ≤ t.length := by
  obtain ⟨rest, hrest, rfl⟩ := Option.map_eq_some_iff.mp h
  obtain rfl := Text.after?_eq_some_iff.mp hrest
  have := run_le_length (fun c => c != '\n') rest
  simp only [length_append, Text.ofString, length_map]
  exact ⟨by omega, Nat.add_le_add_left this 2⟩

theorem blockComment?_bounds (h : blockComment? t = some n) : 1 ≤ n ∧ n ≤ t.length := by
  obtain ⟨rest, hrest, h⟩ := Option.bind_eq_some_iff.mp h
  obtain ⟨⟨inside, after⟩, hcut, rfl⟩ := Option.map_eq_some_iff.mp h
  obtain rfl := Text.after?_eq_some_iff.mp hrest
  obtain rfl := Text.cut?_append hcut
  simp [Text.ofString]

theorem word?_bounds (h : word? t = some (kind, n)) : kind ≠ .unknown ∧ 1 ≤ n ∧ n ≤ t.length := by
  unfold word? at h
  split at h
  · cases h
  · next c rest =>
    split at h <;> cases h
    have := run_le_length CodePoint.continuesIdentifier rest
    refine ⟨?_, by simpa [run] using this⟩
    split
    · nofun
    · split <;> nofun

theorem code?_bounds (h : code? t = some (kind, n)) : kind ≠ .unknown ∧ 1 ≤ n ∧ n ≤ t.length := by
  unfold code? at h
  split at h
  · cases h
  next c rest =>
  have hquoted {quote : CodePoint} {m : Nat}
      (h : (if c = quote then quotedTail? quote rest else none) = some m) : m ≤ rest.length := by
    split at h
    · exact (quotedTail?_bounds h).2
    · cases h
  split at h
  · next hblank =>
    cases h
    exact ⟨by simp, by simp [run, hblank], run_le_length _ _⟩
  split at h
  · next hline => cases h; exact ⟨by simp, lineComment?_bounds hline⟩
  split at h
  · next hblock => cases h; exact ⟨by simp, blockComment?_bounds hblock⟩
  split at h
  · cases h; simp
  split at h
  · next hfound => cases h; exact ⟨by simp, by omega, Nat.succ_le_succ (hquoted hfound)⟩
  split at h
  · next hfound => cases h; exact ⟨by simp, by omega, Nat.succ_le_succ (hquoted hfound)⟩
  split at h
  · next hnumber =>
    cases h
    obtain ⟨htoken, hbounds⟩ := number?_bounds hnumber
    refine ⟨?_, hbounds⟩
    rintro rfl
    cases htoken
  split at h
  · next hword => cases h; exact word?_bounds hword
  · obtain ⟨s, rfl, hbounds, -⟩ := symbol?_eq_some h
    exact ⟨by simp, hbounds⟩

theorem template?_bounds (h : template? t = some (kind, n)) :
    kind ≠ .unknown ∧ 1 ≤ n ∧ n ≤ t.length := by
  have hle := chunk_le_length t
  unfold template? at h
  split at h
  · cases h; simp
  · cases h; simp
  · split at h <;> cases h
    exact ⟨by simp, by omega, by omega⟩

/-! ### The loop with its stack -/

/-- What a turn of the loop may do to the modes on the stack: leave them, push one or pop one.  The
root state lies below the modes, where no turn gets at it. -/
inductive Turn : List Mode → List Mode → Prop
  | stay {modes : List Mode} : Turn modes modes
  | push {modes : List Mode} (mode : Mode) : Turn modes (mode :: modes)
  | pop {mode : Mode} {modes : List Mode} : Turn (mode :: modes) modes

/-- **A step takes something, and no more than there is, and pops only what has been pushed.**  What no
rule matches is taken by single code points. -/
theorem step_turn (ht : t ≠ []) (h : step modes t = (kind, n, modes')) :
    1 ≤ n ∧ n ≤ t.length ∧ (kind = .unknown → n = 1) ∧ Turn modes modes' := by
  have hpos := length_pos_iff.mpr ht
  have hmatched {kind' : LexemeKind} (hbounds : kind' ≠ .unknown ∧ 1 ≤ n ∧ n ≤ t.length)
      (hkind : kind = .unknown → kind' = .unknown) (hturn : Turn modes modes') :
      1 ≤ n ∧ n ≤ t.length ∧ (kind = .unknown → n = 1) ∧ Turn modes modes' :=
    ⟨hbounds.2.1, hbounds.2.2, fun h => absurd (hkind h) hbounds.1, hturn⟩
  unfold step at h
  split at h
  · split at h <;> cases h
    · next hrule => exact hmatched (template?_bounds hrule) id .pop
    · next hrule => exact hmatched (template?_bounds hrule) id (.push _)
    · next hrule => exact hmatched (template?_bounds hrule) id .stay
    · exact ⟨Nat.le_refl 1, hpos, fun _ => rfl, .stay⟩
  · split at h
    · next hrule => cases h; exact hmatched (code?_bounds hrule) id (.push _)
    · next hrule =>
      split at h <;> cases h
      · exact hmatched (code?_bounds hrule) nofun .pop
      · exact hmatched (code?_bounds hrule) id .pop
      · exact hmatched (code?_bounds hrule) id .stay
    · next hrule =>
      split at h <;> cases h
      · exact hmatched (code?_bounds hrule) id .stay
      · exact hmatched (code?_bounds hrule) id (.push _)
    · next hrule => cases h; exact hmatched (code?_bounds hrule) id .stay
    · cases h; exact ⟨Nat.le_refl 1, hpos, fun _ => rfl, .stay⟩

/-- A run of the loop from some modes and an offset to the end of a text. -/
inductive Run : List Mode → Nat → Text → List Lexeme → Prop
  | stop {modes : List Mode} {offset : Nat} : Run modes offset [] []
  | turn {modes modes' : List Mode} {offset : Nat} {text rest : Text} {kind : LexemeKind}
      {lexemes : List Lexeme} (htext : text ≠ [])
      (hstep : step modes (text ++ rest) = (kind, text.length, modes'))
      (hunknown : kind = .unknown → text.length = 1) (hturn : Turn modes modes')
      (h : Run modes' (offset + text.length) rest lexemes) :
      Run modes offset (text ++ rest) (⟨kind, text, offset⟩ :: lexemes)

/-- **Scanning is a run of the loop.** -/
theorem scanFrom_run (modes : List Mode) (offset : Nat) (t : Text) :
    Run modes offset t (scanFrom modes offset t) := by
  fun_induction scanFrom modes offset t with
  | case1 => exact .stop
  | case2 modes offset c rest kind n modes' hstep text ih =>
    obtain ⟨hpos, hle, hunknown, hturn⟩ := step_turn (cons_ne_nil c rest) hstep
    have hlength : text.length = n := by
      rw [length_cons, length_take_of_le] <;> rw [length_cons] at hle <;> omega
    have htext : c :: rest = text ++ rest.drop (n - 1) := by simp [text]
    rw [htext] at hstep ⊢
    exact .turn nofun (hlength ▸ hstep) (hlength ▸ hunknown) hturn ih

/-- The lexemes of a run stand one after the other, from the offset on. -/
theorem Run.tiles {lexemes : List Lexeme} (h : Run modes offset t lexemes) :
    (lexemes.map (·.text)).flatten = t ∧ (∀ x ∈ lexemes, x.text ≠ []) ∧
      ∀ before x after, lexemes = before ++ x :: after →
        x.offset = offset + (before.map (·.text)).flatten.length := by
  induction h with
  | stop => exact ⟨rfl, nofun, by simp⟩
  | turn htext _ _ _ _ ih =>
    obtain ⟨hflatten, hne, hoffset⟩ := ih
    refine ⟨by simp [hflatten], forall_mem_cons.mpr ⟨htext, hne⟩, ?_⟩
    rintro (_ | ⟨_, before⟩) x after ⟨⟩
    · rfl
    · rw [hoffset before x after rfl, map_cons, flatten_cons, length_append, Nat.add_assoc]

theorem Run.pairwise_offset {lexemes : List Lexeme} (h : Run modes offset t lexemes) :
    lexemes.Pairwise (·.offset < ·.offset) := by
  induction h with
  | stop => exact .nil
  | turn htext _ _ _ hrest ih =>
    refine .cons (fun y hy => ?_) ih
    obtain ⟨before, after, hlexemes⟩ := append_of_mem hy
    rw [hrest.tiles.2.2 before y after hlexemes]
    have := length_pos_iff.mpr htext
    dsimp only
    omega

end Lexeme

namespace TokenStream

variable {stop : Nat} {lexemes before : List Lexeme} {stream : TokenStream}

/-- A line feed stands in the white space and comments at the end of some lexemes. -/
def lineFeedSince (before : List Lexeme) : Bool :=
  (before.reverse.takeWhile (·.kind.token?.isNone)).any (·.text.contains '\n')

/-- The tokens among some lexemes after others. -/
def tokensAfter (before lexemes : List Lexeme) : List Token :=
  (lexemes.zipIdx before.length).filterMap fun (x, i) => x.kind.token?.map
    (⟨·, x.text, x.offset, lineFeedSince ((before ++ lexemes).take i)⟩)

theorem tokensAfter_cons (x : Lexeme) : tokensAfter before (x :: lexemes) =
    (x.kind.token?.map (⟨·, x.text, x.offset, lineFeedSince before⟩)).toList ++
      tokensAfter (before ++ [x]) lexemes := by
  rw [tokensAfter, zipIdx_cons, filterMap_cons, tokensAfter]
  cases h : x.kind.token? <;> simp [h]

theorem lineFeedSince_append (x : Lexeme) : lineFeedSince (before ++ [x]) =
    (x.kind.token?.isNone && (lineFeedSince before || x.text.contains '\n')) := by
  cases h : x.kind.token?.isNone <;> simp [lineFeedSince, h, Bool.or_comm]

/-- **A text has tokens if every lexeme is known: those that are no white space and no comments.** -/
theorem ofLexemes_eq_ok_iff (htext : ∀ x ∈ lexemes, x.text ≠ []) :
    ofLexemes stop (lineFeedSince before) lexemes = .ok stream ↔
      (∀ x ∈ lexemes, x.kind ≠ .unknown) ∧
        stream = ⟨tokensAfter before lexemes, stop, lineFeedSince (before ++ lexemes)⟩ := by
  induction lexemes generalizing before stream with
  | nil => simp [ofLexemes, tokensAfter, eq_comm]
  | cons x lexemes ih =>
    obtain ⟨hx, htext⟩ := forall_mem_cons.mp htext
    have hfeed := @lineFeedSince_append before x
    have ih {stream : TokenStream} := @ih (before ++ [x]) stream htext
    rw [append_assoc, singleton_append] at ih
    rw [ofLexemes, tokensAfter_cons, forall_mem_cons]
    split
    next kind hkind =>
      have hknown : x.kind ≠ .unknown := by rintro h; simp [h, LexemeKind.token?] at hkind
      rw [hkind, Option.isNone_some, Bool.false_and] at hfeed
      rw [← hfeed]
      constructor
      · intro h
        obtain ⟨following, hfollowing, ⟨⟩⟩ := exists_of_bind_eq_ok h
        obtain ⟨hrest, rfl⟩ := ih.mp hfollowing
        exact ⟨⟨hknown, hrest⟩, by rw [hkind]; rfl⟩
      · rintro ⟨⟨_, hrest⟩, rfl⟩
        rw [ih.mpr ⟨hrest, rfl⟩, hkind]
        rfl
    next hkind hunknown =>
      obtain ⟨c, rest, htext⟩ := exists_cons_of_ne_nil hx
      rw [htext]
      exact ⟨by simp, fun h => absurd hunknown h.1.1⟩
    next hkind hknown =>
      rw [hkind, Option.isNone_none, Bool.true_and] at hfeed
      rw [← hfeed, ih, hkind]
      exact and_congr_left' (iff_and_self.mpr fun _ => hknown)

/-- Tokens stand at increasing places if their lexemes do. -/
theorem pairwise_tokensAfter (h : lexemes.Pairwise (·.offset < ·.offset)) :
    (tokensAfter before lexemes).Pairwise (·.offset < ·.offset) := by
  rw [← zipIdx_map_fst before.length lexemes, pairwise_map] at h
  refine h.filterMap _ fun (x, i) (y, j) hlt a ha b hb => ?_
  obtain ⟨_, _, rfl⟩ := Option.map_eq_some_iff.mp ha
  obtain ⟨_, _, rfl⟩ := Option.map_eq_some_iff.mp hb
  exact hlt

end TokenStream

/-- **No code point is lost between a text and its tokens.** Scanning is the run of the rules from the
root mode alone. The lexemes are not empty, stand one after the other and spell the text. If none of
them is unknown, the tokens are those that are neither white space nor comments. -/
theorem scan_tiles (source : Text) :
    Lexeme.Run [] 0 source (Lexeme.scan source) ∧
      (∀ x ∈ Lexeme.scan source, x.text ≠ []) ∧
      ((Lexeme.scan source).map (·.text)).flatten = source ∧
      (∀ before x after, Lexeme.scan source = before ++ x :: after →
        x.offset = (before.map (·.text)).flatten.length) ∧
      (∀ stream, TokenStream.ofText source = .ok stream ↔
        (∀ x ∈ Lexeme.scan source, x.kind ≠ .unknown) ∧
          stream = ⟨TokenStream.tokensAfter [] (Lexeme.scan source), source.length,
            TokenStream.lineFeedSince (Lexeme.scan source)⟩) ∧
      (TokenStream.tokensAfter [] (Lexeme.scan source)).Pairwise (·.offset < ·.offset) := by
  have hrun : Lexeme.Run [] 0 source (Lexeme.scan source) := Lexeme.scanFrom_run [] 0 source
  obtain ⟨hflatten, htext, hoffset⟩ := hrun.tiles
  exact ⟨hrun, htext, hflatten, fun before x after h => (hoffset before x after h).trans (Nat.zero_add _),
    fun stream => @TokenStream.ofLexemes_eq_ok_iff _ _ [] _ htext,
    TokenStream.pairwise_tokensAfter hrun.pairwise_offset⟩

end ViewMarkup.Script
