import Mathlib.Algebra.Group.Nat.Defs
import ViewMarkup.Proofs.Script.Lexemes

/-!
# The values of literals

Every number that the scanner cuts off has a value, and a string has none for want of room only where
an escape sequence holds a number beyond 32 bits.

* `Lexeme.exists_readNumber?`: the text of a number can be read.
* `decodeEscapes_eq_outOfRange_iff`: where decoding stops at a number that is too large.
-/

namespace ViewMarkup

open List
open CodePoint (isDigit padsNumber)

variable {c : CodePoint} {p : CodePoint → Bool} {t : Text} {n : Nat}

/-! ### Digits -/

/-- The numbers of the blanks. -/
def blankNumbers : List Nat :=
  [9, 10, 11, 12, 13, 28, 29, 30, 31, 32, 0x85, 0xA0, 0x1680, 0x2000, 0x2001, 0x2002, 0x2003, 0x2004,
   0x2005, 0x2006, 0x2007, 0x2008, 0x2009, 0x200A, 0x2028, 0x2029, 0x202F, 0x205F, 0x3000]

theorem CodePoint.isBlank_of_isDigit (h : c.isDigit = true) : c.isBlank = false := by
  have hnone : ∀ n ∈ blankNumbers, ¬(48 ≤ n ∧ n ≤ 57) ∧ digitIntervals.find n = none := by decide
  cases hblank : c.isBlank with
  | false => rfl
  | true =>
    have hmem : c.toNat ∈ blankNumbers := by
      simp only [isBlank, Bool.or_eq_true, Bool.and_eq_true, decide_eq_true_eq,
        beq_iff_eq] at hblank
      simp only [blankNumbers, mem_cons]
      omega
    obtain ⟨hascii, hfind⟩ := hnone _ hmem
    rw [isDigit, digit?, hfind] at h
    split at h
    · simp [hascii] at h
    · cases h

theorem dropWhile_eq_self (h : ∀ c ∈ t, p c = false) : t.dropWhile p = t := by
  cases t with
  | nil => rfl
  | cons c t => simp [h c]

theorem Text.trimNumber_eq_self (h : ∀ c ∈ t, c.isBlank = false) : t.trimNumber = t := by
  have hpads : ∀ c ∈ t, c.padsNumber = false := fun c hc => by simp [padsNumber, h c hc]
  rw [trimNumber, dropWhile_eq_self hpads, dropWhile_eq_self (by simpa using hpads),
    reverse_reverse]

/-- Where the code points with a property end. -/
theorem takeWhile_dropWhile_append {rest : Text} (ht : ∀ c ∈ t, p c = true)
    (hrest : rest.head?.any p = false) :
    (t ++ rest).takeWhile p = t ∧ (t ++ rest).dropWhile p = rest := by
  rw [takeWhile_append_of_pos ht, dropWhile_append_of_pos ht]
  cases rest with
  | nil => simp
  | cons c rest =>
    have hc : p c = false := by simpa using hrest
    simp [hc]

namespace Integer

variable {base : Nat}

theorem moreDigits?_eq_foldl (h : ∀ c ∈ t, (c.digitIn? base).isSome) (acc : Nat) :
    moreDigits? base acc t =
      some (t.foldl (fun n c => n * base + (c.digitIn? base).getD 0) acc) := by
  induction t generalizing acc with
  | nil => rfl
  | cons c t ih =>
    obtain ⟨hc, ht⟩ := forall_mem_cons.mp h
    obtain ⟨d, hd⟩ := Option.isSome_iff_exists.mp hc
    rw [moreDigits?, hd, Option.bind_some, ih ht, foldl_cons, hd, Option.getD_some]
    rintro c' rest rfl -
    cases hd

/-- Digits of a base are a number in that base. -/
theorem read?_eq_foldl {base : Base} (hne : t ≠ [])
    (ht : ∀ c ∈ t, (c.digitIn? base.value).isSome ∧ c.isBlank = false) :
    read? base t = some (Int.ofNat
      (t.foldl (fun n c => n * base.value + (c.digitIn? base.value).getD 0) 0)) := by
  have hdigits : ∀ c ∈ t, (c.digitIn? base.value).isSome := fun c hc => (ht c hc).1
  have hletter : ∀ letter, .char letter ∈ t →
      letter ≠ '-' ∧ letter ≠ '+' ∧ letter ≠ base.letters.1 ∧ letter ≠ base.letters.2 := by
    intro letter hmem
    have hdigit := hdigits _ hmem
    refine ⟨?_, ?_, ?_, ?_⟩ <;> rintro rfl <;> cases base <;> cases hdigit
  have hmark : dropMark base t = t := by
    unfold dropMark
    split
    · next zero letter rest =>
      have := hletter letter (by simp)
      rw [if_neg (by simp [this])]
    · rfl
  obtain ⟨c, rest, rfl⟩ := exists_cons_of_ne_nil hne
  obtain ⟨hc, hrest⟩ := forall_mem_cons.mp hdigits
  obtain ⟨d, hd⟩ := Option.isSome_iff_exists.mp hc
  rw [read?, Text.trimNumber_eq_self fun c hc => (ht c hc).2]
  split
  · next heq => cases heq; exact absurd rfl (hletter '-' (by simp)).1
  · next heq => cases heq; exact absurd rfl (hletter '+' (by simp)).2.1
  · rw [hmark, digits?, hd]
    simp [moreDigits?_eq_foldl hrest, hd]

/-! ### Bounds -/

theorem digitIn?_lt {d : Nat} (h : c.digitIn? base = some d) : d < base := by
  simpa using (Option.filter_eq_some_iff.mp h).2

theorem moreDigits?_lt {acc : Nat} (h : moreDigits? base acc t = some n) :
    n < (acc + 1) * base ^ t.length := by
  -- One more digit multiplies the bound by the base.
  have hstep {acc d length : Nat} (hd : d < base) :
      (acc * base + d + 1) * base ^ length ≤ (acc + 1) * base ^ (length + 1) := by
    rw [Nat.pow_succ', ← Nat.mul_assoc, Nat.add_mul acc, Nat.one_mul]
    exact Nat.mul_le_mul_right _ (by omega)
  fun_induction moreDigits? base acc t with
  | case1 acc =>
    cases h
    simp
  | case2 acc c rest ih =>
    obtain ⟨d, hd, hrest⟩ := Option.bind_eq_some_iff.mp h
    have hbase := digitIn?_lt hd
    calc n < (acc * base + d + 1) * base ^ rest.length := ih d hrest
      _ ≤ (acc + 1) * base ^ (rest.length + 1) := hstep hbase
      _ ≤ (acc + 1) * base ^ (rest.length + 2) :=
          Nat.mul_le_mul_left _ (Nat.pow_le_pow_right (by omega) (by omega))
  | case3 acc c rest _ ih =>
    obtain ⟨d, hd, hrest⟩ := Option.bind_eq_some_iff.mp h
    exact Nat.lt_of_lt_of_le (ih d hrest) (hstep (digitIn?_lt hd))

theorem digits?_lt (h : digits? base t = some n) : n < base ^ t.length := by
  unfold digits? at h
  split at h
  · cases h
  · next c rest =>
    obtain ⟨d, hd, hrest⟩ := Option.bind_eq_some_iff.mp h
    have hbase := digitIn?_lt hd
    calc n < (d + 1) * base ^ rest.length := moreDigits?_lt hrest
      _ ≤ base * base ^ rest.length := Nat.mul_le_mul_right _ hbase
      _ = base ^ (rest.length + 1) := Nat.pow_succ'.symm

theorem length_dropMark_le (base : Base) (t : Text) : (dropMark base t).length ≤ t.length := by
  unfold dropMark
  split
  · split
    · split <;> simp <;> omega
    · exact Nat.le_refl _
  · exact Nat.le_refl _

theorem length_trimNumber_le (t : Text) : t.trimNumber.length ≤ t.length := by
  have hend := (t.dropWhile padsNumber).reverse.dropWhile_suffix padsNumber
  have hstart := t.dropWhile_suffix padsNumber
  have hle := hend.length_le
  rw [length_reverse] at hle
  rw [Text.trimNumber, length_reverse]
  exact Nat.le_trans hle hstart.length_le

/-- A number has no more digits than its text has code points. -/
theorem natAbs_lt_of_read? {base : Base} {n : Int} (h : read? base t = some n) :
    n.natAbs < base.value ^ t.length := by
  have hbound {u : Text} {m : Int} (hu : u.length ≤ t.trimNumber.length)
      (hm : ((digits? base.value (dropMark base u)).bind fun a => some (a : Int)) = some m) :
      m.natAbs < base.value ^ t.length := by
    obtain ⟨k, hk, heq⟩ := Option.bind_eq_some_iff.mp hm
    cases heq
    have hlength := length_dropMark_le base u
    have htrim := length_trimNumber_le t
    exact Nat.lt_of_lt_of_le (digits?_lt hk)
      (Nat.pow_le_pow_right (by cases base <;> decide) (by omega))
  unfold read? at h
  split at h
  · next rest heq =>
    obtain ⟨m, hm, rfl⟩ := Option.map_eq_some_iff.mp h
    rw [Int.natAbs_neg]
    exact hbound (by simp [heq]) hm
  · next rest heq =>
    obtain ⟨m, hm, rfl⟩ := Option.map_eq_some_iff.mp h
    exact hbound (u := rest) (by simp [heq]) hm
  · obtain ⟨m, hm, rfl⟩ := Option.map_eq_some_iff.mp h
    exact hbound (Nat.le_refl _) hm

end Integer

namespace Script

open Lexeme

variable {mark digits : Text}

/-! ### Decimal numbers -/

/-- The exponent of a decimal number, if it has one. -/
inductive IsPower : Text → Prop
  | absent : IsPower []
  | plain {e : CodePoint} {digits : Text} (he : e = 'e' ∨ e = 'E') (hne : digits ≠ [])
      (hdigits : ∀ c ∈ digits, c.isDigit = true) : IsPower (e :: digits)
  | signed {e sign : CodePoint} {digits : Text} (he : e = 'e' ∨ e = 'E')
      (hsign : sign = '+' ∨ sign = '-') (hne : digits ≠ [])
      (hdigits : ∀ c ∈ digits, c.isDigit = true) : IsPower (e :: sign :: digits)

/-- A decimal number: digits, perhaps a point and digits after it, and perhaps an exponent. -/
inductive IsDecimal : Text → Prop
  | whole {whole power : Text} (hne : whole ≠ []) (hwhole : ∀ c ∈ whole, c.isDigit = true)
      (hpower : IsPower power) : IsDecimal (whole ++ power)
  | pointed {whole places power : Text} (hne : whole ≠ [] ∨ places ≠ [])
      (hwhole : ∀ c ∈ whole, c.isDigit = true) (hplaces : ∀ c ∈ places, c.isDigit = true)
      (hpower : IsPower power) : IsDecimal (whole ++ .char '.' :: (places ++ power))

/-- The code points of decimal numbers. -/
def inDecimal (c : CodePoint) : Bool :=
  c.isDigit || [.char '.', .char 'e', .char 'E', .char '+', .char '-'].contains c

theorem IsPower.inDecimal (h : IsPower t) : ∀ c ∈ t, inDecimal c = true := by
  cases h with
  | absent => nofun
  | plain he hne hdigits => grind [Script.inDecimal]
  | signed he hsign hne hdigits => grind [Script.inDecimal]

theorem IsDecimal.inDecimal (h : IsDecimal t) : ∀ c ∈ t, inDecimal c = true := by
  cases h with
  | whole hne hwhole hpower => grind [Script.inDecimal, hpower.inDecimal]
  | pointed hne hwhole hplaces hpower => grind [Script.inDecimal, hpower.inDecimal]

theorem IsPower.head (h : IsPower t) :
    t.head?.any isDigit = false ∧ ∀ rest, t ≠ .char '.' :: rest := by
  cases h with
  | absent => exact ⟨rfl, nofun⟩
  | plain he hne hdigits => rcases he with rfl | rfl <;> exact ⟨rfl, nofun⟩
  | signed he hsign hne hdigits => rcases he with rfl | rfl <;> exact ⟨rfl, nofun⟩

theorem IsPower.isSome_exponent? (h : IsPower t) : (Number.exponent? t).isSome := by
  have hread {digits : Text} (hne : digits ≠ []) (hdigits : ∀ c ∈ digits, c.isDigit = true) :
      (digits.isEmpty || !digits.all isDigit) = false := by
    simpa [hne] using hdigits
  cases h with
  | absent => rfl
  | plain he hne hdigits =>
    simp only [Number.exponent?]
    rw [if_pos (by simpa using he)]
    split
    · exact absurd (hdigits (.char '-') (by simp)) (by decide)
    · exact absurd (hdigits (.char '+') (by simp)) (by decide)
    · simp [hread hne hdigits]
  | signed he hsign hne hdigits =>
    simp only [Number.exponent?]
    rw [if_pos (by simpa using he)]
    rcases hsign with rfl | rfl <;> simp [hread hne hdigits]

theorem IsDecimal.isSome_unsigned? (h : IsDecimal t) {negative : Bool} :
    (Number.unsigned? negative t).isSome := by
  cases h with
  | whole hne hwhole hpower =>
    obtain ⟨htake, hdrop⟩ := takeWhile_dropWhile_append hwhole hpower.head.1
    simp only [Number.unsigned?, htake, hdrop]
    split
    · exact absurd rfl (hpower.head.2 _)
    · simp [hne, hpower.isSome_exponent?]
  | @pointed whole places power hne hwhole hplaces hpower =>
    have hpoint : (CodePoint.char '.' :: (places ++ power)).head?.any isDigit = false := rfl
    obtain ⟨htake, hdrop⟩ := takeWhile_dropWhile_append hwhole hpoint
    obtain ⟨htake', hdrop'⟩ := takeWhile_dropWhile_append hplaces hpower.head.1
    simp only [Number.unsigned?, htake, hdrop, htake', hdrop']
    rw [if_neg (by simpa [Classical.or_iff_not_imp_left] using hne)]
    simp [hpower.isSome_exponent?]

theorem IsDecimal.head (h : IsDecimal t) : ∀ c ∈ t.head?, c.isDigit = true ∨ c = '.' := by
  cases h with
  | @whole whole power hne hwhole hpower =>
    obtain ⟨c, more, rfl⟩ := exists_cons_of_ne_nil hne
    rintro c ⟨⟩
    exact .inl (hwhole c (by simp))
  | @pointed whole places power hne hwhole hplaces hpower =>
    cases whole with
    | nil =>
      rintro c ⟨⟩
      exact .inr rfl
    | cons c more =>
      rintro c ⟨⟩
      exact .inl (hwhole c (by simp))

theorem underscoresFit_of_not_mem (h : .char '_' ∉ t) {before : Option CodePoint} :
    Number.underscoresFit before t = true := by
  induction t generalizing before with
  | nil => rfl
  | cons c t ih =>
    rw [mem_cons, not_or] at h
    simp [Number.underscoresFit, ih h.2, Ne.symm h.1]

/-- A decimal number does not start with a sign, so all of it is read. -/
theorem IsDecimal.isSome_readFloat? (h : IsDecimal t) : (Number.readFloat? t).isSome := by
  have hblank : ∀ c ∈ t, c.isBlank = false := by
    intro c hc
    have hin := h.inDecimal c hc
    simp only [Script.inDecimal, Bool.or_eq_true] at hin
    rcases hin with hdigit | hother
    · exact CodePoint.isBlank_of_isDigit hdigit
    · have hothers : ∀ c ∈ [CodePoint.char '.', .char 'e', .char 'E', .char '+', .char '-'],
          c.isBlank = false := by decide
      exact hothers c (by simpa using hother)
  have hunderscore : .char '_' ∉ t := fun hmem => absurd (h.inDecimal _ hmem) (by decide)
  simp only [Number.readFloat?, Text.trimNumber_eq_self hblank]
  split
  · exact (h.head (.char '-') rfl).elim nofun nofun
  · exact (h.head (.char '+') rfl).elim nofun nofun
  · rw [if_pos (underscoresFit_of_not_mem hunderscore)]
    split
    · rfl
    · split
      · rfl
      · have hfilter : t.filter (· != .char '_') = t :=
          filter_eq_self.mpr fun c hc => by
            simpa using fun heq : c = .char '_' => hunderscore (heq ▸ hc)
        rw [hfilter]
        exact h.isSome_unsigned?

/-! ### Number literals -/

theorem dropBigMark_append (ht : .char 'n' ∉ t) (hmark : ∀ c ∈ mark, c = .char 'n') :
    dropBigMark (t ++ mark) = t := by
  rw [dropBigMark, reverse_append, dropWhile_append_of_pos (by simpa using hmark),
    dropWhile_eq_self, reverse_reverse]
  intro c hc
  simpa using fun heq : c = .char 'n' => ht (heq ▸ mem_reverse.mp hc)

/-- A decimal number has a value, also before the mark of a big integer. -/
theorem IsDecimal.isSome_readNumber? (h : IsDecimal t)
    (hmark : ∀ c ∈ mark, c = .char 'n') : (readNumber? (t ++ mark)).isSome := by
  have hbig : .char 'n' ∉ t := fun hmem => absurd (h.inDecimal _ hmem) (by decide)
  have hbase : announcedBase? t = none := by
    unfold announcedBase?
    split
    · next letter rest =>
      have hletter := h.inDecimal (.char letter) (by simp)
      refine findSome?_eq_none_iff.mpr fun base _ => if_neg ?_
      rw [Bool.or_eq_true, decide_eq_true_eq, decide_eq_true_eq]
      rintro (rfl | rfl) <;> cases base <;> exact absurd hletter (by decide)
    · rfl
  simp only [readNumber?, dropBigMark_append hbig hmark, hbase, Option.isSome_map]
  exact h.isSome_readFloat?

namespace Lexeme

theorem take_run : t.take (run p t) = t.takeWhile p :=
  (prefix_iff_eq_take.mp ( takeWhile_prefix p)).symm

/-- The run that was cut off. -/
theorem take_of_run (h : run p t = n + 1) :
    t.take (n + 1) ≠ [] ∧ ∀ c ∈ t.take (n + 1), p c = true := by
  rw [← h, take_run]
  refine ⟨fun hnil => ?_, all_eq_true.mp all_takeWhile⟩
  simp [run, hnil] at h

theorem isPower_take (t : Text) : IsPower (t.take (exponent t)) := by
  unfold exponent
  split
  · next e rest =>
    split
    · next he =>
      have he : CodePoint.char e = 'e' ∨ CodePoint.char e = 'E' := by simpa using he
      split
      · next c digits =>
        split
        · next hsign =>
          have hsign : c = '+' ∨ c = '-' := by simpa using hsign
          split
          · exact .absent
          · next n hrun =>
            obtain ⟨hne, hdigits⟩ := take_of_run hrun
            exact .signed he hsign hne hdigits
        · split
          · exact .absent
          · next n hrun =>
            obtain ⟨hne, hdigits⟩ := take_of_run hrun
            exact .plain he hne hdigits
      · exact .absent
    · exact .absent
  · exact .absent

theorem isDecimal_take (h : decimal? t = some n) : IsDecimal (t.take n) := by
  obtain ⟨m, hmantissa, rfl⟩ := Option.map_eq_some_iff.mp h
  have hpower := isPower_take (t.drop m)
  rw [take_add]
  unfold mantissa? at hmantissa
  split at hmantissa
  · split at hmantissa
    · next rest _ =>
      split at hmantissa
      · cases hmantissa
      · next k hrun =>
        cases hmantissa
        obtain ⟨hne, hplaces⟩ := take_of_run hrun
        exact .pointed (.inr hne) (forall_mem_nil _) hplaces hpower
    · cases hmantissa
  · next k hrun =>
    obtain ⟨hne, hwhole⟩ := take_of_run hrun
    split at hmantissa
    · next rest hdrop =>
      cases hmantissa
      have hplaces : ∀ c ∈ rest.take (run isDigit rest), c.isDigit = true := by
        rw [take_run]
        exact all_eq_true.mp all_takeWhile
      have hcut : t.take (k + 2 + run isDigit rest) =
          t.take (k + 1) ++ .char '.' :: rest.take (run isDigit rest) := by
        rw [show k + 2 + run isDigit rest = k + 1 + (run isDigit rest + 1) by
          omega, take_add, hdrop, take_succ_cons]
      rw [hcut, append_assoc, cons_append]
      exact .pointed (.inl hne) hwhole hplaces hpower
    · cases hmantissa
      exact .whole hne hwhole hpower

theorem mem_mark (h : c ∈ t.take (markLength t)) : c = .char 'n' := by
  unfold markLength at h
  split at h
  · next hhead =>
    obtain ⟨rest, rfl⟩ := head?_eq_some_iff.mp hhead
    simpa using h
  · cases h

/-- An integer in another base has a value. -/
theorem isSome_readNumber?_based (base : Base) {digit : CodePoint → Bool}
    (h : based? base.letters.1 base.letters.2 digit t = some n)
    (hdigit : ∀ c, digit c = true → (c.digitIn? base.value).isSome ∧ c.isBlank = false) :
    (readNumber? (t.take n)).isSome := by
  obtain ⟨letter, more, m, rfl, hletter, hrun, rfl⟩ := based?_eq_some_iff.mp h
  obtain ⟨hne, hdigits⟩ := take_of_run hrun
  have hread (c : CodePoint) (hc : c ∈ more.take (m + 1)) := hdigit c (hdigits c hc)
  have hcut : (CodePoint.char '0' :: .char letter :: more).take
      (m + 3 + markLength (more.drop (m + 1))) = .char '0' :: .char letter :: more.take (m + 1) ++
        (more.drop (m + 1)).take (markLength (more.drop (m + 1))) := by
    rw [show m + 3 + markLength (more.drop (m + 1)) = m + 1 + markLength (more.drop (m + 1)) + 2 by
      omega, take_succ_cons, take_succ_cons, take_add]
    rfl
  have hbig : CodePoint.char 'n' ∉ .char '0' :: .char letter :: more.take (m + 1) := by
    simp only [mem_cons, not_or]
    refine ⟨by decide, ?_, fun hmem => ?_⟩
    · rintro ⟨⟩
      cases base <;> rcases hletter with hletter | hletter <;> cases hletter
    · have hdigit := (hread _ hmem).1
      cases base <;> cases hdigit
  have hbase : announcedBase? (.char '0' :: .char letter :: more.take (m + 1)) =
      some (base, more.take (m + 1)) := by
    rcases hletter with rfl | rfl <;> cases base <;> rfl
  rw [hcut]
  simp only [readNumber?, dropBigMark_append hbig fun c => mem_mark, hbase,
    Integer.read?_eq_foldl hne hread]
  rfl

theorem isBlank_eq_false (hlow : 32 < c.toNat) (hhigh : c.toNat < 128) : c.isBlank = false := by
  simp only [CodePoint.isBlank, Bool.or_eq_false_iff, Bool.and_eq_false_iff, decide_eq_false_iff_not,
    beq_eq_false_iff_ne]
  omega

/-- **Every number that is cut off has a value.** -/
theorem isSome_readNumber?_take {kind : LexemeKind} (h : number? t = some (kind, n)) :
    (readNumber? (t.take n)).isSome := by
  unfold number? at h
  split at h
  · next hbased =>
    cases h
    refine isSome_readNumber?_based .hexadecimal hbased fun c hc => ?_
    simp only [isHexDigit, Bool.or_eq_true, Bool.and_eq_true, decide_eq_true_eq] at hc
    exact ⟨by grind [CodePoint.digitIn?, CodePoint.digitValue?, CodePoint.digit?, Base.value],
      isBlank_eq_false (by omega) (by omega)⟩
  split at h
  · next hbased =>
    cases h
    refine isSome_readNumber?_based .octal hbased fun c hc => ?_
    simp only [isOctalDigit, Bool.and_eq_true, decide_eq_true_eq] at hc
    exact ⟨by grind [CodePoint.digitIn?, CodePoint.digitValue?, CodePoint.digit?, Base.value],
      isBlank_eq_false (by omega) (by omega)⟩
  split at h
  · next hbased =>
    cases h
    exact isSome_readNumber?_based .binary hbased fun c hc => by
      rw [isBinaryDigit, Bool.or_eq_true, beq_iff_eq, beq_iff_eq] at hc
      rcases hc with rfl | rfl <;> decide
  split at h
  · next hbig =>
    cases h
    obtain ⟨m, more, hrun, hdrop, -, rfl⟩ := bigInteger?_eq_some_iff.mp hbig
    obtain ⟨hne, hwhole⟩ := take_of_run hrun
    have hcut : t.take (m + 2) = t.take (m + 1) ++ [.char 'n'] := by
      rw [show m + 2 = m + 1 + 1 from rfl, take_add, hdrop]
      rfl
    have hmark : ∀ c ∈ [CodePoint.char 'n'], c = .char 'n' := by simp
    have hvalue := (IsDecimal.whole hne hwhole .absent).isSome_readNumber? hmark
    rwa [append_nil, ← hcut] at hvalue
  · obtain ⟨m, hdecimal, heq⟩ := Option.map_eq_some_iff.mp h
    cases heq
    have hvalue := (isDecimal_take hdecimal).isSome_readNumber? (forall_mem_nil _)
    rwa [append_nil] at hvalue

end Lexeme

theorem IsNumeral.isSome_readNumber? (h : IsNumeral t) : (readNumber? t).isSome := by
  obtain ⟨rest, kind, hnumber⟩ := h.scanned
  have hvalue := isSome_readNumber?_take hnumber
  rwa [take_left] at hvalue

/-! ### Escape sequences -/

/-- Whether a number does not fit 32 bits with a sign. -/
def IsWide (n : Int) : Prop :=
  n < -0x80000000 ∨ 0x7FFFFFFF < n

/-- What follows a backslash is a number in braces that does not fit 32 bits. -/
def NamesWide (t : Text) : Prop :=
  ∃ digits rest n, t = .char 'u' :: .char '\x7b' :: (digits ++ .char '\x7d' :: rest) ∧
    .char '\x7d' ∉ digits ∧ Integer.read? .hexadecimal digits = some n ∧ IsWide n

/-- One of the escape sequences of a text, which are found from left to right, is a number in braces
that does not fit 32 bits. -/
inductive HoldsWide : Text → Prop
  | here {t : Text} (h : NamesWide t) : HoldsWide (.char '\\' :: t)
  | plain {c : CodePoint} {t : Text} (hc : c ≠ '\\') (h : HoldsWide t) : HoldsWide (c :: t)
  | escaped {t decoded following : Text} (ht : escape t = .ok (decoded, following))
      (h : HoldsWide following) : HoldsWide (.char '\\' :: t)

theorem unicodeEscape_eq_outOfRange_iff : unicodeEscape digits = .error .outOfRange ↔
      ∃ n, Integer.read? .hexadecimal digits = some n ∧ IsWide n := by
  unfold unicodeEscape pointOfEscape IsWide
  cases hread : Integer.read? .hexadecimal digits with
  | none => simp
  | some n =>
    simp only [Option.some.injEq, exists_eq_left']
    split
    · next hwide => simp [hwide]
    · next hwide =>
      simp only [hwide, iff_false]
      split
      · nofun
      · split <;> nofun

/-- Four digits always fit. -/
theorem unicodeEscape_take_ne : unicodeEscape (t.take 4) ≠ .error .outOfRange := by
  intro h
  obtain ⟨n, hread, hwide⟩ := unicodeEscape_eq_outOfRange_iff.mp h
  have hlt := Integer.natAbs_lt_of_read? hread
  have hle : 16 ^ (t.take 4).length ≤ 16 ^ 4 :=
    Nat.pow_le_pow_right (by decide) (length_take_le 4 t)
  unfold IsWide at hwide
  simp only [Base.value] at hlt
  omega

/-- The digits before the first closing brace, and what follows it. -/
theorem eq_append_of_drop {after : Text} (hdigits : t.takeWhile (· != .char '\x7d') = digits)
    (h : t.drop digits.length = c :: after) :
    t = digits ++ .char '\x7d' :: after ∧ .char '\x7d' ∉ digits := by
  have hsplit := t.takeWhile_append_dropWhile (p := (· != .char '\x7d'))
  have hclose := head?_dropWhile_not (· != .char '\x7d') t
  have hrest : t.dropWhile (· != .char '\x7d') = c :: after := by
    rw [hdigits] at hsplit
    rw [← h, ← hsplit, drop_left, hsplit]
  rw [hrest] at hclose hsplit
  obtain rfl : c = .char '\x7d' := by simpa using hclose
  rw [← hdigits]
  exact ⟨hsplit.symm, fun hmem => by simpa using all_eq_true.mp all_takeWhile _ hmem⟩

theorem escape_eq_outOfRange_iff : escape t = .error .outOfRange ↔ NamesWide t := by
  constructor
  · fun_cases escape t with
    | case8 rest digits close after hdrop fault hfault =>
      rintro ⟨⟩
      obtain ⟨n, hread, hwide⟩ := unicodeEscape_eq_outOfRange_iff.mp hfault
      obtain ⟨hsplit, hclose⟩ := eq_append_of_drop rfl hdrop
      exact ⟨digits, after, n, by rw [hsplit], hclose, hread, hwide⟩
    | case10 rest _ fault hfault =>
      rintro ⟨⟩
      exact absurd hfault unicodeEscape_take_ne
    | _ => simp
  · rintro ⟨digits, rest, n, rfl, hclose, hread, hwide⟩
    have hdigits : ∀ c ∈ digits, (c != .char '\x7d') = true := fun c hc => by
      simpa using fun heq : c = .char '\x7d' => hclose (heq ▸ hc)
    have hfault := unicodeEscape_eq_outOfRange_iff.mpr ⟨n, hread, hwide⟩
    rw [escape]
    simp [takeWhile_append_of_pos hdigits, hfault]

theorem holdsWide_of_escape_eq_error {fault : EscapeFault} (h : escape t = .error fault) :
    HoldsWide (.char '\\' :: t) ↔ fault = .outOfRange := by
  constructor
  · intro hwide
    cases hwide with
    | here hnames => cases h.symm.trans (escape_eq_outOfRange_iff.mpr hnames); rfl
    | plain hc _ => exact absurd rfl hc
    | escaped ht _ => cases h.symm.trans ht
  · rintro rfl
    exact .here (escape_eq_outOfRange_iff.mp h)

theorem holdsWide_of_escape_eq_ok {decoded following : Text}
    (h : escape t = .ok (decoded, following)) :
    HoldsWide (.char '\\' :: t) ↔ HoldsWide following := by
  constructor
  · intro hwide
    cases hwide with
    | here hnames => cases h.symm.trans (escape_eq_outOfRange_iff.mpr hnames)
    | plain hc _ => exact absurd rfl hc
    | escaped ht hfollowing => cases h.symm.trans ht; exact hfollowing
  · exact .escaped h

theorem holdsWide_cons (hc : c ≠ '\\') : HoldsWide (c :: t) ↔ HoldsWide t := by
  constructor
  · intro hwide
    cases hwide with
    | here hnames => exact absurd rfl hc
    | plain _ h => exact h
    | escaped ht _ => exact absurd rfl hc
  · exact .plain hc

/-- **Decoding stops at a number that is too large exactly where an escape sequence that is reached
names one.** -/
theorem decodeEscapes_eq_outOfRange_iff : decodeEscapes t = .error .outOfRange ↔ HoldsWide t := by
  fun_induction decodeEscapes t with
  | case1 => exact ⟨nofun, nofun⟩
  | case2 rest fault hescape => simp [holdsWide_of_escape_eq_error hescape]
  | case3 rest decoded following hescape fault hfault ih =>
    rw [holdsWide_of_escape_eq_ok hescape, ← ih, hfault]
  | case4 rest decoded following hescape value hvalue ih =>
    rw [holdsWide_of_escape_eq_ok hescape, ← ih, hvalue]
    simp
  | case5 c rest hc fault hfault ih => rw [holdsWide_cons hc, ← ih, hfault]
  | case6 c rest hc value hvalue ih =>
    rw [holdsWide_cons hc, ← ih, hvalue]
    simp

end Script

end ViewMarkup
