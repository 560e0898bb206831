import Mathlib.Data.List.Forall2
import ViewMarkup.Module
import ViewMarkup.Proofs.Script.Programs

/-!
# Class names

The class of a module is named after the file.  Its name has the ASCII letters and digits of the
base name, in their order and in another case, so it is an identifier unless the first of them is a
digit.

* `flatten_words`: every letter and digit of a text is in one of its words.
* `component_legal`: what the name of the class is made of, and when it can stand in code.
-/

namespace ViewMarkup.Name

open List
open Script (IsName IsWord Node)

variable {c : CodePoint} {word name rest : Text}

/-- ASCII digits. -/
def isDigit (c : CodePoint) : Bool :=
  48 ≤ c.toNat && c.toNat ≤ 57

/-- ASCII letters and digits. -/
def isPlain (c : CodePoint) : Bool :=
  isSmall c || isUpper c

/-! ### Words -/

theorem length_takeWhile_le {p q : CodePoint → Bool} (h : ∀ c, p c = true → q c = true)
    (t : Text) : (t.takeWhile p).length ≤ (t.takeWhile q).length := by
  induction t with
  | nil => exact Nat.le_refl 0
  | cons c t ih => grind [takeWhile_cons]

/-- A word has letters and digits only, and one starts at each of them: a capital that is left to the
next word has another one before it. -/
theorem wordLength_spec (c : CodePoint) (rest : Text) :
    wordLength (c :: rest) ≤ ((c :: rest).takeWhile isPlain).length ∧
      (wordLength (c :: rest) = 0 → isPlain c = false) := by
  have hsmall := length_takeWhile_le (p := isSmall) (q := isPlain) (by simp +contextual [isPlain])
  have hupper := length_takeWhile_le (p := isUpper) (q := isPlain) (by simp +contextual [isPlain])
  have hrest := hsmall rest
  have hwhole := hsmall (c :: rest)
  have hcapitals := hupper (c :: rest)
  grind [wordLength, isPlain, isSmall, takeWhile_cons]

/-- **The words of a text hold its letters and digits.** -/
theorem flatten_words (t : Text) : (words t).flatten = t.filter isPlain := by
  fun_induction words t with
  | case1 => rfl
  | case2 c rest hzero ih =>
    rw [ih, filter_cons_of_neg (by simp [(wordLength_spec c rest).2 hzero])]
  | case3 c rest n hlength ih =>
    have hplain : ∀ d ∈ (c :: rest).take (n + 1), isPlain d = true := by
      intro d hd
      have hle := hlength ▸ (wordLength_spec c rest).1
      refine all_eq_true.mp (all_takeWhile (l := c :: rest)) d ?_
      rw [← Script.take_drop_takeWhile.1]
      exact take_subset_take_left _ hle hd
    conv => rhs; rw [← take_append_drop (n + 1) (c :: rest), filter_append, filter_eq_self.mpr hplain]
    rw [flatten_cons, ih]
    rfl

/-! ### Cases -/

/-- The second code point is the first in another case, or the same digit. -/
def Recased (c d : CodePoint) : Prop :=
  (isPlain d = true ∧ d.continuesIdentifier = true) ∧ isDigit d = isDigit c

instance (c d : CodePoint) : Decidable (Recased c d) :=
  inferInstanceAs (Decidable (_ ∧ _))

theorem isPlain_spec (hc : isPlain c = true) : c.lower = [c.lower.headD c] ∧
    Recased c (c.lower.headD c) ∧ Recased c (upper c) ∧ isLower (upper c) = false ∧
    c.startsIdentifier = !isDigit c := by
  have hascii : ∀ n < 128, ∀ c ∈ CodePoint.ofNat? n, isPlain c = true →
      c.lower = [c.lower.headD c] ∧ Recased c (c.lower.headD c) ∧ Recased c (upper c) ∧
        isLower (upper c) = false ∧ c.startsIdentifier = !isDigit c := by
    decide +kernel
  refine hascii c.toNat ?_ c (CodePoint.ofNat?_toNat c) hc
  simp only [isPlain, isSmall, isLower, isUpper, Bool.or_eq_true, Bool.and_eq_true,
    decide_eq_true_eq] at hc
  omega

theorem recased_lower (h : ∀ c ∈ rest, isPlain c = true) :
    Forall₂ Recased rest (rest.flatMap CodePoint.lower) := by
  induction rest with
  | nil => exact .nil
  | cons c rest ih =>
    obtain ⟨hc, hrest⟩ := forall_mem_cons.mp h
    obtain ⟨hlower, hrecased, -⟩ := isPlain_spec hc
    rw [flatMap_cons, hlower]
    exact .cons hrecased (ih hrest)

/-- **The name formed from a text has its letters and digits, in another case.** -/
theorem recased_pascalCase (t : Text) : Forall₂ Recased (t.filter isPlain) (pascalCase t) ∧
    ∀ c ∈ (pascalCase t).head?, isLower c = false := by
  have hplain : ∀ c ∈ (words t).flatten, isPlain c = true :=
    fun c hc => (mem_filter.mp (flatten_words t ▸ hc)).2
  rw [← flatten_words, pascalCase]
  generalize words t = pieces at hplain ⊢
  induction pieces with
  | nil => exact ⟨.nil, nofun⟩
  | cons word pieces ih =>
    rw [flatten_cons, forall_mem_append] at hplain
    obtain ⟨hrecased, hhead⟩ := ih hplain.2
    cases word with
    | nil => exact ⟨hrecased, hhead⟩
    | cons c rest =>
      obtain ⟨hc, hrest⟩ := forall_mem_cons.mp hplain.1
      obtain ⟨-, -, hupper, hlower, -⟩ := isPlain_spec hc
      refine ⟨rel_append (.cons hupper (recased_lower hrest)) hrecased, ?_⟩
      rintro _ ⟨⟩
      exact hlower

/-! ### Identifiers -/

/-- Reserved words start with small letters. -/
theorem isName_of_isWord (hword : IsWord name) (hstart : ∀ c ∈ name.head?, isLower c = false) :
    IsName name := by
  have hconstants : ∀ k ∈ [Script.Constant.true, .false, .null], ∃ c ∈ k.spelling.head?,
      isLower c = true := by
    decide +kernel
  have hkeywords : ∀ k ∈ Script.Keyword.all, ∃ c ∈ k.spelling.head?, isLower c = true := by
    decide +kernel
  have hother {spelling : Text} (h : ∃ c ∈ spelling.head?, isLower c = true) : spelling ≠ name := by
    rintro rfl
    obtain ⟨c, hc, hlower⟩ := h
    cases (hstart c hc).symm.trans hlower
  refine ⟨hword, find?_eq_none.mpr fun k hk => ?_, find?_eq_none.mpr fun k hk => ?_⟩
  · simpa using hother (hconstants k hk)
  · simpa using hother (hkeywords k hk)

/-- The first letter or digit of the base name is a digit. -/
def opensWithDigit (modulePath : Text) : Bool :=
  ((Path.baseName (Path.dropExtension modulePath)).find? isPlain).any isDigit

/-- The statement that marks a class as a component. -/
def marking (name : Text) : Node :=
  .assign (.memberNamed (.identifier name) "isXMLComponent") (.boolean true)

theorem parse_print_marking (h : IsName name) :
    ∃ text, Script.print (marking name) = .ok text ∧ Script.parse text = .ok [marking name] :=
  Script.parse_print_statement (.expression
    (.assignment (by decide) rfl (.part (.identifier h) (by decide +kernel)) (.boolean true)))

/-- **Class names.**  The name of a class is not empty and has ASCII letters and digits only.  It is an
identifier that is no reserved word, and what marks the class is read back, unless the first letter
or digit of the base name is a digit, which the name then starts with. -/
theorem component_legal (modulePath : Text) : component modulePath ≠ [] ∧
    (∀ c ∈ component modulePath, isPlain c = true) ∧
    (component modulePath).head?.any isDigit = opensWithDigit modulePath ∧
    (IsName (component modulePath) ↔ opensWithDigit modulePath = false) ∧
    (opensWithDigit modulePath = false → ∃ text,
      Script.print (marking (component modulePath)) = .ok text ∧
        Script.parse text = .ok [marking (component modulePath)]) := by
  rw [component, opensWithDigit, ← head?_filter]
  obtain ⟨hrecased, hstart⟩ := recased_pascalCase (Path.baseName (Path.dropExtension modulePath))
  generalize pascalCase _ = name at hrecased hstart ⊢
  generalize filter _ _ = letters at hrecased ⊢
  cases hrecased with
  | nil =>
    have hname : IsName "Component" := isName_of_isWord (by decide +kernel) (by decide)
    exact ⟨nofun, by decide +kernel, rfl, ⟨fun _ => rfl, fun _ => hname⟩,
      fun _ => parse_print_marking hname⟩
  | @cons c d letters rest hc hrest =>
    have hall := ((forall₂_and_left (d :: rest) _).mp (Forall₂.cons hc hrest).flip).1
    have hname : IsName (d :: rest) ↔ isDigit c = false := by
      obtain ⟨-, -, -, -, hd⟩ := isPlain_spec hc.1.1
      have hword : IsWord (d :: rest) ↔ d.startsIdentifier = true :=
        and_iff_left (all_eq_true.mpr fun e he => (hall e (mem_cons_of_mem d he)).2)
      rw [hd, hc.2, Bool.not_eq_true'] at hword
      exact ⟨fun h => hword.mp h.word, fun h => isName_of_isWord (hword.mpr h) hstart⟩
    exact ⟨nofun, fun e he => (hall e he).1, hc.2, hname, fun h => parse_print_marking (hname.mpr h)⟩

/-- The base name of a file may start with a digit. -/
theorem component_digit : component "2page.xml" = Text.ofString "2page" ∧
    ¬ IsName (component "2page.xml") := by
  have hname : component "2page.xml" = Text.ofString "2page" := by decide +kernel
  exact ⟨hname, hname ▸ fun h => absurd h.word (by decide +kernel)⟩

end ViewMarkup.Name
