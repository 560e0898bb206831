import Mathlib.Data.List.Basic
import ViewMarkup.Tag.Construction

/-!
# The names of generated variables and functions

Every view has an index, and the names that are made for it end with the index.

* `GeneratedName.text_injective`: names of different kinds, or for different indices, differ.
* `GeneratedName.text_notMem_words`: none of them is one of the fixed words of generated code.
-/

namespace ViewMarkup

open List

namespace Text

variable {n : Nat} {i : Int}

theorem ofNat_injective {m : Nat} (h : ofNat m = ofNat n) : m = n := by
  have hdigits : Nat.toDigits 10 m = Nat.toDigits 10 n :=
    map_injective_iff.mpr (fun _ _ h => CodePoint.char.inj h) h
  rw [← @Nat.ofDigitChars_toDigits 10 m (by decide) (by decide), hdigits,
    Nat.ofDigitChars_toDigits (by decide) (by decide)]

theorem isDigit_of_mem_ofNat {c : CodePoint} (h : c ∈ ofNat n) :
    ∃ digit : Char, digit.isDigit = true ∧ c = digit := by
  obtain ⟨digit, hdigit, rfl⟩ := mem_map.mp h
  exact ⟨digit, Nat.isDigit_of_mem_toDigits (by decide) (by decide) hdigit, rfl⟩

theorem notMem_ofNat {c : Char} (hc : c.isDigit = false) : .char c ∉ ofNat n := by
  intro h
  obtain ⟨digit, hdigit, heq⟩ := isDigit_of_mem_ofNat h
  cases heq
  rw [hc] at hdigit
  cases hdigit

theorem ofInt_injective {j : Int} (h : ofInt i = ofInt j) : i = j := by
  have hminus : ∀ n, CodePoint.char '-' ∉ ofNat n := fun n => notMem_ofNat (by decide)
  cases i with
  | ofNat m =>
    cases j with
    | ofNat n => rw [ofNat_injective h]
    | negSucc n =>
      change ofNat m = _ at h
      exact absurd (h ▸ mem_cons_self) (hminus m)
  | negSucc m =>
    cases j with
    | ofNat n =>
      change _ = ofNat n at h
      exact absurd (h ▸ mem_cons_self) (hminus n)
    | negSucc n =>
      have hsucc := ofNat_injective (cons.inj h).2
      rw [Nat.succ.inj hsucc]

theorem underscore_notMem_ofInt : CodePoint.char '_' ∉ ofInt i := by
  cases i with
  | ofNat n => exact notMem_ofNat (by decide)
  | negSucc n =>
    intro h
    rcases mem_cons.mp h with h | h
    · cases h
    · exact notMem_ofNat (by decide) h

end Text

/-- A name that is made for a view. -/
inductive GeneratedName where
  /-- The variable of the view. -/
  | element (index : Int)
  /-- The variable with the contents of the slots of a custom element. -/
  | slotViews (index : Int)
  /-- The function that applies the bindings of the view. -/
  | update (index : Int)
  /-- The function that follows a change of the binding context. -/
  | contextChange (index : Int)
  /-- The function that writes a change back, for one of the two-way bindings. -/
  | targetChange (index : Int) (position : Nat)
  deriving DecidableEq

namespace GeneratedName

variable {k : Int} {g g' : GeneratedName}

/-- The index of the view that a name is made for. -/
def index : GeneratedName → Int
  | element k | slotViews k | update k | contextChange k | targetChange k _ => k

/-- Whether a name is that of a function. -/
def isFunction : GeneratedName → Bool
  | element _ | slotViews _ => false
  | update _ | contextChange _ | targetChange _ _ => true

/-- What a name starts with. -/
def stem : GeneratedName → Text
  | element _ => "el"
  | slotViews _ => "slotViews"
  | update _ => "updateBindings"
  | contextChange _ => "onBindingContextChange"
  | targetChange _ _ => "onBindingTargetChange"

/-- What follows the stem of a name. -/
def numbers : GeneratedName → Text
  | element k | slotViews k | update k | contextChange k => Text.ofInt k
  | targetChange k position => Text.ofInt k ++ "_" ++ Text.ofNat position

/-- A name as written, where the variables of views start with `el`. -/
def text (g : GeneratedName) : Text :=
  g.stem ++ g.numbers

/-- What names of all kinds start with. -/
def stems : List Text :=
  ["el", "slotViews", "updateBindings", "onBindingContextChange", "onBindingTargetChange"]

theorem stem_mem_stems (g : GeneratedName) : g.stem ∈ stems := by
  cases g <;> simp only [stem] <;> decide

/-- No stem goes on as another one. -/
theorem stem_unique : ∀ s ∈ stems, ∀ t ∈ stems, s <+: t → s = t := by
  decide

theorem stem_eq (h : g.text = g'.text) : g.stem = g'.stem := by
  have hleft : g.stem <+: g.text := prefix_append _ _
  have hright : g'.stem <+: g.text := h ▸ prefix_append _ _
  rcases prefix_or_prefix_of_prefix hleft hright with hstem | hstem
  · exact stem_unique _ (stem_mem_stems g) _ (stem_mem_stems g') hstem
  · exact (stem_unique _ (stem_mem_stems g') _ (stem_mem_stems g) hstem).symm

theorem numbers_targetChange {k' : Int} {position position' : Nat}
    (h : (targetChange k position).numbers = (targetChange k' position').numbers) :
    targetChange k position = targetChange k' position' := by
  have hmark : ∀ i n, Text.ofInt i ++ "_" ++ Text.ofNat n =
      Text.ofInt i ++ CodePoint.char '_' :: Text.ofNat n :=
    fun i n => append_assoc (Text.ofInt i) "_" (Text.ofNat n)
  rw [numbers, numbers, hmark, hmark, append_cons_inj_of_notMem
    Text.underscore_notMem_ofInt (Text.notMem_ofNat (by decide))] at h
  rw [Text.ofInt_injective h.1, Text.ofNat_injective h.2.2]

/-- **Names of different kinds, or for different indices, differ.** -/
theorem text_injective (h : g.text = g'.text) : g = g' := by
  have hstem := stem_eq h
  have hnumbers : g.numbers = g'.numbers := by
    rw [text, text, hstem] at h
    exact append_cancel_left h
  -- names of different kinds have different stems
  cases g <;> cases g' <;> simp only [stem] at hstem <;> first
    | exact absurd hstem (by decide)
    | exact numbers_targetChange hnumbers
    | exact congrArg _ (Text.ofInt_injective hnumbers)

/-- The fixed words that occur as names in generated code. -/
def words : List Text :=
  [Binding.runtimeName, Binding.viewModelName, Binding.valueName, Binding.parentName,
    Binding.parentsName, "customModules", "fallbackViews", "moduleExports",
    "moduleExportsFallback", "resolvedCodeModuleName", "resolvedCssModuleName", "view", "args",
    "value", "owner", "propertyName", "bindingContext", "undefined"]

theorem not_prefix_word : ∀ s ∈ stems, ∀ word ∈ words, ¬ s <+: word := by
  decide

/-- A name that is made for a view is no fixed word. -/
theorem text_notMem_words (g : GeneratedName) : g.text ∉ words :=
  fun h => not_prefix_word _ (stem_mem_stems g) _ h (prefix_append _ _)

/-- The same for each of the words. -/
@[simp] theorem text_ne_words (g : GeneratedName) :
    g.text ≠ Binding.runtimeName ∧ g.text ≠ Binding.viewModelName ∧ g.text ≠ Binding.valueName ∧
      g.text ≠ Binding.parentName ∧ g.text ≠ Binding.parentsName ∧
      g.text ≠ Text.ofString "customModules" ∧ g.text ≠ Text.ofString "fallbackViews" ∧
      g.text ≠ Text.ofString "moduleExports" ∧ g.text ≠ Text.ofString "moduleExportsFallback" ∧
      g.text ≠ Text.ofString "resolvedCodeModuleName" ∧
      g.text ≠ Text.ofString "resolvedCssModuleName" ∧ g.text ≠ Text.ofString "view" ∧
      g.text ≠ Text.ofString "args" ∧ g.text ≠ Text.ofString "value" ∧
      g.text ≠ Text.ofString "owner" ∧ g.text ≠ Text.ofString "propertyName" ∧
      g.text ≠ Text.ofString "bindingContext" ∧ g.text ≠ Text.ofString "undefined" := by
  simpa [words] using g.text_notMem_words

@[simp] theorem text_inj : g.text = g'.text ↔ g = g' :=
  ⟨text_injective, congrArg text⟩

theorem elementName_eq {settings : Settings} (h : settings.elementStem = "el") :
    settings.elementName k = (element k).text := by
  rw [Settings.elementName, h]
  rfl

theorem slotViewsName_eq : Construction.slotViewsName k = (slotViews k).text := rfl

theorem updateName_eq : Binding.updateName k = (update k).text := rfl

theorem targetChangeName_eq (position : Nat) :
    Binding.targetChangeName k position = (targetChange k position).text := by
  simp only [Binding.targetChangeName, text, stem, numbers, append_assoc]

end GeneratedName

end ViewMarkup
