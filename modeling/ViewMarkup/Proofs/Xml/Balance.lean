import ViewMarkup.Xml.Reader

/-!
# Well-formed text has balanced tags

A text that is read without a fault closes every tag that it opens, in the reverse order.

* `Balanced` is said of tags in which every tag that opens is closed.
* `Closing` says what open elements demand of the tags to come.
* `read_balanced` is the statement about a whole text.
-/

namespace ViewMarkup.Xml

variable {name container : Text} {names : List Text} {events inner rest : List Event} {r : Reader}
  {c : CodePoint} {offset : Nat} {attributes : AttributeMap} {tag : PartialTag} {mode : Mode}

/-- Every tag that opens is closed by a tag of the same name, with balanced tags between. -/
inductive Balanced : List Event → Prop
  | nil : Balanced []
  | element {offset offset' : Nat} {name : Text} {attributes : AttributeMap}
      {inner rest : List Event} (hinner : Balanced inner) (hrest : Balanced rest) :
      Balanced (.startTag offset name attributes :: (inner ++ .endTag offset' name :: rest))

/-- What elements that are open demand of the tags to come.  The tag that closes the outermost one
does not show. -/
def Closing : List Text → List Event → Prop
  | [], events => events = []
  | [_], events => Balanced events
  | name :: below, events => ∃ inner offset rest, Balanced inner ∧ Closing below rest ∧
      events = inner ++ .endTag offset name :: rest

theorem Closing.end_tag {below : List Text} (hbelow : below ≠ []) (h : Closing below rest) : Closing (name :: below) (.endTag offset name :: rest) := by
  cases below with
  | nil => exact absurd rfl hbelow
  | cons top below => exact ⟨[], offset, rest, .nil, h, rfl⟩

/-- A complete element may come before what closes the open ones. -/
theorem Closing.element (hnames : names ≠ []) (hinner : Balanced inner) (h : Closing names rest)
    {offset' : Nat} :
    Closing names (.startTag offset name attributes :: (inner ++ .endTag offset' name :: rest)) := by
  cases names with
  | nil => exact absurd rfl hnames
  | cons top below =>
    cases below with
    | nil => exact .element hinner h
    | cons next below =>
      obtain ⟨between, close, later, hbetween, hlater, rfl⟩ := h
      have hfirst : Balanced
          (.startTag offset name attributes :: (inner ++ .endTag offset' name :: between)) :=
        .element hinner hbetween
      refine ⟨_, close, later, hfirst, hlater, ?_⟩
      simp only [List.cons_append, List.append_assoc]

/-- A tag that opens is closed first. -/
theorem Closing.start_tag (hnames : names ≠ []) (h : Closing (name :: names) rest) : Closing names (.startTag offset name attributes :: rest) := by
  cases names with
  | nil => exact absurd rfl hnames
  | cons top below =>
    obtain ⟨inner, close, later, hinner, hlater, rfl⟩ := h
    exact hlater.element hnames hinner

/-! ### The reader -/

/-- Whether a reader can be in this mode only inside an element. -/
def Mode.isInside : Mode → Bool
  | .content _ | .contentReference _ | .markup | .tagName _ | .tagBlank _ | .tagSlash _
  | .attributeName _ _ _ | .beforeEquals _ _ _ | .afterEquals _ _ _ | .value _ _ _
  | .valueReference _ _ _ _ _ | .afterValue _ => true
  | _ => false

/-- A mode suits the open elements. -/
structure Suits (mode : Mode) (names : List Text) : Prop where
  inside : mode.isInside = true → names ≠ []
  after : mode = .after → names = []

theorem suits_between (names : List Text) :
    Suits (if names.isEmpty then .after else .content 0) names := by
  cases names with
  | nil => exact ⟨nofun, fun _ => rfl⟩
  | cons name names => exact ⟨nofun, nofun⟩

theorem suits_other (hinside : mode.isInside = false) (hafter : mode ≠ .after) : Suits mode names := by
  constructor
  · intro h
    rw [hinside] at h
    cases h
  · intro h
    exact absurd h hafter

theorem suits_inside (hnames : names ≠ []) (hafter : mode ≠ .after) : Suits mode names :=
  ⟨fun _ => hnames, fun h => absurd h hafter⟩

/-- What a character can do to a reader: it completes a tag, which happens only inside an element, or
it leads to a mode that suits. -/
inductive Leads (r : Reader) : Move → Prop
  | goes {mode : Mode} (h : Suits mode r.names) : Leads r (.to mode)
  | fault (misread : Misread) : Leads r (.fault misread)
  | opened (tag : PartialTag) (isEmpty : Bool) (hnames : r.names ≠ []) :
      Leads r (r.completeTag tag isEmpty)
  | closed (name : Text) : Leads r (r.completeEndTag name)

theorem leads_other (hinside : mode.isInside = false) (hafter : mode ≠ .after) :
    Leads r (.to mode) :=
  .goes (suits_other hinside hafter)

theorem leads_inside (hnames : r.names ≠ []) (hafter : mode ≠ .after) : Leads r (.to mode) :=
  .goes (suits_inside hnames hafter)

theorem leads_anyChar (h : Leads r (.to mode)) : Leads r (r.anyChar c mode) := by
  unfold Reader.anyChar
  split
  · exact h
  · exact .fault _

theorem leads_completeInstruction {isDeclaration : Bool} :
    Leads r (r.completeInstruction isDeclaration) := by
  unfold Reader.completeInstruction
  split
  · exact .goes (suits_between r.names)
  · split
    · exact .fault _
    · exact .fault _

theorem leads_tagMove (hnames : r.names ≠ []) {other : Move}
    (hother : Leads r other) : Leads r (r.tagMove tag c other) := by
  unfold Reader.tagMove
  split
  · exact leads_inside hnames nofun
  · split
    · exact .opened tag false hnames
    · split
      · exact leads_inside hnames nofun
      · exact hother

theorem leads_valueMove (hnames : r.names ≠ []) {item : RawAttribute}
    {quote : CodePoint} : Leads r (r.valueMove tag item quote c) := by
  unfold Reader.valueMove
  repeat' split
  all_goals first
    | exact leads_inside hnames nofun
    | exact .fault _

theorem leads_afterMove (hnames : r.names = []) : Leads r (r.afterMove c) := by
  unfold Reader.afterMove
  repeat' split
  all_goals first
    | exact .goes ⟨nofun, fun _ => hnames⟩
    | exact leads_other rfl nofun
    | exact .fault _

/-- **What a character can do.** -/
theorem move_leads (hr : Suits r.mode r.names) (c : CodePoint) : Leads r (r.move c) := by
  have hinside := hr.inside
  have hafter := hr.after
  unfold Reader.move
  -- a mode inside an element leads to such modes or completes a tag; the others lead to each other
  split
  all_goals
    next hmode =>
      rw [hmode] at hinside hafter
      repeat' split
      all_goals first
        | exact .fault _
        | exact leads_inside (hinside rfl) (by simp)
        | exact leads_other rfl (by simp)
        | exact .goes (suits_between r.names)
        | exact .closed _
        | exact .opened _ _ (hinside rfl)
        | exact leads_anyChar (leads_inside (hinside rfl) (by simp))
        | exact leads_anyChar (leads_other rfl (by simp))
        | exact leads_completeInstruction
        | exact leads_tagMove (hinside rfl) (.fault _)
        | exact leads_valueMove (hinside rfl)
        | exact leads_afterMove (hafter rfl)

/-- What a reader that suits comes to after one more character. -/
inductive Advances (r : Reader) (events : List Event) (r' : Reader) : Prop
  | silent (hnames : r'.names = r.names) (hevents : events = [])
  | opened {offset : Nat} {name : Text} {attributes : AttributeMap} (hinside : r.names ≠ [])
      (hnames : r'.names = name :: r.names) (hevents : events = [.startTag offset name attributes])
  | whole {offset offset' : Nat} {name : Text} {attributes : AttributeMap}
      (hinside : r.names ≠ []) (hnames : r'.names = r.names)
      (hevents : events = [.startTag offset name attributes, .endTag offset' name])
  | closed {offset : Nat} {name : Text} (hnames : r.names = name :: r'.names)
      (hevents : events = if r'.names.isEmpty then [] else [.endTag offset name])

theorem step_advances {r' : Reader} (hr : Suits r.mode r.names)
    (h : r.step c = .ok (events, r')) : Suits r'.mode r'.names ∧ Advances r events r' := by
  have hleads := move_leads hr c
  unfold Reader.step at h
  generalize hmove : r.move c = move at h hleads
  cases hleads with
  | goes hsuits =>
    cases h
    exact ⟨hsuits, .silent rfl rfl⟩
  | fault misread => cases h
  | opened tag isEmpty hnames =>
    unfold Reader.completeTag at h
    cases hattributes : attributeMap r.start [] tag.attributes with
    | error misread =>
      rw [hattributes] at h
      cases h
    | ok attributes =>
      rw [hattributes] at h
      cases isEmpty with
      | true =>
        cases h
        exact ⟨suits_between _, .whole hnames rfl rfl⟩
      | false =>
        cases h
        exact ⟨suits_between (tag.name :: r.names), .opened hnames rfl rfl⟩
  | closed name =>
    unfold Reader.completeEndTag at h
    cases hnames : r.names with
    | nil =>
      rw [hnames] at h
      cases h
    | cons top below =>
      rw [hnames] at h
      dsimp only at h
      by_cases htop : top = name
      · subst htop
        rw [if_neg (fun hne => hne rfl)] at h
        cases hbelow : below.isEmpty with
        | true =>
          rw [hbelow] at h
          cases h
          exact ⟨suits_between _, @Advances.closed _ _ _ 0 top hnames (if_pos hbelow).symm⟩
        | false =>
          rw [hbelow] at h
          cases h
          have hevents : [.endTag r.start.offset top] =
              if below.isEmpty then [] else [Event.endTag r.start.offset top] := by
            rw [hbelow]
            rfl
          exact ⟨suits_between _, .closed hnames hevents⟩
      · rw [if_pos htop] at h
        cases h

/-- A reader that goes on to the end without a fault finds what closes the open elements. -/
theorem run_closing {text : Text} (hr : Suits r.mode r.names) (h : (r.run text).2 = none) :
    Closing r.names (r.run text).1 := by
  induction text generalizing r with
  | nil =>
    have hafter : r.mode = .after := by
      rw [Reader.run, Reader.endFault?] at h
      split at h
      · assumption
      all_goals cases h
    rw [Reader.run, hr.after hafter]
    rfl
  | cons c text ih =>
    rw [Reader.run] at h ⊢
    cases hstep : r.step c with
    | error misread =>
      rw [hstep] at h
      cases h
    | ok advanced =>
      obtain ⟨events, r'⟩ := advanced
      rw [hstep] at h
      obtain ⟨hr', hadvances⟩ := step_advances hr hstep
      have hlater := ih hr' h
      show Closing r.names (events ++ (r'.run text).1)
      cases hadvances with
      | silent hnames hevents =>
        rw [hevents, ← hnames]
        exact hlater
      | opened hinside hnames hevents =>
        rw [hnames] at hlater
        rw [hevents]
        exact hlater.start_tag hinside
      | whole hinside hnames hevents =>
        rw [hnames] at hlater
        rw [hevents]
        exact hlater.element hinside .nil
      | closed hnames hevents =>
        rw [hnames, hevents]
        cases hbelow : r'.names with
        | nil =>
          rw [hbelow] at hlater
          rw [show (r'.run text).1 = [] from hlater]
          exact .nil
        | cons top below =>
          rw [hbelow] at hlater
          have hopen : top :: below ≠ [] := List.cons_ne_nil top below
          exact hlater.end_tag hopen

/-- **The tags of a text without a fault are balanced.** -/
theorem read_balanced {content : Text} (h : (read container content).2 = none) :
    Balanced (read container content).1 := by
  have hinside : Suits (Reader.inside container).mode (Reader.inside container).names :=
    ⟨nofun, nofun⟩
  exact run_closing hinside h

end ViewMarkup.Xml
