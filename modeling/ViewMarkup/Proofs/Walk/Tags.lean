import ViewMarkup.Proofs.Walk.Yields

/-!
# Starting and ending a tag in strict mode

What the events around the content of a tag do, one kind of tag at a time.  A strict walk that gets
past an event has reported nothing, so every check of the event has been passed.

* `newFrame_ok` says which frame a tag gets, and `startTag_ok` what its start comes down to.
* `leave` is what its end comes down to, and the lemmas on that say what it makes of each kind of tag.
-/

namespace ViewMarkup

namespace Element

/-- What a tag is called in its frame: for a property, what stands before the dot. -/
def tagNameOf (name : Text) : Text :=
  match Text.cut? "." name with
  | some (owner, _) => owner
  | none => name

end Element

namespace Walk

open Script (Node)
open Draft (buffer_setBuffer ownNodes modifyBuffer_eq isEmpty_setBuffer)
open Frame (slotContentTag templateTag)
open Element (kindOf tagNameOf)

variable {property : Text} {inSlotFallback : Bool} {c' : Walk} {shape : FactoryShape}

variable {options : Options} {name : Text} {attributes : AttributeMap} {frame parent : Frame}
  {c w v : Walk} {settings : Settings}

/-! ### The frame of a tag -/

theorem propertyKind_propertyName? : (propertyKind property).propertyName? = some property := by
  unfold propertyKind
  split
  · rfl
  · split <;> rfl

theorem propertyKind_ne {kind : TagKind} (h : kind.propertyName? = none) :
    propertyKind property ≠ kind := by
  rintro rfl
  rw [propertyKind_propertyName?] at h
  cases h

/-- The kind of a tag is that of a property, or it belongs to the name of the tag. -/
theorem kindOf_cases (name : Text) :
    (∃ owner property, Text.cut? "." name = some (owner, property) ∧
        kindOf name = propertyKind property) ∨
      kindOf name = .slotContent ∧ name = slotContentTag ∨
      kindOf name = .keyedTemplate ∧ name = templateTag ∨
      kindOf name = .view := by
  unfold kindOf
  cases hcut : Text.cut? "." name with
  | some parts => exact .inl ⟨parts.1, parts.2, rfl, rfl⟩
  | none =>
    dsimp only
    split
    · next hname => exact .inr (.inl ⟨rfl, hname⟩)
    · split
      · next hname => exact .inr (.inr (.inl ⟨rfl, hname⟩))
      · exact .inr (.inr (.inr rfl))

theorem kindOf_ne_skipped : kindOf name ≠ .skipped := by
  rcases kindOf_cases name with ⟨_, property, _, h⟩ | ⟨h, _⟩ | ⟨h, _⟩ | h <;> rw [h]
  · exact propertyKind_ne rfl
  all_goals exact nofun

theorem kindOf_keyed (h : kindOf name = .keyedTemplate) : name = templateTag := by
  rcases kindOf_cases name with ⟨_, property, _, hkind⟩ | ⟨hkind, _⟩ | ⟨_, hname⟩ | hkind
  · exact absurd (hkind.symm.trans h) (propertyKind_ne rfl)
  · cases hkind.symm.trans h
  · exact hname
  · cases hkind.symm.trans h

theorem kindOf_slotContent (h : kindOf name = .slotContent) :
    name = slotContentTag := by
  rcases kindOf_cases name with ⟨_, property, _, hkind⟩ | ⟨_, hname⟩ | ⟨hkind, _⟩ | hkind
  · exact absurd (hkind.symm.trans h) (propertyKind_ne rfl)
  · exact hname
  all_goals cases hkind.symm.trans h

/-- A tag ends under the name that it started with. -/
theorem fullName_new (name : Text) (index : Int) :
    (Frame.new (tagNameOf name) (kindOf name) index).fullName = name := by
  unfold Frame.fullName tagNameOf kindOf
  cases hcut : Text.cut? "." name with
  | some parts =>
    simp only [Frame.new, propertyKind_propertyName?]
    exact (Text.cut?_append hcut).symm
  | none =>
    have hkind : (if name = slotContentTag then TagKind.slotContent
        else if name = templateTag then .keyedTemplate else .view).propertyName? = none := by
      split
      · rfl
      · split <;> rfl
    simp only [Frame.new, hkind]

section

variable {parent : Option Frame} (h : frameFor name parent = .ok frame)
include h

/-- A view gets a frame of its own; any other tag belongs to its parent. -/
theorem frameFor_ok : (kindOf name = .view → frame = Frame.new name .view (-1)) ∧
      (kindOf name ≠ .view → ∃ p, parent = some p ∧
        frame = Frame.new (tagNameOf name) (kindOf name) p.index) := by
  unfold frameFor at h
  unfold kindOf tagNameOf
  cases hcut : Text.cut? "." name with
  | some parts =>
    obtain ⟨owner, property⟩ := parts
    rw [hcut] at h
    refine ⟨fun hview => absurd hview (propertyKind_ne rfl), fun _ => ?_⟩
    cases parent with
    | none => cases h
    | some p =>
      simp only [propertyFrame] at h
      split at h
      · cases h
      · split at h
        · cases h
        · cases h
          exact ⟨p, rfl, rfl⟩
  | none =>
    rw [hcut] at h
    dsimp only at h ⊢
    split at h
    · next hcontent =>
      rw [if_pos hcontent]
      refine ⟨fun hview => (nomatch hview), fun _ => ?_⟩
      cases parent with
      | none => cases h
      | some p => cases h; exact ⟨p, rfl, rfl⟩
    · next hcontent =>
      rw [if_neg hcontent]
      split at h
      · next htemplate =>
        rw [if_pos htemplate]
        refine ⟨fun hview => (nomatch hview), fun _ => ?_⟩
        cases parent with
        | none => cases h
        | some p => cases h; exact ⟨p, rfl, rfl⟩
      · next htemplate =>
        rw [if_neg htemplate]
        cases h
        exact ⟨fun _ => rfl, fun hother => absurd rfl hother⟩

/-- A tag for a property stands in the view that it names. -/
theorem frameFor_property {owner : Text} (hcut : Text.cut? "." name = some (owner, property)) :
    ∃ p, parent = some p ∧ p.kind = .view ∧ p.tagName = owner := by
  unfold frameFor at h
  rw [hcut] at h
  cases parent with
  | none => cases h
  | some p =>
    simp only [propertyFrame] at h
    split at h
    · cases h
    · next hkind =>
      split at h
      · cases h
      · next howner => exact ⟨p, rfl, Decidable.not_not.mp hkind, Decidable.not_not.mp howner⟩

end

/-- A slot does not stand in the fallback of another. -/
theorem nesting_slot (h : nestingFault? inSlotFallback parent Frame.slotTag = none) :
    inSlotFallback = false := by
  cases inSlotFallback with
  | false => rfl
  | true => cases h

/-- Slot content stands in a custom element, and there is only one. -/
theorem nesting_slotContent (hname : name = slotContentTag)
    (h : nestingFault? inSlotFallback parent name = none) :
    parent.isCustom = true ∧ parent.holdsSlots = false := by
  subst hname
  have hdiffer : slotContentTag ≠ Frame.slotTag := by decide
  cases hcustom : parent.isCustom with
  | false =>
    simp only [nestingFault?, hdiffer, hcustom, decide_false, decide_true, Bool.false_and,
      Bool.true_and, Bool.not_false, Bool.false_eq_true, if_false, if_true] at h
    split at h <;> cases h
  | true =>
    cases hholds : parent.holdsSlots with
    | true =>
      simp only [nestingFault?, hdiffer, hcustom, hholds, decide_false, decide_true,
        Bool.false_and, Bool.true_and, Bool.not_true, Bool.false_eq_true, if_false,
        if_true] at h
      split at h <;> cases h
    | false => exact ⟨rfl, rfl⟩

/-- A tag that takes a single tag takes no second one. -/
theorem nesting_single (hsingle : parent.isSingle = true)
    (h : nestingFault? inSlotFallback parent name = none) : parent.nestedCount = 0 := by
  cases hcount : parent.nestedCount with
  | zero => rfl
  | succ n =>
    have hne : (n + 1 != 0) = true := rfl
    simp only [nestingFault?, hsingle, hcount, hne, Bool.and_self, if_true] at h
    repeat' split at h
    all_goals cases h

/-- Only templates stand in an array of templates, and they stand nowhere else. -/
theorem nesting_template (h : nestingFault? inSlotFallback parent name = none) :
    name = templateTag ↔ ∃ property, parent.kind = .templateArray property := by
  unfold nestingFault? at h
  split at h
  · cases h
  split at h
  · cases h
  split at h
  · cases h
  split at h
  · cases h
  split at h
  · cases h
  split at h
  · next property hkind =>
    split at h
    · next hname => exact ⟨fun _ => ⟨property, hkind⟩, fun _ => hname⟩
    · cases h
  · next hkind =>
    split at h
    · cases h
    · next hname => exact ⟨fun h => absurd h hname, fun ⟨property, h⟩ => absurd h (hkind property)⟩

/-- What is known of a tag that has been given a frame. -/
structure Accepted (w : Walk) (name : Text) (frame : Frame) : Prop where
  initialized : w.initialized = false
  nesting : ∀ parent, w.draft.frames.head? = some parent →
    nestingFault? w.inSlotFallback parent name = none
  view : kindOf name = .view → frame = Frame.new name .view (-1)
  other : kindOf name ≠ .view → ∃ parent, w.draft.frames.head? = some parent ∧
    frame = Frame.new (tagNameOf name) (kindOf name) parent.index
  property : ∀ owner property, Text.cut? "." name = some (owner, property) →
    ∃ parent, w.draft.frames.head? = some parent ∧ parent.kind = .view ∧ parent.tagName = owner

/-- **The frame of a tag.**  A view gets one of its own; any other tag belongs to the tag around
it. -/
theorem newFrame_ok (h : w.newFrame name = .ok frame) : Accepted w name frame := by
  unfold newFrame at h
  cases hinitialized : w.initialized with
  | true =>
    rw [hinitialized, if_pos rfl] at h
    cases h
  | false =>
    rw [hinitialized, if_neg Bool.false_ne_true] at h
    cases hfault : w.draft.frames.head?.bind
        fun parent => nestingFault? w.inSlotFallback parent name with
    | some fault =>
      rw [hfault] at h
      cases h
    | none =>
      rw [hfault] at h
      have hnesting : ∀ parent, w.draft.frames.head? = some parent →
          nestingFault? w.inSlotFallback parent name = none := by
        intro parent hparent
        rwa [hparent, Option.bind_some] at hfault
      exact ⟨hinitialized, hnesting, (frameFor_ok h).1, (frameFor_ok h).2,
        fun _ _ => frameFor_property h⟩

theorem Accepted.eq_new (h : Accepted w name frame) :
    ∃ tagName index, frame = Frame.new tagName (kindOf name) index := by
  by_cases hview : kindOf name = .view
  · exact ⟨name, -1, by rw [hview]; exact h.view hview⟩
  · obtain ⟨parent, _, hframe⟩ := h.other hview
    exact ⟨_, _, hframe⟩

theorem Accepted.kind (h : Accepted w name frame) : frame.kind = kindOf name := by
  obtain ⟨_, _, rfl⟩ := h.eq_new
  rfl

theorem Accepted.ignored (h : Accepted w name frame) : frame.ignored = false := by
  obtain ⟨_, _, rfl⟩ := h.eq_new
  rfl

theorem Accepted.unset (h : Accepted w name frame) : frame.attributes = [] := by
  obtain ⟨_, _, rfl⟩ := h.eq_new
  rfl

theorem Accepted.own (h : Accepted w name frame) : frame.own = some [] := by
  obtain ⟨_, _, rfl⟩ := h.eq_new
  rfl

/-- A tag whose frame is that of a view is one. -/
theorem Accepted.eq_view {name' : Text} {attributes' : AttributeMap} {index : Int}
    (h : Accepted w name frame)
    (hframe : { frame with attributes } = viewFrame name' attributes' index) :
    kindOf name = .view ∧ name = name' ∧ attributes = attributes' := by
  have hkind : kindOf name = .view := h.kind.symm.trans (congrArg Frame.kind hframe :)
  refine ⟨hkind, ?_, (congrArg Frame.attributes hframe :)⟩
  have htag : frame.tagName = name' := (congrArg Frame.tagName hframe :)
  rwa [h.view hkind] at htag

theorem Accepted.fullName (h : Accepted w name frame) : frame.fullName = name := by
  by_cases hview : kindOf name = .view
  · rw [h.view hview]
    rfl
  · obtain ⟨parent, _, rfl⟩ := h.other hview
    exact fullName_new name parent.index

/-! ### The start of a tag -/

/-- The change of a frame when a tag starts inside. -/
def entered (frame : Frame) : Frame :=
  { frame with hasOpenChild := true, nestedCount := frame.nestedCount + 1 }

theorem openTag_ok (hname : Name.isPlatform name = false) (hsuppressed : w.suppressed = 0)
    (hstrict : w.channel.strict = true)
    (hignored : w.draft.frames.head?.any (·.ignored) = false)
    (h : openTag options name w = .ok () v) : ∃ frame, w.newFrame name = .ok frame ∧
      core v = { core w with
        draft := (w.draft.modifyTop entered).push frame
        receiver := .top } := by
  unfold openTag at h
  rw [get_bind, hname, if_neg Bool.false_ne_true, if_neg (fun hne => hne hsuppressed), hignored,
    if_neg Bool.false_ne_true] at h
  cases hframe : w.newFrame name with
  | error fault =>
    rw [hframe] at h
    obtain ⟨_, u, hu, _⟩ := bind_eq_ok h
    exact absurd hu (report_ne_ok hstrict)
  | ok frame =>
    rw [hframe] at h
    cases h
    exact ⟨frame, rfl, rfl⟩

theorem setAttribute_yields {d : Draft} (hc : c.receiver = .top) {value : Text} :
    Yields (c.withDraft (d.push frame)) (setAttribute name value) ()
      (c.withDraft (d.push { frame with
        attributes := frame.attributes.insert name value })) := by
  refine yields_get fun w hw => ?_
  have hreceiver : w.receiver = .top := ((congrArg receiver hw :) : _ = c.receiver).trans hc
  rw [hreceiver]
  exact yields_modifyDraft _ _

theorem attributeEvents_yields {d : Draft} (hc : c.receiver = .top) (received : AttributeMap) :
    Yields (c.withDraft (d.push frame)) (events options (Element.attributeEvents received)) ()
      (c.withDraft (d.push { frame with
        attributes :=
          received.foldl (fun attributes item => attributes.insert item.1 item.2)
            frame.attributes })) := by
  induction received generalizing frame with
  | nil => exact yields_pure _ ()
  | cons item rest ih => exact (setAttribute_yields hc).bind ih

theorem completeReceiver_top {d : Draft} {given : Option AttributeMap}
    (hdraft : w.draft = d.push frame) (hignored : frame.ignored = false) :
    completeReceiver options given .top w =
      completeTop options [] (withAttributes given frame) false
        (w.withDraft (d.push (withAttributes given frame))) := by
  have hhead : w.draft.frames.head? = some frame := by rw [hdraft]; rfl
  have htop : w.draft.modifyTop (fun _ => withAttributes given frame) =
      d.push (withAttributes given frame) := by rw [hdraft]; rfl
  rw [completeReceiver, get_bind, hhead]
  show (if frame.ignored then pure () else do
    modifyTop fun _ => withAttributes given frame
    completeTop options [] (withAttributes given frame) false : Step Unit) w = _
  rw [hignored, if_neg Bool.false_ne_true, ← htop]
  rfl

/-- **The start of a tag.**  The tag gets a frame with all its attributes, and its start is what
`openTop` does with this frame on top. -/
theorem startTag_ok (hname : Name.isPlatform name = false) (hsuppressed : w.suppressed = 0)
    (hreceiver : w.receiver = .nobody) (hstrict : w.channel.strict = true)
    (hignored : w.draft.frames.head?.any (·.ignored) = false)
    (h : startTag options name attributes w = .ok () v) :
    ∃ frame u, Accepted w name frame ∧
      core u = (core w).withDraft
        ((w.draft.modifyTop entered).push { frame with attributes }) ∧
      openTop options [] { frame with attributes } false u = .ok () v := by
  obtain ⟨_, u, hopen, h⟩ := bind_eq_ok h
  obtain ⟨_, t, hset, hcomplete⟩ := bind_eq_ok h
  obtain ⟨frame, hframe, hu⟩ := openTag_ok hname hsuppressed hstrict hignored hopen
  have haccepted := newFrame_ok hframe
  obtain ⟨_, ht⟩ :=
    attributeEvents_yields (c := { core w with receiver := .top }) rfl attributes u hu () t hset
  have htop : t.receiver = .top := (congrArg receiver ht :)
  have hdraft : t.draft = (w.draft.modifyTop entered).push { frame with attributes := _ } :=
    (congrArg draft ht :)
  have hrun : completeReceiver options (some attributes) t.receiver { t with receiver := .nobody } =
    .ok () v := hcomplete
  rw [htop, completeReceiver_top (w := { t with receiver := .nobody }) hdraft haccepted.ignored]
    at hrun
  have hmode : t.channel.strict = true :=
    ((congrArg (·.channel.strict) ht :) : _ = w.channel.strict).trans hstrict
  have hopened := (recovering_ok (openTop_composed outline_apart options [] _ false) hrun).resolve_right
    fun hlenient => nomatch hlenient.1.symm.trans hmode
  refine ⟨frame, _, haccepted, ?_, hopened⟩
  show ({ core t with receiver := .nobody } : Walk).withDraft _ = _
  rw [ht, ← hreceiver]
  rfl

/-! ### What the start of a tag writes -/

section Start

variable {d : Draft}

theorem openTop_yields
    (h : Yields (c.withDraft (d.push frame)) (openUnder options [] frame false d.frames.head?) ()
      c') : Yields (c.withDraft (d.push frame)) (openTop options [] frame false) () c' := by
  refine yields_get fun w hw => ?_
  have hdraft : w.draft = d.push frame := (congrArg draft hw :)
  rw [hdraft]
  exact h

/-- The change of a frame when a factory has been placed for it. -/
def placing (frame : Frame) : Frame :=
  { frame with placed := true }

theorem placeFactory_yields (hown : frame.own = some []) :
    Yields (c.withDraft (d.push frame)) (placeFactory shape frame false) ()
      (inTag c (d.setBuffer (d.buffer ++ [.factory shape])) (placing frame) []) := by
  rw [@inTag_own c (placing frame) _ [] hown]
  refine (yields_modifyDraft _ _).bind ((yields_modifyDraft _ _).congr rfl ?_)
  refine congrArg c.withDraft ?_
  show (d.modifyBuffer fun b => b ++ [.factory shape]).push (placing frame) = _
  rw [modifyBuffer_eq]

/-- A tag for a property has a buffer of its own and writes nothing yet. -/
theorem openProperty_yields (hkind : frame.kind = .property property) (hown : frame.own = some []) :
    Yields (c.withDraft (d.push frame)) (openTop options [] frame false) ()
      (inTag c d frame []) := by
  rw [inTag_own hown]
  refine openTop_yields ?_
  unfold openUnder
  rw [hkind]
  exact yields_pure _ ()

/-- The shape of the factory that a tag places in the buffer of its parent. -/
def factoryShape? (settings : Settings) (frame : Frame) : Option FactoryShape :=
  let target (property : Text) :=
    Node.memberNamed (Construction.element settings frame.index) property
  match frame.kind with
  | .template property => some (.template (target property))
  | .templateArray property => some (.templateArray (target property))
  | .keyedTemplate => some (.keyedTemplate ((frame.attributes.nonEmpty? "key").getD []))
  | _ => none

theorem openUnder_factory (hshape : factoryShape? options.settings frame = some shape) :
    openUnder options [] frame false (some parent) = placeFactory shape frame false ∨
      openUnder options [] frame false (some parent) =
        fail (.missingKey frame.tagName parent.fullName) := by
  unfold factoryShape? at hshape
  unfold openUnder
  cases hkind : frame.kind with
  | template property | templateArray property =>
    rw [hkind] at hshape
    cases hshape
    exact .inl rfl
  | keyedTemplate =>
    rw [hkind] at hshape
    cases hkey : frame.attributes.nonEmpty? "key" with
    | none => exact .inr rfl
    | some key =>
      rw [hkey] at hshape
      cases hshape
      exact .inl rfl
  | view | property property | slotContent | skipped => rw [hkind] at hshape; cases hshape

/-- A tag for a factory leaves a place for it in the buffer of its parent. -/
theorem openFactory_yields (hparent : d.frames.head? = some parent)
    (hshape : factoryShape? options.settings frame = some shape) (hown : frame.own = some []) :
    Yields (c.withDraft (d.push frame)) (openTop options [] frame false) ()
      (inTag c (d.setBuffer (d.buffer ++ [.factory shape])) (placing frame) []) := by
  refine openTop_yields ?_
  rw [hparent]
  rcases openUnder_factory hshape with h | h
  · rw [h]
    exact placeFactory_yields hown
  · rw [h]
    exact never_fail.yields

/-- The change of a frame when slot content starts inside. -/
def holding (frame : Frame) : Frame :=
  { frame with holdsSlots := true }

theorem openSlotContent_yields (hkind : frame.kind = .slotContent)
    (hparent : d.frames.head? = some parent) (hown : frame.own = some []) :
    Yields (c.withDraft (d.push frame)) (openTop options [] frame false) ()
      (inTag c (d.modifyTop holding) frame []) := by
  rw [inTag_own hown]
  refine openTop_yields ?_
  unfold openUnder
  rw [hkind, hparent]
  exact yields_modifyDraft _ _

end Start

/-! ### The end of a tag -/

/-- The change of a frame when a tag inside has ended. -/
def shut (frame : Frame) : Frame :=
  { frame with hasOpenChild := false }

/-- The walk after a tag has ended: the draft that was below, with the given content of its
buffer. -/
def ended (c : Walk) (d : Draft) (b : List Fragment) : Walk :=
  { c with initialized := c.initialized || d.frames.isEmpty }.withDraft
    ((d.modifyTop shut).setBuffer b)

/-- A frame that may end: no tag inside is open. -/
structure Closable (frame : Frame) : Prop where
  ignored : frame.ignored = false
  hasOpenChild : frame.hasOpenChild = false

/-- No tag receives attributes, and no tag of another platform is open. -/
structure Settled (c : Walk) : Prop where
  receiver : c.receiver = .nobody
  suppressed : c.suppressed = 0
  strict : c.channel.strict = true

section End

variable {d : Draft}

/-- **The frame on top goes.**  The factory placed for it gets its body, and when the root goes, the
component is complete. -/
theorem exists_pop_eq (hdraft : w.draft = d.push frame) : ∃ trace, pop w = .ok () { w with
      draft := (d.modifyTop shut).setBuffer
        (if frame.placed then d.buffer.map (Fragment.fill (ownNodes frame)) else d.buffer)
      receiver := w.receiver.close frame
      initialized := w.initialized || (d.frames.isEmpty && !frame.ignored)
      channel := { w.channel with trace } } := by
  generalize hb : (if frame.placed then d.buffer.map (Fragment.fill (ownNodes frame))
    else d.buffer) = b
  have hrest : (if frame.placed then
      d.modifyBuffer fun b => b.map (Fragment.fill (ownNodes frame)) else d) =
        d.setBuffer b := by
    rw [← hb]
    split
    · rw [modifyBuffer_eq]
    · rw [Draft.setBuffer_buffer]
  unfold pop
  rw [get_bind, hdraft, Draft.pop?_push, hrest, ← Draft.modifyTop_setBuffer fun _ _ => rfl]
  dsimp only
  rw [bind_ok run_modify, isEmpty_setBuffer]
  cases hempty : d.frames.isEmpty with
  | true =>
    rw [Draft.modifyTop_of_nil
      (List.isEmpty_iff.mp (isEmpty_setBuffer.trans hempty)), if_pos rfl]
    cases frame.ignored with
    | true =>
      rw [Bool.not_true, Bool.and_false, Bool.or_false]
      exact ⟨_, rfl⟩
    | false =>
      rw [Bool.not_false, Bool.and_true, Bool.or_true]
      exact ⟨_, rfl⟩
  | false =>
    rw [Bool.false_and, Bool.or_false]
    exact ⟨_, rfl⟩

theorem yields_pop (hc : c.receiver = .nobody) :
    Yields (c.withDraft (d.push frame)) pop ()
      ({ c with initialized := c.initialized || (d.frames.isEmpty && !frame.ignored) }.withDraft
        ((d.modifyTop shut).setBuffer (if frame.placed then
          d.buffer.map (Fragment.fill (ownNodes frame)) else d.buffer))) := by
  intro w hw a v h
  obtain ⟨trace, hpop⟩ := exists_pop_eq (draft_of_core hw)
  cases hpop.symm.trans h
  refine ⟨rfl, ?_⟩
  have hreceiver : w.receiver = .nobody := ((congrArg receiver hw :) : w.receiver = _).trans hc
  rw [hreceiver]
  show ({ core w with
    draft := _, receiver := .nobody, initialized := (core w).initialized || _ } : Walk) = _
  rw [hw, ← hc]
  rfl

theorem pop_yields (hc : c.receiver = .nobody) (hignored : frame.ignored = false) :
    Yields (c.withDraft (d.push frame)) pop ()
      (ended c d (if frame.placed then d.buffer.map (Fragment.fill (ownNodes frame))
        else d.buffer)) := by
  have hpop := @yields_pop frame c d hc
  rwa [hignored, Bool.not_false, Bool.and_true] at hpop

/-- What the end of the tag on top comes to if nothing is wrong with it. -/
def leave (options : Options) (frame : Frame) : Step Unit := do
  closeTop options frame
  pop

variable {b : List Fragment}

theorem ended_setBuffer (b b' : List Fragment) : ended c (d.setBuffer b) b' = ended c d b' := by
  unfold ended
  rw [isEmpty_setBuffer, Draft.modifyTop_setBuffer fun _ _ => rfl, Draft.setBuffer_setBuffer]

/-- The end of a tag that writes into the buffer below: what it has written stays there. -/
theorem leave_shared {b' : List Fragment} (hc' : c'.receiver = .nobody)
    (hignored : frame.ignored = false) (hown : frame.own = none) (hplaced : frame.placed = false)
    (hclose : Yields (inTag c d frame b) (closeTop options frame) () (inTag c' d frame b')) :
    Yields (inTag c d frame b) (leave options frame) () (ended c' d b') := by
  refine hclose.bind ?_
  rw [inTag_shared hown]
  refine (pop_yields hc' hignored).congr rfl ?_
  rw [hplaced, if_neg Bool.false_ne_true, buffer_setBuffer, ended_setBuffer]

/-- The end of a tag with a buffer: what it has written is the body of the factory placed for it. -/
theorem leave_own (d' : Draft) (b' : List Fragment) (hc : c.receiver = .nobody)
    (hignored : frame.ignored = false) (hown : frame.own = some b)
    (hclose : Yields (inTag c d frame b) (closeTop options frame) () (inTag c d' frame b')) :
    Yields (inTag c d frame b) (leave options frame) ()
      (ended c d' (if frame.placed then d'.buffer.map (Fragment.fill (Draft.codeOf b'))
        else d'.buffer)) := by
  refine hclose.bind ?_
  rw [inTag, Draft.setBuffer_push_own (by rw [hown]; rfl)]
  exact @pop_yields { frame with own := some b' } c d' hc hignored

/-- The statements that subscribe the bindings kept in a frame. -/
def subscriptions (settings : Settings) (frame : Frame) : List Node :=
  match Binding.callbacks? frame.index (settings.elementName frame.index) frame.descriptors with
  | some callbacks => callbacks.attach
  | none => []

theorem addCallbacks_inTag {view : Frame} :
    Yields (inTag c d frame b) (addCallbacks options view) ()
      (inTag c d frame (b ++ (subscriptions options.settings view).map .code)) := by
  unfold addCallbacks subscriptions
  dsimp only
  cases Binding.callbacks? view.index (options.settings.elementName view.index)
      view.descriptors with
  | none => exact never_throw.yields
  | some callbacks =>
    have hrest : Yields (inTag c d frame b)
        (do
          modify fun w => { w with callbacks := w.callbacks ++ callbacks.declarations }
          append callbacks.attach) ()
        (inTag c d frame (b ++ callbacks.attach.map .code)) :=
      Yields.bind (yields_outside fun _ => rfl) append_inTag
    dsimp only
    split
    · exact hrest
    · exact (yields_log _ _ _).bind hrest

theorem closeView_inTag : Yields (inTag c d frame b) (closeView options frame) ()
      (inTag c d frame (b ++ (Construction.addChildren options.settings frame ++
        subscriptions options.settings frame).map .code)) := by
  unfold closeView
  split
  · exact never_fail.yields
  · rw [List.map_append, ← List.append_assoc]
    exact append_inTag.bind addCallbacks_inTag

theorem kind_of_isSlot (hslot : frame.isSlot = true) : frame.kind = .view := by
  rw [Frame.isSlot, Bool.and_eq_true] at hslot
  exact of_decide_eq_true hslot.1

theorem closeTop_element (hkind : frame.kind = .view) (hslot : frame.isSlot = false) :
    closeTop options frame = closeView options frame := by
  unfold closeTop
  rw [hkind]
  rw [hslot, if_neg Bool.false_ne_true]

theorem closeTop_slot (hslot : frame.isSlot = true) :
    closeTop options frame = closeSlot options frame := by
  unfold closeTop
  rw [kind_of_isSlot hslot]
  rw [hslot, if_pos rfl]

/-- The end of an element: its children and its bindings. -/
theorem leaveElement_yields (hc : c.receiver = .nobody) (hignored : frame.ignored = false)
    (hown : frame.own = none) (hplaced : frame.placed = false) (hkind : frame.kind = .view)
    (hslot : frame.isSlot = false) :
    Yields (inTag c d frame b) (leave options frame) ()
      (ended c d (b ++ (Construction.addChildren options.settings frame ++
        subscriptions options.settings frame).map .code)) := by
  refine leave_shared hc hignored hown hplaced ?_
  rw [closeTop_element hkind hslot]
  exact closeView_inTag

/-- What has been written after the branch of a slot becomes the other half of the branch. -/
def slotEnding (settings : Settings) (index : Int) (name : Text) (inside : List Fragment) :
    Fragment :=
  let element := settings.elementName index
  if inside.isEmpty then .slot element name
  else .code (Fragment.slotBranch element name
    (some (Construction.slotFallback settings index (Draft.codeOf inside))))

theorem hasBranch_slot (hname : frame.slotName = some name)
    {before inside : List Fragment} (hsplice : frame.splice = before.length + 1) :
    hasBranch settings frame
      (before ++ .slot (settings.elementName frame.index) name :: inside) = true := by
  have htake : (before ++ .slot (settings.elementName frame.index) name :: inside).take
      frame.splice = before ++ [.slot (settings.elementName frame.index) name] := by
    rw [hsplice, List.take_length_add_append]
    rfl
  rw [hasBranch, htake, hname, List.getLast?_concat]
  simp

/-- The content of a buffer after a slot in it has been closed. -/
def slotClosed (settings : Settings) (frame : Frame) (b : List Fragment) : List Fragment :=
  if frame.splice < b.length ∧ hasBranch settings frame b then
    b.take (frame.splice - 1) ++ [.code (Fragment.slotBranch (settings.elementName frame.index)
      (frame.slotName.getD []) (some (Construction.slotFallback settings frame.index
        (Draft.codeOf (b.drop frame.splice)))))]
  else b

theorem closeSlot_inTag : Yields (inTag c d frame b) (closeSlot options frame) ()
      (inTag { c with inSlotFallback := false } d frame
        (slotClosed options.settings frame b)) := by
  have hmark : Yields (inTag c d frame b) (modify fun w => { w with inSlotFallback := false }) ()
      (inTag { c with inSlotFallback := false } d frame b) := by
    refine yields_modify fun v hv => ?_
    rw [show core { v with inSlotFallback := false } =
      { core v with inSlotFallback := false } from rfl, hv]
    rfl
  refine hmark.bind (yields_get fun w hw => ?_)
  have hdraft : w.draft = (d.push frame).setBuffer b := (congrArg draft hw :)
  rw [hdraft, buffer_setBuffer]
  dsimp only
  unfold slotClosed
  split
  · next hlength =>
    split
    · next hbranch =>
      rw [if_pos ⟨hlength, hbranch⟩]
      exact modifyBuffer_inTag
    · exact never_fail.yields
  · next hlength =>
    rw [if_neg fun h => hlength h.1]
    exact yields_pure _ ()

theorem slotClosed_slot (hname : frame.slotName = some name)
    (before inside : List Fragment) (hsplice : frame.splice = before.length + 1) :
    slotClosed settings frame
        (before ++ .slot (settings.elementName frame.index) name :: inside) =
      before ++ [slotEnding settings frame.index name inside] := by
  generalize hb : before ++ .slot (settings.elementName frame.index) name :: inside = b
  have hlength : b.length = frame.splice + inside.length := by
    rw [← hb, hsplice, List.length_append, List.length_cons]
    omega
  have hbranch : hasBranch settings frame b = true := by
    rw [← hb]
    exact hasBranch_slot hname hsplice
  unfold slotClosed slotEnding
  rw [hlength, hbranch]
  cases inside with
  | nil =>
    rw [if_neg (by simp), ← hb]
    rfl
  | cons first rest =>
    have htake : b.take (frame.splice - 1) = before := by
      rw [← hb, hsplice, Nat.add_sub_cancel, List.take_left']
      rfl
    have hdrop : b.drop frame.splice = first :: rest := by
      rw [← hb, hsplice, List.drop_length_add_append]
      rfl
    rw [if_pos ⟨by simp, rfl⟩, htake, hdrop, hname]
    rfl

/-- The end of a slot: what has been written inside is its fallback. -/
theorem leaveSlot_yields (hc : c.receiver = .nobody) (hignored : frame.ignored = false)
    (hown : frame.own = none) (hplaced : frame.placed = false) (hslot : frame.isSlot = true) :
    Yields (inTag c d frame b) (leave options frame) ()
      (ended { c with inSlotFallback := false } d (slotClosed options.settings frame b)) := by
  refine leave_shared hc hignored hown hplaced ?_
  rw [closeTop_slot hslot]
  exact closeSlot_inTag

/-- The end of a property: what is collected for it goes into the buffer of its parent. -/
theorem leaveProperty_yields (hc : c.receiver = .nobody) (hignored : frame.ignored = false)
    (hown : frame.own = some b) (hplaced : frame.placed = false)
    (hkind : frame.kind = .property property) : Yields (inTag c d frame b) (leave options frame) ()
      (ended c d (d.buffer ++
        (b ++ (Construction.addToProperty options.settings frame property).map .code))) := by
  have hsome : frame.own.isSome := by rw [hown]; rfl
  generalize hcode : b ++ (Construction.addToProperty options.settings frame property).map .code = b'
  refine (leave_own (d.setBuffer (d.buffer ++ b')) b' hc hignored hown ?_).congr rfl ?_
  · unfold closeTop
    rw [hkind]
    refine append_inTag.bind ((yields_modifyDraft _ _).congr rfl (congrArg c.withDraft ?_))
    rw [hcode]
    show ((d.push frame).setBuffer b').modifyBelow
      (fun below => below.modifyBuffer (· ++ ((d.push frame).setBuffer b').buffer)) = _
    rw [Draft.modifyBelow_own hsome, buffer_setBuffer, modifyBuffer_eq]
  · rw [hplaced, if_neg Bool.false_ne_true, buffer_setBuffer, ended_setBuffer]

/-- What a template writes at its end. -/
def templateEnding (settings : Settings) (frame : Frame) : List Node :=
  match frame.kind with
  | .templateArray _ => []
  | _ => [Construction.returnView settings frame]

section

variable (hc : c.receiver = .nobody) (hignored : frame.ignored = false) (hown : frame.own = some b)
include hc hignored hown

/-- The end of a template, or of an array of templates: the factory gets its body. -/
theorem leaveFactory_yields (hplaced : frame.placed = true)
    (hshape : factoryShape? options.settings frame = some shape) :
    Yields (inTag c d frame b) (leave options frame) ()
      (ended c d (d.buffer.map (Fragment.fill
        (Draft.codeOf b ++ templateEnding options.settings frame)))) := by
  refine (leave_own d (b ++ (templateEnding options.settings frame).map .code) hc hignored hown
    ?_).congr rfl ?_
  · unfold factoryShape? at hshape
    unfold closeTop templateEnding
    cases hkind : frame.kind with
    | template property => exact append_inTag
    | keyedTemplate => exact append_inTag
    | templateArray property =>
      exact (yields_pure _ ()).congr rfl (congrArg _ (List.append_nil b).symm)
    | view | property property | slotContent | skipped => rw [hkind] at hshape; cases hshape
  · rw [hplaced, if_pos rfl, Draft.codeOf_append, Draft.codeOf_code]

/-- The end of slot content: what is collected goes before the custom element around it. -/
theorem leaveSlotContent_yields (hplaced : frame.placed = false) (hkind : frame.kind = .slotContent)
    (hparent : d.frames.head? = some parent) : Yields (inTag c d frame b) (leave options frame) ()
      (ended c d (Buffer.insertAt d.buffer parent.splice
        (b ++ (Construction.slotAssignments options.settings frame).map .code))) := by
  have hsome : frame.own.isSome := by rw [hown]; rfl
  generalize hcode : b ++ (Construction.slotAssignments options.settings frame).map .code = b'
  refine (leave_own (d.setBuffer (Buffer.insertAt d.buffer parent.splice b')) b' hc hignored hown
    ?_).congr rfl ?_
  · unfold closeTop
    rw [hkind]
    refine append_inTag.bind ((yields_modifyDraft _ _).congr rfl (congrArg c.withDraft ?_))
    rw [hcode]
    have hsplice : (((d.push frame).setBuffer b').parent?.map fun p => (p.splice : Int)) =
        some (parent.splice : Int) := by
      rw [Draft.setBuffer_push_own hsome, Draft.parent?_push, hparent]
      rfl
    show ((d.push frame).setBuffer b').modifyBelow (fun below => below.modifyBuffer fun b =>
      Buffer.insertAt b ((((d.push frame).setBuffer b').parent?.map (·.splice)).getD 0)
        ((d.push frame).setBuffer b').buffer) = _
    rw [Draft.modifyBelow_own hsome, buffer_setBuffer, hsplice, modifyBuffer_eq]
    rfl
  · rw [hplaced, if_neg Bool.false_ne_true, buffer_setBuffer, ended_setBuffer]

end

end End

end Walk

end ViewMarkup
