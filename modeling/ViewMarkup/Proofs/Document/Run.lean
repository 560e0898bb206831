import ViewMarkup.Proofs.Document.Modes
import ViewMarkup.Proofs.Walk.Defects

/-!
# Walks over the tags of a document

A lenient walk over the tags of a document goes on to the end, or one of the tags has a defect.
Along the way it keeps whatever every start and every end of a tag keeps.

* `Resting` is what a walk is like between two tags.
* `Kept` says of a property of walks that tags keep it.
* `tags_run` puts the two together.
-/

namespace ViewMarkup.Document

open Walk (Starts Ends Nested StartDefect EndDefect)

variable {options : Options} {w v : Walk} {name : Text}

/-- A lenient walk between two tags. -/
structure Resting (w : Walk) : Prop where
  lenient : w.channel.strict = false
  receiver : w.receiver = .nobody
  nested : Nested w.draft.frames

theorem Resting.channel {channel : Channel} (h : Resting w)
    (hstrict : channel.strict = w.channel.strict) : Resting { w with channel } :=
  ⟨hstrict.trans h.lenient, h.receiver, h.nested⟩

theorem Resting.starts {attributes : AttributeMap} (h : Resting w)
    (hs : Starts options name attributes w v) : Resting v := by
  obtain ⟨hmode, hreceiver⟩ := Prod.mk.inj hs.still
  exact ⟨hmode.trans h.lenient, hreceiver.trans h.receiver, h.nested.starts hs⟩

theorem Resting.ends (h : Resting w) (he : Ends options name w v) : Resting v := by
  obtain ⟨hmode, hreceiver⟩ := Prod.mk.inj he.still
  exact ⟨hmode.trans h.lenient, hreceiver.trans h.receiver, h.nested.ends he⟩

/-- The tags of a document keep a property of walks, which has nothing to do with what has been
reported. -/
structure Kept (options : Options) (events : List Xml.Event) (I : Walk → Prop) : Prop where
  channel : ∀ {w : Walk} {channel : Channel}, I w → I { w with channel }
  starts : ∀ {offset : Nat} {name : Text} {attributes : AttributeMap} {w v : Walk},
    .startTag offset name attributes ∈ events → Resting w → I w →
      Starts options name attributes w v → I v
  ends : ∀ {name : Text} {w v : Walk}, Resting w → I w → Ends options name w v → I v

/-- Putting the cursor on a tag changes nothing but the place of the reports. -/
theorem setCursor_run (offset : Nat) (w : Walk) :
    ∃ channel, setCursor offset w = .ok () { w with channel } ∧
      channel.strict = w.channel.strict := by
  cases horigin : w.channel.origin with
  | tracked tracker =>
    refine ⟨w.channel.setOrigin (.tracked (tracker.setCursor offset)), ?_, rfl⟩
    rw [setCursor, Walk.run_modify, horigin]
  | _ =>
    refine ⟨w.channel, ?_, rfl⟩
    rw [setCursor, Walk.run_modify, horigin]

theorem setAttributes_eq (attributes : AttributeMap) :
    setAttributes attributes = Walk.events options (Element.attributeEvents attributes) := by
  induction attributes with
  | nil => rfl
  | cons item rest ih =>
    unfold setAttributes
    rw [ih]
    rfl

theorem tag_start (offset : Nat) (name : Text) (attributes : AttributeMap) :
    tag options (.startTag offset name attributes) =
      (do setCursor offset; Walk.startTag options name attributes) := by
  show (do setCursor offset; Walk.openTag options name; setAttributes attributes;
           Walk.completeTag options (some attributes) : Walk.Step Unit) = _
  rw [@setAttributes_eq options]
  rfl

/-- Where a defect can come from: from the start of a tag of the document, or from the end of a tag
that was open in a walk with a property. -/
inductive Defective (options : Options) (events : List Xml.Event) (I : Walk → Prop) (d : Defect) :
    Prop
  | start {offset : Nat} {name : Text} {attributes : AttributeMap}
      (hevent : .startTag offset name attributes ∈ events)
      (h : StartDefect options name attributes d)
  | finish {w : Walk} {frame : Frame} (hw : I w) (hframe : frame ∈ w.draft.frames)
      (h : EndDefect frame d)

/-- What a step comes to that keeps a property unless it has a defect. -/
inductive Comes (options : Options) (events : List Xml.Event) (I : Walk → Prop) :
    EStateM.Result Failure Walk Unit → Prop
  | on {v : Walk} (hv : Resting v) (h : I v) : Comes options events I (.ok () v)
  | off {d : Defect} {v : Walk} (h : Defective options events I d) :
      Comes options events I (.error (.defect d) v)

variable {events : List Xml.Event} {I : Walk → Prop}

theorem tag_run (hI : Kept options events I) {event : Xml.Event} (hevent : event ∈ events)
    (hw : Resting w) (h : I w) : Comes options events I (tag options event w) := by
  have hfresh := (@tag_agree options w event hw.lenient).fresh
  cases event with
  | startTag offset name attributes =>
    obtain ⟨channel, hcursor, hstrict⟩ := setCursor_run offset w
    have hw' := hw.channel hstrict
    rw [tag_start, Walk.bind_ok hcursor] at hfresh ⊢
    cases hrun : Walk.startTag options name attributes { w with channel } with
    | ok _ v =>
      have hs := Walk.startTag_starts hw'.lenient hw'.receiver hrun
      exact .on (hw'.starts hs) (hI.starts hevent hw' (hI.channel h) hs)
    | error failure v =>
      cases failure with
      | raised e => cases (hfresh e v hrun).1
      | defect d =>
        exact .off (.start hevent (Walk.startTag_defect hw'.lenient hw'.receiver hrun))
  | endTag offset name =>
    obtain ⟨channel, hcursor, hstrict⟩ := setCursor_run offset w
    have hw' := hw.channel hstrict
    rw [tag, Walk.bind_ok hcursor] at hfresh ⊢
    cases hrun : Walk.closeTag options name { w with channel } with
    | ok _ v =>
      have he := Walk.closeTag_ends hw'.receiver hw'.nested.shaped hrun
      exact .on (hw'.ends he) (hI.ends hw' (hI.channel h) he)
    | error failure v =>
      cases failure with
      | raised e => cases (hfresh e v hrun).1
      | defect d =>
        obtain ⟨frame, hframe, hdefect⟩ := Walk.closeTag_defect hrun
        exact .off (.finish h hframe hdefect)

/-- **What a lenient walk over tags comes to.** -/
theorem tags_run (hI : Kept options events I) {rest : List Xml.Event}
    (hrest : ∀ event ∈ rest, event ∈ events) (hw : Resting w) (h : I w) :
    Comes options events I (tags options rest w) := by
  induction rest generalizing w with
  | nil => exact .on hw h
  | cons event rest ih =>
    obtain ⟨hevent, hrest⟩ := List.forall_mem_cons.mp hrest
    have htag := tag_run hI hevent hw h
    cases hrun : tag options event w with
    | ok _ v =>
      rw [hrun] at htag
      show Comes options events I ((tag options event >>= fun _ => tags options rest) w)
      rw [Walk.bind_ok hrun]
      cases htag with
      | on hv hIv => exact ih hrest hv hIv
    | error failure v =>
      rw [hrun] at htag
      show Comes options events I ((tag options event >>= fun _ => tags options rest) w)
      rw [Walk.bind_error hrun]
      exact htag

end ViewMarkup.Document
