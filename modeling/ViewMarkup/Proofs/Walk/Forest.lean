import ViewMarkup.Proofs.Walk.Passage
import ViewMarkup.Proofs.Walk.Stack

/-!
# Well-nested streams as forests

A well-nested stream of events is a row of tags, each with the tags inside, and of ends of the
document.  The start of a tag does one of four things, and a tag that is left out leaves nothing
behind.

* `Markup` is a tag with what it holds; `Markup.eventsOf` and `Markup.documentEvents` are the events
  that tags and documents are read as.
* `wellNested_iff`: the well-nested streams are those of documents.
* `beginTag_unframed`, `beginTag_skipped`, `beginTag_rejected` and `beginTag_accepted` say what the
  start of a tag comes to, down to what is reported.
* `eventsOf_ignored`: tags inside a tag that is left out change nothing at all.
-/

namespace ViewMarkup

open List
open Nesting (after?)

/-- A tag of a stream: its name, the attributes that come one by one, what completes it, and the tags
inside. -/
inductive Markup where
  | tag (name : Text) (received : AttributeMap) (given : Option AttributeMap)
      (inner : List Markup)

namespace Markup

variable {stream : List TagEvent}

mutual

/-- The events that a tag is read as. -/
def events : Markup → List TagEvent
  | tag name received given inner =>
    .openTag name :: (Element.attributeEvents received ++
      .completeTag given :: (eventsOf inner ++ [.closeTag name]))

/-- The events that tags are read as, one tag after the other. -/
def eventsOf : List Markup → List TagEvent
  | [] => []
  | first :: rest => first.events ++ eventsOf rest

end

/-- The events of a document: of its tags, and of its ends, where no tag is written. -/
def documentEvents : List (Option Markup) → List TagEvent
  | [] => []
  | none :: rest => .finish :: documentEvents rest
  | some first :: rest => first.events ++ documentEvents rest

theorem eventsOf_append (first rest : List Markup) :
    eventsOf (first ++ rest) = eventsOf first ++ eventsOf rest := by
  induction first with
  | nil => rfl
  | cons element first ih =>
    rw [cons_append, eventsOf, eventsOf, ih, append_assoc]

theorem eventsOf_singleton (element : Markup) : eventsOf [element] = element.events := by
  rw [eventsOf, eventsOf, append_nil]

theorem documentEvents_append (forest : List Markup) (rest : List (Option Markup)) :
    documentEvents (forest.map some ++ rest) = eventsOf forest ++ documentEvents rest := by
  induction forest with
  | nil => rfl
  | cons element forest ih =>
    rw [map_cons, cons_append, documentEvents, eventsOf, ih, append_assoc]

/-! ### Well-nested streams -/

mutual

theorem after?_events : ∀ (element : Markup) (opened : List Text),
    after? ⟨opened, false⟩ element.events = some ⟨opened, false⟩
  | tag name received given inner, opened => by
      have hclose : after? ⟨name :: opened, false⟩ [.closeTag name] =
          some ⟨opened, false⟩ := by
        simp only [after?, Nesting.next?, if_true, Option.bind_some]
      show after? ⟨name :: opened, true⟩ _ = _
      rw [Nesting.after?_append, Element.after?_attributeEvents]
      show after? ⟨name :: opened, false⟩ _ = _
      rw [Nesting.after?_append, after?_eventsOf inner]
      exact hclose

theorem after?_eventsOf : ∀ (forest : List Markup) (opened : List Text),
    after? ⟨opened, false⟩ (eventsOf forest) = some ⟨opened, false⟩
  | [], _ => rfl
  | element :: rest, opened => by
      rw [eventsOf, Nesting.after?_append, after?_events element opened]
      exact after?_eventsOf rest opened

end

theorem wellNested_documentEvents {document : List (Option Markup)} :
    WellNested (documentEvents document) := by
  unfold WellNested
  induction document with
  | nil => rfl
  | cons item rest ih =>
    cases item with
    | none => exact ih
    | some element =>
      rw [documentEvents, Nesting.after?_append, Nesting.bare, after?_events element []]
      exact ih

/-- What is left of a well-nested stream while some tags are open, the innermost first: the rest of
what each of them holds, with its end, and then the rest of the document. -/
inductive Remains : List Text → List TagEvent → Prop
  | bare (document : List (Option Markup)) : Remains [] (documentEvents document)
  | inside {name : Text} {outer : List Text} {rest : List TagEvent} (forest : List Markup)
      (h : Remains outer rest) :
      Remains (name :: outer) (eventsOf forest ++ .closeTag name :: rest)

/-- One more tag may stand before what is left. -/
theorem Remains.cons {opened : List Text} {rest : List TagEvent} (h : Remains opened rest)
    (element : Markup) : Remains opened (element.events ++ rest) := by
  cases h with
  | bare document => exact .bare (some element :: document)
  | inside forest h =>
    rw [← append_assoc]
    exact .inside (element :: forest) h

/-- If a tag still receives attributes, they and its completion come first. -/
def Stays (n : Nesting) (stream : List TagEvent) : Prop :=
  if n.receives then
    ∃ received given rest, stream = Element.attributeEvents received ++ .completeTag given :: rest ∧
      Remains n.opened rest
  else Remains n.opened stream

/-- **Reading back.**  What is left of a well-nested stream is a row of tags for each open one. -/
theorem stays_of_after? {n : Nesting} (h : n.after? stream = some .bare) : Stays n stream := by
  induction stream generalizing n with
  | nil =>
    cases h
    exact .bare []
  | cons e rest ih =>
    obtain ⟨m, hm, hrest⟩ := Option.bind_eq_some_iff.mp h
    have hstays := ih hrest
    cases Nesting.follows_of_next? hm with
    | @openTag opened name =>
      obtain ⟨received, given, rest, rfl, hremains⟩ := hstays
      cases hremains with
      | inside forest hremains =>
        have hcons := hremains.cons (.tag name received given forest)
        rw [events, cons_append, append_assoc, cons_append,
          append_assoc] at hcons
        exact hcons
    | @setAttribute opened name value =>
      obtain ⟨received, given, rest, rfl, hremains⟩ := hstays
      exact ⟨(name, value) :: received, given, rest, rfl, hremains⟩
    | @completeTag opened given => exact ⟨[], given, rest, rfl, hstays⟩
    | closeTag => exact .inside [] hstays
    | finish =>
      have hremains : Remains [] rest := hstays
      cases hremains with
      | bare document => exact .bare (none :: document)

/-- **The well-nested streams are those of documents.** -/
theorem wellNested_iff : WellNested stream ↔ ∃ document, stream = documentEvents document := by
  constructor
  · intro h
    have hremains : Remains [] stream := stays_of_after? h
    cases hremains with
    | bare document => exact ⟨document, rfl⟩
  · rintro ⟨document, rfl⟩
    exact wellNested_documentEvents

end Markup

namespace Walk

open Markup (eventsOf)

variable {options : Options} {name : Text} {received : AttributeMap} {given : Option AttributeMap}
  {frame : Frame} {d : Draft} {w v u : Walk} {inner : List Markup} {opened : List Text}
  {fault : TagFault}

/-- The run over one tag: its start, what is inside, its end. -/
theorem events_tag : events options (Markup.tag name received given inner).events = (do
      beginTag options name received given
      events options (eventsOf inner)
      closeTag options name) := by
  have hclose : events options [.closeTag name] = closeTag options name := bind_pure _
  rw [Markup.events, events_cons, events_append, events_cons, events_append, hclose]
  simp only [beginTag, bind_assoc]
  rfl

/-- While a tag is open, tags of its name have a frame as before. -/
theorem Tracks.framed_iff (hw : Tracks options ⟨opened, false⟩ w)
    (hv : Tracks options ⟨name :: opened, false⟩ v) : Framed name w ↔ Framed name v := by
  have hsuppressed : Name.isPlatform name = false → w.suppressed = v.suppressed := by
    intro hname
    rw [hw.mirrors.suppressed, hv.mirrors.suppressed, silenced_cons hname]
  constructor
  · intro h
    exact ⟨h.name, (hsuppressed h.name).symm.trans h.suppressed⟩
  · intro h
    exact ⟨h.name, (hsuppressed h.name).trans h.suppressed⟩

theorem Tracks.closed (h : Tracks options ⟨opened, false⟩ w) (top : Frame)
    (htop : w.draft.frames.head? = some top) : top.hasOpenChild = false := by
  obtain ⟨below, hframes⟩ := head?_eq_some_iff.mp htop
  exact (h.mirrors.hasOpenChild top below hframes).1

theorem Tracks.beginTag (h : Tracks options ⟨opened, false⟩ w)
    (hrun : Walk.beginTag options name received given w = .ok () v) :
    Tracks options ⟨name :: opened, false⟩ v := by
  have hevents : Walk.events options
      (.openTag name :: (Element.attributeEvents received ++ [.completeTag given])) w = .ok () v := by
    have hlast : Walk.events options [.completeTag given] =
        Walk.completeTag options given := bind_pure _
    rw [events_cons, events_append, hlast]
    exact hrun
  refine h.of_ok ?_ hevents
  show after? ⟨name :: opened, true⟩ _ = _
  rw [Nesting.after?_append, Element.after?_attributeEvents]
  rfl

/-! ### The start of a tag -/

/-- A tag without a frame of its own receives nothing. -/
theorem beginTag_unframed (hopen : openTag options name w = .ok () v)
    (hv : v.receiver = .nobody) : beginTag options name received given w = .ok () v := by
  unfold beginTag
  rw [bind_ok hopen, bind_ok (attributes_nobody hv), completeTag_nobody hv]

/-- The frame on top receives attributes. -/
theorem attributeEvents_top (hu : u.receiver = .top) (hdraft : u.draft = d.push frame) :
    events options (Element.attributeEvents received) u = .ok () { u with
      draft := d.push { frame with
        attributes := received.foldl (fun attributes item => attributes.insert item.1 item.2)
          frame.attributes } } := by
  induction received generalizing u frame with
  | nil =>
    show EStateM.Result.ok () u = .ok () { u with draft := d.push frame }
    rw [← hdraft]
  | cons item rest ih =>
    have hmodify : setAttribute item.1 item.2 u = modifyTop (fun frame =>
        { frame with attributes := frame.attributes.insert item.1 item.2 }) u := by
      unfold setAttribute
      rw [get_bind, hu]
    have hset : setAttribute item.1 item.2 u = .ok () { u with
        draft := d.push { frame with attributes := frame.attributes.insert item.1 item.2 } } := by
      rw [hmodify]
      show EStateM.Result.ok () { u with draft := u.draft.modifyTop _ } = _
      rw [hdraft]
      rfl
    exact (bind_ok hset).trans (@ih { frame with
      attributes := frame.attributes.insert item.1 item.2 } _ hu rfl)

/-- A frame that is left out takes attributes, and that is all. -/
theorem beginTag_ignored (hopen : openTag options name w = .ok () u) (hu : u.receiver = .top)
    (hdraft : u.draft = d.push (Frame.skip name)) :
    beginTag options name received given w = .ok () { u with
      draft := d.push { Frame.skip name with attributes := .ofList received }
      receiver := .nobody } := by
  unfold beginTag
  rw [bind_ok hopen, bind_ok (attributeEvents_top hu hdraft)]
  rw [hu]
  rfl

/-- A frame that takes attributes is completed. -/
theorem beginTag_taken (hopen : openTag options name w = .ok () u) (hu : u.receiver = .top)
    (hdraft : u.draft = d.push frame) (hunset : frame.attributes = [])
    (hignored : frame.ignored = false) {attributes : AttributeMap}
    (hattributes : given.getD (.ofList received) = attributes) :
    beginTag options name received given w =
      completeTop options [] { frame with attributes } false { u with
        draft := d.push { frame with attributes }
        receiver := .nobody } := by
  have htop := @attributeEvents_top options received frame d u hu hdraft
  rw [hunset] at htop
  unfold beginTag
  rw [bind_ok hopen, bind_ok htop, ← hattributes]
  show completeReceiver options given u.receiver _ = _
  rw [hu]
  exact @completeReceiver_top options { frame with attributes := .ofList received } _ d given rfl
    hignored

/-- The draft when a tag that is left out has started. -/
def skipping (name : Text) (received : AttributeMap) (d : Draft) : Draft :=
  (d.modifyTop opening).push { Frame.skip name with attributes := .ofList received }

/-- The draft when a tag that may stand where it stands has received its attributes. -/
def holdingFrame (frame : Frame) (attributes : AttributeMap) (d : Draft) : Draft :=
  (d.modifyTop entered).push { frame with attributes }

/-- The line of the trace on a tag that has got a frame. -/
def openingLine (name : Text) (frame : Frame) : Text :=
  "Opening '" ++ name ++ "' (" ++ frame.kind.label ++ ")"

/-- Inside a tag that is left out a tag is left out, too. -/
theorem beginTag_skipped (hreceiver : w.receiver = .nobody) (hframed : Framed name w)
    (hignored : w.draft.frames.head?.any (·.ignored) = true) :
    beginTag options name received given w =
      .ok () { w with draft := skipping name received w.draft } := by
  have hopen := @openTag_eq options name w hframed
  rw [hignored, if_pos rfl] at hopen
  have hbegin := @beginTag_ignored options name received given (w.draft.modifyTop opening) w _
    (hopen.trans rfl) rfl rfl
  rw [hbegin, ← hreceiver]
  rfl

/-- A tag that may not stand where it stands is reported and left out. -/
theorem beginTag_rejected (hw : w.channel.strict = false)
    (hreceiver : w.receiver = .nobody) (hframed : Framed name w)
    (hignored : w.draft.frames.head?.any (·.ignored) = false)
    (hframe : w.newFrame name = .error fault) :
    beginTag options name received given w = .ok () { w with
      draft := skipping name received w.draft
      channel := (recordError w.channel (.ofCause (.tag fault))).2 } := by
  have hopen := @openTag_eq options name w hframed
  have hreport := @report_lenient w (.ofCause (.tag fault)) rfl hw
  rw [hignored, if_neg Bool.false_ne_true, hframe] at hopen
  have hbegin := @beginTag_ignored options name received given (w.draft.modifyTop opening) w _
    ((hopen.trans (bind_ok hreport)).trans rfl) rfl rfl
  rw [hbegin, ← hreceiver]
  rfl

/-- A tag that may stand where it stands is completed with all its attributes. -/
theorem beginTag_accepted (hreceiver : w.receiver = .nobody) (hframed : Framed name w)
    (hignored : w.draft.frames.head?.any (·.ignored) = false)
    (hframe : w.newFrame name = .ok frame) {attributes : AttributeMap}
    (hattributes : given.getD (.ofList received) = attributes) :
    beginTag options name received given w =
      completeTop options [] { frame with attributes } false { w with
        draft := holdingFrame frame attributes w.draft
        channel := w.channel.log 3 (openingLine name frame) } := by
  have hopen := @openTag_eq options name w hframed
  have haccepted := newFrame_ok hframe
  rw [hignored, if_neg Bool.false_ne_true, hframe] at hopen
  have hbegin := @beginTag_taken options name received given frame (w.draft.modifyTop entered) w _
    (hopen.trans rfl) rfl rfl haccepted.unset haccepted.ignored attributes hattributes
  rw [hbegin, ← hreceiver]
  rfl

/-! ### Tags that are left out -/

/-- The end of a tag that has been left out takes its frame away. -/
theorem closeTag_dropped (hreceiver : w.receiver = .nobody) (hframed : Framed name w)
    (hdraft : w.draft = d.push frame) (hcloses : Closes name frame)
    (hignored : frame.ignored = true) (hplaced : frame.placed = false) :
    closeTag options name w = .ok () { w with draft := d.modifyTop shut } := by
  have hwalk : ({ w with draft := d, receiver := w.receiver.close frame } : Walk) =
      { w with draft := d } := by
    rw [hreceiver]
    rfl
  rw [closeTag_closes hframed hdraft hcloses, hignored, if_pos rfl]
  unfold pop
  rw [get_bind, hdraft, Draft.pop?_push, hplaced]
  show (if d.frames.isEmpty then _ else _ : Step Unit)
    { w with draft := d, receiver := w.receiver.close frame } = _
  rw [hwalk]
  cases hempty : d.frames.isEmpty with
  | true =>
    rw [Draft.modifyTop_of_nil (isEmpty_iff.mp hempty), if_pos rfl, hignored]
    rfl
  | false => rfl

theorem modifyTop_shut_opening
    (hclosed : ∀ top, d.frames.head? = some top → top.hasOpenChild = false) :
    (d.modifyTop opening).modifyTop shut = d := by
  rcases d.eq_push_or_frames_nil with hnil | ⟨top, below, rfl⟩
  · rw [Draft.modifyTop_of_nil hnil, Draft.modifyTop_of_nil hnil]
  · rw [Draft.modifyTop_push, Draft.modifyTop_push, shut_opening (hclosed top rfl)]

/-- Nobody receives attributes, and the tag on top is left out and has no open tag inside. -/
structure Muted (w : Walk) : Prop where
  receiver : w.receiver = .nobody
  ignored : w.draft.frames.head?.any (·.ignored) = true
  closed : ∀ top, w.draft.frames.head? = some top → top.hasOpenChild = false

theorem Muted.suppress (hw : Muted w) {suppressed : Int} : Muted { w with suppressed } :=
  ⟨hw.receiver, hw.ignored, hw.closed⟩

theorem muted_of_skipping (hreceiver : w.receiver = .nobody)
    (hdraft : w.draft = skipping name received d) : Muted w := by
  refine ⟨hreceiver, ?_, fun top htop => ?_⟩
  · rw [hdraft]
    rfl
  · rw [hdraft] at htop
    cases htop
    rfl

/-- When a tag that is left out ends, the draft is what it was before. -/
theorem closeTag_skipping (hreceiver : w.receiver = .nobody) (hframed : Framed name w)
    (hdraft : w.draft = skipping name received d)
    (hclosed : ∀ top, d.frames.head? = some top → top.hasOpenChild = false) :
    closeTag options name w = .ok () { w with draft := d } := by
  rw [closeTag_dropped hreceiver hframed hdraft ⟨rfl, rfl⟩ rfl rfl, modifyTop_shut_opening hclosed]

mutual

theorem events_ignored : ∀ (element : Markup) {w : Walk}, Muted w →
    events options element.events w = .ok () w
  | .tag name received given inner, w, hw => by
      rw [events_tag]
      cases hname : Name.isPlatform name with
      | true =>
        rw [bind_ok (beginTag_unframed (openTag_platform hname hw.receiver) hw.receiver),
          bind_ok (eventsOf_ignored inner hw.suppress), closeTag_platform hname]
        simp only [Int.add_sub_cancel]
      | false =>
        by_cases hsuppressed : w.suppressed = 0
        · have hframed : Framed name w := ⟨hname, hsuppressed⟩
          have hmuted : Muted { w with draft := skipping name received w.draft } :=
            muted_of_skipping hw.receiver rfl
          rw [bind_ok (beginTag_skipped hw.receiver hframed hw.ignored),
            bind_ok (eventsOf_ignored inner hmuted)]
          exact closeTag_skipping hw.receiver ⟨hname, hsuppressed⟩ rfl hw.closed
        · rw [bind_ok (beginTag_unframed (openTag_hushed hname hw.receiver hsuppressed)
              hw.receiver), bind_ok (eventsOf_ignored inner hw), closeTag_hushed hname hsuppressed]

/-- **Tags inside a tag that is left out change nothing.** -/
theorem eventsOf_ignored : ∀ (forest : List Markup) {w : Walk}, Muted w →
    events options (eventsOf forest) w = .ok () w
  | [], _, _ => rfl
  | element :: rest, w, hw => by
      rw [eventsOf, events_append, bind_ok (events_ignored element hw)]
      exact eventsOf_ignored rest hw

end

/-- **A tag that is rejected is left out with all that it holds.**  It leaves nothing behind but the
report of the error. -/
theorem events_rejected (hw : w.channel.strict = false)
    (hreceiver : w.receiver = .nobody) (hframed : Framed name w)
    (hignored : w.draft.frames.head?.any (·.ignored) = false)
    (hclosed : ∀ top, w.draft.frames.head? = some top → top.hasOpenChild = false)
    (hframe : w.newFrame name = .error fault) :
    events options (Markup.tag name received given inner).events w =
      .ok () { w with channel := (recordError w.channel (.ofCause (.tag fault))).2 } := by
  have hmuted : Muted { w with
      draft := skipping name received w.draft
      channel := (recordError w.channel (.ofCause (.tag fault))).2 } :=
    muted_of_skipping hreceiver rfl
  rw [events_tag, bind_ok (beginTag_rejected hw hreceiver hframed hignored hframe),
    bind_ok (eventsOf_ignored inner hmuted)]
  exact closeTag_skipping hreceiver ⟨hframed.name, hframed.suppressed⟩ rfl hclosed

end Walk

end ViewMarkup
