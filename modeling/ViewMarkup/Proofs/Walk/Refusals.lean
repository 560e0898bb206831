import ViewMarkup.Proofs.Walk.Indices
import ViewMarkup.Proofs.Walk.Revision

/-!
# Tags that are refused late

An element from a module that nobody has declared and a template without a key are refused only when
their attributes are known.  By then the tag around has counted them.  In lenient mode the rest of the
document is compiled as if they had not been written, unless something depends on that count.

* `Walk.refuses` tells which tags have been refused so, and `Walk.refusalFault` why.
* `refusing` is the editor that deletes these tags.
* `events_refused`: a tag that is refused leaves nothing behind but the report of the error and the
  count of the tag around.
* `events_refusing`: the rest of a document is compiled as before, if nothing depends on the counts.
* `not_redone_crowdedSlot`: a slot does not take the tag after one that is refused.
-/

namespace ViewMarkup

namespace Walk

/-- Whether the start of a tag, which has led from one walk to another, has first found a place for
the tag and has then refused it. -/
def refuses (w : Walk) (name : Text) (u : Walk) : Bool :=
  w.framesTag name && (!w.draft.frames.head?.any (·.ignored)) &&
    (w.newFrame name).isOk && u.draft.frames.head?.any (·.ignored)

/-- Why a tag is refused once its attributes are known: its module is not known, or it is a template
without a key. -/
def refusalFault (w : Walk) (name : Text) : TagFault :=
  match (Name.split name).2 with
  | some qualifier => .unknownNamespace qualifier name
  | none => .missingKey name ((w.draft.frames.head?.map Frame.fullName).getD [])

end Walk

/-- The editor that deletes a tag that is refused once its attributes are known. -/
def refusing (options : Options) : Editor := fun name received given w =>
  if w.refuses name (Walk.final (Walk.beginTag options name received given w)) then
    .delete (.tag (w.refusalFault name)) true
  else .keep received given []

namespace Walk

open Markup (eventsOf)
open Markup (documentEvents)

variable {options : Options} {name : Text} {received : AttributeMap} {given : Option AttributeMap}
  {attributes : AttributeMap} {frame : Frame} {extra : List Nat} {causes : List Cause} {d : Draft}
  {w v u s : Walk}

/-! ### The start of a tag that is refused -/

theorem any_ignored_numbering : (w.draft.frames.head?.any (·.ignored)) =
      (numbering w).tags.head?.any fun top => top.ignored := by
  show _ = (w.draft.frames.map Frame.badge).head?.any _
  rw [List.head?_map, Option.any_map]
  rfl

/-- The frame that a tag gets when its attributes are known, before it is completed. -/
theorem Accepted.receiving (h : Accepted w name frame) (hview : Element.kindOf name = .view) :
    { frame with attributes } = viewFrame name attributes (-1) := by
  rw [h.view hview]
  rfl

/-- A tag that is completed without an error is not left out. -/
theorem openTop_kept (haccepted : Accepted w name frame) (hs : s.draft = d.push { frame with attributes })
    (h : openTop options [] { frame with attributes } false s = .ok () u) :
    u.draft.frames.head?.any (·.ignored) = false := by
  rw [any_ignored_numbering]
  by_cases hview : Element.kindOf name = .view
  · have hframe := @Accepted.receiving name attributes frame w haccepted hview
    rw [hframe] at hs h
    have hparent : s.draft.parent? = d.frames.head? := by rw [hs]; rfl
    have hopen : openView options [] (viewFrame name attributes (-1)) s.draft.parent? s = .ok () u := h
    rw [openView_eq, hparent] at hopen
    obtain ⟨path, t, ht, hbuild⟩ := bind_eq_ok hopen
    cases elementModule_looks.eq_of_ok ht
    have hnumbering := @buildView_numbering options name attributes d s hs path
    rw [hbuild, final_ok] at hnumbering
    rw [hnumbering]
    rfl
  · obtain ⟨parent, _, hnew⟩ := haccepted.other hview
    have hkind : { frame with attributes }.kind ≠ .view := by
      rw [hnew]
      exact hview
    have hkept := (openInner_composed numbering_detached.draft options [] hkind false).keeps_ok
      numbering_deaf (show openUnder options [] _ false s.draft.parent? s = .ok () u from h)
    rw [hkept, numbering, hs, hnew]
    rfl

/-- **What refuses a tag once its attributes are known.** -/
theorem openTop_raised {e : Raised} (hlenient : s.channel.strict = false)
    (haccepted : Accepted w name frame)
    (hs : s.draft = (w.draft.modifyTop entered).push { frame with attributes })
    (h : openTop options [] { frame with attributes } false s = .error (.raised e) u) :
    u = s ∧ e = .ofCause (.tag (w.refusalFault name)) := by
  obtain ⟨hsame, hfault⟩ := openUnder_refuses options s.draft.parent? s e u hlenient h
  refine ⟨hsame, ?_⟩
  generalize haround : s.draft.parent? = parent? at hfault
  by_cases hview : Element.kindOf name = .view
  · cases haccepted.view hview
    cases hfault with
    | keyless hkind => cases hkind
    | unknown _ hqualifier =>
      rw [refusalFault, show (Name.split name).2 = _ from hqualifier]
      rfl
  · obtain ⟨parent, hparent, hnew⟩ := haccepted.other hview
    obtain ⟨hkeyed, around, rfl, rfl⟩ : frame.kind = .keyedTemplate ∧ ∃ around,
        parent? = some around ∧
          e = .ofCause (.tag (.missingKey frame.tagName around.fullName)) := by
      cases hfault with
      | unknown hkind =>
        rw [hnew] at hkind
        exact absurd hkind hview
      | keyless hkind => exact ⟨hkind, _, rfl, rfl⟩
    have hname : name = Frame.templateTag := by
      apply kindOf_keyed
      rw [← hkeyed, hnew]
      rfl
    have hfull : around.fullName = parent.fullName := by
      have hbelow : s.draft.parent? = (w.draft.modifyTop entered).frames.head? := by
        rw [hs]
        rfl
      obtain ⟨below, hframes⟩ := List.head?_eq_some_iff.mp hparent
      rw [hbelow, Draft.modifyTop, hframes] at haround
      cases haround
      rfl
    have hunqualified : (Name.split name).2 = none := by
      rw [hname]
      decide
    rw [refusalFault, hunqualified, hparent, hnew, hfull, hname]
    rfl

/-- A frame that has counted one more tag inside. -/
def counting (frame : Frame) : Frame :=
  { frame with nestedCount := frame.nestedCount + 1 }

/-- The channel after a tag has got a frame and has been refused. -/
def refusalChannel (w : Walk) (name : Text) (frame : Frame) : Channel :=
  (recordError (w.channel.log 3 (openingLine name frame)) (.ofCause (.tag (w.refusalFault name)))).2

/-- The start of a tag that is refused: it has been counted and reported, and is left out. -/
theorem beginTag_refused (hw : w.channel.strict = false) (hreceiver : w.receiver = .nobody)
    (hframed : Framed name w)
    (hignored : w.draft.frames.head?.any (·.ignored) = false)
    (hframe : w.newFrame name = .ok frame)
    (hattributes : given.getD (.ofList received) = attributes)
    (hbegin : beginTag options name received given w = .ok () u)
    (hrefused : u.draft.frames.head?.any (·.ignored) = true) :
    u = { w with
      draft := (w.draft.modifyTop entered).push { frame with attributes, ignored := true }
      channel := w.refusalChannel name frame } := by
  have haccepted := newFrame_ok hframe
  rw [beginTag_accepted hreceiver hframed hignored hframe hattributes] at hbegin
  generalize hs : ({ w with
    draft := holdingFrame frame attributes w.draft
    channel := w.channel.log 3 (openingLine name frame) } : Walk) = s at hbegin
  have hdraft : s.draft = holdingFrame frame attributes w.draft := by rw [← hs]
  have hlenient : s.channel.strict = false := by rw [← hs]; exact hw
  rcases recovering_ok (openTop_composed outline_apart options [] _ false) hbegin with
    hopen | ⟨_, e, t, r, hopen, hreport, hrecover⟩
  · rw [openTop_kept haccepted hdraft hopen] at hrefused
    cases hrefused
  · obtain ⟨rfl, rfl⟩ := openTop_raised hlenient haccepted hdraft hopen
    rw [report_lenient rfl hlenient] at hreport
    cases hreport
    cases hrecover
    rw [← hs]
    rfl

theorem modifyTop_shut_entered
    (hclosed : ∀ top, d.frames.head? = some top → top.hasOpenChild = false) :
    (d.modifyTop entered).modifyTop shut = d.modifyTop counting := by
  rcases d.eq_push_or_frames_nil with hnil | ⟨top, below, rfl⟩
  · rw [Draft.modifyTop_of_nil hnil, Draft.modifyTop_of_nil hnil, Draft.modifyTop_of_nil hnil]
  · have hshut : shut (entered top) = counting top := by
      unfold shut entered counting
      rw [← hclosed top rfl]
    rw [Draft.modifyTop_push, Draft.modifyTop_push, Draft.modifyTop_push, hshut]

/-- **A tag that is refused is left out with all that it holds.**  It leaves nothing behind but the
report of the error, and the tag around has counted it. -/
theorem events_refused {inner : List Markup} (hw : w.channel.strict = false)
    (hreceiver : w.receiver = .nobody) (hframed : Framed name w)
    (hignored : w.draft.frames.head?.any (·.ignored) = false)
    (hclosed : ∀ top, w.draft.frames.head? = some top → top.hasOpenChild = false)
    (hframe : w.newFrame name = .ok frame)
    (hbegin : beginTag options name received given w = .ok () u)
    (hrefused : u.draft.frames.head?.any (·.ignored) = true) :
    events options (Markup.tag name received given inner).events w = .ok () { w with
      draft := w.draft.modifyTop counting
      channel := w.refusalChannel name frame } := by
  have haccepted := newFrame_ok hframe
  obtain ⟨_, _, hnew⟩ := haccepted.eq_new
  have hu := beginTag_refused hw hreceiver hframed hignored hframe rfl hbegin hrefused
  have hmuted : Muted u := by
    refine ⟨by rw [hu]; exact hreceiver, hrefused, fun top htop => ?_⟩
    rw [hu, hnew] at htop
    cases htop
    rfl
  have hframedNow : Framed name u := by
    rw [hu]
    exact ⟨hframed.name, hframed.suppressed⟩
  have hcloses : Closes name
      { frame with attributes := given.getD (.ofList received), ignored := true } := by
    refine ⟨haccepted.fullName, ?_⟩
    rw [hnew]
    rfl
  have hclose := @closeTag_dropped options name _ (w.draft.modifyTop entered) u hmuted.receiver
    hframedNow (by rw [hu]) hcloses rfl (by rw [hnew]; rfl)
  rw [events_tag, bind_ok hbegin, bind_ok (eventsOf_ignored inner hmuted), hclose, hu,
    modifyTop_shut_entered hclosed]

/-! ### The editor -/

theorem of_refuses (h : w.refuses name u = true) : Framed name w ∧
    w.draft.frames.head?.any (·.ignored) = false ∧
    (∃ frame, w.newFrame name = .ok frame) ∧
    u.draft.frames.head?.any (·.ignored) = true := by
  rw [refuses, Bool.and_eq_true, Bool.and_eq_true, Bool.and_eq_true, Bool.not_eq_true'] at h
  obtain ⟨⟨⟨hframed, hignored⟩, hframe⟩, hrefused⟩ := h
  refine ⟨framesTag_iff.mp hframed, hignored, ?_, hrefused⟩
  cases hnew : w.newFrame name with
  | ok frame => exact ⟨frame, rfl⟩
  | error fault =>
    rw [hnew] at hframe
    cases hframe

/-- If the first of twins counts one more tag, it has counted one more than the second. -/
theorem Twin.counting (h : Twin extra causes w v) :
    Twin ((extra.headD 0 + 1) :: extra.tail) causes
      { w with draft := w.draft.modifyTop counting } v := by
  have hfirst : (w.draft.modifyTop Walk.counting).sketch [] =
      (w.draft.sketch []).modifyTop Walk.counting := by
    apply Draft.sketch_modifyTop
    intro extra frame
    unfold Walk.counting Frame.sketch
    rw [Nat.add_right_comm]
  have hsecond : (v.draft.sketch extra).modifyTop Walk.counting =
      v.draft.sketch ((extra.headD 0 + 1) :: extra.tail) := by
    obtain ⟨⟨frames, body⟩⟩ := v
    cases frames <;> cases extra <;> rfl
  refine h.withDraft ?_
  rw [hfirst, h.draft, hsecond]

theorem refusing_faithful : Faithful options (refusing options) where
  deletes := by
    intro opened name received given inner cause counted causes extra w v u hw hchoice hrun h
    unfold refusing at hchoice
    split at hchoice
    case isFalse => cases hchoice
    case isTrue hrefuses =>
      cases hchoice
      obtain ⟨hframed, hignored, ⟨frame, hframe⟩, hrefused⟩ := of_refuses hrefuses
      have hstarted := hrun
      rw [events_tag] at hstarted
      obtain ⟨_, begun, hbegin, _⟩ := bind_eq_ok hstarted
      rw [hbegin, final_ok] at hrefused
      rw [events_refused h.lenient (hw.settled rfl) hframed hignored hw.closed hframe hbegin
        hrefused] at hrun
      cases hrun
      have hreported := h.channels (w.refusalChannel name frame) v.channel rfl rfl rfl
        (List.append_nil _).symm (.removed .nil)
      exact hreported.counting
  keeps := by
    intro opened name received received' given given' new w u _ hchoice _
    unfold refusing at hchoice
    split at hchoice
    · cases hchoice
    · cases hchoice
      exact ⟨.inl ⟨rfl, rfl⟩, fun hne => absurd rfl hne⟩

/-- **Lenient recovery equals deletion also for tags that are refused late**, if nothing depends on
how many of them have been counted.  Every well-nested stream is that of a document.  If a lenient
walk takes the whole stream, then it also takes what remains of the document without the tags that
have been refused once their attributes were known.  It comes to the same module, and its reports are
the same but for one error for each tag that is not there. -/
theorem events_refusing (options : Options) {channel : Channel} (hchannel : channel.strict = false)
    {stream : List TagEvent} (hstream : WellNested stream) {w : Walk}
    (hrun : events options stream (start channel) = .ok () w) :
    (∃ document, stream = documentEvents document) ∧
    ∀ document, stream = documentEvents document →
      Markup.sparesDocument options (refusing options) document (start channel) = true →
      Redone options (refusing options) channel w document := by
  refine ⟨Markup.wellNested_iff.mp hstream, ?_⟩
  rintro document rfl hspares
  exact redone_of_spares refusing_faithful hchannel hspares hrun

/-- A page with an element from a module that nobody has declared, in the midst of others, and with a
template that has no key before one that has. -/
def undeclaredPage : List (Option Markup) :=
  [some (.tag "Page" [] none
    [.tag "Button" [] none [],
      .tag "x:Foo" [("text", "a")] none [.tag "slot" [] none [.tag "Label" [] none []]],
      .tag "ListView" [] none
        [.tag "ListView.itemTemplates" [] none
          [.tag "template" [] none [.tag "Label" [] none []],
            .tag "template" [("key", "a")] none [.tag "Label" [] none []]]]]),
   none]

theorem events_refusing_undeclaredPage :
    (Markup.documentCauses (.standard .standard) (refusing (.standard .standard)) undeclaredPage
      (start (.empty false .unknown))).length = 2 ∧
    ∃ w, events (.standard .standard) (documentEvents undeclaredPage)
        (start (.empty false .unknown)) = .ok () w ∧
      Redone (.standard .standard) (refusing (.standard .standard)) (.empty false .unknown) w
        undeclaredPage := by
  have hok : succeeds (events (.standard .standard) (documentEvents undeclaredPage)
      (start (.empty false .unknown))) = true := by
    decide +kernel
  have hredone := (events_refusing (.standard .standard) rfl
    Markup.wellNested_documentEvents (eq_ok_of_succeeds hok)).2 undeclaredPage rfl
    (by decide +kernel)
  exact ⟨by decide +kernel, _, eq_ok_of_succeeds hok, hredone⟩

/-- A slot with an element from a module that nobody has declared and another element after it. -/
def crowdedSlot : List (Option Markup) :=
  [some (.tag "Page" [] none
    [.tag "slot" [] none [.tag "x:Foo" [] none [], .tag "Label" [] none []]]),
   none]

/-- **A slot has counted the tag that is refused.**  So it does not take the one after it, which it
takes if the other is deleted. -/
theorem not_redone_crowdedSlot :
    ∃ w, events (.standard .standard) (documentEvents crowdedSlot)
        (start (.empty false .unknown)) = .ok () w ∧
      ¬ Redone (.standard .standard) (refusing (.standard .standard)) (.empty false .unknown) w
        crowdedSlot := by
  have hok : succeeds (events (.standard .standard) (documentEvents crowdedSlot)
      (start (.empty false .unknown))) = true := by
    decide +kernel
  refine ⟨_, eq_ok_of_succeeds hok, ?_⟩
  rintro ⟨v, hv, hsame, _⟩
  have husedTags : (final (events (.standard .standard) (documentEvents crowdedSlot)
      (start (.empty false .unknown)))).usedTags = (final (events (.standard .standard)
        (documentEvents (Markup.reviseDocument (.standard .standard)
          (refusing (.standard .standard)) crowdedSlot (start (.empty false .unknown))))
        (start (.empty false .unknown)))).usedTags := by
    rw [hv]
    exact hsame.usedTags
  revert husedTags
  decide +kernel

end Walk

end ViewMarkup
