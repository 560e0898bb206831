import ViewMarkup.Proofs.Walk.Twins

/-!
# Revised documents

Some tags of a document may be deleted, and the attributes of others may be changed, so that the rest
is compiled as before.  An editor decides what becomes of each tag when the walk meets it.

* `Markup.reviseDocument` is what an editor makes of a document, and `Markup.documentCauses` are the
  errors that it takes out.
* `Faithful` says of an editor that deleting a tag, or changing its attributes, makes no
  difference by itself.
* A parent may have counted a tag that is deleted.  `Markup.sparesDocument` says that nothing depends
  on such counts.
* `events_revise` compares the run over a tag with the run over what an editor makes of it, and
  `redone_of_spares` does so for a whole document.
-/

namespace ViewMarkup

/-- What becomes of a tag when a document is revised. -/
inductive Edit where
  /-- The tag is deleted with all that it holds, and so is an error.  Its parent may have counted the
  tag among those inside. -/
  | delete (cause : Cause) (counted : Bool)
  /-- The tag stays with some attributes, and without some errors. -/
  | keep (received : AttributeMap) (given : Option AttributeMap) (causes : List Cause)

/-- Decides what becomes of a tag that a walk meets. -/
abbrev Editor := (name : Text) → (received : AttributeMap) → (given : Option AttributeMap) →
  Walk → Edit

/-- Whether a tag that a walk meets has a frame. -/
def Walk.framesTag (name : Text) (w : Walk) : Bool :=
  !Name.isPlatform name && decide (w.suppressed = 0)

namespace Markup

open Walk (beginTag final framesTag nestingFault? uncounted)

variable (options : Options) (edit : Editor)

mutual

/-- What an editor makes of a tag that a walk meets. -/
def revise : Markup → Walk → List Markup
  | tag name received given inner, w =>
    match edit name received given w with
    | .delete _ _ => []
    | .keep received' given' _ =>
      [tag name received' given'
        (reviseAll inner (final (beginTag options name received given w)))]

def reviseAll : List Markup → Walk → List Markup
  | [], _ => []
  | first :: rest, w =>
    revise first w ++
      reviseAll rest (final (Walk.events options first.events w))

end

mutual

/-- The errors that an editor takes out. -/
def causes : Markup → Walk → List Cause
  | tag name received given inner, w =>
    match edit name received given w with
    | .delete cause _ => [cause]
    | .keep _ _ new =>
      new ++ causesAll inner (final (beginTag options name received given w))

def causesAll : List Markup → Walk → List Cause
  | [], _ => []
  | first :: rest, w =>
    causes first w ++
      causesAll rest (final (Walk.events options first.events w))

end

mutual

/-- How many tags are deleted that the tag on top has counted.  Tags inside a tag without a frame
belong to the tag around it. -/
def removed : Markup → Walk → Nat
  | tag name received given inner, w =>
    match edit name received given w with
    | .delete _ counted => counted.toNat
    | .keep _ _ _ =>
      if framesTag name w then 0
      else removedAll inner (final (beginTag options name received given w))

def removedAll : List Markup → Walk → Nat
  | [], _ => 0
  | first :: rest, w =>
    removed first w +
      removedAll rest (final (Walk.events options first.events w))

end

mutual

/-- Nothing depends on the tags that are deleted, given how many the tag on top has counted before.
It has the same against a tag after them, and an element with slot content that has other tags
besides has one that stays. -/
def spares : (before : Nat) → Markup → Walk → Bool
  | before, tag name received given inner, w =>
    match edit name received given w with
    | .delete _ _ => true
    | .keep _ _ _ =>
      let u := final (beginTag options name received given w)
      if framesTag name w then
        let lost := removedAll options edit inner u
        (w.draft.frames.head?.all fun parent => decide
            (nestingFault? w.inSlotFallback (uncounted before parent) name =
              nestingFault? w.inSlotFallback parent name)) &&
          sparesAll 0 inner u &&
          (final (Walk.events options (eventsOf inner) u)).draft.frames.head?.all fun top =>
            !top.holdsSlots || decide (lost = 0) || decide (lost + 1 < top.nestedCount)
      else sparesAll before inner u

def sparesAll : (before : Nat) → List Markup → Walk → Bool
  | _, [], _ => true
  | before, first :: rest, w =>
    spares before first w &&
      sparesAll (before + removed options edit first w) rest
        (final (Walk.events options first.events w))

end

/-- What an editor makes of a document. -/
def reviseDocument :
    List (Option Markup) → Walk → List (Option Markup)
  | [], _ => []
  | none :: rest, w => none :: reviseDocument rest (final (Walk.finish w))
  | some first :: rest, w =>
    (revise options edit first w).map some ++
      reviseDocument rest (final (Walk.events options first.events w))

/-- The errors that an editor takes out of a document. -/
def documentCauses : List (Option Markup) → Walk → List Cause
  | [], _ => []
  | none :: rest, w => documentCauses rest (final (Walk.finish w))
  | some first :: rest, w =>
    causes options edit first w ++
      documentCauses rest (final (Walk.events options first.events w))

/-- Nothing in a document depends on the tags that are deleted. -/
def sparesDocument : List (Option Markup) → Walk → Bool
  | [], _ => true
  | none :: rest, w => sparesDocument rest (final (Walk.finish w))
  | some first :: rest, w =>
    spares options edit 0 first w &&
      sparesDocument rest (final (Walk.events options first.events w))

end Markup

namespace Walk

open Markup (documentCauses documentEvents eventsOf reviseDocument sparesAll sparesDocument)

variable {options : Options} {edit : Editor} {name : Text} {extra : List Nat} {causes : List Cause}
  {w v u : Walk}

theorem framesTag_iff : framesTag name w = true ↔ Framed name w := by
  unfold framesTag
  rw [Bool.and_eq_true, Bool.not_eq_true', decide_eq_true_iff]
  exact ⟨fun h => ⟨h.1, h.2⟩, fun h => ⟨h.name, h.suppressed⟩⟩

/-- The editor makes no difference by itself: a tag that it deletes leaves twins behind, and a tag
that it keeps may start with the attributes that it gives. -/
structure Faithful (options : Options) (edit : Editor) : Prop where
  deletes : ∀ {opened : List Text} {name : Text} {received : AttributeMap}
    {given : Option AttributeMap} {inner : List Markup} {cause : Cause} {counted : Bool}
    {causes : List Cause} {extra : List Nat} {w v u : Walk},
    Tracks options ⟨opened, false⟩ w → edit name received given w = .delete cause counted →
    events options (Markup.tag name received given inner).events w = .ok () u →
    Twin extra causes w v →
    Twin ((extra.headD 0 + counted.toNat) :: extra.tail) (causes ++ [cause]) u v
  keeps : ∀ {opened : List Text} {name : Text} {received received' : AttributeMap}
    {given given' : Option AttributeMap} {new : List Cause} {w u : Walk},
    Tracks options ⟨opened, false⟩ w → edit name received given w = .keep received' given' new →
    beginTag options name received given w = .ok () u →
    Suits options new name u (given.getD (.ofList received)) (given'.getD (.ofList received')) ∧
      (new ≠ [] → Framed name w)

/-- Twins after a run, of which the first has counted more tags in the tag on top. -/
def Follows (extra : List Nat) (lost : Nat) (causes : List Cause) (u t : Walk) : Prop :=
  ∃ extra', extra'.headD 0 = extra.headD 0 + lost ∧ extra'.tail = extra.tail ∧
    Twin extra' causes u t

/-- What a frame mixes does not depend on the tags that are deleted inside. -/
theorem mixes_eq {frame frame' : Frame} {lost : Nat} (hsame : frame.sketch 0 = frame'.sketch lost)
    (hspares : (!frame.holdsSlots || decide (lost = 0) || decide (lost + 1 < frame.nestedCount)) =
      true) : frame.mixes = frame'.mixes := by
  have hholds : frame.holdsSlots = frame'.holdsSlots := (congrArg Frame.holdsSlots hsame :)
  have hcount : frame.nestedCount + 0 = frame'.nestedCount + lost :=
    (congrArg Frame.nestedCount hsame :)
  unfold Frame.mixes
  rw [← hholds]
  cases hslots : frame.holdsSlots with
  | false => rfl
  | true =>
    rw [hslots, Bool.not_true, Bool.false_or, Bool.or_eq_true, decide_eq_true_iff,
      decide_eq_true_iff] at hspares
    rw [Bool.true_and, Bool.true_and, decide_eq_decide]
    omega

mutual

theorem events_revise (hedit : Faithful options edit) :
    ∀ (element : Markup) {opened : List Text} {causes : List Cause} {extra : List Nat}
      {w v u : Walk}, Tracks options ⟨opened, false⟩ w → Twin extra causes w v →
      element.spares options edit (extra.headD 0) w = true →
      events options element.events w = .ok () u →
      ∃ t, events options (eventsOf (element.revise options edit w)) v = .ok () t ∧
        Follows extra (element.removed options edit w) (causes ++ element.causes options edit w) u t
  | .tag name received given inner, opened, causes, extra, w, v, u, hw, h, hspares, hrun => by
      have hreceiver := hw.settled rfl
      rw [Markup.spares] at hspares
      rw [Markup.revise, Markup.removed, Markup.causes]
      cases hchoice : edit name received given w with
      | delete cause counted =>
        exact ⟨v, rfl, (extra.headD 0 + counted.toNat) :: extra.tail, rfl, rfl,
          hedit.deletes hw hchoice hrun h⟩
      | keep received' given' new =>
        rw [events_tag] at hrun
        obtain ⟨_, begun, hbegin, hrun⟩ := bind_eq_ok hrun
        obtain ⟨_, walked, hinner, hclose⟩ := bind_eq_ok hrun
        have hbegun := hw.beginTag hbegin
        have hwalked := hbegun.of_ok (Markup.after?_eventsOf inner _) hinner
        obtain ⟨hsuits, hnew⟩ := hedit.keeps hw hchoice hbegin
        rw [hchoice] at hspares
        rw [hbegin, final_ok] at hspares ⊢
        rw [Markup.eventsOf_singleton, events_tag, ← List.append_assoc]
        by_cases hframed : Framed name w
        · rw [if_pos (framesTag_iff.mpr hframed), hinner, final_ok, Bool.and_eq_true,
            Bool.and_eq_true] at hspares
          obtain ⟨⟨hnesting, hsparesInner⟩, hmixes⟩ := hspares
          rw [if_pos (framesTag_iff.mpr hframed)]
          have hframe : w.newFrame name = v.newFrame name := by
            refine newFrame_twin h.sketch fun parent hparent => ?_
            rw [hparent] at hnesting
            exact of_decide_eq_true hnesting
          obtain ⟨t, ht, hstarted⟩ :=
            beginTag_framed_twin h hreceiver hframed hframe hbegin hsuits
          obtain ⟨t', ht', extra', hlost, htail, hdone⟩ :=
            eventsOf_revise hedit inner hbegun hstarted hsparesInner hinner
          have hframed' := (hw.framed_iff hwalked).mp hframed
          obtain ⟨d, frame, hdraft, hcloses⟩ := hwalked.exists_top hframed'
          obtain ⟨s, hs, htwin⟩ := closeTag_twin hdone (hwalked.settled rfl) hframed' hdraft
            hcloses (fun frame' hsame _ _ => by
              rw [hdraft] at hmixes
              rw [hlost, List.headD_cons, Nat.zero_add] at hsame
              exact mixes_eq hsame hmixes) hclose
          rw [htail] at htwin
          exact ⟨s, (bind_ok ht).trans ((bind_ok ht').trans hs), extra, rfl, rfl, htwin⟩
        · have hno := mt framesTag_iff.mp hframed
          rw [if_neg hno] at hspares
          rw [if_neg hno, not_not.mp (mt hnew hframed), List.append_nil]
          obtain ⟨t, ht, hstarted⟩ :=
            @beginTag_unframed_twin _ _ _ _ _ _ _ received' _ given' _ h hreceiver hframed hbegin
          obtain ⟨t', ht', extra', hlost, htail, hdone⟩ :=
            eventsOf_revise hedit inner hbegun hstarted hspares hinner
          obtain ⟨s, hs, htwin⟩ := closeTag_unframed_twin hdone
            (mt (hw.framed_iff hwalked).mpr hframed) hclose
          exact ⟨s, (bind_ok ht).trans ((bind_ok ht').trans hs), extra', hlost, htail, htwin⟩

/-- **The run over what an editor makes of a forest.**  It follows the run over the forest. -/
theorem eventsOf_revise (hedit : Faithful options edit) :
    ∀ (forest : List Markup) {opened : List Text} {causes : List Cause} {extra : List Nat}
      {w v u : Walk}, Tracks options ⟨opened, false⟩ w → Twin extra causes w v →
      sparesAll options edit (extra.headD 0) forest w = true →
      events options (eventsOf forest) w = .ok () u →
      ∃ t, events options (eventsOf (Markup.reviseAll options edit forest w)) v = .ok () t ∧
        Follows extra (Markup.removedAll options edit forest w)
          (causes ++ Markup.causesAll options edit forest w) u t
  | [], _, causes, extra, w, v, u, _, h, _, hrun => by
      cases hrun
      refine ⟨v, rfl, extra, rfl, rfl, ?_⟩
      rw [Markup.causesAll, List.append_nil]
      exact h
  | element :: rest, opened, causes, extra, w, v, u, hw, h, hspares, hrun => by
      rw [eventsOf, events_append] at hrun
      obtain ⟨_, walked, hfirst, hrest⟩ := bind_eq_ok hrun
      have hwalked := hw.of_ok (Markup.after?_events element _) hfirst
      rw [sparesAll, hfirst, final_ok, Bool.and_eq_true] at hspares
      obtain ⟨t, ht, between, hlost, htail, hdone⟩ := events_revise hedit element hw h hspares.1 hfirst
      rw [← hlost] at hspares
      obtain ⟨s, hs, extra', hlost', htail', htwin⟩ :=
        eventsOf_revise hedit rest hwalked hdone hspares.2 hrest
      rw [Markup.reviseAll, Markup.removedAll, Markup.causesAll, hfirst, final_ok,
        Markup.eventsOf_append, events_append, ← List.append_assoc]
      refine ⟨s, (bind_ok ht).trans hs, extra', ?_, htail'.trans htail, htwin⟩
      rw [hlost', hlost, Nat.add_assoc]

end

/-- Where no tag is open, nothing is counted. -/
theorem Twin.of_bare (hw : Tracks options .bare w) (h : Twin extra causes w v) :
    Twin [] causes w v := by
  have hempty : v.draft.frames.isEmpty = true := by
    have hframes : w.draft.frames = [] := List.map_eq_nil_iff.mp hw.mirrors.names
    rw [← v.draft.isEmpty_sketch, ← h.draft, Draft.isEmpty_sketch, hframes]
    rfl
  have hsketch : v.sketch extra = v.sketch [] := by
    obtain ⟨⟨frames, body⟩⟩ := v
    cases List.isEmpty_iff.mp hempty
    cases extra <;> rfl
  exact ⟨h.sketch.trans hsketch, h.lenient, h.reports⟩

/-- **The run over a revised document.** -/
theorem documentEvents_revise (hedit : Faithful options edit) (document : List (Option Markup)) (hw : Tracks options .bare w) (h : Twin [] causes w v)
    (hspares : sparesDocument options edit document w = true)
    (hrun : events options (documentEvents document) w = .ok () u) :
    ∃ t, events options (documentEvents (reviseDocument options edit document w)) v =
        .ok () t ∧ Twin [] (causes ++ documentCauses options edit document w) u t := by
  induction document generalizing causes w v with
  | nil =>
    cases hrun
    refine ⟨v, rfl, ?_⟩
    rw [documentCauses, List.append_nil]
    exact h
  | cons item rest ih =>
    cases item with
    | none =>
      obtain ⟨_, walked, hfinish, hrest⟩ := bind_eq_ok hrun
      have hfinish : finish w = .ok () walked := hfinish
      have hlast : events options [.finish] w = .ok () walked := (bind_ok hfinish).trans rfl
      have hties := finish_tied _ _ _ _ h
      rw [hfinish] at hties
      obtain ⟨t, ht, hdone⟩ := hties.exists_ok
      rw [List.append_nil] at hdone
      rw [sparesDocument, hfinish, final_ok] at hspares
      obtain ⟨s, hs, htwin⟩ := ih (hw.of_ok rfl hlast) hdone hspares hrest
      rw [reviseDocument, documentCauses, hfinish, final_ok]
      exact ⟨s, (bind_ok ht).trans hs, htwin⟩
    | some element =>
      rw [documentEvents, events_append] at hrun
      obtain ⟨_, walked, hfirst, hrest⟩ := bind_eq_ok hrun
      rw [sparesDocument, hfirst, final_ok, Bool.and_eq_true] at hspares
      have hwalked := hw.of_ok (Markup.after?_events element []) hfirst
      obtain ⟨t, ht, _, _, _, hdone⟩ := events_revise hedit element hw h hspares.1 hfirst
      obtain ⟨s, hs, htwin⟩ := ih hwalked (hdone.of_bare hwalked) hspares.2 hrest
      rw [reviseDocument, documentCauses, hfirst, final_ok,
        Markup.documentEvents_append, events_append, ← List.append_assoc]
      exact ⟨s, (bind_ok ht).trans hs, htwin⟩

/-- Two walks have come to the same module. -/
structure SameModule (w v : Walk) : Prop where
  nodes : w.draft.nodes = v.draft.nodes
  callbacks : w.callbacks = v.callbacks
  registrations : w.registrations = v.registrations
  customModules : w.customModules = v.customModules
  usedTags : w.usedTags = v.usedTags
  paths : w.paths = v.paths
  treeIndex : w.treeIndex = v.treeIndex
  initialized : w.initialized = v.initialized

theorem Twin.sameModule (h : Twin extra causes w v) : SameModule w v where
  nodes := by
    rw [← w.draft.nodes_sketch, ← v.draft.nodes_sketch, h.draft]
  callbacks := (congrArg Walk.callbacks h.sketch :)
  registrations := (congrArg Walk.registrations h.sketch :)
  customModules := (congrArg Walk.customModules h.sketch :)
  usedTags := (congrArg Walk.usedTags h.sketch :)
  paths := (congrArg Walk.paths h.sketch :)
  treeIndex := (congrArg Walk.treeIndex h.sketch :)
  initialized := (congrArg Walk.initialized h.sketch :)

/-- What a walk over a revised document comes to, given the walk over the document: the same module,
and the same reports without the errors that are taken out. -/
def Redone (options : Options) (edit : Editor) (channel : Channel) (w : Walk)
    (document : List (Option Markup)) : Prop :=
  ∃ v, events options (documentEvents
      (reviseDocument options edit document (start channel))) (start channel) = .ok () v ∧
    SameModule w v ∧
    Thinned (documentCauses options edit document (start channel)) w.channel.reports
      v.channel.reports

theorem redone_of_spares (hedit : Faithful options edit) {channel : Channel}
    (hchannel : channel.strict = false) {document : List (Option Markup)}
    (hspares : sparesDocument options edit document (start channel) = true)
    (hrun : events options (documentEvents document) (start channel) = .ok () w) :
    Redone options edit channel w document := by
  obtain ⟨v, hv, htwin⟩ := documentEvents_revise hedit document (tracks_start hchannel)
    (.refl hchannel) hspares hrun
  exact ⟨v, hv, htwin.sameModule, htwin.reports⟩

/-! ### Editors that delete nothing that is counted -/

/-- The editor deletes no tag that its parent has counted. -/
def Uncounting (edit : Editor) : Prop :=
  ∀ name received given w cause, edit name received given w ≠ .delete cause true

mutual

theorem removed_eq_zero (hcounted : Uncounting edit) : ∀ (element : Markup) (w : Walk),
    element.removed options edit w = 0
  | .tag name received given inner, w => by
      rw [Markup.removed]
      split
      · next counted hchoice =>
        cases counted with
        | true => exact absurd hchoice (hcounted _ _ _ _ _)
        | false => rfl
      · split
        · rfl
        · exact removedAll_eq_zero hcounted inner _

theorem removedAll_eq_zero (hcounted : Uncounting edit) : ∀ (forest : List Markup) (w : Walk),
    Markup.removedAll options edit forest w = 0
  | [], _ => rfl
  | element :: rest, w => by
      rw [Markup.removedAll, removed_eq_zero hcounted element w, removedAll_eq_zero hcounted rest]

end

mutual

theorem spares_uncounted (hcounted : Uncounting edit) : ∀ (element : Markup) (w : Walk),
    element.spares options edit 0 w = true
  | .tag name received given inner, w => by
      rw [Markup.spares]
      split
      · rfl
      · dsimp only
        split
        · rw [sparesAll_uncounted hcounted inner, removedAll_eq_zero hcounted inner]
          simp [uncounted]
        · exact sparesAll_uncounted hcounted inner _

theorem sparesAll_uncounted (hcounted : Uncounting edit) : ∀ (forest : List Markup) (w : Walk),
    sparesAll options edit 0 forest w = true
  | [], _ => by rw [sparesAll]
  | element :: rest, w => by
      rw [sparesAll, spares_uncounted hcounted element w,
        removed_eq_zero hcounted element w, sparesAll_uncounted hcounted rest]
      rfl

end

/-- Nothing depends on tags that nobody has counted. -/
theorem sparesDocument_uncounted (hcounted : Uncounting edit) (document : List (Option Markup))
    (w : Walk) : sparesDocument options edit document w = true := by
  induction document generalizing w with
  | nil => rfl
  | cons item rest ih =>
    cases item with
    | none => exact ih _
    | some element =>
      rw [sparesDocument, spares_uncounted hcounted element w, ih]
      rfl

end Walk

end ViewMarkup
