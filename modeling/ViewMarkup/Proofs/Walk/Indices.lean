import ViewMarkup.Proofs.Walk.Modules
import ViewMarkup.Proofs.Walk.Numbering

/-!
# The indices of views

A walk numbers views in the order in which they are opened.  This holds in both modes and after every
event, also after one that ends the walk.

* `numbering` is the part of a walk that decides the indices, and `event_renumbers` says what an event
  does to it.
* `viewsAlong` lists the views that are opened along a run.
* `Numbered` says that these have got their indices in order, and `events_indices` that this holds
  along every run.
-/

namespace ViewMarkup

open List

/-- What decides the indices of views about the tag of a frame. -/
def Frame.badge (frame : Frame) : Badge where
  kind := frame.kind
  tagName := frame.tagName
  index := frame.index
  ignored := frame.ignored
  nestedCount := frame.nestedCount

namespace Walk

open OpenTag (after openTags module?)
open Frame (badge isSlot skip)

variable {options : Options} {name : Text} {attributes : AttributeMap} {frame : Frame}
  {tags : List OpenTag} {d : Draft} {w v : Walk} {u : Walk} {r : EStateM.Result Failure Walk Unit}
  {views : List OpenedView} {receives : Bool} {e : Raised} {s : Walk} {below : List Badge}
  {given : Option AttributeMap} {n : Nesting}

/-! ### What decides the indices -/

def numbering (w : Walk) : Numbering where
  treeIndex := w.treeIndex
  initialized := w.initialized
  tags := w.draft.frames.map badge

theorem tags_numbering : (numbering w).tags = w.draft.frames.map badge := rfl

theorem head?_tags : (numbering w).tags.head? = w.draft.frames.head?.map badge :=
  head?_map

theorem tags_push (hw : w.draft = d.push frame) :
    (numbering w).tags = frame.badge :: d.frames.map badge :=
  congrArg (fun d => d.frames.map badge) hw

/-- Whether a tag receives attributes. -/
def waiting (w : Walk) : Bool :=
  !isNobody w.receiver

theorem waiting_of_outline (h : outline u = outline w) : waiting u = waiting w :=
  congrArg (fun o : Bool × Int => !o.1) h

theorem badges_of_sights {e : Draft} (h : d.sights = e.sights) :
    d.frames.map badge = e.frames.map badge := by
  have hpart : ∀ d : Draft, d.frames.map badge =
      d.sights.map fun sight => ⟨sight.2.1, sight.2.2.1, sight.2.2.2.1, sight.2.2.2.2.1,
        sight.2.2.2.2.2⟩ := by
    intro d
    rw [Draft.sights, map_map]
    rfl
  rw [hpart, hpart, h]

theorem numbering_detached : Detached numbering := by
  refine ⟨⟨fun w draft h => ?_, fun _ _ => rfl, fun _ _ => rfl, fun _ _ => rfl⟩, fun _ _ => rfl,
    fun _ _ _ _ => rfl⟩
  exact congrArg (Numbering.mk w.treeIndex w.initialized) (badges_of_sights h)

theorem numbering_deaf : Deaf numbering :=
  fun _ _ => rfl

/-- A change of the frame on top that is not seen. -/
theorem badges_modifyTop {f : Frame → Frame} (hf : ∀ frame, (f frame).badge = frame.badge)
    (d : Draft) : (d.modifyTop f).frames.map badge = d.frames.map badge :=
  Draft.map_modifyTop hf d

/-- A change of the frame on top that is seen. -/
theorem badges_change {f : Frame → Frame} {g : Badge → Badge}
    (hf : ∀ frame, (f frame).badge = g frame.badge) (d : Draft) :
    (d.modifyTop f).frames.map badge = (d.frames.map badge).modifyHead g :=
  Draft.map_modifyTop_eq_modifyHead hf d

/-! ### Views that are opened -/

/-- The view on top, before and after it is completed. -/
def openedView (w v : Walk) : OpenedView where
  index := (v.draft.frames.head?.map Frame.index).getD (-1)
  slot := (w.draft.parent?.filter isSlot).map Frame.index
  isRoot := w.draft.parent?.isNone

/-- The views that are opened by an event, given the open tags after it. -/
def viewsAt (options : Options) (w : Walk) : List OpenTag → TagEvent → List OpenedView
  | tag :: outer, .completeTag given =>
    if opensView options (tag :: outer) w then
      [openedView w (final (completeTag options given w))]
    else []
  | _, _ => []

/-- The views that are opened by events until one of them fails, also by that one. -/
def viewsAlong (options : Options) : List OpenTag → List TagEvent → Walk → List OpenedView
  | _, [], _ => []
  | tags, e :: rest, w =>
    viewsAt options w (after tags e) e ++
      match event options e w with
      | .ok _ v => viewsAlong options (after tags e) rest v
      | .error _ _ => []

/-! ### What events do -/

/-- What an event does to the numbering, however it ends. -/
def Renumbers (w : Walk) (views : List OpenedView) (r : EStateM.Result Failure Walk Unit) : Prop :=
  ∃ after, Numbering.Moves (waiting w) (numbering w) views after (numbering (final r)) ∧
    ∀ v, r = .ok () v → after = waiting v

/-- A step that leaves the numbering alone, and the tag that receives attributes. -/
theorem renumbers_still (hnumbering : numbering (final r) = numbering w)
    (hdone : ∀ v, r = .ok () v → waiting v = false → waiting w = true →
      ∀ p, w.draft.frames.head? = some p → p.kind = .view → p.ignored = false → p.index ≠ -1) :
    Renumbers w [] r := by
  cases r with
  | error failure v =>
    refine ⟨true, ?_, fun v' hv => by cases hv⟩
    rw [hnumbering]
    exact .still fun hafter => by cases hafter
  | ok a v =>
    refine ⟨waiting v, ?_, fun v' hv => by cases hv; rfl⟩
    rw [hnumbering]
    refine .still fun hafter hbefore p hp hkind hignored => ?_
    rw [head?_tags] at hp
    obtain ⟨frame, hframe, rfl⟩ := Option.map_eq_some_iff.mp hp
    exact hdone v rfl hafter hbefore frame hframe hkind hignored

/-- Outside a tag that receives attributes, a step that leaves the numbering alone. -/
theorem renumbers_quiet (hwaiting : waiting w = false)
    (hnumbering : numbering (final r) = numbering w) : Renumbers w [] r := by
  refine renumbers_still hnumbering fun _ _ _ h => ?_
  rw [hwaiting] at h
  cases h

theorem Accepted.index (h : Accepted w name frame) (hkind : frame.kind = .view) :
    frame.index = -1 := by
  by_cases hview : Element.kindOf name = .view
  · rw [h.view hview]
    rfl
  · obtain ⟨parent, _, rfl⟩ := h.other hview
    exact absurd hkind hview

theorem Accepted.admits (h : Accepted w name frame)
    (hignored : w.draft.frames.head?.any (·.ignored) = false) :
    Numbering.Admits (numbering w) frame.badge := by
  apply Numbering.Admits.mk h.initialized
  case parent =>
    intro p hp
    rw [head?_tags] at hp
    obtain ⟨parent, hhead, rfl⟩ := Option.map_eq_some_iff.mp hp
    rw [hhead] at hignored
    exact hignored
  case single =>
    intro p hp hslot
    rw [head?_tags] at hp
    obtain ⟨parent, hhead, rfl⟩ := Option.map_eq_some_iff.mp hp
    refine nesting_single ?_ (h.nesting parent hhead)
    rw [Frame.isSingle, kind_of_isSlot hslot]
    exact hslot
  case ignored => exact h.ignored
  case nestedCount =>
    obtain ⟨_, _, rfl⟩ := h.eq_new
    rfl
  case view => exact h.index
  case part =>
    intro hkind
    by_cases hview : Element.kindOf name = .view
    · rw [h.view hview] at hkind
      exact absurd rfl hkind
    · obtain ⟨parent, hhead, rfl⟩ := h.other hview
      refine ⟨parent.badge, ?_, rfl⟩
      rw [head?_tags, hhead]
      rfl

theorem Renumbers.congr (h : Renumbers u views r) (hnumbering : numbering u = numbering w)
    (hwaiting : waiting u = waiting w) : Renumbers w views r := by
  unfold Renumbers at h ⊢
  rwa [hnumbering, hwaiting] at h

/-- A tag with a frame of its own is left out. -/
theorem pushSkipped_renumbers (hwaiting : waiting w = false) :
    Renumbers w [] (pushSkipped name w) := by
  have htags : (numbering (final (pushSkipped name w))).tags =
      (skip name).badge :: (numbering w).tags :=
    congrArg (cons _) (@badges_modifyTop opening (fun _ => rfl) w.draft)
  have hnumbering : numbering (final (pushSkipped name w)) =
      { numbering w with tags := (skip name).badge :: (numbering w).tags } := by
    rw [← htags]
    rfl
  refine ⟨true, ?_, fun v hv => by cases hv; rfl⟩
  rw [hnumbering, hwaiting]
  exact .skip rfl

/-- What follows a report that does not end the walk. -/
theorem renumbers_report {m : Step Unit}
    (hm : ∀ u, numbering u = numbering w → waiting u = waiting w → u.draft = w.draft →
      Renumbers u [] (m u)) : Renumbers w [] ((do report e; m : Step Unit) w) := by
  have hfinal := final_report e w
  cases hreport : report e w with
  | error failure u =>
    rw [hreport, final_error] at hfinal
    rw [bind_error hreport]
    refine renumbers_still ?_ fun v hv => by cases hv
    rw [final_error, hfinal]
    rfl
  | ok a u =>
    rw [hreport, final_ok] at hfinal
    have hnumbering : numbering u = numbering w := by rw [hfinal]; rfl
    have hwaiting : waiting u = waiting w := by rw [hfinal]; rfl
    rw [bind_ok hreport]
    exact (hm u hnumbering hwaiting (by rw [hfinal])).congr hnumbering hwaiting

/-- A tag is opened. -/
theorem openTag_renumbers (hwaiting : waiting w = false) :
    Renumbers w [] (openTag options name w) := by
  have hnobody : w.receiver = .nobody := by
    apply nobody_of_isNobody
    simpa [waiting] using hwaiting
  cases hname : Name.isPlatform name with
  | true =>
    rw [openTag_platform hname hnobody]
    exact renumbers_quiet hwaiting rfl
  | false =>
    by_cases hsuppressed : w.suppressed = 0
    · rw [openTag_eq ⟨hname, hsuppressed⟩]
      cases hignored : w.draft.frames.head?.any fun parent => parent.ignored with
      | true =>
        exact pushSkipped_renumbers hwaiting
      | false =>
        cases hframe : w.newFrame name with
        | error fault =>
          refine renumbers_report fun u _ hu _ => ?_
          exact pushSkipped_renumbers (hu.trans hwaiting)
        | ok frame =>
          have hadmits := (newFrame_ok hframe).admits hignored
          refine ⟨true, ?_, fun v hv => by cases hv; rfl⟩
          rw [hwaiting]
          refine cast (congrArg (Numbering.Moves false (numbering w) [] true) ?_)
            (Numbering.Moves.enter hadmits)
          rw [tags_numbering, ← @badges_change entered Badge.bump (fun _ => rfl)]
          rfl
    · rw [openTag_hushed hname hnobody hsuppressed]
      exact renumbers_quiet hwaiting rfl

theorem setAttribute_renumbers {value : Text} :
    Renumbers w [] (setAttribute name value w) := by
  unfold setAttribute
  rw [get_bind]
  cases hreceiver : w.receiver with
  | nobody =>
    refine renumbers_still rfl fun v hv hafter hbefore => ?_
    cases hv
    rw [hafter] at hbefore
    cases hbefore
  | top =>
    refine renumbers_still ?_ fun v hv hafter => ?_
    · exact congrArg (Numbering.mk w.treeIndex w.initialized) (@badges_modifyTop (fun frame =>
        { frame with attributes := frame.attributes.insert name value }) (fun _ => rfl) w.draft)
    · cases hv
      have hwaiting : (!isNobody w.receiver) = false := hafter
      rw [hreceiver] at hwaiting
      cases hwaiting
  | closed frame =>
    refine renumbers_still rfl fun v hv hafter => ?_
    cases hv
    have hwaiting : (!isNobody (w.receiver.modifyClosed _)) = false := hafter
    rw [hreceiver] at hwaiting
    cases hwaiting

/-! ### Completing a tag -/

theorem takeIndex_numbering (isFallback : Bool) (w : Walk) :
    numbering (final (takeIndex isFallback w)) = { numbering w with
      treeIndex := if isFallback then w.treeIndex else w.treeIndex + 1
      tags := (numbering w).tags.modifyHead fun tag =>
        { tag with index := if isFallback then w.treeIndex else w.treeIndex + 1 } } :=
  congrArg (Numbering.mk _ w.initialized) (badges_change (fun _ => rfl) w.draft)

/-- However it ends, a view that is built has got its index. -/
theorem buildView_numbering (hw : w.draft = d.push (viewFrame name attributes (-1)))
    (path : Option Text) :
    numbering (final (buildView options (viewFrame name attributes (-1)) d.frames.head? path w)) =
      (numbering w).openView (viewFrame name attributes (-1)).badge (d.frames.map badge) := by
  have haloof := numbering_detached.toAloof
  obtain ⟨declared, hdeclared⟩ := declareModules_ok options
    (declaredModules (viewFrame name attributes (-1)).attributes) w
  obtain ⟨index, indexed, hindexed⟩ :
      ∃ index u, takeIndex (d.frames.head?.any isSlot) declared = .ok index u := ⟨_, _, rfl⟩
  have hkept : numbering declared = numbering w :=
    (declareModules_composed numbering_detached : Composed numbering false _).keeps_ok
      numbering_deaf hdeclared
  have hnumbered := takeIndex_numbering (d.frames.head?.any isSlot) declared
  have hrest (frame : Frame) (parent : Option Frame) (isFallback : Bool) :
      Composed numbering false (do
        attach options frame parent.isSome
        markSplice
        if frame.tagName = Frame.slotTag then openSlot options frame
        else openElement options frame path isFallback) := by
    refine .bind (attach_composed numbering_detached _ _ _) fun _ => ?_
    refine .bind (markSplice_composed haloof.draft) fun _ => ?_
    split
    · exact openSlot_composed haloof
    · exact openElement_composed haloof _ _ _ _
  unfold buildView
  rw [bind_ok hdeclared, bind_ok hindexed, (hrest _ _ _).keeps numbering_deaf]
  rw [hindexed, final_ok] at hnumbered
  have hslot : (d.frames.map badge).head?.any Badge.isSlot = d.frames.head?.any isSlot := by
    rw [head?_map, Option.any_map]
    rfl
  rw [hnumbered, hkept, show declared.treeIndex = (numbering declared).treeIndex from rfl, hkept,
    tags_push hw, Numbering.openView, Numbering.view, hslot]
  rfl

/-- A view whose module is known is not refused. -/
theorem completeTop_final {γ : Type} {view : Walk → γ} {parent : Option Frame} {path : Option Text}
    (hdeaf : Deaf view)
    (hopen : openTop options [] frame false w = buildView options frame parent path w) :
    view (final (completeTop options [] frame false w)) =
      view (final (buildView options frame parent path w)) := by
  have hbuilt := @buildView_composed false _ outline outline_apart options frame parent path
  rw [← hopen]
  cases hrun : openTop options [] frame false w with
  | ok a u => rw [show completeTop options [] frame false w = _ from tryCatch_ok hrun]
  | error failure u =>
    rw [show completeTop options [] frame false w = _ from tryCatch_error hrun]
    cases failure with
    | defect defect => rfl
    | raised e =>
      have hraised := hopen.symm.trans hrun
      have hstrict : u.channel.strict = true := by
        have hmode := hbuilt.keeps_mode w
        rw [hraised, final_error] at hmode
        rw [hmode]
        by_contra hlenient
        exact hbuilt.not_raised (Bool.eq_false_iff.mpr hlenient) hraised
      cases hreport : report e u with
      | ok _ t => exact absurd hreport (report_ne_ok hstrict)
      | error failure t =>
        have hfinal := final_report e u
        rw [hreport, final_error] at hfinal
        rw [show recovering _ (.raised e) u = _ from bind_error hreport, final_error, hfinal]
        exact hdeaf u _

/-- The tag on top is refused once its attributes are known. -/
theorem completeTop_refused (hopen : openTop options [] frame false s = .error (.raised e) u)
    (hnumbering : numbering u = numbering w) (hnobody : waiting u = false)
    (hwaiting : waiting w = true) (htags : (numbering w).tags = frame.badge :: below)
    (hindex : frame.kind = .view → frame.index = -1) :
    Renumbers w [] (completeTop options [] frame false s) := by
  have hfinal := final_report e u
  rw [show completeTop options [] frame false s = _ from tryCatch_error hopen]
  cases hreport : report e u with
  | error failure t =>
    rw [hreport, final_error] at hfinal
    rw [show recovering _ (.raised e) u = _ from bind_error hreport]
    refine renumbers_still ?_ fun v hv => by cases hv
    rw [final_error, hfinal, ← hnumbering]
    rfl
  | ok a t =>
    rw [hreport, final_ok] at hfinal
    rw [show recovering _ (.raised e) u = _ from bind_ok hreport, modifyTop, modifyDraft, run_modify]
    refine ⟨false, ?_, fun v hv => ?_⟩
    · rw [hwaiting]
      refine cast (congrArg (Numbering.Moves true (numbering w) [] false) ?_)
        (Numbering.Moves.refuse htags hindex)
      rw [hfinal]
      have hignored := @badges_change (fun f => { f with ignored := true })
        (fun tag => { tag with ignored := true }) (fun _ => rfl) u.draft
      rw [show u.draft.frames.map badge = (numbering u).tags from rfl, hnumbering, htags]
        at hignored
      rw [← hnumbering]
      exact congrArg (Numbering.mk u.treeIndex u.initialized) hignored.symm
    · cases hv
      rw [hfinal]
      exact hnobody.symm

/-- A tag that is no view is completed. -/
theorem completeTop_inner (hkind : frame.kind ≠ .view)
    (hnumbering : numbering s = numbering w) (hnobody : waiting s = false)
    (hwaiting : waiting w = true) (htags : (numbering w).tags = frame.badge :: below)
    (hhead : w.draft.frames.head?.any (fun top => top.kind = .view) = false) :
    Renumbers w [] (completeTop options [] frame false s) := by
  have hkept : numbering (final (openTop options [] frame false s)) = numbering s :=
    (openInner_composed numbering_detached.draft options [] hkind false).keeps numbering_deaf s
  have hout : outline (final (openTop options [] frame false s)) = outline s :=
    (openInner_composed outline_apart.draft options [] hkind false).keeps outline_deaf s
  cases hrun : openTop options [] frame false s with
  | ok a u =>
    rw [hrun, final_ok] at hkept
    rw [show completeTop options [] frame false s = _ from tryCatch_ok hrun]
    refine renumbers_still (hkept.trans hnumbering) fun _ _ _ _ p hp hview => ?_
    rw [hp] at hhead
    exact absurd hview (of_decide_eq_false hhead)
  | error failure u =>
    rw [hrun, final_error] at hkept hout
    cases failure with
    | defect defect =>
      rw [show completeTop options [] frame false s = _ from tryCatch_error hrun]
      exact renumbers_still (hkept.trans hnumbering) fun v hv => by cases hv
    | raised e =>
      refine completeTop_refused hrun (hkept.trans hnumbering) ?_ hwaiting htags
        fun hview => absurd hview hkind
      rw [waiting_of_outline hout, hnobody]

theorem waiting_completeTag : ∀ v, completeTag options given w = .ok () v → waiting v = false := by
  intro v hv
  have hout := completeTag_outline options given w
  rw [hv, final_ok] at hout
  exact congrArg (fun o => !o.1) hout

/-- The view that is opened has the index that was next. -/
theorem openedView_eq (hw : w.draft = d.push frame)
    (hv : numbering v = (numbering w).openView frame.badge (d.frames.map badge)) :
    openedView w v = Numbering.view w.treeIndex (d.frames.map badge) := by
  have hparent : w.draft.parent? = d.frames.head? := by rw [hw]; rfl
  have hindex : v.draft.frames.head?.map Frame.index =
      some (Numbering.view w.treeIndex (d.frames.map badge)).index := by
    have hhead := congrArg (fun n => n.tags.head?.map Badge.index) hv
    rw [head?_tags, Option.map_map] at hhead
    exact hhead
  unfold openedView
  rw [hindex, hparent, Numbering.view, head?_map]
  cases d.frames.head? with
  | none => rfl
  | some parent =>
    have hslot : parent.badge.isSlot = parent.isSlot := rfl
    rw [Option.map_some, Option.filter_some, Option.filter_some, hslot]
    cases parent.isSlot <;> rfl

section Completing

variable {given : Option AttributeMap} {s : Walk}

theorem Completing.waiting (h : Completing options given d frame w s) :
    waiting w = true ∧ waiting s = false := by
  rw [Walk.waiting, h.receiver, h.start]
  exact ⟨rfl, rfl⟩

theorem Completing.numbering (h : Completing options given d frame w s) :
    numbering s = numbering w := by
  obtain ⟨received, hdraft⟩ := h.draft
  rw [h.start, Walk.numbering, Walk.numbering, hdraft]
  rfl

theorem Completing.badges (h : Completing options given d frame w s) :
    (Walk.numbering w).tags = frame.badge :: d.frames.map badge := by
  rw [← h.numbering, h.start]
  rfl

end Completing

/-- **A tag is completed.**  A view that is opened gets its index, and nothing else does. -/
theorem completeTag_renumbers (hposition : Position options tags true (soften w))
    (given : Option AttributeMap) :
    Renumbers w (viewsAt options w (after tags (.completeTag given)) (.completeTag given))
      (completeTag options given w) := by
  obtain ⟨tag, outer, htags, hcompletes⟩ := completeTag_completes hposition given
  rw [htags, viewsAt]
  generalize opensView options (tag :: outer) w = opens at hcompletes ⊢
  cases hcompletes with
  | idle hrun hidle =>
    rw [if_neg Bool.false_ne_true, hrun]
    refine renumbers_still rfl fun _ _ _ hwaiting p hp _ hignored => ?_
    rcases hidle with hnobody | ⟨top, htop, hleft⟩
    · rw [waiting, hnobody] at hwaiting
      cases hwaiting
    · cases htop.symm.trans hp
      cases hignored.symm.trans hleft
  | inner h hkind =>
    obtain ⟨received, hdraft⟩ := h.draft
    rw [if_neg Bool.false_ne_true, h.run]
    refine completeTop_inner hkind h.numbering h.waiting.2 h.waiting.1 h.badges ?_
    rw [hdraft]
    exact decide_eq_false hkind
  | refused h hopen =>
    rw [if_neg Bool.false_ne_true, h.run]
    exact completeTop_refused hopen h.numbering h.waiting.2 h.waiting.1 h.badges fun _ => rfl
  | @built name attributes d path s h hopen =>
    obtain ⟨received, hdraft⟩ := h.draft
    have hfinal : numbering (final (completeTag options given w)) =
        (numbering w).openView (viewFrame name attributes (-1)).badge
          (d.frames.map badge) := by
      rw [h.run, completeTop_final numbering_deaf hopen,
        buildView_numbering (congrArg draft h.start), h.numbering]
    refine ⟨false, ?_, fun v hv => (waiting_completeTag v hv).symm⟩
    rw [h.waiting.1, openedView_eq hdraft hfinal, hfinal]
    exact .view h.badges rfl rfl rfl

/-! ### Closing a tag -/

/-- The tag on top goes.  If it is the root, the component is complete. -/
theorem pop_numbering (hdraft : w.draft = d.push frame) :
    numbering (final (pop w)) = { numbering w with
      initialized := w.initialized || (d.frames.isEmpty && !frame.ignored)
      tags := d.frames.map badge } := by
  obtain ⟨trace, hpop⟩ := exists_pop_eq hdraft
  rw [hpop]
  exact congrArg (Numbering.mk w.treeIndex _)
    ((Draft.map_setBuffer (fun _ _ => rfl) _ _).trans (@badges_modifyTop shut (fun _ => rfl) d))

theorem pop_renumbers (hwaiting : waiting w = false) : Renumbers w [] (pop w) := by
  have hout := (pop_composed outline_remote).keeps outline_deaf w
  rcases w.draft.eq_push_or_frames_nil with hnil | ⟨frame, d, hdraft⟩
  · refine renumbers_quiet hwaiting ?_
    unfold pop
    rw [get_bind, Draft.pop?, hnil]
    rfl
  · refine ⟨false, ?_, fun v hv => ?_⟩
    · have hpop := Numbering.Moves.pop (tags_push hdraft)
      rw [isEmpty_map] at hpop
      rw [pop_numbering hdraft, hwaiting]
      exact hpop
    · rw [hv, final_ok] at hout
      rw [← hwaiting, waiting_of_outline hout]

/-- **A tag is closed.** -/
theorem closeTag_renumbers (hwaiting : waiting w = false) :
    Renumbers w [] (closeTag options name w) := by
  unfold closeTag
  rw [get_bind]
  split
  · split <;> exact renumbers_quiet hwaiting rfl
  · split
    · exact renumbers_quiet hwaiting rfl
    · cases w.draft.frames.head? with
      | none => exact renumbers_quiet hwaiting rfl
      | some frame =>
        dsimp only
        split
        · split
          · exact pop_renumbers hwaiting
          · have hkept := (endTop_composed numbering_detached.toAloof options frame).keeps
              numbering_deaf w
            have hout := (endTop_composed outline_apart.toAloof options frame).keeps outline_deaf w
            cases hend : endTop options frame w with
            | error failure u =>
              rw [hend] at hkept
              rw [bind_error hend]
              exact renumbers_quiet hwaiting hkept
            | ok _ u =>
              rw [hend, final_ok] at hkept hout
              have hsame := waiting_of_outline hout
              rw [bind_ok hend]
              exact (pop_renumbers (hsame.trans hwaiting)).congr hkept hsame
        · refine renumbers_quiet hwaiting (congrArg (Numbering.mk w.treeIndex w.initialized) ?_)
          exact @badges_modifyTop shut (fun _ => rfl) w.draft

theorem finish_renumbers (hwaiting : waiting w = false) : Renumbers w [] (finish w) :=
  renumbers_quiet hwaiting (finish_composed.keeps numbering_deaf w)

/-! ### Runs -/

theorem waiting_of_position (h : Position options tags receives (soften w))
    (hreceives : receives = false) : waiting w = false := by
  have hnobody : w.receiver = .nobody := h.tracks.settled hreceives
  rw [waiting, hnobody]
  rfl

/-- **The step.**  However an event ends, it moves the numbering on. -/
theorem event_renumbers {e : TagEvent} (hposition : Position options tags receives (soften w))
    (hn : Nesting.next? ⟨tags.map OpenTag.name, receives⟩ e = some n) :
    Renumbers w (viewsAt options w (after tags e) e) (event options e w) := by
  cases e with
  | openTag name =>
    cases receives with
    | true => cases hn
    | false => exact openTag_renumbers (waiting_of_position hposition rfl)
  | setAttribute name value =>
    have hnone : viewsAt options w (after tags (.setAttribute name value))
        (.setAttribute name value) = [] := by
      cases tags <;> rfl
    rw [hnone]
    exact setAttribute_renumbers
  | completeTag given =>
    cases receives with
    | false => cases hn
    | true => exact completeTag_renumbers hposition given
  | closeTag name =>
    have hnone : viewsAt options w (after tags (.closeTag name)) (.closeTag name) = [] := by
      rcases tags with _ | ⟨_, _ | _⟩ <;> rfl
    rw [hnone]
    cases receives with
    | true => cases tags <;> cases hn
    | false => exact closeTag_renumbers (waiting_of_position hposition rfl)
  | finish =>
    have hnone : viewsAt options w (after tags .finish) .finish = [] := by
      cases tags <;> rfl
    rw [hnone]
    cases receives with
    | true => cases tags <;> cases hn
    | false => exact finish_renumbers (waiting_of_position hposition rfl)

/-- **The run.** -/
theorem events_sound {es : List TagEvent} (h : Numbering.Sound views (numbering w))
    (hsettled : waiting w = false → Numbering.Settled (numbering w))
    (hposition : Position options tags receives (soften w))
    (hn : Nesting.after? ⟨tags.map OpenTag.name, receives⟩ es = some n) :
    Numbering.Sound (views ++ viewsAlong options tags es w)
      (numbering (final (events options es w))) := by
  induction es generalizing tags receives w views with
  | nil =>
    rw [viewsAlong, append_nil]
    exact h
  | cons e rest ih =>
    obtain ⟨m, hm, hrest⟩ := Option.bind_eq_some_iff.mp hn
    obtain ⟨after, hmoves, hafter⟩ := event_renumbers hposition hm
    obtain ⟨hsound, hsettled'⟩ := h.moves hsettled hmoves
    rw [viewsAlong, ← append_assoc, events_cons]
    cases hrun : event options e w with
    | error failure v =>
      rw [hrun] at hsound
      rw [bind_error hrun, append_nil]
      exact hsound
    | ok _ v =>
      rw [hrun] at hsound hsettled'
      rw [bind_ok hrun]
      have hv := hposition.event hm ((event_composed options e).soften_ok hrun)
      obtain ⟨opened, receives⟩ := m
      cases OpenTag.opened_after hm
      exact ih hsound (fun hwaiting => hsettled' ((hafter v hrun).trans hwaiting)) hv hrest

/-! ### Well-nested streams -/

/-- The frame of a view that has been opened. -/
def isOpenedView (frame : Frame) : Bool :=
  frame.kind = .view && !frame.ignored && frame.index != -1

/-- **Views are numbered in the order in which they are opened.**  Given are the views that have been
opened along a run. -/
structure Numbered (views : List OpenedView) (w : Walk) : Prop where
  /-- Those that stand in no slot directly have got the indices from zero on. -/
  indices : (views.filter (·.slot.isNone)).map OpenedView.index =
    (range (views.filter (·.slot.isNone)).length).map Int.ofNat
  /-- No other tag has got an index. -/
  treeIndex : w.treeIndex = (views.filter (·.slot.isNone)).length - 1
  /-- A view in a slot has the index of the slot. -/
  fallback : ∀ view ∈ views, ∀ k, view.slot = some k → view.index = k
  /-- The open views have kept their indices. -/
  opened : ((w.draft.frames.filter isOpenedView).map Frame.index).reverse.Sublist
    (views.map OpenedView.index)
  /-- An accepted tag that is no view carries the index of the view that it belongs to. -/
  parts : ∀ above frame below, w.draft.frames = above ++ frame :: below → frame.ignored = false →
    frame.kind ≠ .view → (below.find? fun p => p.kind = .view).map Frame.index = some frame.index
  /-- The view that has been opened first, and no other, stands in no tag. -/
  root : ∀ first rest, views = first :: rest → first = ⟨0, none, true⟩ ∧
    ∀ view ∈ rest, view.isRoot = false
  /-- Until it closes, it lies below all open tags. -/
  unclosed : w.initialized = false → views ≠ [] → ∃ root, w.draft.frames.getLast? = some root ∧
    isOpenedView root = true ∧ root.index = 0
  /-- After it has closed, tags are left out. -/
  closed : w.initialized = true → views ≠ [] ∧ ∀ frame ∈ w.draft.frames, frame.ignored = true

theorem numbered_of_sound (h : Numbering.Sound views (numbering w)) : Numbered views w := by
  have hlength := congrArg length h.indices
  have hlast := h.last
  rw [length_map, length_map, length_range] at hlength
  apply Numbered.mk
  case indices =>
    rw [hlength]
    exact h.indices
  case treeIndex =>
    show (numbering w).treeIndex = _
    omega
  case fallback => exact h.fallback
  case opened =>
    have hopened := h.opened
    rw [tags_numbering, filter_map, map_map] at hopened
    exact hopened
  case parts =>
    intro above frame below hframes hignored hkind
    have hranked := h.ranked
    rw [tags_numbering, hframes, map_append, map_cons] at hranked
    have hpart := hranked.part hignored hkind
    rw [find?_map, Option.map_map] at hpart
    exact hpart
  case root => exact h.root
  case unclosed =>
    intro hinitialized hviews
    obtain ⟨root, hroot, hopened, hindex⟩ := h.unclosed hinitialized hviews
    rw [tags_numbering, getLast?_map] at hroot
    obtain ⟨frame, hframe, rfl⟩ := Option.map_eq_some_iff.mp hroot
    exact ⟨frame, hframe, hopened, hindex⟩
  case closed =>
    intro hinitialized
    obtain ⟨hviews, hignored⟩ := h.closed hinitialized
    exact ⟨hviews, fun frame hframe => hignored frame.badge (mem_map_of_mem hframe)⟩

/-- What becomes of a tag that may not be opened: it is left out, or the walk ends. -/
def Rejected (fault : TagFault) (w : Walk) (r : EStateM.Result Failure Walk Unit) : Prop :=
  (∃ v, r = .ok () v ∧ v.treeIndex = w.treeIndex ∧
    v.draft.frames.head?.any (·.ignored) = true) ∨
  w.channel.strict = true ∧ ∃ range v, r = .error (.raised ⟨.tag fault, range, true⟩) v

theorem openTag_secondRoot (hframed : Framed name w) (hinitialized : w.initialized = true) :
    Rejected (.secondRoot name) w (openTag options name w) := by
  rw [openTag_eq hframed]
  have hframe : w.newFrame name = .error (.secondRoot name) := by
    rw [newFrame, hinitialized]
    rfl
  cases w.draft.frames.head?.any fun parent => parent.ignored with
  | true => exact .inl ⟨_, rfl, rfl, rfl⟩
  | false =>
    rw [if_neg Bool.false_ne_true, hframe]
    dsimp only
    cases hmode : w.channel.strict with
    | false =>
      rw [bind_ok (report_lenient rfl hmode)]
      exact .inl ⟨_, rfl, rfl, rfl⟩
    | true =>
      rw [bind_error (report_strict rfl hmode)]
      exact .inr ⟨hmode, _, _, rfl⟩

/-- The views that an event has opened are those that are accepted. -/
theorem viewsAt_eq_nil_iff (hposition : Position options tags true (soften w))
    (hreceiver : w.receiver = .top) (hhead : w.draft.frames.head? = some frame)
    (hkind : frame.kind = .view) (hignored : frame.ignored = false)
    (hv : completeTag options given w = .ok () v) :
    viewsAt options w (after tags (.completeTag given)) (.completeTag given) = [] ↔
      v.draft.frames.head?.any (·.ignored) = true := by
  have hwaiting : waiting w = true := by rw [waiting, hreceiver]; rfl
  have hindex : frame.index = -1 := by
    obtain ⟨outer, name, received, u, rfl, hu, hreceives⟩ := hposition.receives
    cases hreceives with
    | outside hcore =>
      have hnobody : w.receiver = .nobody :=
        ((congrArg receiver hcore :) : w.receiver = _).trans (hu.tracks.settled rfl)
      cases hreceiver.symm.trans hnobody
    | skipped hcore =>
      have htop : w.draft.frames.head? = some _ :=
        (congrArg (·.draft.frames.head?) hcore :)
      cases hhead.symm.trans htop
      rfl
    | accepted _ haccepted hcore =>
      have htop : w.draft.frames.head? = some _ :=
        (congrArg (·.draft.frames.head?) hcore :)
      cases hhead.symm.trans htop
      exact haccepted.index hkind
  have hbadge : (numbering w).tags.head? = some frame.badge := by
    rw [head?_tags, hhead]
    rfl
  have htop : (numbering v).tags.head?.any (·.ignored) =
      v.draft.frames.head?.any fun top => top.ignored := by
    rw [head?_tags, Option.any_map]
    rfl
  obtain ⟨after, hmoves, hafter⟩ := completeTag_renumbers hposition given
  rw [hafter v hv, waiting_completeTag v hv, hwaiting, hv] at hmoves
  rw [← htop]
  exact hmoves.opens hbadge hkind hignored hindex

/-- **Indices are handed out in document order.**  A walk in any mode takes the events of a
well-nested stream.

* After every prefix, also if an event of it has ended the walk, the views opened so far are numbered
  in order.
* They are the views that are accepted.
* After the root has closed, every tag that has a frame is rejected. -/
theorem events_indices (options : Options) (channel : Channel) {stream : List TagEvent}
    (hstream : WellNested stream) :
    (∀ taken, taken <+: stream →
      Numbered (viewsAlong options [] taken (start channel))
        (final (events options taken (start channel)))) ∧
    (∀ taken given w v frame, taken ++ [.completeTag given] <+: stream →
      events options taken (start channel) = .ok () w → w.receiver = .top →
      w.draft.frames.head? = some frame → frame.kind = .view → frame.ignored = false →
      completeTag options given w = .ok () v →
      (viewsAt options w (openTags (taken ++ [.completeTag given])) (.completeTag given) = [] ↔
        v.draft.frames.head?.any (fun top => top.ignored) = true)) ∧
    ∀ taken name w, taken ++ [.openTag name] <+: stream →
      events options taken (start channel) = .ok () w → w.initialized = true → Framed name w →
      Rejected (.secondRoot name) w (openTag options name w) := by
  have hstart : Position options [] false (soften (start channel)) := position_start rfl
  refine ⟨?_, ?_, ?_⟩
  · rintro taken ⟨rest, rfl⟩
    obtain ⟨n, hn, _⟩ := Nesting.after?_of_append hstream
    have hnone : Numbering.Sound [] (numbering (start channel)) := Numbering.sound_start
    exact numbered_of_sound (events_sound hnone (fun _ _ h => nomatch h) hstart hn)
  · rintro taken given w v frame ⟨rest, rfl⟩ hw hreceiver hhead hkind hignored hv
    obtain ⟨hposition, htags⟩ := position_completing hstream hw
    rw [htags]
    exact viewsAt_eq_nil_iff hposition hreceiver hhead hkind hignored hv
  · intro taken name w _ _ hinitialized hframed
    exact openTag_secondRoot hframed hinitialized

/-- A page with a slot that has a label to fall back on, where a second one is left out, and with a
property that holds a label; after it comes another page. -/
def numberedPage : List Element :=
  [.mk "Page" []
    [.mk "slot" [] [.mk "Label" [] [], .mk "Label" [] []],
      .mk "Page.actionBar" [] [.mk "x:Label" [] [], .mk "Label" [] []]],
   .mk "Page" [] []]

theorem events_indices_numberedPage :
    Numbered [⟨0, none, true⟩, ⟨1, none, false⟩, ⟨1, some 1, false⟩, ⟨2, none, false⟩]
        (final (events (.standard .standard) (Element.eventsOf numberedPage)
          (start (.empty false .unknown)))) ∧
      ∃ w, events (.standard .standard) ((Element.eventsOf numberedPage).take 21)
          (start (.empty false .unknown)) = .ok () w ∧
        Rejected (.secondRoot "Page") w (openTag (.standard .standard) "Page" w) := by
  have hindices := events_indices (.standard .standard) (.empty false .unknown)
    (by decide : WellNested (Element.eventsOf numberedPage))
  have hviews : viewsAlong (.standard .standard) [] (Element.eventsOf numberedPage)
      (start (.empty false .unknown)) =
        [⟨0, none, true⟩, ⟨1, none, false⟩, ⟨1, some 1, false⟩, ⟨2, none, false⟩] := by
    decide +kernel
  have hok : succeeds (events (.standard .standard) ((Element.eventsOf numberedPage).take 21)
      (start (.empty false .unknown))) = true := by
    decide +kernel
  have hclosed : (final (events (.standard .standard) ((Element.eventsOf numberedPage).take 21)
      (start (.empty false .unknown)))).initialized = true := by
    decide +kernel
  have hsuppressed : (final (events (.standard .standard) ((Element.eventsOf numberedPage).take 21)
      (start (.empty false .unknown)))).suppressed = 0 := by
    decide +kernel
  refine ⟨hviews ▸ hindices.1 _ (prefix_refl _), _, eq_ok_of_succeeds hok, ?_⟩
  exact hindices.2.2 _ "Page" _ ⟨(Element.eventsOf numberedPage).drop 22, rfl⟩
    (eq_ok_of_succeeds hok) hclosed ⟨by decide +kernel, hsuppressed⟩

end Walk

end ViewMarkup
