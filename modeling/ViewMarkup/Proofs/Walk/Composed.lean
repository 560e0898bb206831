import ViewMarkup.Tag.Walk
import ViewMarkup.Proofs.Walk.Draft

/-!
# What the steps of a walk are composed of

Every step of a walk is put together from a few basic ones: it reads the walk, changes it without
regard to the channel, adds a line to the trace, warns, reports an error or fails.  A failure is
caught in one way only, by reporting it and going on.

* `Composed` says of a step that it is put together so, and that none of its changes touches what a
  view shows of the walk.  Facts about all steps are shown by induction on it.
* `Composed.keeps` is the first such fact: the step as a whole keeps what the view shows.
* `completeTop_composed`, `endTop_composed` and the lemmas on the events say of the steps of a walk
  what they are composed of, and which part of the walk they leave alone.  `Aloof` and `Apart` are
  the views for which they do.
-/

namespace ViewMarkup.Walk

open Script (Node)

variable {w : Walk} {e : Raised} {name value : Text} {options : Options} {attributes : AttributeMap}
  {frame : Frame} {beside : List Frame} {parent : Option Frame} {receiver : Receiver} {α : Type}
  {channel : Channel} {f : Frame → Frame}

section Run

variable {α β : Type} {m : Step α} {f : α → Step β} {handle : Failure → Step α} {w v : Walk}

/-! ### Running a step -/

theorem get_bind {f : Walk → Step β} : (get >>= f) w = f w w := rfl

theorem run_pure {a : α} : (pure a : Step α) w = .ok a w := rfl

theorem run_modify {f : Walk → Walk} : (modify f : Step Unit) w = .ok () (f w) := rfl

theorem bind_ok {a : α} (h : m w = .ok a v) : (m >>= f) w = f a v := by
  simp only [bind, EStateM.bind, h]

theorem bind_error {e : Failure} (h : m w = .error e v) : (m >>= f) w = .error e v := by
  simp only [bind, EStateM.bind, h]

/-- A sequence of two steps that succeeds has a walk between them. -/
theorem bind_eq_ok {b : β} (h : (m >>= f) w = .ok b v) : ∃ a u, m w = .ok a u ∧ f a u = .ok b v := by
  cases hm : m w with
  | ok a u => exact ⟨a, u, rfl, (bind_ok hm).symm.trans h⟩
  | error e u => cases (bind_error hm).symm.trans h

/-- The rest of a sequence matters only where the first step succeeds. -/
theorem bind_congr_ok {g : α → Step β} (h : ∀ a u, m w = .ok a u → f a u = g a u) :
    (m >>= f) w = (m >>= g) w := by
  cases hm : m w with
  | ok a u => rw [bind_ok hm, bind_ok hm, h a u hm]
  | error e u => rw [bind_error hm, bind_error hm]

theorem tryCatch_ok {a : α} (h : m w = .ok a v) : (tryCatch m handle) w = .ok a v := by
  show EStateM.tryCatch m handle w = _
  delta EStateM.tryCatch
  rw [h]

theorem tryCatch_error {e : Failure} (h : m w = .error e v) :
    (tryCatch m handle) w = handle e v := by
  show EStateM.tryCatch m handle w = _
  delta EStateM.tryCatch
  rw [h]
  rfl

end Run

/-- The walk that a step ends with, whether it fails or not. -/
def final {α : Type} : EStateM.Result Failure Walk α → Walk
  | .ok _ w => w
  | .error _ w => w

@[simp] theorem final_ok (a : α) : final (.ok a w) = w := rfl

@[simp] theorem final_error (e : Failure) :
    final (.error e w : EStateM.Result Failure Walk α) = w := rfl

@[simp] theorem final_afterwards (f : Walk → Walk)
    (r : EStateM.Result Failure Walk α) : final (afterwards f r) = f (final r) := by
  cases r <;> rfl

/-- Whether a step has succeeded. -/
def succeeds {α : Type} : EStateM.Result Failure Walk α → Bool
  | .ok _ _ => true
  | .error _ _ => false

theorem eq_ok_of_succeeds {r : EStateM.Result Failure Walk Unit} (h : succeeds r = true) :
    r = .ok () (final r) := by
  cases r with
  | ok a w => rfl
  | error e w => cases h

/-! ### Basic steps and their composition -/

/-- The change neither looks at the channel nor touches it. -/
def Silent (f : Walk → Walk) : Prop :=
  ∀ w channel, f { w with channel } = { f w with channel }

/-- The step is composed of basic steps that leave alone what a view shows of a walk.  Unless it
`raises`, every error that it finds is reported. -/
inductive Composed {γ : Type} (view : Walk → γ) : (raises : Bool) → {α : Type} → Step α → Prop
  | pure {raises : Bool} {α : Type} (a : α) : Composed view raises (pure a : Step α)
  | bind {raises : Bool} {α β : Type} {m : Step α} {f : α → Step β}
      (hm : Composed view raises m) (hf : ∀ a, Composed view raises (f a)) :
      Composed view raises (m >>= f)
  /-- What is read of the walk does not depend on the channel. -/
  | read {raises : Bool} {α : Type} {f : Walk → Step α}
      (hblind : ∀ w channel, f { w with channel } = f w)
      (hf : ∀ w, Composed view raises (f w)) : Composed view raises (get >>= f)
  | modify {raises : Bool} {f : Walk → Walk} (hsilent : Silent f)
      (hview : ∀ w, view (f w) = view w) : Composed view raises (modify f : Step Unit)
  | log {raises : Bool} (level : Nat) (text : Text) : Composed view raises (log level text)
  | warn {raises : Bool} (message : Text) : Composed view raises (warn message)
  | report {raises : Bool} (cause : Cause) : Composed view raises (report (.ofCause cause))
  | defect {raises : Bool} {α : Type} (d : Defect) :
      Composed view raises (throw (.defect d) : Step α)
  | raise {α : Type} (cause : Cause) :
      Composed view true (throw (.raised (.ofCause cause)) : Step α)
  | recovering {raises : Bool} {m recover : Step Unit} (hm : Composed view true m)
      (hrecover : Composed view raises recover) :
      Composed view raises (tryCatch m (recovering recover))
  | inPlaceOfTop {raises : Bool} {frame : Frame} {step : List Frame → Step Unit}
      (hview : ∀ w draft, view { w with draft } = view w)
      (hstep : ∀ beside, Composed view raises (step beside)) :
      Composed view raises (inPlaceOfTop frame step)

/-- A step that leaves a view alone leaves every part of it alone. -/
theorem Composed.part {raises : Bool} {γ δ : Type} {view : Walk → γ} {m : Step α}
    (hm : Composed view raises m) (part : γ → δ) : Composed (fun w => part (view w)) raises m := by
  induction hm with
  | pure a => exact .pure a
  | bind _ _ ihm ihf => exact .bind ihm ihf
  | read hblind _ ih => exact .read hblind ih
  | modify hsilent hview => exact .modify hsilent fun w => congrArg part (hview w)
  | log level text => exact .log level text
  | warn message => exact .warn message
  | report cause => exact .report cause
  | defect d => exact .defect d
  | raise cause => exact .raise cause
  | recovering _ _ ihm ihr => exact .recovering ihm ihr
  | inPlaceOfTop hview _ ih => exact .inPlaceOfTop (fun w draft => congrArg part (hview w draft)) ih

/-! ### What a composed step keeps -/

/-- A report changes nothing but the channel. -/
theorem final_report (e : Raised) (w : Walk) :
    final (report e w) = { w with channel := (w.channel.notify e false).2 } := by
  unfold report
  rw [get_bind]
  rcases w.channel.notify e false with ⟨reply, channel⟩
  cases reply <;> rfl

/-- Whatever becomes of an error, the channel stays as strict as it was. -/
theorem notify_strict {fatal : Bool} : (channel.notify e fatal).2.strict = channel.strict := by
  unfold Channel.notify
  split
  · rfl
  · cases e.range <;> dsimp only <;> split <;> rfl

section Keeps

variable {raises : Bool} {α β γ : Type} {view : Walk → γ} {w : Walk}

/-- The view shows nothing of the channel. -/
def Deaf (view : Walk → γ) : Prop :=
  ∀ w channel, view { w with channel } = view w

/-- What a view shows of a walk, and its mode. -/
def withMode (view : Walk → γ) (w : Walk) : γ × Bool :=
  (view w, w.channel.strict)

theorem withMode_channel (hdeaf : Deaf view) (h : channel.strict = w.channel.strict) :
    withMode view { w with channel } = withMode view w := by
  rw [withMode, withMode, hdeaf w, h]

theorem final_bind {m : Step α} {f : α → Step β} (hm : view (final (m w)) = view w)
    (hf : ∀ a v, view (final (f a v)) = view v) : view (final ((m >>= f) w)) = view w := by
  cases hw : m w with
  | ok a v =>
    rw [hw] at hm
    rw [bind_ok hw]
    exact (hf a v).trans hm
  | error e v =>
    rw [hw] at hm
    rw [bind_error hw]
    exact hm

theorem report_keeps (hdeaf : Deaf view) :
    withMode view (final (report e w)) = withMode view w := by
  rw [final_report]
  exact withMode_channel hdeaf notify_strict

section

variable {m : Step α} (hm : Composed view raises m)
include hm

/-- **A composed step keeps its view and the mode.**  However it ends, the view shows what it showed
before. -/
theorem Composed.keeps_withMode (hdeaf : Deaf view) :
    ∀ w, withMode view (final (m w)) = withMode view w := by
  induction hm with
  | pure a => intro w; rfl
  | bind _ _ ihm ihf => exact fun w => final_bind (ihm w) ihf
  | read _ _ ih => exact fun w => ih w w
  | @modify _ f hsilent hview =>
    intro w
    have hself : f w = { f w with channel := w.channel } := hsilent w w.channel
    have hmode : (f w).channel.strict = w.channel.strict :=
      (congrArg (·.channel.strict) hself :)
    show (view (f w), (f w).channel.strict) = _
    rw [hview, hmode]
    rfl
  | log level text | warn message => exact fun w => withMode_channel hdeaf rfl
  | report cause => exact fun w => report_keeps hdeaf
  | defect d => intro w; rfl
  | raise cause => intro w; rfl
  | @recovering _ m recover _ _ ihm ihr =>
    intro w
    have hw := ihm w
    cases hres : m w with
    | ok a v =>
      rw [tryCatch_ok hres]
      rwa [hres] at hw
    | error failure v =>
      rw [hres] at hw
      rw [tryCatch_error hres]
      cases failure with
      | raised e => exact (final_bind (report_keeps hdeaf) fun _ => ihr).trans hw
      | defect d => exact hw
  | @inPlaceOfTop _ frame step hview _ ih =>
    intro w
    have hw := ih (w.draft.frames.take 1)
      { w with draft := { w.draft with frames := frame :: w.draft.frames.tail } }
    unfold withMode at hw ⊢
    rw [hview w] at hw
    rw [Walk.inPlaceOfTop, final_afterwards, hview]
    exact hw

theorem Composed.keeps (hdeaf : Deaf view) (w : Walk) : view (final (m w)) = view w :=
  congrArg Prod.fst (hm.keeps_withMode hdeaf w)

theorem Composed.keeps_mode (w : Walk) : (final (m w)).channel.strict = w.channel.strict :=
  congrArg Prod.snd ((hm.part fun _ => ()).keeps_withMode (fun _ _ => rfl) w)

theorem Composed.keeps_ok {a : α} {v : Walk}
    (hdeaf : Deaf view) (h : m w = .ok a v) : view v = view w := by
  have hw := hm.keeps hdeaf w
  rwa [h] at hw

end

end Keeps

/-! ### The outline of a walk -/

/-- Whether there is no tag that receives attributes. -/
def isNobody : Receiver → Bool
  | .nobody => true
  | .top | .closed _ => false

/-- What decides which events reach the open tags, the mode apart: whether a tag receives
attributes, and how many tags of other platforms are open. -/
def outline (w : Walk) : Bool × Int :=
  (isNobody w.receiver, w.suppressed)

theorem outline_deaf : Deaf outline :=
  fun _ _ => rfl

/-- What closing tags look at in a walk. -/
def stances (w : Walk) : List (Text × Bool) :=
  w.draft.stances

/-- Of the draft, the view shows no more than the sights of the frames. -/
def Sighting {γ : Type} (view : Walk → γ) : Prop :=
  ∀ w draft, draft.sights = w.draft.sights → view { w with draft } = view w

/-- The view shows nothing of what is done to build a view, but for its index. -/
structure Aloof {γ : Type} (view : Walk → γ) : Prop where
  draft : Sighting view
  inSlotFallback : ∀ w inSlotFallback, view { w with inSlotFallback } = view w
  callbacks : ∀ w callbacks, view { w with callbacks } = view w
  usedTags : ∀ w usedTags, view { w with usedTags } = view w

/-- The view shows nothing of declared modules either. -/
structure Detached {γ : Type} (view : Walk → γ) : Prop extends Aloof view where
  paths : ∀ w paths, view { w with paths } = view w
  modules : ∀ w registeredPaths registrations customModules,
    view { w with registeredPaths, registrations, customModules } = view w

/-- The view shows neither indices nor which tags are left out: of the draft it shows no more than
the stances of the frames. -/
structure Apart {γ : Type} (view : Walk → γ) : Prop extends Detached view where
  stances : ∀ w draft, draft.stances = w.draft.stances → view { w with draft } = view w
  treeIndex : ∀ w treeIndex, view { w with treeIndex } = view w

theorem outline_apart : Apart outline :=
  ⟨⟨⟨fun _ _ _ => rfl, fun _ _ => rfl, fun _ _ => rfl, fun _ _ => rfl⟩,
    fun _ _ => rfl, fun _ _ _ _ => rfl⟩, fun _ _ _ => rfl, fun _ _ => rfl⟩

theorem stances_apart : Apart stances :=
  ⟨⟨⟨fun _ _ h => Draft.stances_of_sights h, fun _ _ => rfl, fun _ _ => rfl, fun _ _ => rfl⟩,
    fun _ _ => rfl, fun _ _ _ _ => rfl⟩, fun _ _ h => h, fun _ _ => rfl⟩

variable {raises : Bool} {α γ : Type} {view : Walk → γ}

theorem modifyDraft_composed {f : Draft → Draft} (h : Sighting view)
    (hf : ∀ d, (f d).sights = d.sights) : Composed view raises (modifyDraft f) :=
  .modify (fun _ _ => rfl) fun w => h w _ (hf w.draft)

theorem modifyTop_composed (h : Sighting view)
    (hf : ∀ frame, (f frame).sight = frame.sight) : Composed view raises (modifyTop f) :=
  modifyDraft_composed h (Draft.sights_modifyTop hf)

/-- The frame on top gets another index, or is left out. -/
theorem modifyTop_apart (h : Apart view)
    (hf : ∀ frame, (f frame).stance = frame.stance) : Composed view raises (modifyTop f) :=
  .modify (fun _ _ => rfl) fun w => h.stances w _ (Draft.stances_modifyTop hf)

theorem append_composed (h : Sighting view) (nodes : List Node) :
    Composed view raises (append nodes) :=
  modifyDraft_composed h fun d => Draft.sights_modifyBuffer d _

theorem markSplice_composed (h : Sighting view) : Composed view raises markSplice :=
  modifyDraft_composed h fun d => Draft.sights_modifyTop (fun _ => by rfl) d

theorem useTag_composed (h : Aloof view) : Composed view raises (useTag name) :=
  .modify (fun _ _ => rfl) fun w => h.usedTags w _

theorem fail_composed {fault : TagFault} : Composed view true (fail fault : Step α) :=
  .raise _

/-! ### Attributes and modules -/

theorem describe_composed {item : Attribute} : Composed view raises (describe item) := by
  unfold describe
  split
  · exact .bind (.log _ _) fun _ => .pure _
  · exact .defect _
  · exact .bind (.report _) fun _ => .pure _

theorem attributeItem_composed {tagName : Text} :
    Composed view raises (attributeItem options tagName attributes name value) := by
  unfold attributeItem
  split
  · exact .pure _
  · exact .bind (.warn _) fun _ => .pure _
  · exact .pure _

theorem applyAttributes_composed (h : Sighting view) :
    Composed view raises (applyAttributes options frame attributes) := by
  induction attributes with
  | nil => exact .pure _
  | cons item rest ih =>
    refine .bind attributeItem_composed
      fun meaning => ?_
    cases meaning with
    | none => exact ih
    | some item =>
      dsimp only
      split
      · refine .bind describe_composed fun descriptor => ?_
        cases descriptor with
        | none => exact ih
        | some descriptor => exact .bind (modifyTop_composed h fun _ => rfl) fun _ => ih
      · exact .bind ih fun _ => .pure _

theorem declareModule_composed (h : Detached view) {qualifier written : Text} :
    Composed view raises (declareModule options qualifier written) := by
  refine .bind (modifyTop_composed h.draft fun _ => rfl) fun _ => ?_
  refine .bind (.modify (fun _ _ => rfl) fun w => h.paths w _) fun _ => ?_
  refine .read (fun _ _ => rfl) fun w => ?_
  split
  · exact .pure _
  · exact .bind (.modify (fun _ _ => rfl) fun w => h.modules w _ _ _) fun _ => .log 3 _

theorem declareModules_composed (h : Detached view)
    {declared : List (Text × Text)} : Composed view raises (declareModules options declared) := by
  induction declared with
  | nil => exact .pure _
  | cons item rest ih => exact .bind (declareModule_composed h) fun _ => ih

/-! ### Completing a tag -/

theorem takeIndex_composed (h : Apart view) {isFallback : Bool} :
    Composed view raises (takeIndex isFallback) := by
  refine .read (fun _ _ => rfl) fun w => ?_
  refine .bind (.modify (fun _ _ => rfl) fun w => h.treeIndex w _) fun _ => ?_
  exact .bind (modifyTop_apart h fun _ => rfl) fun _ => .pure _

theorem sight_recordChild (view frame : Frame) : (recordChild view frame).sight = frame.sight := by
  unfold recordChild
  dsimp only
  split <;> split <;> rfl

theorem attach_composed (h : Detached view) (options : Options) (frame : Frame) (hasParent : Bool) :
    Composed view raises (attach options frame hasParent) := by
  refine .bind (modifyTop_composed h.draft fun _ => rfl) fun _ => ?_
  split
  · exact modifyDraft_composed h.draft
      (Draft.sights_modifyBelow (Draft.sights_modifyTop (sight_recordChild frame)))
  · exact .bind (.modify (fun _ _ => rfl) fun w => h.paths w _) fun _ => append_composed h.draft _

theorem openSlot_composed (h : Aloof view) : Composed view raises (openSlot options frame) := by
  refine .bind (append_composed h.draft _) fun _ => ?_
  refine .bind (modifyDraft_composed h.draft fun d => Draft.sights_modifyBuffer d _) fun _ => ?_
  refine .bind (markSplice_composed h.draft) fun _ => ?_
  refine .bind (modifyTop_composed h.draft fun _ => rfl) fun _ => ?_
  exact .modify (fun _ _ => rfl) fun w => h.inSlotFallback w _

theorem elementModule_composed : Composed view true (elementModule options beside frame) := by
  refine .read (fun _ _ => rfl) fun w => ?_
  split
  · exact .pure _
  · split
    · exact .pure _
    · exact fail_composed

section

variable (h : Aloof view) (options : Options) (frame : Frame) (path : Option Text)
  (isFallback : Bool)
include h

theorem startElement_composed :
    Composed view raises (startElement options frame path isFallback) := by
  cases path with
  | none => exact .bind (useTag_composed h) fun _ => .pure _
  | some path =>
    refine .bind (modifyTop_composed h.draft fun _ => rfl) fun _ => ?_
    refine .bind (append_composed h.draft _) fun _ => ?_
    exact .bind (markSplice_composed h.draft) fun _ => .pure _

theorem openElement_composed :
    Composed view raises (openElement options frame path isFallback) := by
  refine .bind (startElement_composed h options frame path isFallback) fun statements => ?_
  refine .bind (applyAttributes_composed h.draft) fun settings => ?_
  exact .bind (append_composed h.draft _) fun _ => .log _ _

end

/-- The rest of the start of a view, once its module is known. -/
def buildView (options : Options) (frame : Frame) (parent : Option Frame) (path : Option Text) :
    Step Unit := do
  declareModules options (declaredModules frame.attributes)
  let isFallback := parent.any Frame.isSlot
  let index ← takeIndex isFallback
  let frame := { frame with index }
  attach options frame parent.isSome
  markSplice
  if frame.tagName = Frame.slotTag then openSlot options frame
  else openElement options frame path isFallback

theorem openView_eq : openView options beside frame parent = (do
      let path ← elementModule options beside frame
      buildView options frame parent path) := rfl

theorem buildView_composed (h : Apart view) (options : Options) (frame : Frame)
    (parent : Option Frame) (path : Option Text) :
    Composed view raises (buildView options frame parent path) := by
  refine .bind (declareModules_composed h.toDetached) fun _ => ?_
  refine .bind (takeIndex_composed h) fun index => ?_
  refine .bind (attach_composed h.toDetached options _ _) fun _ => ?_
  refine .bind (markSplice_composed h.draft) fun _ => ?_
  split
  · exact openSlot_composed h.toAloof
  · exact openElement_composed h.toAloof _ _ _ _

theorem openView_composed (h : Apart view) : Composed view true (openView options beside frame parent) :=
  .bind elementModule_composed (buildView_composed h options frame parent)

theorem placeFactory_composed (h : Sighting view) (shape : FactoryShape) (frame : Frame)
    (isClosed : Bool) : Composed view raises (placeFactory shape frame isClosed) :=
  .bind (modifyDraft_composed h
    (Draft.sights_modifyBelow fun d => Draft.sights_modifyBuffer d _))
    fun _ => modifyTop_composed h fun _ => rfl

theorem holdSlots_composed (h : Sighting view) :
    Composed view raises (modifyDraft fun d => d.modifyBelow fun below =>
      below.modifyTop fun p => { p with holdsSlots := true }) :=
  modifyDraft_composed h (Draft.sights_modifyBelow (Draft.sights_modifyTop fun _ => rfl))

/-- A tag that is no view is opened. -/
theorem openInner_composed (h : Sighting view) (options : Options) (beside : List Frame) (hkind : frame.kind ≠ .view) (isClosed : Bool) :
    Composed view true (openUnder options beside frame isClosed parent) := by
  unfold openUnder
  split
  · next hview => exact absurd hview hkind
  · exact .pure _
  · exact .pure _
  · exact .defect _
  · exact placeFactory_composed h _ _ _
  · exact placeFactory_composed h _ _ _
  · split
    · exact placeFactory_composed h _ _ _
    · exact fail_composed
  · exact holdSlots_composed h

section

variable (h : Apart view) (options : Options) (beside : List Frame) (frame : Frame)
  (isClosed : Bool)
include h

theorem openUnder_composed :
    Composed view true (openUnder options beside frame isClosed parent) := by
  by_cases hkind : frame.kind = .view
  · unfold openUnder
    rw [hkind]
    exact openView_composed h
  · exact openInner_composed h.draft options beside hkind isClosed

theorem openTop_composed : Composed view true (openTop options beside frame isClosed) :=
  .read (fun _ _ => rfl) fun _ => openUnder_composed h options beside frame isClosed

theorem completeTop_composed : Composed view false (completeTop options beside frame isClosed) :=
  .recovering (openTop_composed h options beside frame isClosed)
    (modifyTop_apart h fun _ => rfl)

end

theorem completeReceiver_composed {attributes : Option AttributeMap} : Composed outline false (completeReceiver options attributes receiver) := by
  cases receiver with
  | nobody => exact .pure _
  | top =>
    refine .read (fun _ _ => rfl) fun w => ?_
    split
    · exact .pure _
    · split
      · exact .pure _
      · exact .bind (.modify (fun _ _ => rfl) fun _ => rfl) fun _ =>
          completeTop_composed outline_apart _ _ _ _
  | closed frame =>
    have hstep : Composed outline false (inPlaceOfTop (withAttributes attributes frame) fun beside =>
        completeTop options beside (withAttributes attributes frame) true) :=
      .inPlaceOfTop (fun _ _ => rfl) fun beside =>
        completeTop_composed outline_apart options beside _ true
    cases hignored : frame.ignored with
    | true =>
      simp only [completeReceiver, hignored, if_true]
      exact .pure _
    | false =>
      simp only [completeReceiver, hignored, Bool.false_eq_true, if_false]
      exact hstep

/-! ### Closing a tag -/

theorem closeSlot_composed (h : Sighting view)
    (hfallback : ∀ w inSlotFallback, view { w with inSlotFallback } = view w) (options : Options)
    (frame : Frame) : Composed view true (closeSlot options frame) := by
  refine .bind (.modify (fun _ _ => rfl) fun w => hfallback w _) fun _ => ?_
  refine .read (fun _ _ => rfl) fun w => ?_
  dsimp only
  split
  · split
    · exact modifyDraft_composed h fun d => Draft.sights_modifyBuffer d _
    · exact fail_composed
  · exact .pure _

theorem addCallbacks_composed (h : Aloof view) :
    Composed view raises (addCallbacks options frame) := by
  unfold addCallbacks
  dsimp only
  split
  · exact .defect _
  · next callbacks _ =>
    have hrest : Composed view raises (do
        modify fun w => { w with callbacks := w.callbacks ++ callbacks.declarations }
        append callbacks.attach : Step Unit) :=
      .bind (.modify (fun _ _ => rfl) fun w => h.callbacks w _) fun _ => append_composed h.draft _
    split
    · exact hrest
    · exact .bind (.log _ _) fun _ => hrest

theorem closeView_composed (h : Aloof view) : Composed view true (closeView options frame) := by
  unfold closeView
  split
  · exact fail_composed
  · exact .bind (append_composed h.draft _) fun _ => addCallbacks_composed h

/-- The code of a tag that belongs to the view around it goes into the buffer below. -/
theorem handDown_composed (h : Sighting view) {f : Draft → List Fragment → List Fragment} :
    Composed view raises (modifyDraft fun d =>
      d.modifyBelow fun below => below.modifyBuffer (f d)) :=
  modifyDraft_composed h fun d =>
    Draft.sights_modifyBelow (fun below => Draft.sights_modifyBuffer below _) d

theorem closeInner_composed (h : Sighting view)
    (hkind : frame.kind ≠ .view) : Composed view raises (closeTop options frame) := by
  unfold closeTop
  split
  · next hview => exact absurd hview hkind
  · exact .bind (append_composed h _) fun _ => handDown_composed h
  · exact append_composed h _
  · exact append_composed h _
  · exact .pure _
  · exact .pure _
  · exact .bind (append_composed h _) fun _ => handDown_composed h

theorem closeTop_composed (h : Aloof view) : Composed view true (closeTop options frame) := by
  by_cases hkind : frame.kind = .view
  · unfold closeTop
    rw [hkind]
    dsimp only
    split
    · exact closeSlot_composed h.draft h.inSlotFallback _ _
    · exact closeView_composed h
  · exact closeInner_composed h.draft hkind

theorem endTop_composed (h : Aloof view) (options : Options) (frame : Frame) :
    Composed view false (endTop options frame) :=
  .recovering (closeTop_composed h) (.pure _)

/-! ### Events -/

/-- The view shows nothing of the open tags, and of a tag that receives attributes no more than that
there is one. -/
structure Remote {γ : Type} (view : Walk → γ) : Prop where
  draft : ∀ w draft, view { w with draft } = view w
  close : ∀ w frame, view { w with receiver := w.receiver.close frame } = view w
  modifyClosed : ∀ w f, view { w with receiver := w.receiver.modifyClosed f } = view w
  initialized : ∀ w initialized, view { w with initialized } = view w

theorem isNobody_close : isNobody (receiver.close frame) = isNobody receiver := by
  cases receiver <;> rfl

theorem isNobody_modifyClosed : isNobody (receiver.modifyClosed f) = isNobody receiver := by
  cases receiver <;> rfl

theorem outline_remote : Remote outline where
  draft _ _ := rfl
  close w _ := congrArg (·, w.suppressed) isNobody_close
  modifyClosed w _ := congrArg (·, w.suppressed) isNobody_modifyClosed
  initialized _ _ := rfl

theorem Remote.part {δ : Type} (h : Remote view) (part : γ → δ) : Remote fun w => part (view w) where
  draft w draft := congrArg part (h.draft w draft)
  close w frame := congrArg part (h.close w frame)
  modifyClosed w f := congrArg part (h.modifyClosed w f)
  initialized w initialized := congrArg part (h.initialized w initialized)

/-- Nothing that a tag with the name does to the count of tags of other platforms is seen. -/
def Unseen {γ : Type} (view : Walk → γ) (name : Text) : Prop :=
  Name.isPlatform name = true → ∀ w suppressed, view { w with suppressed } = view w

theorem unseen_of_not_platform (h : Name.isPlatform name = false) : Unseen view name :=
  fun hname => nomatch h.symm.trans hname

section Reception

variable (h : Remote view) (hreceiver : ∀ w receiver, view { w with receiver } = view w)
include h hreceiver

theorem pushSkipped_composed : Composed view false (pushSkipped name) := by
  refine .bind (.modify (fun _ _ => rfl) fun w => h.draft w _) fun _ => ?_
  refine .bind (.modify (fun _ _ => rfl) fun w => h.draft w _) fun _ => ?_
  exact .modify (fun _ _ => rfl) fun w => hreceiver w _

theorem openTag_composed (options : Options) (hname : Unseen view name) :
    Composed view false (openTag options name) := by
  refine .read (fun _ _ => rfl) fun w => ?_
  split
  · next hplatform =>
    exact .modify (fun _ _ => rfl) fun w =>
      (hname hplatform { w with receiver := .nobody } _).trans (hreceiver w _)
  · split
    · exact .modify (fun _ _ => rfl) fun w => hreceiver w _
    · split
      · exact pushSkipped_composed h hreceiver
      · split
        · exact .bind (.report _) fun _ => pushSkipped_composed h hreceiver
        · refine .bind (.modify (fun _ _ => rfl) fun w => h.draft w _) fun _ => ?_
          refine .bind (.modify (fun _ _ => rfl) fun w => h.draft w _) fun _ => ?_
          exact .bind (.modify (fun _ _ => rfl) fun w => hreceiver w _) fun _ => .log _ _

end Reception

theorem setAttribute_composed (h : Remote view) :
    Composed view false (setAttribute name value) := by
  refine .read (fun _ _ => rfl) fun w => ?_
  split
  · exact .pure _
  · exact .modify (fun _ _ => rfl) fun w => h.draft w _
  · exact .modify (fun _ _ => rfl) fun w => h.modifyClosed w _

section

variable (options : Options) (attributes : Option AttributeMap)

theorem completeTag_composed : Composed suppressed false (completeTag options attributes) := by
  refine .read (fun _ _ => rfl) fun w => ?_
  refine .bind (.modify (fun _ _ => rfl) fun _ => rfl) fun _ => ?_
  exact completeReceiver_composed.part Prod.snd

/-- Once a tag is complete, no tag receives attributes. -/
theorem completeTag_outline (w : Walk) :
    outline (final (completeTag options attributes w)) = (true, w.suppressed) :=
  completeReceiver_composed.keeps outline_deaf
    { w with receiver := .nobody }

end

theorem pop_composed (h : Remote view) : Composed view false pop := by
  refine .read (fun _ _ => rfl) fun w => ?_
  split
  · exact .pure _
  · next frame draft _ =>
    refine .bind (.modify (fun _ _ => rfl) fun v => ?_) fun _ => ?_
    · exact (h.close { v with draft } frame).trans (h.draft v draft)
    · split
      · split
        · exact .pure _
        · exact .bind (.modify (fun _ _ => rfl) fun w => h.initialized w _) fun _ => .log _ _
      · exact .modify (fun _ _ => rfl) fun w => h.draft w _

theorem closeTag_composed (h : Remote view) (haloof : Aloof view) (options : Options)
    (hname : Unseen view name) : Composed view false (closeTag options name) := by
  refine .read (fun _ _ => rfl) fun w => ?_
  split
  · next hplatform =>
    split
    · exact .pure _
    · exact .modify (fun _ _ => rfl) fun w => hname hplatform w _
  · split
    · exact .pure _
    · split
      · exact .pure _
      · split
        · split
          · exact pop_composed h
          · exact .bind (endTop_composed haloof options _) fun _ => pop_composed h
        · exact .modify (fun _ _ => rfl) fun w => h.draft w _

theorem finish_composed : Composed view false finish := by
  refine .read (fun _ _ => rfl) fun w => ?_
  split
  · exact .pure _
  · exact .report _

/-- **Every event is composed of basic steps.** -/
theorem event_composed (options : Options) (e : TagEvent) :
    Composed (fun _ => ()) false (event options e) := by
  have hremote : Remote fun _ : Walk => () := outline_remote.part fun _ => ()
  cases e with
  | openTag name => exact openTag_composed hremote (fun _ _ => rfl) options fun _ _ _ => rfl
  | setAttribute name value => exact setAttribute_composed hremote
  | completeTag attributes => exact (completeTag_composed options attributes).part fun _ => ()
  | closeTag name =>
    exact closeTag_composed hremote ⟨fun _ _ _ => rfl, fun _ _ => rfl, fun _ _ => rfl, fun _ _ => rfl⟩
      options fun _ _ _ => rfl
  | finish => exact finish_composed

end ViewMarkup.Walk
