import ViewMarkup.Proofs.Walk.Forest

/-!
# Walks that differ in what they have reported

Two lenient walks may stand at the same place although one of them has met more errors.  Such twins
have the same code, the same indices and the same open tags.  They may differ in what an open tag
keeps of its attributes, which nothing reads once the tag is complete, and in how many tags it has
counted inside.

* `Thinned` says that reports remain when the errors with given causes are taken out.
* `Twin` relates the walks, and `Tied` two steps that lead from twins to twins.
* `completeTop_tied`, `endTop_tied` and `pop_tied` say that the steps of a walk do.  `Trims` says
  when a view may be opened with fewer attributes.
-/

namespace ViewMarkup

open List

/-! ### Reports without some errors -/

/-- The second list of reports remains of the first when errors with the given causes are taken out.
The places of the reports are left open. -/
inductive Thinned : List Cause → List Report → List Report → Prop
  | nil : Thinned [] [] []
  | kept {causes : List Cause} {report report' : Report} {all rest : List Report}
      (hseverity : report'.isError = report.isError) (hmessage : report'.message = report.message)
      (h : Thinned causes all rest) : Thinned causes (report :: all) (report' :: rest)
  | removed {causes : List Cause} {cause : Cause} {range : Option SourceRange}
      {all rest : List Report} (h : Thinned causes all rest) :
      Thinned (cause :: causes) (.error cause range :: all) rest

namespace Thinned

variable {causes causes' : List Cause} {all all' rest rest' : List Report}

theorem append (h : Thinned causes all rest) (h' : Thinned causes' all' rest') :
    Thinned (causes ++ causes') (all ++ all') (rest ++ rest') := by
  induction h with
  | nil => exact h'
  | kept hseverity hmessage _ ih => exact .kept hseverity hmessage ih
  | removed _ ih => exact .removed ih

theorem refl {reports : List Report} : Thinned [] reports reports := by
  induction reports with
  | nil => exact .nil
  | cons report rest ih => exact .kept rfl rfl ih

end Thinned

/-! ### Frames and drafts up to attributes and counts -/

/-- A frame without its attributes, and with some more tags counted inside. -/
def Frame.sketch (extra : Nat) (frame : Frame) : Frame :=
  { frame with attributes := [], nestedCount := frame.nestedCount + extra }

/-- Whether a view has mixed slot content with other tags. -/
def Frame.mixes (frame : Frame) : Bool :=
  frame.holdsSlots && frame.nestedCount > 1

/-- Frames without their attributes, and with some more tags counted inside each. -/
def sketchFrames : (extra : List Nat) → List Frame → List Frame
  | _, [] => []
  | extra, frame :: below => frame.sketch (extra.headD 0) :: sketchFrames extra.tail below

namespace Draft

/-- A draft with every frame sketched. -/
def sketch (extra : List Nat) (d : Draft) : Draft :=
  ⟨sketchFrames extra d.frames, d.body⟩

variable {d : Draft} {frame : Frame} {extra : List Nat}

theorem sketch_push : (d.push frame).sketch extra =
    (d.sketch extra.tail).push (frame.sketch (extra.headD 0)) := rfl

theorem sketch_bare {body : List Fragment} : (⟨[], body⟩ : Draft).sketch extra = ⟨[], body⟩ := by
  cases extra <;> rfl

theorem head?_sketch (d : Draft) :
    (d.sketch extra).frames.head? = d.frames.head?.map (Frame.sketch (extra.headD 0)) := by
  obtain ⟨frames, body⟩ := d
  cases frames <;> cases extra <;> rfl

theorem parent?_sketch :
    (d.sketch extra).parent? = d.parent?.map (Frame.sketch (extra.tail.headD 0)) := by
  obtain ⟨frames, body⟩ := d
  cases frames with
  | nil => rw [sketch_bare]; rfl
  | cons frame below => exact head?_sketch ⟨below, body⟩

theorem isEmpty_sketch (d : Draft) : (d.sketch extra).frames.isEmpty = d.frames.isEmpty := by
  obtain ⟨frames, body⟩ := d
  cases frames <;> cases extra <;> rfl

theorem buffer_sketch (d : Draft) : (d.sketch extra).buffer = d.buffer := by
  induction d using push_induction generalizing extra with
  | bare body => rw [sketch_bare]
  | push frame below ih =>
    show frame.own.getD (below.sketch extra.tail).buffer = frame.own.getD below.buffer
    rw [ih]

theorem sketch_modifyBuffer (d : Draft) {f : List Fragment → List Fragment} :
    (d.modifyBuffer f).sketch extra = (d.sketch extra).modifyBuffer f := by
  induction d using push_induction generalizing extra with
  | bare body => rw [sketch_bare]; exact sketch_bare
  | push frame below ih =>
    rw [sketch_push]
    cases hown : frame.own with
    | none =>
      rw [modifyBuffer_push f hown, sketch_push, ih, modifyBuffer_push f (by exact hown)]
    | some own =>
      rw [modifyBuffer_push_own f hown, sketch_push,
        @modifyBuffer_push_own _ (frame.sketch _) own f hown]
      rfl

theorem sketch_modifyTop (d : Draft) {f : Frame → Frame}
    (hf : ∀ extra frame, (f frame).sketch extra = f (frame.sketch extra)) :
    (d.modifyTop f).sketch extra = (d.sketch extra).modifyTop f := by
  obtain ⟨frames, body⟩ := d
  cases frames with
  | nil => exact sketch_bare.trans (congrArg (modifyTop · f) sketch_bare).symm
  | cons frame below => exact congrArg (sketch extra.tail ⟨below, body⟩).push (hf _ frame)

theorem sketch_modifyBelow (d : Draft) {f : Draft → Draft}
    (hf : ∀ extra d, (f d).sketch extra = f (d.sketch extra)) :
    (d.modifyBelow f).sketch extra = (d.sketch extra).modifyBelow f := by
  obtain ⟨frames, body⟩ := d
  cases frames with
  | nil => exact sketch_bare.trans (congrArg (modifyBelow · f) sketch_bare).symm
  | cons frame below => exact congrArg (push · (frame.sketch _)) (hf _ ⟨below, body⟩)

/-- The code does not show what is left out of a sketch. -/
theorem nodes_sketch (d : Draft) : (d.sketch extra).nodes = d.nodes := by
  have hframes : ∀ (frames : List Frame) (extra : List Nat) (inner : List Script.Node),
      nodesOf d.body inner (sketchFrames extra frames) = nodesOf d.body inner frames := by
    intro frames
    induction frames with
    | nil => intro extra inner; cases extra <;> rfl
    | cons frame below ih =>
      intro extra inner
      rw [sketchFrames, nodesOf, nodesOf,
        show (frame.sketch (extra.headD 0)).own = frame.own from rfl]
      cases frame.own with
      | none => exact ih extra.tail inner
      | some own => exact ih extra.tail _
  exact hframes d.frames extra []

end Draft

namespace Walk

open EStateM (Result)

variable {α β : Type} {raises : Bool} {causes causes' : List Cause} {extra : List Nat}
  {options : Options} {name : Text} {w v : Walk} {new : List Cause} {u : Walk}
  {frame frame' : Frame} {d : Draft} {attributes : AttributeMap} {declared : List (Text × Text)}
  {isFallback hasParent : Bool} {path : Option Text} {index : Int} {parent : Option Frame} {a : α}
  {before : List Cause} {d' : Draft}

/-! ### Twins -/

/-- A walk up to what it has reported, and with every frame sketched. -/
def sketch (extra : List Nat) (w : Walk) : Walk :=
  { w with
    draft := w.draft.sketch extra
    channel := .empty w.channel.strict .unknown }

/-- **Twins.**  Two lenient walks stand at the same place.  The first has reported errors with some
causes besides, and has counted some tags more in the open tags. -/
structure Twin (extra : List Nat) (causes : List Cause) (w v : Walk) : Prop where
  sketch : w.sketch [] = v.sketch extra
  lenient : w.channel.strict = false
  reports : Thinned causes w.channel.reports v.channel.reports

namespace Twin

theorem refl (hw : w.channel.strict = false) : Twin [] [] w w :=
  ⟨rfl, hw, .refl⟩

section

variable (h : Twin extra causes w v)
include h

theorem lenient_right : v.channel.strict = false :=
  ((congrArg (·.channel.strict) h.sketch :) : w.channel.strict = _).symm.trans h.lenient

/-- Changes of the walks that do not concern their channels lead to twins again. -/
theorem replace {extra' : List Nat} {w' v' : Walk}
    (hw' : w'.channel = w.channel) (hv' : v'.channel = v.channel)
    (hsketch : w'.sketch [] = v'.sketch extra') : Twin extra' causes w' v' := by
  refine ⟨hsketch, ?_, ?_⟩
  · rw [hw']
    exact h.lenient
  · rw [hw', hv']
    exact h.reports

/-- The channels may change in what they have reported. -/
theorem channels (channel channel' : Channel) {new new' : List Report}
    (hmode : channel.strict = w.channel.strict) (hmode' : channel'.strict = v.channel.strict)
    (hreports : channel.reports = w.channel.reports ++ new)
    (hreports' : channel'.reports = v.channel.reports ++ new') (hnew : Thinned causes' new new') :
    Twin extra (causes ++ causes') { w with channel } { v with channel := channel' } := by
  refine ⟨?_, hmode.trans h.lenient, ?_⟩
  · have hw : ({ w with channel } : Walk).sketch [] = w.sketch [] := by
      unfold Walk.sketch
      rw [hmode]
    have hv : ({ v with channel := channel' } : Walk).sketch extra = v.sketch extra := by
      unfold Walk.sketch
      rw [hmode']
    rw [hw, hv, h.sketch]
  · rw [hreports, hreports']
    exact h.reports.append hnew

/-- What is written to the trace does not matter. -/
theorem log (level : Nat) (text text' : Text) :
    Twin extra causes { w with channel := w.channel.log level text }
      { v with channel := v.channel.log level text' } := by
  have hsame := h.channels (w.channel.log level text) (v.channel.log level text') rfl rfl
    (append_nil _).symm (append_nil _).symm .nil
  rwa [append_nil] at hsame

theorem warn {message : Text} : Twin extra causes { w with channel := w.channel.warn message }
      { v with channel := v.channel.warn message } := by
  have hsame := h.channels (w.channel.warn message) (v.channel.warn message) rfl rfl rfl rfl
    (.kept rfl rfl .nil)
  rwa [append_nil] at hsame

theorem report {cause : Cause} :
    Twin extra causes { w with channel := (recordError w.channel (.ofCause cause)).2 }
      { v with channel := (recordError v.channel (.ofCause cause)).2 } := by
  have hsame := h.channels (recordError w.channel (.ofCause cause)).2
    (recordError v.channel (.ofCause cause)).2 rfl rfl rfl rfl (.kept rfl rfl .nil)
  rwa [append_nil] at hsame

/-- The first walk reports an error that the second does not meet. -/
theorem report_first (cause : Cause) :
    Twin extra (causes ++ [cause])
      { w with channel := (recordError w.channel (.ofCause cause)).2 } v :=
  h.channels (recordError w.channel (.ofCause cause)).2 v.channel rfl rfl rfl
    (append_nil _).symm (.removed .nil)

end

theorem draft (h : Twin extra causes w v) : w.draft.sketch [] = v.draft.sketch extra :=
  (congrArg Walk.draft h.sketch :)

end Twin

/-! ### Steps from twins to twins -/

/-- What two steps from twins come to: they lead to twins again, of which the first has reported
some more errors, or they raise the same error.  Nothing is said where the first ends in a defect. -/
inductive Ties (raises : Bool) (extra : List Nat) (before new : List Cause) :
    Result Failure Walk α → Result Failure Walk α → Prop
  | ok {a : α} {w v : Walk} (h : Twin extra (before ++ new) w v) :
      Ties raises extra before new (.ok a w) (.ok a v)
  | raised {cause : Cause} {w v : Walk} (hraises : raises = true) (h : Twin extra before w v) :
      Ties raises extra before new (.error (.raised (.ofCause cause)) w)
        (.error (.raised (.ofCause cause)) v)
  | defect {d : Defect} {w : Walk} {r : Result Failure Walk α} :
      Ties raises extra before new (.error (.defect d) w) r

theorem Ties.same (h : Twin extra before w v) :
    Ties raises extra before [] (.ok a w) (.ok a v) := by
  refine .ok ?_
  rw [append_nil]
  exact h

/-- If the first of two steps succeeds, so does the second. -/
theorem Ties.exists_ok {r : Result Failure Walk α} (h : Ties raises extra before new (.ok a u) r) :
    ∃ t, r = .ok a t ∧ Twin extra (before ++ new) u t := by
  cases h with
  | ok htwin => exact ⟨_, rfl, htwin⟩

/-- Two steps lead from twins to twins, and the first reports errors with some causes more.  They
may raise the same error instead, before the first has reported any of these. -/
def Tied (raises : Bool) (new : List Cause) (m m' : Step α) : Prop :=
  ∀ extra before w v, Twin extra before w v → Ties raises extra before new (m w) (m' v)

/-- A step leads from twins to twins. -/
abbrev SelfTied (raises : Bool) (m : Step α) : Prop :=
  Tied raises [] m m

namespace Tied

variable {m m' : Step α} {f f' : α → Step β} {cause : Cause} {a : α}

/-- If the first of two steps from twins succeeds, so does the second, and leads to a twin. -/
theorem run (hm : Tied raises [] m m') (h : Twin extra causes w v) (hrun : m w = .ok a u) :
    ∃ t, m' v = .ok a t ∧ Twin extra causes u t := by
  have hties := hm _ _ _ _ h
  rw [hrun] at hties
  obtain ⟨t, ht, htwin⟩ := hties.exists_ok
  rw [append_nil] at htwin
  exact ⟨t, ht, htwin⟩

theorem raising (hm : Tied false causes m m') : Tied raises causes m m' := by
  intro extra before w v h
  have hties := hm _ _ _ _ h
  generalize m w = r, m' v = r' at hties
  cases hties with
  | ok htwin => exact .ok htwin
  | raised hraises => cases hraises
  | defect => exact .defect

theorem of_pure : SelfTied raises (pure a : Step α) :=
  fun _ _ _ _ h => .same h

/-- A step after which errors are raised has reported nothing more itself. -/
theorem bind_after (hm : Tied raises causes m m') (hf : ∀ a, Tied raises causes' (f a) (f' a))
    (hcalm : raises = true → causes = []) :
    Tied raises (causes ++ causes') (m >>= f) (m' >>= f') := by
  intro extra before w v h
  have hties := hm _ _ _ _ h
  generalize hr : m w = r at hties
  generalize hr' : m' v = r' at hties
  cases hties with
  | @ok a u t htwin =>
    rw [bind_ok hr, bind_ok hr']
    have hrest := hf a _ _ _ _ htwin
    generalize f a u = s, f' a t = s' at hrest
    cases hrest with
    | ok htwin =>
      rw [append_assoc] at htwin
      exact .ok htwin
    | raised hraises htwin =>
      rw [hcalm hraises, append_nil] at htwin
      exact .raised hraises htwin
    | defect => exact .defect
  | raised hraises htwin =>
    rw [bind_error hr, bind_error hr']
    exact .raised hraises htwin
  | defect =>
    rw [bind_error hr]
    exact .defect

theorem bind (hm : Tied raises [] m m') (hf : ∀ a, Tied raises causes (f a) (f' a)) :
    Tied raises causes (m >>= f) (m' >>= f') :=
  hm.bind_after hf fun _ => rfl

theorem bind_last (hm : Tied false causes m m') (hf : ∀ a, Tied false [] (f a) (f' a)) :
    Tied false causes (m >>= f) (m' >>= f') := by
  have hboth := hm.bind_after hf nofun
  rwa [append_nil] at hboth

/-- What a step reads of the walk may depend on the sketch. -/
theorem read {f f' : Walk → Step α}
    (hf : ∀ extra w v, w.sketch [] = v.sketch extra → Tied raises causes (f w) (f' v)) :
    Tied raises causes (get >>= f) (get >>= f') :=
  fun extra _ w v h => hf extra w v h.sketch _ _ w v h

/-- A change without regard to what the sketch leaves out. -/
theorem of_change {f : Walk → Walk} (hf : ∀ w, (f w).channel = w.channel)
    (hsketch : ∀ extra w, (f w).sketch extra = f (w.sketch extra)) :
    SelfTied raises (modify f : Step Unit) := by
  intro extra before w v h
  refine .same (h.replace (hf w) (hf v) ?_)
  rw [hsketch, hsketch, h.sketch]

theorem of_log {level : Nat} {text text' : Text} :
    Tied raises [] (log level text) (log level text') :=
  fun _ _ _ _ h => .same (h.log level text text')

theorem of_warn {message : Text} : SelfTied raises (warn message) :=
  fun _ _ _ _ h => .same h.warn

theorem of_report : SelfTied raises (report (.ofCause cause)) := by
  intro extra before w v h
  rw [report_lenient rfl h.lenient, report_lenient rfl h.lenient_right]
  exact .same h.report

/-- An error that only the first of two walks meets. -/
theorem of_report_first (cause : Cause) :
    Tied raises [cause] (report (.ofCause cause)) (pure ()) := by
  intro extra before w v h
  rw [report_lenient rfl h.lenient]
  exact .ok (h.report_first cause)

theorem of_raise :
    SelfTied true (throw (.raised (.ofCause cause)) : Step α) :=
  fun _ _ _ _ h => .raised rfl h

theorem of_defect {d : Defect} : Tied raises causes (throw (.defect d)) m :=
  fun _ _ _ _ _ => .defect

theorem recovering {m m' recover recover' : Step Unit} (hm : Tied true [] m m')
    (hrecover : Tied raises [] recover recover') :
    Tied raises [] (tryCatch m (Walk.recovering recover))
      (tryCatch m' (Walk.recovering recover')) := by
  intro extra before w v h
  have hties := hm _ _ _ _ h
  generalize hr : m w = r at hties
  generalize hr' : m' v = r' at hties
  cases hties with
  | ok htwin =>
    rw [tryCatch_ok hr, tryCatch_ok hr']
    exact .ok htwin
  | @raised cause u t _ htwin =>
    rw [tryCatch_error hr, tryCatch_error hr']
    exact (of_report.bind fun _ => hrecover) extra before u t htwin
  | defect =>
    rw [tryCatch_error hr]
    exact .defect

/-! ### Changes of the draft -/

theorem of_draft {f : Draft → Draft} (hf : ∀ extra d, (f d).sketch extra = f (d.sketch extra)) :
    SelfTied raises (modifyDraft f) :=
  of_change (fun _ => rfl) fun extra w =>
    congrArg (fun draft => { w.sketch extra with draft }) (hf extra w.draft)

theorem of_top {f : Frame → Frame}
    (hf : ∀ extra frame, (f frame).sketch extra = f (frame.sketch extra)) :
    SelfTied raises (modifyTop f) :=
  of_draft fun _ d => d.sketch_modifyTop hf

theorem of_buffer {f : List Fragment → List Fragment} :
    SelfTied raises (modifyDraft fun d => d.modifyBuffer f) :=
  of_draft fun _ d => d.sketch_modifyBuffer

theorem of_append {nodes : List Script.Node} : SelfTied raises (append nodes) :=
  of_buffer

theorem of_markSplice : SelfTied raises markSplice := by
  refine of_draft fun extra d => ?_
  rw [d.buffer_sketch]
  exact d.sketch_modifyTop fun _ _ => rfl

end Tied

/-! ### Attributes and modules -/

theorem describe_tied {item : Attribute} : SelfTied raises (describe item) := by
  unfold describe
  split
  · exact .bind .of_log fun _ => .of_pure
  · exact .of_defect
  · exact .bind .of_report fun _ => .of_pure

section

variable (options : Options)

theorem attributeItem_tied {tagName : Text}
    {value : Text} : SelfTied raises (attributeItem options tagName attributes name value) := by
  unfold attributeItem
  split
  · exact .of_pure
  · exact .bind .of_warn fun _ => .of_pure
  · exact .of_pure

theorem applyAttributes_tied : SelfTied raises (applyAttributes options frame attributes) := by
  induction attributes with
  | nil => exact .of_pure
  | cons item rest ih =>
    refine .bind (attributeItem_tied options) fun meaning => ?_
    cases meaning with
    | none => exact ih
    | some item =>
      dsimp only
      split
      · refine .bind describe_tied fun descriptor => ?_
        cases descriptor with
        | none => exact ih
        | some descriptor => exact .bind (.of_top fun _ _ => rfl) fun _ => ih
      · exact .bind ih fun _ => .of_pure

theorem declareModules_tied :
    SelfTied raises (declareModules options declared) := by
  induction declared with
  | nil => exact .of_pure
  | cons item rest ih =>
    refine .bind ?_ fun _ => ih
    refine .bind (.of_top fun _ _ => rfl) fun _ => ?_
    refine .bind (.of_change (fun _ => rfl) fun _ _ => rfl) fun _ => ?_
    refine .read fun extra w v h => ?_
    have hpaths : w.registeredPaths = v.registeredPaths := (congrArg registeredPaths h :)
    rw [hpaths]
    split
    · exact .of_pure
    · exact .bind (.of_change (fun _ => rfl) fun _ _ => rfl) fun _ => .of_log

/-- A name stands for the same module in twins. -/
theorem findModule?_sketch {frames : List Frame} (qualifier : Text) :
    findModule? options declared (sketchFrames extra frames) qualifier =
      findModule? options declared frames qualifier := by
  unfold findModule?
  cases declared.lookup qualifier with
  | some path => rfl
  | none =>
    dsimp only
    induction frames generalizing extra with
    | nil => cases extra <;> rfl
    | cons frame below ih =>
      rw [sketchFrames, findSome?_cons, findSome?_cons, ih]
      rfl

theorem elementModule_tied :
    SelfTied true (elementModule options [] frame) := by
  refine .read fun extra w v h => ?_
  have hframes : sketchFrames [] w.draft.frames = sketchFrames extra v.draft.frames :=
    (congrArg (·.draft.frames) h :)
  split
  · exact .of_pure
  · rw [nil_append, nil_append, ← findModule?_sketch _,
      hframes, findModule?_sketch]
    split
    · exact .of_pure
    · exact .of_raise

end

/-! ### Completing a tag -/

theorem takeIndex_tied : SelfTied raises (takeIndex isFallback) := by
  refine .read fun extra w v h => ?_
  have hindex : w.treeIndex = v.treeIndex := (congrArg treeIndex h :)
  rw [hindex]
  refine .bind (.of_change (fun _ => rfl) fun _ _ => rfl) fun _ => ?_
  exact .bind (.of_top fun _ _ => rfl) fun _ => .of_pure

theorem sketch_recordChild {view : Frame} (extra : Nat) (parent : Frame) :
    (recordChild view parent).sketch extra = recordChild view (parent.sketch extra) := by
  unfold recordChild
  obtain ⟨tagName, kind⟩ := parent
  by_cases hslot : view.tagName = Frame.slotTag
  · simp only [if_pos hslot]
    cases kind <;> rfl
  · simp only [if_neg hslot]
    cases kind <;> rfl

section

variable (options : Options) (frame : Frame)

theorem attach_tied :
    SelfTied raises (attach options frame hasParent) := by
  refine .bind (.of_top fun _ _ => rfl) fun _ => ?_
  split
  · exact .of_draft fun _ d => d.sketch_modifyBelow fun _ below =>
      below.sketch_modifyTop sketch_recordChild
  · exact .bind (.of_change (fun _ => rfl) fun _ _ => rfl) fun _ => .of_append

theorem openSlot_tied : SelfTied raises (openSlot options frame) := by
  refine .bind .of_append fun _ => ?_
  refine .bind .of_buffer fun _ => ?_
  refine .bind .of_markSplice fun _ => ?_
  refine .bind (.of_top fun _ _ => rfl) fun _ => ?_
  exact .of_change (fun _ => rfl) fun _ _ => rfl

theorem startElement_tied : SelfTied raises (startElement options frame path isFallback) := by
  cases path with
  | none =>
    exact .bind (.of_change (fun _ => rfl) fun _ _ => rfl) fun _ => .of_pure
  | some path =>
    refine .bind (.of_top fun _ _ => rfl) fun _ => ?_
    refine .bind .of_append fun _ => ?_
    exact .bind .of_markSplice fun _ => .of_pure

end

/-- A view may be opened with other attributes than its own: they declare the same modules, the
names without code have the same values, and applying them leads to twins. -/
structure Trims (options : Options) (new : List Cause) (frame : Frame)
    (attributes : AttributeMap) : Prop where
  modules : declaredModules attributes = declaredModules frame.attributes
  silent : ∀ name ∈ Attribute.silent, attributes.get? name = frame.attributes.get? name
  slot : frame.tagName = Frame.slotTag → attributes = frame.attributes ∧ new = []
  applied : ∀ index, Tied false new (applyAttributes options { frame with index } frame.attributes)
    (applyAttributes options { frame with index, attributes } attributes)

theorem trims_self : Trims options [] frame frame.attributes :=
  ⟨rfl, fun _ _ => rfl, fun _ => ⟨rfl, rfl⟩, fun _ => applyAttributes_tied _⟩

section Trims

variable {new : List Cause} {frame : Frame} {attributes : AttributeMap}

section

variable (h : Trims options new frame attributes)
include h

theorem Trims.attach_eq : attach options { frame with index, attributes } hasParent =
      attach options { frame with index } hasParent := by
  have hslot : attributes.nonEmpty? Attribute.slotAttribute =
      frame.attributes.nonEmpty? Attribute.slotAttribute := by
    unfold AttributeMap.nonEmpty?
    rw [h.silent _ (by decide)]
  have hrecord : recordChild { frame with index, attributes } =
      recordChild { frame with index } := by
    funext parent
    unfold recordChild
    rw [hslot]
  have hcode := h.silent Attribute.codeFile (by decide)
  have hstyle := h.silent Attribute.cssFile (by decide)
  have hwritten : Construction.writtenModules attributes =
      Construction.writtenModules frame.attributes := by
    simp only [Construction.writtenModules, filterMap_cons, filterMap_nil, hcode,
      hstyle]
  have hroot : Construction.rootDeclarations options attributes =
      Construction.rootDeclarations options frame.attributes := by
    simp only [Construction.rootDeclarations, Construction.moduleFor, hcode, hstyle]
  unfold attach
  rw [hrecord]
  rw [hwritten, hroot]

theorem openElement_tied :
    Tied raises new (openElement options { frame with index } path isFallback)
      (openElement options { frame with index, attributes } path isFallback) := by
  refine .bind (startElement_tied options { frame with index }) fun statements => ?_
  refine ((h.applied index).bind_last fun settings => ?_).raising
  exact .bind .of_append fun _ => .of_log

theorem buildView_tied : Tied raises new (buildView options frame parent path)
      (buildView options { frame with attributes } parent path) := by
  unfold buildView
  dsimp only
  rw [h.modules]
  refine .bind (declareModules_tied options) fun _ => ?_
  refine .bind takeIndex_tied fun index => ?_
  rw [h.attach_eq]
  refine .bind (attach_tied options _) fun _ => ?_
  refine .bind .of_markSplice fun _ => ?_
  split
  · next hslot =>
    obtain ⟨rfl, rfl⟩ := h.slot hslot
    exact openSlot_tied options _
  · exact openElement_tied h

theorem openView_tied : Tied true new (openView options [] frame parent)
      (openView options [] { frame with attributes } parent) := by
  have hmodule : elementModule options [] { frame with attributes } =
      elementModule options [] frame := by
    unfold elementModule
    rw [h.modules]
  rw [openView_eq, openView_eq, hmodule]
  exact .bind (elementModule_tied options) fun path => buildView_tied h

end

end Trims

theorem placeFactory_tied {shape : FactoryShape} {isClosed : Bool} :
    SelfTied raises (placeFactory shape frame isClosed) := by
  refine .bind (.of_draft fun _ d => ?_) fun _ => .of_top fun _ _ => rfl
  exact d.sketch_modifyBelow fun _ below => below.sketch_modifyBuffer

/-- Opening a tag shows nothing of its parent that the sketch leaves out. -/
theorem openUnder_sketch {extra : Nat} :
    openUnder options [] frame false (parent.map (Frame.sketch extra)) =
      openUnder options [] frame false parent := by
  cases parent with
  | none => rfl
  | some parent =>
    unfold openUnder
    cases frame.kind <;> rfl

theorem openUnder_view (hkind : frame.kind = .view) :
    openUnder options [] frame false parent = openView options [] frame parent := by
  unfold openUnder
  rw [hkind]

theorem openUnder_tied : SelfTied true (openUnder options [] frame false parent) := by
  unfold openUnder
  split
  · exact openView_tied trims_self
  · exact .of_pure
  · exact .of_pure
  · exact .of_defect
  · exact placeFactory_tied
  · exact placeFactory_tied
  · split
    · exact placeFactory_tied
    · exact .of_raise
  · exact .of_draft fun _ d => d.sketch_modifyBelow fun _ below =>
      below.sketch_modifyTop fun _ _ => rfl

/-- Twins open a tag alike if they open it alike under one parent. -/
theorem openUnder_of_sketch (h : w.sketch [] = v.sketch extra) :
    openUnder options [] frame false w.draft.parent? =
      openUnder options [] frame false v.draft.parent? := by
  have hdraft : w.draft.sketch [] = v.draft.sketch extra := (congrArg draft h :)
  rw [← openUnder_sketch, ← Draft.parent?_sketch, hdraft,
    Draft.parent?_sketch, openUnder_sketch]

theorem openTop_tied :
    SelfTied true (openTop options [] frame false) := by
  refine .read fun extra w v h => ?_
  rw [openUnder_of_sketch h]
  exact openUnder_tied

/-- A view is opened alike with fewer attributes. -/
theorem openTop_trims (h : Trims options new frame attributes)
    (hkind : frame.kind = .view) : Tied true new (openTop options [] frame false)
      (openTop options [] { frame with attributes } false) := by
  refine .read fun extra w v hsketch => ?_
  rw [openUnder_of_sketch hsketch, openUnder_view hkind,
    openUnder_view (show ({ frame with attributes } : Frame).kind = .view from hkind)]
  exact openView_tied h

/-- **A tag is completed alike in twins.** -/
theorem completeTop_tied :
    SelfTied false (completeTop options [] frame false) :=
  .recovering openTop_tied (.of_top fun _ _ => rfl)

/-- A view that is not refused is completed alike with fewer attributes. -/
theorem completeTop_trims {top : Frame} (h : Twin extra causes w v)
    (hdraft : w.draft = d.push top) (htrims : Trims options new frame attributes)
    (hkind : frame.kind = .view) (hrun : completeTop options [] frame false w = .ok () u)
    (hopen : u.draft.frames.head?.any (·.ignored) = false) :
    ∃ t, completeTop options [] { frame with attributes } false v = .ok () t ∧
      Twin extra (causes ++ new) u t := by
  rcases recovering_ok (openTop_composed outline_apart options [] _ false) hrun with
    hrun | ⟨_, e, r, q, hraised, hreport, hrecover⟩
  · have hties := openTop_trims htrims hkind _ _ _ _ h
    rw [hrun] at hties
    obtain ⟨t, ht, htwin⟩ := hties.exists_ok
    exact ⟨t, tryCatch_ok ht, htwin⟩
  · -- a view that is refused is left out
    obtain ⟨rfl, _⟩ := openUnder_refuses options _ w e r h.lenient hraised
    have hq := final_report e r
    rw [hreport, final_ok] at hq
    cases hrecover
    rw [hq] at hopen
    have htop : (r.draft.modifyTop fun f => { f with ignored := true }).frames.head?.any
        (·.ignored) = false := hopen
    rw [hdraft] at htop
    cases htop

/-! ### Starting a tag -/

/-- A frame that has counted some tags less. -/
def uncounted (lost : Nat) (frame : Frame) : Frame :=
  { frame with nestedCount := frame.nestedCount - lost }

theorem sketch_uncounted {lost : Nat} (h : frame.sketch 0 = frame'.sketch lost) :
    (uncounted lost frame).sketch 0 = frame'.sketch 0 := by
  have hless : uncounted lost (frame.sketch 0) = uncounted lost (frame'.sketch lost) :=
    congrArg (uncounted lost) h
  have hcount : frame'.nestedCount + lost - lost = frame'.nestedCount := Nat.add_sub_cancel ..
  have hright : uncounted lost (frame'.sketch lost) = frame'.sketch 0 := by
    unfold uncounted Frame.sketch
    rw [hcount]
    rfl
  exact hless.trans hright

/-- Twins agree on the place of a new tag, unless what its parent has against it depends on the tags
that are counted in addition. -/
theorem newFrame_twin (h : w.sketch [] = v.sketch extra)
    (hnesting : ∀ parent, w.draft.frames.head? = some parent →
      nestingFault? w.inSlotFallback (uncounted (extra.headD 0) parent) name =
        nestingFault? w.inSlotFallback parent name) : w.newFrame name = v.newFrame name := by
  have hinitialized : w.initialized = v.initialized := (congrArg Walk.initialized h :)
  have hfallback : w.inSlotFallback = v.inSlotFallback := (congrArg Walk.inSlotFallback h :)
  have hhead := (congrArg (·.draft.frames.head?) h :)
  rw [show (w.sketch []).draft.frames.head? = _ from Draft.head?_sketch _,
    show (v.sketch extra).draft.frames.head? = _ from Draft.head?_sketch _] at hhead
  unfold newFrame
  rw [← hinitialized, ← hfallback]
  cases hparent : w.draft.frames.head? with
  | none =>
    rw [hparent, Option.map_none, eq_comm, Option.map_eq_none_iff] at hhead
    rw [hhead]
  | some parent =>
    rw [hparent, Option.map_some, eq_comm, Option.map_eq_some_iff] at hhead
    obtain ⟨parent', hparent', hsame⟩ := hhead
    have hfault : nestingFault? w.inSlotFallback parent name =
        nestingFault? w.inSlotFallback parent' name := by
      rw [← hnesting parent hparent]
      exact (congrArg (nestingFault? w.inSlotFallback · name) (sketch_uncounted hsame.symm) :)
    have hframe : frameFor name (some parent) = frameFor name (some parent') :=
      (congrArg (fun parent => frameFor name (some parent)) hsame.symm :)
    rw [hparent']
    dsimp only [Option.bind_some]
    rw [hfault, hframe]

theorem Twin.receiver (h : Twin extra causes w v) : w.receiver = v.receiver :=
  (congrArg Walk.receiver h.sketch :)

theorem Twin.suppressed (h : Twin extra causes w v) : w.suppressed = v.suppressed :=
  (congrArg Walk.suppressed h.sketch :)

section

variable (h : Twin extra causes w v)
include h

theorem Twin.framed (hframed : Framed name w) : Framed name v :=
  ⟨hframed.name, h.suppressed.symm.trans hframed.suppressed⟩

theorem Twin.suppress {suppressed : Int} :
    Twin extra causes { w with suppressed } { v with suppressed } := by
  refine h.replace rfl rfl ?_
  show ({ w.sketch [] with suppressed } : Walk) = { v.sketch extra with suppressed }
  rw [h.sketch]

/-- Twins may get drafts with one sketch. -/
theorem Twin.withDraft {extra' : List Nat} (hsketch : d.sketch [] = d'.sketch extra') :
    Twin extra' causes { w with draft := d } { v with draft := d' } := by
  refine h.replace rfl rfl ?_
  show ({ w.sketch [] with draft := d.sketch [] } : Walk) =
    { v.sketch extra with draft := d'.sketch extra' }
  rw [h.sketch, hsketch]

end

/-- Whether the tag on top is left out. -/
theorem Twin.ignored (h : Twin extra causes w v) :
    (w.draft.frames.head?.any (·.ignored)) =
      v.draft.frames.head?.any fun top => top.ignored := by
  have hhead := (congrArg (fun d => d.frames.head?.any (·.ignored)) h.draft :)
  rw [Draft.head?_sketch, Draft.head?_sketch, Option.any_map, Option.any_map] at hhead
  exact hhead

section Start

variable {received received' : AttributeMap} {given given' : Option AttributeMap}
  {attributes : AttributeMap} {frame : Frame} {u : Walk} {new : List Cause}

/-- A tag without a frame starts alike in twins, whatever its attributes. -/
theorem beginTag_unframed_twin (h : Twin extra causes w v) (hreceiver : w.receiver = .nobody)
    (hframed : ¬ Framed name w) (hrun : beginTag options name received given w = .ok () u) :
    ∃ t, beginTag options name received' given' v = .ok () t ∧ Twin extra causes u t := by
  have hreceiver' := h.receiver.symm.trans hreceiver
  cases hname : Name.isPlatform name with
  | true =>
    rw [beginTag_unframed (openTag_platform hname hreceiver) hreceiver, h.suppressed] at hrun
    cases hrun
    exact ⟨_, beginTag_unframed (openTag_platform hname hreceiver') hreceiver', h.suppress⟩
  | false =>
    have hsuppressed : w.suppressed ≠ 0 := fun hzero => hframed ⟨hname, hzero⟩
    rw [beginTag_unframed (openTag_hushed hname hreceiver hsuppressed) hreceiver] at hrun
    cases hrun
    exact ⟨v, beginTag_unframed (openTag_hushed hname hreceiver' (h.suppressed ▸ hsuppressed))
      hreceiver', h⟩

theorem sketch_skipping (h : d.sketch [] = d'.sketch extra) :
    (skipping name received d).sketch [] = (skipping name received' d').sketch (0 :: extra) := by
  have htop : (d.modifyTop opening).sketch [] = (d'.modifyTop opening).sketch extra := by
    rw [d.sketch_modifyTop fun _ _ => rfl, d'.sketch_modifyTop fun _ _ => rfl, h]
  exact congrArg (Draft.push · (Frame.skip name)) htop

theorem sketch_holdingFrame {attributes' : AttributeMap} (h : d.sketch [] = d'.sketch extra) :
    (holdingFrame frame attributes d).sketch [] =
      (holdingFrame frame attributes' d').sketch (0 :: extra) := by
  have hentered (extra : Nat) (frame : Frame) :
      (entered frame).sketch extra = entered (frame.sketch extra) := by
    unfold entered Frame.sketch
    rw [Nat.add_right_comm]
  have htop : (d.modifyTop entered).sketch [] = (d'.modifyTop entered).sketch extra := by
    rw [d.sketch_modifyTop hentered, d'.sketch_modifyTop hentered, h]
  exact congrArg (Draft.push · (frame.sketch 0)) htop

/-- The attributes with which two walks start a tag: the same, or fewer of those of an element that
is opened. -/
def Suits (options : Options) (new : List Cause) (name : Text) (u : Walk)
    (attributes attributes' : AttributeMap) : Prop :=
  attributes' = attributes ∧ new = [] ∨
    Element.kindOf name = .view ∧ u.draft.frames.head?.any (·.ignored) = false ∧
      Trims options new (viewFrame name attributes (-1)) attributes'

/-- **A tag with a frame starts alike in twins.** -/
theorem beginTag_framed_twin (h : Twin extra causes w v) (hreceiver : w.receiver = .nobody)
    (hframed : Framed name w) (hframe : w.newFrame name = v.newFrame name)
    (hrun : beginTag options name received given w = .ok () u)
    (hsuits : Suits options new name u (given.getD (.ofList received))
      (given'.getD (.ofList received'))) :
    ∃ t, beginTag options name received' given' v = .ok () t ∧
      Twin (0 :: extra) (causes ++ new) u t := by
  have hreceiver' := h.receiver.symm.trans hreceiver
  have hframed' := h.framed hframed
  -- a tag that is left out is not opened, so that the attributes are the same
  have hskipped {t : Walk} (hleft : u.draft.frames.head?.any (·.ignored) = true)
      (htwin : Twin (0 :: extra) causes u t) : Twin (0 :: extra) (causes ++ new) u t := by
    rcases hsuits with ⟨_, rfl⟩ | ⟨_, hopen, _⟩
    · rw [append_nil]
      exact htwin
    · cases hleft.symm.trans hopen
  cases hignored : w.draft.frames.head?.any fun parent => parent.ignored with
  | true =>
    rw [beginTag_skipped hreceiver hframed hignored] at hrun
    cases hrun
    exact ⟨_, beginTag_skipped hreceiver' hframed' (h.ignored.symm.trans hignored),
      hskipped rfl (h.withDraft (sketch_skipping h.draft))⟩
  | false =>
    have hignored' := h.ignored.symm.trans hignored
    cases hnew : w.newFrame name with
    | error fault =>
      rw [beginTag_rejected h.lenient hreceiver hframed hignored hnew] at hrun
      cases hrun
      exact ⟨_, beginTag_rejected h.lenient_right hreceiver' hframed' hignored'
        (hframe.symm.trans hnew),
        hskipped rfl (h.report.withDraft (sketch_skipping h.draft))⟩
    | ok frame =>
      rw [beginTag_accepted hreceiver hframed hignored hnew rfl] at hrun
      rw [beginTag_accepted hreceiver' hframed' hignored' (hframe.symm.trans hnew) rfl]
      have htwin := (h.log 3 (openingLine name frame) (openingLine name frame)).withDraft
        (@sketch_holdingFrame extra _ _ (given.getD (.ofList received)) frame
          (given'.getD (.ofList received')) h.draft)
      rcases hsuits with ⟨hsame, rfl⟩ | ⟨hkind, hopen, htrims⟩
      · rw [append_nil]
        rw [hsame] at htwin ⊢
        exact completeTop_tied.run htwin hrun
      · rw [(newFrame_ok hnew).view hkind] at hrun htwin ⊢
        have hdone := completeTop_trims htwin rfl htrims rfl hrun hopen
        exact hdone

end Start

/-! ### Closing a tag -/

section

variable (options : Options) (frame : Frame)

theorem closeSlot_tied : SelfTied true (closeSlot options frame) := by
  refine .bind (.of_change (fun _ => rfl) fun _ _ => rfl) fun _ => ?_
  refine .read fun extra w v h => ?_
  have hbuffer : w.draft.buffer = v.draft.buffer := by
    rw [← w.draft.buffer_sketch, ← v.draft.buffer_sketch]
    exact (congrArg (·.draft.buffer) h :)
  dsimp only
  rw [hbuffer]
  split
  · split
    · exact .of_buffer
    · exact .of_raise
  · exact .of_pure

theorem addCallbacks_tied :
    SelfTied raises (addCallbacks options frame) := by
  unfold addCallbacks
  dsimp only
  split
  · exact .of_defect
  · next callbacks _ =>
    have hrest : SelfTied raises (do
        modify fun w => { w with callbacks := w.callbacks ++ callbacks.declarations }
        append callbacks.attach : Step Unit) :=
      .bind (.of_change (fun _ => rfl) fun _ _ => rfl) fun _ => .of_append
    split
    · exact hrest
    · exact .bind .of_log fun _ => hrest

theorem closeView_tied : SelfTied true (closeView options frame) := by
  unfold closeView
  split
  · exact .of_raise
  · exact .bind .of_append fun _ => addCallbacks_tied _ _

theorem closeTop_tied : SelfTied true (closeTop options frame) := by
  unfold closeTop
  split
  · split
    · exact closeSlot_tied _ _
    · exact closeView_tied _ _
  · refine .bind .of_append fun _ => .of_draft fun extra d => ?_
    rw [d.buffer_sketch]
    exact d.sketch_modifyBelow fun _ below => below.sketch_modifyBuffer
  · exact .of_append
  · exact .of_append
  · exact .of_pure
  · exact .of_pure
  · refine .bind .of_append fun _ => .of_draft fun extra d => ?_
    have hsplice : ((d.sketch extra).parent?.map fun p => (p.splice : Int)) =
        d.parent?.map fun p => (p.splice : Int) := by
      rw [Draft.parent?_sketch, Option.map_map]
      rfl
    rw [d.buffer_sketch, hsplice]
    exact d.sketch_modifyBelow fun _ below => below.sketch_modifyBuffer

end

/-- Two frames with one sketch are closed alike, unless only one of them has mixed slot content with
other tags. -/
theorem closeTop_congr {n : Nat} (h : frame.sketch 0 = frame'.sketch n)
    (hmixes : frame.mixes = frame'.mixes) : closeTop options frame = closeTop options frame' := by
  obtain ⟨attributes, nestedCount, hsame⟩ : ∃ attributes nestedCount,
      frame = { frame' with attributes, nestedCount } :=
    ⟨frame.attributes, frame.nestedCount, (congrArg (fun sketched : Frame =>
      { sketched with attributes := frame.attributes, nestedCount := frame.nestedCount }) h :)⟩
  have hview : closeView options frame = closeView options frame' := by
    unfold closeView
    rw [show (frame.holdsSlots && decide (frame.nestedCount > 1)) = frame'.mixes from hmixes, hsame]
    rfl
  unfold closeTop
  rw [hview, hsame]
  rfl

theorem endTop_tied (options : Options) (frame : Frame) :
    SelfTied false (endTop options frame) :=
  .recovering (closeTop_tied options frame) .of_pure

section

variable (h : Twin extra causes w v)
include h

/-- A frame on top of the first of two twins, and the frame on top of the other. -/
theorem Twin.top (hdraft : w.draft = d.push frame) :
    ∃ d' frame', v.draft = Draft.push d' frame' ∧
      d.sketch [] = d'.sketch extra.tail ∧ frame.sketch 0 = frame'.sketch (extra.headD 0) := by
  have hsketch := h.draft
  rw [hdraft] at hsketch
  rcases v.draft.eq_push_or_frames_nil with hnil | ⟨frame', d', hdraft'⟩
  · have hempty := (congrArg (·.frames.isEmpty) hsketch :)
    rw [Draft.isEmpty_sketch, Draft.isEmpty_sketch, hnil] at hempty
    cases hempty
  · rw [hdraft', Draft.sketch_push, Draft.sketch_push] at hsketch
    obtain ⟨hd, hframe⟩ := Draft.push_inj hsketch
    exact ⟨d', frame', hdraft', hd, hframe⟩

/-- The frame on top goes from both of two twins. -/
theorem pop_twin (hreceiver : w.receiver = .nobody) (hdraft : w.draft = d.push frame)
    (hrun : pop w = .ok () u) : ∃ t, pop v = .ok () t ∧ Twin extra.tail causes u t := by
  obtain ⟨d', frame', hdraft', hd, hframe⟩ := h.top hdraft
  obtain ⟨trace, hpop⟩ := exists_pop_eq hdraft
  obtain ⟨trace', hpop'⟩ := exists_pop_eq hdraft'
  have hbuffer : d.buffer = d'.buffer := by
    rw [← Draft.buffer_sketch d, hd, Draft.buffer_sketch]
  have hempty : d.frames.isEmpty = d'.frames.isEmpty := by
    rw [← Draft.isEmpty_sketch, hd, Draft.isEmpty_sketch]
  have hplaced : frame.placed = frame'.placed := (congrArg Frame.placed hframe :)
  have hown : Draft.ownNodes frame = Draft.ownNodes frame' := (congrArg Draft.ownNodes hframe :)
  have hignored : frame.ignored = frame'.ignored := (congrArg Frame.ignored hframe :)
  have hrest (b : List Fragment) : ((d.modifyTop shut).setBuffer b).sketch [] =
      ((d'.modifyTop shut).setBuffer b).sketch extra.tail := by
    rw [Draft.setBuffer, Draft.setBuffer, Draft.sketch_modifyBuffer, Draft.sketch_modifyBuffer,
      Draft.sketch_modifyTop d fun _ _ => rfl, Draft.sketch_modifyTop d' fun _ _ => rfl, hd]
  rw [hreceiver, hplaced, hown, hignored, hbuffer, hempty] at hpop
  rw [← h.receiver, hreceiver] at hpop'
  cases hpop.symm.trans hrun
  refine ⟨_, hpop', ?_, h.lenient, h.reports⟩
  show ({ w.sketch [] with
    draft := Draft.sketch [] _, receiver := .nobody
    initialized := (w.sketch []).initialized || _ } : Walk) = _
  rw [h.sketch, hrest]
  rfl

/-- The tag on top ends alike in twins. -/
theorem closeTag_twin (hreceiver : w.receiver = .nobody)
    (hframed : Framed name w) (hdraft : w.draft = d.push frame) (hcloses : Closes name frame)
    (hmixes : ∀ frame', frame.sketch 0 = frame'.sketch (extra.headD 0) → frame'.ignored = false →
      v.draft.frames.head? = some frame' → frame.mixes = frame'.mixes)
    (hrun : closeTag options name w = .ok () u) :
    ∃ t, closeTag options name v = .ok () t ∧ Twin extra.tail causes u t := by
  obtain ⟨d', frame', hdraft', hd, hframe⟩ := h.top hdraft
  have hframed' := h.framed hframed
  have hcloses' : Closes name frame' :=
    ⟨((congrArg Frame.fullName hframe :) : frame.fullName = _).symm.trans hcloses.fullName,
      ((congrArg Frame.hasOpenChild hframe :) : frame.hasOpenChild = _).symm.trans
        hcloses.hasOpenChild⟩
  have hignored : frame.ignored = frame'.ignored := (congrArg Frame.ignored hframe :)
  rw [closeTag_closes hframed hdraft hcloses, hignored] at hrun
  rw [closeTag_closes hframed' hdraft' hcloses']
  cases hleft : frame'.ignored with
  | true =>
    rw [hleft] at hrun
    exact pop_twin h hreceiver hdraft hrun
  | false =>
    rw [hleft, if_neg Bool.false_ne_true] at hrun
    obtain ⟨_, ended, hended, hrun⟩ := bind_eq_ok hrun
    obtain ⟨t, ht, htwin⟩ := (endTop_tied options frame).run h hended
    -- closing the tag leaves the frame on top, and nobody receives attributes
    have houtline := (endTop_composed outline_apart.toAloof options frame).keeps_ok outline_deaf hended
    have hstances := (endTop_composed stances_apart.toAloof options frame).keeps_ok
      (fun _ _ => rfl) hended
    have hnobody : ended.receiver = .nobody := by
      have hsame : isNobody ended.receiver = isNobody w.receiver := congrArg Prod.fst houtline
      rw [hreceiver] at hsame
      exact nobody_of_isNobody hsame
    have hsame : endTop options frame' = endTop options frame := by
      unfold endTop
      rw [closeTop_congr hframe (hmixes frame' hframe hleft (by rw [hdraft']; rfl))]
    rw [if_neg Bool.false_ne_true, hsame, bind_ok ht]
    rcases ended.draft.eq_push_or_frames_nil with hnil | ⟨top, below, hpush⟩
    · rw [stances, stances, Draft.stances, Draft.stances, hnil, hdraft] at hstances
      cases hstances
    · exact pop_twin htwin hnobody hpush hrun

/-- The end of a tag without a frame is alike in twins. -/
theorem closeTag_unframed_twin (hframed : ¬ Framed name w)
    (hrun : closeTag options name w = .ok () u) :
    ∃ t, closeTag options name v = .ok () t ∧ Twin extra causes u t := by
  cases hname : Name.isPlatform name with
  | true =>
    rw [closeTag_platform hname, h.suppressed] at hrun
    cases hrun
    exact ⟨_, closeTag_platform hname, h.suppress⟩
  | false =>
    have hsuppressed : w.suppressed ≠ 0 := fun hzero => hframed ⟨hname, hzero⟩
    rw [closeTag_hushed hname hsuppressed] at hrun
    cases hrun
    exact ⟨v, closeTag_hushed hname (h.suppressed ▸ hsuppressed), h⟩

end

theorem finish_tied : SelfTied false finish := by
  refine .read fun extra w v h => ?_
  rw [show w.initialized = v.initialized from (congrArg initialized h :)]
  split
  · exact .of_pure
  · exact .of_report

end Walk

end ViewMarkup
