import ViewMarkup.Proofs.Binding.Callbacks
import ViewMarkup.Proofs.Walk.Nesting

/-!
# What makes a walk end without a report

In lenient mode a tag that is wrong is reported, and the walk goes on.  Two things end it all the
same, and both are a matter of one attribute: an escape in a binding that is out of range, and a
two-way binding that cannot be written back.

* `Faults` says which defects a step can have.
* `startTag_defect` and `closeTag_defect` are about the two ends of a tag.
-/

namespace ViewMarkup.Walk

variable {α β : Type} {options : Options} {name : Text} {attributes : AttributeMap} {frame : Frame}
  {w v : Walk} {Q : Defect → Prop} {e : Raised} {parent : Option Frame} {d : Defect}

/-- If the step has a defect, the defect has a property. -/
def Faults (Q : Defect → Prop) (m : Step α) : Prop :=
  ∀ w d v, m w = .error (.defect d) v → Q d

theorem faults_pure {a : α} : Faults Q (pure a) :=
  fun _ _ _ h => nomatch h

theorem Faults.bind {m : Step α} {k : α → Step β} (hm : Faults Q m) (hk : ∀ a, Faults Q (k a)) :
    Faults Q (m >>= k) := by
  intro w d v h
  cases hrun : m w with
  | ok a u => exact hk a u d v ((bind_ok hrun).symm.trans h)
  | error e u =>
    cases (bind_error hrun).symm.trans h
    exact hm w d v hrun

theorem faults_read {k : Walk → Step α} (hk : ∀ w, Faults Q (k w)) : Faults Q (get >>= k) :=
  fun w => hk w w

theorem faults_modify {f : Walk → Walk} : Faults Q (modify f : Step Unit) :=
  fun _ _ _ h => nomatch h

theorem faults_raise : Faults Q (throw (.raised e) : Step α) :=
  fun _ _ _ h => nomatch h

theorem faults_report : Faults Q (report e) := by
  refine faults_read fun w => ?_
  refine Faults.bind (m := set _) (fun _ _ _ h => nomatch h) fun _ => ?_
  split
  · exact faults_pure
  · exact faults_raise

/-- An error that is reported is no defect. -/
theorem Faults.recovering {m recover : Step Unit} (hm : Faults Q m) (hrecover : Faults Q recover) :
    Faults Q (tryCatch m (recovering recover)) := by
  intro w d v h
  cases hrun : m w with
  | ok a u => cases (tryCatch_ok hrun).symm.trans h
  | error failure u =>
    rw [tryCatch_error hrun] at h
    cases failure with
    | defect d' =>
      cases h
      exact hm w d v hrun
    | raised e => exact faults_report.bind (fun _ => hrecover) u d v h

/-! ### The start of a tag -/

/-- An attribute of a tag is a binding with an escape out of range. -/
def Overflows (options : Options) (name : Text) (attributes : AttributeMap)
    (pair : Text × Text) : Prop :=
  ∃ item, Element.item? options name attributes pair = some item ∧ item.isBinding = true ∧
    Binding.describe item = .error (.expression (.escape .outOfRange))

/-- What can be wrong with the start of a tag. -/
def StartDefect (options : Options) (name : Text) (attributes : AttributeMap) (d : Defect) : Prop :=
  d = .codePointOverflow ∧ ∃ pair ∈ attributes, Overflows options name attributes pair

theorem describe_faults {item : Attribute}
    (h : Binding.describe item = .error (.expression (.escape .outOfRange)) →
      Q .codePointOverflow) : Faults Q (describe item) := by
  unfold describe
  split
  · exact faults_modify.bind fun _ => faults_pure
  · next hdescribe =>
    intro w d v hrun
    cases hrun
    exact h hdescribe
  · exact faults_report.bind fun _ => faults_pure

theorem attributeItem_run {tagName : Text} {pair : Text × Text} :
    ∃ v, attributeItem options tagName attributes pair.1 pair.2 w =
      .ok (Element.item? options tagName attributes pair) v := by
  unfold attributeItem Element.item?
  cases Attribute.classify options tagName attributes pair.1 pair.2 <;> exact ⟨_, rfl⟩

theorem applyAttributes_faults {rest : AttributeMap}
    (h : ∀ pair ∈ rest, Overflows options frame.tagName frame.attributes pair →
      Q .codePointOverflow) : Faults Q (applyAttributes options frame rest) := by
  induction rest with
  | nil => exact faults_pure
  | cons pair rest ih =>
    obtain ⟨hpair, hrest⟩ := List.forall_mem_cons.mp h
    intro w d v hrun
    obtain ⟨u, hitem⟩ := attributeItem_run
    unfold applyAttributes at hrun
    rw [bind_ok hitem] at hrun
    cases hmeaning : Element.item? options frame.tagName frame.attributes pair with
    | none =>
      rw [hmeaning] at hrun
      exact ih hrest u d v hrun
    | some item =>
      rw [hmeaning] at hrun
      dsimp only at hrun
      cases hbinding : item.isBinding with
      | false =>
        rw [hbinding, if_neg Bool.false_ne_true] at hrun
        exact (ih hrest).bind (fun _ => faults_pure) u d v hrun
      | true =>
        rw [hbinding, if_pos rfl] at hrun
        refine Faults.bind (describe_faults fun hdescribe =>
          hpair ⟨item, hmeaning, hbinding, hdescribe⟩) (fun found => ?_) u d v hrun
        cases found with
        | none => exact ih hrest
        | some descriptor => exact faults_modify.bind fun _ => ih hrest

theorem declareModules_faults {declared : List (Text × Text)} :
    Faults Q (declareModules options declared) := by
  induction declared with
  | nil => exact faults_pure
  | cons item rest ih =>
    refine Faults.bind ?_ fun _ => ih
    refine faults_modify.bind fun _ => faults_modify.bind fun _ => faults_read fun w => ?_
    split
    · exact faults_pure
    · exact faults_modify.bind fun _ => faults_modify

theorem openView_faults
    (h : ∀ pair ∈ frame.attributes, Overflows options frame.tagName frame.attributes pair →
      Q .codePointOverflow) : Faults Q (openView options [] frame parent) := by
  refine Faults.bind (faults_read fun w => ?_) fun path => ?_
  · split
    · exact faults_pure
    · split
      · exact faults_pure
      · exact faults_raise
  refine declareModules_faults.bind fun _ => ?_
  refine Faults.bind (by rintro _ _ _ ⟨⟩) fun index => ?_
  refine Faults.bind ?_ fun _ => faults_modify.bind fun _ => ?_
  · unfold attach
    split
    · exact faults_modify
    · exact faults_modify.bind fun _ => faults_modify
  split
  · rintro _ _ _ ⟨⟩
  · refine Faults.bind ?_ fun statements => ?_
    · unfold startElement
      split <;> rintro _ _ _ ⟨⟩
    refine Faults.bind (applyAttributes_faults h) fun _ => ?_
    exact faults_modify.bind fun _ => faults_modify

theorem openUnder_faults (hparent : frame.kind ≠ .view → parent.isSome = true)
    (h : frame.kind = .view → ∀ pair ∈ frame.attributes,
      Overflows options frame.tagName frame.attributes pair → Q .codePointOverflow) :
    Faults Q (openUnder options [] frame false parent) := by
  unfold openUnder
  split
  · next hkind => exact openView_faults (h hkind)
  · exact faults_pure
  · exact faults_pure
  · next hview _ _ => cases hparent hview
  · exact faults_modify.bind fun _ => faults_modify
  · exact faults_modify.bind fun _ => faults_modify
  · split
    · exact faults_modify.bind fun _ => faults_modify
    · exact faults_raise
  · exact faults_modify

/-- **A defect at the start of a tag** is an escape out of range in one of its attributes. -/
theorem startTag_defect (hw : w.channel.strict = false) (hreceiver : w.receiver = .nobody)
    (h : startTag options name attributes w = .error (.defect d) v) :
    StartDefect options name attributes d := by
  have hbegins := @startTag_begins options name attributes w hw hreceiver
  rw [h] at hbegins
  generalize hresult : (EStateM.Result.error (.defect d) v :
    EStateM.Result Failure Walk Unit) = r at hbegins
  cases hbegins with
  | outside => cases hresult
  | skipped => cases hresult
  | @accepted frame s _ haccepted hcore _ =>
    have hdraft : s.draft = (w.draft.modifyTop entered).push { frame with attributes } :=
      (congrArg draft hcore :)
    have hrun : tryCatch (openUnder options [] { frame with attributes } false s.draft.parent?)
        (recovering (modifyTop fun f => { f with ignored := true })) s = .error (.defect d) v :=
      hresult.symm
    refine (openUnder_faults ?_ ?_).recovering faults_modify s d v hrun
    · -- Only a view can be without a parent.
      intro hkind
      rw [hdraft, Draft.parent?_push, Draft.head?_modifyTop]
      by_cases hview : Element.kindOf name = .view
      · rw [haccepted.view hview] at hkind
        exact absurd rfl hkind
      · obtain ⟨parent, hhead, _⟩ := haccepted.other hview
        rw [hhead]
        rfl
    · intro hkind pair hpair hoverflows
      rw [haccepted.view (haccepted.kind.symm.trans hkind)] at hoverflows
      exact ⟨rfl, pair, hpair, hoverflows⟩

/-! ### The end of a tag -/

/-- What can be wrong with the end of a tag. -/
def EndDefect (frame : Frame) (d : Defect) : Prop :=
  d = .unwritableTarget ∧ ∃ descriptor ∈ frame.descriptors, Binding.Unwritable descriptor

theorem closeTop_faults : Faults (EndDefect frame) (closeTop options frame) := by
  unfold closeTop
  split
  · split
    · refine faults_modify.bind fun _ => faults_read fun w => ?_
      dsimp only
      split
      · split
        · exact faults_modify
        · exact faults_raise
      · exact faults_pure
    · unfold closeView
      split
      · exact faults_raise
      · unfold addCallbacks
        dsimp only
        split
        · next hnone =>
          intro w d v hrun
          cases hrun
          exact ⟨rfl, Binding.callbacks?_eq_none hnone⟩
        · split
          · exact faults_modify.bind fun _ => faults_modify
          · exact faults_modify.bind fun _ => faults_modify.bind fun _ => faults_modify
  · exact faults_modify.bind fun _ => faults_modify
  · exact faults_modify
  · exact faults_modify
  · exact faults_pure
  · exact faults_pure
  · exact faults_modify.bind fun _ => faults_modify

theorem pop_faults : Faults Q pop := by
  refine faults_read fun w => ?_
  split
  · exact faults_pure
  · refine faults_modify.bind fun _ => ?_
    split
    · split
      · exact faults_pure
      · exact faults_modify.bind fun _ => faults_modify
    · exact faults_modify

/-- **A defect at the end of a tag** is one of its bindings that cannot be written back. -/
theorem closeTag_defect (h : closeTag options name w = .error (.defect d) v) :
    ∃ frame ∈ w.draft.frames, EndDefect frame d := by
  cases hname : Name.isPlatform name with
  | true =>
    rw [closeTag_platform hname] at h
    cases h
  | false =>
    by_cases hsuppressed : w.suppressed = 0
    · rw [closeTag_eq ⟨hname, hsuppressed⟩] at h
      cases hhead : w.draft.frames.head? with
      | none =>
        rw [hhead] at h
        cases h
      | some frame =>
        refine ⟨frame, List.mem_of_head? hhead, ?_⟩
        rw [hhead] at h
        dsimp only at h
        split at h
        · split at h
          · exact pop_faults w d v h
          · exact (closeTop_faults.recovering faults_pure).bind (fun _ => pop_faults) w d v h
        · cases h
    · rw [closeTag_hushed hname hsuppressed] at h
      cases h

end ViewMarkup.Walk
