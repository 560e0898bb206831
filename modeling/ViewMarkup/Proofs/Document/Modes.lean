import ViewMarkup.Document
import ViewMarkup.Proofs.Walk.Modes

/-!
# Strict and lenient compilation

Options that differ only in the mode compile a document alike up to the first error.

* `firstError?` finds the first error among reports, with the reports before it.
* `walk_compared` compares the walks over a document.
* `compile_strict_eq` says what the strict compilation of a document comes to, given the lenient
  one.
-/

namespace ViewMarkup

open List
open Walk (Calm Compared Agree harden final)

/-- The first error among reports, with the reports before it. -/
def firstError? : List Report → Option (List Report × Cause × Option SourceRange)
  | [] => none
  | .error cause range :: _ => some ([], cause, range)
  | .warning message range :: rest =>
    (firstError? rest).map fun (before, found) => (.warning message range :: before, found)

theorem firstError?_calm {reports : List Report} (h : Calm reports) : firstError? reports = none := by
  induction reports with
  | nil => rfl
  | cons report rest ih =>
    cases report with
    | error cause range => cases h _ mem_cons_self
    | warning message range =>
      rw [firstError?, ih fun r hr => h r (mem_cons_of_mem _ hr)]
      rfl

theorem firstError?_append {before after : List Report} {cause : Cause}
    {range : Option SourceRange} (h : Calm before) :
    firstError? (before ++ .error cause range :: after) = some (before, cause, range) := by
  induction before with
  | nil => rfl
  | cons report rest ih =>
    cases report with
    | error cause range => cases h _ mem_cons_self
    | warning message range =>
      rw [cons_append, firstError?, ih fun r hr => h r (mem_cons_of_mem _ hr)]
      rfl

/-! ### No step of a walk looks at the mode in the options -/

namespace Walk

variable (options : Options) (strict : Bool) {frame : Frame} {beside : List Frame}

theorem applyAttributes_mode (attributes : AttributeMap) :
    applyAttributes { options with strict } frame attributes =
      applyAttributes options frame attributes := by
  induction attributes with
  | nil => rfl
  | cons item rest ih =>
    unfold applyAttributes
    rw [ih]
    rfl

theorem declareModules_mode (declared : List (Text × Text)) :
    declareModules { options with strict } declared = declareModules options declared := by
  induction declared with
  | nil => rfl
  | cons item rest ih =>
    unfold declareModules
    rw [ih]
    rfl

theorem openElement_mode (path : Option Text) (isFallback : Bool) :
    openElement { options with strict } frame path isFallback =
      openElement options frame path isFallback := by
  unfold openElement
  rw [applyAttributes_mode]
  rfl

theorem openView_mode (parent : Option Frame) :
    openView { options with strict } beside frame parent = openView options beside frame parent := by
  unfold openView
  simp only [declareModules_mode, openElement_mode]
  rfl

theorem openTop_mode (isClosed : Bool) : openTop { options with strict } beside frame isClosed =
      openTop options beside frame isClosed := by
  unfold openTop openUnder
  simp only [openView_mode]

theorem completeTag_mode (attributes : Option AttributeMap) :
    completeTag { options with strict } attributes = completeTag options attributes := by
  unfold completeTag completeReceiver completeTop
  simp only [openTop_mode]

end Walk

namespace Document

variable {events : List Xml.Event} {misread : Xml.Misread}

section

variable (options : Options) (strict : Bool)

theorem tag_mode (event : Xml.Event) : tag { options with strict } event = tag options event := by
  cases event with
  | startTag offset name attributes =>
    simp only [tag, Walk.completeTag_mode]
    rfl
  | endTag offset name => rfl

theorem tags_mode : tags { options with strict } events = tags options events := by
  induction events with
  | nil => rfl
  | cons event rest ih =>
    unfold tags
    rw [tag_mode, ih]

theorem walk_mode (content : Text) :
    walk { options with strict } content = walk options content := by
  unfold walk
  simp only [tags_mode]

end

/-! ### Walks over documents -/

section Walks

variable {options : Options} {content : Text} {w : Walk}

theorem setCursor_agree {offset : Nat} (hw : w.channel.strict = false) :
    Agree false w (setCursor offset) (setCursor offset) := by
  obtain ⟨draft, receiver, treeIndex, suppressed, inSlotFallback, initialized, callbacks,
    registrations, customModules, registeredPaths, usedTags, paths, ⟨strict, origin, reports, trace⟩⟩
    := w
  cases origin <;> exact .of_modify rfl hw (append_nil _).symm Walk.calm_nil

theorem setAttributes_agree {attributes : AttributeMap} (hw : w.channel.strict = false) :
    Agree false w (setAttributes attributes) (setAttributes attributes) := by
  induction attributes generalizing w with
  | nil => exact .of_pure hw
  | cons item rest ih =>
    exact ((Walk.setAttribute_composed Walk.outline_remote).agree w hw).bind fun _ _ => ih

theorem tag_agree (event : Xml.Event) (hw : w.channel.strict = false) :
    Agree false w (tag options event) (tag options event) := by
  cases event with
  | startTag offset name attributes =>
    refine (setCursor_agree hw).bind fun _ u hu => ?_
    refine ((Walk.event_composed options (.openTag name)).agree u hu).bind fun _ v hv => ?_
    refine (setAttributes_agree hv).bind fun _ => ?_
    exact (Walk.completeTag_composed options (some attributes)).agree
  | endTag offset name =>
    exact (setCursor_agree hw).bind fun _ => (Walk.event_composed options (.closeTag name)).agree

theorem tags_agree (hw : w.channel.strict = false) :
    Agree false w (tags options events) (tags options events) := by
  induction events generalizing w with
  | nil => exact .of_pure hw
  | cons event rest ih => exact (tag_agree event hw).bind fun _ _ => ih

/-- The range of a fault in the text of a document. -/
def faultRange (misread : Xml.Misread) : SourceRange :=
  let position : Position := ⟨misread.mark.line, misread.mark.column + 1⟩
  ⟨position, position⟩

/-- A fault in the text is recorded and raised in either mode. -/
theorem raiseFault_eq : raiseFault misread w =
      .error (.raised ⟨.malformed misread.fault, some (faultRange misread), true⟩)
        { w with channel :=
          w.channel.record (.error (.malformed misread.fault) (some (faultRange misread))) } := by
  unfold raiseFault
  have hfatal : ∀ strict : Bool, (strict || true) = true := Bool.or_true
  simp only [Channel.notify, Bool.false_eq_true, if_false, hfatal, if_true]
  rfl

theorem raiseFault_compared :
    Compared w.channel.reports (raiseFault misread w) (raiseFault misread (harden w)) := by
  rw [raiseFault_eq, raiseFault_eq]
  refine .stopped [] [] ?_ Walk.calm_nil ?_
  · rw [append_nil]
    rfl
  · rw [append_nil]
    rfl

/-- **The walks over a document compare.** -/
theorem walk_compared (hw : w.channel.strict = false) :
    Compared w.channel.reports (walk options content w) (walk options content (harden w)) := by
  unfold walk
  rcases Xml.read containerName content with ⟨events, misread⟩
  refine (tags_agree hw).compared.bind fun _ v hv => ?_
  have hlenient : v.channel.strict = false := by
    have h : (final (tags options events w)).channel.strict = false := (tags_agree hw).lenient
    rwa [hv] at h
  cases misread with
  | none => exact ((Walk.event_composed options .finish).agree v hlenient).compared
  | some misread =>
    refine raiseFault_compared.bind fun _ u hu => ?_
    rw [raiseFault_eq] at hu
    cases hu

/-- A lenient walk over a document that succeeds stays lenient, and an error that ends one has been
reported. -/
theorem walk_lenient (hw : w.channel.strict = false) :
    (∀ v, walk options content w = .ok () v → v.channel.strict = false) ∧
      ∀ e v, walk options content w = .error (.raised e) v → ¬ Calm v.channel.reports := by
  unfold walk
  generalize Xml.read containerName content = reading
  obtain ⟨events, misread⟩ := reading
  dsimp only
  have htags : Agree false w (tags options events) (tags options events) := tags_agree hw
  cases hrun : tags options events w with
  | error failure u =>
    rw [Walk.bind_error hrun]
    refine ⟨fun v h => (nomatch h), fun e v h => ?_⟩
    cases h
    cases (htags.fresh e u hrun).1
  | ok _ u =>
    rw [Walk.bind_ok hrun]
    have hu := htags.lenient
    rw [hrun] at hu
    cases misread with
    | none =>
      have hfinish := (Walk.event_composed options .finish).agree u hu
      refine ⟨fun v h => ?_, fun e v h => ?_⟩
      · have hv := hfinish.lenient
        rw [show Walk.event options .finish u = .ok () v from h] at hv
        exact hv
      · cases (hfinish.fresh e v h).1
    | some misread =>
      have hfault : (do raiseFault misread; Walk.finish : Walk.Step Unit) u = _ :=
        Walk.bind_error raiseFault_eq
      refine ⟨fun v h => (nomatch hfault.symm.trans h), fun e v h => ?_⟩
      cases hfault.symm.trans h
      intro hcalm
      cases hcalm _ (mem_append_right _ (mem_singleton_self _))

end Walks

/-! ### Documents -/

theorem assemble_composed (options : Options) :
    Walk.Composed (fun _ => ()) false (Module.assemble options) := by
  refine .read (fun _ _ => rfl) fun w => ?_
  refine .bind (.log _ _) fun _ => ?_
  dsimp only
  split
  · exact .defect _
  · exact .pure _

theorem assemble_compared (options : Options) {w : Walk} (hw : w.channel.strict = false) :
    Compared w.channel.reports ((some <$> Module.assemble options) w)
      ((some <$> Module.assemble options) (harden w)) := by
  rw [map_eq_pure_bind]
  have hassemble := (assemble_composed options).agree w hw
  exact (hassemble.bind fun module v hv => .of_pure hv).compared

/-- What comes of two walks compares as they do. -/
theorem conclude_compared {options : Options} {r s : EStateM.Result Failure Walk Unit}
    (h : Compared [] r s) (hlenient : ∀ v, r = .ok () v → v.channel.strict = false)
    (hraised : ∀ e v, r = .error (.raised e) v → ¬ Calm v.channel.reports) :
    Compared [] (conclude { options with strict := false } r)
      (conclude { options with strict := true } s) := by
  cases h with
  | @same new hreports hcalm =>
    cases r with
    | error failure w =>
      cases failure with
      | raised e =>
        exact absurd (hreports ▸ hcalm) (hraised e w rfl)
      | defect d => exact .same hreports hcalm
    | ok _ w =>
      have hassemble := assemble_compared options (hlenient w rfl)
      rw [show w.channel.reports = [] ++ new from hreports] at hassemble
      show Compared [] (if w.initialized then _ else _) (if w.initialized then _ else _)
      split
      · exact hassemble.earlier hcalm
      · exact .same hreports hcalm
  | stopped before after hreports hcalm hstop =>
    have hgrows : ∃ new, (final (conclude { options with strict := false } r)).channel.reports =
        (final r).channel.reports ++ new := by
      cases r with
      | error failure w => cases failure <;> exact ⟨[], (append_nil _).symm⟩
      | ok _ w =>
        show ∃ new, (final (if w.initialized then _ else _)).channel.reports = _ ++ new
        split
        · exact (assemble_compared options (hlenient w rfl)).grows
        · exact ⟨[], (append_nil _).symm⟩
    exact .later hreports hcalm hstop hgrows

theorem outcome_compared {r s : EStateM.Result Failure Walk (Option Module)} (h : Compared [] r s) :
    ((outcome s).1, (outcome s).2.reports) = match firstError? (outcome r).2.reports with
      | none => ((outcome r).1, (outcome r).2.reports)
      | some (before, cause, range) =>
        (.error (.raised ⟨cause, range, true⟩), before ++ [.error cause range]) := by
  have hfinal : (outcome r).2.reports = (final r).channel.reports := by
    cases r <;> rfl
  cases h with
  | @same new hreports hcalm =>
    have hnone : firstError? (final r).channel.reports = none := by
      rw [hreports]
      exact firstError?_calm hcalm
    rw [hfinal, hnone]
    cases r <;> rfl
  | stopped before after hreports hcalm hstop =>
    rw [hfinal, hreports, nil_append, firstError?_append hcalm]
    simp only [outcome, hstop, nil_append]

/-- **The modes agree up to the first error.**  Without an error among the reports of the lenient
compilation, the strict compilation comes to the same and has the same reports.  Otherwise it raises
the first error, with the same cause and at the same place, and its reports are those up to this
error, each of them once. -/
theorem compile_strict_eq (options : Options) (content : Text) :
    let lenient := compile { options with strict := false } content
    let strict := compile { options with strict := true } content
    (strict.1, strict.2.reports) =
      match firstError? lenient.2.reports with
      | none => (lenient.1, lenient.2.reports)
      | some (before, cause, range) =>
        (.error (.raised ⟨cause, range, true⟩), before ++ [.error cause range]) := by
  intro lenient strict
  by_cases hraw : isRaw content
  · -- Nothing is walked over, and nothing is reported.
    simp only [lenient, strict, compile, if_pos hraw]
    cases Module.ofRawText content <;> rfl
  · simp only [lenient, strict, compile, if_neg hraw, walk_mode]
    have hwalk : Compared [] (walk options content (startWalk { options with strict := false } content))
        (walk options content (startWalk { options with strict := true } content)) :=
      walk_compared (w := startWalk { options with strict := false } content) rfl
    obtain ⟨hlenient, hraised⟩ := walk_lenient (w := startWalk { options with strict := false } content) rfl
    exact outcome_compared (conclude_compared hwalk hlenient hraised)

end Document

end ViewMarkup
