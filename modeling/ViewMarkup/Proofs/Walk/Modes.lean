import ViewMarkup.Proofs.Walk.Composed

/-!
# Strict and lenient steps

A strict walk and a lenient walk do the same until the first error is reported.  The lenient walk
then goes on; the strict walk raises the error, and nothing that catches it on its way out reports
it a second time.

* `Compared` relates what a lenient step comes to with what the same step comes to in strict mode:
  either no error has been reported and they are the same, or the strict one has stopped at the
  first error that the lenient one has reported.
* `Composed.agree` shows this for every composed step.
* `Agree.bind` carries it along a sequence of steps.
-/

namespace ViewMarkup.Walk

open List
open EStateM (Result)

variable {α β : Type} {base new : List Report} {w v : Walk} {r : Result Failure Walk α} {m : Step α}
  {f : Walk → Walk} {e : Raised} {a : α} {cause : Cause} {range : Option SourceRange}

/-- The walk in strict mode. -/
def harden (w : Walk) : Walk :=
  { w with channel := { w.channel with strict := true } }

/-- The walk in lenient mode. -/
def soften (w : Walk) : Walk :=
  { w with channel := { w.channel with strict := false } }

theorem harden_strict (hw : w.channel.strict = true) : harden w = w := by
  obtain ⟨draft, receiver, treeIndex, suppressed, inSlotFallback, initialized, callbacks,
    registrations, customModules, registeredPaths, usedTags, paths, channel⟩ := w
  cases channel
  cases hw
  rfl

theorem soften_lenient (hw : w.channel.strict = false) : soften w = w := by
  obtain ⟨draft, receiver, treeIndex, suppressed, inSlotFallback, initialized, callbacks,
    registrations, customModules, registeredPaths, usedTags, paths, channel⟩ := w
  cases channel
  cases hw
  rfl

/-- There is no error among the reports. -/
def Calm (reports : List Report) : Prop :=
  ∀ report ∈ reports, report.isError = false

theorem calm_nil : Calm [] :=
  fun _ h => nomatch h

theorem Calm.append {first rest : List Report} (hfirst : Calm first) (hrest : Calm rest) :
    Calm (first ++ rest) :=
  fun report h => (mem_append.mp h).elim (hfirst report) (hrest report)

/-- What a lenient step comes to, and what it comes to in strict mode, given the reports before. -/
inductive Compared (base : List Report) (r : Result Failure Walk α) : Result Failure Walk α → Prop
  /-- No error has been reported, and the mode makes no difference. -/
  | same {new : List Report} (hreports : (final r).channel.reports = base ++ new)
      (hcalm : Calm new) : Compared base r (afterwards harden r)
  /-- An error has been reported, and the strict walk has stopped at the first one. -/
  | stopped (before after : List Report) {cause : Cause} {range : Option SourceRange} {s : Walk}
      (hreports : (final r).channel.reports = base ++ before ++ .error cause range :: after)
      (hcalm : Calm before)
      (hstop : s.channel.reports = base ++ before ++ [.error cause range]) :
      Compared base r (.error (.raised ⟨cause, range, true⟩) s)

/-- Reports are only added. -/
theorem Compared.grows {s : Result Failure Walk α} (h : Compared base r s) :
    ∃ new, (final r).channel.reports = base ++ new := by
  cases h with
  | same hreports => exact ⟨_, hreports⟩
  | stopped before after hreports => exact ⟨_, hreports.trans (append_assoc _ _ _)⟩

/-- A step that succeeds in strict mode succeeds in lenient mode, and comes to the same. -/
theorem Compared.of_ok (h : Compared base r (.ok a v)) : ∃ u, r = .ok a u ∧ v = harden u := by
  generalize hs : (.ok a v : Result Failure Walk α) = s at h
  cases h with
  | stopped => cases hs
  | same =>
    cases r with
    | error e u => cases hs
    | ok b u =>
      cases hs
      exact ⟨u, rfl, rfl⟩

/-- Reports that are no errors may be counted as having been there before. -/
theorem Compared.earlier {s : Result Failure Walk α} (h : Compared (base ++ new) r s)
    (hnew : Calm new) : Compared base r s := by
  cases h with
  | same hreports hcalm =>
    exact .same (hreports.trans (append_assoc _ _ _)) (hnew.append hcalm)
  | stopped before after hreports hcalm hstop =>
    refine .stopped (new ++ before) after ?_ (hnew.append hcalm) ?_
    · rw [hreports, ← append_assoc]
    · rw [hstop, ← append_assoc]

/-- Once the strict walk has stopped, whatever the lenient walk goes on to report comes after. -/
theorem Compared.later {r' : Result Failure Walk β} {s : Walk} {before after : List Report}
    (hreports : (final r).channel.reports = base ++ before ++ .error cause range :: after)
    (hcalm : Calm before) (hstop : s.channel.reports = base ++ before ++ [.error cause range])
    (hgrows : ∃ new, (final r').channel.reports = (final r).channel.reports ++ new) :
    Compared base r' (.error (.raised ⟨cause, range, true⟩) s) := by
  obtain ⟨new, hnew⟩ := hgrows
  refine .stopped before (after ++ new) ?_ hcalm hstop
  rw [hnew, hreports, append_assoc, cons_append]

/-- Results of two steps in a row compare as the steps do. -/
theorem Compared.bind {m' : Step α} {f f' : α → Step β}
    (hm : Compared w.channel.reports (m w) (m' (harden w)))
    (hf : ∀ a v, m w = .ok a v → Compared v.channel.reports (f a v) (f' a (harden v))) :
    Compared w.channel.reports ((m >>= f) w) ((m' >>= f') (harden w)) := by
  generalize hstrict : m' (harden w) = s at hm
  cases hw : m w with
  | error e v =>
    rw [bind_error hw]
    rw [hw] at hm
    cases hm with
    | same hreports hcalm =>
      rw [bind_error hstrict]
      exact .same hreports hcalm
    | stopped before after hreports hcalm hstop =>
      rw [bind_error hstrict]
      exact .stopped before after hreports hcalm hstop
  | ok a v =>
    rw [bind_ok hw]
    rw [hw] at hm
    have hrest := hf a v hw
    cases hm with
    | same hreports hcalm =>
      rw [bind_ok hstrict]
      rw [show v.channel.reports = _ from hreports] at hrest
      exact hrest.earlier hcalm
    | stopped before after hreports hcalm hstop =>
      rw [bind_error hstrict]
      exact .later (r := .ok a v) hreports hcalm hstop hrest.grows

/-- A change of the walks at the end that does not concern their channels makes no difference. -/
theorem Compared.afterwards {s : Result Failure Walk α} (h : Compared base r s)
    (hf : ∀ v, f (harden v) = harden (f v)) (hchannel : ∀ v, (f v).channel = v.channel) :
    Compared base (afterwards f r) (afterwards f s) := by
  cases h with
  | @same new hreports hcalm =>
    have hcomm : Walk.afterwards f (Walk.afterwards harden r) =
        Walk.afterwards harden (Walk.afterwards f r) := by
      cases r <;> simp only [Walk.afterwards, hf]
    rw [hcomm]
    refine .same ?_ hcalm
    rw [final_afterwards, hchannel, hreports]
  | stopped before after hreports hcalm hstop =>
    refine .stopped before after ?_ hcalm ?_
    · rw [final_afterwards, hchannel, hreports]
    · rw [hchannel, hstop]

theorem afterwards_eq_error {e : Failure} (h : afterwards f r = .error e v) :
    ∃ u, r = .error e u := by
  cases r with
  | ok a u => cases h
  | error e' u =>
    cases h
    exact ⟨u, rfl⟩

/-- A lenient step from a walk agrees with a strict step from the hardened walk.  An error that the
lenient step raises, if it may raise one, has not been reported. -/
structure Agree (raises : Bool) (w : Walk) (m m' : Step α) : Prop where
  lenient : (final (m w)).channel.strict = false
  fresh : ∀ e v, m w = .error (.raised e) v → raises = true ∧ e.reported = false
  compared : Compared w.channel.reports (m w) (m' (harden w))

/-! ### Reporting an error -/

/-- The place that a channel gives an error, and the channel after the error has been recorded. -/
def recordError (channel : Channel) (e : Raised) : Option SourceRange × Channel :=
  let place := match e.range with
    | some range => (some range, channel.origin)
    | none => channel.origin.range
  (place.1, { channel with origin := place.2 }.record (.error e.cause place.1))

theorem notify_unreported {channel : Channel} (he : e.reported = false) : channel.notify e false =
      (if channel.strict then .raised ⟨e.cause, (recordError channel e).1, true⟩
        else .recorded ⟨e.cause, (recordError channel e).1, false⟩, (recordError channel e).2) := by
  unfold Channel.notify recordError
  rw [he, if_neg Bool.false_ne_true]
  cases e.range <;> cases channel.strict <;>
    simp only [Channel.record, Channel.log, Bool.or_false, if_true, Bool.false_eq_true,
      if_false]

theorem report_lenient (he : e.reported = false) (hw : w.channel.strict = false) :
    report e w = .ok () { w with channel := (recordError w.channel e).2 } := by
  unfold report
  rw [get_bind, notify_unreported he, hw, if_neg Bool.false_ne_true]
  rfl

theorem report_strict (he : e.reported = false) (hw : w.channel.strict = true) :
    report e w = .error (.raised ⟨e.cause, (recordError w.channel e).1, true⟩)
      { w with channel := (recordError w.channel e).2 } := by
  unfold report
  rw [get_bind, notify_unreported he, hw, if_pos rfl]
  rfl

/-- An error that has been reported is raised again as it is. -/
theorem report_reported (he : e.reported = true) : report e w = .error (.raised e) w := by
  unfold report
  rw [get_bind, Channel.notify, he, if_pos rfl]
  rfl

theorem recovering_reported {recover : Step Unit} :
    recovering recover (.raised ⟨cause, range, true⟩) w = .error (.raised ⟨cause, range, true⟩) w :=
  bind_error (report_reported rfl)

namespace Agree

variable {raises : Bool}

/-- What a lenient step does after another keeps its agreement with a strict walk that has gone as
far, or has stopped. -/
theorem bind {m' : Step α} {f f' : α → Step β} (hm : Agree raises w m m')
    (hf : ∀ a v, v.channel.strict = false → Agree raises v (f a) (f' a)) :
    Agree raises w (m >>= f) (m' >>= f') := by
  have hrest : ∀ a v, m w = .ok a v → Agree raises v (f a) (f' a) := by
    intro a v hw
    have hv := hm.lenient
    rw [hw] at hv
    exact hf a v hv
  refine ⟨?_, ?_, hm.compared.bind fun a v hw => (hrest a v hw).compared⟩
  · cases hw : m w with
    | ok a v =>
      rw [bind_ok hw]
      exact (hrest a v hw).lenient
    | error e v =>
      have hv := hm.lenient
      rw [hw] at hv
      rw [bind_error hw]
      exact hv
  · intro e v h
    cases hw : m w with
    | ok a u =>
      rw [bind_ok hw] at h
      exact (hrest a u hw).fresh e v h
    | error e' u =>
      rw [bind_error hw] at h
      cases h
      exact hm.fresh e v hw

theorem of_pure (hw : w.channel.strict = false) :
    Agree raises w (pure a : Step α) (pure a) :=
  ⟨hw, fun _ _ h => (nomatch h), .same (append_nil _).symm calm_nil⟩

theorem of_defect {d : Defect} (hw : w.channel.strict = false) :
    Agree raises w (throw (.defect d) : Step α) (throw (.defect d)) :=
  ⟨hw, fun _ _ h => (nomatch h), .same (append_nil _).symm calm_nil⟩

theorem of_raise (hw : w.channel.strict = false) :
    Agree true w (throw (.raised (.ofCause cause)) : Step α) (throw (.raised (.ofCause cause))) := by
  refine ⟨hw, fun e v h => ?_, .same (append_nil _).symm calm_nil⟩
  cases h
  exact ⟨rfl, rfl⟩

/-- A change that does the same in either mode and reports no error. -/
theorem of_modify (hf : f (harden w) = harden (f w)) (hlenient : (f w).channel.strict = false)
    (hreports : (f w).channel.reports = w.channel.reports ++ new) (hcalm : Calm new) :
    Agree raises w (modify f : Step Unit) (modify f) := by
  refine ⟨hlenient, fun _ _ h => (nomatch h), ?_⟩
  rw [run_modify, run_modify, hf]
  exact .same hreports hcalm

/-- A change that does not concern the channel. -/
theorem of_silent (hf : Silent f) (hw : w.channel.strict = false) :
    Agree raises w (modify f : Step Unit) (modify f) := by
  have hself : f w = { f w with channel := w.channel } := hf w w.channel
  have hchannel : (f w).channel = w.channel := (congrArg channel hself :)
  refine of_modify ?_ (hchannel ▸ hw) ?_ calm_nil
  · rw [harden, hf, harden, hchannel]
  · rw [hchannel, append_nil]

/-- The first error that is reported stops the strict walk. -/
theorem of_report (he : e.reported = false) (hw : w.channel.strict = false) :
    Agree raises w (report e) (report e) := by
  have hlenient := report_lenient he hw
  have hstrict : report e (harden w) = _ := report_strict he rfl
  refine ⟨?_, fun e' v h => ?_, ?_⟩
  · rw [hlenient]
    exact hw
  · rw [hlenient] at h
    cases h
  · rw [hlenient, hstrict]
    refine .stopped [] [] ?_ calm_nil ?_
    · rw [append_nil]
      rfl
    · rw [append_nil]
      rfl

theorem of_warn {message : Text} (hw : w.channel.strict = false) :
    Agree raises w (warn message) (warn message) := by
  have hcalm : Calm [.warning message (w.channel.origin.range).1] := by
    intro report h
    cases mem_singleton.mp h
    rfl
  exact of_modify rfl hw rfl hcalm

/-- An error that is caught is reported then; one that has been reported is passed on. -/
theorem recovering {m m' recover : Step Unit} (hm : Agree true w m m')
    (hrecover : ∀ v, v.channel.strict = false → Agree raises v recover recover) :
    Agree raises w (tryCatch m (recovering recover)) (tryCatch m' (recovering recover)) := by
  obtain ⟨hlenient, hfresh, hcompared⟩ := hm
  -- What the lenient walk goes on to do agrees with the strict walk, if that has got so far.
  have hcontinued : ∀ failure v, m w = .error failure v →
      Agree raises v (Walk.recovering recover failure) (Walk.recovering recover failure) := by
    intro failure v hw
    have hv : v.channel.strict = false := by rwa [hw] at hlenient
    cases failure with
    | raised e => exact (of_report (hfresh e v hw).2 hv).bind fun _ => hrecover
    | defect d => exact of_defect hv
  generalize hstrict : m' (harden w) = s at hcompared
  cases hw : m w with
  | ok a v =>
    rw [hw] at hlenient hcompared
    have hrun : tryCatch m (Walk.recovering recover) w = .ok a v := tryCatch_ok hw
    refine ⟨by rwa [hrun], fun e v h => (by rw [hrun] at h; cases h), ?_⟩
    rw [hrun]
    cases hcompared with
    | same hreports hcalm =>
      rw [tryCatch_ok hstrict]
      exact .same hreports hcalm
    | stopped before after hreports hcalm hstop =>
      rw [tryCatch_error hstrict, recovering_reported]
      exact .stopped before after hreports hcalm hstop
  | error failure v =>
    rw [hw] at hlenient hcompared
    obtain ⟨hlenient', hfresh', hcompared'⟩ := hcontinued failure v hw
    have hrun : tryCatch m (Walk.recovering recover) w = Walk.recovering recover failure v :=
      tryCatch_error hw
    refine ⟨by rwa [hrun], by rwa [hrun], ?_⟩
    rw [hrun]
    cases hcompared with
    | same hreports hcalm =>
      rw [tryCatch_error hstrict]
      rw [show v.channel.reports = _ from hreports] at hcompared'
      exact hcompared'.earlier hcalm
    | stopped before after hreports hcalm hstop =>
      rw [tryCatch_error hstrict, recovering_reported]
      exact .later (r := .error failure v) hreports hcalm hstop hcompared'.grows

theorem inPlaceOfTop {frame : Frame} {step : List Frame → Step Unit}
    (hstep : ∀ beside v, v.channel.strict = false → Agree raises v (step beside) (step beside))
    (hw : w.channel.strict = false) :
    Agree raises w (inPlaceOfTop frame step) (inPlaceOfTop frame step) := by
  obtain ⟨hlenient, hfresh, hcompared⟩ := hstep (w.draft.frames.take 1)
    { w with draft := { w.draft with frames := frame :: w.draft.frames.tail } } hw
  refine ⟨?_, fun e v h => ?_, hcompared.afterwards (fun _ => rfl) fun _ => rfl⟩
  · rw [Walk.inPlaceOfTop, final_afterwards]
    exact hlenient
  · obtain ⟨u, hu⟩ := afterwards_eq_error h
    exact hfresh e u hu

end Agree

section

variable {view : Walk → γ} {raises : Bool} {γ : Type} (hm : Composed view raises m)
include hm

/-- **The modes agree on composed steps.** -/
theorem Composed.agree : ∀ w, w.channel.strict = false → Agree raises w m m := by
  induction hm with
  | pure a => exact fun w hw => .of_pure hw
  | bind _ _ ihm ihf => exact fun w hw => (ihm w hw).bind ihf
  | @read _ _ f hblind _ ih =>
    intro w hw
    obtain ⟨hlenient, hfresh, hcompared⟩ := ih w w hw
    refine ⟨hlenient, hfresh, ?_⟩
    have hstrict : (get >>= f) (harden w) = f w (harden w) := congrFun (hblind w _) (harden w)
    rw [hstrict]
    exact hcompared
  | modify hsilent _ => exact fun w hw => .of_silent hsilent hw
  | log level text =>
    exact fun w hw => .of_modify rfl hw (append_nil _).symm calm_nil
  | warn message => exact fun w hw => .of_warn hw
  | report cause => exact fun w hw => .of_report rfl hw
  | defect d => exact fun w hw => .of_defect hw
  | raise cause => exact fun w hw => .of_raise hw
  | recovering _ _ ihm ihr => exact fun w hw => (ihm w hw).recovering ihr
  | inPlaceOfTop _ _ ih => exact fun w hw => .inPlaceOfTop ih hw

/-- A composed step that succeeds does so in lenient mode, and comes to the same. -/
theorem Composed.soften_ok (h : m w = .ok a v) : m (soften w) = .ok a (soften v) := by
  cases hmode : w.channel.strict with
  | false =>
    have hkept := hm.keeps_mode w
    rw [h, final_ok] at hkept
    rw [soften_lenient hmode, soften_lenient (hkept.trans hmode), h]
  | true =>
    have hagree := hm.agree (soften w) rfl
    have hself : harden (soften w) = w := harden_strict hmode
    have hcompared := hagree.compared
    rw [hself, h] at hcompared
    obtain ⟨u, hu, rfl⟩ := hcompared.of_ok
    have hlenient := hagree.lenient
    rw [hu, final_ok] at hlenient
    rw [hu]
    exact congrArg (EStateM.Result.ok a) (soften_lenient hlenient).symm

end

end ViewMarkup.Walk
