import ViewMarkup.Proofs.Document.Roots

/-!
# When a lenient compilation gives no result

In lenient mode every error of a document is reported, and the compilation goes on.  Two kinds of
bindings end it all the same.

* `Hazard` describes these bindings.
* `compile_lenient`: a lenient compilation gives a result, or the document holds such a binding.
-/

namespace ViewMarkup.Document

open Script (Node)
open Walk (Bound Printable)

variable {r : Except Failure Compilation}

/-! ### Dangerous bindings -/

/-- A binding that can end a compilation, and the defect that it shows as. -/
inductive Hazard (item : Attribute) : Defect → Prop
  /-- An escape names a number that is out of range. -/
  | overflow (h : Binding.describe item = .error (.expression (.escape .outOfRange))) :
      Hazard item .codePointOverflow
  /-- The bound value is a special name, which cannot be written to.  The binding counts as two-way
  since a converter refers to the view model. -/
  | unwritable {name : Text} {converters : List Node}
      (haccepts : Binding.Accepts item (.identifier name) converters)
      (hspecial : Binding.isSpecial name = true) (hevent : item.isEvent = false)
      (hsub : item.isSubProperty = false)
      (hnames : Binding.namesOf (Binding.usesAll converters) ≠ []) : Hazard item .unwritableTarget

/-- A tag among some events has an attribute that is a binding. -/
def Binds (options : Options) (events : List Xml.Event) (item : Attribute) : Prop :=
  ∃ offset name attributes, .startTag offset name attributes ∈ events ∧
    ∃ pair ∈ attributes, Element.item? options name attributes pair = some item ∧
      item.isBinding = true

variable {options : Options} {events : List Xml.Event} {content : Text} {w : Walk}

/-- The descriptor comes from a binding among the events. -/
def Described (options : Options) (events : List Xml.Event) (descriptor : BindingDescriptor) : Prop :=
  ∃ item, Binds options events item ∧ Binding.describe item = .ok descriptor

theorem described_of_mem {offset : Nat} {name : Text} {attributes : AttributeMap}
    (hevent : .startTag offset name attributes ∈ events) :
    ∀ d ∈ Element.bindings options name attributes, Described options events d := by
  intro d hd
  obtain ⟨item, hitem, hdescribe⟩ := List.mem_filterMap.mp hd
  obtain ⟨hitem, hbinding⟩ := List.mem_filter.mp hitem
  obtain ⟨pair, hpair, hmeaning⟩ := List.mem_filterMap.mp hitem
  refine ⟨item, ⟨offset, name, attributes, hevent, pair, hpair, hmeaning, hbinding⟩, ?_⟩
  cases hresult : Binding.describe item with
  | error fault => rw [hresult] at hdescribe; cases hdescribe
  | ok descriptor => rw [hresult] at hdescribe; cases hdescribe; rfl

/-- The bindings of a lenient walk are those of the document. -/
theorem bound_kept (options : Options) (events : List Xml.Event) :
    Kept options events fun w => Bound (Described options events) w.draft.frames where
  channel h := h
  starts hevent _ h hs := h.starts (described_of_mem hevent) hs
  ends _ h he := h.ends he

theorem Defective.hazard {d : Defect} (h : Defective options events
    (fun w => Bound (Described options events) w.draft.frames) d) :
    ∃ item, Binds options events item ∧ Hazard item d := by
  cases h with
  | start hevent hdefect =>
    obtain ⟨rfl, pair, hpair, item, hmeaning, hbinding, hdescribe⟩ := hdefect
    exact ⟨item, ⟨_, _, _, hevent, pair, hpair, hmeaning, hbinding⟩, .overflow hdescribe⟩
  | finish hw hframe hdefect =>
    obtain ⟨rfl, descriptor, hdescriptor, hunwritable⟩ := hdefect
    obtain ⟨item, hbinds, hdescribe⟩ := hw _ hframe descriptor hdescriptor
    obtain ⟨name, converters, haccepts, hspecial, hevent, hsub, hnames⟩ :=
      Binding.describe_unwritable hdescribe hunwritable
    exact ⟨item, hbinds, .unwritable haccepts hspecial hevent hsub hnames⟩

/-! ### Documents -/

/-- A walk before the first tag. -/
theorem resting_startWalk (hstrict : options.strict = false) :
    Resting (startWalk options content) :=
  ⟨hstrict, rfl, trivial⟩

theorem printable_of_tags (hstrict : options.strict = false)
    (hread : (Xml.read containerName content).2 = none)
    (h : tags options (Xml.read containerName content).1 (startWalk options content) = .ok () w)
    (hroot : w.initialized = true) : Printable w := by
  have hnames : ∀ offset name attributes,
      .startTag offset name attributes ∈ (Xml.read containerName content).1 → True :=
    fun _ _ _ _ => trivial
  obtain ⟨attributes, x, hx⟩ := tags_built (Xml.read_balanced hread) hnames
    (resting_startWalk hstrict) rfl h hroot
  exact hx.printable

theorem ofRawText_ok (content : Text) : ∃ module, Module.ofRawText content = .ok module := by
  have hprint : ∃ text, Script.print (Module.rawProgram content) = .ok text :=
    Script.print_ok ((Script.WellFormed.declare (.string content)).cons
      (.single (.exportExpression rfl (.identifier _))))
  obtain ⟨text, htext⟩ := hprint
  exact ⟨_, by rw [Module.ofRawText, htext]; rfl⟩

theorem assemble_ok (h : Printable w) : ∃ module v, Module.assemble options w = .ok module v := by
  obtain ⟨text, htext⟩ := h.print_ok options (Name.component options.modulePath)
  unfold Module.assemble
  rw [Walk.get_bind]
  dsimp only
  rw [htext]
  exact ⟨_, _, rfl⟩

/-- The end of a document is reported if there was no root. -/
theorem finish_ok (hw : w.channel.strict = false) :
    ∃ channel, Walk.finish w = .ok () { w with channel } := by
  unfold Walk.finish
  rw [Walk.get_bind]
  split
  · exact ⟨w.channel, rfl⟩
  · exact ⟨_, Walk.report_lenient rfl hw⟩

/-- What a lenient walk over a document comes to, once it has come to the end of its tags. -/
theorem conclude_ok {v : Walk} {misread : Option Xml.Misread} (hstrict : options.strict = false)
    (hv : Resting v) (hprintable : misread = none → v.initialized = true → Printable v) :
    ∃ module u, conclude options
      ((do if let some misread := misread then raiseFault misread
           Walk.finish : Walk.Step Unit) v) = .ok module u := by
  cases misread with
  | some misread =>
    have hfault : (do raiseFault misread; Walk.finish : Walk.Step Unit) v = _ :=
      Walk.bind_error raiseFault_eq
    show ∃ module u, conclude options ((do raiseFault misread; Walk.finish : Walk.Step Unit) v) =
      .ok module u
    rw [hfault]
    exact ⟨none, _, if_neg (by rw [hstrict]; exact Bool.false_ne_true)⟩
  | none =>
    obtain ⟨channel, hfinish⟩ := finish_ok hv.lenient
    have hconclude : conclude options (Walk.finish v) =
        if v.initialized then (some <$> Module.assemble options).run { v with channel }
        else .ok none { v with channel } := by
      rw [hfinish]
      rfl
    show ∃ module u, conclude options (Walk.finish v) = .ok module u
    rw [hconclude]
    split
    · next hroot =>
      obtain ⟨hnodes, hcallbacks, hregistrations, hmodules⟩ := hprintable rfl hroot
      have hsame : Printable { v with channel } := ⟨hnodes, hcallbacks, hregistrations, hmodules⟩
      obtain ⟨module, u, hassemble⟩ := @assemble_ok options _ hsame
      refine ⟨some module, u, ?_⟩
      rw [map_eq_pure_bind]
      exact (Walk.bind_ok hassemble).trans rfl
    · exact ⟨none, _, rfl⟩

/-- **A lenient compilation gives a result, or a binding is to blame.**  Whatever the text of a
document, every error in it ends as a report, except that a binding of the document may have an
escape out of range, or be written back to a special name. -/
theorem compile_lenient (options : Options) (content : Text) (hstrict : options.strict = false) :
    (∃ compilation, (compile options content).1 = .ok compilation) ∨
      ∃ defect item, (compile options content).1 = .error (.defect defect) ∧
        Binds options (Xml.read containerName content).1 item ∧ Hazard item defect := by
  unfold compile
  dsimp only
  split
  · obtain ⟨module, hmodule⟩ := ofRawText_ok content
    rw [hmodule]
    exact .inl ⟨_, rfl⟩
  · unfold walk
    have hprintable := @printable_of_tags options content
    generalize Xml.read containerName content = reading at hprintable ⊢
    obtain ⟨events, misread⟩ := reading
    dsimp only at hprintable ⊢
    have hrun := tags_run (bound_kept options events) (fun _ h => h)
      (@resting_startWalk options content hstrict) (fun _ h => nomatch h)
    cases htags : tags options events (startWalk options content) with
    | ok _ v =>
      rw [htags] at hrun
      cases hrun with
      | on hv _ =>
        obtain ⟨module, u, hconclude⟩ :=
          conclude_ok hstrict hv fun hread => hprintable hstrict hread htags
        refine .inl ⟨⟨module, u.channel.reports, false⟩, ?_⟩
        rw [EStateM.run, Walk.bind_ok htags]
        exact congrArg (fun r => (outcome r).1) hconclude
    | error failure v =>
      rw [htags] at hrun
      cases hrun with
      | off hdefective =>
        obtain ⟨item, hbinds, hhazard⟩ := hdefective.hazard
        refine .inr ⟨_, item, ?_, hbinds, hhazard⟩
        rw [EStateM.run, Walk.bind_error htags]
        rfl

/-! ### Documents without a result -/

/-- The standard options in lenient mode. -/
def lenientOptions : Options :=
  { Options.standard .standard with strict := false }

/-- A document with an escape out of range in a binding. -/
def overflowing : Text :=
  "<Label text=\"\x7b\x7b '\\u\x7bffffffffff\x7d' \x7d\x7d\"/>"

/-- A document with a binding that would be written back to a special name. -/
def unwritable : Text :=
  "<Page><Label text=\"\x7b\x7b $value | c \x7d\x7d\"/></Page>"

/-- Whether a compilation has ended with an escape out of range. -/
def isOverflow : Except Failure Compilation → Bool
  | .error (.defect .codePointOverflow) => true
  | _ => false

/-- Whether a compilation has ended with a target that cannot be written to. -/
def isUnwritable : Except Failure Compilation → Bool
  | .error (.defect .unwritableTarget) => true
  | _ => false

theorem eq_of_isOverflow (h : isOverflow r = true) : r = .error (.defect .codePointOverflow) := by
  unfold isOverflow at h
  split at h
  · rfl
  · cases h

theorem eq_of_isUnwritable (h : isUnwritable r = true) :
    r = .error (.defect .unwritableTarget) := by
  unfold isUnwritable at h
  split at h
  · rfl
  · cases h

theorem compile_overflowing :
    (compile lenientOptions overflowing).1 = .error (.defect .codePointOverflow) :=
  eq_of_isOverflow (by decide +kernel)

/-- Either kind of binding does end a lenient compilation. -/
theorem compile_lenient_fails :
    (compile lenientOptions overflowing).1 = .error (.defect .codePointOverflow) ∧
      (compile lenientOptions unwritable).1 = .error (.defect .unwritableTarget) :=
  ⟨compile_overflowing, eq_of_isUnwritable (by decide +kernel)⟩

/-- The document without a result does hold a binding with an escape out of range. -/
theorem compile_lenient_overflowing :
    ∃ item, Binds lenientOptions (Xml.read containerName overflowing).1 item ∧
      Hazard item .codePointOverflow := by
  rcases compile_lenient lenientOptions overflowing rfl with
    ⟨compilation, hok⟩ | ⟨defect, item, hdefect, hbinds, hhazard⟩
  · rw [compile_overflowing] at hok
    cases hok
  · rw [compile_overflowing] at hdefect
    cases hdefect
    exact ⟨item, hbinds, hhazard⟩

end ViewMarkup.Document
