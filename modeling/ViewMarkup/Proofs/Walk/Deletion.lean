import Mathlib.Data.List.Nodup
import ViewMarkup.Proofs.Walk.Revision

/-!
# Recovery is deletion

In lenient mode a tag that may not stand where it stands is left out with all that it holds, and a
binding that cannot be compiled is left out of its element.  The rest of the document is compiled as
if they had not been written.

* `Attribute.fault?` tells what is wrong with the binding that an attribute stands for, and
  `Walk.rejection?` what is wrong with the place of a tag.
* `pruning` is the editor that deletes the tags that are rejected and the bindings that are refused.
* `trims_accepted`: an element is opened alike without the bindings that are refused.
* `events_pruning`: the rest of a document is compiled as before.
-/

namespace ViewMarkup

open List
open Script (Node)

variable {options : Options} {tagName : Text} {item : Text × Text}

/-- What is wrong with the binding that an attribute stands for, if nothing replaces values. -/
def Attribute.fault? (options : Options) (tagName : Text) (item : Text × Text) :
    Option BindingFault :=
  match Attribute.classify options tagName [] item.1 item.2 with
  | .item found =>
    if found.isBinding then
      match Binding.describe found with
      | .ok _ => none
      | .error fault => some fault
    else none
  | _ => none

namespace AttributeMap

/-- The attributes without the bindings that are refused. -/
def accepted (options : Options) (tagName : Text) (attributes : AttributeMap) : AttributeMap :=
  attributes.filter fun item => (Attribute.fault? options tagName item).isNone

/-- What is wrong with the bindings among the attributes. -/
def faults (options : Options) (tagName : Text) (attributes : AttributeMap) : List Cause :=
  attributes.filterMap fun item => (Attribute.fault? options tagName item).map .binding

end AttributeMap

open Attribute (fault?)
open AttributeMap (accepted faults get?)

namespace Walk

/-- Why a tag may not stand where it is opened.  Tags without a frame and tags inside a tag that is
left out are not checked. -/
def rejection? (w : Walk) (name : Text) : Option TagFault :=
  if w.framesTag name && !w.draft.frames.head?.any fun parent => parent.ignored then
    match w.newFrame name with
    | .ok _ => none
    | .error fault => some fault
  else none

/-- Whether the start of a tag, which has led from one walk to another, has opened an element; then
its attributes have been compiled. -/
def opensElement (w : Walk) (name : Text) (u : Walk) : Bool :=
  w.framesTag name && decide (Element.kindOf name = .view) && decide (name ≠ Frame.slotTag) &&
    !u.draft.frames.head?.any (·.ignored)

end Walk

/-- The names of the bindings among some attributes that are refused. -/
def AttributeMap.refused (options : Options) (tagName : Text) (attributes : AttributeMap) :
    List Text :=
  (attributes.filter fun item => (fault? options tagName item).isSome).map Prod.fst

/-- The editor that deletes a tag that is rejected, and takes the bindings that are refused out of an
element that is opened. -/
def pruning (options : Options) : Editor := fun name received given w =>
  match w.rejection? name with
  | some fault => .delete (.tag fault) false
  | none =>
    let attributes := given.getD (.ofList received)
    if w.opensElement name (Walk.final (Walk.beginTag options name received given w)) then
      .keep (received.filter fun item => !(attributes.refused options name).contains item.1)
        (given.map (accepted options name)) (attributes.faults options name)
    else .keep received given []

/-! ### Attributes that are kept -/

namespace AttributeMap

variable {options : Options} {tagName : Text} {name value : Text} {attributes : AttributeMap}

theorem map_fst_insert : (insert name value attributes).map Prod.fst =
      if name ∈ attributes.map Prod.fst then attributes.map Prod.fst
      else attributes.map Prod.fst ++ [name] := by
  induction attributes with
  | nil => rfl
  | cons item rest ih =>
    rw [insert]
    split
    · next hname =>
      rw [map_cons, map_cons, hname, if_pos mem_cons_self]
    · next hname =>
      rw [map_cons, map_cons, ih]
      by_cases hmem : name ∈ rest.map Prod.fst
      · rw [if_pos hmem, if_pos (mem_cons_of_mem _ hmem)]
      · have hnot : name ∉ item.1 :: rest.map Prod.fst := by
          intro h
          rcases mem_cons.mp h with h | h
          · exact hname h.symm
          · exact hmem h
        rw [if_neg hmem, if_neg hnot, cons_append]

/-- The names in a map of attributes are all different. -/
theorem nodup_ofList (items : List (Text × Text)) : ((ofList items).map Prod.fst).Nodup := by
  have hfold : ∀ attributes : AttributeMap, (attributes.map Prod.fst).Nodup →
      ((items.foldl (fun attributes item => attributes.insert item.1 item.2) attributes).map
        Prod.fst).Nodup := by
    induction items with
    | nil => exact fun _ h => h
    | cons item rest ih =>
      intro attributes h
      apply ih
      rw [map_fst_insert]
      split
      · exact h
      · next hnew => exact nodup_append.mpr ⟨h, nodup_singleton _, by
          intro a ha b hb heq
          exact hnew (mem_singleton.mp hb ▸ heq ▸ ha)⟩
  exact hfold [] nodup_nil

theorem filter_insert (p : Text → Bool) :
    (insert name value attributes).filter (fun item => p item.1) =
      if p name then insert name value (attributes.filter fun item => p item.1)
      else attributes.filter fun item => p item.1 := by
  induction attributes with
  | nil => rw [insert, filter_cons, filter_nil]; rfl
  | cons item rest ih =>
    rw [insert]
    split
    · next hname =>
      rw [filter_cons, filter_cons, hname]
      split
      · rw [insert, if_pos hname]
      · rfl
    · next hname =>
      rw [filter_cons, filter_cons, ih]
      split
      · split
        · rw [insert, if_neg hname]
        · rfl
      · rfl

/-- Attributes may be left out by name before or after they are collected. -/
theorem ofList_filter (p : Text → Bool) (items : List (Text × Text)) :
    ofList (items.filter fun item => p item.1) = (ofList items).filter fun item => p item.1 := by
  have hfold : ∀ attributes : AttributeMap,
      (items.filter fun item => p item.1).foldl
          (fun (kept : AttributeMap) item => kept.insert item.1 item.2)
          (attributes.filter fun item => p item.1) =
        (items.foldl (fun (kept : AttributeMap) item => kept.insert item.1 item.2)
          attributes).filter fun item => p item.1 := by
    induction items with
    | nil => exact fun _ => rfl
    | cons item rest ih =>
      intro attributes
      rw [filter_cons, foldl_cons, ← ih, filter_insert]
      split
      · rfl
      · rfl
  exact hfold []

/-- If the bindings that are refused are left out by their names, the others remain. -/
theorem ofList_accepted (received : AttributeMap) : ofList (received.filter fun item =>
        !((ofList received).refused options tagName).contains item.1) =
      (ofList received).accepted options tagName := by
  rw [ofList_filter fun name =>
    !((ofList received).refused options tagName).contains name]
  refine filter_congr fun item hitem => ?_
  have hnames : item.1 ∈ (ofList received).refused options tagName ↔
      (fault? options tagName item).isSome := by
    constructor
    · intro h
      obtain ⟨item', hitem', heq⟩ := mem_map.mp h
      obtain ⟨hmem, hfault⟩ := mem_filter.mp hitem'
      have hsame := inj_on_of_nodup_map (nodup_ofList received) hmem hitem heq
      rwa [← hsame]
    · intro h
      exact mem_map_of_mem (mem_filter.mpr ⟨hitem, h⟩)
  rw [contains_eq_mem, decide_eq_decide.mpr hnames, Bool.decide_coe, Option.not_isSome]

end AttributeMap

theorem Attribute.fault?_eq_some
    {fault : BindingFault} (h : fault? options tagName item = some fault) :
    ∃ found, Attribute.classify options tagName [] item.1 item.2 = .item found ∧
      found.isBinding = true ∧ Binding.describe found = .error fault := by
  unfold fault? at h
  split at h
  · next found hitem =>
    split at h
    · next hbinding =>
      split at h
      · cases h
      · next fault' hdescribe =>
        cases h
        exact ⟨found, hitem, hbinding, hdescribe⟩
    · cases h
  · cases h

/-- Without a formatter the other attributes of the tag do not matter. -/
theorem Attribute.classify_eq (hformatter : options.formatter = none)
    (tagName : Text) (attributes : AttributeMap) (name value : Text) :
    Attribute.classify options tagName attributes name value =
      Attribute.classify options tagName [] name value := by
  unfold Attribute.classify
  rw [hformatter]

/-- An attribute that stands for a binding has neither a name without code nor declares a module. -/
theorem Attribute.name_of_fault (h : (fault? options tagName item).isSome) :
    item.1 ∉ Attribute.silent ∧ (Name.split item.1).2 ≠ some Attribute.namespaceMark := by
  rw [← not_or]
  intro hname
  have hnothing : Attribute.classify options tagName [] item.1 item.2 = .nothing := by
    unfold Attribute.classify
    dsimp only
    rcases hname with hname | hname
    · rw [contains_iff_mem.mpr hname]
      rfl
    · rw [hname]
      simp
  rw [fault?, hnothing] at h
  cases h

namespace Walk

open Markup (eventsOf)

variable {options : Options} {name : Text} {causes : List Cause} {w v u : Walk}
  {attributes : AttributeMap}

/-! ### An element without the bindings that are refused -/

theorem declaredModules_accepted :
    declaredModules (attributes.accepted options name) = declaredModules attributes := by
  unfold declaredModules accepted
  rw [filterMap_filter]
  refine filterMap_congr fun item _ => ?_
  cases hfault : fault? options name item with
  | none => rfl
  | some fault =>
    have hname := (Attribute.name_of_fault (Option.isSome_of_eq_some hfault)).2
    rw [Option.isNone_some, if_neg Bool.false_ne_true]
    dsimp only at hname ⊢
    split
    · next hsplit =>
      rw [hsplit] at hname
      split
      · next hmark => exact absurd (congrArg some hmark) hname
      · rfl
    · rfl

theorem get?_accepted {key : Text} (hkey : key ∈ Attribute.silent) :
    (attributes.accepted options name).get? key = attributes.get? key := by
  unfold get? accepted
  induction attributes with
  | nil => rfl
  | cons item rest ih =>
    rw [filter_cons, lookup_cons]
    cases hfault : fault? options name item with
    | none =>
      rw [Option.isNone_none, if_pos rfl, lookup_cons, ih]
    | some fault =>
      have hname := (Attribute.name_of_fault (Option.isSome_of_eq_some hfault)).1
      have hne : (key == item.1) = false := by
        rw [beq_eq_false_iff_ne]
        rintro rfl
        exact hname hkey
      rw [Option.isNone_some, if_neg Bool.false_ne_true, ih, hne]

section

variable (hformatter : options.formatter = none)
include hformatter

/-- What applying one more attribute comes to. -/
theorem applyAttributes_cons (frame : Frame) (item : Text × Text) (rest : AttributeMap) :
    applyAttributes options frame (item :: rest) =
      match Attribute.classify options frame.tagName [] item.1 item.2 with
      | .nothing => applyAttributes options frame rest
      | .inheritedContext => do
        warn (Attribute.contextWarning item.1 frame.tagName)
        applyAttributes options frame rest
      | .item found =>
        if found.isBinding then do
          match ← describe found with
          | some descriptor =>
            modifyTop fun f => { f with descriptors := f.descriptors ++ [descriptor] }
            applyAttributes options frame rest
          | none => applyAttributes options frame rest
        else do
          return Attribute.setter options.settings frame.index found ::
            (← applyAttributes options frame rest) := by
  rw [applyAttributes, attributeItem, Attribute.classify_eq hformatter]
  cases Attribute.classify options frame.tagName [] item.1 item.2 with
  | nothing => rfl
  | inheritedContext => rfl
  | item found =>
    rw [pure_bind]
    dsimp only
    split
    · congr
      funext found
      cases found <;> rfl
    · rfl

/-- **An element is built alike without the bindings that are refused.**  Each of them is reported,
and that is all. -/
theorem applyAttributes_accepted {frame frame' : Frame}
    (hname : frame.tagName = name) (hname' : frame'.tagName = name)
    (hindex : frame.index = frame'.index) :
    Tied false (attributes.faults options name) (applyAttributes options frame attributes)
      (applyAttributes options frame' (attributes.accepted options name)) := by
  induction attributes with
  | nil => exact .of_pure
  | cons item rest ih =>
    rw [faults, accepted, filterMap_cons, filter_cons,
      applyAttributes_cons hformatter, hname]
    cases hfault : fault? options name item with
    | none =>
      rw [Option.map_none, Option.isNone_none, if_pos rfl, applyAttributes_cons hformatter,
        hname', hindex]
      dsimp only
      split
      · exact ih
      · exact .bind .of_warn fun _ => ih
      · split
        · refine .bind describe_tied fun found => ?_
          cases found with
          | none => exact ih
          | some descriptor => exact .bind (.of_top fun _ _ => rfl) fun _ => ih
        · exact ih.bind_last fun settings => .of_pure
    | some fault =>
      obtain ⟨found, hitem, hbinding, hdescribe⟩ := Attribute.fault?_eq_some hfault
      rw [Option.map_some, Option.isNone_some, if_neg Bool.false_ne_true, hitem]
      dsimp only
      rw [if_pos hbinding, describe, hdescribe]
      split
      · next heq => cases heq
      · exact .of_defect
      · next fault' _ heq =>
        cases heq
        have hreported := (Tied.of_report_first (.binding fault)).bind_after (fun _ => ih) nofun
        rw [bind_assoc]
        exact hreported

/-- An element may be opened without the bindings that are refused. -/
theorem trims_accepted (hname : name ≠ Frame.slotTag) (attributes : AttributeMap) :
    Trims options (attributes.faults options name) (viewFrame name attributes (-1))
      (attributes.accepted options name) where
  modules := declaredModules_accepted
  silent := fun _ hkey => get?_accepted hkey
  slot := fun hslot => absurd hslot hname
  applied := fun _ => by apply applyAttributes_accepted hformatter <;> rfl

end

/-! ### The editor -/

/-- A tag that is rejected has a frame, and its parent is not left out. -/
theorem rejection?_eq_some {fault : TagFault} (h : w.rejection? name = some fault) :
    Framed name w ∧ w.draft.frames.head?.any (·.ignored) = false ∧
      w.newFrame name = .error fault := by
  unfold rejection? at h
  split at h
  · next hchecked =>
    rw [Bool.and_eq_true, Bool.not_eq_true'] at hchecked
    refine ⟨framesTag_iff.mp hchecked.1, hchecked.2, ?_⟩
    split at h
    · cases h
    · next hframe =>
      cases h
      exact hframe
  · cases h

theorem sketch_headD_tail {extra : List Nat} :
    w.sketch ((extra.headD 0 + 0) :: extra.tail) = w.sketch extra := by
  obtain ⟨⟨frames, body⟩⟩ := w
  cases frames <;> cases extra <;> rfl

theorem pruning_faithful (hformatter : options.formatter = none) :
    Faithful options (pruning options) where
  deletes := by
    intro opened name received given inner cause counted causes extra w v u hw hchoice hrun h
    unfold pruning at hchoice
    split at hchoice
    · next fault hrejection =>
      cases hchoice
      obtain ⟨hframed, hignored, hframe⟩ := rejection?_eq_some hrejection
      rw [events_rejected h.lenient (hw.settled rfl) hframed hignored hw.closed hframe] at hrun
      cases hrun
      have htwin := h.report_first (.tag fault)
      exact ⟨htwin.sketch.trans sketch_headD_tail.symm, htwin.lenient, htwin.reports⟩
    · split at hchoice <;> cases hchoice
  keeps := by
    intro opened name received received' given given' new w u _ hchoice hbegin
    unfold pruning at hchoice
    split at hchoice
    · cases hchoice
    · split at hchoice
      case isFalse =>
          cases hchoice
          exact ⟨.inl ⟨rfl, rfl⟩, fun hne => absurd rfl hne⟩
      case isTrue hopens =>
          cases hchoice
          rw [hbegin, final_ok, opensElement, Bool.and_eq_true, Bool.and_eq_true, Bool.and_eq_true,
            decide_eq_true_iff, decide_eq_true_iff, Bool.not_eq_true'] at hopens
          obtain ⟨⟨⟨hframed, hkind⟩, hslot⟩, hopen⟩ := hopens
          have htrims := trims_accepted hformatter hslot (given.getD (.ofList received))
          refine ⟨.inr ⟨hkind, hopen, ?_⟩, fun _ => framesTag_iff.mp hframed⟩
          cases given with
          | some given => exact htrims
          | none =>
            rw [Option.map_none, Option.getD_none, Option.getD_none,
              AttributeMap.ofList_accepted]
            exact htrims

theorem pruning_uncounting : Uncounting (pruning options) := by
  intro name received given w cause hchoice
  unfold pruning at hchoice
  split at hchoice
  · cases hchoice
  · split at hchoice <;> cases hchoice

/-- **Lenient recovery equals deletion.**  Every well-nested stream is that of a document.  If a
lenient walk takes the whole stream, then it also takes what remains of the document without the tags
that have been rejected and the bindings that have been refused.  It comes to the same module, and
its reports are the same but for one error for each tag and each binding that is not there. -/
theorem events_pruning (options : Options) (hformatter : options.formatter = none)
    {channel : Channel} (hchannel : channel.strict = false) {stream : List TagEvent}
    (hstream : WellNested stream) {w : Walk}
    (hrun : events options stream (start channel) = .ok () w) :
    (∃ document, stream = Markup.documentEvents document) ∧
    ∀ document, stream = Markup.documentEvents document →
      Redone options (pruning options) channel w document := by
  refine ⟨Markup.wellNested_iff.mp hstream, ?_⟩
  rintro document rfl
  exact redone_of_spares (pruning_faithful hformatter) hchannel
    (sparesDocument_uncounted pruning_uncounting document _) hrun

/-- A page with a binding that cannot be read, a template that has no place there, and a tag for
another platform inside; after it come another page and the end. -/
def faultyPage : List (Option Markup) :=
  [some (.tag "Page" [("codeFile", "main")] none
    [.tag "Label" [("text", "\x7b\x7b a + \x7d\x7d"), ("title", "a")] none [],
      .tag "template" [] (some []) [.tag "ios" [] none [.tag "Button" [] none []]],
      .tag "Label" [] (some [("text", "\x7b\x7b b \x7d\x7d")]) []]),
   some (.tag "Page" [] none []), none]

theorem events_pruning_faultyPage :
    (Markup.documentCauses (.standard .standard) (pruning (.standard .standard)) faultyPage
      (start (.empty false .unknown))).length = 3 ∧
    ∃ w, events (.standard .standard) (Markup.documentEvents faultyPage)
        (start (.empty false .unknown)) = .ok () w ∧
      Redone (.standard .standard) (pruning (.standard .standard)) (.empty false .unknown) w
        faultyPage := by
  have hok : succeeds (events (.standard .standard) (Markup.documentEvents faultyPage)
      (start (.empty false .unknown))) = true := by
    decide +kernel
  have hredone := (events_pruning (.standard .standard) rfl rfl
    Markup.wellNested_documentEvents (eq_ok_of_succeeds hok)).2 faultyPage rfl
  exact ⟨by decide +kernel, _, eq_ok_of_succeeds hok, hredone⟩

end Walk

end ViewMarkup
