import ViewMarkup.Proofs.Walk.Code
import ViewMarkup.Proofs.Walk.Modes

/-!
# What steps yield

The code that a walk collects depends on a part of the walk only, its core: the draft, the last
index and a few marks.  What a step that succeeds makes of the core can be said outright; in strict
mode it has reported nothing, and a report concerns the channel only.

* `Yields` says which value and which core a step yields from a given core, if it succeeds.
* `applyAttributes_yields` and `declareModules_yields` are the two loops over attributes.
* `openView_yields` is what a view writes when its tag is complete.
-/

namespace ViewMarkup.Walk

open List
open Element (modulesOf slotVariable modulePath? bindings)
open Script (Node)

variable {α β : Type} {c c' c'' w v : Walk} {m : Step α} {a : α} {view frame : Frame} {e : Raised}
  {d : Draft} {options : Options} {name qualifier : Text} {attributes : AttributeMap}
  {b : List Fragment} {f : Walk → Walk}

/-- The part of a walk that the code depends on. -/
def core (w : Walk) : Walk :=
  { w with
    callbacks := []
    registrations := []
    customModules := []
    registeredPaths := []
    usedTags := []
    paths := []
    channel := .empty w.channel.strict .unknown }

theorem draft_of_core (h : core v = c) : v.draft = c.draft :=
  (congrArg draft h :)

/-- The walk with another draft. -/
def withDraft (w : Walk) (draft : Draft) : Walk :=
  { w with draft }

theorem draft_of_withDraft (h : core v = c.withDraft d) : v.draft = d :=
  (congrArg draft h :)

/-- From any walk with the given core, if the step succeeds, it yields the value and leaves a walk
with the other core. -/
def Yields (c : Walk) (m : Step α) (a : α) (c' : Walk) : Prop :=
  ∀ w, core w = c → ∀ b v, m w = .ok b v → b = a ∧ core v = c'

/-- The core after a step that has succeeded. -/
theorem core_eq {b : α} (hw : core w = c) (hm : m w = .ok b v) (h : Yields c m a c') :
    core v = c' :=
  (h w hw b v hm).2

theorem yields_pure (c : Walk) (a : α) : Yields c (pure a) a c := by
  intro w hw b v h
  cases h
  exact ⟨rfl, hw⟩

theorem Yields.congr {a' : α} (hm : Yields c m a c') (ha : a = a') (hc : c' = c'') :
    Yields c m a' c'' :=
  ha ▸ hc ▸ hm

theorem Yields.bind {f : α → Step β} {b : β} (hm : Yields c m a c') (hf : Yields c' (f a) b c'') :
    Yields c (m >>= f) b c'' := by
  intro w hw b' v h
  obtain ⟨a', u, hu, h⟩ := bind_eq_ok h
  obtain ⟨rfl, hcore⟩ := hm w hw a' u hu
  exact hf u hcore b' v h

theorem yields_get {f : Walk → Step α} (hf : ∀ w, core w = c → Yields c (f w) a c') :
    Yields c (get >>= f) a c' :=
  fun w hw => hf w hw w hw

theorem yields_modify (hf : ∀ w, core w = c → core (f w) = c') : Yields c (modify f) () c' := by
  intro w hw b v h
  cases h
  exact ⟨rfl, hf w hw⟩

/-- A change outside the core. -/
theorem yields_outside (hf : ∀ w, core (f w) = core w) : Yields c (modify f) () c :=
  yields_modify fun w hw => (hf w).trans hw

theorem yields_modifyDraft (c : Walk) (f : Draft → Draft) :
    Yields c (modifyDraft f) () (c.withDraft (f c.draft)) :=
  yields_modify fun _ hw => hw ▸ rfl

theorem yields_log (c : Walk) (level : Nat) (text : Text) : Yields c (log level text) () c :=
  yields_modify fun _ hw => hw

theorem yields_warn {message : Text} : Yields c (warn message) () c :=
  yields_modify fun _ hw => hw

/-- The step succeeds from no walk with the given core. -/
def Never (c : Walk) (m : Step α) : Prop :=
  ∀ w, core w = c → ∀ a v, m w ≠ .ok a v

theorem never_throw {e : Failure} : Never c (throw e : Step α) :=
  fun _ _ _ _ h => nomatch h

theorem never_fail {fault : TagFault} : Never c (fail fault : Step α) :=
  never_throw

/-- In strict mode a report never succeeds. -/
theorem report_ne_ok (hw : w.channel.strict = true) : report e w ≠ .ok () v := by
  cases he : e.reported with
  | true => rw [report_reported he]; exact fun h => nomatch h
  | false => rw [report_strict he hw]; exact fun h => nomatch h

/-- A report that succeeds concerns the channel only. -/
theorem yields_report : Yields c (report e) () c := by
  intro w hw b v h
  have hfinal := final_report e w
  rw [h, final_ok] at hfinal
  refine ⟨rfl, ?_⟩
  rw [hfinal, core, notify_strict]
  exact hw

theorem Never.yields (hm : Never c m) : Yields c m a c' :=
  fun w hw b v h => absurd h (hm w hw b v)

/-- A step with a way to recover succeeds by itself, or, outside strict mode, after a report. -/
theorem recovering_ok {raises : Bool} {γ : Type} {view : Walk → γ} {m recover : Step Unit}
    (hm : Composed view raises m) (h : tryCatch m (recovering recover) w = .ok () v) :
    m w = .ok () v ∨ w.channel.strict = false ∧ ∃ e u t, m w = .error (.raised e) u ∧
      report e u = .ok () t ∧ recover t = .ok () v := by
  have hmode := hm.keeps_mode w
  cases hrun : m w with
  | ok a u => exact .inl ((tryCatch_ok hrun).symm.trans h)
  | error failure u =>
    rw [hrun] at hmode
    rw [tryCatch_error hrun] at h
    cases failure with
    | defect d => cases h
    | raised e =>
      obtain ⟨_, t, ht, h⟩ := bind_eq_ok h
      have hlenient : w.channel.strict = false :=
        Bool.eq_false_iff.mpr fun hw => report_ne_ok (hmode.trans hw) ht
      exact .inr ⟨hlenient, e, u, t, rfl, ht, h⟩

/-! ### Loops over attributes -/

/-- The change of a frame when bindings are kept in it. -/
def addBindings (descriptors : List BindingDescriptor) (frame : Frame) : Frame :=
  { frame with descriptors := frame.descriptors ++ descriptors }

/-- The change of a frame when modules are declared by it. -/
def addModules (modules : List (Text × Text)) (frame : Frame) : Frame :=
  { frame with namespaces := frame.namespaces ++ modules }

theorem modifyTop_addBindings {first rest : List BindingDescriptor} :
    (d.modifyTop (addBindings first)).modifyTop (addBindings rest) =
      d.modifyTop (addBindings (first ++ rest)) := by
  rw [Draft.modifyTop_modifyTop]
  congr
  funext frame
  simp only [addBindings, append_assoc]

theorem modifyTop_addModules (d : Draft) (first rest : List (Text × Text)) :
    (d.modifyTop (addModules first)).modifyTop (addModules rest) =
      d.modifyTop (addModules (first ++ rest)) := by
  rw [Draft.modifyTop_modifyTop]
  congr
  funext frame
  simp only [addModules, append_assoc]

theorem describe_yields {item : Attribute} :
    Yields c (describe item) (Binding.describe item).toOption c := by
  unfold describe
  split
  · next descriptor hok =>
    rw [hok]
    exact (yields_log c _ _).bind (yields_pure c _)
  · exact never_throw.yields
  · next fault _ hfault =>
    rw [hfault]
    exact yields_report.bind (yields_pure c none)

theorem attributeItem_yields
    {pair : Text × Text} : Yields c (attributeItem options name attributes pair.1 pair.2)
      (Element.item? options name attributes pair) c := by
  unfold attributeItem Element.item?
  cases Attribute.classify options name attributes pair.1 pair.2 with
  | nothing => exact yields_pure c none
  | inheritedContext => exact yields_warn.bind (yields_pure c none)
  | item item => exact yields_pure c (some item)

/-- The bindings among items of attributes. -/
def bindingsOf (items : List Attribute) : List BindingDescriptor :=
  (items.filter (·.isBinding)).filterMap fun item => (Binding.describe item).toOption

/-- What the attributes of a view write and keep. -/
theorem applyAttributes_yields (options : Options) (frame : Frame) (rest : AttributeMap) (c : Walk) :
    let items := rest.filterMap (Element.item? options frame.tagName frame.attributes)
    Yields c (applyAttributes options frame rest)
      ((items.filter fun item => !item.isBinding).map
        (Attribute.setter options.settings frame.index))
      (c.withDraft (c.draft.modifyTop (addBindings (bindingsOf items)))) := by
  induction rest generalizing c with
  | nil =>
    have hself : c.draft.modifyTop (addBindings []) = c.draft :=
      c.draft.modifyTop_self fun frame => congrArg
        (fun descriptors => { frame with descriptors }) (append_nil _)
    exact (yields_pure c []).congr rfl (congrArg c.withDraft hself.symm)
  | cons pair rest ih =>
    refine attributeItem_yields.bind ?_
    rw [filterMap_cons]
    cases Element.item? options frame.tagName frame.attributes pair with
    | none => exact ih c
    | some item =>
      cases hbinding : item.isBinding with
      | false =>
        simp only [Bool.false_eq_true, if_false, filter_cons, hbinding, Bool.not_false,
          if_true, bindingsOf]
        exact (ih c).bind (yields_pure _ _)
      | true =>
        simp only [if_true, filter_cons, hbinding, Bool.not_true, Bool.false_eq_true,
          if_false, bindingsOf, filterMap_cons]
        refine describe_yields.bind ?_
        cases (Binding.describe item).toOption with
        | none => exact ih c
        | some descriptor =>
          have hrest := ih (c.withDraft (c.draft.modifyTop (addBindings [descriptor])))
          refine (yields_modifyDraft c _).bind (hrest.congr rfl ?_)
          exact congrArg c.withDraft modifyTop_addBindings

/-- The modules that a tag declares are known to what is inside. -/
theorem declareModules_yields (options : Options) (declared : List (Text × Text)) (c : Walk) :
    Yields c (declareModules options declared) ()
      (c.withDraft (c.draft.modifyTop (addModules
        (declared.map fun (qualifier, written) => (qualifier, options.resolve written))))) := by
  induction declared generalizing c with
  | nil =>
    have hself : c.draft.modifyTop (addModules []) = c.draft :=
      c.draft.modifyTop_self fun frame => congrArg
        (fun namespaces => { frame with namespaces }) (append_nil _)
    exact (yields_pure c ()).congr rfl (congrArg c.withDraft hself.symm)
  | cons item rest ih =>
    have hfirst : Yields c (declareModule options item.1 item.2) ()
        (c.withDraft (c.draft.modifyTop (addModules [(item.1, options.resolve item.2)]))) := by
      refine (yields_modifyDraft c _).bind ?_
      refine Yields.bind (yields_outside fun _ => rfl) (yields_get fun w hw => ?_)
      split
      · exact yields_pure _ ()
      · exact Yields.bind (yields_outside fun _ => rfl) (yields_log _ 3 _)
    exact hfirst.bind ((ih _).congr rfl (congrArg c.withDraft (modifyTop_addModules c.draft _ _)))

/-! ### Steps inside a tag -/

/-- The walk with a frame on top of a draft, and with the given content of its buffer. -/
def inTag (c : Walk) (d : Draft) (frame : Frame) (b : List Fragment) : Walk :=
  c.withDraft ((d.push frame).setBuffer b)

section InTag

variable {d : Draft} {frame : Frame} {b : List Fragment} {f : Frame → Frame}

theorem modifyTop_inTag (hf : Draft.Aside f) :
    Yields (inTag c d frame b) (modifyTop f) () (inTag c d (f frame) b) :=
  (yields_modifyDraft _ _).congr rfl
    (congrArg c.withDraft (Draft.modifyTop_setBuffer hf))

theorem modifyBuffer_inTag {g : List Fragment → List Fragment} :
    Yields (inTag c d frame b) (modifyDraft fun d => d.modifyBuffer g) ()
      (inTag c d frame (g b)) := by
  refine (yields_modifyDraft _ _).congr rfl (congrArg c.withDraft ?_)
  rw [Draft.modifyBuffer_eq]
  show ((d.push frame).setBuffer b |>.setBuffer (g ((d.push frame).setBuffer b).buffer)) = _
  rw [Draft.buffer_setBuffer, Draft.setBuffer_setBuffer]

theorem append_inTag {nodes : List Node} :
    Yields (inTag c d frame b) (append nodes) () (inTag c d frame (b ++ nodes.map .code)) :=
  modifyBuffer_inTag

theorem markSplice_inTag :
    Yields (inTag c d frame b) markSplice () (inTag c d { frame with splice := b.length } b) := by
  refine (yields_modifyDraft _ _).congr rfl (congrArg c.withDraft ?_)
  show ((d.push frame).setBuffer b).modifyTop
    (fun f => { f with splice := ((d.push frame).setBuffer b).buffer.length }) = _
  rw [Draft.buffer_setBuffer, Draft.modifyTop_setBuffer fun _ _ => rfl, Draft.modifyTop_push]

theorem applyAttributes_inTag {frame' : Frame} :
    Yields (inTag c d frame b) (applyAttributes options frame' frame'.attributes)
      (Element.setters options frame'.tagName frame'.attributes frame'.index)
      (inTag c d
        (addBindings (bindings options frame'.tagName frame'.attributes) frame) b) := by
  have happly := applyAttributes_yields options frame' frame'.attributes (inTag c d frame b)
  refine happly.congr rfl (congrArg c.withDraft ?_)
  exact Draft.modifyTop_setBuffer (fun _ _ => rfl)

theorem declareModules_inTag :
    Yields (inTag c d frame b) (declareModules options (declaredModules attributes)) ()
      (inTag c d (addModules (modulesOf options attributes) frame) b) := by
  refine (declareModules_yields options _ _).congr rfl (congrArg c.withDraft ?_)
  exact Draft.modifyTop_setBuffer (fun _ _ => rfl)

end InTag

/-! ### Opening a view -/

theorem lookup_map_resolve (declared : List (Text × Text)) :
    (declared.map fun (q, written) => (q, options.resolve written)).lookup qualifier =
      (declared.lookup qualifier).map options.resolve := by
  induction declared with
  | nil => rfl
  | cons item rest ih =>
    obtain ⟨q, written⟩ := item
    rw [map_cons, lookup_cons, lookup_cons, ih]
    cases qualifier == q <;> rfl

theorem findSome?_lookup (frames : List Frame) :
    (frames.findSome? fun frame => frame.namespaces.lookup qualifier) =
      (frames.flatMap (·.namespaces)).lookup qualifier := by
  induction frames with
  | nil => rfl
  | cons frame rest ih =>
    rw [findSome?_cons, flatMap_cons, lookup_append, ih]
    cases lookup qualifier frame.namespaces <;> rfl

/-- A module is looked up among those that the tag declares and then among those around it. -/
theorem findModule?_eq : findModule? options (declaredModules attributes) d.frames qualifier =
      (modulesOf options attributes ++ d.scope).lookup qualifier := by
  rw [findModule?, lookup_append, modulesOf, lookup_map_resolve, findSome?_lookup]
  cases lookup qualifier (declaredModules attributes) <;> rfl

theorem elementModule_yields (options : Options) (frame : Frame) :
    Yields c (elementModule options [] frame) (modulePath?
      (modulesOf options frame.attributes ++ c.draft.scope) frame.tagName) c := by
  refine yields_get fun w hw => ?_
  have hdraft : w.draft = c.draft := hw ▸ rfl
  rw [nil_append, hdraft, modulePath?]
  cases (Name.split frame.tagName).2 with
  | none => exact yields_pure c none
  | some qualifier =>
    simp only [findModule?_eq, Option.bind_some]
    cases (modulesOf options frame.attributes ++ c.draft.scope).lookup qualifier with
    | none => exact never_fail.yields
    | some path => exact yields_pure c (some path)

theorem takeIndex_inTag {isFallback : Bool} :
    let index := if isFallback then c.treeIndex else c.treeIndex + 1
    Yields (inTag c d frame b) (takeIndex isFallback) index
      (inTag { c with treeIndex := index } d { frame with index } b) := by
  intro index
  refine yields_get fun w hw => ?_
  have hindex : w.treeIndex = c.treeIndex := (congrArg treeIndex hw :)
  rw [hindex]
  have hcount : Yields (inTag c d frame b) (modify fun w => { w with treeIndex := index }) ()
      (inTag { c with treeIndex := index } d frame b) := by
    refine yields_modify fun v hv => ?_
    rw [show core { v with treeIndex := index } = { core v with treeIndex := index } from rfl, hv]
    rfl
  exact hcount.bind ((modifyTop_inTag fun _ _ => rfl).bind (yields_pure _ index))

theorem recordChild_aside (view : Frame) : Draft.Aside (recordChild view) := by
  intro frame own
  unfold recordChild
  split <;> (cases hkind : frame.kind <;> simp only [hkind])

/-- What stands before the code of a root; inside another tag there is nothing. -/
def rootIntro (options : Options) (d : Draft) (attributes : AttributeMap) : List Node :=
  if d.frames.isEmpty then Construction.rootDeclarations options attributes else []

/-- A view writes into the buffer of the tag around it, and is recorded there. -/
theorem attach_inTag (hown : frame.own = some []) :
    Yields (inTag c d frame []) (attach options view d.frames.head?.isSome) ()
      (inTag c (d.modifyTop (recordChild view)) { frame with own := none }
        (d.buffer ++ (rootIntro options d view.attributes).map .code)) := by
  have hfirst : Yields (inTag c d frame []) (modifyTop fun f => { f with own := none }) ()
      (c.withDraft (d.push { frame with own := none })) := by
    refine (yields_modifyDraft _ _).congr rfl (congrArg c.withDraft ?_)
    show ((d.push frame).setBuffer []).modifyTop _ = _
    rw [Draft.setBuffer_push_own (by rw [hown]; rfl), Draft.modifyTop_push]
  refine hfirst.bind ?_
  rcases d.eq_push_or_frames_nil with hnil | ⟨parent, below, rfl⟩
  · have hself : d.modifyTop (recordChild view) = d := by rw [Draft.modifyTop, hnil]
    rw [rootIntro, hnil, hself]
    refine Yields.bind (yields_outside fun _ => rfl) ?_
    refine (yields_modifyDraft _ _).congr rfl (congrArg c.withDraft ?_)
    show (d.push { frame with own := none }).append _ = _
    rw [Draft.append_eq, Draft.buffer_push rfl]
    rfl
  · rw [Draft.frames_push, head?_cons, Option.isSome_some, if_pos rfl]
    refine (yields_modifyDraft _ _).congr rfl (congrArg c.withDraft ?_)
    show ((below.push parent).modifyTop (recordChild view)).push { frame with own := none } = _
    rw [Draft.setBuffer_push rfl]
    have hbuffer : (below.push parent).buffer ++
        (rootIntro options (below.push parent) view.attributes).map Fragment.code =
          ((below.push parent).modifyTop (recordChild view)).buffer := by
      rw [Draft.buffer_modifyTop (recordChild_aside view)]
      exact append_nil _
    rw [hbuffer, Draft.setBuffer_buffer]

/-- The frame of a view whose tag is complete. -/
def viewFrame (name : Text) (attributes : AttributeMap) (index : Int) : Frame :=
  { Frame.new name .view index with attributes }

/-- The frame of a slot after it has been opened, with the length of the buffer before it. -/
def slotFrame (options : Options) (attributes : AttributeMap) (index : Int) (start : Nat) : Frame :=
  { viewFrame Frame.slotTag attributes index with
    own := none
    namespaces := modulesOf options attributes
    splice := start + 2
    slotName := some (Element.slotName attributes) }

/-- The fragments that a slot writes when it is opened. -/
def slotOpening (options : Options) (attributes : AttributeMap) (index : Int) : List Fragment :=
  let element := options.settings.elementName index
  [.code (Construction.declareOnly element), .slot element (Element.slotName attributes)]

theorem openSlot_inTag : Yields (inTag c d frame b) (openSlot options view) ()
      (inTag { c with inSlotFallback := true } d
        { frame with
          splice := b.length + 2
          slotName := some (Element.slotName view.attributes) }
        (b ++ slotOpening options view.attributes view.index)) := by
  refine append_inTag.bind ?_
  refine modifyBuffer_inTag.bind ?_
  refine markSplice_inTag.bind ?_
  refine (modifyTop_inTag fun _ _ => rfl).bind ?_
  refine yields_modify fun w hw => ?_
  rw [show core { w with inSlotFallback := true } = { core w with inSlotFallback := true } from rfl,
    hw]
  simp only [inTag, withDraft, slotOpening, map_cons, map_nil, append_assoc,
    cons_append, nil_append, length_append, length_cons, length_nil]
  rfl

/-- The frame of an element after it has been opened, with the length of the buffer before it. -/
def elementFrame (options : Options) (path : Option Text) (name : Text) (attributes : AttributeMap)
    (index : Int) (start : Nat) : Frame :=
  { viewFrame name attributes index with
    own := none
    namespaces := modulesOf options attributes
    splice := start + (slotVariable path index).length
    isCustom := path.isSome
    descriptors := bindings options name attributes }

/-- The code that an element writes when it is opened. -/
def elementOpening (options : Options) (path : Option Text) (name : Text)
    (attributes : AttributeMap) (index : Int) (inSlot : Bool) : List Fragment :=
  (slotVariable path index).map .code ++
    (Element.creation options path name attributes index inSlot).map .code

section

variable {path : Option Text} {inSlot : Bool} (hsplice : frame.splice = b.length)
  (hcustom : frame.isCustom = false)
include hsplice hcustom

theorem startElement_inTag : Yields (inTag c d frame b) (startElement options view path inSlot)
    (match path with
      | some path => Construction.constructCustom options.settings view.index
          (Name.split view.tagName).1 path inSlot
      | none => Construction.construct options.settings view.index
          (.new (.identifier (Name.split view.tagName).1) []) inSlot)
    (inTag c d
      { frame with
        splice := b.length + (slotVariable path view.index).length
        isCustom := path.isSome }
      (b ++ (slotVariable path view.index).map .code)) := by
  cases path with
  | none =>
    refine Yields.bind (yields_outside fun _ => rfl) ((yields_pure _ _).congr rfl ?_)
    show inTag c d frame b =
      inTag c d { frame with splice := b.length, isCustom := false } (b ++ [])
    rw [append_nil, ← hsplice, ← hcustom]
  | some path =>
    refine (modifyTop_inTag fun _ _ => rfl).bind ?_
    refine append_inTag.bind ?_
    refine markSplice_inTag.bind ((yields_pure _ _).congr rfl ?_)
    simp only [slotVariable, Option.isSome_some, if_true, length_append,
      length_map]

theorem openElement_inTag :
    Yields (inTag c d frame b) (openElement options view path inSlot) ()
      (inTag c d
        { frame with
          splice := b.length + (slotVariable path view.index).length
          isCustom := path.isSome
          descriptors :=
            frame.descriptors ++ bindings options view.tagName view.attributes }
        (b ++ elementOpening options path view.tagName view.attributes view.index inSlot)) := by
  refine (startElement_inTag hsplice hcustom).bind ?_
  refine applyAttributes_inTag.bind ?_
  refine append_inTag.bind ((yields_log _ _ _).congr rfl ?_)
  simp only [elementOpening, Element.creation, append_assoc, map_append]
  rfl

end

/-! ### The two kinds of buffers -/

/-- A frame without a buffer writes into the one below. -/
theorem inTag_shared (hown : frame.own = none) :
    inTag c d frame b = c.withDraft ((d.setBuffer b).push frame) := by
  rw [inTag, Draft.setBuffer_push hown]

/-- A frame with a buffer writes into it. -/
theorem inTag_own (hown : frame.own = some b) :
    inTag c d frame b = c.withDraft (d.push frame) := by
  rw [inTag, Draft.setBuffer_push_own (by rw [hown]; rfl), ← hown]

/-- The walk when the own code of a view starts: it has its modules and its index, and it is recorded
in the tag around it. -/
def viewEntered (options : Options) (c : Walk) (d : Draft) (name : Text)
    (attributes : AttributeMap) (inSlot : Bool) : Walk :=
  let index := if inSlot then c.treeIndex else c.treeIndex + 1
  let b := d.buffer ++ (rootIntro options d attributes).map .code
  let view := viewFrame name attributes index
  inTag { c with treeIndex := index } (d.modifyTop (recordChild view))
    { view with own := none, namespaces := modulesOf options attributes, splice := b.length }
    b

theorem openView_yields
    (hown : Yields (viewEntered options c d name attributes (d.frames.head?.any Frame.isSlot))
      (let index := if d.frames.head?.any Frame.isSlot then c.treeIndex else c.treeIndex + 1
       let view := viewFrame name attributes index
       if name = Frame.slotTag then openSlot options view
       else openElement options view
         (modulePath? (modulesOf options attributes ++ d.scope) name)
         (d.frames.head?.any Frame.isSlot)) () c') :
    Yields (c.withDraft (d.push (viewFrame name attributes (-1))))
      (openView options [] (viewFrame name attributes (-1)) d.frames.head?) () c' := by
  rw [← inTag_own rfl]
  have hscope : (inTag c d (viewFrame name attributes (-1)) []).draft.scope = d.scope := by
    rfl
  refine ((elementModule_yields options _).congr (by rw [hscope]) rfl).bind ?_
  refine declareModules_inTag.bind ?_
  refine takeIndex_inTag.bind ?_
  refine (attach_inTag rfl).bind ?_
  refine markSplice_inTag.bind ?_
  exact hown

section

variable (options : Options) (d : Draft) (attributes : AttributeMap)

/-- The walk after a slot has been opened. -/
theorem openView_slot : let inSlot := d.frames.head?.any Frame.isSlot
    let index := if inSlot then c.treeIndex else c.treeIndex + 1
    let b := d.buffer ++ (rootIntro options d attributes).map .code
    Yields (c.withDraft (d.push (viewFrame Frame.slotTag attributes (-1))))
      (openView options [] (viewFrame Frame.slotTag attributes (-1)) d.frames.head?) ()
      (inTag { c with treeIndex := index, inSlotFallback := true }
        (d.modifyTop (recordChild (viewFrame Frame.slotTag attributes index)))
        (slotFrame options attributes index b.length)
        (b ++ slotOpening options attributes index)) := by
  intro inSlot index b
  refine openView_yields ?_
  exact openSlot_inTag

/-- The walk after an element has been opened. -/
theorem openView_element
    (hname : name ≠ Frame.slotTag) : let inSlot := d.frames.head?.any Frame.isSlot
    let index := if inSlot then c.treeIndex else c.treeIndex + 1
    let path := modulePath? (modulesOf options attributes ++ d.scope) name
    let b := d.buffer ++ (rootIntro options d attributes).map .code
    Yields (c.withDraft (d.push (viewFrame name attributes (-1))))
      (openView options [] (viewFrame name attributes (-1)) d.frames.head?) ()
      (inTag { c with treeIndex := index }
        (d.modifyTop (recordChild (viewFrame name attributes index)))
        (elementFrame options path name attributes index b.length)
        (b ++ elementOpening options path name attributes index inSlot)) := by
  intro inSlot index path b
  refine openView_yields ?_
  rw [if_neg hname]
  exact openElement_inTag rfl rfl

end

end ViewMarkup.Walk
