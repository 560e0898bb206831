import ViewMarkup.Proofs.Walk.Platform
import ViewMarkup.Proofs.Walk.Tags

/-!
# What the start and the end of a tag can do

In lenient mode an error is reported and the walk goes on, so between two tags a walk can stand
where no strict walk gets.  What a tag does to such a walk is said here once, as two relations, and
invariants of a walk are shown by cases on them.

* `Starts` lists what the start of a tag can come to, and `startTag_starts` says that there is
  nothing else.  `Opens` is the part of it that concerns a tag that may stand where it stands.
* `Ends` and `closeTag_ends` do the same for the end of a tag, and `Leaves` lists what becomes of
  the frame on top.
-/

namespace ViewMarkup.Walk

open Script (Node)
open Frame (slotTag skip)
open Element (attributeEvents modulePath? modulesOf)

variable {α β : Type} {options : Options} {name : Text} {attributes : AttributeMap}
  {frame parent : Frame} {d : Draft} {u w v : Walk} {m : Step α} {k : α → Step β}
  {f : Ledger → Ledger} {isFallback : Bool} {path : Option Text} {a : α} {e : Raised} {γ : Type}
  {view : Walk → γ} {c : Walk} {received : AttributeMap}

/-! ### What is gathered beside the code -/

/-- What a walk has gathered beside the code that builds the views. -/
structure Ledger where
  callbacks : List Node
  registrations : List Node
  customModules : List Node
  registeredPaths : List Text
  usedTags : List Text
  paths : List Text

def ledger (w : Walk) : Ledger where
  callbacks := w.callbacks
  registrations := w.registrations
  customModules := w.customModules
  registeredPaths := w.registeredPaths
  usedTags := w.usedTags
  paths := w.paths

namespace Ledger

/-- A module is declared under a path as written, and registered unless that has been done. -/
def declare (options : Options) (written : Text) (l : Ledger) : Ledger :=
  let path := options.resolve written
  if l.registeredPaths.contains path then { l with paths := l.paths ++ [written] }
  else { l with
    paths := l.paths ++ [written]
    registeredPaths := l.registeredPaths ++ [path]
    registrations := l.registrations ++ [Construction.registration path written]
    customModules := l.customModules ++ [Construction.customModule path] }

/-- A view is opened: its modules are declared, and a root names two more. -/
def enter (options : Options) (hasParent : Bool) (attributes : AttributeMap) (l : Ledger) :
    Ledger :=
  let l := (declaredModules attributes).foldl (fun l item => l.declare options item.2) l
  { l with paths := l.paths ++ if hasParent then [] else Construction.writtenModules attributes }

/-- An element is built; one that comes from no module is a built-in one. -/
def use (path : Option Text) (name : Text) (l : Ledger) : Ledger :=
  if path.isSome then l
  else { l with usedTags := Binding.insertName l.usedTags (Name.split name).1 }

end Ledger

/-- If the step succeeds, it changes the ledger so. -/
def Books (m : Step α) (f : Ledger → Ledger) : Prop :=
  ∀ w a v, m w = .ok a v → ledger v = f (ledger w)

theorem books_pure : Books (pure a) id := by
  intro w b v h
  cases h
  rfl

theorem Books.bind {g : Ledger → Ledger} (hm : Books m f) (hk : ∀ a, Books (k a) g) :
    Books (m >>= k) (fun l => g (f l)) := by
  intro w b v h
  obtain ⟨a, u, hu, h⟩ := bind_eq_ok h
  rw [hk a u b v h, hm w a u hu]

/-- A step that leaves the ledger alone may come first. -/
theorem Books.before (hm : Books m id) (hk : ∀ a, Books (k a) f) : Books (m >>= k) f :=
  hm.bind hk

/-- A step that leaves the ledger alone may come last. -/
theorem Books.after (hm : Books m f) (hk : ∀ a, Books (k a) id) : Books (m >>= k) f :=
  hm.bind hk

theorem books_modify {g : Walk → Walk} (h : ∀ w, ledger (g w) = f (ledger w)) :
    Books (modify g) f := by
  intro w b v hrun
  cases hrun
  exact h w

theorem books_modifyDraft {f : Draft → Draft} : Books (modifyDraft f) id :=
  books_modify fun _ => rfl

theorem ledger_sighting : Sighting ledger :=
  fun _ _ _ => rfl

theorem ledger_remote : Remote ledger :=
  ⟨fun _ _ => rfl, fun _ _ => rfl, fun _ _ => rfl, fun _ _ => rfl⟩

theorem Composed.books {raises : Bool} (hm : Composed ledger raises m) : Books m id :=
  fun _ _ _ h => hm.keeps_ok (fun _ _ => rfl) h

theorem books_report : Books (report e) id := by
  intro w b v h
  have hfinal := final_report e w
  rw [h, final_ok] at hfinal
  rw [hfinal]
  rfl

theorem declareModule_books {qualifier written : Text} :
    Books (declareModule options qualifier written) (Ledger.declare options written) := by
  intro w a v h
  have hrun : (if w.registeredPaths.contains (options.resolve written) then pure ()
      else do
        modify fun w => { w with
          registeredPaths := w.registeredPaths ++ [options.resolve written]
          registrations := w.registrations ++
            [Construction.registration (options.resolve written) written]
          customModules := w.customModules ++ [Construction.customModule (options.resolve written)] }
        log 3 ("Registered namespace '" ++ qualifier ++ "' -> " ++ options.resolve written) :
          Step Unit)
      { w with
        draft := w.draft.modifyTop fun f =>
          { f with namespaces := f.namespaces ++ [(qualifier, options.resolve written)] }
        paths := w.paths ++ [written] } = .ok a v := h
  cases hknown : w.registeredPaths.contains (options.resolve written) with
  | true =>
    rw [hknown] at hrun
    cases hrun
    exact (if_pos hknown).symm
  | false =>
    rw [hknown] at hrun
    cases hrun
    exact (if_neg (by rw [show (ledger w).registeredPaths = w.registeredPaths from rfl, hknown]; exact Bool.false_ne_true)).symm

theorem declareModules_books {declared : List (Text × Text)} :
    Books (declareModules options declared)
      (fun l => declared.foldl (fun l item => l.declare options item.2) l) := by
  induction declared with
  | nil => exact books_pure
  | cons item rest ih => exact declareModule_books.bind fun _ => ih

theorem takeIndex_books : Books (takeIndex isFallback) id := by
  intro w a v h
  cases h
  rfl

section

variable (options : Options) (frame : Frame)

theorem attach_books {hasParent : Bool} : Books (attach options frame hasParent) fun l =>
      { l with
        paths := l.paths ++
          if hasParent then [] else Construction.writtenModules frame.attributes } := by
  refine books_modifyDraft.before fun _ => ?_
  cases hasParent with
  | true =>
    intro w a v h
    cases h
    exact congrArg (fun paths => { ledger w with paths }) (List.append_nil _).symm
  | false => exact Books.after (books_modify fun _ => rfl) fun _ => books_modifyDraft

theorem openSlot_books : Books (openSlot options frame) id := by
  intro w a v h
  cases h
  rfl

theorem openElement_books :
    Books (openElement options frame path isFallback) (Ledger.use path frame.tagName) := by
  have hstart : Books (startElement options frame path isFallback)
      (Ledger.use path frame.tagName) := by
    intro w a v h
    cases path <;> (cases h; rfl)
  refine hstart.after fun statements => ?_
  have hsettings : Composed ledger true (applyAttributes options frame frame.attributes) :=
    applyAttributes_composed ledger_sighting
  refine hsettings.books.before fun settings => ?_
  exact books_modifyDraft.before fun _ => books_modify fun _ => rfl

/-- What the view on top adds to the ledger when it is built. -/
theorem buildView_books {parent : Option Frame} : Books (buildView options frame parent path) fun l =>
      (if frame.tagName = slotTag then id else Ledger.use path frame.tagName)
        (l.enter options parent.isSome frame.attributes) := by
  intro w a v h
  obtain ⟨_, declared, hdeclared, h⟩ := bind_eq_ok h
  obtain ⟨index, indexed, hindexed, h⟩ := bind_eq_ok h
  obtain ⟨_, attached, hattached, h⟩ := bind_eq_ok h
  obtain ⟨_, marked, hmarked, h⟩ := bind_eq_ok h
  have hlast : Books (if frame.tagName = slotTag then openSlot options { frame with index }
      else openElement options { frame with index } path (parent.any Frame.isSlot))
      (if frame.tagName = slotTag then id else Ledger.use path frame.tagName) := by
    split
    · exact openSlot_books _ _
    · exact openElement_books _ _
  rw [hlast marked a v h, books_modifyDraft _ _ _ hmarked, attach_books _ _ _ _ _ hattached,
    takeIndex_books _ _ _ hindexed, declareModules_books _ _ _ hdeclared]
  rfl

end

/-! ### Completing a tag -/

/-- If the step raises an error in lenient mode, it has done nothing before, and the error has a
property. -/
def Refuses (p : Raised → Prop) (m : Step α) : Prop :=
  ∀ w e v, w.channel.strict = false → m w = .error (.raised e) v → v = w ∧ p e

/-- A composed step that reports what it finds raises nothing in lenient mode. -/
theorem Composed.not_raised (hm : Composed view false m)
    (hw : w.channel.strict = false) : m w ≠ .error (.raised e) v :=
  fun h => nomatch ((hm.agree w hw).fresh e v h).1

section Refusing

variable {p : Raised → Prop}

theorem Composed.refuses (hm : Composed view false m) : Refuses p m :=
  fun _ _ _ hw h => absurd h (hm.not_raised hw)

theorem refuses_fail {fault : TagFault} (hp : p (.ofCause (.tag fault))) :
    Refuses p (fail fault : Step α) := by
  intro w e v _ h
  cases h
  exact ⟨rfl, hp⟩

/-- The step only looks at the walk, whether it fails or not. -/
def Looks (m : Step α) : Prop :=
  ∀ w, final (m w) = w

theorem Looks.eq_of_ok (hm : Looks m) (h : m w = .ok a v) : v = w := by
  have hfinal := hm w
  rwa [h] at hfinal

theorem Looks.refuses (hlooks : Looks m) (hm : Refuses p m) (hk : ∀ a, Refuses p (k a)) :
    Refuses p (m >>= k) := by
  intro w e v hw h
  cases hrun : m w with
  | error failure u =>
    rw [bind_error hrun] at h
    cases h
    exact hm w e v hw hrun
  | ok a u =>
    rw [bind_ok hrun] at h
    cases hlooks.eq_of_ok hrun
    exact hk a w e v hw h

end Refusing

theorem elementModule_eq (options : Options) (frame : Frame) (w : Walk) :
    elementModule options [] frame w = match (Name.split frame.tagName).2 with
      | none => .ok none w
      | some qualifier =>
        match findModule? options (declaredModules frame.attributes) w.draft.frames qualifier with
        | some path => .ok (some path) w
        | none =>
          .error (.raised (.ofCause (.tag (.unknownNamespace qualifier frame.tagName)))) w := by
  unfold elementModule
  rw [get_bind, List.nil_append]
  cases (Name.split frame.tagName).2 with
  | none => rfl
  | some qualifier =>
    dsimp only
    cases findModule? options (declaredModules frame.attributes) w.draft.frames qualifier <;> rfl

theorem elementModule_looks : Looks (elementModule options [] frame) := by
  intro w
  rw [elementModule_eq]
  split
  · rfl
  · split <;> rfl

/-- A tag with a qualifier comes from a module, or it is refused. -/
theorem elementModule_known (h : elementModule options [] frame u = .ok none v) :
    (Name.split frame.tagName).2 = none := by
  rw [elementModule_eq] at h
  split at h
  · assumption
  · split at h <;> cases h

/-- What a tag is refused for when it is completed: the module of a view is not known, or a template
has no key. -/
inductive OpenFault (frame : Frame) : Option Frame → Raised → Prop
  | unknown {parent : Option Frame} {qualifier : Text} (hkind : frame.kind = .view)
      (hqualifier : (Name.split frame.tagName).2 = some qualifier) :
      OpenFault frame parent (.ofCause (.tag (.unknownNamespace qualifier frame.tagName)))
  | keyless {parent : Frame} (hkind : frame.kind = .keyedTemplate) :
      OpenFault frame (some parent) (.ofCause (.tag (.missingKey frame.tagName parent.fullName)))

theorem openUnder_refuses (options : Options) (parent : Option Frame) :
    Refuses (OpenFault frame parent) (openUnder options [] frame false parent) := by
  unfold openUnder
  split
  · next hkind =>
    refine elementModule_looks.refuses (fun w e v _ h => ?_) fun path =>
      (buildView_composed outline_apart options frame _ path).refuses
    rw [elementModule_eq] at h
    split at h
    · cases h
    · next hqualifier =>
      split at h <;> cases h
      exact ⟨rfl, .unknown hkind hqualifier⟩
  · rintro _ _ _ _ ⟨⟩
  · rintro _ _ _ _ ⟨⟩
  · rintro _ _ _ _ ⟨⟩
  · exact (placeFactory_composed outline_apart.draft _ _ _).refuses
  · exact (placeFactory_composed outline_apart.draft _ _ _).refuses
  · next hkind =>
    split
    · exact (placeFactory_composed outline_apart.draft _ _ _).refuses
    · exact refuses_fail (.keyless hkind)
  · exact (holdSlots_composed outline_apart.draft).refuses

theorem head?_entered (hhead : w.draft.frames.head? = some parent) :
    (w.draft.modifyTop entered).frames.head? = some (entered parent) := by
  rw [Draft.head?_modifyTop, hhead]
  rfl

/-- The index that a view on top of a draft gets. -/
def nextIndex (w : Walk) (d : Draft) : Int :=
  if d.frames.head?.any Frame.isSlot then w.treeIndex else w.treeIndex + 1

/-- **What completing a tag can come to**, given the draft below its frame. -/
inductive Opens (options : Options) (d : Draft) (frame : Frame) (w v : Walk) : Prop
  /-- The tag has been refused after all, and is left out. -/
  | refused (hcore : core v = (core w).withDraft (d.push { frame with ignored := true }))
      (hledger : ledger v = ledger w)
  | property {property : Text} (hkind : frame.kind = .property property)
      (hcore : core v = (core w).withDraft (d.push frame)) (hledger : ledger v = ledger w)
  | factory {shape : FactoryShape} (hshape : factoryShape? options.settings frame = some shape)
      (hcore : core v = (core w).withDraft
        ((d.setBuffer (d.buffer ++ [.factory shape])).push (placing frame)))
      (hledger : ledger v = ledger w)
  | slotContent (hkind : frame.kind = .slotContent)
      (hcore : core v = (core w).withDraft ((d.modifyTop holding).push frame))
      (hledger : ledger v = ledger w)
  | slot {attributes : AttributeMap} (hframe : frame = viewFrame slotTag attributes (-1))
      (hcore :
        let index := nextIndex w d
        let b := d.buffer ++ (rootIntro options d attributes).map .code
        core v = inTag { core w with treeIndex := index, inSlotFallback := true }
          (d.modifyTop (recordChild (viewFrame slotTag attributes index)))
          (slotFrame options attributes index b.length)
          (b ++ slotOpening options attributes index))
      (hledger : ledger v = (ledger w).enter options d.frames.head?.isSome attributes)
  | element {name : Text} {attributes : AttributeMap}
      (hframe : frame = viewFrame name attributes (-1)) (hname : name ≠ slotTag)
      (path : Option Text)
      (hpath : path = modulePath? (modulesOf options attributes ++ d.scope) name)
      (hcore :
        let index := nextIndex w d
        let b := d.buffer ++ (rootIntro options d attributes).map .code
        core v = inTag { core w with treeIndex := index }
          (d.modifyTop (recordChild (viewFrame name attributes index)))
          (elementFrame options path name attributes index b.length)
          (b ++ elementOpening options path name attributes index
            (d.frames.head?.any Frame.isSlot)))
      (hledger : ledger v =
        ((ledger w).enter options d.frames.head?.isSome attributes).use path name)
      (hknown : path = none → (Name.split name).2 = none)

/-- What opening a view adds to the ledger. -/
theorem openView_ledger (hu : core u = c.withDraft (d.push frame))
    (h : openView options [] frame d.frames.head? u = .ok () v) :
    ledger v = (if frame.tagName = slotTag then id
        else Ledger.use (modulePath?
          (modulesOf options frame.attributes ++ (d.push frame).scope) frame.tagName)
            frame.tagName)
      ((ledger u).enter options d.frames.head?.isSome frame.attributes) := by
  obtain ⟨path, t, ht, hbuild⟩ := bind_eq_ok h
  cases elementModule_looks.eq_of_ok ht
  obtain ⟨hpath, _⟩ := elementModule_yields options frame u hu path u ht
  rw [hpath] at hbuild
  exact buildView_books options frame u () v hbuild

section

variable (hu : core u = (core w).withDraft (d.push (viewFrame name attributes (-1))))
include hu

theorem openView_known {parent : Option Frame}
    (h : openView options [] (viewFrame name attributes (-1)) parent u = .ok () v)
    (hpath : modulePath? (modulesOf options attributes ++ d.scope) name = none) :
    (Name.split name).2 = none := by
  obtain ⟨path, t, ht, _⟩ := bind_eq_ok h
  obtain ⟨hfound, _⟩ := elementModule_yields options _ u hu path t ht
  have hnone : path = none := hfound.trans hpath
  rw [hnone] at ht
  exact elementModule_known ht

theorem openView_opens (hledger : ledger u = ledger w)
    (h : openView options [] (viewFrame name attributes (-1)) d.frames.head? u = .ok () v) :
    Opens options d (viewFrame name attributes (-1)) w v := by
  have hbooks := openView_ledger hu h
  rw [hledger] at hbooks
  by_cases hname : name = slotTag
  · subst hname
    exact .slot rfl (core_eq hu h (openView_slot options d attributes)) hbooks
  · rw [if_neg (show (viewFrame name attributes (-1)).tagName ≠ slotTag from hname)] at hbooks
    exact .element rfl hname _ rfl (core_eq hu h (openView_element options d attributes hname)) hbooks
      (openView_known hu h)

end

/-- A tag that belongs to the view around it. -/
theorem openInner_opens (hkind : frame.kind ≠ .view) (hskipped : frame.kind ≠ .skipped)
    (hown : frame.own = some []) (hhead : d.frames.head? = some parent)
    (hu : core u = (core w).withDraft (d.push frame)) (hledger : ledger v = ledger w)
    (h : openTop options [] frame false u = .ok () v) : Opens options d frame w v := by
  have hfactory : ∀ shape, factoryShape? options.settings frame = some shape →
      Opens options d frame w v := by
    intro shape hshape
    refine .factory hshape ((core_eq hu h (openFactory_yields hhead hshape hown)).trans ?_) hledger
    exact @inTag_own (core w) (placing frame) _ [] hown
  cases hcase : frame.kind with
  | view => exact absurd hcase hkind
  | skipped => exact absurd hcase hskipped
  | property property =>
    have hcore := core_eq hu h (openProperty_yields hcase hown)
    exact .property hcase (hcore.trans (inTag_own hown)) hledger
  | slotContent =>
    have hcore := core_eq hu h (openSlotContent_yields hcase hhead hown)
    exact .slotContent hcase (hcore.trans (inTag_own hown)) hledger
  | template property | templateArray property | keyedTemplate =>
    exact hfactory _ (by rw [factoryShape?, hcase])

/-! ### The start of a tag -/

/-- The change of a frame when a tag is left out inside. -/
def opening (frame : Frame) : Frame :=
  { frame with hasOpenChild := true }

/-- A tag has a frame: it is not named after a platform, and no tag of another platform is open. -/
structure Framed (name : Text) (w : Walk) : Prop where
  name : Name.isPlatform name = false
  suppressed : w.suppressed = 0

/-- Why a tag has no frame, and how many tags of other platforms are open after it. -/
inductive Unframed (name : Text) (w : Walk) (change : Int) : (suppressed : Int) → Prop
  | platform (hname : Name.isPlatform name = true) : Unframed name w change (w.suppressed + change)
  | hushed (hname : Name.isPlatform name = false) (hsuppressed : w.suppressed ≠ 0) :
      Unframed name w change w.suppressed

/-- **What the start of a tag can do.** -/
inductive Starts (options : Options) (name : Text) (attributes : AttributeMap) (w v : Walk) : Prop
  /-- The tag is named after a platform, or stands in a tag of another platform. -/
  | outside {suppressed : Int} (hcore : core v = { core w with suppressed })
      (hledger : ledger v = ledger w)
      (hwhy : Unframed name w (silence options name) suppressed)
  /-- The tag is left out, with all that it holds. -/
  | skipped {received : AttributeMap}
      (hcore : core v = (core w).withDraft
        ((w.draft.modifyTop opening).push { skip name with attributes := received }))
      (hledger : ledger v = ledger w) (hframed : Framed name w)
  /-- The tag may stand where it stands. -/
  | accepted {frame : Frame}
      (hignored : w.draft.frames.head?.any (·.ignored) = false)
      (haccepted : Accepted w name frame)
      (hopens : Opens options (w.draft.modifyTop entered) { frame with attributes } w v)
      (hframed : Framed name w)

theorem attributeEvents_ok (options : Options) (attributes : AttributeMap) (u : Walk) :
    ∃ t, events options (attributeEvents attributes) u = .ok () t := by
  induction attributes generalizing u with
  | nil => exact ⟨u, rfl⟩
  | cons item rest ih =>
    have hset : ∃ t, setAttribute item.1 item.2 u = .ok () t := by
      unfold setAttribute
      rw [get_bind]
      cases u.receiver <;> exact ⟨_, rfl⟩
    obtain ⟨t, ht⟩ := hset
    obtain ⟨s, hs⟩ := ih t
    exact ⟨s, (bind_ok ht).trans hs⟩

/-- What a tag has come to when it has received some attributes and is not complete. -/
inductive Receives (options : Options) (name : Text) (received : AttributeMap) (w u : Walk) : Prop
  | outside {suppressed : Int} (hcore : core u = { core w with suppressed })
      (hledger : ledger u = ledger w)
      (hwhy : Unframed name w (silence options name) suppressed)
  | skipped
      (hcore : core u = { (core w).withDraft ((w.draft.modifyTop opening).push
        { skip name with attributes := .ofList received }) with receiver := .top })
      (hledger : ledger u = ledger w) (hframed : Framed name w)
  | accepted {frame : Frame}
      (hignored : w.draft.frames.head?.any (·.ignored) = false)
      (haccepted : Accepted w name frame)
      (hcore : core u = { (core w).withDraft ((w.draft.modifyTop entered).push
        { frame with attributes := .ofList received }) with receiver := .top })
      (hledger : ledger u = ledger w) (hframed : Framed name w)

/-- A tag with a frame of its own receives attributes. -/
theorem receive_framed (received : AttributeMap) (hattributes : frame.attributes = [])
    (hu : core u = { (core w).withDraft (d.push frame) with receiver := .top })
    (hledger : ledger u = ledger w) :
    ∃ t, events options (attributeEvents received) u = .ok () t ∧
      core t = { (core w).withDraft (d.push { frame with attributes := .ofList received }) with
        receiver := .top } ∧ ledger t = ledger w := by
  obtain ⟨t, hset⟩ := attributeEvents_ok options received u
  obtain ⟨_, ht⟩ := @attributeEvents_yields options frame { core w with receiver := .top } d rfl
    received u hu () t hset
  rw [hattributes] at ht
  exact ⟨t, hset, ht, ((attributeEvents_composed ledger_remote).books _ _ _ hset).trans hledger⟩

/-- A tag that has a frame is left out, reported or taken. -/
theorem openTag_eq (hframed : Framed name w) : openTag options name w =
    (if w.draft.frames.head?.any fun parent => parent.ignored then pushSkipped name
    else match w.newFrame name with
      | .error fault => do
        report (.ofCause (.tag fault))
        pushSkipped name
      | .ok frame => do
        modifyTop entered
        modifyDraft fun d => d.push frame
        modify fun w => { w with receiver := .top }
        log 3 ("Opening '" ++ name ++ "' (" ++ frame.kind.label ++ ")")) w := by
  unfold openTag
  rw [get_bind, hframed.name, if_neg Bool.false_ne_true,
    if_neg (fun hne => hne hframed.suppressed)]
  rfl

/-- **What the start of a tag comes to before the tag is complete.** -/
theorem receive_run (options : Options) (name : Text) (received : AttributeMap)
    (hw : w.channel.strict = false) (hreceiver : w.receiver = .nobody) :
    ∃ u, (do openTag options name
             events options (attributeEvents received) : Step Unit) w = .ok () u ∧
      Receives options name received w u := by
  have hunframed {v : Walk} (hopen : openTag options name w = .ok () v) (hv : v.receiver = .nobody) :
      (do openTag options name
          events options (attributeEvents received) : Step Unit) w = .ok () v :=
    (bind_ok hopen).trans (attributes_nobody hv)
  cases hname : Name.isPlatform name with
  | true =>
    exact ⟨_, hunframed (openTag_platform hname hreceiver) hreceiver,
      .outside rfl rfl (.platform hname)⟩
  | false =>
    by_cases hsuppressed : w.suppressed = 0
    · have hframed : Framed name w := ⟨hname, hsuppressed⟩
      have hopen := @openTag_eq options name w hframed
      have hskipped {v : Walk} (hv : openTag options name w = .ok () v)
          (hcore : core v = { (core w).withDraft
            ((w.draft.modifyTop opening).push (skip name)) with receiver := .top })
          (hledger : ledger v = ledger w) :
          ∃ u, (do openTag options name
                   events options (attributeEvents received) : Step Unit) w = .ok () u ∧
            Receives options name received w u := by
        obtain ⟨u, hu, hcore, hledger⟩ := receive_framed received rfl hcore hledger
        exact ⟨u, (bind_ok hv).trans hu, .skipped hcore hledger hframed⟩
      cases hignored : w.draft.frames.head?.any fun parent => parent.ignored with
      | true =>
        rw [hignored, if_pos rfl] at hopen
        exact hskipped (hopen.trans rfl) rfl rfl
      | false =>
        rw [hignored, if_neg Bool.false_ne_true] at hopen
        cases hframe : w.newFrame name with
        | error fault =>
          have hreport := @report_lenient w (.ofCause (.tag fault)) rfl hw
          rw [hframe] at hopen
          exact hskipped ((hopen.trans (bind_ok hreport)).trans rfl) rfl rfl
        | ok frame =>
          have haccepted := newFrame_ok hframe
          rw [hframe] at hopen
          obtain ⟨v, hv, hcore, hledger⟩ : ∃ v, openTag options name w = .ok () v ∧
              core v = { (core w).withDraft ((w.draft.modifyTop entered).push frame) with
                receiver := .top } ∧ ledger v = ledger w :=
            ⟨_, hopen.trans rfl, rfl, rfl⟩
          obtain ⟨u, hu, hcore, hledger⟩ :=
            receive_framed received haccepted.unset hcore hledger
          exact ⟨u, (bind_ok hv).trans hu, .accepted hignored haccepted hcore hledger hframed⟩
    · exact ⟨_, hunframed (openTag_hushed hname hreceiver hsuppressed) hreceiver,
        .outside rfl rfl (.hushed hname hsuppressed)⟩

/-- What the start of a tag comes to, given what has been received. -/
inductive Begins (options : Options) (name : Text) (attributes : AttributeMap) (w : Walk) :
    EStateM.Result Failure Walk Unit → Prop
  | outside {suppressed : Int} {v : Walk} (hcore : core v = { core w with suppressed })
      (hledger : ledger v = ledger w)
      (hwhy : Unframed name w (silence options name) suppressed) :
      Begins options name attributes w (.ok () v)
  | skipped {received : AttributeMap} {v : Walk}
      (hcore : core v = (core w).withDraft
        ((w.draft.modifyTop opening).push { skip name with attributes := received }))
      (hledger : ledger v = ledger w) (hframed : Framed name w) :
      Begins options name attributes w (.ok () v)
  /-- The tag has a frame, and what it stands for is to be opened. -/
  | accepted {frame : Frame} {s : Walk}
      (hignored : w.draft.frames.head?.any (·.ignored) = false)
      (haccepted : Accepted w name frame)
      (hcore : core s = (core w).withDraft
        ((w.draft.modifyTop entered).push { frame with attributes }))
      (hledger : ledger s = ledger w) (hframed : Framed name w) :
      Begins options name attributes w (completeTop options [] { frame with attributes } false s)

/-- What becomes of a tag that is completed. -/
theorem Receives.begins (h : Receives options name received w u)
    (hreceiver : w.receiver = .nobody) (given : Option AttributeMap) :
    Begins options name (given.getD (.ofList received)) w (completeTag options given u) := by
  have hrun : completeTag options given u =
      completeReceiver options given u.receiver { u with receiver := .nobody } := rfl
  cases h with
  | outside hcore hledger hwhy =>
    have hu : u.receiver = .nobody := (congrArg receiver hcore :).trans hreceiver
    rw [completeTag_nobody hu]
    exact .outside hcore hledger hwhy
  | skipped hcore hledger hframed =>
    have hhead : u.draft.frames.head? = some { skip name with attributes := .ofList received } :=
      (congrArg (·.draft.frames.head?) hcore :)
    have hdone : core { u with receiver := .nobody } = (core w).withDraft
        ((w.draft.modifyTop opening).push
          { skip name with attributes := .ofList received }) := by
      show ({ core u with receiver := .nobody } : Walk) = _
      rw [hcore, ← hreceiver]
      rfl
    rw [hrun, show u.receiver = .top from (congrArg receiver hcore :), completeReceiver, get_bind,
      hhead]
    exact .skipped hdone hledger hframed
  | @accepted frame hignored haccepted hcore hledger hframed =>
    have hdraft : u.draft =
        (w.draft.modifyTop entered).push { frame with attributes := .ofList received } :=
      (congrArg draft hcore :)
    rw [hrun, show u.receiver = .top from (congrArg receiver hcore :),
      @completeReceiver_top options _ { u with receiver := .nobody } _ given hdraft
        haccepted.ignored]
    change Begins options name _ w
      (completeTop options [] { frame with attributes := given.getD (.ofList received) } false _)
    refine .accepted hignored haccepted ?_ hledger hframed
    show ({ core u with receiver := .nobody } : Walk).withDraft _ = _
    rw [hcore, ← hreceiver]
    rfl

theorem beginTag_begins (given : Option AttributeMap)
    (hw : w.channel.strict = false) (hreceiver : w.receiver = .nobody) :
    Begins options name (given.getD (.ofList received)) w
      (beginTag options name received given w) := by
  obtain ⟨u, hu, hreceives⟩ := receive_run options name received hw hreceiver
  have hbegin : beginTag options name received given = (do
      (do openTag options name
          events options (attributeEvents received) : Step Unit)
      completeTag options given) := (bind_assoc _ _ _).symm
  rw [hbegin, bind_ok hu]
  exact hreceives.begins hreceiver given

theorem startTag_begins (hw : w.channel.strict = false) (hreceiver : w.receiver = .nobody) :
    Begins options name attributes w (startTag options name attributes w) :=
  beginTag_begins (some attributes) hw hreceiver

section

variable (hw : w.channel.strict = false)
include hw

/-- A tag that may stand where it stands is opened or refused. -/
theorem completeTop_opens {s : Walk} (haccepted : Accepted w name frame)
    (hs : core s = (core w).withDraft ((w.draft.modifyTop entered).push { frame with attributes }))
    (hbooks : ledger s = ledger w)
    (h : completeTop options [] { frame with attributes } false s = .ok () v) :
    Opens options (w.draft.modifyTop entered) { frame with attributes } w v := by
  have hlenient : s.channel.strict = false :=
    ((congrArg (·.channel.strict) hs :) : _ = w.channel.strict).trans hw
  rcases recovering_ok (openTop_composed outline_apart options [] _ false) h with
    hopen | ⟨_, e, r, q, hraised, hreport, hrecover⟩
  · by_cases hview : Element.kindOf name = .view
    · rw [haccepted.view hview] at hopen hs ⊢
      have hrun : openUnder options [] (viewFrame name attributes (-1)) false s.draft.parent? s =
        .ok () v := hopen
      rw [draft_of_core hs] at hrun
      exact openView_opens hs hbooks hrun
    · obtain ⟨parent, hhead, _⟩ := haccepted.other hview
      have hhead' := head?_entered hhead
      have hkind := haccepted.kind
      have hopened : ledger v = ledger w := by
        have hrun : openUnder options [] { frame with attributes } false s.draft.parent? s =
          .ok () v := hopen
        exact ((openInner_composed ledger_sighting options [] (hkind ▸ hview) false).books _ _ _
          hrun).trans hbooks
      exact openInner_opens (hkind ▸ hview) (hkind ▸ kindOf_ne_skipped) haccepted.own hhead' hs hopened
        hopen
  · obtain ⟨rfl, _⟩ := openUnder_refuses options _ s e r hlenient hraised
    have hq : core q = _ := core_eq hs hreport yields_report
    cases hrecover
    refine .refused ?_ ((books_report r () q hreport).trans hbooks)
    show (core q).withDraft ((core q).draft.modifyTop fun f => { f with ignored := true }) = _
    rw [hq]
    rfl

theorem Begins.starts {r : EStateM.Result Failure Walk Unit}
    (h : Begins options name attributes w r) (hr : r = .ok () v) :
    Starts options name attributes w v := by
  cases h with
  | outside hcore hledger hwhy =>
    cases hr
    exact .outside hcore hledger hwhy
  | skipped hcore hledger hframed =>
    cases hr
    exact .skipped hcore hledger hframed
  | accepted hignored haccepted hcore hledger hframed =>
    exact .accepted hignored haccepted (completeTop_opens hw haccepted hcore hledger hr) hframed

/-- **What the start of a tag comes to.** -/
theorem startTag_starts (hreceiver : w.receiver = .nobody)
    (h : startTag options name attributes w = .ok () v) : Starts options name attributes w v :=
  (startTag_begins hw hreceiver).starts hw h

end

/-! ### The end of a tag -/

/-- Whether a tag of a kind places a factory in the buffer below. -/
def isFactory : TagKind → Bool
  | .template _ | .templateArray _ | .keyedTemplate => true
  | _ => false

/-- What a frame on top of a draft is like between two tags. -/
structure Shaped (d : Draft) (frame : Frame) : Prop where
  ignored : frame.ignored = true → frame.placed = false
  view : frame.ignored = false → frame.kind = .view → frame.own = none ∧ frame.placed = false
  inner : frame.ignored = false → frame.kind ≠ .view → frame.kind ≠ .skipped ∧
    frame.placed = isFactory frame.kind ∧ (∃ own, frame.own = some own) ∧
    ∃ parent, d.frames.head? = some parent

/-- **What becomes of a frame that is closed**, given the draft below it. -/
inductive Leaves (options : Options) (d : Draft) (frame : Frame) (w v : Walk) : Prop
  | element {callbacks : Binding.Callbacks} (hkind : frame.kind = .view)
      (hslot : frame.isSlot = false) (hown : frame.own = none)
      (hcallbacks : Binding.callbacks? frame.index (options.settings.elementName frame.index)
        frame.descriptors = some callbacks)
      (hcore : core v = ended (core w) d (d.buffer ++
        (Construction.addChildren options.settings frame ++ callbacks.attach).map .code))
      (hledger : ledger v =
        { ledger w with callbacks := w.callbacks ++ callbacks.declarations })
  /-- An element that holds slot content beside other tags is reported. -/
  | mixed (hkind : frame.kind = .view) (hslot : frame.isSlot = false) (hown : frame.own = none)
      (hcore : core v = ended (core w) d d.buffer) (hledger : ledger v = ledger w)
      (hlenient : w.channel.strict = false)
  | slot (hslot : frame.isSlot = true) (hown : frame.own = none)
      (hcore : core v = ended { core w with inSlotFallback := false } d
        (slotClosed options.settings frame d.buffer)) (hledger : ledger v = ledger w)
  | property {property : Text} {b : List Fragment} (hkind : frame.kind = .property property)
      (hown : frame.own = some b) (hplaced : frame.placed = false)
      (hcore : core v = ended (core w) d (d.buffer ++
        (b ++ (Construction.addToProperty options.settings frame property).map .code)))
      (hledger : ledger v = ledger w)
  | factory {shape : FactoryShape} {b : List Fragment}
      (hshape : factoryShape? options.settings frame = some shape) (hown : frame.own = some b)
      (hplaced : frame.placed = true)
      (hcore : core v = ended (core w) d (d.buffer.map (Fragment.fill
        (Draft.codeOf b ++ templateEnding options.settings frame))))
      (hledger : ledger v = ledger w)
  | slotContent {parent : Frame} {b : List Fragment} (hkind : frame.kind = .slotContent)
      (hparent : d.frames.head? = some parent) (hown : frame.own = some b)
      (hplaced : frame.placed = false)
      (hcore : core v = ended (core w) d (Buffer.insertAt d.buffer parent.splice
        (b ++ (Construction.slotAssignments options.settings frame).map .code)))
      (hledger : ledger v = ledger w)

/-- The end of a tag with a name closes a frame. -/
structure Closes (name : Text) (frame : Frame) : Prop where
  fullName : frame.fullName = name
  hasOpenChild : frame.hasOpenChild = false

/-- **What the end of a tag can do.** -/
inductive Ends (options : Options) (name : Text) (w v : Walk) : Prop
  /-- The tag is named after a platform, or stands in a tag of another platform. -/
  | outside {suppressed : Int} (hcore : core v = { core w with suppressed })
      (hledger : ledger v = ledger w)
      (hwhy : Unframed name w (-silence options name) suppressed)
  /-- No tag is open. -/
  | bare (hcore : core v = core w) (hledger : ledger v = ledger w) (hframed : Framed name w)
      (hframes : w.draft.frames = [])
  /-- It is not the end of the tag on top. -/
  | unmatched (hcore : core v = (core w).withDraft (w.draft.modifyTop shut))
      (hledger : ledger v = ledger w) (hframed : Framed name w)
      (hother : ∀ frame, w.draft.frames.head? = some frame → ¬ Closes name frame)
  /-- The tag has been left out. -/
  | dropped {d : Draft} {frame : Frame} (hdraft : w.draft = d.push frame)
      (hignored : frame.ignored = true)
      (hcore : core v = (core w).withDraft (d.modifyTop shut)) (hledger : ledger v = ledger w)
      (hframed : Framed name w)
  | left {d : Draft} {frame : Frame} (hdraft : w.draft = d.push frame)
      (hignored : frame.ignored = false) (hleaves : Leaves options d frame w v)
      (hframed : Framed name w)

theorem pop_ignored (hc : c.receiver = .nobody) (hignored : frame.ignored = true)
    (hplaced : frame.placed = false) :
    Yields (c.withDraft (d.push frame)) pop () (c.withDraft (d.modifyTop shut)) := by
  have hpop := @yields_pop frame c d hc
  rw [hignored, Bool.not_true, Bool.and_false, Bool.or_false, hplaced, if_neg Bool.false_ne_true,
    ← Draft.buffer_modifyTop (f := shut) fun _ _ => rfl, Draft.setBuffer_buffer] at hpop
  exact hpop

theorem pop_books : Books pop id :=
  (pop_composed ledger_remote).books

theorem subscriptions_eq {settings : Settings} {callbacks : Binding.Callbacks}
    (h : Binding.callbacks? frame.index (settings.elementName frame.index) frame.descriptors =
      some callbacks) : subscriptions settings frame = callbacks.attach := by
  rw [subscriptions, h]

/-- The bindings of a view add functions to the ledger. -/
theorem addCallbacks_ok (h : addCallbacks options frame w = .ok () v) :
    ∃ callbacks, Binding.callbacks? frame.index (options.settings.elementName frame.index)
      frame.descriptors = some callbacks ∧
      ledger v = { ledger w with callbacks := w.callbacks ++ callbacks.declarations } := by
  unfold addCallbacks at h
  cases hcallbacks : Binding.callbacks? frame.index (options.settings.elementName frame.index)
      frame.descriptors with
  | none =>
    rw [hcallbacks] at h
    cases h
  | some callbacks =>
    rw [hcallbacks] at h
    refine ⟨callbacks, rfl, ?_⟩
    cases hempty : frame.descriptors.isEmpty with
    | true | false => rw [hempty] at h; cases h; rfl

/-- A slot that cannot be closed leaves its buffer as it is. -/
theorem closeSlot_raised (h : closeSlot options frame w = .error (.raised e) u) :
    u = { w with inSlotFallback := false } ∧
      slotClosed options.settings frame w.draft.buffer = w.draft.buffer := by
  generalize hw : ({ w with inSlotFallback := false } : Walk) = t
  have hbuffer : w.draft.buffer = t.draft.buffer := by rw [← hw]
  have hrest : (do
      if frame.splice < t.draft.buffer.length then
        if hasBranch options.settings frame t.draft.buffer then
          let element := options.settings.elementName frame.index
          let views := (t.draft.buffer.drop frame.splice).map (Fragment.node [])
          let branch := Fragment.slotBranch element (frame.slotName.getD [])
            (some (Construction.slotFallback options.settings frame.index views))
          modifyDraft fun d => d.modifyBuffer fun b => b.take (frame.splice - 1) ++ [.code branch]
        else fail .brokenSlot : Step Unit) t = .error (.raised e) u := by
    rw [← hw]
    exact h
  rw [hbuffer, slotClosed]
  by_cases hlength : frame.splice < t.draft.buffer.length
  · rw [if_pos hlength] at hrest
    cases hbranch : hasBranch options.settings frame t.draft.buffer with
    | true =>
      rw [hbranch] at hrest
      cases hrest
    | false =>
      rw [hbranch] at hrest
      cases hrest
      exact ⟨rfl, if_neg fun h => nomatch h.2⟩
  · rw [if_neg hlength] at hrest
    cases hrest

theorem closeView_refuses (options : Options) (frame : Frame) :
    Refuses (fun _ => True) (closeView options frame) := by
  unfold closeView
  split
  · exact refuses_fail trivial
  · exact Composed.refuses
      (.bind (append_composed outline_apart.draft _) fun _ =>
        addCallbacks_composed outline_apart.toAloof)

theorem core_shared (hdraft : w.draft = d.push frame) (hown : frame.own = none) :
    core w = inTag (core w) d frame d.buffer := by
  rw [inTag_shared hown, Draft.setBuffer_buffer, ← hdraft]
  rfl

theorem core_own {b : List Fragment} (hdraft : w.draft = d.push frame) (hown : frame.own = some b) :
    core w = inTag (core w) d frame b := by
  rw [inTag_own hown, ← hdraft]
  rfl

/-- The end of an element. -/
theorem leaveElement_leaves (hreceiver : w.receiver = .nobody)
    (hdraft : w.draft = d.push frame) (hignored : frame.ignored = false) (hown : frame.own = none)
    (hplaced : frame.placed = false) (hkind : frame.kind = .view) (hslot : frame.isSlot = false)
    (h : (do endTop options frame; pop : Step Unit) w = .ok () v) : Leaves options d frame w v := by
  obtain ⟨_, u, hend, hpop⟩ := bind_eq_ok h
  rcases recovering_ok (closeTop_composed outline_apart.toAloof) hend with
    hclose | ⟨hw, e, u', t, hraised, hreport, hrecover⟩
  · have hrun : leave options frame w = .ok () v := (bind_ok hclose).trans hpop
    have hcore := core_eq (core_shared hdraft hown) hrun
      (leaveElement_yields hreceiver hignored hown hplaced hkind hslot)
    rw [closeTop_element hkind hslot] at hclose
    unfold closeView at hclose
    split at hclose
    · cases hclose
    · obtain ⟨_, t, happend, hadd⟩ := bind_eq_ok hclose
      obtain ⟨callbacks, hcallbacks, hbooks⟩ := addCallbacks_ok hadd
      cases happend
      rw [subscriptions_eq hcallbacks] at hcore
      exact .element hkind hslot hown hcallbacks hcore ((pop_books _ _ _ hpop).trans hbooks)
  · rw [closeTop_element hkind hslot] at hraised
    obtain ⟨rfl, _⟩ := closeView_refuses options frame w e u' hw hraised
    cases hrecover
    have ht : core u = core u' := core_eq rfl hreport yields_report
    have hstart : core u = (core u').withDraft (d.push frame) := by
      rw [ht, ← hdraft]
      rfl
    have hcore := core_eq hstart hpop (pop_yields hreceiver hignored)
    rw [hplaced, if_neg Bool.false_ne_true] at hcore
    exact .mixed hkind hslot hown hcore
      ((pop_books _ _ _ hpop).trans (books_report _ _ _ hreport)) hw

/-- The end of a slot. -/
theorem leaveSlot_leaves (hreceiver : w.receiver = .nobody) (hdraft : w.draft = d.push frame)
    (hignored : frame.ignored = false) (hown : frame.own = none) (hplaced : frame.placed = false)
    (hslot : frame.isSlot = true) (h : (do endTop options frame; pop : Step Unit) w = .ok () v) :
    Leaves options d frame w v := by
  obtain ⟨_, u, hend, hpop⟩ := bind_eq_ok h
  rcases recovering_ok (closeTop_composed outline_apart.toAloof) hend with
    hclose | ⟨hw, e, u', t, hraised, hreport, hrecover⟩
  · have hrun : leave options frame w = .ok () v := (bind_ok hclose).trans hpop
    have hcore := core_eq (core_shared hdraft hown) hrun
      (leaveSlot_yields hreceiver hignored hown hplaced hslot)
    have hbooks := (closeSlot_composed ledger_sighting (fun _ _ => rfl) options frame).books
    rw [closeTop_slot hslot] at hclose
    exact .slot hslot hown hcore
      ((pop_books _ _ _ hpop).trans (hbooks _ _ _ hclose))
  · rw [closeTop_slot hslot] at hraised
    obtain ⟨rfl, hclosed⟩ := closeSlot_raised hraised
    cases hrecover
    have ht : core u = { core w with inSlotFallback := false } :=
      core_eq rfl hreport yields_report
    have hstart : core u =
        ({ core w with inSlotFallback := false } : Walk).withDraft (d.push frame) := by
      rw [ht, ← hdraft]
      rfl
    have hcore := core_eq hstart hpop (pop_yields hreceiver hignored)
    rw [hdraft, Draft.buffer_push hown] at hclosed
    rw [hplaced, if_neg Bool.false_ne_true, ← hclosed] at hcore
    have hledger : ledger u = ledger w :=
      books_report { w with inSlotFallback := false } () u hreport
    exact .slot hslot hown hcore ((pop_books _ _ _ hpop).trans hledger)

/-- The end of a tag that has a frame looks at the frame on top. -/
theorem closeTag_eq (hframed : Framed name w) : closeTag options name w =
    (match w.draft.frames.head? with
    | none => pure ()
    | some frame =>
      if frame.fullName = name && !frame.hasOpenChild then do
        unless frame.ignored do
          endTop options frame
        pop
      else modifyTop shut) w := by
  unfold closeTag
  rw [get_bind, hframed.name, if_neg Bool.false_ne_true,
    if_neg (fun hne => hne hframed.suppressed)]
  rfl

section

variable (hreceiver : w.receiver = .nobody)
include hreceiver

/-- The end of a tag that belongs to the view around it. -/
theorem leaveInner_leaves (hdraft : w.draft = d.push frame) (hignored : frame.ignored = false)
    (hshaped : Shaped d frame) (hkind : frame.kind ≠ .view)
    (h : (do endTop options frame; pop : Step Unit) w = .ok () v) : Leaves options d frame w v := by
  obtain ⟨hskipped, hplaced, ⟨b, hown⟩, parent, hparent⟩ := hshaped.inner hignored hkind
  obtain ⟨_, u, hend, hpop⟩ := bind_eq_ok h
  rcases recovering_ok (closeTop_composed outline_apart.toAloof) hend with
    hclose | ⟨hw, e, u', t, hraised, hreport, hrecover⟩
  · have hinner : Composed ledger true (closeTop options frame) :=
      closeInner_composed ledger_sighting hkind
    have hledger : ledger v = ledger w :=
      (pop_books _ _ _ hpop).trans (hinner.books _ _ _ hclose)
    have hrun : leave options frame w = .ok () v := (bind_ok hclose).trans hpop
    have hstart := core_own hdraft hown
    have hfactory : ∀ shape, factoryShape? options.settings frame = some shape →
        frame.placed = true → Leaves options d frame w v := by
      intro shape hshape hplaced
      exact .factory hshape hown hplaced (core_eq hstart hrun
        (leaveFactory_yields hreceiver hignored hown hplaced hshape)) hledger
    cases hcase : frame.kind with
    | view => exact absurd hcase hkind
    | skipped => exact absurd hcase hskipped
    | property property =>
      rw [hcase] at hplaced
      exact .property hcase hown hplaced (core_eq hstart hrun
        (leaveProperty_yields hreceiver hignored hown hplaced hcase)) hledger
    | slotContent =>
      rw [hcase] at hplaced
      exact .slotContent hcase hparent hown hplaced (core_eq hstart hrun
        (leaveSlotContent_yields hreceiver hignored hown hplaced hcase hparent)) hledger
    | template property | templateArray property | keyedTemplate =>
      rw [hcase] at hplaced
      exact hfactory _ (by rw [factoryShape?, hcase]) hplaced
  · exact absurd hraised ((closeInner_composed outline_apart.draft hkind).not_raised hw)

/-- **What the end of a tag comes to.** -/
theorem closeTag_ends (hshaped : ∀ d frame, w.draft = d.push frame → Shaped d frame)
    (h : closeTag options name w = .ok () v) : Ends options name w v := by
  cases hname : Name.isPlatform name with
  | true =>
    rw [closeTag_platform hname] at h
    cases h
    exact .outside rfl rfl (.platform hname)
  | false =>
    by_cases hsuppressed : w.suppressed = 0
    · rw [closeTag_eq ⟨hname, hsuppressed⟩] at h
      rcases w.draft.eq_push_or_frames_nil with hnil | ⟨frame, d, hdraft⟩
      · rw [hnil] at h
        cases h
        exact .bare rfl rfl ⟨hname, hsuppressed⟩ hnil
      · have hhead : w.draft.frames.head? = some frame := by rw [hdraft]; rfl
        rw [hhead] at h
        dsimp only at h
        split at h
        · cases hignored : frame.ignored with
          | true =>
            rw [hignored] at h
            have hplaced := (hshaped d frame hdraft).ignored hignored
            have hstart : core w = (core w).withDraft (d.push frame) := by
              rw [← hdraft]
              rfl
            exact .dropped hdraft hignored
              (core_eq hstart h (pop_ignored hreceiver hignored hplaced)) (pop_books _ _ _ h)
              ⟨hname, hsuppressed⟩
          | false =>
            rw [hignored] at h
            refine .left hdraft hignored ?_ ⟨hname, hsuppressed⟩
            by_cases hkind : frame.kind = .view
            · obtain ⟨hown, hplaced⟩ := (hshaped d frame hdraft).view hignored hkind
              cases hslot : frame.isSlot with
              | true => exact leaveSlot_leaves hreceiver hdraft hignored hown hplaced hslot h
              | false =>
                exact leaveElement_leaves hreceiver hdraft hignored hown hplaced hkind
                  hslot h
            · exact leaveInner_leaves hreceiver hdraft hignored (hshaped d frame hdraft)
                hkind h
        · next hmatch =>
          cases h
          refine .unmatched rfl rfl ⟨hname, hsuppressed⟩ fun frame' hframe' hcloses => ?_
          cases hhead.symm.trans hframe'
          rw [hcloses.fullName, hcloses.hasOpenChild, decide_eq_true rfl] at hmatch
          exact hmatch rfl
    · rw [closeTag_hushed hname hsuppressed] at h
      cases h
      exact .outside rfl rfl (.hushed hname hsuppressed)

end

/-! ### What no tag changes -/

/-- The end of a tag closes the frame that its start has opened. -/
theorem Ends.closed (hdraft : w.draft = d.push frame) (hname : Name.isPlatform name = false)
    (hsuppressed : w.suppressed = 0) (hcloses : Closes name frame) (he : Ends options name w v) :
    (frame.ignored = true ∧ core v = (core w).withDraft (d.modifyTop shut) ∧
      ledger v = ledger w) ∨ frame.ignored = false ∧ Leaves options d frame w v := by
  cases he with
  | outside _ _ hwhy =>
    cases hwhy with
    | platform hplatform => cases hname.symm.trans hplatform
    | hushed _ hne => exact absurd hsuppressed hne
  | bare _ _ _ hframes =>
    rw [hdraft] at hframes
    cases hframes
  | unmatched _ _ _ hother =>
    have hhead : w.draft.frames.head? = some frame := by
      rw [hdraft]
      rfl
    exact absurd hcloses (hother frame hhead)
  | dropped hdraft' hignored hcore hledger =>
    obtain ⟨rfl, rfl⟩ := Draft.push_inj (hdraft.symm.trans hdraft')
    exact .inl ⟨hignored, hcore, hledger⟩
  | left hdraft' hignored hleaves =>
    obtain ⟨rfl, rfl⟩ := Draft.push_inj (hdraft.symm.trans hdraft')
    exact .inr ⟨hignored, hleaves⟩

/-- The mode, and which tag receives attributes. -/
def stillness (w : Walk) : Bool × Receiver :=
  (w.channel.strict, w.receiver)

theorem stillness_of_core (hcore : core v = c) (hc : stillness c = stillness w) :
    stillness v = stillness w :=
  (congrArg stillness hcore).trans hc

theorem Starts.still (h : Starts options name attributes w v) : stillness v = stillness w := by
  cases h with
  | outside hcore | skipped hcore => exact stillness_of_core hcore rfl
  | accepted _ _ hopens =>
    cases hopens with
    | refused hcore | property _ hcore | factory _ hcore | slotContent _ hcore | slot _ hcore
    | element _ _ _ _ hcore => exact stillness_of_core hcore rfl

theorem Ends.still (h : Ends options name w v) : stillness v = stillness w := by
  cases h with
  | outside hcore | bare hcore | unmatched hcore | dropped _ _ hcore =>
    exact stillness_of_core hcore rfl
  | left _ _ hleaves =>
    cases hleaves with
    | element _ _ _ _ hcore | mixed _ _ _ hcore | slot _ _ hcore | property _ _ _ hcore
    | factory _ _ _ hcore | slotContent _ _ _ _ hcore => exact stillness_of_core hcore rfl

end ViewMarkup.Walk
