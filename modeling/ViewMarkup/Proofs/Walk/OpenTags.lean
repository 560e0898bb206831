import ViewMarkup.Proofs.Walk.Stack

/-!
# The modules that are in scope

A tag may declare modules under names of its own, and the views inside it find them there.  Which
tags are open, and with which attributes, is read off the events alone; the frames of a walk keep the
modules that these tags declare.

* `OpenTag.openTags` are the open tags after some events, and `OpenTag.module?` is the module that a
  name stands for inside them.
* `Scoped` says that the frames between two tags keep the modules of the open tags.
* `Position.event` is the step and `Position.events` the run.  `between_induction` is the induction over
  the tags of a stream.
* `Scoped.lookup_eq` says that a walk finds the module that is in scope.
-/

namespace ViewMarkup

open List
open Nesting (after? follows_of_next?)
open Element (attributeEvents kindOf modulesOf)
open Attribute (namespaceMark)

variable {receives : Bool} {e : TagEvent} {n : Nesting}

/-- An open tag with the attributes that it has received. -/
structure OpenTag where
  name : Text
  attributes : AttributeMap

namespace OpenTag

variable {tags above outer : List OpenTag} {tag : OpenTag}

/-- Whether a tag is a view. -/
def isView (tag : OpenTag) : Bool :=
  !Name.isPlatform tag.name && kindOf tag.name = .view

/-- The path that a tag declares under a name, as written. -/
def declared? (qualifier : Text) (tag : OpenTag) : Option Text :=
  tag.attributes.get? (namespaceMark ++ ":" ++ qualifier)

/-- The open tags after one more event, the innermost first. -/
def after : List OpenTag → TagEvent → List OpenTag
  | tags, .openTag name => ⟨name, []⟩ :: tags
  | tag :: outer, .setAttribute name value =>
    { tag with attributes := tag.attributes.insert name value } :: outer
  | tag :: outer, .completeTag given =>
    { tag with attributes := given.getD tag.attributes } :: outer
  | _ :: outer, .closeTag _ => outer
  | tags, _ => tags

/-- The open tags after some events, the innermost first. -/
def openTags (taken : List TagEvent) : List OpenTag :=
  taken.foldl after []

/-- The module that a name stands for inside some open tags: the one that the innermost view declares
that declares one. -/
def module? (options : Options) (tags : List OpenTag) (qualifier : Text) : Option Text :=
  ((tags.filter isView).findSome? (declared? qualifier)).map options.resolve

/-- The open tags are those of the nesting. -/
theorem opened_after (h : Nesting.next? ⟨tags.map OpenTag.name, receives⟩ e = some n) :
    n.opened = (after tags e).map OpenTag.name := by
  generalize hopened : tags.map OpenTag.name = opened at h
  cases follows_of_next? h with
  | openTag => exact congrArg (_ :: ·) hopened.symm
  | setAttribute | completeTag =>
    rw [← hopened]
    cases tags <;> rfl
  | closeTag =>
    cases tags with
    | nil => cases hopened
    | cons tag outer => exact (cons.inj hopened).2.symm
  | finish =>
    cases map_eq_nil_iff.mp hopened
    rfl

theorem opened_foldl {es : List TagEvent} (h : after? ⟨tags.map OpenTag.name, receives⟩ es = some n) :
    n.opened = (es.foldl after tags).map OpenTag.name := by
  induction es generalizing tags receives with
  | nil =>
    cases h
    rfl
  | cons e rest ih =>
    obtain ⟨⟨opened, receives⟩, hm, hrest⟩ := Option.bind_eq_some_iff.mp h
    cases opened_after hm
    exact ih hrest

/-- A tag that is open after an event is opened by it, or was open before it under the same name. -/
theorem of_after (h : after tags e = above ++ tag :: outer) : e = .openTag tag.name ∧ tags = outer ∨
      ∃ above' tag', tag'.name = tag.name ∧ tags = above' ++ tag' :: outer := by
  cases e with
  | openTag name =>
    cases above with
    | nil =>
      obtain ⟨rfl, rfl⟩ := cons.inj h
      exact .inl ⟨rfl, rfl⟩
    | cons _ above => exact .inr ⟨above, tag, rfl, (cons.inj h).2⟩
  | setAttribute name value | completeTag given =>
    cases tags with
    | nil => cases above <;> cases h
    | cons first rest =>
      cases above with
      | nil =>
        obtain ⟨rfl, rfl⟩ := cons.inj h
        exact .inr ⟨[], first, rfl, rfl⟩
      | cons _ above =>
        obtain ⟨_, rfl⟩ := cons.inj h
        exact .inr ⟨first :: above, tag, rfl, rfl⟩
  | closeTag name =>
    cases tags with
    | nil => cases above <;> cases h
    | cons first rest => exact .inr ⟨first :: above, tag, rfl, congrArg (first :: ·) h⟩
  | finish =>
    have hself : after tags .finish = tags := by cases tags <;> rfl
    exact .inr ⟨above, tag, rfl, hself.symm.trans h⟩

/-- A tag that is open has been opened inside the tags that are open around it. -/
theorem exists_openTags {taken : List TagEvent} (h : openTags taken = above ++ tag :: outer) :
    ∃ before inner, taken = before ++ .openTag tag.name :: inner ∧ openTags before = outer := by
  induction taken using reverseRecOn generalizing above tag with
  | nil => cases above <;> cases h
  | append_singleton taken e ih =>
    rw [openTags, foldl_append] at h
    rcases of_after h with ⟨rfl, houter⟩ | ⟨above', tag', hname, hbefore⟩
    · exact ⟨taken, [], rfl, houter⟩
    · obtain ⟨before, inner, rfl, hopened⟩ := ih hbefore
      exact ⟨before, inner ++ [e], by simp [hname], hopened⟩

end OpenTag

namespace Walk

open OpenTag (after module?)

variable {options : Options} {name : Text} {attributes : AttributeMap} {frame f g : Frame}
  {fs gs : List Frame} {tag : OpenTag} {tags outer : List OpenTag} {registered : List Text}
  {w v : Walk} {qualifier : Text} {more : List Text} {d : Draft} {channel : Channel}

/-! ### Declarations of a tag -/

theorem eq_namespace_of_split {word : Text}
    (h : Name.split name = (word, some namespaceMark)) :
    name = namespaceMark ++ ":" ++ word := by
  unfold Name.split at h
  split at h
  · next hcut =>
    cases h
    exact Text.cut?_append hcut
  · cases h

/-- What a tag declares under a name is the value of one attribute. -/
theorem lookup_declaredModules : (declaredModules attributes).lookup qualifier =
      attributes.get? (namespaceMark ++ ":" ++ qualifier) := by
  induction attributes with
  | nil => rfl
  | cons item rest ih =>
    obtain ⟨name, value⟩ := item
    have hskip (hname : name ≠ namespaceMark ++ ":" ++ qualifier) :
        AttributeMap.get? ((name, value) :: rest) (namespaceMark ++ ":" ++ qualifier) =
          AttributeMap.get? rest (namespaceMark ++ ":" ++ qualifier) := by
      rw [AttributeMap.get?, lookup_cons, beq_eq_false_iff_ne.mpr hname.symm]
      rfl
    by_cases hdeclares : ∃ word, name = namespaceMark ++ ":" ++ word
    · obtain ⟨word, rfl⟩ := hdeclares
      have hcons : declaredModules ((namespaceMark ++ ":" ++ word, value) :: rest) =
          (word, value) :: declaredModules rest := by
        rfl
      rw [hcons, lookup_cons, ih]
      by_cases hword : qualifier = word
      · subst hword
        simp only [AttributeMap.get?, lookup_cons, beq_self_eq_true]
      · rw [beq_eq_false_iff_ne.mpr hword,
          hskip fun h => hword (append_cancel_left h).symm]
    · have hcons : declaredModules ((name, value) :: rest) = declaredModules rest := by
        rw [declaredModules, filterMap_cons]
        dsimp only
        cases hsplit : Name.split name with
        | mk word qualifier' =>
          cases qualifier' with
          | none => rfl
          | some mark =>
            by_cases hmark : mark = namespaceMark
            · subst hmark
              exact absurd ⟨word, eq_namespace_of_split hsplit⟩ hdeclares
            · dsimp only
              rw [if_neg hmark]
              rfl
      rw [hcons, ih, hskip fun h => hdeclares ⟨qualifier, h⟩]

theorem lookup_modulesOf (tag : OpenTag) : (modulesOf options tag.attributes).lookup qualifier =
      (tag.declared? qualifier).map options.resolve := by
  rw [modulesOf, lookup_map_resolve, lookup_declaredModules]
  rfl

/-! ### Frames and the tags they stand for -/

/-- The open tags that have frames. -/
def framedTags (options : Options) : List OpenTag → List OpenTag
  | [] => []
  | tag :: outer =>
    if Name.isPlatform tag.name || silenced options (outer.map OpenTag.name) ≠ 0 then
      framedTags options outer
    else tag :: framedTags options outer

theorem framedTags_platform (hname : Name.isPlatform tag.name = true) :
    framedTags options (tag :: outer) = framedTags options outer := by
  rw [framedTags, hname, Bool.true_or, if_pos rfl]

theorem framedTags_hushed (houter : silenced options (outer.map OpenTag.name) ≠ 0) :
    framedTags options (tag :: outer) = framedTags options outer := by
  rw [framedTags, decide_eq_true houter, Bool.or_true, if_pos rfl]

theorem framedTags_cons (hname : Name.isPlatform tag.name = false)
    (houter : silenced options (outer.map OpenTag.name) = 0) :
    framedTags options (tag :: outer) = tag :: framedTags options outer := by
  rw [framedTags, hname, decide_eq_false (not_not_intro houter), Bool.or_false,
    if_neg Bool.false_ne_true]

/-- Outside the tags of other platforms, all open tags have frames but those named after a
platform. -/
theorem framedTags_eq_filter (htags : silenced options (tags.map OpenTag.name) = 0) :
    framedTags options tags = tags.filter fun tag => !Name.isPlatform tag.name := by
  induction tags with
  | nil => rfl
  | cons tag outer ih =>
    rw [silenced, map_cons, countP_cons, ← silenced] at htags
    have houter : silenced options (outer.map OpenTag.name) = 0 := by omega
    rw [filter_cons]
    cases hname : Name.isPlatform tag.name with
    | true => exact (framedTags_platform hname).trans (ih houter)
    | false => exact (framedTags_cons hname houter).trans (congrArg (tag :: ·) (ih houter))

/-- The frame keeps the modules that its tag declares; only views declare any. -/
structure Declares (options : Options) (registered : List Text) (frame : Frame) (tag : OpenTag) :
    Prop where
  namespaces : frame.ignored = false → frame.namespaces =
    if kindOf tag.name = .view then modulesOf options tag.attributes else []
  registered : ∀ item ∈ frame.namespaces, item.2 ∈ registered

theorem Declares.alike (h : Declares options registered f tag) (hfg : Alike f g) :
    Declares options registered g tag := by
  refine ⟨fun hignored => ?_, ?_⟩
  · rw [hfg.namespaces]
    exact h.namespaces (hfg.ignored.symm.trans hignored)
  · rw [hfg.namespaces]
    exact h.registered

section

variable (h : List.Forall₂ (Declares options registered) fs tags)
include h

theorem declares_alike
    (hfg : List.Forall₂ Alike fs gs) : List.Forall₂ (Declares options registered) gs tags := by
  induction hfg generalizing tags with
  | nil => exact h
  | cons hf _ ih =>
    cases h with
    | cons hd hrest => exact .cons (hd.alike hf) (ih hrest)

theorem declares_mono (hmore : registered ⊆ more) : List.Forall₂ (Declares options more) fs tags :=
  h.imp fun _ _ hd => ⟨hd.namespaces, fun item hitem => hmore (hd.registered item hitem)⟩

theorem registered_of_declares : ∀ frame ∈ fs, ∀ item ∈ frame.namespaces, item.2 ∈ registered := by
  induction h with
  | nil => exact fun _ hframe => nomatch hframe
  | cons hd _ ih => exact forall_mem_cons.mpr ⟨hd.registered, ih⟩

end

/-- **The frames between two tags keep the modules of the open tags.** -/
structure Scoped (options : Options) (tags : List OpenTag) (w : Walk) : Prop where
  tracks : Tracks options ⟨tags.map OpenTag.name, false⟩ w
  nested : Nested w.draft.frames
  declares : List.Forall₂ (Declares options w.registeredPaths) w.draft.frames
    (framedTags options tags)

/-! ### The start of a tag -/

namespace Ledger

theorem registeredPaths_declare (written : Text) (l : Ledger) :
    l.registeredPaths ⊆ (l.declare options written).registeredPaths ∧
      options.resolve written ∈ (l.declare options written).registeredPaths := by
  unfold declare
  dsimp only
  split
  · next hknown => exact ⟨fun _ h => h, contains_iff_mem.mp hknown⟩
  · exact ⟨subset_append_left _ _, mem_append_right _ (mem_singleton_self _)⟩

theorem registeredPaths_foldl (declared : List (Text × Text)) (l : Ledger) :
    l.registeredPaths ⊆
        (declared.foldl (fun l item => l.declare options item.2) l).registeredPaths ∧
      ∀ item ∈ declared, options.resolve item.2 ∈
        (declared.foldl (fun l item => l.declare options item.2) l).registeredPaths := by
  induction declared generalizing l with
  | nil => exact ⟨fun _ h => h, fun _ h => nomatch h⟩
  | cons item rest ih =>
    obtain ⟨hkept, hnew⟩ := @registeredPaths_declare options item.2 l
    obtain ⟨hsub, hrest⟩ := ih (l.declare options item.2)
    refine ⟨fun path hpath => hsub (hkept hpath), fun other hother => ?_⟩
    rcases mem_cons.mp hother with rfl | hother
    · exact hsub hnew
    · exact hrest other hother

/-- A view that is opened registers the modules that it declares. -/
theorem registeredPaths_enter (hasParent : Bool) (attributes : AttributeMap) (l : Ledger) :
    l.registeredPaths ⊆ (l.enter options hasParent attributes).registeredPaths ∧
      ∀ item ∈ modulesOf options attributes,
        item.2 ∈ (l.enter options hasParent attributes).registeredPaths := by
  obtain ⟨hsub, hmem⟩ := @registeredPaths_foldl options (declaredModules attributes) l
  refine ⟨hsub, fun item hitem => ?_⟩
  obtain ⟨declared, hdeclared, rfl⟩ := mem_map.mp hitem
  exact hmem declared hdeclared

theorem registeredPaths_use {path : Option Text} {l : Ledger} :
    (l.use path name).registeredPaths = l.registeredPaths := by
  unfold use
  split <;> rfl

end Ledger

/-- A frame without modules of its own, for a tag that is left out or is no view. -/
theorem declares_none (hnone : frame.namespaces = [])
    (hplain : frame.ignored = true ∨ kindOf tag.name ≠ .view) :
    Declares options registered frame tag := by
  refine ⟨fun hignored => ?_, fun item hitem => ?_⟩
  · rcases hplain with hplain | hplain
    · cases hplain.symm.trans hignored
    · rw [hnone, if_neg hplain]
  · rw [hnone] at hitem
    cases hitem

/-- A tag with a frame of its own. -/
theorem Scoped.push {top : Frame} {e : Draft}
    (hframed : framedTags options (tag :: tags) = tag :: framedTags options tags)
    (htracks : Tracks options ⟨(tag :: tags).map OpenTag.name, false⟩ v)
    (hnested : Nested v.draft.frames)
    (hbelow : List.Forall₂ (Declares options v.registeredPaths) e.frames (framedTags options tags))
    (htop : Declares options v.registeredPaths top tag)
    (hv : List.Forall₂ Alike (e.push top).frames v.draft.frames) :
    Scoped options (tag :: tags) v := by
  refine ⟨htracks, hnested, ?_⟩
  rw [hframed]
  exact declares_alike (.cons htop hbelow) hv

theorem forall₂_alike_refl : List.Forall₂ Alike fs fs :=
  forall₂_same.mpr fun _ _ => Alike.refl

/-- A tag that may stand where it stands. -/
theorem Opens.scoped (hopens : Opens options d frame w v)
    (hframed : framedTags options (tag :: tags) = tag :: framedTags options tags)
    (htracks : Tracks options ⟨(tag :: tags).map OpenTag.name, false⟩ v)
    (hnested : Nested v.draft.frames)
    (hbelow : List.Forall₂ (Declares options w.registeredPaths) d.frames (framedTags options tags))
    (hnone : frame.namespaces = []) (hattributes : frame.attributes = tag.attributes)
    (hkind : frame.kind = kindOf tag.name) : Scoped options (tag :: tags) v := by
  have hplain {e : Draft} {top : Frame} (hcore : core v = (core w).withDraft (e.push top))
      (hledger : ledger v = ledger w) (he : List.Forall₂ Alike d.frames e.frames)
      (htop : Declares options v.registeredPaths top tag) : Scoped options (tag :: tags) v := by
    have hpaths : v.registeredPaths = w.registeredPaths := congrArg Ledger.registeredPaths hledger
    refine .push hframed htracks hnested (hpaths ▸ declares_alike hbelow he) htop ?_
    rw [draft_of_core hcore]
    exact forall₂_alike_refl
  have hview {name : Text} {attributes : AttributeMap} {c : Walk} {view top : Frame}
      {b : List Fragment} (h : frame = viewFrame name attributes (-1))
      (hcore : core v = inTag c (d.modifyTop (recordChild view)) top b)
      (hpaths : v.registeredPaths =
        ((ledger w).enter options d.frames.head?.isSome attributes).registeredPaths)
      (htop : top.namespaces = modulesOf options attributes) :
      Scoped options (tag :: tags) v := by
    obtain ⟨hkept, hmem⟩ := @Ledger.registeredPaths_enter options d.frames.head?.isSome attributes
      (ledger w)
    apply Scoped.push hframed htracks hnested
    case hv =>
      rw [draft_of_core hcore]
      exact alike_setBuffer _ _
    case hbelow =>
      rw [hpaths]
      exact declares_alike (declares_mono hbelow hkept) (alike_modifyTop (alike_recordChild _) _)
    case htop =>
      refine ⟨fun _ => ?_, htop ▸ hpaths ▸ hmem⟩
      rw [htop, ← hkind, ← hattributes, h]
      exact (if_pos rfl).symm
  cases hopens with
  | refused hcore hledger =>
    exact hplain hcore hledger forall₂_alike_refl (declares_none hnone (.inl rfl))
  | property hcase hcore hledger =>
    exact hplain hcore hledger forall₂_alike_refl
      (declares_none hnone (.inr (hkind ▸ hcase ▸ nofun)))
  | factory hshape hcore hledger =>
    exact hplain hcore hledger (alike_setBuffer _ _)
      (declares_none hnone (.inr (hkind ▸ (kind_ne_view_of_shape hshape :))))
  | slotContent hcase hcore hledger =>
    exact hplain hcore hledger (alike_modifyTop alike_holding _)
      (declares_none hnone (.inr (hkind ▸ hcase ▸ nofun)))
  | slot hframe hcore hledger =>
    exact hview hframe hcore (congrArg Ledger.registeredPaths hledger) rfl
  | @element name attributes hframe hname path hpath hcore hledger hknown =>
    refine hview hframe hcore ?_ rfl
    exact ((congrArg Ledger.registeredPaths hledger :) : v.registeredPaths = _).trans
      Ledger.registeredPaths_use

theorem Scoped.starts (h : Scoped options tags w) (hs : Starts options name attributes w v)
    (htracks : Tracks options ⟨name :: tags.map OpenTag.name, false⟩ v) :
    Scoped options (⟨name, attributes⟩ :: tags) v := by
  have hnested := h.nested.starts hs
  have hsuppressed : w.suppressed = silenced options (tags.map OpenTag.name) :=
    h.tracks.mirrors.suppressed
  have hcons (hframed : Framed name w) : framedTags options (⟨name, attributes⟩ :: tags) =
      ⟨name, attributes⟩ :: framedTags options tags := by
    refine framedTags_cons hframed.name ?_
    have hzero := hframed.suppressed
    omega
  have hsame (hledger : ledger v = ledger w) : v.registeredPaths = w.registeredPaths :=
    congrArg Ledger.registeredPaths hledger
  cases hs with
  | outside hcore hledger hwhy =>
    refine ⟨htracks, hnested, ?_⟩
    have hskip : framedTags options (⟨name, attributes⟩ :: tags) = framedTags options tags := by
      cases hwhy with
      | platform hname => exact framedTags_platform hname
      | hushed _ hne => exact framedTags_hushed (by omega)
    rw [hskip, hsame hledger, draft_of_core hcore]
    exact h.declares
  | skipped hcore hledger hframed =>
    have hbelow := declares_alike h.declares (alike_modifyTop alike_opening w.draft)
    apply Scoped.push (hcons hframed) htracks hnested
    case hv =>
      rw [draft_of_core hcore]
      exact forall₂_alike_refl
    case hbelow => exact hsame hledger ▸ hbelow
    case htop => exact declares_none rfl (.inl rfl)
  | @accepted frame hignored haccepted hopens hframed =>
    have hbelow := declares_alike h.declares (alike_modifyTop alike_entered w.draft)
    obtain ⟨tagName, index, hnew⟩ := haccepted.eq_new
    have hnone : frame.namespaces = [] := by rw [hnew]; rfl
    exact hopens.scoped (hcons hframed) htracks hnested hbelow hnone rfl haccepted.kind

/-! ### The end of a tag -/

theorem Leaves.registeredPaths_eq (h : Leaves options d frame w v) :
    v.registeredPaths = w.registeredPaths := by
  cases h with
  | element _ _ _ _ _ hledger | mixed _ _ _ _ hledger | slot _ _ _ hledger
  | property _ _ _ _ hledger | factory _ _ _ _ hledger | slotContent _ _ _ _ _ hledger =>
    exact (congrArg Ledger.registeredPaths hledger :)

theorem Scoped.ends (h : Scoped options (tag :: outer) w) (he : Ends options tag.name w v)
    (htracks : Tracks options ⟨outer.map OpenTag.name, false⟩ v) : Scoped options outer v := by
  refine ⟨htracks, h.nested.ends he, ?_⟩
  have hdeclares := h.declares
  have hsame (hledger : ledger v = ledger w) : v.registeredPaths = w.registeredPaths :=
    congrArg Ledger.registeredPaths hledger
  by_cases hframed : Framed tag.name w
  · obtain ⟨d, frame, hdraft, hcloses⟩ := h.tracks.exists_top hframed
    rw [framedTags_cons hframed.name (h.tracks.silenced_outer hframed), hdraft] at hdeclares
    cases hdeclares with
    | cons _ hbelow =>
      have hshut := declares_alike hbelow (alike_modifyTop alike_shut d)
      rcases he.closed hdraft hframed.name hframed.suppressed hcloses with
        ⟨_, hcore, hledger⟩ | ⟨_, hleaves⟩
      · rw [hsame hledger, draft_of_core hcore]
        exact hshut
      · obtain ⟨b, hv⟩ := hleaves.draft_eq
        rw [hleaves.registeredPaths_eq, hv]
        exact declares_alike hshut (alike_setBuffer _ b)
  · cases he with
    | outside hcore hledger hwhy =>
      have hskip : framedTags options (tag :: outer) = framedTags options outer := by
        cases hwhy with
        | platform hname => exact framedTags_platform hname
        | hushed hname hne =>
          have hsuppressed := h.tracks.mirrors.suppressed
          rw [map_cons, silenced_cons hname] at hsuppressed
          exact framedTags_hushed (by omega)
      rw [hsame hledger, draft_of_core hcore, ← hskip]
      exact hdeclares
    | bare _ _ hyes | unmatched _ _ hyes | dropped _ _ _ _ hyes | left _ _ _ hyes =>
      exact absurd hyes hframed

/-! ### Events -/

/-- Where a walk stands in a stream: between two tags, or in a tag that receives attributes. -/
inductive Position (options : Options) : List OpenTag → (receives : Bool) → Walk → Prop
  | between {tags : List OpenTag} {w : Walk} (h : Scoped options tags w) :
      Position options tags false w
  | within {tags : List OpenTag} {name : Text} {received : AttributeMap} {u w : Walk}
      (h : Scoped options tags u)
      (hrun : (do openTag options name
                  events options (attributeEvents received) : Step Unit) u = .ok () w)
      (htracks : Tracks options ⟨name :: tags.map OpenTag.name, true⟩ w) :
      Position options (⟨name, .ofList received⟩ :: tags) true w

theorem Position.tracks (h : Position options tags receives w) :
    Tracks options ⟨tags.map OpenTag.name, receives⟩ w := by
  cases h with
  | between h => exact h.tracks
  | within _ _ htracks => exact htracks

/-- **The step.** -/
theorem Position.event (h : Position options tags receives w)
    (hn : Nesting.next? ⟨tags.map OpenTag.name, receives⟩ e = some n)
    (hrun : Walk.event options e w = .ok () v) : Position options (after tags e) n.receives v := by
  have hgoes := h.tracks.event hn
  rw [hrun] at hgoes
  replace hgoes : Tracks options n v := hgoes
  cases e with
  | openTag name =>
    cases h with
    | between h =>
      cases hn
      exact @Position.within options tags name [] w v h ((bind_ok hrun).trans rfl) hgoes
    | within => cases hn
  | setAttribute name value =>
    cases h with
    | between => cases hn
    | @within outer opened received u w hu hreceived =>
      cases hn
      have hmore : (do openTag options opened
                       events options (attributeEvents (received ++ [(name, value)])) :
          Step Unit) u = .ok () v := by
        have hset : events options (attributeEvents [(name, value)]) w = .ok () v :=
          (bind_ok hrun).trans rfl
        rw [attributeEvents, map_append, events_append, ← bind_assoc]
        exact (bind_ok hreceived).trans hset
      have hlist : AttributeMap.ofList (received ++ [(name, value)]) =
          (AttributeMap.ofList received).insert name value :=
        foldl_append
      show Position options (⟨opened, (AttributeMap.ofList received).insert name value⟩ :: outer)
        true v
      rw [← hlist]
      exact .within hu hmore hgoes
  | completeTag given =>
    cases h with
    | between => cases hn
    | @within outer opened received u w hu hreceived =>
      cases hn
      obtain ⟨t, ht, hreceives⟩ := receive_run options opened received hu.tracks.lenient
        (hu.tracks.settled rfl)
      cases ht.symm.trans hreceived
      have hstarts := (hreceives.begins (hu.tracks.settled rfl) given).starts hu.tracks.lenient hrun
      exact .between (hu.starts hstarts hgoes)
  | closeTag name =>
    cases h with
    | within => cases hn
    | between h =>
      generalize hopened : tags.map OpenTag.name = opened at hn
      cases follows_of_next? hn with
      | closeTag =>
        obtain ⟨tag, outer, rfl, rfl, rfl⟩ := map_eq_cons_iff.mp hopened
        have hends := closeTag_ends (h.tracks.settled rfl) h.nested.shaped hrun
        exact .between (h.ends hends hgoes)
  | finish =>
    cases h with
    | within => cases hn
    | between h =>
      cases tags with
      | cons tag outer => cases hn
      | nil =>
        cases hn
        refine .between ⟨hgoes, ?_, ?_⟩
        · rw [map_eq_nil_iff.mp hgoes.mirrors.names]
          trivial
        · rw [map_eq_nil_iff.mp hgoes.mirrors.names]
          exact .nil

/-- **The run.** -/
theorem Position.events {es : List TagEvent} (h : Position options tags receives w)
    (hn : after? ⟨tags.map OpenTag.name, receives⟩ es = some n)
    (hrun : Walk.events options es w = .ok () v) :
    Position options (es.foldl after tags) n.receives v := by
  induction es generalizing tags receives w with
  | nil =>
    cases hn
    cases hrun
    exact h
  | cons e rest ih =>
    obtain ⟨⟨opened, receives⟩, hm, hrest⟩ := Option.bind_eq_some_iff.mp hn
    obtain ⟨_, u, hu, hrun⟩ := bind_eq_ok hrun
    have hposition := h.event hm hu
    cases OpenTag.opened_after hm
    exact ih hposition hrest hrun

theorem position_start (hchannel : channel.strict = false) :
    Position options [] false (start channel) :=
  .between ⟨tracks_start hchannel, trivial, .nil⟩

theorem Position.scoped (h : Position options tags false w) : Scoped options tags w := by
  cases h with
  | between h => exact h

/-- A tag that receives attributes has been opened between two tags and has received attributes
since. -/
theorem exists_receiving {taken : List TagEvent} {names : List Text}
    (h : after? .bare taken = some ⟨names, true⟩) :
    ∃ before name received outer, taken = before ++ .openTag name :: attributeEvents received ∧
      after? .bare before = some ⟨outer, false⟩ := by
  induction taken using reverseRecOn generalizing names with
  | nil => cases h
  | append_singleton taken e ih =>
    obtain ⟨m, hm, hnext⟩ := Nesting.after?_of_concat h
    cases follows_of_next? hnext with
    | openTag => exact ⟨taken, _, [], _, rfl, hm⟩
    | @setAttribute _ name value =>
      obtain ⟨before, opened, received, outer, rfl, hbefore⟩ := ih hm
      exact ⟨before, opened, received ++ [(name, value)], outer, by simp [attributeEvents], hbefore⟩

/-- **Induction over the tags of a stream.**  What holds at the start and is kept by the start of
every tag, by its end and by the end of the stream, holds between two tags. -/
theorem between_induction {motive : List TagEvent → Walk → Prop}
    (hchannel : channel.strict = false) (bare : motive [] (start channel))
    (opened : ∀ {before name received given u t v}, Scoped options (OpenTag.openTags before) u →
      motive before u → openTag options name u = .ok () t →
      events options (attributeEvents received ++ [.completeTag given]) t = .ok () v →
      Starts options name (given.getD (.ofList received)) u v →
      motive (before ++ .openTag name :: (attributeEvents received ++ [.completeTag given])) v)
    (closed : ∀ {before name u v}, Scoped options (OpenTag.openTags before) u → motive before u →
      closeTag options name u = .ok () v → Ends options name u v →
      motive (before ++ [.closeTag name]) v)
    (finished : ∀ {before u v}, Scoped options [] u → motive before u → finish u = .ok () v →
      motive (before ++ [.finish]) v) {taken : List TagEvent} {names : List Text}
    (hn : after? .bare taken = some ⟨names, false⟩)
    (hrun : Walk.events options taken (start channel) = .ok () w) : motive taken w := by
  have hscoped {taken : List TagEvent} {names : List Text} {u : Walk}
      (hn : after? .bare taken = some ⟨names, false⟩)
      (hu : Walk.events options taken (start channel) = .ok () u) :
      Scoped options (OpenTag.openTags taken) u :=
    ((position_start hchannel).events hn hu).scoped
  -- the last tag may have many attributes, so that its start is not one event back
  induction hlength : taken.length using Nat.strongRecOn generalizing taken names w with
  | _ _ ih =>
    subst hlength
    rcases eq_nil_or_concat taken with rfl | ⟨taken, e, rfl⟩
    · cases hrun
      exact bare
    rw [concat_eq_append] at *
    obtain ⟨m, hm, hnext⟩ := Nesting.after?_of_concat hn
    rw [events_append] at hrun
    obtain ⟨_, u, hu, hevent⟩ := bind_eq_ok hrun
    replace hevent : Walk.event options e u = .ok () w := by
      obtain ⟨_, v, hv, hnil⟩ := bind_eq_ok hevent
      cases hnil
      exact hv
    have hshorter : taken.length < (taken ++ [e]).length := by simp
    cases follows_of_next? hnext with
    | @completeTag _ given =>
      obtain ⟨before, name, received, outer, rfl, hbefore⟩ := exists_receiving hm
      rw [events_append] at hu
      obtain ⟨_, u', hu', hreceived⟩ := bind_eq_ok hu
      obtain ⟨_, t, hopen, hset⟩ := bind_eq_ok hreceived
      have hold := hscoped hbefore hu'
      obtain ⟨_, ht, hreceives⟩ := receive_run options name received hold.tracks.lenient
        (hold.tracks.settled rfl)
      cases ht.symm.trans hreceived
      have hmore : Walk.events options (attributeEvents received ++ [.completeTag given]) t =
          .ok () w := by
        rw [events_append]
        exact (bind_ok hset).trans ((bind_ok hevent).trans rfl)
      rw [append_assoc, cons_append]
      exact opened hold (ih _ (by simp) hbefore hu' rfl) hopen hmore
        ((hreceives.begins (hold.tracks.settled rfl) given).starts hold.tracks.lenient hevent)
    | closeTag =>
      have hold := hscoped hm hu
      exact closed hold (ih _ hshorter hm hu rfl) hevent (closeTag_ends
        (hold.tracks.settled rfl) hold.nested.shaped hevent)
    | finish =>
      have hold := hscoped hm hu
      rw [OpenTag.openTags, map_eq_nil_iff.mp (@OpenTag.opened_foldl _ _ [] _ hm).symm] at hold
      exact finished hold (ih _ hshorter hm hu rfl) hevent

/-! ### Looking up a module -/

/-- Nothing is left out inside a tag that is not. -/
theorem Nested.not_ignored (h : Nested fs)
    (htop : fs.head?.any (·.ignored) = false) :
    ∀ frame ∈ fs, frame.ignored = false := by
  induction fs with
  | nil => exact fun _ hframe => nomatch hframe
  | cons frame below ih =>
    have hbelow : below.head?.any (·.ignored) = false := by
      cases below with
      | nil => rfl
      | cons parent rest =>
        cases h.1 with
        | ignored hignored => exact absurd (hignored.symm.trans htop) nofun
        | view _ _ _ _ hparent => exact hparent parent rfl
        | inner _ _ _ _ _ _ hparent hkept =>
          cases hparent
          exact hkept
    intro other hother
    rcases mem_cons.mp hother with rfl | hother
    · exact htop
    · exact ih h.2 hbelow other hother

/-- The modules of the frames are found in the order of the open views. -/
theorem lookup_scope (h : List.Forall₂ (Declares options registered) fs tags)
    (hfs : ∀ frame ∈ fs, frame.ignored = false) (qualifier : Text) :
    (fs.flatMap (·.namespaces)).lookup qualifier =
      ((tags.filter fun tag => kindOf tag.name = .view).findSome?
        (OpenTag.declared? qualifier)).map options.resolve := by
  induction h with
  | nil => rfl
  | @cons frame tag below outer hdeclares _ ih =>
    obtain ⟨hframe, hbelow⟩ := forall_mem_cons.mp hfs
    rw [flatMap_cons, lookup_append, ih hbelow, hdeclares.namespaces hframe,
      filter_cons]
    by_cases hview : kindOf tag.name = .view
    · rw [if_pos hview, if_pos (decide_eq_true hview), findSome?_cons, lookup_modulesOf]
      cases tag.declared? qualifier <;> rfl
    · rw [if_neg hview, if_neg fun h => hview (of_decide_eq_true h)]
      rfl

/-- **A walk finds the module that is in scope.** -/
theorem Scoped.lookup_eq (h : Scoped options tags w) (hframed : Framed name w)
    (hignored : w.draft.frames.head?.any (·.ignored) = false)
    (hview : kindOf name = .view) :
    (modulesOf options attributes ++ w.draft.scope).lookup qualifier =
      module? options (⟨name, attributes⟩ :: tags) qualifier := by
  have hzero : silenced options (tags.map OpenTag.name) = 0 := by
    have hsuppressed := h.tracks.mirrors.suppressed
    have hnone := hframed.suppressed
    dsimp only at hsuppressed
    omega
  have hscope := lookup_scope h.declares (h.nested.not_ignored hignored) qualifier
  have hviews : (tags.filter fun tag => !Name.isPlatform tag.name).filter
      (fun tag => kindOf tag.name = .view) = tags.filter OpenTag.isView := by
    rw [filter_filter]
    exact filter_congr fun tag _ => Bool.and_comm _ _
  have hself : OpenTag.isView ⟨name, attributes⟩ = true := by
    rw [OpenTag.isView, hframed.name, decide_eq_true hview]
    rfl
  rw [framedTags_eq_filter hzero, hviews] at hscope
  rw [lookup_append, Draft.scope, hscope, module?, filter_cons, if_pos hself,
    findSome?_cons, lookup_modulesOf ⟨name, attributes⟩]
  cases OpenTag.declared? qualifier ⟨name, attributes⟩ <;> rfl

/-- A module that is found is registered. -/
theorem Scoped.mem_registered (h : Scoped options tags w) {path : Text}
    (hmore : w.registeredPaths ⊆ more) (hown : ∀ item ∈ modulesOf options attributes, item.2 ∈ more)
    (hpath : (modulesOf options attributes ++ w.draft.scope).lookup qualifier = some path) :
    path ∈ more := by
  have hmem : (qualifier, path) ∈ modulesOf options attributes ++ w.draft.scope := by
    obtain ⟨before, after, heq, _⟩ := lookup_eq_some_iff.mp hpath
    rw [heq]
    exact mem_append_right _ mem_cons_self
  rcases mem_append.mp hmem with hmem | hmem
  · exact hown _ hmem
  · obtain ⟨frame, hframe, hmem⟩ := mem_flatMap.mp hmem
    exact hmore (registered_of_declares h.declares frame hframe _ hmem)

end Walk

end ViewMarkup
