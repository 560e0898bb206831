import ViewMarkup.Proofs.Walk.Rows

/-!
# The code of a root

The tags of a document are walked over.  Inside a tag, whatever errors there are on the way, what has
been added to the code is a row of tags.  Outside all tags at most one tag is built, with all that it
holds: the root.

* `Opens.grows` and `refused_ends` say what one tag that may stand where it stands comes to.
* `Passage.grows` is the induction over the tags inside a tag.
* `Passage.roots` is the induction over the tags outside all others.
-/

namespace ViewMarkup.Walk

open List
open Script (Node)

variable {options : Options} {P : Text → Prop} {name : Text} {attributes : AttributeMap}
  {frame parent : Frame} {d : Draft} {u w v v₁ v₂ v₂' v₃ : Walk} {customs inner : List Int}
  {intro : List Node} {x : Growth} {customs' : List Int}

/-! ### Walks that differ in what they have reported -/

/-- What was reported before does not matter for what has been added. -/
theorem Grows.after (h : Same u w) (hx : Grows options P intro w v customs x) :
    Grows options P intro u v customs x where
  sound := by
    have hsound := hx.sound
    rwa [h.surrounding, show w.treeIndex = u.treeIndex from (congrArg treeIndex h.core :)] at hsound
  core := by rw [hx.core, h.core]
  callbacks := by rw [hx.callbacks, callbacks_of_ledger h.ledger]
  customs k hk := by
    rw [← h.customTop]
    exact hx.customs k hk

theorem Grows.before (hx : Grows options P intro w v customs x) (h : Same v u) :
    Grows options P intro w u customs x where
  sound := hx.sound
  core := h.core.trans hx.core
  callbacks := (callbacks_of_ledger h.ledger).trans hx.callbacks
  customs := hx.customs

theorem Grows.of_subset (hx : Grows options P intro w v customs x)
    (h : ∀ k ∈ customs', k ∈ customTop w ∨ k ∈ customs) : Grows options P intro w v customs' x where
  sound := hx.sound
  core := hx.core
  callbacks := hx.callbacks
  customs k hk := (h k hk).elim .inl (hx.customs k)

/-! ### One tag -/

section Tag

variable (hP : P name) (hw : Stands w) (hname : Name.isPlatform name = false)
  (haccepted : Accepted w name frame)
  (hinner : Stands v₁ → v₁.draft.frames ≠ [] → ∃ x, Grows options P [] v₁ v₂ inner x)
  (hsame : Same v₂ v₂') (hends : Ends options name v₂' v₃)

include hP hw hname haccepted hinner hsame hends in
/-- A tag that may stand where it stands has been refused in spite of that, or it adds its code. -/
theorem Opens.grows
    (hopens : Opens options (w.draft.modifyTop entered) { frame with attributes } w v₁) :
    (core v₁ = (core w).withDraft
        ((w.draft.modifyTop entered).push { frame with attributes, ignored := true }) ∧
      ledger v₁ = ledger w) ∨
    ∃ x, Grows options P (rootIntro options w.draft attributes) w v₃
        (customTop v₁ ++ inner ++ customTop v₃) x ∧
      (w.draft.frames = [] → ChildView.indices x.code.views = [w.treeIndex + 1]) := by
  have hinside {p : Frame} (hparent : w.draft.frames.head? = some p) :
      rootIntro options w.draft attributes = [] ∧ w.draft.frames ≠ [] := by
    refine ⟨rootIntro_inside hparent, fun hnil => ?_⟩
    rw [hnil] at hparent
    cases hparent
  have hfirst : w.draft.frames = [] → nextIndex w (w.draft.modifyTop entered) = w.treeIndex + 1 := by
    intro hnil
    rw [Draft.modifyTop_of_nil hnil, nextIndex, hnil]
    rfl
  cases hopens.opened haccepted with
  | refused hcore hledger => exact .inl ⟨hcore, hledger⟩
  | property hkind hparent hview hcore hcallbacks =>
    obtain ⟨hintro, hframes⟩ := hinside hparent
    rw [hintro]
    obtain ⟨x, hx⟩ := property_grows hw hname haccepted hinner hsame hends hkind hparent hview
      hcore hcallbacks
    exact .inr ⟨x, hx, fun hnil => absurd hnil hframes⟩
  | factory hshape hparent hview hcore hcallbacks =>
    obtain ⟨hintro, hframes⟩ := hinside hparent
    rw [hintro]
    obtain ⟨x, hx⟩ := factory_grows hw hname haccepted hinner hsame hends hshape hparent hview
      hcore hcallbacks
    exact .inr ⟨x, hx, fun hnil => absurd hnil hframes⟩
  | slotContent hkind hparent hcustom hfree hcore hcallbacks =>
    obtain ⟨hintro, hframes⟩ := hinside hparent
    rw [hintro]
    obtain ⟨x, hx⟩ := slotContent_grows hw hname haccepted hinner hsame hends hkind hparent
      hcustom hfree hcore hcallbacks
    exact .inr ⟨x, hx, fun hnil => absurd hnil hframes⟩
  | slot hslot hcore hcallbacks =>
    obtain ⟨x, hx, hindex⟩ :=
      slot_grows hw haccepted hinner hsame hslot (hslot ▸ hends) hcore hcallbacks
    exact .inr ⟨x, hx, fun hnil => by rw [hindex, hfirst hnil]⟩
  | element hkind hother path hknown hcore hcallbacks =>
    obtain ⟨x, hx, hindex⟩ := element_grows hw hname haccepted hinner hsame hends hkind hother
      hP path hknown hcore hcallbacks
    exact .inr ⟨x, hx, fun hnil => by rw [hindex, hfirst hnil]⟩

include haccepted in
/-- A tag that has been refused adds nothing. -/
theorem refused_grows (hframes : w.draft.frames ≠ [])
    (hcore : core v = (core w).withDraft (w.draft.modifyTop fun f => shut (entered f)))
    (hledger : ledger v = ledger w) :
    Grows options P [] w v (customTop v) ⟨⟨1, false, [], []⟩, .none w.treeIndex, [], []⟩ := by
  have hbuilds := counted_builds hframes hcore
  constructor
  case sound =>
    exact .of_accepted haccepted hbuilds.spells hbuilds.fits (.none _ _) rfl
  case core => exact hbuilds.core
  case callbacks => exact (callbacks_of_ledger hledger).trans (append_nil _).symm
  case customs =>
    intro k hk
    rw [customTop_built hbuilds.core] at hk
    exact .inl hk

end Tag

/-- **What a tag comes to**, from its start to its end, given the walks at the beginning and the end
of what it holds. -/
inductive Round (options : Options) (P : Text → Prop) (w v₁ v₂ v₃ : Walk) (customs : List Int) : Prop
  /-- Nothing has changed. -/
  | idle (h : Same w v₃) (hcustoms : ∀ k ∈ customs, k ∈ customTop w)
  /-- The tag itself has changed nothing. -/
  | through (h : Same w v₁) (hback : v₂.suppressed = 0 → Same v₂ v₃)
  /-- The tag has been refused, with all that it holds. -/
  | refused {name : Text} {frame : Frame} (haccepted : Accepted w name frame)
      (hcore : core v₃ = (core w).withDraft (w.draft.modifyTop fun f => shut (entered f)))
      (hledger : ledger v₃ = ledger w) (hcustoms : ∀ k ∈ customs, k ∈ customTop v₃)
  | grows {attributes : AttributeMap} {x : Growth} (hfresh : w.initialized = false)
      (h : Grows options P (rootIntro options w.draft attributes) w v₃ customs x)
      (hroot : w.draft.frames = [] → ChildView.indices x.code.views = [w.treeIndex + 1])

theorem Starts.round (hP : P name) (hw : Stands w) (hstarts : Starts options name attributes w v₁)
    (hinner : Passage options P v₁ v₂ inner)
    (hgrows : Stands v₁ → v₁.draft.frames ≠ [] → ∃ x, Grows options P [] v₁ v₂ inner x)
    (hsame : Same v₂ v₂') (hends : Ends options name v₂' v₃) :
    Round options P w v₁ v₂ v₃ (customTop v₁ ++ inner ++ customTop v₃) := by
  cases hstarts with
  | @outside suppressed hcore hledger hwhy =>
    have hsuppressed : v₁.suppressed = suppressed := (congrArg Walk.suppressed hcore :)
    have hstart := hw.suppressed
    have hnonneg := silence_nonneg options name
    have hidle : Still v₁ → Round options P w v₁ v₂ v₃ (customTop v₁ ++ inner ++ customTop v₃) := by
      intro hstill
      obtain ⟨hidle, hcustoms⟩ := hinner.still hstill
      have hsame₃ := hushed_ends hcore hledger hwhy (hidle.trans hsame) hends
      have htop : customTop v₁ = customTop w := by
        unfold customTop
        rw [show v₁.draft = w.draft from (congrArg draft hcore :)]
      refine .idle hsame₃ fun k hk => ?_
      rw [hsame₃.customTop, htop] at hk
      rw [htop] at hcustoms
      simp only [mem_append] at hk
      rcases hk with (hk | hk) | hk
      · exact hk
      · exact hcustoms k hk
      · exact hk
    cases hwhy with
    | hushed _ hne => exact absurd hstart hne
    | platform hplatform =>
      by_cases hsilence : silence options name = 0
      · obtain ⟨hsame₁, hback⟩ := platform_ends hplatform hsilence hstart hcore hledger
        exact .through hsame₁ fun hzero =>
          hsame.trans (hback _ _ (hsame.suppressed.trans hzero) hends)
      · refine hidle (.hushed ?_)
        omega
  | skipped hcore hledger hframed =>
    have hshut : ∀ f, w.draft.frames.head? = some f → f.hasOpenChild = false :=
      fun f hf => (hw.top f hf).shut
    obtain ⟨hstill, htop, hback⟩ := @skipped_ends options _ _ _ _ hshut hcore hledger hframed
    obtain ⟨hidle, hcustoms⟩ := hinner.still hstill
    have hsame₃ := hback _ _ (hidle.trans hsame) hends
    refine .idle hsame₃ fun k hk => ?_
    simp only [htop, nil_append, mem_append] at hk hcustoms
    rcases hk with hk | hk
    · cases hcustoms k hk
    · rwa [hsame₃.customTop] at hk
  | accepted hignored haccepted hopens hframed =>
    rcases hopens.grows hP hw hframed.name haccepted hgrows hsame hends with
      ⟨hcore, hledger⟩ | ⟨x, hx, hroot⟩
    · obtain ⟨hstill, htop, hback⟩ :=
        @refused_ends options _ _ _ _ _ hframed.name haccepted hw.suppressed hcore hledger
      obtain ⟨hidle, hcustoms⟩ := hinner.still hstill
      obtain ⟨hcore₃, hledger₃⟩ := hback _ _ (hidle.trans hsame) hends
      refine .refused haccepted hcore₃ hledger₃ fun k hk => ?_
      simp only [htop, nil_append, mem_append] at hk hcustoms
      exact hk.resolve_left fun hk => nomatch hcustoms k hk
    · exact .grows haccepted.initialized hx hroot

/-- **Balanced tags inside a tag** add a row of tags. -/
theorem Passage.grows (h : Passage options P w v customs) (hw : Stands w)
    (hframes : w.draft.frames ≠ []) : ∃ x, Grows options P [] w v customs x := by
  induction h with
  | @done w v hsame =>
    obtain hnil | ⟨top, below, hdraft⟩ := w.draft.eq_push_or_frames_nil
    · exact absurd hnil hframes
    · exact ⟨_, hsame.grows hw hdraft nofun⟩
  | @tag name attributes w w' v₁ v₂ v₂' v₃ v inner rest hname hw' hstarts hinner hv₂ hends _ ihinner
      ihrest =>
      obtain hnil | ⟨top, below, hdraft⟩ := w.draft.eq_push_or_frames_nil
      · exact absurd hnil hframes
      have hstands := hw'.stands hw
      have hdraft' : w'.draft = below.push top := hw'.draft.trans hdraft
      have hframes' : w'.draft.frames ≠ [] := hw'.draft ▸ hframes
      have hone : ∃ x, Grows options P [] w' v₃ (customTop v₁ ++ inner ++ customTop v₃) x := by
        cases hstarts.round hname hstands hinner ihinner hv₂ hends with
        | idle hsame hcustoms => exact ⟨_, hsame.grows hstands hdraft' hcustoms⟩
        | through hsame hback =>
          obtain ⟨x, hx⟩ := ihinner (hsame.stands hstands) (hsame.draft ▸ hframes')
          have hafter := hx.after hsame
          have hv₃ := hafter.before (hback (hafter.stands hstands hdraft').1.suppressed)
          refine ⟨x, hv₃.of_subset fun k hk => ?_⟩
          rw [hsame.customTop, customTop_built hv₃.core] at hk
          rcases mem_append.mp hk with hk | hk
          · exact mem_append.mp hk
          · exact .inl hk
        | refused haccepted hcore hledger hcustoms =>
          exact ⟨_, (refused_grows haccepted hframes' hcore hledger).of_subset
            fun k hk => .inr (hcustoms k hk)⟩
        | @grows attributes x _ hx =>
          have hhead : w'.draft.frames.head? = some top := by rw [hdraft']; rfl
          rw [rootIntro_inside hhead] at hx
          exact ⟨x, hx⟩
      obtain ⟨x, hx⟩ := hone
      have hx := hx.after hw'
      obtain ⟨hv₃, own, below', hdraft₃⟩ := hx.stands hw hdraft
      obtain ⟨y, hy⟩ := ihrest hv₃ (by rw [hdraft₃]; exact cons_ne_nil _ _)
      exact ⟨_, hx.followedBy hy hw hdraft⟩

/-! ### Outside all tags -/

/-- What balanced tags outside all others come to: nothing, or they hold a root. -/
inductive Rooted (options : Options) (P : Text → Prop) (w v : Walk) (customs : List Int) : Prop
  | bare (h : Same w v) (hcustoms : customs = [])
  | root {attributes : AttributeMap} {x : Growth} (hw : w.initialized = false)
      (h : Grows options P (Construction.rootDeclarations options attributes) w v customs x)
      (hroot : ChildView.indices x.code.views = [w.treeIndex + 1])

theorem customTop_bare (hframes : w.draft.frames = []) : customTop w = [] := by
  unfold customTop
  rw [hframes]

theorem Grows.bare (h : Grows options P intro w v customs x) (hw : Stands w)
    (hframes : w.draft.frames = []) : Stands v ∧ v.draft.frames = [] ∧ v.initialized = true ∧
      v.draft.buffer = weave (topSplice w.draft) x.trace w.draft.buffer :=
  built_bare h.sound.spells h.core hw hframes

/-- Tags that change nothing may come first. -/
theorem Rooted.after (h : Same u w) (hv : Rooted options P w v customs) :
    Rooted options P u v customs := by
  cases hv with
  | bare hsame hcustoms => exact .bare (h.trans hsame) hcustoms
  | root hw hx hroot =>
    have hindex : w.treeIndex = u.treeIndex := (congrArg treeIndex h.core :)
    exact .root ((congrArg initialized h.core :).symm.trans hw) (hx.after h) (hindex ▸ hroot)

/-- There is only one root. -/
theorem Rooted.followedBy (h : Rooted options P w u customs)
    (hw : Stands w) (hframes : w.draft.frames = [])
    (hrest : Stands u → u.draft.frames = [] → Rooted options P u v customs') :
    Rooted options P w v (customs ++ customs') := by
  cases h with
  | bare hsame hcustoms =>
    subst hcustoms
    exact (hrest (hsame.stands hw) (hsame.draft ▸ hframes)).after hsame
  | root hfresh hx hroot =>
    obtain ⟨hu, hbare, hset, _⟩ := hx.bare hw hframes
    cases hrest hu hbare with
    | bare hsame hcustoms =>
      subst hcustoms
      rw [append_nil]
      exact .root hfresh (hx.before hsame) hroot
    | root hunset => cases hset.symm.trans hunset

/-- **Balanced tags outside all others** add a root, or nothing. -/
theorem Passage.roots (h : Passage options P w v customs) (hw : Stands w)
    (hframes : w.draft.frames = []) : Rooted options P w v customs := by
  induction h with
  | done hsame => exact .bare hsame rfl
  | @tag name attributes w w' v₁ v₂ v₂' v₃ v inner rest hname hw' hstarts hinner hv₂ hends _ ihinner
      ihrest =>
      have hstands := hw'.stands hw
      have hframes' : w'.draft.frames = [] := hw'.draft ▸ hframes
      have hround := hstarts.round hname hstands hinner hinner.grows hv₂ hends
      have hone : Rooted options P w' v₃ (customTop v₁ ++ inner ++ customTop v₃) := by
        cases hround with
        | idle hsame hcustoms =>
          refine .bare hsame (eq_nil_iff_forall_not_mem.mpr fun k hk => ?_)
          have htop := hcustoms k hk
          rw [customTop_bare hframes'] at htop
          cases htop
        | through hsame hback =>
          have hv₁ : v₁.draft.frames = [] := hsame.draft ▸ hframes'
          have hinside := (ihinner (hsame.stands hstands) hv₁).after hsame
          rw [customTop_bare hv₁, nil_append]
          refine hinside.followedBy hstands hframes' fun hv₂ hbare => ?_
          have hv₃ := hback hv₂.suppressed
          exact .bare hv₃ (customTop_bare (hv₃.draft ▸ hbare))
        | refused haccepted hcore hledger hcustoms =>
          rw [Draft.modifyTop_of_nil hframes'] at hcore
          have hsame : Same w' v₃ := ⟨hcore, hledger⟩
          refine .bare hsame (eq_nil_iff_forall_not_mem.mpr fun k hk => ?_)
          have htop := hcustoms k hk
          rw [customTop_bare (hsame.draft ▸ hframes')] at htop
          cases htop
        | @grows attributes x hfresh hx hroot =>
          rw [rootIntro, hframes', isEmpty_nil, if_pos rfl] at hx
          exact .root hfresh hx (hroot hframes')
      exact (hone.followedBy hstands hframes' ihrest).after hw'

end ViewMarkup.Walk
