import ViewMarkup.Proofs.Document.Run
import ViewMarkup.Proofs.Walk.Modules
import ViewMarkup.Proofs.Walk.Roots
import ViewMarkup.Proofs.Xml.Balance

/-!
# What the tags of a document come to

The tags of a document are balanced.  A lenient walk over them either finds no root, or it adds one to
the code, with all that it holds.

* `tags_passage` reads the tags of a document as a `Passage`, with the indices of the custom elements
  among them.
* `Built` says what a walk is like that has found a root, and `tags_built` that this is so.
* `Built.printable`: all that such a walk has written can be printed.
-/

namespace ViewMarkup.Document

open List
open Script (Node WellFormed)
open Walk (Passage Same Stands Ledger Registered customTop final)

variable {options : Options} {events : List Xml.Event} {w v : Walk} {P : Text → Prop}
  {rest : List Xml.Event}

/-! ### The tags of a document are a passage -/

theorem tags_append (first rest : List Xml.Event) :
    tags options (first ++ rest) = (do tags options first; tags options rest) := by
  induction first with
  | nil => rfl
  | cons event first ih =>
    show (do tag options event; tags options (first ++ rest)) = _
    rw [ih, ← bind_assoc]
    rfl

/-- The indices of the custom elements that have been on top after some tag. -/
def customsAlong (options : Options) : List Xml.Event → Walk → List Int
  | [], _ => []
  | event :: rest, w =>
    let v := final (tag options event w)
    customTop v ++ customsAlong options rest v

theorem customsAlong_append {first : List Xml.Event} (h : tags options first w = .ok () v) :
    customsAlong options (first ++ rest) w =
      customsAlong options first w ++ customsAlong options rest v := by
  induction first generalizing w with
  | nil =>
    cases h
    rfl
  | cons event first ih =>
    obtain ⟨_, u, hu, h⟩ := Walk.bind_eq_ok h
    have hfinal : final (tag options event w) = u := by rw [hu]; rfl
    show customTop (final (tag options event w)) ++ customsAlong options (first ++ rest) _ =
      customTop (final (tag options event w)) ++ customsAlong options first _ ++ _
    rw [hfinal, ih h, append_assoc]

theorem same_channel {channel : Channel} (h : channel.strict = w.channel.strict) :
    Same w { w with channel } :=
  ⟨by unfold Walk.core; rw [h], rfl⟩

/-- **The tags of a document are a passage.** -/
theorem tags_passage (hevents : Xml.Balanced events)
    (hP : ∀ offset name attributes, .startTag offset name attributes ∈ events → P name)
    (hw : Resting w) (h : tags options events w = .ok () v) :
    Resting v ∧ ∃ customs, Passage options P w v customs ∧
      ∀ k ∈ customsAlong options events w, k ∈ customs := by
  induction hevents generalizing w v with
  | nil =>
    cases h
    exact ⟨hw, [], .done Same.refl, fun _ h => h⟩
  | @element offset offset' name attributes inner rest _ _ ihinner ihrest =>
    obtain ⟨_, v₁, hstart, h⟩ := Walk.bind_eq_ok h
    rw [tags_append] at h
    obtain ⟨_, v₂, hinside, h⟩ := Walk.bind_eq_ok h
    obtain ⟨_, v₃, hend, hafter⟩ := Walk.bind_eq_ok h
    have hcustoms : customsAlong options
        (.startTag offset name attributes :: (inner ++ .endTag offset' name :: rest)) w =
          customTop v₁ ++ customsAlong options inner v₁ ++ customTop v₃ ++
            customsAlong options rest v₃ := by
      have hfinal : final (tag options (.endTag offset' name) v₂) = v₃ := by rw [hend]; rfl
      show customTop (final (tag options (.startTag offset name attributes) w)) ++ _ = _
      rw [hstart]
      show customTop v₁ ++ customsAlong options (inner ++ _) v₁ = _
      rw [customsAlong_append hinside, customsAlong, hfinal]
      simp only [append_assoc]
    -- the start of the tag
    obtain ⟨channel, hcursor, hstrict⟩ := setCursor_run offset w
    rw [tag_start, Walk.bind_ok hcursor] at hstart
    have hw' := hw.channel hstrict
    have hstarts := Walk.startTag_starts hw'.lenient hw'.receiver hstart
    -- what is inside
    obtain ⟨hv₂, innerCustoms, hinner, hinnerCustoms⟩ := ihinner
      (fun o n a hmem => hP o n a (mem_cons_of_mem _ (mem_append_left _ hmem)))
      (hw'.starts hstarts) hinside
    -- the end of the tag
    obtain ⟨channel', hcursor', hstrict'⟩ := setCursor_run offset' v₂
    rw [tag, Walk.bind_ok hcursor'] at hend
    have hv₂' := hv₂.channel hstrict'
    have hends := Walk.closeTag_ends hv₂'.receiver hv₂'.nested.shaped hend
    -- what follows
    obtain ⟨hv, restCustoms, hrest, hrestCustoms⟩ := ihrest
      (fun o n a hmem => hP o n a (mem_cons_of_mem _ (mem_append_right _
        (mem_cons_of_mem _ hmem)))) (hv₂'.ends hends) hafter
    refine ⟨hv, _, .tag (hP _ _ _ mem_cons_self) (same_channel hstrict) hstarts hinner
      (same_channel hstrict') hends hrest, fun k hk => ?_⟩
    rw [hcustoms] at hk
    simp only [mem_append] at hk ⊢
    rcases hk with ((hk | hk) | hk) | hk
    · exact .inl (.inl (.inl hk))
    · exact .inl (.inl (.inr (hinnerCustoms k hk)))
    · exact .inl (.inr hk)
    · exact .inr (hrestCustoms k hk)

/-! ### The root -/

/-- Modules have been registered for what is declared along a walk. -/
theorem registered_kept (options : Options) (events : List Xml.Event) :
    Kept options events fun w => ∃ declared, Registered options declared (Walk.ledger w) where
  channel h := h
  starts _ _ h hs := by
    cases hs with
    | outside _ hledger => rwa [hledger]
    | skipped _ hledger => rwa [hledger]
    | accepted _ _ hopens =>
      obtain ⟨declared, h⟩ := h
      cases hopens with
      | refused _ hledger | property _ _ hledger | factory _ _ hledger
      | slotContent _ _ hledger => exact ⟨declared, hledger ▸ h⟩
      | slot _ _ hledger =>
        rw [hledger]
        exact ⟨_, h.enter _⟩
      | element _ _ _ _ _ hledger =>
        rw [hledger]
        exact ⟨_, (h.enter _).congr Ledger.files_use⟩
  ends _ h he := by
    cases he with
    | outside _ hledger | bare _ hledger | unmatched _ hledger | dropped _ _ _ hledger =>
      rwa [hledger]
    | left _ _ hleaves =>
      obtain ⟨declared, h⟩ := h
      cases hleaves with
      | element _ _ _ _ _ hledger => exact ⟨declared, h.congr (congrArg Ledger.files hledger :)⟩
      | mixed _ _ _ _ hledger | slot _ _ _ hledger | property _ _ _ _ hledger
      | factory _ _ _ _ hledger | slotContent _ _ _ _ _ hledger => exact ⟨declared, hledger ▸ h⟩

/-- What the tags of a document have come to, if there was a root among them. -/
structure Built (options : Options) (P : Text → Prop) (customs : List Int) (w : Walk)
    (attributes : AttributeMap) (x : Walk.Growth) : Prop where
  row : Row options P (Frame.skip []).place (-1) x.code x.callbacks x.customs
  given : x.code.given = []
  views : ChildView.indices x.code.views = [0]
  nodes : w.draft.nodes = Construction.rootDeclarations options attributes ++ x.code.nodes
  callbacks : w.callbacks = x.callbacks
  treeIndex : w.treeIndex = x.code.last
  registered : ∃ declared, Registered options declared (Walk.ledger w)
  customs : customs ⊆ x.customs

theorem tags_built (hevents : Xml.Balanced events)
    (hP : ∀ offset name attributes, .startTag offset name attributes ∈ events → P name)
    (hw : Resting w) (hstart : w = Walk.start w.channel) (h : tags options events w = .ok () v)
    (hroot : v.initialized = true) :
    ∃ attributes x, Built options P (customsAlong options events w) v attributes x := by
  have hstands : Stands w := by
    rw [hstart]
    exact Walk.stands_start _
  have hframes : w.draft.frames = [] := by
    rw [hstart]
    rfl
  obtain ⟨_, customs, hpassage, hsub⟩ := tags_passage hevents hP hw h
  have hregistered : ∃ declared, Registered options declared (Walk.ledger v) := by
    have hbefore : Registered options [] (Walk.ledger w) := by
      rw [hstart]
      exact ⟨rfl, .nil, rfl, ⟨[], .refl _, rfl, rfl⟩, nil_subset _⟩
    have hcomes := tags_run (registered_kept options events) (fun _ hmem => hmem) hw ⟨[], hbefore⟩
    rw [h] at hcomes
    cases hcomes with
    | on _ hregistered => exact hregistered
  cases hpassage.roots hstands hframes with
  | bare hsame =>
    have hset : w.initialized = true := (congrArg Walk.initialized hsame.core :).symm.trans hroot
    rw [hstart] at hset
    cases hset
  | @root attributes x _ hx hindices =>
    have hbuilds : Walk.Builds _ w v x.trace x.code := ⟨hx.sound.spells, hx.sound.fits, hx.core⟩
    obtain ⟨hgiven, hnodes⟩ := hbuilds.root_nodes hstands hframes (by rw [hstart]; rfl)
    have hsound := hx.sound
    rw [hstart] at hsound hindices
    refine ⟨attributes, x, hsound.row, hgiven, hindices, hnodes, ?_,
      (congrArg Walk.treeIndex hx.core :), hregistered, fun k hk => ?_⟩
    · rw [hx.callbacks, hstart]
      rfl
    · refine (hx.customs k (hsub k hk)).resolve_left ?_
      rw [Walk.customTop_bare hframes]
      exact nofun

/-- **A walk that has found a root can be printed.** -/
theorem Built.printable {customs : List Int} {attributes : AttributeMap} {x : Walk.Growth}
    (h : Built options P customs w attributes x) : Walk.Printable w := by
  obtain ⟨_, hnodes, hcallbacks⟩ := h.row.wellFormed
  obtain ⟨declared, hregistered⟩ := h.registered
  obtain ⟨written, _, _, hregistrations⟩ := hregistered.registrations
  have hregistrations : w.registrations = _ := hregistrations
  have hmodules : w.customModules = _ := hregistered.customModules
  constructor
  case nodes =>
    rw [h.nodes]
    exact forall_mem_append.mpr
      ⟨Construction.rootDeclarations_wellFormed, hnodes⟩
  case callbacks => rwa [h.callbacks]
  case registrations =>
    rw [hregistrations]
    exact forall_mem_map.mpr fun path _ => Construction.registration_wellFormed
  case customModules =>
    rw [hmodules]
    exact forall_mem_map.mpr fun path _ => Construction.customModule_wellFormed

end ViewMarkup.Document
