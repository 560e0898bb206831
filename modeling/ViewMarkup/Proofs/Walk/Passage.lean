import ViewMarkup.Proofs.Walk.Moves

/-!
# Walking over balanced tags

A walk over balanced tags starts a tag, goes over what is inside, ends the tag and goes on.  What it
does is said as a relation between the walk before and the walk after, in terms of `Starts` and
`Ends` alone.

* `Passage` is this relation; it also gathers the indices of the custom elements on the way.
* `Passage.still`: inside a tag that is left out, or in a tag of another platform, balanced tags
  change nothing.
* `Unframed.ends`: the end of a tag without a frame takes back what its start has done.
-/

namespace ViewMarkup.Walk

variable {options : Options} {name : Text} {attributes : AttributeMap} {frame : Frame} {d : Draft}
  {b : List Fragment} {c u w v : Walk} {P : Text → Prop} {customs : List Int}

/-- Two walks differ in what they have reported at most. -/
structure Same (w v : Walk) : Prop where
  core : Walk.core v = Walk.core w
  ledger : Walk.ledger v = Walk.ledger w

theorem Same.trans (h : Same u w) (h' : Same w v) : Same u v :=
  ⟨h'.core.trans h.core, h'.ledger.trans h.ledger⟩

theorem Same.draft (h : Same w v) : v.draft = w.draft :=
  (congrArg Walk.draft h.core :)

theorem Same.suppressed (h : Same w v) : v.suppressed = w.suppressed :=
  (congrArg Walk.suppressed h.core :)

/-- The index of the tag on top, if it is a custom element. -/
def customTop (w : Walk) : List Int :=
  match w.draft.frames with
  | [] => []
  | frame :: _ => if frame.isCustom then [frame.index] else []

theorem Same.customTop (h : Same w v) : customTop v = customTop w := by
  unfold Walk.customTop
  rw [h.draft]

/-- **A walk over balanced tags**, whose names have a property.  The indices are those of the custom
elements that have been on top after some tag. -/
inductive Passage (options : Options) (P : Text → Prop) : Walk → Walk → List Int → Prop
  | done {w v : Walk} (h : Same w v) : Passage options P w v []
  | tag {name : Text} {attributes : AttributeMap} {w w' v₁ v₂ v₂' v₃ v : Walk}
      {inner rest : List Int} (hname : P name) (hw : Same w w')
      (hstarts : Starts options name attributes w' v₁) (hinner : Passage options P v₁ v₂ inner)
      (hv₂ : Same v₂ v₂') (hends : Ends options name v₂' v₃)
      (hrest : Passage options P v₃ v rest) :
      Passage options P w v (customTop v₁ ++ inner ++ customTop v₃ ++ rest)

/-! ### The end of a tag that has been started -/

/-- The end of a tag without a frame takes back what its start has done. -/
theorem Unframed.ends {change suppressed : Int} (hwhy : Unframed name w change suppressed)
    (hchange : change = silence options name) (hu : u.suppressed = suppressed)
    (he : Ends options name u v) :
    core v = { core u with suppressed := w.suppressed } ∧ ledger v = ledger u := by
  have hframed : ¬ Framed name u := by
    intro hframed
    have hname := hframed.name
    have hzero := hu.symm.trans hframed.suppressed
    cases hwhy with
    | platform hplatform => cases hplatform.symm.trans hname
    | hushed _ hne => exact hne hzero
  cases he with
  | bare _ _ h | unmatched _ _ h | dropped _ _ _ _ h | left _ _ _ h => exact absurd h hframed
  | outside hcore hledger hback =>
    refine ⟨hcore.trans ?_, hledger⟩
    cases hwhy with
    | platform hplatform =>
      cases hback with
      | platform _ =>
        have hsum : u.suppressed + -silence options name = w.suppressed := by omega
        rw [hsum]
      | hushed hname =>
        rw [hplatform] at hname
        cases hname
    | hushed hname _ =>
      cases hback with
      | platform hplatform =>
        rw [hplatform] at hname
        cases hname
      | hushed _ _ => rw [hu]

theorem shut_opening (hframe : frame.hasOpenChild = false) : shut (opening frame) = frame := by
  cases frame
  cases hframe
  rfl

theorem closes_skip : Closes name { Frame.skip name with attributes } :=
  ⟨rfl, rfl⟩

/-! ### Tags that have no effect -/

/-- What follows is left out: a tag of another platform is open, or the tag on top is ignored. -/
inductive Still (w : Walk) : Prop
  | hushed (hsuppressed : 0 < w.suppressed)
  | ignored {d : Draft} {frame : Frame} (hsuppressed : w.suppressed = 0)
      (hdraft : w.draft = d.push frame) (hignored : frame.ignored = true)
      (hshut : frame.hasOpenChild = false)

theorem Still.same (h : Still w) (hsame : Same w v) : Still v := by
  cases h with
  | hushed hsuppressed => exact .hushed (by rw [hsame.suppressed]; exact hsuppressed)
  | ignored hsuppressed hdraft hignored hshut =>
    exact .ignored (hsame.suppressed.trans hsuppressed) (hsame.draft.trans hdraft) hignored hshut

theorem silence_nonneg (options : Options) (name : Text) : 0 ≤ silence options name := by
  unfold silence
  split
  · exact Int.le_refl 0
  · exact Int.zero_le_ofNat 1

theorem Still.outside {suppressed : Int} (h : Still w) (hcore : core v = { core w with suppressed })
    (hwhy : Unframed name w (silence options name) suppressed) : Still v := by
  have hv : v.suppressed = suppressed := (congrArg Walk.suppressed hcore :)
  have hnonneg := silence_nonneg options name
  cases h with
  | hushed hpos =>
    refine .hushed ?_
    rw [hv]
    cases hwhy with
    | platform => omega
    | hushed => exact hpos
  | ignored hzero hdraft hignored hshut =>
    cases hwhy with
    | hushed _ hne => exact absurd hzero hne
    | platform =>
      by_cases hsilence : silence options name = 0
      · have hsum : v.suppressed = 0 := by omega
        exact .ignored hsum ((congrArg Walk.draft hcore :).trans hdraft) hignored hshut
      · refine .hushed ?_
        omega

/-- A tag that is left out changes nothing, if what it holds changes nothing. -/
theorem skipped_ends {received : AttributeMap}
    (hshut : ∀ frame, w.draft.frames.head? = some frame → frame.hasOpenChild = false)
    (hcore : core v = (core w).withDraft
      ((w.draft.modifyTop opening).push { Frame.skip name with attributes := received }))
    (hledger : ledger v = ledger w) (hframed : Framed name w) :
    Still v ∧ customTop v = [] ∧ ∀ u u', Same v u → Ends options name u u' → Same w u' := by
  have hdraft : v.draft = _ := (congrArg Walk.draft hcore :)
  have hsuppressed : v.suppressed = 0 :=
    (congrArg Walk.suppressed hcore :).trans hframed.suppressed
  refine ⟨.ignored hsuppressed hdraft rfl rfl, ?_, fun u u' hsame hends => ?_⟩
  · unfold customTop
    rw [hdraft]
    rfl
  · have hclosed := hends.closed (hsame.draft.trans hdraft) hframed.name
      (hsame.suppressed.trans hsuppressed) closes_skip
    rcases hclosed with ⟨_, hback, hledger'⟩ | ⟨hignored, _⟩
    · refine ⟨?_, hledger'.trans (hsame.ledger.trans hledger)⟩
      have hdraft' : (w.draft.modifyTop opening).modifyTop shut = w.draft := by
        rcases w.draft.eq_push_or_frames_nil with hnil | ⟨frame, below, hpush⟩
        · rw [Draft.modifyTop_of_nil hnil, Draft.modifyTop_of_nil hnil]
        · rw [hpush, Draft.modifyTop_push, Draft.modifyTop_push,
            shut_opening (hshut frame (by rw [hpush]; rfl))]
      rw [hback, hsame.core, hcore]
      rw [hdraft']
      rfl
    · cases hignored

/-- The tag of another platform, or one that stands in such a tag: what comes before it stays. -/
theorem hushed_ends {suppressed : Int} {u' : Walk} (hcore : core v = { core w with suppressed })
    (hledger : ledger v = ledger w) (hwhy : Unframed name w (silence options name) suppressed)
    (hsame : Same v u) (hends : Ends options name u u') : Same w u' := by
  have hsuppressed := hsame.suppressed.trans (congrArg Walk.suppressed hcore :)
  obtain ⟨hback, hledger'⟩ := hwhy.ends rfl hsuppressed hends
  refine ⟨?_, hledger'.trans (hsame.ledger.trans hledger)⟩
  rw [hback, hsame.core, hcore]
  rfl

theorem Unframed.not_framed {change suppressed : Int} (h : Unframed name w change suppressed) :
    ¬ Framed name w := by
  intro hframed
  cases h with
  | platform hplatform => cases hplatform.symm.trans hframed.name
  | hushed _ hne => exact hne hframed.suppressed

/-- **A tag that is left out.**  What it holds is left out too, and its end takes its start back. -/
theorem Still.starts (h : Still w) (hstarts : Starts options name attributes w v) :
    Still v ∧ (∀ k ∈ customTop v, k ∈ customTop w) ∧
      (∀ top, v.draft.frames.head? = some top → Framed name w → top.ignored = true) ∧
      ∀ u u', Same v u → Ends options name u u' → Same w u' := by
  cases hstarts with
  | outside hcore hledger hwhy =>
    have htop : customTop v = customTop w := by
      unfold customTop
      rw [show v.draft = w.draft from (congrArg Walk.draft hcore :)]
    refine ⟨h.outside hcore hwhy, fun k hk => htop ▸ hk,
      fun _ _ hframed => absurd hframed hwhy.not_framed, fun u u' hsame hends => ?_⟩
    exact hushed_ends hcore hledger hwhy hsame hends
  | skipped hcore hledger hframed =>
    have hshut : ∀ frame, w.draft.frames.head? = some frame → frame.hasOpenChild = false := by
      intro frame hhead
      cases h with
      | hushed hpos =>
        rw [hframed.suppressed] at hpos
        cases hpos
      | ignored _ hdraft _ hshut =>
        rw [hdraft] at hhead
        cases hhead
        exact hshut
    obtain ⟨hstill, htop, hback⟩ := @skipped_ends options _ _ _ _ hshut hcore hledger hframed
    refine ⟨hstill, fun k hk => ?_, fun top hhead _ => ?_, hback⟩
    · rw [htop] at hk
      cases hk
    · rw [draft_of_core hcore] at hhead
      cases hhead
      rfl
  | accepted hignored _ _ hframed =>
    cases h with
    | hushed hpos =>
      rw [hframed.suppressed] at hpos
      cases hpos
    | ignored _ hdraft htop _ =>
      rw [hdraft] at hignored
      cases htop.symm.trans hignored

/-- **Tags that are left out change nothing.** -/
theorem Passage.still (h : Passage options P w v customs) (hw : Still w) :
    Same w v ∧ ∀ k ∈ customs, k ∈ customTop w := by
  induction h with
  | done hsame => exact ⟨hsame, nofun⟩
  | @tag name attributes w w' v₁ v₂ v₂' v₃ v inner rest _ hw' hstarts _ hv₂ hends _ ihinner
      ihrest =>
      have hstill := hw.same hw'
      obtain ⟨hstill₁, htop, _, hback⟩ := hstill.starts hstarts
      obtain ⟨hsame, hcustoms⟩ := ihinner hstill₁
      have hsame₃ := hw'.trans (hback _ _ (hsame.trans hv₂) hends)
      obtain ⟨hsame', hcustoms'⟩ := ihrest (hw.same hsame₃)
      rw [hw'.customTop] at htop
      refine ⟨hsame₃.trans hsame', fun k hk => ?_⟩
      simp only [List.mem_append] at hk
      rcases hk with ((hk | hk) | hk) | hk
      · exact htop k hk
      · exact htop k (hcustoms k hk)
      · rwa [hsame₃.customTop] at hk
      · have hmem := hcustoms' k hk
        rwa [hsame₃.customTop] at hmem

end ViewMarkup.Walk
