import ViewMarkup.Proofs.Walk.Element

/-!
# Tags named after platforms

A tag named after the platform compiled for is transparent: it counts as if only what it holds had
been written.  A tag named after another platform counts as if it had not been written at all.

* `Element.erase` removes such tags from an element, and `Element.eraseAll` from a forest.
* `eventsOf_hushed` says that nothing changes while a tag of another platform is open.
* `eventsOf_eraseAll` compares the run over a forest with the run over what remains of it.
* `events_eraseAll_from_start` is the same for a whole document, whatever follows it.
-/

namespace ViewMarkup

namespace Element

mutual

/-- What remains of an element when tags named after platforms are resolved. -/
def erase (options : Options) : Element → List Element
  | mk name attributes children =>
    if Name.isPlatform name then
      if options.matchesPlatform name then eraseAll options children else []
    else [mk name attributes (eraseAll options children)]

/-- What remains of elements when tags named after platforms are resolved. -/
def eraseAll (options : Options) : List Element → List Element
  | [] => []
  | element :: rest => erase options element ++ eraseAll options rest

end

theorem eventsOf_append (first rest : List Element) :
    eventsOf (first ++ rest) = eventsOf first ++ eventsOf rest := by
  induction first with
  | nil => rfl
  | cons element first ih =>
    rw [List.cons_append, eventsOf, eventsOf, ih, List.append_assoc]

theorem eventsOf_singleton (element : Element) : eventsOf [element] = element.events := by
  rw [eventsOf, eventsOf, List.append_nil]

end Element

namespace Walk

open Element (attributeEvents eventsOf erase eraseAll)

variable {options : Options} {name : Text} {attributes : AttributeMap} {w v : Walk}
  {children : List Element}

/-! ### Events that reach no tag -/

theorem attributes_nobody (hw : w.receiver = .nobody) :
    events options (attributeEvents attributes) w = .ok () w := by
  induction attributes with
  | nil => rfl
  | cons item rest ih =>
    have hset : setAttribute item.1 item.2 w = .ok () w := by
      unfold setAttribute
      rw [get_bind, hw]
      rfl
    exact (bind_ok hset).trans ih

theorem clear_nobody (hw : w.receiver = .nobody) : { w with receiver := .nobody } = w := by
  cases w
  cases hw
  rfl

theorem completeTag_nobody (hw : w.receiver = .nobody) {given : Option AttributeMap} :
    completeTag options given w = .ok () w := by
  show completeReceiver options given w.receiver { w with receiver := .nobody } = _
  rw [clear_nobody hw, hw]
  rfl

/-- If a tag starts without a frame of its own, its attributes and its completion do nothing. -/
theorem startTag_unframed (hopen : openTag options name w = .ok () v) (hv : v.receiver = .nobody) :
    startTag options name attributes w = .ok () v := by
  unfold startTag
  rw [bind_ok hopen, bind_ok (attributes_nobody hv), completeTag_nobody hv]

theorem events_unframed (hopen : openTag options name w = .ok () v) (hv : v.receiver = .nobody) :
    events options (Element.mk name attributes children).events w =
      (do events options (eventsOf children); closeTag options name) v := by
  rw [events_element, bind_ok (startTag_unframed hopen hv)]

/-- How many levels of silence a tag named after a platform adds. -/
def silence (options : Options) (name : Text) : Int :=
  if options.matchesPlatform name then 0 else 1

theorem openTag_platform (hname : Name.isPlatform name) (hw : w.receiver = .nobody) :
    openTag options name w =
      .ok () { w with suppressed := w.suppressed + silence options name } := by
  have hsum : (if options.matchesPlatform name then w.suppressed else w.suppressed + 1) =
      w.suppressed + silence options name := by
    unfold silence
    split <;> omega
  unfold openTag
  rw [get_bind, if_pos hname, run_modify, hsum, ← hw]

theorem closeTag_platform (hname : Name.isPlatform name) :
    closeTag options name w =
      .ok () { w with suppressed := w.suppressed - silence options name } := by
  unfold closeTag silence
  rw [get_bind, if_pos hname]
  split
  · rw [Int.sub_zero, run_pure]
  · rw [run_modify]

/-- A tag that is no platform starts nothing while another platform is open. -/
theorem openTag_hushed (hname : Name.isPlatform name = false) (hw : w.receiver = .nobody)
    (hsuppressed : w.suppressed ≠ 0) : openTag options name w = .ok () w := by
  unfold openTag
  rw [get_bind, hname, if_neg Bool.false_ne_true, if_pos hsuppressed, run_modify, clear_nobody hw]

theorem closeTag_hushed (hname : Name.isPlatform name = false) (hsuppressed : w.suppressed ≠ 0) :
    closeTag options name w = .ok () w := by
  unfold closeTag
  rw [get_bind, hname, if_neg Bool.false_ne_true, if_pos hsuppressed, run_pure]

/-! ### Inside a tag of another platform -/

/-- A tag of another platform is open, and no tag receives attributes. -/
structure Hushed (w : Walk) : Prop where
  receiver : w.receiver = .nobody
  suppressed : 0 < w.suppressed

theorem Hushed.raise (hw : Hushed w) :
    Hushed { w with suppressed := w.suppressed + silence options name } := by
  refine ⟨hw.receiver, ?_⟩
  have hpos := hw.suppressed
  show 0 < w.suppressed + silence options name
  unfold silence
  split <;> omega

mutual

/-- **Silence.**  Inside a tag of another platform an element changes nothing. -/
theorem events_hushed : ∀ (element : Element) {w : Walk}, Hushed w →
    events options element.events w = .ok () w
  | .mk name attributes children, w, hw => by
      cases hname : Name.isPlatform name with
      | true =>
        rw [events_unframed (openTag_platform hname hw.receiver) hw.receiver,
          bind_ok (eventsOf_hushed children hw.raise), closeTag_platform hname]
        simp only [Int.add_sub_cancel]
      | false =>
        have hne : w.suppressed ≠ 0 := by
          have := hw.suppressed
          omega
        rw [events_unframed (openTag_hushed hname hw.receiver hne) hw.receiver,
          bind_ok (eventsOf_hushed children hw), closeTag_hushed hname hne]

theorem eventsOf_hushed : ∀ (forest : List Element) {w : Walk}, Hushed w →
    events options (eventsOf forest) w = .ok () w
  | [], _, _ => rfl
  | element :: rest, w, hw => by
      rw [eventsOf, events_append, bind_ok (events_hushed element hw)]
      exact eventsOf_hushed rest hw

end

/-! ### Outside such tags -/

/-- No tag of another platform is open, and no tag receives attributes. -/
structure Ready (w : Walk) : Prop where
  receiver : w.receiver = .nobody
  suppressed : w.suppressed = 0

theorem ready_start {channel : Channel} : Ready (start channel) :=
  ⟨rfl, rfl⟩

theorem ready_of_outline (hv : outline v = (true, 0)) : Ready v := by
  have hreceiver : isNobody v.receiver = true := congrArg Prod.fst hv
  refine ⟨?_, congrArg Prod.snd hv⟩
  cases hr : v.receiver with
  | nobody => rfl
  | top | closed frame => rw [hr] at hreceiver; cases hreceiver

theorem Ready.outline (hw : Ready w) : outline w = (true, 0) := by
  unfold Walk.outline
  rw [hw.receiver, hw.suppressed]
  rfl

/-- A tag that is no platform ends as ready as it began. -/
theorem Ready.closeTag (hw : Ready w) (hname : Name.isPlatform name = false)
    (h : closeTag options name w = .ok () v) : Ready v := by
  have hv := (closeTag_composed outline_remote outline_apart.toAloof options
    (unseen_of_not_platform hname)).keeps_ok outline_deaf h
  exact ready_of_outline (hv.trans hw.outline)

/-- A tag of another platform leaves no trace. -/
theorem events_other_platform (hname : Name.isPlatform name)
    (hother : options.matchesPlatform name = false) (hw : Ready w) :
    events options (Element.mk name attributes children).events w = .ok () w := by
  have hsilence : silence options name = 1 := by
    rw [silence, hother]
    rfl
  have hhushed : Hushed { w with suppressed := w.suppressed + silence options name } := by
    refine ⟨hw.receiver, ?_⟩
    show 0 < w.suppressed + silence options name
    rw [hw.suppressed, hsilence]
    decide
  rw [events_unframed (openTag_platform hname hw.receiver) hw.receiver,
    bind_ok (eventsOf_hushed children hhushed), closeTag_platform hname]
  simp only [Int.add_sub_cancel]

/-- A tag of the platform compiled for is transparent. -/
theorem events_same_platform (hname : Name.isPlatform name)
    (hsame : options.matchesPlatform name) (hw : Ready w) :
    events options (Element.mk name attributes children).events w =
      events options (eventsOf children) w := by
  have hsilence : silence options name = 0 := if_pos hsame
  have hopen : openTag options name w = .ok () w := by
    rw [openTag_platform hname hw.receiver, hsilence, Int.add_zero]
  have hclose : closeTag options name = pure () := by
    funext u
    rw [closeTag_platform hname, hsilence, Int.sub_zero]
    rfl
  rw [events_unframed hopen hw.receiver, hclose]
  exact congrFun (bind_pure _) w

mutual

theorem events_erase : ∀ (element : Element) {w : Walk}, Ready w →
    events options element.events w = events options (eventsOf (erase options element)) w ∧
      ∀ v, events options element.events w = .ok () v → Ready v
  | .mk name attributes children, w, hw => by
      cases hname : Name.isPlatform name with
      | true =>
        cases hsame : options.matchesPlatform name with
        | true =>
          rw [events_same_platform hname hsame hw, erase, if_pos hname, if_pos hsame]
          exact eventsOf_eraseAll children hw
        | false =>
          rw [events_other_platform hname hsame hw, erase, if_pos hname, hsame,
            if_neg Bool.false_ne_true]
          refine ⟨rfl, fun v hv => ?_⟩
          cases hv
          exact hw
      | false =>
        -- The tag itself is in both runs; only what is inside may differ.
        have hstart : ∀ v, startTag options name attributes w = .ok () v → Ready v :=
          fun v hv => ready_of_outline ((startTag_outline hname hv).trans
            (congrArg (true, ·) hw.suppressed))
        rw [erase, hname, if_neg Bool.false_ne_true, Element.eventsOf_singleton, events_element,
          events_element]
        constructor
        · refine bind_congr_ok fun _ u hu => ?_
          have hinside := (eventsOf_eraseAll children (hstart u hu)).1
          simp only [bind, EStateM.bind, hinside]
        · intro v hv
          obtain ⟨_, u, hu, hv⟩ := bind_eq_ok hv
          obtain ⟨_, t, ht, hclose⟩ := bind_eq_ok hv
          exact ((eventsOf_eraseAll children (hstart u hu)).2 t ht).closeTag hname hclose

/-- **Erasure.**  Walking over a forest ends as walking over what remains of it does. -/
theorem eventsOf_eraseAll : ∀ (forest : List Element) {w : Walk}, Ready w →
    events options (eventsOf forest) w = events options (eventsOf (eraseAll options forest)) w ∧
      ∀ v, events options (eventsOf forest) w = .ok () v → Ready v
  | [], w, hw => by
      refine ⟨rfl, fun v hv => ?_⟩
      cases hv
      exact hw
  | element :: rest, w, hw => by
      obtain ⟨hfirst, hready⟩ := events_erase element hw
      rw [eventsOf, eraseAll, Element.eventsOf_append, events_append, events_append]
      constructor
      · have hrest : (events options element.events >>= fun _ => events options (eventsOf rest)) w =
            (events options element.events >>= fun _ =>
              events options (eventsOf (eraseAll options rest))) w :=
          bind_congr_ok fun _ u hu => (eventsOf_eraseAll rest (hready u hu)).1
        rw [hrest]
        simp only [bind, EStateM.bind, hfirst]
      · intro v hv
        obtain ⟨_, u, hu, hv⟩ := bind_eq_ok hv
        exact (eventsOf_eraseAll rest (hready u hu)).2 v hv

end

/-- **Platform tags are conditional erasure.**  A document and what remains of it without the tags
named after platforms are walked over alike, in either mode: with the same walk at the end and the
same failure, whatever events follow. -/
theorem events_eraseAll_from_start (options : Options) (channel : Channel)
    (forest : List Element) (following : List TagEvent) :
    events options (eventsOf forest ++ following) (start channel) =
      events options (eventsOf (eraseAll options forest) ++ following) (start channel) := by
  rw [events_append, events_append]
  have hforest : events options (eventsOf forest) (start channel) =
      events options (eventsOf (eraseAll options forest)) (start channel) :=
    (eventsOf_eraseAll forest ready_start).1
  simp only [bind, EStateM.bind, hforest]

end Walk

end ViewMarkup
