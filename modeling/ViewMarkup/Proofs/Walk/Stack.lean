import Mathlib.Data.List.Induction
import ViewMarkup.Proofs.Walk.Nesting

/-!
# The open frames are the open tags

While well-nested events are taken, the frames of a walk are the tags that are open in the document:
all but those named after a platform and those inside a tag of another platform.  A closing tag
therefore always meets the frame that its opening tag has pushed.

* `Nesting` is the state of an automaton that reads well-nested events; `WellNested` are the streams
  that it accepts.
* `Mirrors` says that a walk has the frames for the tags that are open.
* `Tracks.event` is the step and `Tracks.events` the run.
* `events_stack` says it of every prefix of every well-nested stream.
-/

namespace ViewMarkup

open List

/-! ### Well-nested events -/

/-- Where a stream of events stands: the open tags, the innermost first, and whether the last of them
still receives attributes. -/
structure Nesting where
  opened : List Text
  receives : Bool
  deriving DecidableEq

namespace Nesting

variable {n m : Nesting}

/-- Nothing is open. -/
def bare : Nesting := ⟨[], false⟩

/-- Where a stream stands after one more event, if the event may come there. -/
def next? : Nesting → TagEvent → Option Nesting
  | ⟨opened, false⟩, .openTag name => some ⟨name :: opened, true⟩
  | ⟨opened, true⟩, .setAttribute _ _ => some ⟨opened, true⟩
  | ⟨opened, true⟩, .completeTag _ => some ⟨opened, false⟩
  | ⟨name :: outer, false⟩, .closeTag name' => if name' = name then some ⟨outer, false⟩ else none
  | ⟨[], false⟩, .finish => some bare
  | _, _ => none

/-- Where a stream stands after some events. -/
def after? (n : Nesting) : List TagEvent → Option Nesting
  | [] => some n
  | event :: rest => (n.next? event).bind fun n => n.after? rest

/-- The events that may come, and where they lead. -/
inductive Follows : Nesting → TagEvent → Nesting → Prop
  | openTag {opened : List Text} {name : Text} :
      Follows ⟨opened, false⟩ (.openTag name) ⟨name :: opened, true⟩
  | setAttribute {opened : List Text} {name value : Text} :
      Follows ⟨opened, true⟩ (.setAttribute name value) ⟨opened, true⟩
  | completeTag {opened : List Text} {given : Option AttributeMap} :
      Follows ⟨opened, true⟩ (.completeTag given) ⟨opened, false⟩
  | closeTag {name : Text} {outer : List Text} :
      Follows ⟨name :: outer, false⟩ (.closeTag name) ⟨outer, false⟩
  | finish : Follows bare .finish bare

theorem follows_of_next? {e : TagEvent} (h : n.next? e = some m) : Follows n e m := by
  unfold next? at h
  split at h
  · cases h; exact .openTag
  · cases h; exact .setAttribute
  · cases h; exact .completeTag
  · split at h <;> cases h
    next hname => exact hname ▸ .closeTag
  · cases h; exact .finish
  · cases h

theorem after?_append (n : Nesting) (first rest : List TagEvent) :
    n.after? (first ++ rest) = (n.after? first).bind fun n => n.after? rest := by
  induction first generalizing n with
  | nil => rfl
  | cons event first ih =>
    rw [cons_append, after?, after?]
    cases n.next? event with
    | none => rfl
    | some n => exact ih n

/-- What may come after some events may come after the first of them. -/
theorem after?_of_append {first rest : List TagEvent} (h : n.after? (first ++ rest) = some m) :
    ∃ k, n.after? first = some k ∧ k.after? rest = some m := by
  rw [after?_append] at h
  exact Option.bind_eq_some_iff.mp h

theorem after?_of_concat {taken : List TagEvent} {e : TagEvent} (h : n.after? (taken ++ [e]) = some m) :
    ∃ k, n.after? taken = some k ∧ k.next? e = some m := by
  obtain ⟨k, hk, hlast⟩ := after?_of_append h
  obtain ⟨_, hnext, hdone⟩ := Option.bind_eq_some_iff.mp hlast
  cases hdone
  exact ⟨k, hk, hnext⟩

/-- A tag that is open has been opened, and has not been closed since. -/
theorem exists_opening {above outer : List Text} {name : Text}
    {events : List TagEvent} (h : bare.after? events = some n)
    (hopened : n.opened = above ++ name :: outer) :
    ∃ before inner, events = before ++ .openTag name :: inner ∧
      bare.after? before = some ⟨outer, false⟩ ∧
      ∀ first, first <+: inner → ∃ above' m, bare.after? (before ++ .openTag name :: first) = some m ∧
        m.opened = above' ++ name :: outer := by
  induction events using reverseRecOn generalizing n above with
  | nil =>
    cases h
    cases above <;> cases hopened
  | append_singleton events e ih =>
    obtain ⟨k, hk, hnext⟩ := after?_of_concat h
    -- if the tag was open before the last event, that event comes after its opening
    have hlater {above' : List Text} (hk' : k.opened = above' ++ name :: outer) :
        ∃ before inner, events ++ [e] = before ++ .openTag name :: inner ∧
          bare.after? before = some ⟨outer, false⟩ ∧
          ∀ first, first <+: inner → ∃ above' m,
            bare.after? (before ++ .openTag name :: first) = some m ∧
              m.opened = above' ++ name :: outer := by
      obtain ⟨before, inner, rfl, hbefore, hinner⟩ := ih hk hk'
      refine ⟨before, inner ++ [e], by simp, hbefore, fun first hfirst => ?_⟩
      rcases prefix_concat_iff.mp hfirst with rfl | hfirst
      · exact ⟨above, n, by simpa using h, hopened⟩
      · exact hinner first hfirst
    cases follows_of_next? hnext with
    | openTag =>
      cases above with
      | nil =>
        obtain ⟨rfl, rfl⟩ := cons.inj hopened
        refine ⟨events, [], rfl, hk, fun first hfirst => ?_⟩
        rw [prefix_nil.mp hfirst]
        exact ⟨[], _, h, rfl⟩
      | cons name'' above => exact hlater (cons.inj hopened).2
    | setAttribute | completeTag => exact hlater hopened
    | @closeTag top => exact @hlater (top :: above) (congrArg (top :: ·) hopened)
    | finish => cases above <;> cases hopened

end Nesting

/-- Every tag that is opened is completed once it has its attributes, and closed under its name after
the tags inside. -/
def WellNested (stream : List TagEvent) : Prop :=
  Nesting.bare.after? stream = some .bare

instance (stream : List TagEvent) : Decidable (WellNested stream) :=
  inferInstanceAs (Decidable (_ = _))

namespace Element

theorem after?_attributeEvents (opened : List Text) (attributes : AttributeMap) :
    Nesting.after? ⟨opened, true⟩ (attributeEvents attributes) = some ⟨opened, true⟩ := by
  induction attributes with
  | nil => rfl
  | cons item rest ih => exact ih

end Element

namespace Walk

variable {options : Options} {name : Text} {n m : Nesting} {w v : Walk}
  {given : Option AttributeMap} {receiver : Receiver} {names opened outer : List Text} {d : Draft}
  {es : List TagEvent} {channel : Channel}

/-! ### What closing tags look at -/

/-- However a tag is completed, the frames keep their names, and the tags inside them that are open
stay so. -/
theorem completeReceiver_stances (hreceiver : receiver = .nobody ∨ receiver = .top) :
    stances (final (completeReceiver options given receiver w)) = stances w := by
  rcases hreceiver with rfl | rfl
  · rfl
  · rcases w.draft.eq_push_or_frames_nil with hnil | ⟨frame, below, hdraft⟩
    · rw [completeReceiver, get_bind, hnil]
      rfl
    · cases hignored : frame.ignored with
      | true =>
        have hhead : w.draft.frames.head? = some frame := by rw [hdraft]; rfl
        rw [completeReceiver, get_bind, hhead]
        dsimp only
        rw [hignored, if_pos rfl]
        rfl
      | false =>
        rw [completeReceiver_top hdraft hignored]
        refine ((completeTop_composed stances_apart options [] _ false).keeps (fun _ _ => rfl) _).trans ?_
        show Draft.stances (below.push _) = w.draft.stances
        rw [hdraft]
        rfl

/-- The stances of frames with the given names: a tag is open inside all but the first. -/
def standing : List Text → List (Text × Bool)
  | [] => []
  | name :: outer => (name, false) :: outer.map (·, true)

/-- When the frame on top goes, no tag is open any more inside the next one. -/
theorem pop_stances (hw : stances w = (name, false) :: names.map (·, true)) :
    ∃ v, pop w = .ok () v ∧ stances v = standing names ∧ v.suppressed = w.suppressed ∧
      v.channel.strict = w.channel.strict ∧ (w.receiver = .nobody → v.receiver = .nobody) := by
  rcases w.draft.eq_push_or_frames_nil with hnil | ⟨frame, below, hdraft⟩
  · rw [stances, Draft.stances, hnil] at hw
    cases hw
  · obtain ⟨trace, hpop⟩ := exists_pop_eq hdraft
    refine ⟨_, hpop, ?_, rfl, rfl, fun hreceiver => ?_⟩
    · have hbelow : below.frames.map Frame.stance = names.map (·, true) := by
        rw [stances, hdraft] at hw
        exact (cons.inj hw).2
      refine (Draft.map_setBuffer (fun _ _ => rfl) _ _).trans ?_
      rw [@Draft.map_modifyTop_eq_modifyHead shut _ Frame.stance (fun s => (s.1, false)) (fun _ => rfl),
        hbelow]
      cases names <;> rfl
    · rw [hreceiver]
      rfl

/-! ### Frames and open tags -/

/-- How many of some open tags are named after other platforms. -/
def silenced (options : Options) (opened : List Text) : Nat :=
  opened.countP fun name => Name.isPlatform name && !options.matchesPlatform name

/-- The open tags that have frames, given all of them, the innermost first: those that are not named
after a platform and do not stand in a tag of another platform. -/
def framed (options : Options) : List Text → List Text
  | [] => []
  | name :: outer =>
    if Name.isPlatform name || silenced options outer ≠ 0 then framed options outer
    else name :: framed options outer

/-- **The frames of a walk are the open tags.** -/
structure Mirrors (options : Options) (opened : List Text) (w : Walk) : Prop where
  names : w.draft.frames.map Frame.fullName = framed options opened
  suppressed : w.suppressed = silenced options opened
  /-- A tag is open inside every frame but the one on top. -/
  hasOpenChild : ∀ top below, w.draft.frames = top :: below →
    top.hasOpenChild = false ∧ ∀ frame ∈ below, frame.hasOpenChild = true

theorem fst_standing (names : List Text) : (standing names).map Prod.fst = names := by
  cases names with
  | nil => rfl
  | cons name outer =>
    rw [standing, map_cons, map_map]
    exact congrArg (name :: ·) (map_id _)

theorem mirrors_iff : Mirrors options opened w ↔
    stances w = standing (framed options opened) ∧ w.suppressed = silenced options opened := by
  constructor
  · intro h
    refine ⟨?_, h.suppressed⟩
    rw [← h.names]
    unfold stances Draft.stances
    cases hframes : w.draft.frames with
    | nil => rfl
    | cons top below =>
      obtain ⟨htop, hbelow⟩ := h.hasOpenChild top below hframes
      rw [map_cons, map_cons, standing, map_map, Frame.stance, htop]
      refine congrArg (_ :: ·) (map_congr_left fun frame hframe => ?_)
      exact congrArg (frame.fullName, ·) (hbelow frame hframe)
  · rintro ⟨hstances, hsuppressed⟩
    refine ⟨?_, hsuppressed, fun top below hframes => ?_⟩
    · rw [← fst_standing (framed options opened), ← hstances, stances, Draft.stances, map_map]
      rfl
    · rw [stances, Draft.stances, hframes] at hstances
      generalize framed options opened = names at hstances
      cases names with
      | nil => cases hstances
      | cons name outer =>
        obtain ⟨htop, hbelow⟩ := cons.inj hstances
        refine ⟨congrArg Prod.snd htop, fun frame hframe => ?_⟩
        have hmem : frame.stance ∈ outer.map (·, true) := by
          rw [← hbelow]
          exact mem_map_of_mem hframe
        obtain ⟨_, _, heq⟩ := mem_map.mp hmem
        exact (congrArg Prod.snd heq).symm

section Open

variable {outer : List Text}

theorem framed_platform (hname : Name.isPlatform name = true) :
    framed options (name :: outer) = framed options outer := by
  rw [framed, hname, Bool.true_or, if_pos rfl]

theorem framed_hushed (houter : silenced options outer ≠ 0) :
    framed options (name :: outer) = framed options outer := by
  rw [framed, decide_eq_true houter, Bool.or_true, if_pos rfl]

theorem framed_cons (hname : Name.isPlatform name = false) (houter : silenced options outer = 0) :
    framed options (name :: outer) = name :: framed options outer := by
  rw [framed, hname, decide_eq_false (not_not_intro houter), Bool.or_false,
    if_neg Bool.false_ne_true]

theorem silenced_platform (hname : Name.isPlatform name = true) :
    (silenced options (name :: outer) : Int) = silenced options outer + silence options name := by
  unfold silenced silence
  rw [countP_cons, hname, Bool.true_and]
  cases options.matchesPlatform name with
  | true => rfl
  | false => rfl

theorem silenced_cons (hname : Name.isPlatform name = false) :
    silenced options (name :: outer) = silenced options outer := by
  unfold silenced
  rw [countP_cons, hname]
  rfl

end Open

/-! ### The step -/

/-- A lenient walk has taken the events of a stream up to a point. -/
structure Tracks (options : Options) (n : Nesting) (w : Walk) : Prop where
  mirrors : Mirrors options n.opened w
  lenient : w.channel.strict = false
  settled : n.receives = false → w.receiver = .nobody
  live : w.receiver = .nobody ∨ w.receiver = .top

section

variable (h : Tracks options ⟨name :: outer, false⟩ w) (hframed : Framed name w)
include h hframed

/-- A tag that has a frame stands in no tag of another platform. -/
theorem Tracks.silenced_outer : silenced options outer = 0 := by
  have hsuppressed := h.mirrors.suppressed
  rw [hframed.suppressed, silenced_cons hframed.name] at hsuppressed
  omega

theorem Tracks.fullNames : w.draft.frames.map Frame.fullName = name :: framed options outer :=
  h.mirrors.names.trans (framed_cons hframed.name (h.silenced_outer hframed))

/-- The innermost open tag has its frame on top, if it has one. -/
theorem Tracks.exists_top : ∃ d frame, w.draft = Draft.push d frame ∧ Closes name frame := by
  have hnames := h.fullNames hframed
  rcases w.draft.eq_push_or_frames_nil with hnil | ⟨frame, d, hdraft⟩
  · rw [hnil] at hnames
    cases hnames
  · rw [hdraft] at hnames
    refine ⟨d, frame, hdraft, (cons.inj hnames).1, ?_⟩
    exact (h.mirrors.hasOpenChild frame d.frames (by rw [hdraft]; rfl)).1

end

theorem stances_entered {f : Frame → Frame}
    (hf : ∀ frame, (f frame).stance = (frame.fullName, true)) (hd : d.stances = standing names) :
    (d.modifyTop f).stances = names.map (·, true) := by
  have hhead := @Draft.map_modifyTop_eq_modifyHead f _ Frame.stance (fun s => (s.1, true)) hf d
  rw [show d.frames.map Frame.stance = _ from hd] at hhead
  rw [Draft.stances, hhead]
  cases names <;> rfl

theorem Tracks.openTag (h : Tracks options ⟨opened, false⟩ w) (name : Text) :
    ∃ v, openTag options name w = .ok () v ∧ Tracks options ⟨name :: opened, true⟩ v := by
  obtain ⟨v, hrun, hreceives⟩ := receive_run options name [] h.lenient (h.settled rfl)
  obtain ⟨_, u, hopen, hnil⟩ := bind_eq_ok hrun
  cases hnil
  obtain ⟨hstances, hsuppressed⟩ := mirrors_iff.mp h.mirrors
  dsimp only at hstances hsuppressed
  -- a tag with a frame of its own
  have hpush {f : Frame → Frame} {frame : Frame} (hframed : Framed name w)
      (hf : ∀ frame, (f frame).stance = (frame.fullName, true))
      (hcore : core v = { (core w).withDraft ((w.draft.modifyTop f).push frame) with
        receiver := .top }) (hframe : frame.stance = (name, false)) :
      Tracks options ⟨name :: opened, true⟩ v := by
    have hzero := hframed.suppressed
    have hcount : v.suppressed = w.suppressed := (congrArg suppressed hcore :)
    refine ⟨mirrors_iff.mpr ⟨?_, ?_⟩, (congrArg (·.channel.strict) hcore :).trans h.lenient,
      nofun, .inr (congrArg receiver hcore :)⟩
    · rw [stances, draft_of_core hcore, framed_cons hframed.name (by omega), standing]
      show frame.stance :: (w.draft.modifyTop f).stances = _
      rw [hframe, stances_entered hf hstances]
    · rw [silenced_cons hframed.name, hcount, hsuppressed]
  refine ⟨v, hopen, ?_⟩
  cases hreceives with
  | outside hcore _ hwhy =>
    have hsame : stances v = stances w := (congrArg stances hcore :)
    have hcount : v.suppressed = _ := (congrArg suppressed hcore :)
    have hkept : v.receiver = w.receiver := (congrArg receiver hcore :)
    refine ⟨mirrors_iff.mpr ⟨?_, ?_⟩, (congrArg (·.channel.strict) hcore :).trans h.lenient,
      nofun, hkept ▸ h.live⟩
    · cases hwhy with
      | platform hname => rw [hsame, framed_platform hname, hstances]
      | hushed _ hne => rw [hsame, framed_hushed (by omega), hstances]
    · cases hwhy with
      | platform hname => rw [hcount, silenced_platform hname, ← hsuppressed]
      | hushed hname => rw [hcount, silenced_cons hname, hsuppressed]
  | skipped hcore _ hframed => exact hpush hframed (fun _ => rfl) hcore rfl
  | @accepted frame _ haccepted hcore _ hframed =>
    obtain ⟨tagName, index, hnew⟩ := haccepted.eq_new
    have hstance : frame.stance = (name, false) := by
      rw [Frame.stance, haccepted.fullName, hnew]
      rfl
    exact hpush hframed (fun _ => rfl) hcore hstance

theorem Tracks.setAttribute (h : Tracks options ⟨opened, true⟩ w) (name value : Text) :
    ∃ v, setAttribute name value w = .ok () v ∧ Tracks options ⟨opened, true⟩ v := by
  obtain ⟨hstances, hsuppressed⟩ := mirrors_iff.mp h.mirrors
  unfold Walk.setAttribute
  rw [get_bind]
  rcases h.live with hreceiver | hreceiver
  · rw [hreceiver]
    exact ⟨w, rfl, h⟩
  · rw [hreceiver]
    refine ⟨_, rfl, mirrors_iff.mpr ⟨?_, hsuppressed⟩, h.lenient, nofun, .inr hreceiver⟩
    rw [← hstances]
    apply Draft.stances_modifyTop
    intro frame
    rfl

/-- What an event comes to that keeps the frames in step with the open tags. -/
def Goes (options : Options) (n m : Nesting) : EStateM.Result Failure Walk Unit → Prop
  | .ok _ v => Tracks options m v
  -- the walk ends here, with the frames that it had before
  | .error (.defect _) v => Mirrors options n.opened v
  | .error (.raised _) _ => False

theorem nobody_of_isNobody (h : isNobody receiver = true) : receiver = .nobody := by
  cases receiver with
  | nobody => rfl
  | top => cases h
  | closed frame => cases h

theorem Tracks.completeTag (h : Tracks options ⟨opened, true⟩ w) :
    Goes options ⟨opened, true⟩ ⟨opened, false⟩ (completeTag options given w) := by
  obtain ⟨hstances, hsuppressed⟩ := mirrors_iff.mp h.mirrors
  have hcomposed := completeTag_composed options given
  have hkept : stances (final (Walk.completeTag options given w)) = stances w :=
    completeReceiver_stances h.live
  have houtline := completeTag_outline options given w
  have hmirrors : Mirrors options opened (final (Walk.completeTag options given w)) :=
    mirrors_iff.mpr ⟨hkept.trans hstances,
      (congrArg Prod.snd houtline : _ = w.suppressed).trans hsuppressed⟩
  have hmode := hcomposed.keeps_mode w
  cases hrun : Walk.completeTag options given w with
  | error failure v =>
    rw [hrun] at hmirrors
    cases failure with
    | raised e => exact absurd hrun (hcomposed.not_raised h.lenient)
    | defect d => exact hmirrors
  | ok a v =>
    rw [hrun, final_ok] at hmirrors houtline hmode
    have hreceiver := nobody_of_isNobody (congrArg Prod.fst houtline)
    exact ⟨hmirrors, hmode.trans h.lenient, fun _ => hreceiver, .inl hreceiver⟩

/-- A closing tag that meets its frame takes it away. -/
theorem closeTag_closes {frame : Frame} (hframed : Framed name w)
    (hdraft : w.draft = d.push frame) (hcloses : Closes name frame) : closeTag options name w =
      (if frame.ignored then pop else do endTop options frame; pop : Step Unit) w := by
  have hhead : w.draft.frames.head? = some frame := by rw [hdraft]; rfl
  rw [closeTag_eq hframed, hhead]
  dsimp only
  rw [hcloses.fullName, hcloses.hasOpenChild, decide_eq_true rfl]
  cases frame.ignored <;> rfl

/-- A tag with a frame that is closed. -/
theorem Tracks.closeFramed (h : Tracks options ⟨name :: outer, false⟩ w) (hframed : Framed name w) :
    Goes options ⟨name :: outer, false⟩ ⟨outer, false⟩ (closeTag options name w) := by
  have hreceiver := h.settled rfl
  obtain ⟨below, frame, hdraft, hcloses⟩ := h.exists_top hframed
  obtain ⟨hstances, hsuppressed⟩ := mirrors_iff.mp h.mirrors
  have hcount : w.suppressed = silenced options outer := by
    rw [hsuppressed, silenced_cons hframed.name]
  have hstanding : standing (framed options (name :: outer)) =
      (name, false) :: (framed options outer).map (·, true) :=
    congrArg standing (framed_cons hframed.name (h.silenced_outer hframed))
  -- taking the frame away leaves the frames of the tags around
  have hpop {u : Walk} (hu : stances u = stances w) (houtline : outline u = outline w)
      (hmode : u.channel.strict = w.channel.strict) :
      Goes options ⟨name :: outer, false⟩ ⟨outer, false⟩ (pop u) := by
    have hnobody : u.receiver = .nobody := by
      apply nobody_of_isNobody
      rw [show isNobody u.receiver = isNobody w.receiver from congrArg Prod.fst houtline, hreceiver]
      rfl
    obtain ⟨v, hv, hnames, hkept, hstrict, hclosed⟩ :=
      pop_stances (hu.trans (hstances.trans hstanding))
    have hsame : u.suppressed = w.suppressed := congrArg Prod.snd houtline
    rw [hv]
    exact ⟨mirrors_iff.mpr ⟨hnames, hkept.trans (hsame.trans hcount)⟩,
      hstrict.trans (hmode.trans h.lenient), fun _ => hclosed hnobody, .inl (hclosed hnobody)⟩
  rw [closeTag_closes hframed hdraft hcloses]
  cases frame.ignored with
  | true => exact hpop rfl rfl rfl
  | false =>
    have hcomposed := endTop_composed outline_apart.toAloof options frame
    have hkept := (endTop_composed stances_apart.toAloof options frame).keeps (fun _ _ => rfl) w
    have houtline := hcomposed.keeps outline_deaf w
    have hmode := hcomposed.keeps_mode w
    rw [if_neg Bool.false_ne_true]
    cases hend : endTop options frame w with
    | error failure u =>
      rw [hend] at hkept houtline
      rw [bind_error hend]
      cases failure with
      | raised e => exact absurd hend (hcomposed.not_raised h.lenient)
      | defect d =>
        exact mirrors_iff.mpr ⟨hkept.trans hstances,
          (congrArg Prod.snd houtline : _ = w.suppressed).trans hsuppressed⟩
    | ok _ u =>
      rw [hend, final_ok] at hkept houtline hmode
      rw [bind_ok hend]
      exact hpop hkept houtline hmode

theorem Tracks.closeTag (h : Tracks options ⟨name :: outer, false⟩ w) :
    Goes options ⟨name :: outer, false⟩ ⟨outer, false⟩ (closeTag options name w) := by
  have hreceiver := h.settled rfl
  obtain ⟨hstances, hsuppressed⟩ := mirrors_iff.mp h.mirrors
  cases hname : Name.isPlatform name with
  | true =>
    rw [closeTag_platform hname]
    refine ⟨mirrors_iff.mpr ⟨?_, ?_⟩, h.lenient, fun _ => hreceiver, h.live⟩
    · rw [framed_platform hname] at hstances
      exact hstances
    · rw [silenced_platform hname] at hsuppressed
      show w.suppressed - silence options name = silenced options outer
      omega
  | false =>
    by_cases hzero : w.suppressed = 0
    · exact h.closeFramed ⟨hname, hzero⟩
    · rw [silenced_cons hname] at hsuppressed
      rw [framed_hushed (by omega)] at hstances
      rw [closeTag_hushed hname hzero]
      exact ⟨mirrors_iff.mpr ⟨hstances, hsuppressed⟩, h.lenient, fun _ => hreceiver, h.live⟩

theorem Tracks.finish (h : Tracks options .bare w) : Goes options .bare .bare (finish w) := by
  unfold Walk.finish
  rw [get_bind]
  cases w.initialized with
  | true => exact h
  | false =>
    show Goes options .bare .bare (report (.ofCause (.tag .noRoot)) w)
    rw [@report_lenient w (.ofCause (.tag .noRoot)) rfl h.lenient]
    exact ⟨⟨h.mirrors.names, h.mirrors.suppressed, h.mirrors.hasOpenChild⟩, h.lenient,
      h.settled, h.live⟩

/-- **The step.**  An event that may come keeps the frames in step with the open tags. -/
theorem Tracks.event {e : TagEvent} (h : Tracks options n w) (hn : n.next? e = some m) :
    Goes options n m (Walk.event options e w) := by
  cases Nesting.follows_of_next? hn with
  | @openTag opened name =>
    obtain ⟨v, hrun, hv⟩ := h.openTag name
    rw [show Walk.event options (.openTag name) w = .ok () v from hrun]
    exact hv
  | @setAttribute opened name value =>
    obtain ⟨v, hrun, hv⟩ := h.setAttribute name value
    rw [show Walk.event options (.setAttribute name value) w = .ok () v from hrun]
    exact hv
  | completeTag => exact h.completeTag
  | closeTag => exact h.closeTag
  | finish => exact h.finish

/-! ### The run -/

/-- What a run over events comes to: all of them have been taken, or one of them has ended the walk
and the frames are those for the events before it. -/
def Reaches (options : Options) (n : Nesting) (events : List TagEvent) :
    EStateM.Result Failure Walk Unit → Prop
  | .ok _ v => ∃ m, n.after? events = some m ∧ Tracks options m v
  | .error (.defect _) v => ∃ taken e rest m, events = taken ++ e :: rest ∧
      n.after? taken = some m ∧ Mirrors options m.opened v
  | .error (.raised _) _ => False

/-- **The run.** -/
theorem Tracks.events (h : Tracks options n w) (hm : n.after? es = some m) :
    Reaches options n es (Walk.events options es w) := by
  induction es generalizing n w with
  | nil =>
    exact ⟨_, rfl, h⟩
  | cons e rest ih =>
    obtain ⟨k, hk, hrest⟩ := Option.bind_eq_some_iff.mp hm
    have hstep := h.event hk
    rw [events_cons]
    have hafter (taken : List TagEvent) : n.after? (e :: taken) = k.after? taken := by
      rw [Nesting.after?, hk]
      rfl
    cases hrun : Walk.event options e w with
    | error failure v =>
      rw [hrun] at hstep
      rw [bind_error hrun]
      cases failure with
      | raised e => exact hstep
      | defect d => exact ⟨[], e, rest, n, rfl, rfl, hstep⟩
    | ok a v =>
      rw [hrun] at hstep
      rw [bind_ok hrun]
      have hreach := ih hstep hrest
      cases hresult : Walk.events options rest v with
      | ok a u =>
        rw [hresult] at hreach
        obtain ⟨m, hm, hu⟩ := hreach
        exact ⟨m, (hafter rest).trans hm, hu⟩
      | error failure u =>
        rw [hresult] at hreach
        cases failure with
        | raised e => exact hreach
        | defect d =>
          obtain ⟨taken, e', rest', m, rfl, hm, hu⟩ := hreach
          exact ⟨e :: taken, e', rest', m, rfl, (hafter taken).trans hm, hu⟩

theorem tracks_start (hchannel : channel.strict = false) : Tracks options .bare (start channel) :=
  ⟨⟨rfl, rfl, fun top below h => absurd h.symm (cons_ne_nil top below)⟩, hchannel,
    fun _ => rfl, .inl rfl⟩

/-- Tags inside an open tag add to its frames. -/
theorem length_framed_append (above opened : List Text) :
    (framed options opened).length ≤ (framed options (above ++ opened)).length := by
  induction above with
  | nil => exact Nat.le_refl _
  | cons name above ih =>
    rw [cons_append, framed]
    split
    · exact ih
    · exact Nat.le_succ_of_le ih

/-- A run that goes to the end tracks the stream. -/
theorem Tracks.of_ok (h : Tracks options n w) (hm : n.after? es = some m)
    (hrun : Walk.events options es w = .ok () v) : Tracks options m v := by
  have hreach := h.events hm
  rw [hrun] at hreach
  obtain ⟨m', hm', hv⟩ := hreach
  cases hm.symm.trans hm'
  exact hv

/-- **A closing tag meets its frame.**  Some events have been taken, and a closing tag follows. -/
structure Meets (options : Options) (channel : Channel) (taken : List TagEvent) (name : Text)
    (w : Walk) (before inner : List TagEvent) (u : Walk) (d : Draft) (frame : Frame) : Prop where
  /-- Among the events is the opening tag. -/
  split : taken = before ++ .openTag name :: inner
  earlier : events options before (start channel) = .ok () u
  /-- Since then there have always been more frames than before it. -/
  since : ∀ first t, first <+: inner →
    events options (before ++ .openTag name :: first) (start channel) = .ok () t →
      u.draft.frames.length < t.draft.frames.length
  top : w.draft = d.push frame
  closes : Closes name frame
  below : d.frames.map Frame.fullName = u.draft.frames.map Frame.fullName
  /-- Afterwards the frames are again those before the opening tag. -/
  after : ∀ v, closeTag options name w = .ok () v →
    v.draft.frames.map Frame.fullName = u.draft.frames.map Frame.fullName

theorem exists_meets {taken : List TagEvent} {n' : Nesting}
    (hchannel : channel.strict = false) (hn : Nesting.bare.after? taken = some n)
    (hnext : n.next? (.closeTag name) = some n')
    (hw : events options taken (start channel) = .ok () w) (hframed : Framed name w) :
    ∃ before inner u d frame, Meets options channel taken name w before inner u d frame := by
  have hstart : Tracks options .bare (start channel) := tracks_start hchannel
  have htracks := hstart.of_ok hn hw
  cases Nesting.follows_of_next? hnext with
  | @closeTag _ outer =>
    obtain ⟨before, inner, rfl, hbefore, hinner⟩ :=
      Nesting.exists_opening hn (nil_append (name :: outer)).symm
    have hrun := hw
    rw [events_append] at hrun
    obtain ⟨_, u, hu, _⟩ := bind_eq_ok hrun
    have hnames := htracks.fullNames hframed
    have hunames : u.draft.frames.map Frame.fullName = framed options outer :=
      (hstart.of_ok hbefore hu).mirrors.names
    obtain ⟨d, frame, hdraft, hcloses⟩ := htracks.exists_top hframed
    rw [hdraft] at hnames
    refine ⟨before, inner, u, d, frame, rfl, hu, ?_, hdraft, hcloses,
      (cons.inj hnames).2.trans hunames.symm, ?_⟩
    · intro first t hfirst ht
      obtain ⟨above, k, hk, hopened⟩ := hinner first hfirst
      have htnames := (hstart.of_ok hk ht).mirrors.names
      have hlength := @length_framed_append options above (name :: outer)
      rw [framed_cons hframed.name (htracks.silenced_outer hframed), ← hopened, ← htnames, ← hunames] at hlength
      rw [length_cons, length_map, length_map] at hlength
      exact hlength
    · intro v hv
      have hgoes := htracks.closeTag
      rw [hv] at hgoes
      exact hgoes.mirrors.names.trans hunames.symm

/-- **The frames mirror the nesting of tags.**  A lenient walk takes the events of a well-nested stream
one after the other.

* After every prefix that it has taken, its frames are the open tags; if an event ends the walk with
  a defect, they are those before that event.
* A closing tag that has a frame closes the frame on top, which is the one that its opening tag has
  pushed.
* At the end there are no frames, and no tag of another platform is open. -/
theorem events_stack (options : Options) {channel : Channel} (hchannel : channel.strict = false)
    {stream : List TagEvent} (hstream : WellNested stream) :
    (∀ taken, taken <+: stream → ∃ n, Nesting.bare.after? taken = some n ∧
      ((∃ w, events options taken (start channel) = .ok () w ∧ Mirrors options n.opened w) ∨
        ∃ before e rest m d w, taken = before ++ e :: rest ∧
          Nesting.bare.after? before = some m ∧
          events options taken (start channel) = .error (.defect d) w ∧
          Mirrors options m.opened w)) ∧
    (∀ taken name w, taken ++ [.closeTag name] <+: stream →
      events options taken (start channel) = .ok () w → Framed name w →
      ∃ before inner u d frame, Meets options channel taken name w before inner u d frame) ∧
    ∀ w, events options stream (start channel) = .ok () w →
      w.draft.frames = [] ∧ w.suppressed = 0 := by
  have hstart : Tracks options .bare (start channel) := tracks_start hchannel
  refine ⟨?_, ?_, ?_⟩
  · rintro taken ⟨rest, rfl⟩
    obtain ⟨n, hn, _⟩ := Nesting.after?_of_append hstream
    refine ⟨n, hn, ?_⟩
    have hreach := hstart.events hn
    cases hrun : events options taken (start channel) with
    | ok a w =>
      rw [hrun] at hreach
      obtain ⟨m, hm, hw⟩ := hreach
      cases hn.symm.trans hm
      exact .inl ⟨w, rfl, hw.mirrors⟩
    | error failure w =>
      rw [hrun] at hreach
      cases failure with
      | raised e => exact hreach.elim
      | defect d =>
        obtain ⟨before, e, rest', m, htaken, hm, hw⟩ := hreach
        exact .inr ⟨before, e, rest', m, d, w, htaken, hm, rfl, hw⟩
  · rintro taken name w ⟨rest, rfl⟩ hw hframed
    obtain ⟨n', hn', _⟩ := Nesting.after?_of_append hstream
    obtain ⟨n, hn, hnext⟩ := Nesting.after?_of_concat hn'
    exact exists_meets hchannel hn hnext hw hframed
  · intro w hw
    have hmirrors := (hstart.of_ok hstream hw).mirrors
    exact ⟨map_eq_nil_iff.mp hmirrors.names, hmirrors.suppressed⟩

/-- Grids inside and beside each other, one of them for another platform. -/
def nestedGrids : List Element :=
  [.mk "Grid" []
    [.mk "Grid" [] [.mk "Grid.rows" [] [.mk "Label" [] []], .mk "slotContent" [] []],
      .mk "iOS" [] [.mk "Grid" [] []],
      .mk "Grid" [] []]]

theorem events_stack_nestedGrids : ∃ w,
    events (.standard .standard) (Element.eventsOf nestedGrids) (start (.empty false .unknown)) =
      .ok () w ∧ w.draft.frames = [] ∧ w.suppressed = 0 := by
  have hok : succeeds (events (.standard .standard) (Element.eventsOf nestedGrids)
      (start (.empty false .unknown))) = true := by
    decide +kernel
  have hw := eq_ok_of_succeeds hok
  exact ⟨_, hw, (events_stack (.standard .standard) rfl
    (by decide)).2.2 _ hw⟩

end Walk

end ViewMarkup
